import Redline.Device.Layers
import Redline.Engine.Lockstep

/-!
# The engine over the layered forward

`layered` is the device that runs `forwardOps`, the kernels of a step in stream order, on its slab.
The rows of a launch own what they read and write apart (`Launched.rowsApart`), so the pool that the
rows leave in order explains what every layer finds (`Launched.explained`), and the device answers as
rows in order do (`layered_answers`): the last row of a last chunk, every live row of a decode batch.

* `Launched.enqueued`   the kernels of a launch are those of `forwardOps`;
* `Launched.laid`       each kernel finds the table of a row with its own row stride;
* `layered_refines`     under `reserve_full` every request is decoded as if alone.
-/

namespace Redline
open Prog Ledger Decoding

/-- row `t` of the uploaded inputs -/
def Launch.row (l : Launch) (t : Nat) : DeviceRow := l.rows.getD t ⟨0, 0, 0, []⟩

section
variable {T : Nat} {o : SchedulerOptions} {s : Scheduler} {plan : StepPlan} {x : Executor} {l : Launch}

theorem Launch.row_get {t : Nat} {row : DeviceRow} (h : l.rows[t]? = some row) : l.row t = row := by
  unfold Launch.row
  rw [List.getD_eq_getElem?_getD, h]
  rfl

/-- what a live row is, and how the rows of one request follow each other -/
theorem Launched.liveRow (h : Inv T o s) (hP : Scheduler.PlanOk o s plan)
    (hL : Launched x o s plan l) : ∀ t < l.batch.length, ∃ r ∈ s.admitted,
      l.batch[t]? = some r ∧ l.rows[t]? = some (l.row t) ∧
      RowOf x (s.heap r) (l.row t).position (l.row t) ∧
      ∀ t' < l.batch.length, l.batch[t']? = some r → t ≤ t' →
        (l.row t).position + (t' - t) = (l.row t').position := by
  intro t ht
  have hbatch := List.getElem?_eq_getElem ht
  cases hL with
  | chunk r prefill ok =>
    have hn : t < plan.prefillEnd - plan.prefillBegin := by simpa using ht
    have hrow : ∀ t < plan.prefillEnd - plan.prefillBegin, ((List.range
          (plan.prefillEnd - plan.prefillBegin)).map fun t =>
            x.chunkRow (s.heap r) plan.prefillEnd (plan.prefillBegin + t))[t]?
          = some (x.chunkRow (s.heap r) plan.prefillEnd (plan.prefillBegin + t)) := by
      intro t ht
      rw [List.getElem?_map, List.getElem?_range ht]
      rfl
    have hm : r ∈ s.prefillQueue := by
      cases hP with
      | prefill y rest queue shape blocks =>
        rw [shape] at prefill
        obtain rfl : y = r := Option.some.inj prefill
        rw [queue]
        exact List.mem_cons_self
      | decode shape running blocks victims => rw [shape] at prefill; cases prefill
    refine ⟨r, List.mem_append_right _ hm, ?_, ?_, ?_, fun t' ht' _ hle => ?_⟩
    · rw [hbatch]
      exact congrArg some (List.getElem_replicate _)
    · rw [Launch.row_get (hrow t hn)]
      exact hrow t hn
    · rw [Launch.row_get (hrow t hn)]
      have hlt : plan.prefillBegin + t < plan.prefillEnd := by omega
      exact rowOf_chunkRow ok hlt
    · have hn' : t' < plan.prefillEnd - plan.prefillBegin := by simpa using ht'
      rw [Launch.row_get (hrow t hn), Launch.row_get (hrow t' hn')]
      show plan.prefillBegin + t + (t' - t) = plan.prefillBegin + t'
      omega
  | batch rows prefill busy ok live max =>
    have hrunning : plan.decode = s.running ∧ plan.decode.Nodup := by
      cases hP with
      | prefill y rest queue shape blocks => rw [shape] at prefill; cases prefill
      | decode shape running blocks victims =>
        exact ⟨running.symm, running ▸ (List.nodup_append.mp h.nodup).1⟩
    have hrow : ∀ (t : Nat) (r : Nat), plan.decode[t]? = some r →
        (x.decodeRows (plan.decode.map s.heap) rows)[t]? = some (x.decodeRow (s.heap r)) := by
      intro t r hr
      have hlt : t < plan.decode.length := (List.getElem?_eq_some_iff.mp hr).1
      unfold Executor.decodeRows
      rw [List.getElem?_append_left (by simpa using hlt), List.getElem?_map, List.getElem?_map, hr]
      rfl
    have hmem : plan.decode[t] ∈ plan.decode := List.getElem_mem ht
    have hin : plan.decode[t] ∈ s.running := by
      rw [← hrunning.1]
      exact hmem
    refine ⟨plan.decode[t], List.mem_append_left _ hin, hbatch, ?_, ?_,
      fun t' ht' hb' hle => ?_⟩
    · rw [Launch.row_get (hrow t _ hbatch)]
      exact hrow t _ hbatch
    · rw [Launch.row_get (hrow t _ hbatch)]
      exact rowOf_decodeRow (ok _ hmem)
    · have htt : t = t' := by
        have hb'' : plan.decode[t'] = plan.decode[t] := by
          rw [List.getElem?_eq_getElem ht'] at hb'
          exact Option.some.inj hb'
        exact (hrunning.2.getElem_inj_iff.mp hb''.symm)
      subst htt
      omega

theorem owners_pad (rows : List DeviceRow) : ∀ (batch : List Nat) (t : Nat), batch.length ≤ t →
    (owners batch rows)[t]? = (rows[t]?).map fun row => (none, row) := by
  induction rows with
  | nil => intro batch t _; cases batch <;> rfl
  | cons row rows ih =>
    intro batch t hle
    match batch, t, hle with
    | [], 0, _ => rfl
    | [], t + 1, _ => exact ih [] t (Nat.zero_le _)
    | r :: batch, t + 1, hle => exact ih batch t (Nat.le_of_succ_le_succ hle)

theorem Launch.rows_get (l : Launch) {t : Nat} (ht : t < l.rows.length) :
    l.rows[t]? = some (l.row t) := by
  have hrow := List.getElem?_eq_getElem ht
  rw [Launch.row_get hrow]
  exact hrow

/-- the rows past the live ones are padding -/
theorem Launched.padRow (h : Inv T o s) (hP : Scheduler.PlanOk o s plan)
    (hL : Launched x o s plan l) {t : Nat} (ht : t < l.rows.length) (hl : ¬ t < l.batch.length) :
    PadRow (l.row t) := by
  have hitem : l.items[t]? = some (none, l.row t) := by
    unfold Launch.items
    rw [owners_pad _ _ _ (Nat.le_of_not_lt hl), l.rows_get ht]
    rfl
  exact (hL.feeds h hP).1.harmless _ (List.mem_of_getElem? hitem)

/-- **The rows of a launch** own what they read, and none writes what an earlier one reads. -/
theorem Launched.rowsApart (h : Inv T o s) (hP : Scheduler.PlanOk o s plan)
    (hL : Launched x o s plan l) : RowsApart l.rows.length (· < l.batch.length) l.row where
  owned := fun t _ hl p hp => by
    obtain ⟨r, hr, _, _, hrow, _⟩ := hL.liveRow h hP t hl
    have hlt : p < (l.row t).extent := Nat.lt_of_le_of_lt hp hrow.within
    rw [hrow.cell hlt]
    intro hd
    have hpage := Paged.cell_page (d := kInvalidBlockId) (Nat.lt_of_lt_of_le hlt hrow.covers)
    rw [hd] at hpage
    exact h.dummy_free hr hpage
  apart := fun t _ t' _ hl hl' hle p hp hcell => by
    obtain ⟨r, hr, hb, _, hrow, hnext⟩ := hL.liveRow h hP t hl
    obtain ⟨r', hr', hb', _, hrow', _⟩ := hL.liveRow h hP t' hl'
    have hlt : p < (l.row t).extent := Nat.lt_of_le_of_lt hp hrow.within
    rw [hrow.cell hlt, show (l.row t').cell = _ from hrow'.cell hrow'.within] at hcell
    obtain ⟨rfl, hpos⟩ := h.owned.cell_inj hr hr' (Nat.lt_of_lt_of_le hlt hrow.covers)
      (Nat.lt_of_lt_of_le hrow'.within hrow'.covers) hcell
    have := hnext t' hl' hb' hle
    omega
  idle := fun t ht hl => (hL.padRow h hP ht hl).block

end

/-! ## the rows in order explain the pool -/

theorem runRows_eq {ι : Type} (f : Option Nat → DeviceRow → Pool ι → ι × Int)
    (items : List (Option Nat × DeviceRow)) : ∀ d : Pool ι, runRows f items d
      = InOrder.run (fun i => i.2.cell) (fun i d => f i.1 i.2 d) items d := by
  induction items with
  | nil => exact fun d => rfl
  | cons i items ih =>
    intro d
    show (_ :: (runRows f items _).1, (runRows f items _).2) = _
    rw [ih]
    rfl

theorem greedyRow_looks {κ : Type} (F : Numerics κ) (i : Option Nat × DeviceRow) :
    InOrder.Looks (fun (i : Option Nat × DeviceRow) (d : Pool κ) => greedyRow F i.1 i.2 d) i
      fun c => ∃ p < i.2.position, cellOf i.2.table p = c := by
  intro d d' h
  have hcells : (List.range (min i.2.position i.2.extent)).map (fun p => d (cellOf i.2.table p))
      = (List.range (min i.2.position i.2.extent)).map fun p => d' (cellOf i.2.table p) :=
    List.map_congr_left fun p hp =>
      h _ ⟨p, Nat.lt_of_lt_of_le (List.mem_range.mp hp) (Nat.min_le_left _ _), rfl⟩
  exact congrArg (F i.2.inputId i.2.position) hcells

section
variable {T : Nat} {o : SchedulerOptions} {s : Scheduler} {plan : StepPlan} {x : Executor} {l : Launch}
  {κ : Type} {F : Numerics κ}

theorem Launch.items_length (l : Launch) : l.items.length = l.rows.length := length_owners _ _

/-- item `t` is row `t` -/
theorem Launch.items_get (l : Launch) {t : Nat} (ht : t < l.rows.length) :
    ∃ r, l.items[t]? = some (r, l.row t) := by
  by_cases hl : t < l.batch.length
  · exact ⟨_, owners_get (List.getElem?_eq_getElem hl) (l.rows_get ht)⟩
  · refine ⟨none, ?_⟩
    unfold Launch.items
    rw [owners_pad _ _ _ (Nat.le_of_not_lt hl), l.rows_get ht]
    rfl

/-- **A live row** is explained by the pool at the end of the launch. -/
theorem Launched.explains (h : Inv T o s) (hP : Scheduler.PlanOk o s plan)
    (hL : Launched x o s plan l) (d : Pool κ) {t : Nat} (hl : t < l.batch.length) :
    (runRows (greedyRow F) l.items d).2 (l.row t).cell = (F (l.row t).inputId (l.row t).position
        ((List.range (l.row t).position).map fun p =>
          (runRows (greedyRow F) l.items d).2 (cellOf (l.row t).table p))).1 ∧
      (runRows (greedyRow F) l.items d).1[t]? = some (F (l.row t).inputId (l.row t).position
        ((List.range (l.row t).position).map fun p =>
          (runRows (greedyRow F) l.items d).2 (cellOf (l.row t).table p))).2 := by
  have hR := hL.rowsApart h hP
  obtain ⟨_, _, _, hrow, hof, _⟩ := hL.liveRow h hP t hl
  have ht : t < l.rows.length := (List.getElem?_eq_some_iff.mp hrow).1
  obtain ⟨r, hitem⟩ := l.items_get ht
  have hti : t < l.items.length := by rw [l.items_length]; exact ht
  have hsplit : l.items = l.items.take t ++ (r, l.row t) :: l.items.drop (t + 1) := by
    have hget : l.items[t] = (r, l.row t) :=
      Option.some.inj ((List.getElem?_eq_getElem hti).symm.trans hitem)
    rw [← hget, List.getElem_cons_drop, List.take_append_drop]
  have hlen : (l.items.take t).length = t := by
    rw [List.length_take]
    omega
  -- the rows behind it write elsewhere
  have hpost : ∀ j ∈ l.items.drop (t + 1), j.2.cell ≠ (l.row t).cell ∧
      ¬ ∃ p < (l.row t).position, cellOf (l.row t).table p = j.2.cell := by
    intro j hj
    obtain ⟨k, hk, hget⟩ := List.getElem_of_mem hj
    rw [List.length_drop, l.items_length] at hk
    obtain ⟨r', hitem'⟩ := l.items_get (t := t + 1 + k) (by omega)
    have hjk : j = (r', l.row (t + 1 + k)) := by
      rw [← hget, List.getElem_drop]
      exact Option.some.inj ((List.getElem?_eq_getElem _).symm.trans hitem')
    have hno : ∀ p ≤ (l.row t).position, cellOf (l.row t).table p ≠ (l.row (t + 1 + k)).cell := by
      intro p hp hcell
      by_cases hl' : t + 1 + k < l.batch.length
      · have := (hR.apart t ht (t + 1 + k) (by omega) hl hl' (by omega) p hp hcell).1
        omega
      · exact hR.owned t ht hl p hp
          ((congrArg Prod.fst hcell).trans (hR.idle (t + 1 + k) (by omega) hl'))
    subst hjk
    exact ⟨fun e => hno _ (Nat.le_refl _) e.symm, fun ⟨p, hp, e⟩ => hno p (Nat.le_of_lt hp) e⟩
  have hown : ¬ ∃ p < (l.row t).position, cellOf (l.row t).table p = (l.row t).cell := by
    rintro ⟨p, hp, e⟩
    have := (hR.apart t ht t ht hl hl (Nat.le_refl _) p (Nat.le_of_lt hp) e).2
    omega
  have hrun := InOrder.run_final (l.items.take t) (l.items.drop (t + 1))
    (greedyRow_looks F (r, l.row t)) hown hpost d
  rw [← hsplit, hlen, ← runRows_eq, greedyRow_within F hof.within] at hrun
  exact hrun

end

/-! ## the device -/

section
variable {V C : Type}

/-- the kernels of a step in stream order; a chunk launches what `Probe` answered -/
def forwardOps (x : Executor) (l : Launch) : List ForwardOp :=
  let rows := l.rows.length
  if l.prefill then
    let ctx := (l.row 0).extent
    let finalChunk := decide (0 < l.tokens)
    prefillForward x rows (ctx - rows) ctx finalChunk ((x.probe rows ctx).getD .kStridedBatched) ++
      if finalChunk then [.greedyArgmax 1] else []
  else decodeForward x rows ++ [.greedyArgmax rows]

/-- **A decode step enqueues** `forwardOps`. -/
theorem forwardOps_decode (x : Executor) {l : Launch} (hdecode : l.prefill = false) :
    (forwardOps x l).flatMap (ForwardOp.kernels x) = x.decodeKernels l.rows.length := by
  unfold forwardOps Executor.decodeKernels
  rw [hdecode]
  simp only [Bool.false_eq_true, if_false]
  rw [List.flatMap_append, decodeForward_kernels]
  rfl

/-- **A chunk enqueues** `forwardOps`. -/
theorem forwardOps_prefill (x : Executor) {l : Launch} (hprefill : l.prefill = true)
    {chunkBegin : Nat} (hctx : (l.row 0).extent = chunkBegin + l.rows.length) {mode : PrefillGemmMode}
    (hmode : x.probe l.rows.length (l.row 0).extent = some mode) :
    (forwardOps x l).flatMap (ForwardOp.kernels x)
      = x.prefillKernels l.rows.length chunkBegin (l.row 0).extent (decide (0 < l.tokens)) mode := by
  have hbegin : (l.row 0).extent - l.rows.length = chunkBegin := by omega
  unfold forwardOps Executor.prefillKernels
  rw [if_pos hprefill]
  dsimp only
  rw [hmode, hbegin, Option.getD_some, List.flatMap_append, prefillForward_kernels]
  cases decide (0 < l.tokens) <;> rfl

/-- the kernels of a launch, when they are a forward pass of `x`; no other work is known here -/
def layeredSlab (M : RowMath V C) (x : Executor) (l : Launch) (s : Slab V C) : Slab V C :=
  if (forwardOps x l).flatMap (ForwardOp.kernels x) = l.kernels then
    execAll M l.row l.blockTables (forwardOps x l) s
  else s

/-- the device that runs the kernels of a step on its slab -/
def layeredDevice (M : RowMath V C) (x : Executor) : Device (Slab V C) :=
  fun l s => (.ok (layeredSlab M x l s).argmax, layeredSlab M x l s)

def layered (M : RowMath V C) (x : Executor) : Environment Unit (Slab V C) where
  dev := fun _ => layeredDevice M x

/-- the slices of a slab, as the cells of all layers -/
def Slab.cells (slab : Slab V C) : Pool (Nat → C) := fun c layer => slab.pool layer c

/-- the slices hold what the pool holds, but for the dummy block -/
def SamePool (numLayers : Nat) (s : Slab V C) (d : Pool (Nat → C)) : Prop :=
  ∀ layer < numLayers, ∀ c, c.1 ≠ kDummyBlockId → s.pool layer c = d c layer

variable {T : Nat} {o : SchedulerOptions} {s : Scheduler} {plan : StepPlan} {x : Executor} {l : Launch}

theorem Launched.explained (h : Inv T o s) (hP : Scheduler.PlanOk o s plan)
    (hL : Launched x o s plan l) (M : RowMath V C) (numLayers : Nat) (d : Pool (Nat → C)) :
    Explained M l.rows.length (· < l.batch.length) l.row d
      (runRows (greedyRow (M.numerics numLayers)) l.items d).2 where
  solved := fun _ _ hl layer => congrFun (hL.explains h hP d hl).1 layer
  frame := fun c hc hne => by
    rw [runRows_eq]
    refine InOrder.run_frame _ fun j hj => ?_
    obtain ⟨t, ht, hget⟩ := List.getElem_of_mem hj
    rw [l.items_length] at ht
    obtain ⟨r, hitem⟩ := l.items_get ht
    have hjt : j = (r, l.row t) := by
      rw [← hget]
      exact Option.some.inj ((List.getElem?_eq_getElem _).symm.trans hitem)
    subst hjt
    by_cases hl : t < l.batch.length
    · exact hne t ht hl
    · intro e
      exact hc ((congrArg Prod.fst e).symm.trans ((hL.rowsApart h hP).idle t ht hl))

/-- the table rows have the width of the device table -/
theorem Launched.table_length (hL : Launched x o s plan l) {t : Nat} (ht : t < l.rows.length) :
    (l.row t).table.length = x.maxBlocksPerSeq := by
  have hmem : l.row t ∈ l.rows := List.mem_of_getElem? (l.rows_get ht)
  generalize l.row t = row at hmem
  cases hL with
  | chunk r prefill ok =>
    obtain ⟨p, _, rfl⟩ := List.mem_map.mp hmem
    exact Executor.length_tableRow ok.table.width
  | batch rows prefill busy ok =>
    refine Executor.width_decodeRows (fun q hq => ?_) rows row hmem
    obtain ⟨r, hr, rfl⟩ := List.mem_map.mp hq
    exact ok r hr

/-- a table row of the buffer is the table of the row -/
theorem cellAt_of_map {tables : Nat → Int} {base width p : Nat} {table : List Int}
    (h : (List.range width).map (fun i => tables (base + i)) = table)
    (hp : p / kKvBlockSize < table.length) : cellAt tables base p = cellOf table p := by
  subst h
  rw [List.length_map, List.length_range] at hp
  unfold cellAt cellOf
  rw [List.getD_eq_getElem?_getD, List.getElem?_map, List.getElem?_range hp]
  rfl

/-- the row stride of the scatters of a launch -/
def Launch.rowStride (x : Executor) (l : Launch) : Nat := if l.prefill then 0 else x.maxBlocksPerSeq

/-- **The tables of the rows** are where the kernels look for them. -/
theorem Launched.laid (hL : Launched x o s plan l) :
    Laid l.rows.length (l.rowStride x) l.row l.blockTables := by
  intro t ht p hp
  have hget := l.rows_get ht
  generalize l.row t = row at hget hp
  cases hL with
  | chunk r prefill ok mode algorithm tables table =>
    obtain ⟨i, _, rfl⟩ := List.mem_map.mp (List.mem_of_getElem? hget)
    refine @cellAt_of_map _ _ x.maxBlocksPerSeq _ _ ?_ hp
    simp only [Launch.rowStride, if_true, Nat.mul_zero, Nat.zero_add]
    exact table
  | batch rows prefill busy ok live max tables table =>
    exact cellAt_of_map (table t row hget) hp

/-- every row writes through its table -/
theorem Launched.inTable (h : Inv T o s) (hP : Scheduler.PlanOk o s plan)
    (hL : Launched x o s plan l) : InTable l.rows.length l.row := by
  intro t ht
  by_cases hl : t < l.batch.length
  · obtain ⟨r, _, _, _, hrow, _⟩ := hL.liveRow h hP t hl
    have hcovers : (l.row t).extent ≤ (l.row t).table.length * kKvBlockSize := by
      refine Nat.le_trans hrow.covers (Nat.mul_le_mul_right _ ?_)
      rw [hrow.table]
      unfold Executor.tableRow
      rw [List.length_append]
      exact Nat.le_add_right _ _
    have hwithin : (l.row t).position < (l.row t).extent := hrow.within
    refine Nat.div_lt_of_lt_mul ?_
    rw [Nat.mul_comm]
    omega
  · -- the padding finds the dummy block in its table
    have hblock := (hL.padRow h hP ht hl).block
    by_contra hlen
    have hnone : (l.row t).table.getD ((l.row t).position / kKvBlockSize) kInvalidBlockId
        = kInvalidBlockId := by
      rw [List.getD_eq_getElem?_getD, List.getElem?_eq_none (Nat.le_of_not_lt hlen)]
      rfl
    exact absurd (hnone.symm.trans hblock) (by decide)

/-- all layers of a launch -/
theorem Launched.atLayers (h : Inv T o s) (hP : Scheduler.PlanOk o s plan)
    (hL : Launched x o s plan l) (M : RowMath V C) {numLayers : Nat} {slab : Slab V C}
    {d : Pool (Nat → C)} (hsame : SamePool numLayers slab d)
    {attention : Nat → ForwardOp} (hatt : ∀ layer < numLayers, AttendsTo M l.rows.length
      (· < l.batch.length) l.row l.blockTables layer (attention layer)) :
    AtLayer M numLayers l.rows.length (· < l.batch.length) l.row d
      (runRows (greedyRow (M.numerics numLayers)) l.items d).2 numLayers
      (execAll M l.row l.blockTables
        (.embedGather l.rows.length ::
          layersForward (l.rowStride x) l.rows.length attention numLayers) slab) :=
  (AtLayer.embedded hsame).layers (hL.rowsApart h hP) hL.laid (hL.inTable h hP)
    (hL.explained h hP M numLayers d) hatt numLayers (Nat.le_refl _)

theorem AtLayer.samePool {M : RowMath V C} {numLayers rows : Nat} {live : Nat → Prop}
    {inp : Nat → DeviceRow} {d D : Pool (Nat → C)} {slab : Slab V C}
    (h : AtLayer M numLayers rows live inp d D numLayers slab) : SamePool numLayers slab D :=
  fun layer hlayer c hc => h.done layer hlayer c hc

/-- what a device should make of a launch: the tokens of the rows in order, and their pool -/
def Matches (numLayers : Nat) (l : Launch) (slab : Slab V C) (F : Numerics (Nat → C))
    (d : Pool (Nat → C)) : Prop :=
  (∀ t < l.tokens, ∀ argmax, (greedyDevice F l d).1 = .ok argmax → slab.argmax t = argmax t) ∧
    SamePool numLayers slab (greedyDevice F l d).2

/-- a live row has its table in the pool -/
theorem Launched.width (h : Inv T o s) (hP : Scheduler.PlanOk o s plan)
    (hL : Launched x o s plan l) {t : Nat} (hl : t < l.batch.length) :
    (l.row t).table.length = x.maxBlocksPerSeq ∧ (l.row t).position < (l.row t).extent ∧
      (l.row t).extent ≤ x.maxBlocksPerSeq * kKvBlockSize := by
  obtain ⟨r, _, _, hget, hrow, _⟩ := hL.liveRow h hP t hl
  have hlen := hL.table_length (List.getElem?_eq_some_iff.mp hget).1
  refine ⟨hlen, hrow.within, Nat.le_trans hrow.covers (Nat.mul_le_mul_right _ ?_)⟩
  rw [← hlen, hrow.table]
  unfold Executor.tableRow
  rw [List.length_append]
  exact Nat.le_add_right _ _

/-- the rows of a decode batch read up to themselves, each yields a token -/
theorem Launched.decoded (h : Inv T o s) (hP : Scheduler.PlanOk o s plan)
    (hL : Launched x o s plan l) (hdecode : l.prefill = false) : l.tokens = l.batch.length ∧
    l.batch.length ≤ l.rows.length ∧ l.kernels = x.decodeKernels l.rows.length ∧
    ∀ t < l.batch.length, (l.row t).extent = (l.row t).position + 1 := by
  have hlive := hL.liveRow h hP
  cases hL with
  | chunk r prefill ok => cases hdecode
  | batch rows prefill busy ok live max =>
    have hlen : (x.decodeRows (plan.decode.map s.heap) rows).length = rows :=
      Executor.length_decodeRows (by rwa [List.length_map])
    refine ⟨rfl, live.trans hlen.ge, by rw [hlen], fun t ht => ?_⟩
    · have hlt : t < plan.decode.length := ht
      have hrow : (x.decodeRows (plan.decode.map s.heap) rows)[t]?
          = some (x.decodeRow (s.heap plan.decode[t])) := by
        unfold Executor.decodeRows
        rw [List.getElem?_append_left (by simpa using hlt), List.getElem?_map, List.getElem?_map,
          List.getElem?_eq_getElem hlt]
        rfl
      rw [Launch.row_get hrow]
      have := (ok _ (List.getElem_mem hlt)).seqLen.1
      show (s.heap plan.decode[t]).seqLen = (s.heap plan.decode[t]).seqLen - 1 + 1
      omega

/-- the rows of a chunk are the positions of its slice -/
theorem Launched.chunked (hL : Launched x o s plan l) (hprefill : l.prefill = true) :
    ∃ chunkStart mode, x.probe l.rows.length (l.row 0).extent = some mode ∧
      l.kernels = x.prefillKernels l.rows.length chunkStart (l.row 0).extent
        (decide (0 < l.tokens)) mode ∧
      0 < l.rows.length ∧ l.batch.length = l.rows.length ∧ l.tokens ≤ 1 ∧
      (l.row 0).extent = chunkStart + l.rows.length ∧
      ∀ t < l.rows.length, (l.row t).position = chunkStart + t ∧
        (l.row t).extent = (l.row 0).extent := by
  cases hL with
  | batch rows prefill busy ok live max => cases hprefill
  | chunk r prefill ok mode algorithm tables table =>
    have hrow : ∀ t < plan.prefillEnd - plan.prefillBegin, ((List.range
          (plan.prefillEnd - plan.prefillBegin)).map fun t =>
            x.chunkRow (s.heap r) plan.prefillEnd (plan.prefillBegin + t))[t]?
          = some (x.chunkRow (s.heap r) plan.prefillEnd (plan.prefillBegin + t)) := by
      intro t ht
      rw [List.getElem?_map, List.getElem?_range ht]
      rfl
    have hslice := ok.slice.1
    have h0 : 0 < plan.prefillEnd - plan.prefillBegin := by omega
    have hlen : ((List.range (plan.prefillEnd - plan.prefillBegin)).map fun t =>
        x.chunkRow (s.heap r) plan.prefillEnd (plan.prefillBegin + t)).length
          = plan.prefillEnd - plan.prefillBegin := by rw [List.length_map, List.length_range]
    have hfinal : decide (0 < if plan.prefillEnd == (s.heap r).numPromptTokens then 1 else 0)
        = (plan.prefillEnd == (s.heap r).numPromptTokens) := by
      cases plan.prefillEnd == (s.heap r).numPromptTokens <;> rfl
    refine ⟨plan.prefillBegin, mode, ?_, ?_, by rwa [hlen], by rw [hlen, List.length_replicate], ?_, ?_,
      fun t ht => ?_⟩
    · rw [Launch.row_get (hrow 0 h0), hlen]
      exact algorithm
    · rw [Launch.row_get (hrow 0 h0), hlen, hfinal]
      rfl
    · show (if _ then 1 else 0) ≤ 1
      split <;> omega
    · rw [Launch.row_get (hrow 0 h0), hlen]
      show plan.prefillEnd = plan.prefillBegin + _
      omega
    · rw [hlen] at ht
      rw [Launch.row_get (hrow t ht), Launch.row_get (hrow 0 h0)]
      exact ⟨rfl, rfl⟩

/-- **The kernels of a launch** are those of `forwardOps`. -/
theorem Launched.enqueued (h : Inv T o s) (hP : Scheduler.PlanOk o s plan)
    (hL : Launched x o s plan l) {y : Executor} (hy : y.Refilled x) :
    (forwardOps y l).flatMap (ForwardOp.kernels y) = l.kernels := by
  obtain ⟨m, rfl⟩ := hy
  cases hp : l.prefill with
  | false => exact (forwardOps_decode y hp).trans (hL.decoded h hP hp).2.2.1.symm
  | true =>
    obtain ⟨_, _, hmode, hkernels, _, _, _, hctx, _⟩ := hL.chunked hp
    exact (forwardOps_prefill y hp hctx hmode).trans hkernels.symm

/-- the head yields what the rows in order yield -/
theorem Launched.head (h : Inv T o s) (hP : Scheduler.PlanOk o s plan)
    (hL : Launched x o s plan l) {M : RowMath V C} {numLayers : Nat} (hpos : 0 < numLayers)
    {slab : Slab V C} {d : Pool (Nat → C)}
    (hA : AtLayer M numLayers l.rows.length (· < l.batch.length) l.row d
      (runRows (greedyRow (M.numerics numLayers)) l.items d).2 numLayers slab)
    (hlen : l.batch.length ≤ l.rows.length) (first : Nat) {n t : Nat} (ht : t < n)
    (hl : first + t < l.batch.length) :
    (execAll M l.row l.blockTables [.rmsNormResidual .finalNorm first n, .gemm .lmHead first n,
      .greedyArgmax n]
        slab).argmax t
      = (runRows (greedyRow (M.numerics numLayers)) l.items d).1.getD (first + t) 0 := by
  rw [hA.head hpos ht (Nat.lt_of_lt_of_le hl hlen) hl, List.getD_eq_getElem?_getD,
    (hL.explains h hP d hl).2]
  rfl

/-- the launches of a decode step, split before the head -/
theorem layeredSlab_decode (M : RowMath V C) (y : Executor) (slab : Slab V C)
    (hdecode : l.prefill = false) (hops : (forwardOps y l).flatMap (ForwardOp.kernels y) = l.kernels) :
    layeredSlab M y l slab
      = execAll M l.row l.blockTables [.rmsNormResidual .finalNorm 0 l.rows.length,
          .gemm .lmHead 0 l.rows.length, .greedyArgmax l.rows.length]
        (execAll M l.row l.blockTables (.embedGather l.rows.length ::
          layersForward (l.rowStride y) l.rows.length
            (fun layer => .pagedAttentionDecode layer y.maxBlocksPerSeq l.rows.length)
              y.config.numLayers.toNat) slab) := by
  have hstride : l.rowStride y = y.maxBlocksPerSeq := by
    unfold Launch.rowStride
    rw [hdecode]
    rfl
  unfold layeredSlab
  rw [if_pos hops, hstride]
  unfold forwardOps decodeForward
  rw [← execAll_append, hdecode]
  simp

/-- the launches of a chunk; only a final one has the head, on its last row -/
theorem layeredSlab_prefill (M : RowMath V C) (y : Executor) (slab : Slab V C)
    (hprefill : l.prefill = true) {chunkStart : Nat} {mode : PrefillGemmMode}
    (hmode : y.probe l.rows.length (l.row 0).extent = some mode)
    (hstart : (l.row 0).extent = chunkStart + l.rows.length)
    (hops : (forwardOps y l).flatMap (ForwardOp.kernels y) = l.kernels) : layeredSlab M y l slab
      = execAll M l.row l.blockTables (if 0 < l.tokens then
            [.rmsNormResidual .finalNorm (l.rows.length - 1) 1,
              .gemm .lmHead (l.rows.length - 1) 1, .greedyArgmax 1] else [])
        (execAll M l.row l.blockTables (.embedGather l.rows.length ::
          layersForward (l.rowStride y) l.rows.length
            (fun layer => .prefillAttention layer l.rows.length chunkStart (l.row 0).extent mode)
              y.config.numLayers.toNat) slab) := by
  have hbegin : (l.row 0).extent - l.rows.length = chunkStart := by omega
  have hstride : l.rowStride y = 0 := if_pos hprefill
  unfold layeredSlab
  rw [if_pos hops, hstride]
  unfold forwardOps prefillForward
  rw [← execAll_append, if_pos hprefill]
  dsimp only
  rw [hmode, hbegin, Option.getD_some]
  by_cases hfinal : 0 < l.tokens <;> simp [hfinal]

/-- **A decode batch**, with any padding. -/
theorem Launched.layered_batch (h : Inv T o s) (hP : Scheduler.PlanOk o s plan)
    (hL : Launched x o s plan l) (hdecode : l.prefill = false) (M : RowMath V C) {y : Executor}
    (hy : y.Refilled x) (hpos : 0 < y.config.numLayers.toNat) {slab : Slab V C}
    {d : Pool (Nat → C)} (hsame : SamePool y.config.numLayers.toNat slab d) :
    Matches y.config.numLayers.toNat l (layeredSlab M y l slab)
      (M.numerics y.config.numLayers.toNat) d := by
  obtain ⟨htokens, hlen, _, hext⟩ := hL.decoded h hP hdecode
  have hslab := layeredSlab_decode M y slab hdecode (hL.enqueued h hP hy)
  obtain ⟨m, rfl⟩ := hy
  have hlaid := hL.laid
  unfold Launch.rowStride at hlaid
  rw [hdecode] at hlaid
  have hatt : ∀ layer < y.config.numLayers.toNat, AttendsTo M l.rows.length (· < l.batch.length) l.row
      l.blockTables layer (.pagedAttentionDecode layer y.maxBlocksPerSeq l.rows.length) :=
        fun layer _ =>
    attendsTo_paged layer hlaid fun t _ hl =>
      ⟨hext t hl, (hL.width h hP hl).1, (hL.width h hP hl).2.2⟩
  have hA := hL.atLayers h hP M hsame hatt
  refine ⟨fun t ht argmax hargmax => ?_, ?_⟩
  · rw [htokens] at ht
    have hhead := hL.head h hP hpos hA hlen 0 (Nat.lt_of_lt_of_le ht hlen)
      (by rw [Nat.zero_add]; exact ht)
    obtain rfl := Except.ok.inj hargmax
    refine (congrArg (fun slab : Slab V C => slab.argmax t) hslab).trans (hhead.trans ?_)
    rw [Nat.zero_add]
    simp only [hdecode]
    rfl
  · rw [hslab]
    exact hA.samePool

/-- **A prefill chunk**, final or not. -/
theorem Launched.layered_chunk (h : Inv T o s) (hP : Scheduler.PlanOk o s plan)
    (hL : Launched x o s plan l) (hprefill : l.prefill = true) (M : RowMath V C) {y : Executor}
    (hy : y.Refilled x) (hpos : 0 < y.config.numLayers.toNat) {slab : Slab V C}
    {d : Pool (Nat → C)} (hsame : SamePool y.config.numLayers.toNat slab d) :
    Matches y.config.numLayers.toNat l (layeredSlab M y l slab)
      (M.numerics y.config.numLayers.toNat) d := by
  have hops := hL.enqueued h hP hy
  obtain ⟨m, rfl⟩ := hy
  obtain ⟨chunkStart, mode, hmode, _, hrows, hbatch, htokens, hctx, hslice⟩ := hL.chunked hprefill
  have hslab := layeredSlab_prefill M y slab hprefill hmode hctx hops
  have hlaid := hL.laid
  unfold Launch.rowStride at hlaid
  rw [hprefill] at hlaid
  have hatt : ∀ layer < y.config.numLayers.toNat, AttendsTo M l.rows.length (· < l.batch.length) l.row
      l.blockTables layer (.prefillAttention layer l.rows.length chunkStart (l.row 0).extent mode) :=
    fun layer _ => attendsTo_prefill layer chunkStart (l.row 0).extent mode hlaid fun t ht hl => by
      obtain ⟨h1, h2⟩ := hslice t ht
      obtain ⟨hwidth, hwithin, hextent⟩ := hL.width h hP hl
      refine ⟨h1, by omega, ?_⟩
      rw [hwidth, ← h2]
      exact hextent
  have hA := hL.atLayers h hP M hsame hatt
  refine ⟨fun t ht argmax hargmax => ?_, ?_⟩
  · obtain rfl : t = 0 := by omega
    have hhead := hL.head h hP hpos hA (Nat.le_of_eq hbatch) (l.rows.length - 1) (n := 1)
      (t := 0) Nat.zero_lt_one (by omega)
    have hlast : (runRows (greedyRow (M.numerics y.config.numLayers.toNat)) l.items d).1.getLastD 0
        = (runRows (greedyRow (M.numerics y.config.numLayers.toNat)) l.items d).1.getD
          (l.rows.length - 1 + 0) 0 := by
      rw [List.getLastD_eq_getLast?, List.getLast?_eq_getElem?, length_runRows, l.items_length,
        List.getD_eq_getElem?_getD, Nat.add_zero]
    obtain rfl := Except.ok.inj hargmax
    rw [if_pos ht] at hslab
    refine (congrArg (fun slab : Slab V C => slab.argmax 0) hslab).trans (hhead.trans ?_)
    simp only [hprefill, if_true]
    exact hlast.symm
  · rw [hslab]
    by_cases hfinal : 0 < l.tokens
    · rw [if_pos hfinal]
      exact hA.samePool
    · rw [if_neg hfinal]
      exact hA.samePool

/-- **The layered device answers as rows in order do.** -/
theorem layered_answers (M : RowMath V C) {y : Executor} (hpos : 0 < y.config.numLayers.toNat) :
    AnswersAlike y T o (fun d slab => SamePool y.config.numLayers.toNat slab d)
      (greedyDevice (M.numerics y.config.numLayers.toNat)) (layeredDevice M y) := by
  intro x s plan l hy h hP hL d slab hsame
  have hmatch : Matches y.config.numLayers.toNat l (layeredSlab M y l slab)
      (M.numerics y.config.numLayers.toNat) d := by
    cases hp : l.prefill with
    | false => exact hL.layered_batch h hP hp M hy hpos hsame
    | true => exact hL.layered_chunk h hP hp M hy hpos hsame
  refine ⟨congrArg Except.ok (List.map_congr_left fun t ht => ?_), hmatch.2⟩
  exact (hmatch.1 t (List.mem_range.mp ht) _ rfl).symm

end

/-- what a state of the simulation says about an accepted request -/
theorem Followed.settled {κ : Type} {F : Numerics κ} {T : Nat} {o : SchedulerOptions}
    {w : EngineRun (Pool κ)} (hF : Followed F o w) (hE : EngineInv T o w.engine) {r : Nat}
    {a : RequestArgs} (ha : .added (r + 1) a ∈ w.events) : r < w.engine.sched.nextPtr ∧
      Follows (alone F o.eosTokenIds a (w.engine.sched.heap r).numOutputTokens) (r + 1)
        (w.engine.sched.heap r) w.events ∧
      ((w.engine.sched.heap r).state = .kFinished →
        Follows (reference F o.eosTokenIds a) (r + 1) (w.engine.sched.heap r) w.events) := by
  obtain ⟨hr, rfl⟩ := hF.logged r a ha
  have hfollows := hF.follows r hr
  refine ⟨hr, hfollows, fun hfinished => ?_⟩
  have hreason := (hE.sched.finished_iff hr).mp hfinished
  rw [hfollows.reason] at hreason
  exact alone_settled (hE.sched.valid r hr).maxNew_pos hreason ▸ hfollows

section
variable {V C : Type} {M : RowMath V C} {config : ModelConfig} {options : EngineOptions}
  {captured : Bool} {probe : Nat → Nat → Option PrefillGemmMode} {e : Engine}

/-- the layered run and the rows in order, over the same cells -/
def InStep (numLayers : Nat) : EngineRun (Pool (Nat → C)) → EngineRun (Slab V C) → Prop :=
  Lockstep fun d slab => SamePool numLayers slab d

theorem Followed.make (he : Engine.make config options captured probe = .ok e) {κ : Type}
    (F : Numerics κ) (d : Pool κ) :
    Followed F (Engine.schedulerOptions config options) (.init e d) := by
  obtain ⟨x, _, rfl⟩ := Engine.make_eq he
  exact Followed.init _ rfl rfl rfl d

/-- **The layered run in step** with rows in order, and both with the references. -/
theorem layered_run (he : Engine.make config options captured probe = .ok e)
    (hpol : options.admissionPolicy = .kReserveFull) {w : EngineRun (Pool (Nat → C))}
    {w' : EngineRun (Slab V C)}
    (hE : EngineInv e.totalBlocks (Engine.schedulerOptions config options) w.engine)
    (hy : e.executor.Refilled w.engine.executor)
    (hF : Followed (M.numerics config.numLayers.toNat) (Engine.schedulerOptions config options) w)
    (hL : InStep config.numLayers.toNat w w') (cs : List (EngineCall Unit)) :
    ∃ w1 w1', run (EngineRun.step (greedy (M.numerics config.numLayers.toNat))) w cs = some w1 ∧
      run (EngineRun.step (layered M e.executor)) w' cs = some w1' ∧
      EngineInv e.totalBlocks (Engine.schedulerOptions config options) w1.engine ∧
      e.executor.Refilled w1.engine.executor ∧
      Followed (M.numerics config.numLayers.toNat) (Engine.schedulerOptions config options) w1 ∧
      InStep config.numLayers.toNat w1 w1' := by
  obtain ⟨x, hx, hmake⟩ := Engine.make_eq he
  obtain ⟨hvalid, hconfig, _⟩ := executor_of_make hx
  have hexec : e.executor.config = config := by rw [hmake]; exact hconfig
  have hpos : 0 < e.executor.config.numLayers.toNat := by
    have hdims := of_decide_eq_true (geometry_of_ok hvalid (_, _) List.mem_cons_self)
    rw [hexec]
    omega
  have halike : ∀ k : Unit, AnswersAlike e.executor e.totalBlocks
      (Engine.schedulerOptions config options)
      (fun d slab => SamePool config.numLayers.toNat slab d)
      ((greedy (M.numerics config.numLayers.toNat)).dev k) ((layered M e.executor).dev k) :=
    fun _ => by
      have := layered_answers (T := e.totalBlocks) (o := Engine.schedulerOptions config options) M
        (y := e.executor) hpos
      rw [hexec] at this
      exact this
  obtain ⟨w1, w1', hr, hr', _, hy1, hL1⟩ :=
    EngineRun.run_lockstep halike (fun _ _ _ _ h => h) cs hE hy hL
  obtain ⟨w2, hr2, hE2, hF2⟩ := EngineRun.run_keeps _
    (fun w c w' hE hF hs => hF.stepped hpol hE hs) hE hF cs
  obtain rfl : w2 = w1 := Option.some.inj (hr2.symm.trans hr)
  exact ⟨w2, w1', hr, hr', hE2, hy1, hF2, hL1⟩

end

/-- **The layered forward refines greedy decoding.**  Whatever the kernels compute of a row, the
buffers and the pool start with, and the padding and the chunks are, under `reserve_full` every
request follows the transformer that decodes it alone. -/
theorem layered_refines (V C : Type) (M : RowMath V C) (config : ModelConfig)
    (options : EngineOptions) (captured : Bool) (probe : Nat → Nat → Option PrefillGemmMode)
    (e : Engine) (he : Engine.make config options captured probe = .ok e)
    (hpol : options.admissionPolicy = .kReserveFull) (slab0 : Slab V C)
    (cs : List (EngineCall Unit)) :
    ∃ w, run (EngineRun.step (layered M e.executor)) (.init e slab0) cs = some w ∧
      (∀ r a, .added (r + 1) a ∈ w.events →
        Follows (alone (M.numerics config.numLayers.toNat) config.eosTokenIds a
          (w.engine.sched.heap r).numOutputTokens) (r + 1) (w.engine.sched.heap r) w.events ∧
        ((w.engine.sched.heap r).state = .kFinished →
          Follows (reference (M.numerics config.numLayers.toNat) config.eosTokenIds a) (r + 1)
            (w.engine.sched.heap r) w.events)) ∧
      ∀ m, w.engine.sched.totalBudget (Engine.schedulerOptions config options) ≤ m →
        ∃ w', run (EngineRun.step (layered M e.executor)) w (List.replicate m (.step ())) = some w' ∧
          (Calm w'.events → ∀ r a, .added (r + 1) a ∈ w'.events →
            (w'.engine.sched.heap r).state = .kFinished ∧
              Follows (reference (M.numerics config.numLayers.toNat) config.eosTokenIds a) (r + 1)
                (w'.engine.sched.heap r) w'.events) := by
  have hE0 := EngineInv.make he
  have h0 := Followed.make he (M.numerics config.numLayers.toNat) slab0.cells
  have hL0 : InStep config.numLayers.toNat (.init e slab0.cells) (.init e slab0) :=
    ⟨rfl, fun _ _ _ _ => rfl, rfl⟩
  obtain ⟨w, w', _, hw', hE, hy, hF, hL⟩ := layered_run he hpol hE0 ⟨_, rfl⟩ h0 hL0 cs
  refine ⟨w', hw', fun r a ha => ?_, fun m hm => ?_⟩
  · rw [hL.events] at ha
    rw [hL.engine, hL.events]
    exact (hF.settled hE ha).2
  · obtain ⟨w1, w1', hr, hr', hE1, _, hF1, hL1⟩ := layered_run he hpol hE hy hF hL
      (List.replicate m (.step ()))
    obtain ⟨w2, hr2, _, _, hpend⟩ := drain_steps (greedy (M.numerics config.numLayers.toNat))
      hE0.batch_pos () m w hE
    obtain rfl : w2 = w1 := Option.some.inj (hr2.symm.trans hr)
    refine ⟨w1', hr', fun hcalm r a ha => ?_⟩
    rw [hL1.events] at ha hcalm
    rw [hL1.engine, hL1.events]
    obtain ⟨hlt, _, hdone⟩ := hF1.settled hE1 ha
    have hbudget : w.engine.sched.pending (Engine.schedulerOptions config options)
        ≤ w.engine.sched.totalBudget (Engine.schedulerOptions config options) :=
      held_le_held fun _ _ => todo_le_budget
    rw [hL.engine] at hm
    have hleft := hpend hcalm
    have hfinished := hE1.sched.pending_eq_zero (by omega) r hlt
    exact ⟨hfinished, hdone hfinished⟩

/-- a transformer on integers, for `tinyConfig` -/
def tinyMath : RowMath Int Int where
  embed := fun token => token + 1
  rmsNorm := fun _ v => v
  add := fun a b => a + b
  gemm := fun _ v => 2 * v
  rope := fun p v => v + p
  keyValue := fun v => v
  attend := fun q cells => q + cells.sum
  siluMul := fun v => v % 7
  argmax := fun v => v % 10

/-- the request an entry of the log added -/
def Event.accepted : Event → Option (Nat × RequestArgs)
  | .added id a => some (id, a)
  | _ => none

theorem Event.eq_added {event : Event} {id : Nat} {a : RequestArgs}
    (h : event.accepted = some (id, a)) : event = .added id a := by
  cases event with
  | added id' a' =>
    obtain ⟨rfl, rfl⟩ := Prod.mk.inj (Option.some.inj h)
    rfl
  | refused err => cases h
  | stepped plan out => cases h

def tinySlab : Slab Int Int := ⟨fun _ _ => 5, fun _ => 6, fun _ _ => 9⟩

theorem layered_refines_example : ∃ w w',
    run (EngineRun.step (layered tinyMath (tinyEngine .kReserveFull).executor))
      (.init (tinyEngine .kReserveFull) tinySlab) tinyWorkload = some w ∧
    run (EngineRun.step (layered tinyMath (tinyEngine .kReserveFull).executor)) w
      (List.replicate 8 (.step ())) = some w' ∧
    (w'.engine.sched.heap 0).state = .kFinished ∧
    Follows (reference (tinyMath.numerics 1) [7] { promptTokens := [1, 2, 3], maxNewTokens := 2 }) 1
      (w'.engine.sched.heap 0) w'.events ∧
    (w'.engine.sched.heap 1).state = .kFinished ∧
    Follows (reference (tinyMath.numerics 1) [7]
      { promptTokens := [4], maxNewTokens := 4, forcedTokens := [5, 7] }) 2
      (w'.engine.sched.heap 1) w'.events := by
  obtain ⟨w, hw, _, h⟩ := layered_refines Int Int tinyMath tinyConfig (tinyOptions .kReserveFull) true
    tinyProbe (tinyEngine .kReserveFull) (tinyEngine_make .kReserveFull) rfl tinySlab tinyWorkload
  have hbudget : (run (EngineRun.step (layered tinyMath (tinyEngine .kReserveFull).executor))
      (.init (tinyEngine .kReserveFull) tinySlab) tinyWorkload).map (fun w =>
        w.engine.sched.totalBudget (Engine.schedulerOptions tinyConfig (tinyOptions .kReserveFull)))
      = some 8 := by decide +kernel
  rw [hw] at hbudget
  obtain ⟨w', hw', hall⟩ := h 8 (Nat.le_of_eq (Option.some.inj hbudget))
  have hlog : (run (EngineRun.step (layered tinyMath (tinyEngine .kReserveFull).executor))
      (.init (tinyEngine .kReserveFull) tinySlab)
        (tinyWorkload ++ List.replicate 8 (.step ()))).map (fun w =>
          (decide (Calm w.events), (w.events.take 2).map Event.accepted)) = some (true,
          [some (1, { promptTokens := [1, 2, 3], maxNewTokens := 2 }),
            some (2, { promptTokens := [4], maxNewTokens := 4, forcedTokens := [5, 7] })]) := by
    decide +kernel
  rw [run_append, hw, Option.bind_some, hw', Option.map_some, Option.some.injEq, Prod.mk.injEq] at hlog
  have hmem : ∀ id a, some (id, a) ∈ (w'.events.take 2).map Event.accepted →
      .added id a ∈ w'.events := by
    intro id a hm
    obtain ⟨event, hevent, he⟩ := List.mem_map.mp hm
    exact Event.eq_added he ▸ List.mem_of_mem_take hevent
  rw [hlog.2] at hmem
  have hcalm := of_decide_eq_true hlog.1
  obtain ⟨hend0, hfollow0⟩ := hall hcalm 0 _ (hmem _ _ List.mem_cons_self)
  obtain ⟨hend1, hfollow1⟩ := hall hcalm 1 _ (hmem _ _ (List.mem_cons_of_mem _ List.mem_cons_self))
  exact ⟨w, w', hw, hw', hend0, hfollow0, hend1, hfollow1⟩

end Redline
