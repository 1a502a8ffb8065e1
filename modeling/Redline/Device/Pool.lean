import Redline.Engine.Reports
import Redline.Lib.Paged
import Redline.Sched.Conservation

/-!
# The KV pool

The kernels of a launch write the cell of each row, `cellOf row.table row.position`, row after row
(`runRows`); what a row writes and yields is a function of the row and of the pool it finds.

`Expect` says what position `p` of a request with given tokens should hold and yield, and `Backed`
that the pool holds it, for the positions each admitted request has in KV.  Planning keeps that
(`Backed.planned`), and so does every row (`Feeds.run`), since live tables share no block and a
padded row writes the dummy block; completing accounts for what was written (`Backed.completed`).
-/

namespace Redline
open Prog Ledger

abbrev Pool (ι : Type) := Int × Nat → ι

/-- prompt and output, the sequence the KV is about -/
def Request.tokens (q : Request) : List Int := q.promptTokens ++ q.outputTokens

/-- the positions whose KV is in the pool between two steps -/
def cached (q : Request) : Nat := if q.outputTokens = [] then q.prefillProgress else q.seqLen - 1

/-- the rows of a launch with their requests; padded rows have none -/
def owners : List Nat → List DeviceRow → List (Option Nat × DeviceRow)
  | _, [] => []
  | [], row :: rows => (none, row) :: owners [] rows
  | r :: batch, row :: rows => (some r, row) :: owners batch rows

def Launch.items (l : Launch) : List (Option Nat × DeviceRow) := owners l.batch l.rows

/-- the rows in order: each writes its cell and yields a token -/
def runRows {ι : Type} (f : Option Nat → DeviceRow → Pool ι → ι × Int) :
    List (Option Nat × DeviceRow) → Pool ι → List Int × Pool ι
  | [], d => ([], d)
  | (r, row) :: items, d =>
    let v := f r row d
    let rest := runRows f items (Function.update d (cellOf row.table row.position) v.1)
    (v.2 :: rest.1, rest.2)

/-! ## rows -/

/-- the row computes position `p` of the request -/
structure RowOf (x : Executor) (q : Request) (p : Nat) (row : DeviceRow) : Prop where
  table : row.table = x.tableRow q.blockTable.blocks
  position : row.position = p
  token : q.tokens[p]? = some row.inputId
  within : p < row.extent
  covers : row.extent ≤ q.blockTable.tokenCapacity

/-- a padded row reads nothing and writes the dummy block -/
structure PadRow (row : DeviceRow) : Prop where
  extent : row.extent = 0
  block : (cellOf row.table row.position).1 = kDummyBlockId

/-- the rows continue the sequences of their requests; `len r` positions of `r` are there -/
inductive Feeds (x : Executor) (s : Scheduler) :
    (Nat → Nat) → List (Option Nat × DeviceRow) → Prop where
  | nil (len : Nat → Nat) : Feeds x s len []
  | live {len : Nat → Nat} {r : Nat} {row : DeviceRow} {items : List (Option Nat × DeviceRow)}
      (mem : r ∈ s.admitted) (isRow : RowOf x (s.heap r) (len r) row)
      (rest : Feeds x s (Function.update len r (len r + 1)) items) :
      Feeds x s len ((some r, row) :: items)
  | pad {len : Nat → Nat} {row : DeviceRow} {items : List (Option Nat × DeviceRow)}
      (isPad : PadRow row) (rest : Feeds x s len items) : Feeds x s len ((none, row) :: items)

section
variable {x : Executor} {q : Request} {s : Scheduler}

/-- the cells of a row are those of its request -/
theorem RowOf.cell {p : Nat} {row : DeviceRow} (h : RowOf x q p row) {i : Nat}
    (hi : i < row.extent) : cellOf row.table i
      = Paged.cell kKvBlockSize kInvalidBlockId q.blockTable.blocks i := by
  rw [h.table]
  exact Paged.cell_append (Nat.lt_of_lt_of_le hi h.covers) _

theorem rowOf_chunkRow {b e p : Nat} (h : ChunkOk x q b e) (hp : p < e) :
    RowOf x q p (x.chunkRow q e p) := by
  refine ⟨rfl, rfl, ?_, hp, (BlockTable.le_tokenCapacity _ _).mpr h.table.covers⟩
  have hlt : p < q.promptTokens.length := Nat.lt_of_lt_of_le hp h.slice.2
  show (q.promptTokens ++ q.outputTokens)[p]? = some (q.promptTokens.getD p 0)
  rw [List.getElem?_append_left hlt, List.getElem?_eq_getElem hlt, List.getD_eq_getElem?_getD,
    List.getElem?_eq_getElem hlt]
  rfl

theorem rowOf_decodeRow (h : DecodeRowOk x q) : RowOf x q (q.seqLen - 1) (x.decodeRow q) := by
  have hpos := h.seqLen.1
  refine ⟨rfl, rfl, ?_, by show q.seqLen - 1 < q.seqLen; omega,
    (BlockTable.le_tokenCapacity _ _).mpr h.table.covers⟩
  have hout : 0 < q.outputTokens.length := List.length_pos_iff.mpr h.token
  show (q.promptTokens ++ q.outputTokens)[q.promptTokens.length + q.outputTokens.length - 1]?
    = some (q.outputTokens.getLastD 0)
  rw [List.getElem?_append_right (by omega),
    show q.promptTokens.length + q.outputTokens.length - 1 - q.promptTokens.length
      = q.outputTokens.length - 1 by omega, ← List.getLast?_eq_getElem?,
    List.getLastD_eq_getLast?, List.getLast?_eq_some_getLast h.token]
  rfl

theorem padRow_paddedRow (hw : 0 < x.maxBlocksPerSeq) : PadRow x.paddedRow := by
  refine ⟨rfl, ?_⟩
  show (List.replicate x.maxBlocksPerSeq kDummyBlockId).getD (0 / kKvBlockSize) kInvalidBlockId = _
  rw [List.getD_eq_getElem?_getD, Nat.zero_div, List.getElem?_replicate, if_pos hw]
  rfl

theorem owners_append (batch : List Nat) (rows rows' : List DeviceRow)
    (h : rows.length = batch.length) : owners batch (rows ++ rows')
      = owners batch rows ++ owners [] rows' := by
  induction batch generalizing rows with
  | nil =>
    rw [List.eq_nil_of_length_eq_zero h]
    rfl
  | cons r batch ih =>
    match rows, h with
    | row :: rows, h => exact congrArg _ (ih rows (Nat.succ.inj h))

theorem feeds_pads {row : DeviceRow} (hrow : PadRow row) (n : Nat) : ∀ len : Nat → Nat,
    Feeds x s len (owners [] (List.replicate n row)) := by
  induction n with
  | zero => intro len; exact .nil len
  | succ n ih => intro len; exact .pad hrow (ih len)

/-- the rows of a chunk continue one request -/
theorem feeds_chunk {r b e : Nat} (hr : r ∈ s.admitted) (h : ChunkOk x (s.heap r) b e) (n : Nat) :
    ∀ len : Nat → Nat, len r + n ≤ e → Feeds x s len (owners (List.replicate n r)
      ((List.range' (len r) n).map (x.chunkRow (s.heap r) e))) := by
  induction n with
  | zero => intro len _; exact .nil len
  | succ n ih =>
    intro len hle
    have hrest := ih (Function.update len r (len r + 1)) (by rw [Function.update_self]; omega)
    rw [Function.update_self] at hrest
    exact .live hr (rowOf_chunkRow h (by omega)) hrest

/-- the rows of a decode batch continue one request each -/
theorem feeds_batch (batch : List Nat) (tail : List (Option Nat × DeviceRow))
    (htail : ∀ len, Feeds x s len tail) (hnd : batch.Nodup) (hmem : ∀ r ∈ batch, r ∈ s.admitted)
    (hok : ∀ r ∈ batch, DecodeRowOk x (s.heap r)) : ∀ len : Nat → Nat,
    (∀ r ∈ batch, len r = (s.heap r).seqLen - 1) → Feeds x s len
      (owners batch ((batch.map s.heap).map x.decodeRow) ++ tail) := by
  induction batch with
  | nil => intro len _; exact htail len
  | cons r batch ih =>
    intro len hlen
    rw [List.nodup_cons] at hnd
    have hrow := rowOf_decodeRow (hok r List.mem_cons_self)
    rw [← hlen r List.mem_cons_self] at hrow
    refine .live (hmem r List.mem_cons_self) hrow (ih hnd.2
      (fun r' h' => hmem r' (List.mem_cons_of_mem _ h'))
      (fun r' h' => hok r' (List.mem_cons_of_mem _ h')) _ fun r' h' => ?_)
    have hne : r' ≠ r := fun e => hnd.1 (e ▸ h')
    rw [Function.update_of_ne hne]
    exact hlen r' (List.mem_cons_of_mem _ h')

end
/-! ## what the pool holds -/

/-- what position `p` of the request `r` with these tokens holds, and what its row yields -/
abbrev Expect (ι : Type) := List Int → Nat → Nat → Option (ι × Int)

/-- a position does not change as the sequence grows -/
def Expect.Stable {ι : Type} (E : Expect ι) : Prop :=
  ∀ toks t r p, p < toks.length → E (toks ++ [t]) r p = E toks r p

/-- the pool holds the first `len r` positions of each admitted request -/
def Backed {ι : Type} (E : Expect ι) (s : Scheduler) (len : Nat → Nat) (d : Pool ι) : Prop :=
  Paged.Holds kKvBlockSize kInvalidBlockId (· ∈ s.admitted) (fun r => (s.heap r).blockTable.blocks) len
    (fun r p => (E (s.heap r).tokens r p).map Prod.fst) d

/-- what a row should write and yield: it finds the earlier positions in the pool -/
def Computes {ι : Type} (E : Expect ι) (x : Executor) (s : Scheduler)
    (f : Option Nat → DeviceRow → Pool ι → ι × Int) : Prop :=
  ∀ len d r row, Backed E s len d → r ∈ s.admitted → RowOf x (s.heap r) (len r) row →
    E (s.heap r).tokens r (len r) = some (f (some r) row d)

/-- the positions held after the rows -/
def heldAfter (len : Nat → Nat) (items : List (Option Nat × DeviceRow)) (r : Nat) : Nat :=
  len r + items.countP fun i => i.1 == some r

section
variable {T : Nat} {o : SchedulerOptions} {s s' : Scheduler} {plan : StepPlan} {x : Executor}
  {ι : Type} {E : Expect ι} {len : Nat → Nat} {d d' : Pool ι}
  {f : Option Nat → DeviceRow → Pool ι → ι × Int}

/-- **Live tables share no block.** -/
theorem Inv.owned (h : Inv T o s) :
    Paged.Owned (· ∈ s.admitted) fun r => (s.heap r).blockTable.blocks := by
  have hn : (s.admitted.flatMap fun r => (s.heap r).blockTable.blocks).Nodup := by
    have hadd := h.alloc.nodup
    unfold Scheduler.blocksHeld at hadd
    rw [held_coe, Multiset.coe_add, Multiset.coe_nodup, List.nodup_append] at hadd
    exact hadd.2.1
  rw [List.nodup_flatMap] at hn
  refine ⟨fun r hr => hn.1 r hr, fun r r' hr hr' b hb hb' => ?_⟩
  by_contra hne
  have : Std.Symm (Function.onFun List.Disjoint fun r => (s.heap r).blockTable.blocks) :=
    ⟨fun _ _ hd => hd.symm⟩
  exact hn.2.forall hr hr' hne hb hb'

theorem Inv.cached_fits (h : Inv T o s) {r : Nat} (hr : r ∈ s.admitted) :
    cached (s.heap r) ≤ (s.heap r).blockTable.blocks.length * kKvBlockSize := by
  rw [← blocksForTokens_le]
  rcases List.mem_append.mp hr with hr | hr
  · have hrun := h.running r hr
    have hne : (s.heap r).outputTokens ≠ [] := List.length_pos_iff.mp hrun.outputs_pos
    unfold cached
    rw [if_neg hne]
    exact hrun.covers
  · have hpre := h.prefill r hr
    unfold cached
    rw [if_pos hpre.outputs]
    exact hpre.covers

/-- block 0 is in no live table -/
theorem Inv.dummy_free (h : Inv T o s) {r : Nat} (hr : r ∈ s.admitted) :
    kDummyBlockId ∉ (s.heap r).blockTable.blocks := by
  intro hm
  have := (h.block_bounds hr hm).1
  unfold kDummyBlockId at this
  omega

/-- **The rows in order** extend what the pool holds, and yield what they should. -/
theorem Feeds.run (h : Inv T o s) (hf : Computes E x s f) {items : List (Option Nat × DeviceRow)}
    (hF : Feeds x s len items) : ∀ d, Backed E s len d →
      Backed E s (heldAfter len items) (runRows f items d).2 ∧
      ∀ (i r : Nat) (row : DeviceRow), items[i]? = some (some r, row) →
        ∃ v out, (runRows f items d).1[i]? = some out ∧
          E (s.heap r).tokens r row.position = some (v, out) := by
  induction hF with
  | nil len => exact fun d hB => ⟨hB, fun i r row hi => by simp at hi⟩
  | @live len r row items mem isRow rest ih =>
    intro d hB
    have hv := hf len d r row hB mem isRow
    have hcell : cellOf row.table row.position
        = Paged.cell kKvBlockSize kInvalidBlockId (s.heap r).blockTable.blocks (len r) := by
      rw [isRow.position]
      exact isRow.cell isRow.within
    have hB1 := Paged.Holds.put hB h.owned mem
      (Nat.lt_of_lt_of_le isRow.within isRow.covers) (congrArg (Option.map Prod.fst) hv)
    rw [← hcell] at hB1
    obtain ⟨h1, h2⟩ := ih _ hB1
    refine ⟨?_, fun i r' row' hi => ?_⟩
    · have hlen : heldAfter len ((some r, row) :: items)
          = heldAfter (Function.update len r (len r + 1)) items := by
        funext r'
        unfold heldAfter
        rw [List.countP_cons]
        by_cases hr : r' = r
        · subst hr
          rw [Function.update_self, if_pos (beq_self_eq_true _)]
          omega
        · rw [Function.update_of_ne hr, if_neg (by simpa using Ne.symm hr)]
          rfl
      rw [hlen]
      exact h1
    · cases i with
      | zero =>
        obtain ⟨rfl, rfl⟩ : r = r' ∧ row = row' := by simpa using hi
        exact ⟨_, _, rfl, by rw [isRow.position]; exact hv⟩
      | succ i => exact h2 i r' row' hi
  | @pad len row items isPad rest ih =>
    intro d hB
    have hB1 := Paged.Holds.put_spare hB (c := cellOf row.table row.position)
      (fun r hr => by rw [isPad.block]; exact h.dummy_free hr) (f none row d).1
    obtain ⟨h1, h2⟩ := ih _ hB1
    refine ⟨?_, fun i r' row' hi => ?_⟩
    · have hlen : heldAfter len ((none, row) :: items) = heldAfter len items := by
        funext r'
        unfold heldAfter
        rw [List.countP_cons]
        rfl
      rw [hlen]
      exact h1
    · cases i with
      | zero => simp at hi
      | succ i => exact h2 i r' row' hi

/-- the row writes past what is held, or where nobody owns anything -/
def Harmless (x : Executor) (s : Scheduler) (len : Nat → Nat) : Option Nat × DeviceRow → Prop
  | (some r, row) => r ∈ s.admitted ∧ ∃ p, len r ≤ p ∧ RowOf x (s.heap r) p row
  | (none, row) => PadRow row

theorem Feeds.harmless {items : List (Option Nat × DeviceRow)} (hF : Feeds x s len items) :
    ∀ i ∈ items, Harmless x s len i := by
  induction hF with
  | nil len => exact fun i hi => absurd hi List.not_mem_nil
  | @live len r row items mem isRow rest ih =>
    intro i hi
    rcases List.mem_cons.mp hi with rfl | hi
    · exact ⟨mem, len r, Nat.le_refl _, isRow⟩
    · have hrest := ih i hi
      match i, hrest with
      | (none, row'), hrest => exact hrest
      | (some r', row'), ⟨hm, p, hp, hrow⟩ =>
        refine ⟨hm, p, ?_, hrow⟩
        by_cases hr : r' = r
        · subst hr
          rw [Function.update_self] at hp
          omega
        · rwa [Function.update_of_ne hr] at hp
  | @pad len row items isPad rest ih =>
    intro i hi
    rcases List.mem_cons.mp hi with rfl | hi
    · exact isPad
    · exact ih i hi

/-- **Whatever part of a step was written**, the pool holds what it held. -/
theorem Backed.harmless (h : Inv T o s) (f : Option Nat → DeviceRow → Pool ι → ι × Int)
    (items : List (Option Nat × DeviceRow)) (hitems : ∀ i ∈ items, Harmless x s len i) :
    ∀ d, Backed E s len d → Backed E s len (runRows f items d).2 := by
  induction items with
  | nil => exact fun d hB => hB
  | cons i items ih =>
    intro d hB
    have hi := hitems i List.mem_cons_self
    have hrest := ih fun j hj => hitems j (List.mem_cons_of_mem _ hj)
    match i, hi with
    | (none, row), hi =>
      exact hrest _ (Paged.Holds.put_spare hB (c := cellOf row.table row.position)
        (fun r hr => by rw [hi.block]; exact h.dummy_free hr) _)
    | (some r, row), ⟨hm, p, hp, hrow⟩ =>
      have hcell : cellOf row.table row.position
          = Paged.cell kKvBlockSize kInvalidBlockId (s.heap r).blockTable.blocks p := by
        rw [hrow.position]
        exact hrow.cell hrow.within
      refine hrest _ ?_
      rw [hcell]
      exact Paged.Holds.put_past hB h.owned hm hp (Nat.lt_of_lt_of_le hrow.within hrow.covers) _

/-! ## planning and completing -/

/-- between two steps: each admitted request has in KV what its bookkeeping says -/
def BackedNow (E : Expect ι) (s : Scheduler) (d : Pool ι) : Prop :=
  Backed E s (fun r => cached (s.heap r)) d

theorem Carried.cached {q q' : Request} (h : Carried q q') : cached q' = cached q := by
  unfold Redline.cached
  rw [h.outputs, h.progress, h.seqLen]

theorem Carried.tokens {q q' : Request} (h : Carried q q') : q'.tokens = q.tokens := by
  have hp : q'.promptTokens = q.promptTokens := congrArg NewRequest.promptTokens h.asked
  unfold Request.tokens
  rw [hp, h.outputs]

theorem cached_waiting {q : Request} (h : WaitingReq q) : cached q = 0 := by
  unfold cached
  rw [if_pos h.outputs, h.progress]

theorem Inv.unfinished (h : Inv T o s) {r : Nat} (hr : r ∈ s.admitted) :
    (s.heap r).finishReason = .kNone := by
  rcases List.mem_append.mp hr with hr | hr
  · exact (h.running r hr).reason
  · exact (h.prefill r hr).reason

/-- an admitted request with something in KV was admitted before the plan -/
theorem Planned.was_admitted (h : Inv T o s) (hP : Scheduler.Planned T o s plan s') {r : Nat}
    (hr : r ∈ s'.admitted) (hc : 0 < cached (s'.heap r)) :
    r ∈ s.admitted ∧ r ∉ plan.aborted := by
  have hnone := hP.inv.unfinished hr
  have hab : r ∉ plan.aborted := by
    intro ha
    rw [((Planned.victims h hP).2 r ha).2.2] at hnone
    cases hnone
  have hlt : r < s.nextPtr := Planned.nextPtr hP ▸ hP.inv.lt_nextPtr (Or.inr hr)
  refine ⟨?_, hab⟩
  by_contra hm
  by_cases hw : r ∈ s.waiting
  · rw [(Planned.carried hP r).cached, cached_waiting (h.waiting r hw)] at hc
    omega
  · exact (h.finished r hlt hw hm).reason ((Planned.reason hP hab).symm.trans hnone)

/-- **Planning** keeps what the pool holds, if it leaves the blocks handed out before alone. -/
theorem Backed.planned (h : Inv T o s) (hP : Scheduler.Planned T o s plan s')
    (hB : BackedNow E s d)
    (hd : ∀ r ∈ s.admitted, r ∈ s'.admitted → ∀ b ∈ (s.heap r).blockTable.blocks, ∀ slot,
      d' (b, slot) = d (b, slot)) : BackedNow E s' d' := by
  refine Paged.Holds.regrant hB (fun r hr => hP.inv.cached_fits hr) fun r hr hc => ?_
  obtain ⟨hadm, hab⟩ := Planned.was_admitted h hP hr hc
  obtain ⟨_, hcar, bs, hbs⟩ := (Planned.cases hP r).resolve_left fun hv => hab hv.1
  refine ⟨hadm, hcar.cached, ⟨bs, hbs⟩, fun p _ => ?_, fun b hb slot => hd r hadm hr b hb slot⟩
  rw [hcar.tokens]

/-- the number of positions a plan adds to a request -/
def StepPlan.advance (plan : StepPlan) (r : Nat) : Nat :=
  if plan.prefill = some r then plan.prefillEnd - plan.prefillBegin
  else if r ∈ plan.decode then 1
  else 0

theorem Completed.slice {sampled : List Int} {results : List StepResult}
    (hC : Scheduler.Completed T o s plan sampled results s') {r : Nat} (hp : plan.prefill = some r) :
    r ∈ s.prefillQueue ∧ plan.prefillBegin = (s.heap r).prefillProgress ∧
      plan.prefillEnd = chunkEnd o (s.heap r) := by
  have hchunk : ∀ x rest, s.prefillQueue = x :: rest → plan = Scheduler.chunkPlan o s x →
      r ∈ s.prefillQueue ∧ plan.prefillBegin = (s.heap r).prefillProgress ∧
        plan.prefillEnd = chunkEnd o (s.heap r) := by
    rintro x rest queue rfl
    obtain rfl : x = r := Option.some.inj hp
    exact ⟨by rw [queue]; exact List.mem_cons_self, rfl, rfl⟩
  cases hC with
  | chunk x rest queue shape more none state inv => exact hchunk x rest queue shape
  | first x rest token queue shape last tokens emits applied => exact hchunk x rest queue shape
  | rows shape running tokens emits applied =>
    rw [shape] at hp
    cases hp

theorem cached_running {q : Request} (h : RunningReq o q) : cached q = q.seqLen - 1 :=
  if_neg (List.length_pos_iff.mp h.outputs_pos)

theorem cached_prefill {q : Request} (h : PrefillReq o q) : cached q = q.prefillProgress :=
  if_pos h.outputs

theorem Request.length_tokens (q : Request) : q.tokens.length = q.seqLen := List.length_append

theorem tokens_sampledReq (q : Request) (token : Int) :
    (sampledReq o q token).tokens = q.tokens ++ [Scheduler.appendedToken q token] := by
  have hp : (sampledReq o q token).promptTokens = q.promptTokens :=
    congrArg NewRequest.promptTokens (asked_sampledReq o q token)
  unfold Request.tokens
  rw [hp, outputTokens_sampledReq, List.append_assoc]

/-- a request that took a token and is still admitted goes on -/
theorem Inv.going_on (h : Inv T o s') {r : Nat} (hr : r ∈ s'.admitted) {q : Request} {token : Int}
    (eq : s'.heap r = sampledReq o q token) :
    s'.heap r = { appendedReq q token with state := .kRunning } := by
  by_cases hn : reasonOf o q token = .kNone
  · rw [eq, sampledReq_next hn]
  · have hf := (sampledReq_finished hn).reason
    rw [← eq] at hf
    exact absurd (h.unfinished hr) hf

/-- what a completed plan did to a request that is still admitted -/
structure Advanced (plan : StepPlan) (r : Nat) (q q' : Request) : Prop where
  held : cached q' = cached q + plan.advance r
  table : q'.blockTable = q.blockTable
  within : cached q + plan.advance r ≤ q.tokens.length
  tokens : q'.tokens = q.tokens ∨ ∃ t, q'.tokens = q.tokens ++ [t]

theorem Completed.advanced (h : Inv T o s) {sampled : List Int} {results : List StepResult}
    (hC : Scheduler.Completed T o s plan sampled results s') {r : Nat} (hr : r ∈ s'.admitted) :
    r ∈ s.admitted ∧ Advanced plan r (s.heap r) (s'.heap r) := by
  cases Completed.cases hC r with
  | same out eq =>
    have hlt : r < s.nextPtr := Completed.nextPtr hC ▸ hC.inv.lt_nextPtr (Or.inr hr)
    have hadm : r ∈ s.admitted := by
      have hst := (hC.inv.admitted_iff (Completed.nextPtr hC ▸ hlt)).mp hr
      rw [eq] at hst
      exact (h.admitted_iff hlt).mpr hst
    have h0 : plan.advance r = 0 := by
      unfold StepPlan.advance
      rw [if_neg fun e => out (Or.inl e), if_neg fun e => out (Or.inr e)]
    refine ⟨hadm, by rw [eq, h0]; rfl, by rw [eq], ?_, Or.inl (by rw [eq])⟩
    rw [h0, Request.length_tokens]
    rcases List.mem_append.mp hadm with hm | hm
    · rw [cached_running (h.running r hm)]
      omega
    · have := (h.prefill r hm).progress
      rw [cached_prefill (h.prefill r hm)]
      unfold Request.seqLen
      omega
  | chunk prefill more eq =>
    obtain ⟨hm, hb, he⟩ := Completed.slice hC prefill
    have hpre := h.prefill r hm
    have hlt := lt_chunkEnd h.tuned hpre
    have hadv : plan.advance r = chunkEnd o (s.heap r) - (s.heap r).prefillProgress := by
      unfold StepPlan.advance
      rw [if_pos prefill, hb, he]
    refine ⟨List.mem_append_right _ hm, ?_, by rw [eq]; rfl, ?_, Or.inl (by rw [eq]; rfl)⟩
    · rw [eq, hadv, cached_prefill hpre]
      show (if (s.heap r).outputTokens = [] then chunkEnd o (s.heap r) else _) = _
      rw [if_pos hpre.outputs]
      omega
    · rw [hadv, cached_prefill hpre, Request.length_tokens]
      unfold Request.seqLen
      omega
  | first prefill token tokens last eq =>
    obtain ⟨hm, hb, he⟩ := Completed.slice hC prefill
    have hpre := h.prefill r hm
    have hlt := lt_chunkEnd h.tuned hpre
    have hadv : plan.advance r = (s.heap r).numPromptTokens - (s.heap r).prefillProgress := by
      unfold StepPlan.advance
      rw [if_pos prefill, hb, he, last]
    have hgo := hC.inv.going_on hr eq
    have hlen : (s'.heap r).seqLen = (s.heap r).seqLen + 1 := by rw [eq, seqLen_sampledReq]; rfl
    have hseq : (s.heap r).seqLen = (s.heap r).numPromptTokens := by
      unfold Request.seqLen Request.numOutputTokens
      rw [hpre.outputs]
      rfl
    refine ⟨List.mem_append_right _ hm, ?_, by rw [hgo]; rfl, ?_,
      Or.inr ⟨Scheduler.appendedToken (s.heap r) token, ?_⟩⟩
    · have hne : (s'.heap r).outputTokens ≠ [] := by
        rw [eq, outputTokens_sampledReq]
        exact List.append_ne_nil_of_right_ne_nil _ (List.cons_ne_nil _ _)
      rw [hadv, cached_prefill hpre]
      unfold cached
      rw [if_neg hne, hlen, hseq]
      omega
    · rw [hadv, cached_prefill hpre, Request.length_tokens]
      omega
    · rw [eq, tokens_sampledReq]
      rfl
  | row i token row tokens eq =>
    have hd := List.mem_of_getElem? row
    have hm := (Completed.scheduled hC).2 r hd
    have hrun := h.running r hm
    have hpos := hrun.seqLen_pos
    have hadv : plan.advance r = 1 := by
      have hp : plan.prefill ≠ some r := fun hp => by
        have hst := hrun.state
        rw [(h.prefill r ((Completed.scheduled hC).1 r hp).1).state] at hst
        cases hst
      unfold StepPlan.advance
      rw [if_neg hp, if_pos hd]
    have hgo := hC.inv.going_on hr eq
    have hlen : (s'.heap r).seqLen = (s.heap r).seqLen + 1 := by rw [eq, seqLen_sampledReq]
    refine ⟨List.mem_append_left _ hm,
      ?_, by rw [hgo]; rfl, ?_, Or.inr ⟨_, by rw [eq, tokens_sampledReq]⟩⟩
    · have hne : (s'.heap r).outputTokens ≠ [] := by
        rw [eq, outputTokens_sampledReq]
        exact List.append_ne_nil_of_right_ne_nil _ (List.cons_ne_nil _ _)
      rw [hadv, cached_running hrun]
      unfold cached
      rw [if_neg hne, hlen]
      omega
    · rw [hadv, cached_running hrun, Request.length_tokens]
      omega

/-- **Completing** accounts for the positions the plan added. -/
theorem Backed.completed (hS : E.Stable) (h : Inv T o s) {sampled : List Int}
    {results : List StepResult} (hC : Scheduler.Completed T o s plan sampled results s')
    (hB : Backed E s (fun r => cached (s.heap r) + plan.advance r) d) : BackedNow E s' d := by
  refine Paged.Holds.regrant hB (fun r hr => hC.inv.cached_fits hr) fun r hr _ => ?_
  obtain ⟨hadm, hadv⟩ := Completed.advanced h hC hr
  refine ⟨hadm, hadv.held, ⟨[], by rw [hadv.table, List.append_nil]⟩, fun p hp => ?_,
    fun b _ slot => rfl⟩
  rcases hadv.tokens with ht | ⟨t, ht⟩
  · rw [ht]
  · rw [ht, hS _ _ _ _ (Nat.lt_of_lt_of_le hp hadv.within)]

end
end Redline
