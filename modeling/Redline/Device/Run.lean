import Redline.Device.Pool

/-!
# The KV pool along a run

`Launched.feeds`: the rows of a launch continue the sequences of their requests, by the positions
the plan adds; `Launched.extent` says what they read.  So a step leaves the pool backed whatever the
device does (`Backed.ended`), and so does every call (`Backed.stepped`), for a device that runs the
rows of a launch, or any part of them before it throws (`RunsRows`).
-/

namespace Redline
open Prog

section
variable {T : Nat} {o : SchedulerOptions} {s s' : Scheduler} {plan : StepPlan} {x : Executor}
  {ι : Type} {E : Expect ι} {d : Pool ι} {f : Option Nat → DeviceRow → Pool ι → ι × Int}

/-! ## the rows of a launch -/

theorem count_owners (batch : List Nat) (r : Nat) : ∀ rows : List DeviceRow,
    batch.length ≤ rows.length →
      (owners batch rows).countP (fun i => i.1 == some r) = batch.count r := by
  induction batch with
  | nil =>
    intro rows _
    induction rows with
    | nil => rfl
    | cons row rows ih => exact (List.countP_cons_of_neg (by simp)).trans (ih (Nat.zero_le _))
  | cons r' batch ih =>
    intro rows hle
    match rows, hle with
    | row :: rows, hle =>
      show ((some r', row) :: owners batch rows).countP _ = _
      rw [List.countP_cons, List.count_cons, ih rows (Nat.le_of_succ_le_succ hle)]
      simp

/-- **The rows of a launch** continue the sequences, by the positions the plan adds. -/
theorem Launched.feeds (h : Inv T o s) (hP : Scheduler.PlanOk o s plan) {l : Launch}
    (hL : Launched x o s plan l) : Feeds x s (fun r => cached (s.heap r)) l.items ∧
      heldAfter (fun r => cached (s.heap r)) l.items
        = fun r => cached (s.heap r) + plan.advance r := by
  cases hL with
  | chunk r prefill ok =>
    have hslice : r ∈ s.prefillQueue ∧ plan.prefillBegin = (s.heap r).prefillProgress := by
      cases hP with
      | prefill y rest queue shape blocks =>
        rw [shape] at prefill ⊢
        obtain rfl : y = r := Option.some.inj prefill
        exact ⟨by rw [queue]; exact List.mem_cons_self, rfl⟩
      | decode shape running blocks victims =>
        rw [shape] at prefill
        cases prefill
    obtain ⟨hm, hb⟩ := hslice
    have hlt := ok.slice.1
    have hc : cached (s.heap r) = plan.prefillBegin := (cached_prefill (h.prefill r hm)).trans hb.symm
    have hrows : (List.range (plan.prefillEnd - plan.prefillBegin)).map
          (fun t => x.chunkRow (s.heap r) plan.prefillEnd (plan.prefillBegin + t))
        = (List.range' plan.prefillBegin (plan.prefillEnd - plan.prefillBegin)).map
          (x.chunkRow (s.heap r) plan.prefillEnd) := by
      rw [List.range'_eq_map_range, List.map_map]
      rfl
    refine ⟨?_, funext fun r' => ?_⟩
    · show Feeds x s _ (owners _ _)
      rw [hrows]
      have := feeds_chunk (List.mem_append_right _ hm) ok (plan.prefillEnd - plan.prefillBegin)
        (fun r => cached (s.heap r)) (by rw [hc]; omega)
      rw [hc] at this
      exact this
    · show cached (s.heap r') + (owners _ _).countP _ = _
      rw [count_owners _ _ _ (by simp), List.count_replicate]
      unfold StepPlan.advance
      rw [prefill]
      by_cases hr : r = r'
      · rw [if_pos (by simpa using hr), if_pos (congrArg some hr)]
      · have hd : plan.decode = [] := by
          cases hP with
          | prefill y rest queue shape blocks => rw [shape]; rfl
          | decode shape running blocks victims => rw [shape] at prefill; cases prefill
        rw [if_neg (by simpa using hr), if_neg (mt Option.some.inj hr), hd, if_neg List.not_mem_nil]
  | batch rows prefill busy ok live max =>
    have hrunning : ∀ r ∈ plan.decode, r ∈ s.running := by
      cases hP with
      | prefill y rest queue shape blocks => rw [shape] at prefill; cases prefill
      | decode shape running blocks victims => exact fun r hr => by rw [running]; exact hr
    have hnd : plan.decode.Nodup := by
      cases hP with
      | prefill y rest queue shape blocks => rw [shape] at prefill; cases prefill
      | decode shape running blocks victims =>
        rw [← running]
        exact (List.nodup_append.mp h.nodup).1
    have hwidth : 0 < x.maxBlocksPerSeq := by
      obtain ⟨r, hr⟩ := List.exists_mem_of_ne_nil _ busy
      have hrow := ok r hr
      have h1 := blocksForTokens_pos (Nat.lt_of_lt_of_le Nat.zero_lt_one hrow.seqLen.1)
      have h2 := hrow.table.covers
      have h3 := hrow.table.width
      omega
    have hitems : owners plan.decode (x.decodeRows (plan.decode.map s.heap) rows)
        = owners plan.decode ((plan.decode.map s.heap).map x.decodeRow) ++
          owners [] (List.replicate (rows - (plan.decode.map s.heap).length) x.paddedRow) :=
      owners_append _ _ _ (by simp)
    refine ⟨?_, funext fun r' => ?_⟩
    · show Feeds x s _ (owners _ _)
      rw [hitems]
      exact feeds_batch plan.decode _ (fun len => feeds_pads (padRow_paddedRow hwidth) _ len) hnd
        (fun r hr => List.mem_append_left _ (hrunning r hr)) ok _
        fun r hr => cached_running (h.running r (hrunning r hr))
    · show cached (s.heap r') + (owners _ _).countP _ = _
      rw [count_owners _ _ _ (by unfold Executor.decodeRows; simp)]
      unfold StepPlan.advance
      rw [prefill, if_neg nofun]
      by_cases hr : r' ∈ plan.decode
      · rw [if_pos hr, List.count_eq_one_of_mem hnd hr]
      · rw [if_neg hr, List.count_eq_zero_of_not_mem hr]

theorem mem_owners (batch : List Nat) {r : Nat} {row : DeviceRow} : ∀ rows : List DeviceRow,
    (some r, row) ∈ owners batch rows → ∃ t : Nat, batch[t]? = some r ∧ rows[t]? = some row := by
  induction batch with
  | nil =>
    intro rows hm
    induction rows with
    | nil => exact absurd hm List.not_mem_nil
    | cons row' rows ih =>
      rcases List.mem_cons.mp hm with he | hm
      · cases he
      · obtain ⟨t, h1, _⟩ := ih hm
        simp at h1
  | cons r' batch ih =>
    intro rows hm
    match rows, hm with
    | row' :: rows, hm =>
      rcases List.mem_cons.mp hm with he | hm
      · obtain ⟨h1, rfl⟩ := Prod.mk.inj he
        exact ⟨0, h1.symm, rfl⟩
      · obtain ⟨t, h1, h2⟩ := ih rows hm
        exact ⟨t + 1, h1, h2⟩

/-- **What a live row reads**: everything its request has in KV once the rows are written. -/
theorem Launched.extent (h : Inv T o s) (hP : Scheduler.PlanOk o s plan) {l : Launch}
    (hL : Launched x o s plan l) {r : Nat} {row : DeviceRow} (hm : (some r, row) ∈ l.items) :
    r ∈ s.admitted ∧ row.extent = cached (s.heap r) + plan.advance r ∧
      row.extent = (if plan.prefill = none then (s.heap r).seqLen else plan.prefillEnd) ∧
      ∃ p, RowOf x (s.heap r) p row := by
  have hrow : r ∈ s.admitted ∧ ∃ p, RowOf x (s.heap r) p row := by
    obtain ⟨h1, p, _, h3⟩ := (hL.feeds h hP).1.harmless _ hm
    exact ⟨h1, p, h3⟩
  refine ⟨hrow.1, ?_⟩
  obtain ⟨t, hbatch, hrows⟩ := mem_owners _ _ hm
  cases hL with
  | chunk x' prefill ok =>
    have hslice : x' ∈ s.prefillQueue ∧ plan.prefillBegin = (s.heap x').prefillProgress := by
      cases hP with
      | prefill y rest queue shape blocks =>
        rw [shape] at prefill ⊢
        obtain rfl : y = x' := Option.some.inj prefill
        exact ⟨by rw [queue]; exact List.mem_cons_self, rfl⟩
      | decode shape running blocks victims => rw [shape] at prefill; cases prefill
    obtain rfl : r = x' := List.eq_of_mem_replicate (List.mem_of_getElem? hbatch)
    obtain ⟨p, _, rfl⟩ := List.mem_map.mp (List.mem_of_getElem? hrows)
    refine ⟨?_, by rw [prefill, if_neg nofun]; rfl, hrow.2⟩
    show plan.prefillEnd = _
    have := ok.slice.1
    unfold StepPlan.advance
    rw [if_pos prefill, cached_prefill (h.prefill r hslice.1), ← hslice.2]
    omega
  | batch rows prefill busy ok live max =>
    have hbatch' : plan.decode[t]? = some r := hbatch
    have hd : r ∈ plan.decode := List.mem_of_getElem? hbatch'
    have hlt : t < plan.decode.length := (List.getElem?_eq_some_iff.mp hbatch').1
    have hrows' : (x.decodeRows (plan.decode.map s.heap) rows)[t]? = some row := hrows
    have heq : row = x.decodeRow (s.heap r) := by
      unfold Executor.decodeRows at hrows'
      rw [List.getElem?_append_left (by simpa using hlt), List.getElem?_map, List.getElem?_map,
        hbatch'] at hrows'
      exact (Option.some.inj hrows').symm
    have hrun : r ∈ s.running := by
      cases hP with
      | prefill y rest queue shape blocks => rw [shape] at prefill; cases prefill
      | decode shape running blocks victims => rw [running]; exact hd
    have hpos := (h.running r hrun).seqLen_pos
    refine ⟨?_, by rw [heq, if_pos prefill]; rfl, hrow.2⟩
    rw [heq, cached_running (h.running r hrun)]
    show (s.heap r).seqLen = _
    unfold StepPlan.advance
    rw [prefill, if_neg nofun, if_pos hd]
    omega

/-- a new request has nothing in the pool -/
theorem Backed.added (h : Inv T o s) {q : Request} (hB : BackedNow E s d) :
    BackedNow E { s with
      heap := Function.update s.heap s.nextPtr q
      waiting := s.waiting ++ [s.nextPtr]
      nextPtr := s.nextPtr + 1 } d := by
  have hsame : ∀ r ∈ s.admitted, Function.update s.heap s.nextPtr q r = s.heap r := fun r hr =>
    Function.update_of_ne (Nat.ne_of_lt (h.lt_nextPtr (Or.inr hr))) _ _
  refine ⟨fun r hr => ?_, fun r hr p hp => ?_⟩
  · show cached (Function.update s.heap s.nextPtr q r) ≤
      (Function.update s.heap s.nextPtr q r).blockTable.blocks.length * kKvBlockSize
    rw [hsame r hr]
    exact hB.fits r hr
  · have hp' : p < cached (Function.update s.heap s.nextPtr q r) := hp
    show (E (Function.update s.heap s.nextPtr q r).tokens r p).map Prod.fst = some (d (Paged.cell
      kKvBlockSize kInvalidBlockId (Function.update s.heap s.nextPtr q r).blockTable.blocks p))
    rw [hsame r hr] at hp' ⊢
    exact hB.content r hr p hp'

/-! ## steps and runs -/

/-- the device runs the rows of a launch in order, or some of them before it throws -/
structure RunsRows (f : Option Nat → DeviceRow → Pool ι → ι × Int) (dev : Device (Pool ι)) :
    Prop where
  done : ∀ l d argmax d', dev l d = (.ok argmax, d') → d' = (runRows f l.items d).2
  threw : ∀ l d err d', dev l d = (.error err, d') →
    ∃ items, (∀ i ∈ items, i ∈ l.items) ∧ d' = (runRows f items d).2

/-- **A step** leaves the pool backed, whatever the device does. -/
theorem Backed.ended (hS : E.Stable) {e e' : Engine} (hE : EngineInv T o e)
    (hP : Scheduler.PlanOk o e.sched plan) (hf : Computes E e.executor e.sched f)
    {dev : Device (Pool ι)} (hdev : RunsRows f dev) {d' : Pool ι}
    {res : Except ExecutorError (List StepResult)}
    (hend : Engine.Ended T o dev d e plan res e' d') (hB : BackedNow E e.sched d) :
    BackedNow E e'.sched d' := by
  cases hend with
  | idle empty => exact hB
  | evictions prefill decode results s completed =>
    show BackedNow E s d
    refine Backed.completed hS hE.sched completed ?_
    have h0 : ∀ r, plan.advance r = 0 := fun r => by
      unfold StepPlan.advance
      rw [prefill, decode, if_neg nofun, if_neg List.not_mem_nil]
    have hlen : (fun r => cached (e.sched.heap r) + plan.advance r)
        = fun r => cached (e.sched.heap r) := funext fun r => by rw [h0 r, Nat.add_zero]
    rw [hlen]
    exact hB
  | refused m err launch busy => exact hB
  | threw m done l err d' launch launched device busy =>
    obtain ⟨items, hsub, rfl⟩ := hdev.threw l d err d' device
    exact Backed.harmless hE.sched f items
      (fun i hi => (launched.feeds hE.sched hP).1.harmless i (hsub i hi)) d hB
  | done m done l argmax d' results s launch launched device completed =>
    obtain rfl := hdev.done l d argmax d' device
    obtain ⟨hfeeds, hheld⟩ := launched.feeds hE.sched hP
    have hrun := (hfeeds.run hE.sched hf d hB).1
    rw [hheld] at hrun
    show BackedNow E s _
    exact Backed.completed hS hE.sched completed hrun

/-- planning leaves the blocks alone that were handed out before -/
def Environment.KeepsOld {κ : Type} (T : Nat) (o : SchedulerOptions) (env : Environment κ (Pool ι)) :
    Prop :=
  ∀ s plan s' d, Inv T o s → Scheduler.Planned T o s plan s' → ∀ r ∈ s.admitted, r ∈ s'.admitted →
    ∀ b ∈ (s.heap r).blockTable.blocks, ∀ slot, env.planned s s' d (b, slot) = d (b, slot)

/-- **A call** leaves the pool backed. -/
theorem Backed.stepped {κ : Type} {env : Environment κ (Pool ι)} (hS : E.Stable)
    (hf : ∀ x s, Computes E x s f) (hdev : ∀ k, RunsRows f (env.dev k)) (hold : env.KeepsOld T o)
    {w w' : EngineRun (Pool ι)} {c : EngineCall κ} (hE : EngineInv T o w.engine)
    (h : EngineRun.Stepped T o env w c w') (hB : BackedNow E w.engine.sched w.device) :
    BackedNow E w'.engine.sched w'.device := by
  cases h with
  | refused a err => exact hB
  | added a accepted => exact Backed.added hE.sched hB
  | stepped k plan s out e d plans planned ended =>
    have hB1 := Backed.planned hE.sched planned hB
      (hold _ plan s w.device hE.sched planned)
    exact Backed.ended hS (Engine.EngineInv.planned hE planned) (planned.planOk hE.sched) (hf _ _)
      (hdev k) ended hB1

end
end Redline
