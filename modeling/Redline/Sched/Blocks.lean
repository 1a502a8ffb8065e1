import Redline.Sched.Inv

/-!
# What the block operations of the scheduler do

One spec for each helper that touches the allocator, from a state that satisfies `Inv`:
`releaseResources`, `appendReserved`, `abortYoungestRunning` and the `while` of
`EnsureDecodeBlockCapacity` (`abortUntilFree_spec`: it aborts once at most).

`Grown q q'`: the request got blocks appended, and nothing else but its reservation changed.
-/

namespace Redline
open Prog Ledger

/-- the request after its blocks, reservation and slot went back -/
def Request.released (q : Request) : Request :=
  { q with blockTable := ⟨[]⟩, reservedBlocks := 0, slot := -1 }

/-- the request after an abort -/
def evicted (q : Request) : Request :=
  Request.released { q with state := .kFinished, finishReason := .kAborted }

/-- blocks are appended, and the reservation may change -/
def Grown (q q' : Request) : Prop :=
  ∃ bs n, q' = { q with blockTable := ⟨q.blockTable.blocks ++ bs⟩, reservedBlocks := n }

theorem Grown.refl (q : Request) : Grown q q := ⟨[], q.reservedBlocks, by simp⟩

theorem Grown.trans {q q1 q2 : Request} (h : Grown q q1) (h' : Grown q1 q2) : Grown q q2 := by
  obtain ⟨bs, n, rfl⟩ := h
  obtain ⟨cs, m, rfl⟩ := h'
  exact ⟨bs ++ cs, m, by simp⟩

theorem evicted_finished (q : Request) : FinishedReq (evicted q) :=
  ⟨rfl, by simp [evicted, Request.released], rfl, rfl, rfl⟩

theorem evicted_valid {U : Nat} {o : SchedulerOptions} {q : Request} (hv : Valid U o q) :
    Valid U o (evicted q) := ⟨hv.prompt_pos, hv.maxNew_pos, hv.fits_seq, hv.fits_pool⟩

namespace Scheduler

/-! ## giving back -/

theorem freeAll_spec (bs : List Int) : ∀ (a : BlockAllocator) (out : Multiset Int),
    a.Inv ((bs : Multiset Int) + out) → ∃ a', freeAll bs a = some a' ∧ a'.Inv out ∧
      a'.totalBlocks = a.totalBlocks ∧ a'.reserved = a.reserved ∧
      a'.freeBlocks = a.freeBlocks + bs.length := by
  induction bs with
  | nil =>
    intro a out h
    rw [Multiset.coe_nil, zero_add] at h
    exact ⟨a, rfl, h, rfl, rfl, rfl⟩
  | cons b bs ih =>
    intro a out h
    rw [← Multiset.cons_coe, Multiset.cons_add] at h
    obtain ⟨a1, h1, hf1, hr1, ht1, hi1⟩ := BlockAllocator.freeBlock_spec h
    obtain ⟨a2, h2, hi2, ht2, hr2, hf2⟩ := ih a1 out hi1
    refine ⟨a2, by rw [freeAll, h1, Option.bind_some, h2], hi2, ht2.trans ht1, hr2.trans hr1, ?_⟩
    rw [hf2, BlockAllocator.freeBlocks, hf1, BlockAllocator.freeBlocks, List.length_cons,
      List.length_cons]
    omega

/-- the blocks go back to the pool, the promise is dropped, the slot is free again -/
theorem releaseResources_spec {s : Scheduler} {r : Nat} {q : Request} {M : Multiset Int}
    (hq : s.heap r = q) (hal : s.allocator.Inv ((q.blockTable.blocks : Multiset Int) + M))
    (h0 : 0 ≤ q.reservedBlocks) (hle : q.reservedBlocks ≤ s.allocator.reserved)
    (hslot : 0 ≤ q.slot) :
    ∃ al, s.releaseResources r = some { s with
        heap := Function.update s.heap r q.released
        allocator := al
        freeSlots := q.slot :: s.freeSlots } ∧
      al.Inv M ∧ al.totalBlocks = s.allocator.totalBlocks ∧
      al.reserved = s.allocator.reserved - q.reservedBlocks ∧
      al.freeBlocks = s.allocator.freeBlocks + q.blockTable.numBlocks := by
  obtain ⟨a1, h1, hi1, ht1, hr1, hf1⟩ := freeAll_spec q.blockTable.blocks s.allocator M hal
  obtain ⟨h2, hi2⟩ := BlockAllocator.unreserve_spec hi1 h0 (by rw [hr1]; exact hle)
  refine ⟨_, ?_, hi2, ht1, by rw [hr1], hf1⟩
  unfold releaseResources
  simp only [hq, BlockTable.release, h1, h2, Option.bind_eq_bind, Option.bind_some, if_pos hslot]
  rfl

/-! ## growing -/

/-- one block out of the request's own reservation -/
theorem appendReserved_spec {s : Scheduler} {r : Nat} {q : Request} {out : Multiset Int}
    (hq : s.heap r = q) (hal : s.allocator.Inv ((q.blockTable.blocks : Multiset Int) + out))
    (h0 : 0 < q.reservedBlocks) (hle : q.reservedBlocks ≤ s.allocator.reserved) :
    ∃ b al, s.appendReserved r = some { s with
        heap := Function.update s.heap r { q with
          blockTable := q.blockTable.append b
          reservedBlocks := q.reservedBlocks - 1 }
        allocator := al } ∧
      al.Inv (((q.blockTable.append b).blocks : Multiset Int) + out) ∧
      al.totalBlocks = s.allocator.totalBlocks ∧ al.reserved = s.allocator.reserved - 1 := by
  obtain ⟨b, rest, al, _, ha, _, hr, ht, hi⟩ :=
    BlockAllocator.allocReserved_spec hal (by omega)
  refine ⟨b, al, ?_, ?_, ht, hr⟩
  · unfold appendReserved
    simp only [hq, check_pos h0, ha, Option.bind_eq_bind, Option.bind_some, Option.pure_def]
  · rw [BlockTable.append_blocks, ← Multiset.coe_add, add_assoc, Multiset.coe_singleton,
      add_left_comm, Multiset.singleton_add]
    exact hi

/-! ## aborting -/

section
variable {T : Nat} {o : SchedulerOptions} {s : Scheduler}

/-- the allocator is sound for one of the admitted requests and the others -/
theorem alloc_split (h : Inv T o s) {a b : List Nat} {r : Nat} (e : s.admitted = a ++ r :: b) :
    s.allocator.Inv (((s.heap r).blockTable.blocks : Multiset Int) + s.blocksHeld (a ++ b)) := by
  have hal := h.alloc
  unfold blocksHeld at hal
  rw [e, held_mid] at hal
  exact hal

/-- the youngest running sequence is evicted, and then the pool has a block to promise -/
theorem abortYoungestRunning_spec (h : Inv T o s) {R : List Nat} {v : Nat}
    (hR : s.running = R ++ [v]) (plan : StepPlan) :
    ∃ s', s.abortYoungestRunning plan = some ({ plan with aborted := plan.aborted ++ [v] }, s') ∧
      Inv T o s' ∧ s'.running = R ∧ s'.prefillQueue = s.prefillQueue ∧ s'.waiting = s.waiting ∧
      s'.nextPtr = s.nextPtr ∧ s'.heap = Function.update s.heap v (evicted (s.heap v)) ∧
      s'.allocator.canReserve 1 = true := by
  have e : s.admitted = R ++ v :: s.prefillQueue := by
    unfold admitted; rw [hR]; simp
  have hrun : RunningReq o (s.heap v) := h.running v (by rw [hR]; simp)
  have hv : Valid s.allocator.usableBlocks o (s.heap v) :=
    h.valid v (h.lt_nextPtr (Or.inr (by rw [e]; simp)))
  obtain ⟨hr0, hr1⟩ := h.reservedHeld_le e
  have hsplit := alloc_split h e
  let q1 : Request := { s.heap v with state := .kFinished, finishReason := .kAborted }
  let s1 : Scheduler := { s with
    heap := Function.update s.heap v q1
    running := s.running.dropLast }
  obtain ⟨al, hrel, hi, ht, hr, hf⟩ := releaseResources_spec (s := s1) (r := v) (q := q1)
    (M := s.blocksHeld (R ++ s.prefillQueue)) (Function.update_self ..) hsplit
    hrun.reserved_nonneg (by show (s.heap v).reservedBlocks ≤ s.allocator.reserved; omega) hrun.slot
  have hrem := h.remove (q := evicted (s.heap v)) (A := al) (R := R) (P := s.prefillQueue) e rfl
    (fun x hx => by rw [hR]; exact List.mem_append_left _ hx) (fun x hx => hx)
    (evicted_finished _) (evicted_valid hv) ht hi
    (by rw [hr]; show s.allocator.reserved - (s.heap v).reservedBlocks = _; omega)
  refine ⟨_, ?_, hrem, rfl, rfl, rfl, rfl, rfl, ?_⟩
  · unfold abortYoungestRunning
    have hl : s.running.getLast? = some v := by rw [hR, List.getLast?_concat]
    simp only [hl, Option.bind_eq_bind, Option.bind_some]
    show (s1.releaseResources v).bind _ = _
    rw [hrel]
    simp only [s1, q1, hR, List.dropLast_concat, Function.update_idem, Option.bind_some]
    rfl
  · have hle := h.alloc.reserved_le
    have hb : 0 < (s.heap v).blockTable.numBlocks := hrun.blocks_pos hv
    have hres := hrun.reserved_nonneg
    have hf' : al.freeBlocks = s.allocator.freeBlocks + (s.heap v).blockTable.numBlocks := hf
    have hr' : al.reserved = s.allocator.reserved - (s.heap v).reservedBlocks := hr
    unfold BlockAllocator.canReserve
    rw [decide_eq_true_eq]
    show (1 : Int) ≤ al.freeBlocks - al.reserved
    omega

/-- **The abort loop runs once at most.** -/
theorem abortUntilFree_spec (h : Inv T o s) {R : List Nat} {v : Nat} (hR : s.running = R ++ [v])
    (request : Nat) (plan : StepPlan) :
    (s.allocator.canReserve 1 = true ∧
      s.abortUntilFree request plan = some { plan, sched := s }) ∨
    (s.allocator.canReserve 1 = false ∧ ∃ s',
      s.abortUntilFree request plan = some
        { plan := { plan with aborted := plan.aborted ++ [v] }, sched := s',
          victimIsSelf := v == request } ∧
      Inv T o s' ∧ s'.running = R ∧ s'.prefillQueue = s.prefillQueue ∧ s'.waiting = s.waiting ∧
      s'.nextPtr = s.nextPtr ∧ s'.heap = Function.update s.heap v (evicted (s.heap v)) ∧
      s'.allocator.canReserve 1 = true) := by
  have hlen : s.running.length = R.length + 1 := by rw [hR]; simp
  cases hc : s.allocator.canReserve 1 with
  | true =>
    refine Or.inl ⟨rfl, ?_⟩
    simp [abortUntilFree, loop, hc]
  | false =>
    obtain ⟨s', ha, hi, h1, h2, h3, h4, h5, h6⟩ := abortYoungestRunning_spec h hR plan
    refine Or.inr ⟨rfl, s', ?_, hi, h1, h2, h3, h4, h5, h6⟩
    have hl : s.running.getLast? = some v := by rw [hR, List.getLast?_concat]
    simp [abortUntilFree, loop, hc, hlen, abortBody, hl, ha, h6]

end
end Scheduler
end Redline
