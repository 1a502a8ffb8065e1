import Redline.Sched.Blocks

/-!
# One decode row at a block boundary

`ensureDecodeBlockCapacity_spec`: the row gets its block, after at most one abort, or is itself
the victim (`Ensured`).  Under `reserve_full` the block comes out of the row's reservation
(`ensure_full`); under `watermark` it comes out of the pool, when that has one to promise
(`ensured_pool`), else from the youngest running sequence (`ensured_other`, `ensured_self`).
-/

namespace Redline
open Prog Ledger

namespace Scheduler

section
variable {T : Nat} {o : SchedulerOptions} {s : Scheduler}

/-- a running request whose blocks are full gets one more -/
theorem grow_running (h : Inv T o s) {pre post : List Nat} {r : Nat}
    (hR : s.running = pre ++ r :: post)
    (hfull : (s.heap r).blockTable.tokenCapacity + 1 = (s.heap r).seqLen) {b n : Int}
    {A : BlockAllocator} (ht : A.totalBlocks = s.allocator.totalBlocks)
    (hi : A.Inv ((((s.heap r).blockTable.append b).blocks : Multiset Int)
      + s.blocksHeld (pre ++ (post ++ s.prefillQueue))))
    (hn : A.reserved = n + s.reservedHeld (pre ++ (post ++ s.prefillQueue)))
    (hg : n = growthLeft o { s.heap r with blockTable := (s.heap r).blockTable.append b }) :
    Inv T o { s with
      heap := Function.update s.heap r { s.heap r with
        blockTable := (s.heap r).blockTable.append b
        reservedBlocks := n }
      allocator := A } := by
  have e : s.admitted = pre ++ r :: (post ++ s.prefillQueue) := by
    unfold admitted; rw [hR]; simp
  have hmem : r ∈ s.running := by rw [hR]; simp
  have hrun := h.running r hmem
  have hv := h.valid r (h.lt_nextPtr (Or.inr (by rw [e]; simp)))
  refine h.exchange e rfl (fun x hx _ => hx) (fun x hx _ => hx) ?_ ?_ rfl
    ⟨hv.prompt_pos, hv.maxNew_pos, hv.fits_seq, hv.fits_pool⟩ ht hi hn
  · intro _
    refine ⟨hrun.state, hrun.reason, hrun.slot, hrun.progress, hrun.outputs_pos, hrun.outputs_lt,
      ?_, ?_, hg⟩
    · rw [BlockTable.append_numBlocks]
      exact hrun.covers.trans (Nat.le_succ _)
    · rw [BlockTable.append_numBlocks]
      show (s.heap r).blockTable.numBlocks + 1 ≤ blocksForTokens (s.heap r).seqLen
      rw [← hfull, ← Nat.lt_iff_add_one_le, ← Nat.not_le, ← BlockTable.le_tokenCapacity]
      exact Nat.not_succ_le_self _
  · intro hp
    have hnd := h.nodup
    unfold admitted at hnd
    rw [List.nodup_append] at hnd
    exact absurd rfl (hnd.2.2 r hmem r hp)

/-- what `EnsureDecodeBlockCapacity` does for the row `r`; `ab` are its victims -/
structure Ensured (T : Nat) (o : SchedulerOptions) (s : Scheduler) (pre : List Nat) (r : Nat)
    (covered : Bool) (ab : List Nat) (s' : Scheduler) : Prop where
  inv : Inv T o s'
  waiting : s'.waiting = s.waiting
  prefill : s'.prefillQueue = s.prefillQueue
  nextPtr : s'.nextPtr = s.nextPtr
  running : s.running = s'.running ++ ab
  once : ab.length ≤ 1
  exhausted : ab ≠ [] → o.admissionPolicy = .kWatermark ∧ s.allocator.canReserve 1 = false
  grown : covered = true → (∃ post, s'.running = pre ++ r :: post) ∧
    Grown (s.heap r) (s'.heap r) ∧
    (s'.heap r).blockTable.numBlocks = (s.heap r).blockTable.numBlocks + 1
  victim : covered = false → s'.running = pre ∧ ab = [r]
  evictions : ∀ v ∈ ab, s'.heap v = evicted (s.heap v)
  frame : ∀ x, x ≠ r → x ∉ ab → s'.heap x = s.heap x

/-- under `reserve_full` the block comes out of the row's own reservation -/
theorem ensure_full (h : Inv T o s) (hp : o.admissionPolicy = .kReserveFull)
    {pre post : List Nat} {r : Nat} (hR : s.running = pre ++ r :: post)
    (hfull : (s.heap r).blockTable.tokenCapacity + 1 = (s.heap r).seqLen) :
    ∃ s', s.appendReserved r = some s' ∧ Ensured T o s pre r true [] s' := by
  have e : s.admitted = pre ++ r :: (post ++ s.prefillQueue) := by
    unfold admitted; rw [hR]; simp
  have hrun := h.running r (by rw [hR]; simp)
  have hg : ∀ q : Request, growthLeft o q = worstCaseBlocks q - q.blockTable.numBlocks := by
    intro q; unfold growthLeft; rw [hp]
  have hlt : (s.heap r).blockTable.numBlocks < worstCaseBlocks (s.heap r) := by
    rw [← Nat.not_le]
    unfold worstCaseBlocks
    rw [← BlockTable.le_tokenCapacity]
    have := hrun.outputs_lt
    unfold Request.seqLen at hfull
    omega
  have hpos : 0 < (s.heap r).reservedBlocks := by rw [hrun.reserved, hg]; omega
  obtain ⟨hr0, hr1⟩ := h.reservedHeld_le e
  obtain ⟨b, A, hap, hi, ht, hr⟩ := appendReserved_spec rfl (alloc_split h e) hpos (by omega)
  refine ⟨_, hap, ?_⟩
  constructor
  · refine grow_running h hR hfull ht hi (by rw [hr]; omega) ?_
    rw [hg, hrun.reserved, hg]
    show _ = (worstCaseBlocks (s.heap r) : Int) - ((s.heap r).blockTable.append b).numBlocks
    rw [BlockTable.append_numBlocks]
    push_cast
    omega
  · rfl
  · rfl
  · rfl
  · exact (List.append_nil _).symm
  · exact Nat.zero_le _
  · exact fun hne => absurd rfl hne
  · intro _
    refine ⟨⟨post, hR⟩, ?_, ?_⟩
    · show Grown (s.heap r) (Function.update s.heap r _ r)
      rw [Function.update_self]
      exact ⟨[b], _, rfl⟩
    · show (Function.update s.heap r _ r).blockTable.numBlocks = _
      rw [Function.update_self, BlockTable.append_numBlocks]
  · exact fun hf => absurd hf (by decide)
  · exact fun v hv => absurd hv List.not_mem_nil
  · intro x hx _
    exact Function.update_of_ne hx _ _

/-- with a block to promise, the watermark row is served from the shared pool -/
theorem ensure_pool (h : Inv T o s) (hp : o.admissionPolicy = .kWatermark)
    (hc : s.allocator.canReserve 1 = true) {pre post : List Nat} {r : Nat}
    (hR : s.running = pre ++ r :: post)
    (hfull : (s.heap r).blockTable.tokenCapacity + 1 = (s.heap r).seqLen) :
    ∃ A1 b A, s.allocator.reserve 1 = some A1 ∧ A1.allocReserved = some (b, A) ∧
      Inv T o { s with
        heap := Function.update s.heap r { s.heap r with
          blockTable := (s.heap r).blockTable.append b }
        allocator := A } := by
  have e : s.admitted = pre ++ r :: (post ++ s.prefillQueue) := by
    unfold admitted; rw [hR]; simp
  have hrun := h.running r (by rw [hR]; simp)
  have hg : ∀ q : Request, growthLeft o q = 0 := by
    intro q; unfold growthLeft; rw [hp]
  have h0 : (s.heap r).reservedBlocks = 0 := by rw [hrun.reserved, hg]
  have hc' : (1 : Int) ≤ s.allocator.freeBlocks - s.allocator.reserved := of_decide_eq_true hc
  obtain ⟨hr0, hr1⟩ := h.reservedHeld_le e
  obtain ⟨h1, hi1⟩ := BlockAllocator.reserve_spec (alloc_split h e) (by decide) hc'
  have hpos : 0 < s.allocator.reserved + 1 := by omega
  obtain ⟨b, rest, A, _, ha, _, hr, ht, hi⟩ := BlockAllocator.allocReserved_spec hi1 hpos
  refine ⟨_, b, A, h1, ha, ?_⟩
  refine grow_running (n := (s.heap r).reservedBlocks) h hR hfull ht ?_ ?_ (by rw [h0, hg])
  · rw [BlockTable.append_blocks, ← Multiset.coe_add, add_assoc, Multiset.coe_singleton,
      add_left_comm, Multiset.singleton_add]
    exact hi
  · rw [hr]
    show s.allocator.reserved + 1 - 1 = _
    omega

/-- with a block to promise nothing is aborted -/
theorem ensured_pool (h : Inv T o s) (hp : o.admissionPolicy = .kWatermark)
    (hc : s.allocator.canReserve 1 = true) {pre post : List Nat} {r : Nat}
    (hR : s.running = pre ++ r :: post)
    (hfull : (s.heap r).blockTable.tokenCapacity + 1 = (s.heap r).seqLen) :
    ∃ A1 b A, s.allocator.reserve 1 = some A1 ∧ A1.allocReserved = some (b, A) ∧
      Ensured T o s pre r true [] { s with
        heap := Function.update s.heap r { s.heap r with
          blockTable := (s.heap r).blockTable.append b }
        allocator := A } := by
  obtain ⟨A1, b, A, hA1, hA, hI⟩ := ensure_pool h hp hc hR hfull
  refine ⟨A1, b, A, hA1, hA, ⟨hI, rfl, rfl, rfl, (List.append_nil _).symm, Nat.zero_le _,
    fun hne => absurd rfl hne, fun _ => ⟨⟨post, hR⟩, ?_, ?_⟩, fun hf => absurd hf (by decide),
    fun v hv => absurd hv List.not_mem_nil, fun x hx _ => Function.update_of_ne hx _ _⟩⟩
  · show Grown (s.heap r) (Function.update s.heap r _ r)
    rw [Function.update_self]
    exact ⟨[b], _, rfl⟩
  · show (Function.update s.heap r _ r).blockTable.numBlocks = _
    rw [Function.update_self, BlockTable.append_numBlocks]

/-- the row is the youngest running sequence: on an empty pool it is its own victim -/
theorem ensured_self (h : Inv T o s) (hp : o.admissionPolicy = .kWatermark)
    (hc : s.allocator.canReserve 1 = false) {pre : List Nat} {r : Nat}
    (hR : s.running = pre ++ [r]) (plan : StepPlan) :
    ∃ s', s.abortUntilFree r plan = some
        { plan := { plan with aborted := plan.aborted ++ [r] }, sched := s', victimIsSelf := true } ∧
      Ensured T o s pre r false [r] s' := by
  rcases abortUntilFree_spec h hR r plan with ⟨hc', _⟩ | ⟨_, s', hs, hi, h1, h2, h3, h4, h5, h6⟩
  · rw [hc] at hc'; cases hc'
  · rw [beq_self_eq_true] at hs
    refine ⟨s', hs, ⟨hi, h3, h2, h4, by rw [h1]; exact hR, le_refl _, fun _ => ⟨hp, hc⟩,
      fun hf => absurd hf (by decide), fun _ => ⟨h1, rfl⟩, ?_, ?_⟩⟩
    · intro v hv
      rw [List.mem_singleton.mp hv, h5, Function.update_self]
    · intro x hx _
      rw [h5, Function.update_of_ne hx]

/-- a younger sequence is evicted, and then the row gets its block -/
theorem ensured_other (h : Inv T o s) (hp : o.admissionPolicy = .kWatermark)
    (hc : s.allocator.canReserve 1 = false) {pre p : List Nat} {r v : Nat}
    (hR : s.running = pre ++ r :: (p ++ [v]))
    (hfull : (s.heap r).blockTable.tokenCapacity + 1 = (s.heap r).seqLen) (plan : StepPlan) :
    ∃ s1 A1 b A, s.abortUntilFree r plan = some
        { plan := { plan with aborted := plan.aborted ++ [v] }, sched := s1 } ∧
      s1.allocator.reserve 1 = some A1 ∧ A1.allocReserved = some (b, A) ∧
      Ensured T o s pre r true [v] { s1 with
        heap := Function.update s1.heap r { s1.heap r with
          blockTable := (s1.heap r).blockTable.append b }
        allocator := A } := by
  have hR' : s.running = (pre ++ r :: p) ++ [v] := by rw [hR]; simp
  have hvr : v ≠ r := by
    have hn := (List.nodup_append.mp h.nodup).1
    rw [hR', List.nodup_append] at hn
    exact fun e => hn.2.2 r (by simp) v (by simp) e.symm
  rcases abortUntilFree_spec h hR' r plan with ⟨hc', _⟩ | ⟨_, s1, hs, hi, h1, h2, h3, h4, h5, h6⟩
  · rw [hc] at hc'; cases hc'
  · rw [beq_eq_false_iff_ne.mpr hvr] at hs
    have hr1 : s1.heap r = s.heap r := by rw [h5, Function.update_of_ne hvr.symm]
    obtain ⟨A1, b, A, hA1, hA, he⟩ := ensured_pool hi hp h6 h1 (by rw [hr1]; exact hfull)
    refine ⟨s1, A1, b, A, hs, hA1, hA, ⟨he.inv, h3, h2, h4, ?_, le_refl _, fun _ => ⟨hp, hc⟩, ?_,
      fun hf => absurd hf (by decide), ?_, ?_⟩⟩
    · show s.running = s1.running ++ [v]
      rw [h1]; exact hR'
    · intro ht
      obtain ⟨hpost, hg, hn⟩ := he.grown ht
      exact ⟨hpost, by rw [← hr1]; exact hg, by rw [← hr1]; exact hn⟩
    · intro w hw
      rw [List.mem_singleton.mp hw, he.frame v hvr List.not_mem_nil, h5, Function.update_self]
    · intro x hx hxv
      rw [he.frame x hx List.not_mem_nil, h5,
        Function.update_of_ne fun e => hxv (List.mem_singleton.mpr e)]

/-- **One row at a block boundary**: its block is there, or it was the victim itself. -/
theorem ensureDecodeBlockCapacity_spec (h : Inv T o s) {pre post : List Nat} {r : Nat}
    (hR : s.running = pre ++ r :: post)
    (hfull : (s.heap r).blockTable.tokenCapacity + 1 = (s.heap r).seqLen) (plan : StepPlan) :
    ∃ covered ab s', s.ensureDecodeBlockCapacity r plan
        = some (covered, { plan with aborted := plan.aborted ++ ab }, s') ∧
      Ensured T o s pre r covered ab s' := by
  unfold ensureDecodeBlockCapacity
  rw [h.options]
  cases hp : o.admissionPolicy with
  | kReserveFull =>
    obtain ⟨s', hs, he⟩ := ensure_full h hp hR hfull
    refine ⟨true, [], s', ?_, he⟩
    simp only [hs, Option.bind_eq_bind, Option.bind_some, Option.pure_def, List.append_nil]
  | kWatermark =>
    cases hc : s.allocator.canReserve 1 with
    | true =>
      obtain ⟨A1, b, A, hA1, hA, he⟩ := ensured_pool h hp hc hR hfull
      have hs : s.abortUntilFree r plan = some { plan, sched := s } := by
        simp [abortUntilFree, loop, hc]
      refine ⟨true, [], _, ?_, he⟩
      simp only [hs, hA1, hA, Option.bind_eq_bind, Option.bind_some, Option.pure_def,
        Bool.false_eq_true, if_false, List.append_nil]
    | false =>
      rcases List.eq_nil_or_concat post with rfl | ⟨p, v, rfl⟩
      · obtain ⟨s', hs, he⟩ := ensured_self h hp hc hR plan
        refine ⟨false, [r], s', ?_, he⟩
        simp only [hs, Option.bind_eq_bind, Option.bind_some, Option.pure_def, if_true]
      · rw [List.concat_eq_append] at hR
        obtain ⟨s1, A1, b, A, hs, hA1, hA, he⟩ := ensured_other h hp hc hR hfull plan
        refine ⟨true, [v], _, ?_, he⟩
        simp only [hs, hA1, hA, Option.bind_eq_bind, Option.bind_some, Option.pure_def,
          Bool.false_eq_true, if_false]

end
end Scheduler
end Redline
