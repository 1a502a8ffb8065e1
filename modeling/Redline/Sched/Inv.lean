import Mathlib.Algebra.Order.Group.Multiset
import Mathlib.Data.Nat.Cast.Basic
import Redline.Core.Scheduler

/-!
# The scheduler invariant

`Inv T o s`: the scheduler `s` runs with `T` blocks and the options `o`, and

* the allocator is sound for the blocks the admitted requests hold, its promises are the sum of
  theirs, and the free slots and the held slots are the batch slots;
* the requests waiting are the last ones that arrived, and the admitted ones stand in arrival
  order, the running ones before the prefilling ones;
* every request is in the phase its queue says (`WaitingReq`, `PrefillReq`, `RunningReq`), or is
  finished and owns nothing (`FinishedReq`).

A step exchanges the record of one admitted request (`Inv.exchange`), takes one out
(`Inv.remove`), admits the waiting head (`Inv.admitted_head`) or queues a new one (`Inv.queued`).
Everything the scheduler does is made of these four.
-/

namespace Redline
open Prog Ledger

/-! ## requests, phase by phase -/

/-- the options the scheduler can run with -/
structure Tuned (o : SchedulerOptions) : Prop where
  chunk_pos : 1 ≤ o.prefillChunkTokens
  fraction_nonneg : 0 ≤ o.watermarkFreeFraction

/-- what an idle pool of `usable` blocks must be able to hold -/
def FitsPool (usable : Nat) (o : SchedulerOptions) (q : Request) : Prop :=
  match o.admissionPolicy with
  | .kReserveFull => Scheduler.worstCaseBlocks q ≤ usable
  | .kWatermark =>
    o.watermarkFreeFraction * usable ≤ (((usable : Int) - Scheduler.promptBlocks q : Int) : ℚ)

/-- a request that `ValidateRequest` accepts -/
structure Valid (usable : Nat) (o : SchedulerOptions) (q : Request) : Prop where
  prompt_pos : 0 < q.numPromptTokens
  maxNew_pos : 0 < q.maxNewTokens
  fits_seq : q.numPromptTokens + q.maxNewTokens ≤ o.maxSeqLen
  fits_pool : FitsPool usable o q

/-- blocks promised at admission -/
def promised (o : SchedulerOptions) (q : Request) : Nat :=
  match o.admissionPolicy with
  | .kReserveFull => Scheduler.worstCaseBlocks q
  | .kWatermark => Scheduler.promptBlocks q

/-- the end of the next prefill chunk -/
def chunkEnd (o : SchedulerOptions) (q : Request) : Nat :=
  min (q.prefillProgress + o.prefillChunkTokens) q.numPromptTokens

structure WaitingReq (q : Request) : Prop where
  state : q.state = .kWaiting
  reason : q.finishReason = .kNone
  outputs : q.outputTokens = []
  slot : q.slot = -1
  reserved : q.reservedBlocks = 0
  progress : q.prefillProgress = 0
  blocks : q.blockTable.blocks = []

structure PrefillReq (o : SchedulerOptions) (q : Request) : Prop where
  state : q.state = .kPrefill
  reason : q.finishReason = .kNone
  outputs : q.outputTokens = []
  slot : 0 ≤ q.slot
  progress : q.prefillProgress < q.numPromptTokens
  covers : blocksForTokens q.prefillProgress ≤ q.blockTable.numBlocks
  within : q.blockTable.numBlocks ≤ blocksForTokens (chunkEnd o q)
  reserved : q.reservedBlocks = (promised o q : Int) - q.blockTable.numBlocks

/-- what a running request still has promised: growth is covered by `reserve_full` only -/
def growthLeft (o : SchedulerOptions) (q : Request) : Int :=
  match o.admissionPolicy with
  | .kReserveFull => Scheduler.worstCaseBlocks q - q.blockTable.numBlocks
  | .kWatermark => 0

structure RunningReq (o : SchedulerOptions) (q : Request) : Prop where
  state : q.state = .kRunning
  reason : q.finishReason = .kNone
  slot : 0 ≤ q.slot
  progress : q.prefillProgress = q.numPromptTokens
  outputs_pos : 0 < q.numOutputTokens
  outputs_lt : q.numOutputTokens < q.maxNewTokens
  covers : blocksForTokens (q.seqLen - 1) ≤ q.blockTable.numBlocks
  within : q.blockTable.numBlocks ≤ blocksForTokens q.seqLen
  reserved : q.reservedBlocks = growthLeft o q

structure FinishedReq (q : Request) : Prop where
  state : q.state = .kFinished
  reason : q.finishReason ≠ .kNone
  slot : q.slot = -1
  reserved : q.reservedBlocks = 0
  blocks : q.blockTable.blocks = []

section
variable {T : Nat} {o : SchedulerOptions} {q : Request}

theorem promptBlocks_le_promised : Scheduler.promptBlocks q ≤ promised o q := by
  unfold promised
  cases o.admissionPolicy with
  | kReserveFull => exact blocksForTokens_mono (Nat.le_add_right _ _)
  | kWatermark => exact le_refl _

theorem chunkEnd_le_prompt : chunkEnd o q ≤ q.numPromptTokens := Nat.min_le_right _ _

theorem lt_chunkEnd (ht : Tuned o) (h : PrefillReq o q) : q.prefillProgress < chunkEnd o q := by
  have hp := h.progress
  have hc := ht.chunk_pos
  unfold chunkEnd
  omega

theorem PrefillReq.reserved_nonneg (h : PrefillReq o q) : 0 ≤ q.reservedBlocks := by
  have h1 : q.blockTable.numBlocks ≤ Scheduler.promptBlocks q :=
    h.within.trans (blocksForTokens_mono chunkEnd_le_prompt)
  have h2 := promptBlocks_le_promised (o := o) (q := q)
  rw [h.reserved]
  omega

theorem RunningReq.seqLen_pos (h : RunningReq o q) : 0 < q.seqLen := by
  have := h.outputs_pos
  unfold Request.seqLen
  omega

/-- a running request stays strictly below its worst case -/
theorem RunningReq.blocks_le (h : RunningReq o q) :
    q.blockTable.numBlocks ≤ Scheduler.worstCaseBlocks q := by
  refine h.within.trans (blocksForTokens_mono ?_)
  have := h.outputs_lt
  unfold Request.seqLen
  omega

theorem RunningReq.reserved_nonneg (h : RunningReq o q) : 0 ≤ q.reservedBlocks := by
  have hb := h.blocks_le
  rw [h.reserved]
  unfold growthLeft
  cases o.admissionPolicy with
  | kReserveFull =>
    show (0 : Int) ≤ (Scheduler.worstCaseBlocks q : Int) - q.blockTable.numBlocks
    omega
  | kWatermark => exact le_refl _

/-- a running request owns a block -/
theorem RunningReq.blocks_pos (h : RunningReq o q) (hv : Valid T o q) :
    0 < q.blockTable.numBlocks := by
  refine Nat.lt_of_lt_of_le (blocksForTokens_pos ?_) h.covers
  have := h.outputs_pos
  have := hv.prompt_pos
  unfold Request.seqLen
  omega

end

/-! ## the queues -/

namespace Scheduler

/-- the admitted and unfinished requests, in admission order -/
def admitted (s : Scheduler) : List Nat := s.running ++ s.prefillQueue

/-- the blocks the admitted requests own together -/
def blocksHeld (s : Scheduler) (l : List Nat) : Multiset Int :=
  held (fun q => (q.blockTable.blocks : Multiset Int)) s.heap l

def slotsHeld (s : Scheduler) (l : List Nat) : Multiset Int :=
  held (fun q => ({q.slot} : Multiset Int)) s.heap l

def reservedHeld (s : Scheduler) (l : List Nat) : Int := held (·.reservedBlocks) s.heap l

/-- blocks neither owned nor promised: what admission and watermark growth draw on -/
def uncommitted (s : Scheduler) : Int := s.allocator.freeBlocks - s.allocator.reserved

/-- the blocks a request owns or was promised -/
def commitment (q : Request) : Int := q.blockTable.numBlocks + q.reservedBlocks

theorem validateRequest_ok (s : Scheduler) (q : Request) :
    s.validateRequest q = .ok () ↔ Valid s.allocator.usableBlocks s.options q := by
  unfold validateRequest
  constructor
  · intro h
    split at h
    · cases h
    · split at h
      · cases h
      · split at h
        · cases h
        · refine ⟨by omega, by omega, by omega, ?_⟩
          unfold FitsPool
          cases hpol : s.options.admissionPolicy with
          | kReserveFull =>
            simp only [hpol] at h
            by_contra hlt
            rw [if_pos (Nat.not_le.mp hlt)] at h
            cases h
          | kWatermark =>
            simp only [hpol] at h
            by_contra hlt
            rw [if_pos (show _ < s.floor from not_le.mp hlt)] at h
            cases h
  · intro h
    have h1 := h.prompt_pos
    have h2 := h.maxNew_pos
    have h3 := h.fits_seq
    have h4 := h.fits_pool
    rw [if_neg (by omega), if_neg (by omega), if_neg (by omega)]
    unfold FitsPool at h4
    cases hpol : s.options.admissionPolicy with
    | kReserveFull =>
      simp only [hpol] at h4
      exact if_neg (Nat.not_lt.mpr h4)
    | kWatermark =>
      simp only [hpol] at h4
      exact if_neg (show ¬ _ < s.floor from not_lt.mpr h4)

end Scheduler

/-- **The scheduler invariant.**  See the file header. -/
structure Inv (T : Nat) (o : SchedulerOptions) (s : Scheduler) : Prop where
  tuned : Tuned o
  options : s.options = o
  total : s.allocator.totalBlocks = T
  alloc : s.allocator.Inv (s.blocksHeld s.admitted)
  reserved : s.allocator.reserved = s.reservedHeld s.admitted
  slots : (s.freeSlots : Multiset Int) + s.slotsHeld s.admitted = batchSlots o.maxBatch
  arrival : ∃ k ≤ s.nextPtr, s.waiting = List.range' k (s.nextPtr - k) ∧ ∀ r ∈ s.admitted, r < k
  order : s.admitted.Pairwise (· < ·)
  valid : ∀ r < s.nextPtr, Valid s.allocator.usableBlocks o (s.heap r)
  waiting : ∀ r ∈ s.waiting, WaitingReq (s.heap r)
  prefill : ∀ r ∈ s.prefillQueue, PrefillReq o (s.heap r)
  running : ∀ r ∈ s.running, RunningReq o (s.heap r)
  finished : ∀ r < s.nextPtr, r ∉ s.waiting → r ∉ s.admitted → FinishedReq (s.heap r)

theorem Inv.init {T : Nat} {o : SchedulerOptions} (ht : Tuned o) : Inv T o (Scheduler.make T o) where
  tuned := ht
  options := rfl
  total := rfl
  alloc := BlockAllocator.make_inv T
  reserved := rfl
  slots := add_zero _
  arrival := ⟨0, le_refl _, rfl, by simp [Scheduler.admitted, Scheduler.make]⟩
  order := List.Pairwise.nil
  valid := fun r hr => absurd hr (Nat.not_lt_zero _)
  waiting := by simp [Scheduler.make]
  prefill := by simp [Scheduler.make]
  running := by simp [Scheduler.make]
  finished := fun r hr => absurd hr (Nat.not_lt_zero _)

section
variable {T : Nat} {o : SchedulerOptions} {s : Scheduler}

theorem Inv.nodup (h : Inv T o s) : s.admitted.Nodup := h.order.imp fun hlt => Nat.ne_of_lt hlt

theorem Inv.lt_nextPtr (h : Inv T o s) {r : Nat} (hr : r ∈ s.waiting ∨ r ∈ s.admitted) :
    r < s.nextPtr := by
  obtain ⟨k, hk, hw, ha⟩ := h.arrival
  rcases hr with hr | hr
  · rw [hw, List.mem_range'_1] at hr
    omega
  · exact (ha r hr).trans_le hk

/-- what still waits arrived after everything that was admitted -/
theorem Inv.admitted_lt_waiting (h : Inv T o s) {r x : Nat} (hr : r ∈ s.admitted)
    (hx : x ∈ s.waiting) : r < x := by
  obtain ⟨k, _, hw, ha⟩ := h.arrival
  rw [hw, List.mem_range'_1] at hx
  exact (ha r hr).trans_le hx.1

/-- slots are handed out to at most `max_batch` requests -/
theorem Inv.count (h : Inv T o s) : s.freeSlots.length + s.admitted.length = o.maxBatch := by
  have hc := congrArg Multiset.card h.slots
  unfold Scheduler.slotsHeld at hc
  rw [held_single, Multiset.card_add, Multiset.coe_card, Multiset.coe_card, Multiset.coe_card,
    List.length_map] at hc
  simpa [batchSlots] using hc

theorem Inv.reserved_nonneg (h : Inv T o s) {r : Nat} (hr : r ∈ s.admitted) :
    0 ≤ (s.heap r).reservedBlocks := by
  rcases List.mem_append.mp hr with hr | hr
  · exact (h.running r hr).reserved_nonneg
  · exact (h.prefill r hr).reserved_nonneg

/-- the promises of some of the admitted requests are at most all promises -/
theorem Inv.reservedHeld_le (h : Inv T o s) {a b : List Nat} {r : Nat}
    (e : s.admitted = a ++ r :: b) :
    0 ≤ s.reservedHeld (a ++ b) ∧
      s.allocator.reserved = (s.heap r).reservedBlocks + s.reservedHeld (a ++ b) := by
  constructor
  · apply held_nonneg
    intro i hi
    apply h.reserved_nonneg
    rw [e, List.mem_append, List.mem_cons]
    rcases List.mem_append.mp hi with hi | hi
    · exact Or.inl hi
    · exact Or.inr (Or.inr hi)
  · rw [h.reserved, e]
    exact held_mid _ _ _ _ _

/-- the pool is what is uncommitted and the commitments to the admitted requests -/
theorem Inv.uncommitted_add (h : Inv T o s) :
    s.uncommitted + held Scheduler.commitment s.heap s.admitted = s.allocator.usableBlocks := by
  have hc := h.alloc.card
  have hb : ((s.blocksHeld s.admitted).card : Int)
      = held (fun q => (q.blockTable.numBlocks : Int)) s.heap s.admitted := by
    have h1 := held_hom Multiset.cardHom (fun q : Request => (q.blockTable.blocks : Multiset Int))
      s.heap s.admitted
    have h2 := held_hom (Nat.castAddMonoidHom Int) (fun q : Request => q.blockTable.numBlocks)
      s.heap s.admitted
    exact (congrArg Nat.cast h1).trans h2
  have hr := h.reserved
  unfold Scheduler.reservedHeld at hr
  have he := held_add (fun q : Request => (q.blockTable.numBlocks : Int)) (·.reservedBlocks) s.heap
    s.admitted
  unfold Scheduler.commitment Scheduler.uncommitted
  omega

/-- the split of the admitted requests at one of them -/
theorem Inv.split_out (h : Inv T o s) {a b : List Nat} {r : Nat} (e : s.admitted = a ++ r :: b) :
    r ∉ a ∧ r ∉ b := by
  have hn := h.nodup
  rw [e, List.nodup_append, List.nodup_cons] at hn
  exact ⟨fun hm => hn.2.2 r hm r List.mem_cons_self rfl, hn.2.1.1⟩

/-! ## the four changes of a scheduler state -/

/-- the record of the admitted request `r` becomes `q`, which may have moved on from the prefill
queue to the running list -/
theorem Inv.exchange (h : Inv T o s) {a b R P : List Nat} {r : Nat} {q : Request}
    {A : BlockAllocator} (e : s.admitted = a ++ r :: b) (hRP : R ++ P = s.admitted)
    (hR : ∀ x ∈ R, x ≠ r → x ∈ s.running) (hP : ∀ x ∈ P, x ≠ r → x ∈ s.prefillQueue)
    (hqR : r ∈ R → RunningReq o q) (hqP : r ∈ P → PrefillReq o q)
    (hslot : q.slot = (s.heap r).slot) (hv : Valid s.allocator.usableBlocks o q)
    (htot : A.totalBlocks = s.allocator.totalBlocks)
    (hal : A.Inv ((q.blockTable.blocks : Multiset Int) + s.blocksHeld (a ++ b)))
    (hres : A.reserved = q.reservedBlocks + s.reservedHeld (a ++ b)) :
    Inv T o { s with
      heap := Function.update s.heap r q
      allocator := A
      running := R
      prefillQueue := P } := by
  obtain ⟨ha, hb⟩ := h.split_out e
  have hadm : ({ s with
      heap := Function.update s.heap r q
      allocator := A
      running := R
      prefillQueue := P }
      : Scheduler).admitted = a ++ r :: b := hRP.trans e
  have hmem : r ∈ s.admitted := by rw [e]; simp
  have husable : A.usableBlocks = s.allocator.usableBlocks := by
    unfold BlockAllocator.usableBlocks; rw [htot]
  refine ⟨h.tuned, h.options, htot.trans h.total, ?_, ?_, ?_, ?_, ?_, ?_, ?_, ?_, ?_, ?_⟩
  · rw [hadm]
    show A.Inv (held _ (Function.update s.heap r q) (a ++ r :: b))
    rw [held_update_mid _ _ _ ha hb]
    exact hal
  · rw [hadm]
    show A.reserved = held _ (Function.update s.heap r q) (a ++ r :: b)
    rw [held_update_mid _ _ _ ha hb]
    exact hres
  · rw [hadm]
    show (s.freeSlots : Multiset Int) + held _ (Function.update s.heap r q) (a ++ r :: b) = _
    have hs := h.slots
    unfold Scheduler.slotsHeld at hs
    rw [e, held_mid] at hs
    rw [held_update_mid _ _ _ ha hb, hslot]
    exact hs
  · rw [hadm, ← e]
    exact h.arrival
  · rw [hadm, ← e]
    exact h.order
  · intro x hx
    show Valid A.usableBlocks o (Function.update s.heap r q x)
    rw [husable]
    by_cases hxr : x = r
    · rw [hxr, Function.update_self]; exact hv
    · rw [Function.update_of_ne hxr]; exact h.valid x hx
  · intro x hx
    have hxr : x ≠ r := (h.admitted_lt_waiting hmem hx).ne'
    show WaitingReq (Function.update s.heap r q x)
    rw [Function.update_of_ne hxr]
    exact h.waiting x hx
  · intro x hx
    show PrefillReq o (Function.update s.heap r q x)
    by_cases hxr : x = r
    · rw [hxr, Function.update_self]; exact hqP (hxr ▸ hx)
    · rw [Function.update_of_ne hxr]; exact h.prefill x (hP x hx hxr)
  · intro x hx
    show RunningReq o (Function.update s.heap r q x)
    by_cases hxr : x = r
    · rw [hxr, Function.update_self]; exact hqR (hxr ▸ hx)
    · rw [Function.update_of_ne hxr]; exact h.running x (hR x hx hxr)
  · intro x hx hw hxa
    rw [hadm, ← e] at hxa
    have hxr : x ≠ r := fun ex => hxa (ex ▸ hmem)
    show FinishedReq (Function.update s.heap r q x)
    rw [Function.update_of_ne hxr]
    exact h.finished x hx hw hxa

/-- the admitted request `r` finishes: it leaves its queue and gives everything back -/
theorem Inv.remove (h : Inv T o s) {a b R P : List Nat} {r : Nat} {q : Request}
    {A : BlockAllocator} (e : s.admitted = a ++ r :: b) (hRP : R ++ P = a ++ b)
    (hR : ∀ x ∈ R, x ∈ s.running) (hP : ∀ x ∈ P, x ∈ s.prefillQueue) (hq : FinishedReq q)
    (hv : Valid s.allocator.usableBlocks o q)
    (htot : A.totalBlocks = s.allocator.totalBlocks)
    (hal : A.Inv (s.blocksHeld (a ++ b))) (hres : A.reserved = s.reservedHeld (a ++ b)) :
    Inv T o { s with
      heap := Function.update s.heap r q
      allocator := A
      running := R
      prefillQueue := P
      freeSlots := (s.heap r).slot :: s.freeSlots } := by
  obtain ⟨ha, hb⟩ := h.split_out e
  have hout : r ∉ a ++ b := by rw [List.mem_append]; exact fun hm => hm.elim ha hb
  have hmem : r ∈ s.admitted := by rw [e]; simp
  have hsub : (a ++ b).Sublist s.admitted := by
    rw [e]; exact (List.Sublist.refl a).append (List.sublist_cons_self r b)
  have husable : A.usableBlocks = s.allocator.usableBlocks := by
    unfold BlockAllocator.usableBlocks; rw [htot]
  have hne : ∀ x ∈ a ++ b, x ≠ r := fun x hx ex => hout (ex ▸ hx)
  refine ⟨h.tuned, h.options, htot.trans h.total, ?_, ?_, ?_, ?_, ?_, ?_, ?_, ?_, ?_, ?_⟩
  · show A.Inv (held _ (Function.update s.heap r q) (R ++ P))
    rw [hRP, held_update_out _ _ _ hout]
    exact hal
  · show A.reserved = held _ (Function.update s.heap r q) (R ++ P)
    rw [hRP, held_update_out _ _ _ hout]
    exact hres
  · show (((s.heap r).slot :: s.freeSlots : List Int) : Multiset Int)
      + held _ (Function.update s.heap r q) (R ++ P) = _
    have hs := h.slots
    unfold Scheduler.slotsHeld at hs
    rw [e, held_mid] at hs
    rw [hRP, held_update_out _ _ _ hout, ← hs, ← Multiset.cons_coe, Multiset.cons_add,
      Multiset.singleton_add, Multiset.add_cons]
  · obtain ⟨k, hk, hw, hlt⟩ := h.arrival
    refine ⟨k, hk, hw, fun x hx => hlt x (hsub.subset ?_)⟩
    show x ∈ a ++ b
    rw [← hRP]; exact hx
  · show (R ++ P).Pairwise (· < ·)
    rw [hRP]
    exact h.order.sublist hsub
  · intro x hx
    show Valid A.usableBlocks o (Function.update s.heap r q x)
    rw [husable]
    by_cases hxr : x = r
    · rw [hxr, Function.update_self]; exact hv
    · rw [Function.update_of_ne hxr]; exact h.valid x hx
  · intro x hx
    have hxr : x ≠ r := (h.admitted_lt_waiting hmem hx).ne'
    show WaitingReq (Function.update s.heap r q x)
    rw [Function.update_of_ne hxr]
    exact h.waiting x hx
  · intro x hx
    have hxr : x ≠ r := hne x (by rw [← hRP]; exact List.mem_append_right _ hx)
    show PrefillReq o (Function.update s.heap r q x)
    rw [Function.update_of_ne hxr]
    exact h.prefill x (hP x hx)
  · intro x hx
    have hxr : x ≠ r := hne x (by rw [← hRP]; exact List.mem_append_left _ hx)
    show RunningReq o (Function.update s.heap r q x)
    rw [Function.update_of_ne hxr]
    exact h.running x (hR x hx)
  · intro x hx hw hxa
    show FinishedReq (Function.update s.heap r q x)
    by_cases hxr : x = r
    · rw [hxr, Function.update_self]; exact hq
    · rw [Function.update_of_ne hxr]
      apply h.finished x hx hw
      intro hm
      apply hxa
      show x ∈ R ++ P
      rw [hRP]
      rw [e, List.mem_append, List.mem_cons] at hm
      rw [List.mem_append]
      exact hm.imp_right fun h1 => h1.resolve_left hxr

/-- the waiting head is admitted -/
theorem Inv.admitted_head (h : Inv T o s) {r : Nat} {w : List Nat} {slot : Int} {fs : List Int}
    {q : Request} {A : BlockAllocator} (hw : s.waiting = r :: w) (hf : s.freeSlots = slot :: fs)
    (hq : PrefillReq o q) (hslot : q.slot = slot) (hblocks : q.blockTable.blocks = [])
    (hv : Valid s.allocator.usableBlocks o q)
    (htot : A.totalBlocks = s.allocator.totalBlocks)
    (hal : A.Inv (s.blocksHeld s.admitted))
    (hres : A.reserved = s.allocator.reserved + q.reservedBlocks) :
    Inv T o { s with
      heap := Function.update s.heap r q
      allocator := A
      waiting := w
      freeSlots := fs
      prefillQueue := s.prefillQueue ++ [r] } := by
  obtain ⟨k, hk, hk', hlt⟩ := h.arrival
  have hlen : s.waiting.length = s.nextPtr - k := by rw [hk']; simp
  have hkn : s.nextPtr - k = (s.nextPtr - (k + 1)) + 1 := by
    rw [hw, List.length_cons] at hlen
    omega
  rw [hkn, List.range'_succ, hw, List.cons.injEq] at hk'
  obtain ⟨rfl, hk'⟩ := hk'
  have hout : r ∉ s.admitted := fun hm => Nat.lt_irrefl _ (hlt r hm)
  have hadm : ({ s with
      heap := Function.update s.heap r q
      allocator := A
      waiting := w
      freeSlots := fs
      prefillQueue := s.prefillQueue ++ [r] } : Scheduler).admitted = s.admitted ++ [r] := by
    show s.running ++ (s.prefillQueue ++ [r]) = s.running ++ s.prefillQueue ++ [r]
    rw [List.append_assoc]
  have husable : A.usableBlocks = s.allocator.usableBlocks := by
    unfold BlockAllocator.usableBlocks; rw [htot]
  refine ⟨h.tuned, h.options, htot.trans h.total, ?_, ?_, ?_, ?_, ?_, ?_, ?_, ?_, ?_, ?_⟩
  · rw [hadm]
    show A.Inv (held _ (Function.update s.heap r q) (s.admitted ++ [r]))
    rw [held_append, held_update_out _ _ _ hout, held_cons, Function.update_self, hblocks,
      held_nil, add_zero, Multiset.coe_nil, add_zero]
    exact hal
  · rw [hadm]
    show A.reserved = held _ (Function.update s.heap r q) (s.admitted ++ [r])
    rw [held_append, held_update_out _ _ _ hout, held_cons, Function.update_self, held_nil,
      add_zero, hres, h.reserved]
    rfl
  · rw [hadm]
    show (fs : Multiset Int) + held _ (Function.update s.heap r q) (s.admitted ++ [r]) = _
    have hs := h.slots
    rw [hf, ← Multiset.cons_coe, Multiset.cons_add] at hs
    rw [held_append, held_update_out _ _ _ hout, held_cons, Function.update_self, held_nil,
      add_zero, hslot, ← hs, add_comm (held _ _ _), Multiset.singleton_add, Multiset.add_cons]
    rfl
  · refine ⟨r + 1, by show r + 1 ≤ s.nextPtr; omega, hk', ?_⟩
    intro x hx
    rw [hadm, List.mem_append, List.mem_singleton] at hx
    rcases hx with hx | hx
    · exact (hlt x hx).trans (Nat.lt_succ_self _)
    · rw [hx]; exact Nat.lt_succ_self _
  · rw [hadm, List.pairwise_append]
    refine ⟨h.order, by simp, fun x hx y hy => ?_⟩
    rw [List.mem_singleton.mp hy]
    exact hlt x hx
  · intro x hx
    show Valid A.usableBlocks o (Function.update s.heap r q x)
    rw [husable]
    by_cases hxr : x = r
    · rw [hxr, Function.update_self]; exact hv
    · rw [Function.update_of_ne hxr]; exact h.valid x hx
  · intro x hx
    have hxr : x ≠ r := by
      have hx' : x ∈ w := hx
      rw [hk', List.mem_range'_1] at hx'
      omega
    show WaitingReq (Function.update s.heap r q x)
    rw [Function.update_of_ne hxr]
    exact h.waiting x (by rw [hw]; exact List.mem_cons_of_mem _ hx)
  · intro x hx
    show PrefillReq o (Function.update s.heap r q x)
    by_cases hxr : x = r
    · rw [hxr, Function.update_self]; exact hq
    · rw [Function.update_of_ne hxr]
      rcases List.mem_append.mp hx with hx | hx
      · exact h.prefill x hx
      · exact absurd (List.mem_singleton.mp hx) hxr
  · intro x hx
    have hxr : x ≠ r := fun ex => hout (List.mem_append_left _ (ex ▸ hx))
    show RunningReq o (Function.update s.heap r q x)
    rw [Function.update_of_ne hxr]
    exact h.running x hx
  · intro x hx hxw hxa
    rw [hadm, List.mem_append, List.mem_singleton, not_or] at hxa
    show FinishedReq (Function.update s.heap r q x)
    rw [Function.update_of_ne hxa.2]
    refine h.finished x hx (fun hm => ?_) hxa.1
    rw [hw, List.mem_cons] at hm
    exact hm.elim hxa.2 hxw

/-- a validated request is queued -/
theorem Inv.queued (h : Inv T o s) {q : Request} (hq : WaitingReq q)
    (hv : Valid s.allocator.usableBlocks o q) :
    Inv T o { s with
      heap := Function.update s.heap s.nextPtr q
      waiting := s.waiting ++ [s.nextPtr]
      nextPtr := s.nextPtr + 1 } := by
  have hout : s.nextPtr ∉ s.admitted := fun hm => Nat.lt_irrefl _ (h.lt_nextPtr (Or.inr hm))
  obtain ⟨k, hk, hw, hlt⟩ := h.arrival
  refine ⟨h.tuned, h.options, h.total, ?_, ?_, ?_, ?_, h.order, ?_, ?_, ?_, ?_, ?_⟩
  · show s.allocator.Inv (held _ (Function.update s.heap s.nextPtr q) s.admitted)
    rw [held_update_out _ _ _ hout]
    exact h.alloc
  · show s.allocator.reserved = held _ (Function.update s.heap s.nextPtr q) s.admitted
    rw [held_update_out _ _ _ hout]
    exact h.reserved
  · show (s.freeSlots : Multiset Int) + held _ (Function.update s.heap s.nextPtr q) s.admitted = _
    rw [held_update_out _ _ _ hout]
    exact h.slots
  · refine ⟨k, by show k ≤ s.nextPtr + 1; omega, ?_, hlt⟩
    show s.waiting ++ [s.nextPtr] = List.range' k (s.nextPtr + 1 - k)
    have e : s.nextPtr + 1 - k = (s.nextPtr - k) + 1 := by omega
    rw [hw, e, List.range'_concat]
    congr 2
    omega
  · intro x hx
    have hx' : x < s.nextPtr + 1 := hx
    show Valid s.allocator.usableBlocks o (Function.update s.heap s.nextPtr q x)
    by_cases hxr : x = s.nextPtr
    · rw [hxr, Function.update_self]; exact hv
    · rw [Function.update_of_ne hxr]; exact h.valid x (by omega)
  · intro x hx
    show WaitingReq (Function.update s.heap s.nextPtr q x)
    by_cases hxr : x = s.nextPtr
    · rw [hxr, Function.update_self]; exact hq
    · rw [Function.update_of_ne hxr]
      rcases List.mem_append.mp hx with hx | hx
      · exact h.waiting x hx
      · exact absurd (List.mem_singleton.mp hx) hxr
  · intro x hx
    have hxr : x ≠ s.nextPtr := fun ex => hout (List.mem_append_right _ (ex ▸ hx))
    show PrefillReq o (Function.update s.heap s.nextPtr q x)
    rw [Function.update_of_ne hxr]
    exact h.prefill x hx
  · intro x hx
    have hxr : x ≠ s.nextPtr := fun ex => hout (List.mem_append_left _ (ex ▸ hx))
    show RunningReq o (Function.update s.heap s.nextPtr q x)
    rw [Function.update_of_ne hxr]
    exact h.running x hx
  · intro x hx hxw hxa
    have hx' : x < s.nextPtr + 1 := hx
    have hxw' : x ∉ s.waiting ++ [s.nextPtr] := hxw
    rw [List.mem_append, List.mem_singleton, not_or] at hxw'
    show FinishedReq (Function.update s.heap s.nextPtr q x)
    rw [Function.update_of_ne hxw'.2]
    exact h.finished x (by omega) hxw'.1 hxa

end
end Redline
