import Redline.Sched.Run

/-!
# Conservation

`conservation`: in every state of a legal run the free list and the block tables of the admitted
requests make up the pool, the promises are the sum of the admitted requests' and are covered by
free blocks, the free slots and the held slots make up `[0, max_batch)`, a finished request owns
nothing, and an admitted one owns just the blocks of the positions planned for it so far.

All but the last are read off `Inv`; the last needs the ghost record of planned positions, and
`Lazy` is its invariant: the positions planned for a request are an initial segment `[0, n)`, where
`n` lies between what is already written and what the next plan will write.
-/

namespace Redline
open Prog Ledger

/-! ## planned positions -/

/-- `n` positions are planned for `q`, and it owns their blocks -/
def Covers (planned : Nat → Finset Nat) (r : Nat) (q : Request) (n : Nat) : Prop :=
  planned r = Finset.range n ∧ q.blockTable.numBlocks = blocksForTokens n

/-- what is planned for the requests of a scheduler.  See the file header. -/
structure Lazy (o : SchedulerOptions) (s : Scheduler) (planned : Nat → Finset Nat) : Prop where
  fresh : ∀ r, r ∈ s.waiting ∨ s.nextPtr ≤ r → planned r = ∅
  prefill : ∀ r ∈ s.prefillQueue, ∃ n, Covers planned r (s.heap r) n ∧
    (s.heap r).prefillProgress ≤ n ∧ n ≤ chunkEnd o (s.heap r)
  running : ∀ r ∈ s.running, ∃ n, Covers planned r (s.heap r) n ∧
    (s.heap r).seqLen - 1 ≤ n ∧ n ≤ (s.heap r).seqLen

/-- the positions of the plan that stands are planned -/
def Standing (plan : Option StepPlan) (s : Scheduler) (planned : Nat → Finset Nat) : Prop :=
  ∀ p, plan = some p → ∀ r, p.positions s r ⊆ planned r

theorem range_union_Ico {m n k : Nat} (h1 : m ≤ n) (h2 : n ≤ k) :
    Finset.range n ∪ Finset.Ico m k = Finset.range k := by
  ext x
  rw [Finset.mem_union, Finset.mem_range, Finset.mem_Ico, Finset.mem_range]
  omega

theorem le_of_Ico_subset {m n k : Nat} (h : m < k) (hs : Finset.Ico m k ⊆ Finset.range n) :
    k ≤ n := by
  have hk : k - 1 ∈ Finset.Ico m k := Finset.mem_Ico.mpr ⟨by omega, by omega⟩
  have := Finset.mem_range.mp (hs hk)
  omega

theorem Covers.congr {planned : Nat → Finset Nat} {r n : Nat} {q q' : Request}
    (h : Covers planned r q n) (hb : q'.blockTable = q.blockTable) : Covers planned r q' n :=
  ⟨h.1, by rw [hb]; exact h.2⟩

section
variable {T : Nat} {o : SchedulerOptions} {s s' : Scheduler} {planned : Nat → Finset Nat}

theorem positions_chunk (r x : Nat) :
    (Scheduler.chunkPlan o s r).positions s' x
      = if x = r then Finset.Ico (s.heap r).prefillProgress (chunkEnd o (s.heap r)) else ∅ := by
  unfold StepPlan.positions Scheduler.chunkPlan
  simp only [Option.some.injEq, List.not_mem_nil, if_false]
  by_cases hx : x = r
  · rw [if_pos hx.symm, if_pos hx]
  · rw [if_neg fun e => hx e.symm, if_neg hx]

theorem positions_decode {plan : StepPlan}
    (hp : plan = { decode := plan.decode, aborted := plan.aborted }) (x : Nat) :
    plan.positions s x = if x ∈ plan.decode then {(s.heap x).seqLen - 1} else ∅ := by
  have h0 : plan.prefill = none := by rw [hp]
  unfold StepPlan.positions
  rw [h0, if_neg (by simp)]

/-- nothing is planned by an admission -/
theorem Lazy.admissions (h : Inv T o s) (hl : Lazy o s planned) {k : Nat}
    (hA : Scheduler.Admissions T o s s' k) : Lazy o s' planned := by
  have hsplit : s.waiting = s.waiting.take k ++ s.waiting.drop k := (List.take_append_drop _ _).symm
  have hout : ∀ r ∈ s.admitted, r ∉ s.waiting.take k := fun r hr hm =>
    Nat.lt_irrefl r (h.admitted_lt_waiting hr (by rw [hsplit]; exact List.mem_append_left _ hm))
  refine ⟨?_, ?_, ?_⟩
  · intro r hr
    rw [hA.waiting, hA.nextPtr] at hr
    apply hl.fresh r
    exact hr.imp_left fun hm => by rw [hsplit]; exact List.mem_append_right _ hm
  · intro r hr
    rw [hA.prefill, List.mem_append] at hr
    rcases hr with hr | hr
    · rw [hA.frame r (hout r (List.mem_append_right _ hr))]
      exact hl.prefill r hr
    · have hw : r ∈ s.waiting := by rw [hsplit]; exact List.mem_append_left _ hr
      have hq := h.waiting r hw
      obtain ⟨slot, hs⟩ := hA.taken r hr
      refine ⟨0, ⟨by rw [hl.fresh r (Or.inl hw)]; rfl, ?_⟩, ?_, Nat.zero_le _⟩
      · rw [hs, blocksForTokens_zero]
        show (s.heap r).blockTable.blocks.length = 0
        rw [hq.blocks]; rfl
      · rw [hs]
        exact hq.progress.le
  · intro r hr
    rw [hA.running] at hr
    rw [hA.frame r (hout r (List.mem_append_left _ hr))]
    exact hl.running r hr

/-- a prefill plan plans its chunk -/
theorem Lazy.chunk (h : Inv T o s) (hl : Lazy o s planned) {r : Nat} {rest : List Nat}
    (hq : s.prefillQueue = r :: rest) (hC : Scheduler.ChunkCovered T o s s' r)
    (hb : (s'.heap r).blockTable.numBlocks = blocksForTokens (chunkEnd o (s.heap r))) :
    Lazy o s' fun x => planned x ∪ (Scheduler.chunkPlan o s r).positions s' x := by
  have hmem : r ∈ s.admitted := List.mem_append_right _ (by rw [hq]; exact List.mem_cons_self)
  have hsame : ∀ x, x ≠ r →
      planned x ∪ (Scheduler.chunkPlan o s r).positions s' x = planned x := by
    intro x hx
    rw [positions_chunk, if_neg hx, Finset.union_empty]
  refine ⟨?_, ?_, ?_⟩
  · intro x hx
    rw [hC.waiting, hC.nextPtr] at hx
    have hxr : x ≠ r := by
      rintro rfl
      rcases hx with hx | hx
      · exact Nat.lt_irrefl x (h.admitted_lt_waiting hmem hx)
      · exact Nat.lt_irrefl x (Nat.lt_of_lt_of_le (h.lt_nextPtr (Or.inr hmem)) hx)
    show planned x ∪ _ = ∅
    rw [hsame x hxr]
    exact hl.fresh x hx
  · intro x hx
    rw [hC.prefill] at hx
    obtain ⟨n, hn, h1, h2⟩ := hl.prefill x hx
    by_cases hxr : x = r
    · subst hxr
      obtain ⟨bs, m, hg⟩ := hC.grown
      have hce : chunkEnd o (s'.heap x) = chunkEnd o (s.heap x) := by rw [hg]; rfl
      have hpr : (s'.heap x).prefillProgress = (s.heap x).prefillProgress := by rw [hg]
      refine ⟨chunkEnd o (s.heap x), ⟨?_, hb⟩, ?_, by rw [hce]⟩
      · show planned x ∪ _ = _
        rw [positions_chunk, if_pos rfl, hn.1, range_union_Ico h1 h2]
      · rw [hpr]; exact h1.trans h2
    · rw [hC.frame x hxr]
      refine ⟨n, ⟨?_, hn.2⟩, h1, h2⟩
      exact (hsame x hxr).trans hn.1
  · intro x hx
    rw [hC.running] at hx
    have hxr : x ≠ r := by
      rintro rfl
      have hnd := h.nodup
      unfold Scheduler.admitted at hnd
      rw [List.nodup_append, hq] at hnd
      exact hnd.2.2 x hx x List.mem_cons_self rfl
    obtain ⟨n, hn, h12⟩ := hl.running x hx
    rw [hC.frame x hxr]
    exact ⟨n, ⟨(hsame x hxr).trans hn.1, hn.2⟩, h12⟩

/-- a decode plan plans the next position of each row -/
theorem Lazy.decode (h : Inv T o s) (hl : Lazy o s planned) {plan : StepPlan}
    (hD : Scheduler.DecodePlan T o s plan s') :
    Lazy o s' fun x => planned x ∪ plan.positions s' x := by
  refine ⟨?_, ?_, ?_⟩
  · intro x hx
    rw [hD.waiting, hD.nextPtr] at hx
    have hout : x ∉ plan.decode := by
      intro hm
      have hrun : x ∈ s.admitted := List.mem_append_left _ (by
        rw [hD.cut]; exact List.mem_append_left _ hm)
      rcases hx with hx | hx
      · exact Nat.lt_irrefl x (h.admitted_lt_waiting hrun hx)
      · exact Nat.lt_irrefl x (Nat.lt_of_lt_of_le (h.lt_nextPtr (Or.inr hrun)) hx)
    show planned x ∪ _ = ∅
    rw [positions_decode hD.shape, if_neg hout, Finset.union_empty]
    exact hl.fresh x hx
  · intro x hx
    rw [hD.prefill] at hx
    exact absurd hx List.not_mem_nil
  · intro x hx
    rw [hD.running] at hx
    have hrun : x ∈ s.running := by rw [hD.cut]; exact List.mem_append_left _ hx
    obtain ⟨n, hn, h1, h2⟩ := hl.running x hrun
    obtain ⟨⟨bs, m, hg⟩, hb⟩ := hD.rows x hx
    have hs : (s'.heap x).seqLen = (s.heap x).seqLen := by rw [hg]; rfl
    have hpos := (h.running x hrun).seqLen_pos
    refine ⟨(s.heap x).seqLen, ⟨?_, hb⟩, by rw [hs]; omega, by rw [hs]⟩
    show planned x ∪ _ = _
    have he : ({(s.heap x).seqLen - 1} : Finset Nat)
        = Finset.Ico ((s.heap x).seqLen - 1) (s.heap x).seqLen := by
      ext y
      rw [Finset.mem_singleton, Finset.mem_Ico]
      omega
    rw [positions_decode hD.shape, if_pos hx, hs, hn.1, he, range_union_Ico h1 h2]

/-- completing a plan that stands: its positions become positions with KV -/
theorem Lazy.completed (h : Inv T o s) (hl : Lazy o s planned) {plan : StepPlan}
    (hst : Standing (some plan) s planned) {sampled : List Int} {results : List StepResult}
    (hC : Scheduler.Completed T o s plan sampled results s') : Lazy o s' planned := by
  cases hC with
  | chunk r rest queue shape more none state inv =>
    have hmem : r ∈ s.prefillQueue := by rw [queue]; exact List.mem_cons_self
    have hsub := hst plan rfl r
    rw [shape, positions_chunk, if_pos rfl] at hsub
    subst state
    refine ⟨hl.fresh, ?_, ?_⟩
    · intro x hx
      obtain ⟨n, hn, h1, h2⟩ := hl.prefill x hx
      show ∃ n, Covers planned x (Function.update s.heap r _ x) n ∧ _
      by_cases hxr : x = r
      · subst hxr
        rw [hn.1] at hsub
        have hle := le_of_Ico_subset (lt_chunkEnd h.tuned (h.prefill x hmem)) hsub
        refine ⟨n, ?_, ?_, ?_⟩
        · rw [Function.update_self]; exact hn.congr rfl
        · show (Function.update s.heap x _ x).prefillProgress ≤ n
          rw [Function.update_self]; exact hle
        · show n ≤ chunkEnd o (Function.update s.heap x _ x)
          rw [Function.update_self]
          show n ≤ min (chunkEnd o (s.heap x) + o.prefillChunkTokens) (s.heap x).numPromptTokens
          omega
      · refine ⟨n, ?_, ?_⟩
        · rw [Function.update_of_ne hxr]; exact hn
        · show (Function.update s.heap r _ x).prefillProgress ≤ n ∧
            n ≤ chunkEnd o (Function.update s.heap r _ x)
          rw [Function.update_of_ne hxr]; exact ⟨h1, h2⟩
    · intro x hx
      have hxr : x ≠ r := by
        rintro rfl
        exact (List.nodup_append.mp h.nodup).2.2 x hx x hmem rfl
      show ∃ n, Covers planned x (Function.update s.heap r _ x) n ∧
        (Function.update s.heap r _ x).seqLen - 1 ≤ n ∧ n ≤ (Function.update s.heap r _ x).seqLen
      rw [Function.update_of_ne hxr]
      exact hl.running x hx
  | first r rest token queue shape last tokens emits applied =>
    have hmem : r ∈ s.prefillQueue := by rw [queue]; exact List.mem_cons_self
    have hsub := hst plan rfl r
    rw [shape, positions_chunk, if_pos rfl] at hsub
    obtain ⟨hout, hrest⟩ := h.split_out (a := s.running) (b := rest) (r := r)
      (by unfold Scheduler.admitted; rw [queue])
    have hsame : ∀ x, x ≠ r → s'.heap x = s.heap x := by
      intro x hx; rw [applied.heap, Function.update_of_ne hx]
    refine ⟨?_, ?_, ?_⟩
    · rw [applied.waiting, applied.nextPtr]; exact hl.fresh
    · intro x hx
      rw [applied.prefill] at hx
      rw [hsame x fun e => hrest (e ▸ hx)]
      exact hl.prefill x (by rw [queue]; exact List.mem_cons_of_mem _ hx)
    · intro x hx
      rw [applied.running, List.mem_append] at hx
      by_cases hxr : x = r
      · subst hxr
        -- it goes on: its prompt is planned, and its first token comes next
        have hn : reasonOf o (progressed (s.heap x) (s.heap x).numPromptTokens) token = .kNone := by
          by_contra hc
          rw [if_neg hc] at hx
          exact hx.elim hout List.not_mem_nil
        obtain ⟨n, hcov, h1, h2⟩ := hl.prefill x hmem
        rw [hcov.1] at hsub
        have hle := le_of_Ico_subset (lt_chunkEnd h.tuned (h.prefill x hmem)) hsub
        have hlen : (s'.heap x).seqLen = (s.heap x).numPromptTokens + 1 := by
          rw [applied.heap, Function.update_self, seqLen_sampledReq]
          show (s.heap x).numPromptTokens + (s.heap x).outputTokens.length + 1 = _
          rw [(h.prefill x hmem).outputs]; rfl
        refine ⟨n, ?_, by omega, by omega⟩
        apply hcov.congr
        rw [applied.heap, Function.update_self, sampledReq_next hn]
        rfl
      · rw [hsame x hxr]
        refine hl.running x (hx.resolve_right fun hm => ?_)
        split at hm
        · exact hxr (List.mem_singleton.mp hm)
        · exact List.not_mem_nil hm
  | rows shape running tokens emits applied =>
    have hfst : (plan.decode.zip sampled).map Prod.fst = plan.decode :=
      List.map_fst_zip (by omega)
    refine ⟨?_, ?_, ?_⟩
    · rw [applied.waiting, applied.nextPtr]; exact hl.fresh
    · intro x hx
      rw [applied.prefill] at hx
      have hout : x ∉ (plan.decode.zip sampled).map Prod.fst := by
        rw [hfst, ← running]
        exact fun hm => (List.nodup_append.mp h.nodup).2.2 x hm x hx rfl
      rw [applied.frame x hout]
      exact hl.prefill x hx
    · intro x hx
      rw [applied.running, List.nil_append] at hx
      obtain ⟨p, hp, rfl⟩ := List.mem_map.mp hx
      obtain ⟨hp, hn⟩ := List.mem_filter.mp hp
      have hn := of_decide_eq_true hn
      have hdec : p.1 ∈ plan.decode := by rw [← hfst]; exact List.mem_map_of_mem hp
      have hrun : p.1 ∈ s.running := by rw [running]; exact hdec
      obtain ⟨n, hcov, h1, h2⟩ := hl.running p.1 hrun
      have hsub := hst plan rfl p.1
      rw [positions_decode shape, if_pos hdec, hcov.1, Finset.singleton_subset_iff,
        Finset.mem_range] at hsub
      have hpos := (h.running p.1 hrun).seqLen_pos
      have hlen : (s'.heap p.1).seqLen = (s.heap p.1).seqLen + 1 := by
        rw [applied.applied p hp, seqLen_sampledReq]
      refine ⟨n, hcov.congr ?_, by omega, by omega⟩
      rw [applied.applied p hp, sampledReq_next hn]
      rfl

theorem Lazy.queued (h : Inv T o s) (hl : Lazy o s planned) (q : Request) :
    Lazy o { s with
      heap := Function.update s.heap s.nextPtr q
      waiting := s.waiting ++ [s.nextPtr]
      nextPtr := s.nextPtr + 1 } planned := by
  have hsame : ∀ r ∈ s.admitted, Function.update s.heap s.nextPtr q r = s.heap r := fun r hr =>
    Function.update_of_ne (Nat.ne_of_lt (h.lt_nextPtr (Or.inr hr))) _ _
  refine ⟨?_, ?_, ?_⟩
  · intro r hr
    have hr' : r ∈ s.waiting ++ [s.nextPtr] ∨ s.nextPtr + 1 ≤ r := hr
    rw [List.mem_append, List.mem_singleton] at hr'
    apply hl.fresh r
    rcases hr' with (hr' | hr') | hr'
    · exact Or.inl hr'
    · exact Or.inr hr'.ge
    · exact Or.inr (by omega)
  · intro r hr
    simp only [hsame r (List.mem_append_right _ hr)]
    exact hl.prefill r hr
  · intro r hr
    simp only [hsame r (List.mem_append_left _ hr)]
    exact hl.running r hr

theorem Standing.queued (h : Inv T o s) {plan : Option StepPlan}
    (hP : ∀ p, plan = some p → Scheduler.PlanOk o s p) (hst : Standing plan s planned)
    (q : Request) :
    Standing plan { s with
      heap := Function.update s.heap s.nextPtr q
      waiting := s.waiting ++ [s.nextPtr]
      nextPtr := s.nextPtr + 1 } planned := by
  intro p hp r
  have hsub := hst p hp r
  cases hP p hp with
  | prefill r' rest queue shape blocks =>
    rw [shape, positions_chunk] at hsub ⊢
    exact hsub
  | decode shape running blocks victims =>
    rw [positions_decode shape] at hsub ⊢
    by_cases hm : r ∈ p.decode
    · have hlt := h.lt_nextPtr (Or.inr (List.mem_append_left _ (by rw [running]; exact hm)))
      simp only [Function.update_of_ne (Nat.ne_of_lt hlt)]
      exact hsub
    · rw [if_neg hm]
      exact Finset.empty_subset _

end

/-! ## the law -/

/-- **What is conserved.**  See the file header. -/
structure Conserved (T : Nat) (o : SchedulerOptions) (w : World) : Prop where
  blocks : (w.sched.allocator.freeList
    ++ w.sched.admitted.flatMap fun r => (w.sched.heap r).blockTable.blocks).Perm (poolIds T)
  reserved : w.sched.allocator.reserved
    = (w.sched.admitted.map fun r => (w.sched.heap r).reservedBlocks).sum
  covered : w.sched.allocator.reserved ≤ w.sched.allocator.freeBlocks
  slots : (w.sched.freeSlots ++ w.sched.admitted.map fun r => (w.sched.heap r).slot).Perm
    (batchSlots o.maxBatch)
  admitted : w.sched.admitted.Nodup ∧ ∀ r < w.sched.nextPtr, r ∈ w.sched.admitted ↔
    (w.sched.heap r).state = .kPrefill ∨ (w.sched.heap r).state = .kRunning
  finished : ∀ r < w.sched.nextPtr, (w.sched.heap r).state = .kFinished →
    (w.sched.heap r).blockTable.blocks = [] ∧ (w.sched.heap r).reservedBlocks = 0 ∧
      (w.sched.heap r).slot = -1
  /-- blocks are materialized lazily -/
  lazy : ∀ r ∈ w.sched.admitted,
    (w.sched.heap r).blockTable.numBlocks = blocksForTokens (w.planned r).card
  full : o.admissionPolicy = .kReserveFull → ∀ r ∈ w.sched.admitted,
    (w.sched.heap r).blockTable.numBlocks + (w.sched.heap r).reservedBlocks
      = Scheduler.worstCaseBlocks (w.sched.heap r)
  watermark : o.admissionPolicy = .kWatermark → ∀ r ∈ w.sched.admitted,
    ((w.sched.heap r).state = .kPrefill →
      (w.sched.heap r).blockTable.numBlocks + (w.sched.heap r).reservedBlocks
        = Scheduler.promptBlocks (w.sched.heap r)) ∧
    ((w.sched.heap r).state = .kRunning → (w.sched.heap r).reservedBlocks = 0)

section
variable {T : Nat} {o : SchedulerOptions} {s : Scheduler}

/-- the queue of a request is read off its state -/
theorem Inv.admitted_iff (h : Inv T o s) {r : Nat} (hr : r < s.nextPtr) :
    r ∈ s.admitted ↔ (s.heap r).state = .kPrefill ∨ (s.heap r).state = .kRunning := by
  constructor
  · intro hm
    rcases List.mem_append.mp hm with hm | hm
    · exact Or.inr (h.running r hm).state
    · exact Or.inl (h.prefill r hm).state
  · intro hst
    by_contra hm
    by_cases hw : r ∈ s.waiting
    · rw [(h.waiting r hw).state] at hst
      exact hst.elim nofun nofun
    · rw [(h.finished r hr hw hm).state] at hst
      exact hst.elim nofun nofun

theorem Inv.finished_of_state (h : Inv T o s) {r : Nat} (hr : r < s.nextPtr)
    (hst : (s.heap r).state = .kFinished) : FinishedReq (s.heap r) := by
  refine h.finished r hr (fun hw => ?_) (fun hm => ?_)
  · rw [(h.waiting r hw).state] at hst; cases hst
  · rw [h.admitted_iff hr, hst] at hm; exact hm.elim nofun nofun

theorem conserved_of_inv {w : World} (h : Inv T o w.sched) (hl : Lazy o w.sched w.planned) :
    Conserved T o w where
  blocks := by
    have hp := h.alloc.parts
    unfold Scheduler.blocksHeld at hp
    rw [held_coe, Multiset.coe_add, Multiset.coe_eq_coe, h.total] at hp
    exact hp
  reserved := h.reserved
  covered := h.alloc.reserved_le
  slots := by
    have hs := h.slots
    unfold Scheduler.slotsHeld at hs
    rw [held_single, Multiset.coe_add, Multiset.coe_eq_coe] at hs
    exact hs
  admitted := ⟨h.nodup, fun r hr => h.admitted_iff hr⟩
  finished := fun r hr hst =>
    have hf := h.finished_of_state hr hst
    ⟨hf.blocks, hf.reserved, hf.slot⟩
  lazy := by
    intro r hr
    rcases List.mem_append.mp hr with hr | hr
    · obtain ⟨n, hn, _⟩ := hl.running r hr
      rw [hn.1, Finset.card_range, hn.2]
    · obtain ⟨n, hn, _⟩ := hl.prefill r hr
      rw [hn.1, Finset.card_range, hn.2]
  full := by
    intro hp r hr
    rcases List.mem_append.mp hr with hr | hr
    · have hg := (h.running r hr).reserved
      unfold growthLeft at hg
      rw [hp] at hg
      simp only at hg
      omega
    · have hg := (h.prefill r hr).reserved
      unfold promised at hg
      rw [hp] at hg
      simp only at hg
      omega
  watermark := by
    intro hp r hr
    refine ⟨fun hst => ?_, fun hst => ?_⟩
    · rcases List.mem_append.mp hr with hr | hr
      · rw [(h.running r hr).state] at hst; cases hst
      · have hg := (h.prefill r hr).reserved
        unfold promised at hg
        rw [hp] at hg
        simp only at hg
        omega
    · rcases List.mem_append.mp hr with hr | hr
      · have hg := (h.running r hr).reserved
        unfold growthLeft at hg
        rw [hp] at hg
        exact hg
      · rw [(h.prefill r hr).state] at hst; cases hst

end

/-- the ghost record is right -/
def Tracked (o : SchedulerOptions) (w : World) : Prop :=
  Lazy o w.sched w.planned ∧ Standing w.plan w.sched w.planned

theorem Tracked.step {T : Nat} {o : SchedulerOptions} {w w' : World} {c : Call}
    (h : World.Reach T o w) (ht : Tracked o w) (hs : World.Stepped T o w c w') :
    Tracked o w' := by
  obtain ⟨hl, hst⟩ := ht
  cases hs with
  | rejected n => exact ⟨hl, hst⟩
  | queued n valid => exact ⟨hl.queued h.inv n.request, hst.queued h.inv h.plan n.request⟩
  | planned plan s hP =>
    refine ⟨?_, fun p hp r => ?_⟩
    · cases hP with
      | prefill s1 k r rest hP =>
        have hl1 := hl.admissions h.inv hP.admissions
        rw [hP.shape]
        exact hl1.chunk hP.admissions.inv hP.queue hP.chunk hP.blocks
      | decode _ hD => exact hl.decode h.inv hD
    · obtain rfl : plan = p := Option.some.inj hp
      exact Finset.subset_union_right
  | completed plan sampled results s stands hC =>
    exact ⟨hl.completed h.inv (by rw [← stands]; exact hst) hC, fun p hp => absurd hp (by simp)⟩

/-- **Conservation.**  Every legal sequence of calls returns, and conserves. -/
theorem conservation (T : Nat) (o : SchedulerOptions) (ha : Scheduler.ConstructorAsserts T o)
    (cs : List Call) (hL : Legal World.step World.ok (World.init T o) cs) :
    ∃ w, run World.step (World.init T o) cs = some w ∧ Conserved T o w := by
  have h0 : Tracked o (World.init T o) := by
    refine ⟨⟨fun _ _ => rfl, ?_, ?_⟩, fun p hp => absurd hp (by simp [World.init])⟩
    · exact fun r hr => absurd hr List.not_mem_nil
    · exact fun r hr => absurd hr List.not_mem_nil
  obtain ⟨w, hr, hw, ht⟩ := World.run_spec (Tracked o) (fun _ _ _ h ht hs _ => ht.step h hs)
    (World.Reach.init (World.tuned_of_asserts ha)) h0 cs hL
  exact ⟨w, hr, conserved_of_inv hw.inv ht.1⟩

/-- a watermark run with a plan that is never completed -/
theorem conservation_example :
    ∃ w, run World.step
        (World.init 4 { maxBatch := 2, maxSeqLen := 64, admissionPolicy := .kWatermark })
        [.enqueue { promptTokens := [1, 2], maxNewTokens := 3 }, .planStep, .planStep,
          .completeStep [5], .planStep, .completeStep [6]] = some w ∧
      Conserved 4 { maxBatch := 2, maxSeqLen := 64, admissionPolicy := .kWatermark } w :=
  conservation 4 { maxBatch := 2, maxSeqLen := 64, admissionPolicy := .kWatermark }
    (by decide +kernel)
    [.enqueue { promptTokens := [1, 2], maxNewTokens := 3 }, .planStep, .planStep,
      .completeStep [5], .planStep, .completeStep [6]]
    (by decide +kernel)

end Redline
