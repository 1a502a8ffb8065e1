import Redline.Sched.Plan

/-!
# What completing does

`PlanOk o s plan`: `plan` is the plan that stands in `s`.  `PlanStep` establishes it
(`Planned.planOk`) and `Enqueue` keeps it, so that a plan may be completed later.

`completeStep_spec`: given the token count of the contract, `CompleteStep` on that plan returns
and keeps `Inv`.  The record of a request after its token is `sampledReq`, what is reported about
it `sampledResult`; both are functions of the record and of the token only.
-/

namespace Redline
open Prog Ledger

/-! ## one token, as a function of the request -/

/-- why a request stops with its next token, if it does -/
def reasonOf (o : SchedulerOptions) (q : Request) (sampled : Int) : FinishReason :=
  if !q.ignoreEos && o.eosTokenIds.contains (Scheduler.appendedToken q sampled) then .kEos
  else if q.maxNewTokens ≤ q.numOutputTokens + 1 then .kLength
  else .kNone

def appendedReq (q : Request) (sampled : Int) : Request :=
  { q with outputTokens := q.outputTokens ++ [Scheduler.appendedToken q sampled] }

/-- the record after the token -/
def sampledReq (o : SchedulerOptions) (q : Request) (sampled : Int) : Request :=
  if reasonOf o q sampled = .kNone then { appendedReq q sampled with state := .kRunning }
  else Request.released { appendedReq q sampled with
    state := .kFinished
    finishReason := reasonOf o q sampled }

def sampledResult (o : SchedulerOptions) (q : Request) (sampled : Int) : StepResult :=
  ⟨q.id, sampled, decide (reasonOf o q sampled ≠ .kNone), reasonOf o q sampled⟩

/-- what is reported about an evicted request -/
def evictionResult (q : Request) : StepResult := ⟨q.id, 0, true, .kAborted⟩

/-- the request after its chunk -/
def progressed (q : Request) (chunkEnd : Nat) : Request := { q with prefillProgress := chunkEnd }

theorem numOutputTokens_appendedReq (q : Request) (sampled : Int) :
    (appendedReq q sampled).numOutputTokens = q.numOutputTokens + 1 := by
  simp [appendedReq, Request.numOutputTokens]

theorem seqLen_appendedReq (q : Request) (sampled : Int) :
    (appendedReq q sampled).seqLen = q.seqLen + 1 := by
  unfold Request.seqLen
  rw [numOutputTokens_appendedReq]
  rfl

theorem sampledReq_next {o : SchedulerOptions} {q : Request} {sampled : Int}
    (h : reasonOf o q sampled = .kNone) :
    sampledReq o q sampled = { appendedReq q sampled with state := .kRunning } := if_pos h

theorem sampledReq_stop {o : SchedulerOptions} {q : Request} {sampled : Int}
    (h : reasonOf o q sampled ≠ .kNone) :
    sampledReq o q sampled = Request.released { appendedReq q sampled with
      state := .kFinished
      finishReason := reasonOf o q sampled } := if_neg h

theorem outputTokens_sampledReq (o : SchedulerOptions) (q : Request) (sampled : Int) :
    (sampledReq o q sampled).outputTokens
      = q.outputTokens ++ [Scheduler.appendedToken q sampled] := by
  unfold sampledReq
  split <;> rfl

theorem seqLen_sampledReq (o : SchedulerOptions) (q : Request) (sampled : Int) :
    (sampledReq o q sampled).seqLen = q.seqLen + 1 := by
  rw [← seqLen_appendedReq q sampled]
  unfold sampledReq
  split <;> rfl

/-- a request goes on only below its length limit -/
theorem lt_of_reasonOf {o : SchedulerOptions} {q : Request} {sampled : Int}
    (h : reasonOf o q sampled = .kNone) : (q.numOutputTokens : Int) + 1 < q.maxNewTokens := by
  unfold reasonOf at h
  by_contra hc
  rw [if_pos (show q.maxNewTokens ≤ (q.numOutputTokens : Int) + 1 by omega)] at h
  split at h <;> cases h

theorem sampledReq_valid {U : Nat} {o : SchedulerOptions} {q : Request} (hv : Valid U o q)
    (sampled : Int) : Valid U o (sampledReq o q sampled) := by
  unfold sampledReq
  split <;> exact ⟨hv.prompt_pos, hv.maxNew_pos, hv.fits_seq, hv.fits_pool⟩

theorem sampledReq_finished {o : SchedulerOptions} {q : Request} {sampled : Int}
    (h : reasonOf o q sampled ≠ .kNone) : FinishedReq (sampledReq o q sampled) := by
  rw [sampledReq_stop h]
  exact ⟨rfl, h, rfl, rfl, rfl⟩

/-- a request that goes on is running, when its blocks cover the positions before the token -/
theorem sampledReq_running {o : SchedulerOptions} {q : Request} {sampled : Int}
    (h : reasonOf o q sampled = .kNone) (hn : q.finishReason = .kNone) (hs : 0 ≤ q.slot)
    (hp : q.prefillProgress = q.numPromptTokens)
    (hb : q.blockTable.numBlocks = blocksForTokens q.seqLen)
    (hr : q.reservedBlocks = growthLeft o q) : RunningReq o (sampledReq o q sampled) := by
  have hlt := lt_of_reasonOf h
  rw [sampledReq_next h]
  refine ⟨rfl, hn, hs, hp, ?_, ?_, ?_, ?_, hr⟩
  · show 0 < (appendedReq q sampled).numOutputTokens
    rw [numOutputTokens_appendedReq]; omega
  · show ((appendedReq q sampled).numOutputTokens : Int) < q.maxNewTokens
    rw [numOutputTokens_appendedReq]; omega
  · show blocksForTokens ((appendedReq q sampled).seqLen - 1) ≤ q.blockTable.numBlocks
    rw [seqLen_appendedReq, hb]; exact le_refl _
  · show q.blockTable.numBlocks ≤ blocksForTokens (appendedReq q sampled).seqLen
    rw [seqLen_appendedReq, hb]; exact blocksForTokens_mono (Nat.le_succ _)

namespace Scheduler

section
variable {T : Nat} {o : SchedulerOptions} {s : Scheduler}

theorem stopReason_eq (ho : s.options = o) (q : Request) (sampled : Int) :
    s.stopReason (appendedReq q sampled) (appendedToken q sampled) = reasonOf o q sampled := by
  unfold stopReason reasonOf isEosToken
  rw [numOutputTokens_appendedReq, ho]
  rfl

/-- `ApplySampledToken`, when the sequence goes on -/
theorem applySampledToken_next (ho : s.options = o) {r : Nat} {token : Int}
    (hst : (s.heap r).state = .kPrefill ∨ (s.heap r).state = .kRunning)
    (hn : reasonOf o (s.heap r) token = .kNone) :
    s.applySampledToken r token = some (sampledResult o (s.heap r) token,
      if (s.heap r).state == .kPrefill then
        { s with
          heap := Function.update s.heap r { appendedReq (s.heap r) token with state := .kRunning }
          running := s.running ++ [r] }
      else { s with heap := Function.update s.heap r (appendedReq (s.heap r) token) }) := by
  have hstop := stopReason_eq ho (s.heap r) token
  unfold appendedReq at hstop
  unfold applySampledToken sampledResult
  simp only [check_pos hst, Option.bind_eq_bind, Option.bind_some, hstop, hn, if_true]
  split <;> rfl

/-- `ApplySampledToken`, when the sequence stops -/
theorem applySampledToken_stop (ho : s.options = o) {r : Nat} {token : Int}
    (hst : (s.heap r).state = .kPrefill ∨ (s.heap r).state = .kRunning)
    (hn : reasonOf o (s.heap r) token ≠ .kNone) :
    s.applySampledToken r token
      = (({ s with heap := Function.update s.heap r { appendedReq (s.heap r) token with
            state := .kFinished
            finishReason := reasonOf o (s.heap r) token } } : Scheduler).releaseResources r).bind
          fun s1 => if (s.heap r).state == .kPrefill then
              some (sampledResult o (s.heap r) token, s1)
            else (check (r ∈ s1.running)).bind fun _ =>
              some (sampledResult o (s.heap r) token, { s1 with running := s1.running.erase r }) := by
  have hstop := stopReason_eq ho (s.heap r) token
  unfold appendedReq at hstop
  unfold applySampledToken sampledResult
  simp only [check_pos hst, Option.bind_eq_bind, Option.bind_some, hstop, if_neg hn,
    decide_eq_true hn]
  rfl

/-! ## a decode row -/

/-- what one token does to the row `r` -/
structure RowApplied (T : Nat) (o : SchedulerOptions) (s : Scheduler) (pre : List Nat) (r : Nat)
    (post : List Nat) (token : Int) (s' : Scheduler) : Prop where
  inv : Inv T o s'
  heap : s'.heap = Function.update s.heap r (sampledReq o (s.heap r) token)
  running : s'.running
    = pre ++ (if reasonOf o (s.heap r) token = .kNone then [r] else []) ++ post
  waiting : s'.waiting = s.waiting
  prefill : s'.prefillQueue = s.prefillQueue
  nextPtr : s'.nextPtr = s.nextPtr

theorem applyRow_spec (h : Inv T o s) {pre post : List Nat} {r : Nat}
    (hR : s.running = pre ++ r :: post)
    (hb : (s.heap r).blockTable.numBlocks = blocksForTokens (s.heap r).seqLen) (token : Int) :
    ∃ s', s.applySampledToken r token = some (sampledResult o (s.heap r) token, s') ∧
      RowApplied T o s pre r post token s' := by
  have hmem : r ∈ s.running := by rw [hR]; simp
  have e : s.admitted = pre ++ r :: (post ++ s.prefillQueue) := by
    unfold admitted; rw [hR]; simp
  have hrun := h.running r hmem
  have hv := h.valid r (h.lt_nextPtr (Or.inr (by rw [e]; simp)))
  have hst : (s.heap r).state = .kPrefill ∨ (s.heap r).state = .kRunning := Or.inr hrun.state
  have hfp : ((s.heap r).state == .kPrefill) = false := by rw [hrun.state]; rfl
  obtain ⟨hr0, hr1⟩ := h.reservedHeld_le e
  obtain ⟨hpre, hpost⟩ := h.split_out e
  by_cases hn : reasonOf o (s.heap r) token = .kNone
  · -- the sequence goes on
    have hreq : sampledReq o (s.heap r) token = appendedReq (s.heap r) token := by
      rw [sampledReq_next hn, ← hrun.state]
      rfl
    have hq := sampledReq_running hn hrun.reason hrun.slot hrun.progress hb hrun.reserved
    have hnp : r ∉ s.prefillQueue := fun hm => hpost (List.mem_append_right _ hm)
    have hI : Inv T o { s with heap := Function.update s.heap r (sampledReq o (s.heap r) token) } := by
      refine h.exchange e rfl (fun x hx _ => hx) (fun x hx _ => hx) (fun _ => hq)
        (fun hm => absurd hm hnp) ?_ (sampledReq_valid hv token) rfl ?_ ?_
      · rw [hreq]; rfl
      · rw [hreq]; exact alloc_split h e
      · rw [hreq]; exact hr1
    refine ⟨_, ?_, ⟨hI, rfl, ?_, rfl, rfl, rfl⟩⟩
    · rw [applySampledToken_next h.options hst hn, hfp, hreq]
      rfl
    · show s.running = _
      rw [if_pos hn, hR]; simp
  · -- the sequence finishes
    let q2 : Request := { appendedReq (s.heap r) token with
      state := .kFinished
      finishReason := reasonOf o (s.heap r) token }
    have hreq : sampledReq o (s.heap r) token = q2.released := sampledReq_stop hn
    let s1 : Scheduler := { s with heap := Function.update s.heap r q2 }
    obtain ⟨A, hrel, hi, ht, hres, _⟩ := releaseResources_spec (s := s1) (r := r) (q := q2)
      (M := s.blocksHeld (pre ++ (post ++ s.prefillQueue))) (Function.update_self ..)
      (alloc_split h e) hrun.reserved_nonneg
      (by show (s.heap r).reservedBlocks ≤ s.allocator.reserved; omega) hrun.slot
    have hI := h.remove (q := sampledReq o (s.heap r) token) (A := A) (R := pre ++ post)
      (P := s.prefillQueue) e (List.append_assoc _ _ _)
      (fun x hx => by
        rw [hR, List.mem_append, List.mem_cons]
        rcases List.mem_append.mp hx with hx | hx
        · exact Or.inl hx
        · exact Or.inr (Or.inr hx))
      (fun x hx => hx) (sampledReq_finished hn) (sampledReq_valid hv token) ht hi
      (by rw [hres]; show s.allocator.reserved - (s.heap r).reservedBlocks = _; omega)
    refine ⟨_, ?_, ⟨hI, rfl, ?_, rfl, rfl, rfl⟩⟩
    · have herase : s.running.erase r = pre ++ post := by
        rw [hR, List.erase_append_right _ hpre, List.erase_cons_head]
      rw [applySampledToken_stop h.options hst hn, hfp]
      show ((s1.releaseResources r).bind _) = _
      rw [hrel]
      show ((check (r ∈ s.running)).bind _) = _
      rw [check_pos hmem, hreq]
      simp only [Option.bind_some, s1, Function.update_idem]
      rw [herase]
      rfl
    · rw [if_neg hn, List.append_nil]

/-- the rows of a decode step, all at once -/
structure RowsApplied (T : Nat) (o : SchedulerOptions) (s : Scheduler) (pre : List Nat)
    (rows : List (Nat × Int)) (s' : Scheduler) : Prop where
  inv : Inv T o s'
  applied : ∀ p ∈ rows, s'.heap p.1 = sampledReq o (s.heap p.1) p.2
  frame : ∀ x, x ∉ rows.map Prod.fst → s'.heap x = s.heap x
  running : s'.running
    = pre ++ (rows.filter fun p => decide (reasonOf o (s.heap p.1) p.2 = .kNone)).map Prod.fst
  waiting : s'.waiting = s.waiting
  prefill : s'.prefillQueue = s.prefillQueue
  nextPtr : s'.nextPtr = s.nextPtr

theorem applyRows_spec (rows : List (Nat × Int)) : ∀ (s : Scheduler) (pre : List Nat),
    Inv T o s → s.running = pre ++ rows.map Prod.fst →
    (∀ p ∈ rows, (s.heap p.1).blockTable.numBlocks = blocksForTokens (s.heap p.1).seqLen) →
    ∃ s', s.applyRows rows = some (rows.map fun p => sampledResult o (s.heap p.1) p.2, s') ∧
      RowsApplied T o s pre rows s' := by
  induction rows with
  | nil =>
    intro s pre h hR _
    exact ⟨s, rfl, h, fun p hp => absurd hp List.not_mem_nil, fun _ _ => rfl, hR, rfl, rfl, rfl⟩
  | cons p rows ih =>
    intro s pre h hR hb
    obtain ⟨r, token⟩ := p
    rw [List.map_cons] at hR
    obtain ⟨s1, hs1, hA⟩ := applyRow_spec h hR (hb (r, token) List.mem_cons_self) token
    have hnd := (List.nodup_append.mp h.nodup).1
    rw [hR, List.nodup_append, List.nodup_cons] at hnd
    have hout : r ∉ rows.map Prod.fst := hnd.2.1.1
    have hsame : ∀ x, x ≠ r → s1.heap x = s.heap x := by
      intro x hx
      rw [hA.heap, Function.update_of_ne hx]
    have hrows : ∀ p ∈ rows, s1.heap p.1 = s.heap p.1 :=
      fun p hp => hsame p.1 fun e => hout (e ▸ List.mem_map_of_mem hp)
    obtain ⟨s2, hs2, hB⟩ := ih s1 _ hA.inv hA.running fun p hp => by
      rw [hrows p hp]; exact hb p (List.mem_cons_of_mem _ hp)
    have hmap : rows.map (fun p => sampledResult o (s1.heap p.1) p.2)
        = rows.map fun p => sampledResult o (s.heap p.1) p.2 :=
      List.map_congr_left fun p hp => by rw [hrows p hp]
    have hfilter : rows.filter (fun p => decide (reasonOf o (s1.heap p.1) p.2 = .kNone))
        = rows.filter fun p => decide (reasonOf o (s.heap p.1) p.2 = .kNone) :=
      List.filter_congr fun p hp => by rw [hrows p hp]
    refine ⟨s2, ?_, hB.inv, ?_, ?_, ?_, hB.waiting.trans hA.waiting, hB.prefill.trans hA.prefill,
      hB.nextPtr.trans hA.nextPtr⟩
    · unfold applyRows
      simp only [hs1, hs2, hmap, Option.bind_eq_bind, Option.bind_some, Option.pure_def,
        List.map_cons]
    · intro p hp
      rcases List.mem_cons.mp hp with rfl | hp
      · rw [hB.frame _ hout, hA.heap, Function.update_self]
      · rw [hB.applied p hp, hrows p hp]
    · intro x hx
      rw [List.map_cons, List.mem_cons, not_or] at hx
      rw [hB.frame x hx.2, hsame x hx.1]
    · rw [hB.running, hfilter, List.filter_cons]
      by_cases hn : reasonOf o (s.heap r) token = .kNone
      · rw [if_pos hn, if_pos (decide_eq_true hn), List.map_cons, List.append_assoc,
          List.singleton_append]
      · rw [if_neg hn, if_neg (by simpa using hn), List.append_nil]

/-! ## the first token -/

/-- the last chunk of the head is done: it leaves the prefill queue and takes its first token -/
structure FirstApplied (T : Nat) (o : SchedulerOptions) (s : Scheduler) (r : Nat)
    (rest : List Nat) (token : Int) (s' : Scheduler) : Prop where
  inv : Inv T o s'
  heap : s'.heap = Function.update s.heap r
    (sampledReq o (progressed (s.heap r) (s.heap r).numPromptTokens) token)
  running : s'.running = s.running ++
    if reasonOf o (progressed (s.heap r) (s.heap r).numPromptTokens) token = .kNone then [r] else []
  waiting : s'.waiting = s.waiting
  prefill : s'.prefillQueue = rest
  nextPtr : s'.nextPtr = s.nextPtr

theorem applyFirst_spec (h : Inv T o s) {r : Nat} {rest : List Nat}
    (hq : s.prefillQueue = r :: rest)
    (hb : (s.heap r).blockTable.numBlocks = promptBlocks (s.heap r)) (token : Int) :
    ∃ s', ({ s with
        heap := Function.update s.heap r (progressed (s.heap r) (s.heap r).numPromptTokens)
        prefillQueue := rest } : Scheduler).applySampledToken r token
        = some (sampledResult o (progressed (s.heap r) (s.heap r).numPromptTokens) token, s') ∧
      FirstApplied T o s r rest token s' := by
  have hmem : r ∈ s.prefillQueue := by rw [hq]; exact List.mem_cons_self
  have e : s.admitted = s.running ++ r :: rest := by unfold admitted; rw [hq]
  have hpre := h.prefill r hmem
  have hv := h.valid r (h.lt_nextPtr (Or.inr (by rw [e]; simp)))
  let q : Request := progressed (s.heap r) (s.heap r).numPromptTokens
  let s1 : Scheduler := { s with
    heap := Function.update s.heap r q
    prefillQueue := rest }
  have hq1 : s1.heap r = q := Function.update_self ..
  have hst : (s1.heap r).state = .kPrefill ∨ (s1.heap r).state = .kRunning := by
    rw [hq1]; exact Or.inl hpre.state
  have hfp : ((s1.heap r).state == .kPrefill) = true := by
    rw [hq1]; show ((s.heap r).state == .kPrefill) = true; rw [hpre.state]; rfl
  have hlen : q.seqLen = (s.heap r).numPromptTokens := by
    show (s.heap r).numPromptTokens + (s.heap r).outputTokens.length = _
    rw [hpre.outputs]; rfl
  obtain ⟨hr0, hr1⟩ := h.reservedHeld_le e
  obtain ⟨hout, hrest⟩ := h.split_out e
  have hvq : Valid s.allocator.usableBlocks o q :=
    ⟨hv.prompt_pos, hv.maxNew_pos, hv.fits_seq, hv.fits_pool⟩
  show ∃ s', s1.applySampledToken r token = some (sampledResult o q token, s') ∧ _
  by_cases hn : reasonOf o q token = .kNone
  · -- it joins the decode batch
    have hreq : sampledReq o q token = { appendedReq q token with state := .kRunning } :=
      sampledReq_next hn
    have hgrow : q.reservedBlocks = growthLeft o q := by
      show (s.heap r).reservedBlocks = _
      rw [hpre.reserved, hb]
      unfold promised growthLeft
      cases o.admissionPolicy with
      | kReserveFull =>
        show (worstCaseBlocks (s.heap r) : Int) - promptBlocks (s.heap r)
          = worstCaseBlocks (s.heap r) - (s.heap r).blockTable.numBlocks
        rw [hb]
      | kWatermark => exact sub_self _
    have hrun : RunningReq o (sampledReq o q token) :=
      sampledReq_running hn hpre.reason hpre.slot rfl (by rw [hlen]; exact hb) hgrow
    have hI := h.exchange (q := sampledReq o q token) (A := s.allocator) (R := s.running ++ [r])
      (P := rest) e (by rw [e, List.append_assoc]; rfl)
      (fun x hx hxr => (List.mem_append.mp hx).resolve_right fun hm =>
        hxr (List.mem_singleton.mp hm))
      (fun x hx _ => by rw [hq]; exact List.mem_cons_of_mem _ hx) (fun _ => hrun)
      (fun hm => absurd hm hrest) (by rw [hreq]; rfl) (sampledReq_valid hvq token) rfl
      (by rw [hreq]; exact alloc_split h e) (by rw [hreq]; exact hr1)
    refine ⟨_, ?_, ⟨hI, rfl, ?_, rfl, rfl, rfl⟩⟩
    · have ho : s1.options = o := h.options
      rw [applySampledToken_next ho hst (by rw [hq1]; exact hn), hfp, hq1, if_pos rfl, hreq]
      simp only [s1, Function.update_idem]
    · show s.running ++ [r] = _
      rw [if_pos hn]
  · -- it finishes straight out of prefill
    let q2 : Request := { appendedReq q token with
      state := .kFinished
      finishReason := reasonOf o q token }
    have hreq : sampledReq o q token = q2.released := sampledReq_stop hn
    let s2 : Scheduler := { s1 with heap := Function.update s1.heap r q2 }
    obtain ⟨A, hrel, hi, ht, hres, _⟩ := releaseResources_spec (s := s2) (r := r) (q := q2)
      (M := s.blocksHeld (s.running ++ rest)) (Function.update_self ..) (alloc_split h e)
      hpre.reserved_nonneg (by show (s.heap r).reservedBlocks ≤ s.allocator.reserved; omega)
      hpre.slot
    have hI := h.remove (q := sampledReq o q token) (A := A) (R := s.running) (P := rest) e rfl
      (fun x hx => hx) (fun x hx => by rw [hq]; exact List.mem_cons_of_mem _ hx)
      (sampledReq_finished hn) (sampledReq_valid hvq token) ht hi
      (by rw [hres]; show s.allocator.reserved - (s.heap r).reservedBlocks = _; omega)
    refine ⟨_, ?_, ⟨hI, rfl, ?_, rfl, rfl, rfl⟩⟩
    · have ho : s1.options = o := h.options
      rw [applySampledToken_stop ho hst (by rw [hq1]; exact hn), hfp, hq1]
      show ((s2.releaseResources r).bind _) = _
      rw [hrel, hreq]
      simp only [Option.bind_some, if_true, s2, s1, Function.update_idem]
      rfl
    · show s.running = _
      rw [if_neg hn, List.append_nil]

/-! ## the plan that stands -/

/-- `plan` is what the last `PlanStep` returned, and it was not completed yet -/
inductive PlanOk (o : SchedulerOptions) (s : Scheduler) (plan : StepPlan) : Prop where
  | prefill (r : Nat) (rest : List Nat) (queue : s.prefillQueue = r :: rest)
      (shape : plan = chunkPlan o s r)
      (blocks : (s.heap r).blockTable.numBlocks = blocksForTokens (chunkEnd o (s.heap r)))
  | decode (shape : plan = { decode := plan.decode, aborted := plan.aborted })
      (running : s.running = plan.decode)
      (blocks : ∀ r ∈ plan.decode,
        (s.heap r).blockTable.numBlocks = blocksForTokens (s.heap r).seqLen)
      (victims : ∀ r ∈ plan.aborted, r < s.nextPtr ∧ (s.heap r).state = .kFinished ∧
        (s.heap r).finishReason = .kAborted)

theorem Planned.planOk {s' : Scheduler} {plan : StepPlan} (h : Inv T o s)
    (hP : Planned T o s plan s') : PlanOk o s' plan := by
  cases hP with
  | prefill s1 k r rest hP =>
    obtain ⟨bs, n, hg⟩ := hP.chunk.grown
    have hc : chunkPlan o s' r = chunkPlan o s1 r := by
      unfold chunkPlan chunkEnd; rw [hg]; rfl
    have hce : chunkEnd o (s'.heap r) = chunkEnd o (s1.heap r) := by
      unfold chunkEnd; rw [hg]; rfl
    exact .prefill r rest (hP.chunk.prefill.trans hP.queue) (by rw [hc]; exact hP.shape)
      (by rw [hce]; exact hP.blocks)
  | decode _ hD =>
    refine .decode hD.shape hD.running (fun r hr => ?_) (fun r hr => ?_)
    · obtain ⟨⟨bs, n, hg⟩, hb⟩ := hD.rows r hr
      have hs : (s'.heap r).seqLen = (s.heap r).seqLen := by rw [hg]; rfl
      rw [hs]; exact hb
    · have hmem : r ∈ s.admitted := by
        refine List.mem_append_left _ ?_
        rw [hD.cut]; exact List.mem_append_right _ (List.mem_reverse.mpr hr)
      rw [hD.nextPtr, hD.evictions r hr]
      exact ⟨h.lt_nextPtr (Or.inr hmem), rfl, rfl⟩

theorem abortedResults_spec (s : Scheduler) (l : List Nat)
    (h : ∀ r ∈ l, (s.heap r).state = .kFinished ∧ (s.heap r).finishReason = .kAborted) :
    s.abortedResults l = some (l.map fun r => evictionResult (s.heap r)) := by
  induction l with
  | nil => rfl
  | cons r l ih =>
    unfold abortedResults
    simp only [check_pos (h r List.mem_cons_self), ih fun x hx => h x (List.mem_cons_of_mem _ hx),
      Option.bind_eq_bind, Option.bind_some, Option.pure_def, List.map_cons]
    rfl

/-- what `CompleteStep` does -/
inductive Completed (T : Nat) (o : SchedulerOptions) (s : Scheduler) (plan : StepPlan)
    (sampled : List Int) (results : List StepResult) (s' : Scheduler) : Prop where
  /-- a chunk in the middle of the prompt -/
  | chunk (r : Nat) (rest : List Nat) (queue : s.prefillQueue = r :: rest)
      (shape : plan = chunkPlan o s r)
      (more : chunkEnd o (s.heap r) < (s.heap r).numPromptTokens) (none : results = [])
      (state : s' = { s with
        heap := Function.update s.heap r (progressed (s.heap r) (chunkEnd o (s.heap r))) })
      (inv : Inv T o s')
  /-- the last chunk, with the first token -/
  | first (r : Nat) (rest : List Nat) (token : Int) (queue : s.prefillQueue = r :: rest)
      (shape : plan = chunkPlan o s r)
      (last : chunkEnd o (s.heap r) = (s.heap r).numPromptTokens) (tokens : sampled = [token])
      (emits : results
        = [sampledResult o (progressed (s.heap r) (s.heap r).numPromptTokens) token])
      (applied : FirstApplied T o s r rest token s')
  /-- a decode batch, after the evictions of its plan -/
  | rows (shape : plan = { decode := plan.decode, aborted := plan.aborted })
      (running : s.running = plan.decode) (tokens : sampled.length = plan.decode.length)
      (emits : results = (plan.aborted.map fun r => evictionResult (s.heap r))
        ++ (plan.decode.zip sampled).map fun p => sampledResult o (s.heap p.1) p.2)
      (applied : RowsApplied T o s [] (plan.decode.zip sampled) s')

theorem Completed.inv {s' : Scheduler} {plan : StepPlan} {sampled : List Int}
    {results : List StepResult} (h : Completed T o s plan sampled results s') : Inv T o s' := by
  cases h with
  | chunk r rest queue shape more none state inv => exact inv
  | first r rest token queue shape last tokens emits applied => exact applied.inv
  | rows shape running tokens emits applied => exact applied.inv

/-- a chunk in the middle of the prompt keeps the invariant -/
theorem inv_progressed (h : Inv T o s) {r : Nat} {rest : List Nat} (hq : s.prefillQueue = r :: rest)
    (hb : (s.heap r).blockTable.numBlocks = blocksForTokens (chunkEnd o (s.heap r)))
    (hm : chunkEnd o (s.heap r) < (s.heap r).numPromptTokens) :
    Inv T o { s with
      heap := Function.update s.heap r (progressed (s.heap r) (chunkEnd o (s.heap r))) } := by
  have hmem : r ∈ s.prefillQueue := by rw [hq]; exact List.mem_cons_self
  have e : s.admitted = s.running ++ r :: rest := by unfold admitted; rw [hq]
  have hpre := h.prefill r hmem
  have hv := h.valid r (h.lt_nextPtr (Or.inr (by rw [e]; simp)))
  obtain ⟨hout, _⟩ := h.split_out e
  refine h.exchange e rfl (fun x hx _ => hx) (fun x hx _ => hx) (fun hr => absurd hr hout) ?_ rfl
    ⟨hv.prompt_pos, hv.maxNew_pos, hv.fits_seq, hv.fits_pool⟩ rfl (alloc_split h e)
    (h.reservedHeld_le e).2
  intro _
  refine ⟨hpre.state, hpre.reason, hpre.outputs, hpre.slot, hm, ?_, ?_, hpre.reserved⟩
  · show blocksForTokens (chunkEnd o (s.heap r)) ≤ (s.heap r).blockTable.numBlocks
    rw [hb]
  · show (s.heap r).blockTable.numBlocks ≤
      blocksForTokens (chunkEnd o (progressed (s.heap r) (chunkEnd o (s.heap r))))
    rw [hb]
    apply blocksForTokens_mono
    show chunkEnd o (s.heap r)
      ≤ min (chunkEnd o (s.heap r) + o.prefillChunkTokens) (s.heap r).numPromptTokens
    omega

/-- a chunk has a token due exactly when it ends the prompt -/
theorem tokensDue_chunkPlan {plan : StepPlan} {r : Nat} (shape : plan = chunkPlan o s r) :
    s.tokensDue plan = if chunkEnd o (s.heap r) = (s.heap r).numPromptTokens then 1 else 0 := by
  have hp : plan.prefill = some r := by rw [shape]; rfl
  have hend : plan.prefillEnd = chunkEnd o (s.heap r) := by rw [shape]; rfl
  unfold tokensDue finalPrefillChunk
  simp only [hp, hend, beq_iff_eq]

/-- completing the last chunk is applying the first token -/
theorem completeStep_last {plan : StepPlan} {r : Nat} {rest : List Nat}
    (queue : s.prefillQueue = r :: rest) (shape : plan = chunkPlan o s r)
    (last : chunkEnd o (s.heap r) = (s.heap r).numPromptTokens) (token : Int) :
    s.completeStep plan [token]
      = (({ s with
        heap := Function.update s.heap r (progressed (s.heap r) (s.heap r).numPromptTokens)
        prefillQueue := rest } : Scheduler).applySampledToken r token).map
          fun p => ([p.1], p.2) := by
  have hp : plan.prefill = some r := by rw [shape]; rfl
  have ha : plan.aborted = [] := by rw [shape]; rfl
  have hprog : (s.heap r).prefillProgress = plan.prefillBegin := by rw [shape]; rfl
  have hend : plan.prefillEnd = (s.heap r).numPromptTokens := by rw [shape]; exact last
  have hone : [token].length = 1 := rfl
  unfold completeStep progressed
  simp only [ha, abortedResults, hp, check_pos hprog, hend, Option.bind_eq_bind,
    Option.bind_some, Function.update_self, Request.prefillDone, List.nil_append, Option.pure_def,
    queue, List.tail_cons, List.head?_cons, check_pos hone]
  refine (if_pos (decide_eq_true (le_refl (s.heap r).numPromptTokens))).trans ?_
  exact Option.map_eq_bind.symm

/-- completing a chunk in the middle of the prompt -/
theorem completeStep_chunk {plan : StepPlan} {r : Nat} {rest : List Nat}
    (queue : s.prefillQueue = r :: rest) (shape : plan = chunkPlan o s r)
    (more : chunkEnd o (s.heap r) < (s.heap r).numPromptTokens) :
    s.completeStep plan [] = some ([], { s with
      heap := Function.update s.heap r (progressed (s.heap r) (chunkEnd o (s.heap r))) }) := by
  have hp : plan.prefill = some r := by rw [shape]; rfl
  have ha : plan.aborted = [] := by rw [shape]; rfl
  have hprog : (s.heap r).prefillProgress = plan.prefillBegin := by rw [shape]; rfl
  have hend : plan.prefillEnd = chunkEnd o (s.heap r) := by rw [shape]; rfl
  have hhead : s.prefillQueue.head? = some r := by rw [queue]; rfl
  unfold completeStep progressed
  simp only [ha, abortedResults, hp, check_pos hhead, check_pos hprog, hend, Option.bind_eq_bind,
    Option.bind_some, Function.update_self, Request.prefillDone, List.nil_append, Option.pure_def]
  exact if_neg fun hd => Nat.not_le.mpr more (of_decide_eq_true hd)

/-- completing a decode step reports the evictions, then applies the rows -/
theorem completeStep_rows {plan : StepPlan} {sampled : List Int}
    (shape : plan = { decode := plan.decode, aborted := plan.aborted })
    (victims : ∀ r ∈ plan.aborted, r < s.nextPtr ∧ (s.heap r).state = .kFinished ∧
      (s.heap r).finishReason = .kAborted)
    (tokens : sampled.length = plan.decode.length) :
    s.completeStep plan sampled = (s.applyRows (plan.decode.zip sampled)).map
      fun p => ((plan.aborted.map fun r => evictionResult (s.heap r)) ++ p.1, p.2) := by
  have hp : plan.prefill = none := by rw [shape]
  unfold completeStep
  simp only [abortedResults_spec s plan.aborted fun r hr => (victims r hr).2, hp, check_pos tokens,
    Option.bind_eq_bind, Option.bind_some, Option.pure_def]
  exact Option.map_eq_bind.symm

/-- **Completing returns**, given the tokens its contract asks for. -/
theorem completeStep_spec (h : Inv T o s) {plan : StepPlan} (hP : PlanOk o s plan)
    {sampled : List Int} (hlen : sampled.length = s.tokensDue plan) :
    ∃ results s', s.completeStep plan sampled = some (results, s') ∧
      Completed T o s plan sampled results s' := by
  cases hP with
  | prefill r rest queue shape blocks =>
    have hle := chunkEnd_le_prompt (o := o) (q := s.heap r)
    have hdue := tokensDue_chunkPlan (s := s) shape
    by_cases hlast : chunkEnd o (s.heap r) = (s.heap r).numPromptTokens
    · rw [hdue, if_pos hlast] at hlen
      obtain ⟨token, rfl⟩ := List.length_eq_one_iff.mp hlen
      obtain ⟨s', hs, hF⟩ := applyFirst_spec h queue (by rw [blocks, hlast]; rfl) token
      refine ⟨_, s', ?_, .first r rest token queue shape hlast rfl rfl hF⟩
      rw [completeStep_last queue shape hlast, hs]
      rfl
    · rw [hdue, if_neg hlast] at hlen
      have hnil : sampled = [] := List.eq_nil_of_length_eq_zero hlen
      have hm : chunkEnd o (s.heap r) < (s.heap r).numPromptTokens := by omega
      refine ⟨[], _, ?_, .chunk r rest queue shape hm rfl rfl (inv_progressed h queue blocks hm)⟩
      rw [hnil, completeStep_chunk queue shape hm]
  | decode shape running blocks victims =>
    have hdue : s.tokensDue plan = plan.decode.length := by
      unfold tokensDue
      rw [shape]
    rw [hdue] at hlen
    have hfst : (plan.decode.zip sampled).map Prod.fst = plan.decode :=
      List.map_fst_zip (by omega)
    obtain ⟨s', hs, hA⟩ := applyRows_spec (plan.decode.zip sampled) s [] h
      (by rw [hfst]; exact running)
      (fun p hp => blocks p.1 (by rw [← hfst]; exact List.mem_map_of_mem hp))
    refine ⟨_, s', ?_, .rows shape running hlen rfl hA⟩
    rw [completeStep_rows shape victims hlen, hs]
    rfl

/-! ## a new request -/

/-- **Enqueue returns**; an accepted request is queued last, a rejected one leaves no trace -/
theorem enqueue_spec (h : Inv T o s) {q : Request} (hq : WaitingReq q) :
    (∃ e, s.enqueue q = some (.error e)) ∨
    (Valid s.allocator.usableBlocks o q ∧ s.enqueue q = some (.ok { s with
        heap := Function.update s.heap s.nextPtr q
        waiting := s.waiting ++ [s.nextPtr]
        nextPtr := s.nextPtr + 1 })) := by
  unfold enqueue
  simp only [check_pos hq.state, Option.bind_eq_bind, Option.bind_some, Option.pure_def]
  cases hv : s.validateRequest q with
  | error e => exact Or.inl ⟨e, rfl⟩
  | ok u =>
    have hV := (s.validateRequest_ok q).mp hv
    rw [h.options] at hV
    exact Or.inr ⟨hV, rfl⟩

/-- a plan still stands after a new request was queued -/
theorem PlanOk.queued (h : Inv T o s) {plan : StepPlan} (hP : PlanOk o s plan) (q : Request) :
    PlanOk o { s with
      heap := Function.update s.heap s.nextPtr q
      waiting := s.waiting ++ [s.nextPtr]
      nextPtr := s.nextPtr + 1 } plan := by
  have hsame : ∀ r < s.nextPtr, Function.update s.heap s.nextPtr q r = s.heap r :=
    fun r hr => Function.update_of_ne (Nat.ne_of_lt hr) _ _
  cases hP with
  | prefill r rest queue shape blocks =>
    have hr := hsame r (h.lt_nextPtr (Or.inr (List.mem_append_right _ (by rw [queue]; simp))))
    refine .prefill r rest queue ?_ ?_
    · unfold chunkPlan
      simp only [hr]
      exact shape
    · simp only [hr]
      exact blocks
  | decode shape running blocks victims =>
    refine .decode shape running (fun r hr => ?_) (fun r hr => ?_)
    · have hlt := h.lt_nextPtr (Or.inr (List.mem_append_left _ (by rw [running]; exact hr)))
      simp only [hsame r hlt]
      exact blocks r hr
    · obtain ⟨hlt, hv⟩ := victims r hr
      refine ⟨hlt.trans (Nat.lt_succ_self _), ?_⟩
      simp only [hsame r hlt]
      exact hv

end
end Scheduler
end Redline
