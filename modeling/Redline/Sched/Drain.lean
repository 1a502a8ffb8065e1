import Redline.Sched.Run

/-!
# Progress and bounded drain

`plan_nonempty`: while a request is unfinished, `PlanStep` plans something.  The point is an idle
pool: what `ValidateRequest` let in, `CanAdmit` admits (`admitsHead_of_idle`).

`todo o q` is the work left for `q`: its prefill chunks and its tokens.  No step adds any, and a
completed step takes some away, so that `pending`, the work left for all requests, bounds the steps
(`pending_step`).
-/

namespace Redline
open Prog Ledger

/-- prefill chunks of `n` tokens -/
def chunks (o : SchedulerOptions) (n : Nat) : Nat :=
  (n + o.prefillChunkTokens - 1) / o.prefillChunkTokens

/-- the steps one request can take part in, from its arrival on -/
def budget (o : SchedulerOptions) (q : Request) : Nat :=
  if q.state = .kFinished then 0 else chunks o q.numPromptTokens + q.maxNewTokens.toNat

/-- the steps left for one request -/
def todo (o : SchedulerOptions) (q : Request) : Nat :=
  if q.state = .kFinished then 0
  else chunks o (q.numPromptTokens - q.prefillProgress)
    + (q.maxNewTokens.toNat - q.numOutputTokens)

namespace Scheduler

/-- every request object there is -/
def requests (s : Scheduler) : List Nat := List.range s.nextPtr

def pending (o : SchedulerOptions) (s : Scheduler) : Nat := held (todo o) s.heap s.requests

/-- the sum over the unfinished requests of `ceil(prompt_len / chunk) + max_new_tokens` -/
def totalBudget (o : SchedulerOptions) (s : Scheduler) : Nat := held (budget o) s.heap s.requests

/-- some request is waiting, prefilling or running -/
def Busy (s : Scheduler) : Prop := s.waiting ≠ [] ∨ s.prefillQueue ≠ [] ∨ s.running ≠ []

end Scheduler

section
variable {o : SchedulerOptions} {q : Request}

theorem chunks_mono {m n : Nat} (h : m ≤ n) : chunks o m ≤ chunks o n := by
  unfold chunks
  exact Nat.div_le_div_right (by omega)

/-- a full chunk and the rest -/
theorem chunks_add (hc : 1 ≤ o.prefillChunkTokens) (n : Nat) :
    chunks o (n + o.prefillChunkTokens) = chunks o n + 1 := by
  unfold chunks
  have e : n + o.prefillChunkTokens + o.prefillChunkTokens - 1
      = n + o.prefillChunkTokens - 1 + o.prefillChunkTokens := by omega
  rw [e, Nat.add_div_right _ hc]

theorem chunks_pos (hc : 1 ≤ o.prefillChunkTokens) {n : Nat} (h : 0 < n) : 0 < chunks o n := by
  unfold chunks
  exact Nat.div_pos (by omega) hc

theorem todo_le_budget : todo o q ≤ budget o q := by
  unfold todo budget
  split
  · exact le_refl _
  · have := chunks_mono (o := o) (Nat.sub_le q.numPromptTokens q.prefillProgress)
    omega

theorem todo_finished (h : q.state = .kFinished) : todo o q = 0 := if_pos h

theorem todo_unfinished (h : q.state ≠ .kFinished) :
    todo o q = chunks o (q.numPromptTokens - q.prefillProgress)
      + (q.maxNewTokens.toNat - q.numOutputTokens) := if_neg h

/-- blocks, reservations and slots are no work -/
theorem todo_grown {q' : Request} (h : Grown q q') : todo o q' = todo o q := by
  obtain ⟨bs, n, rfl⟩ := h
  rfl

theorem todo_admitted (h : q.state = .kWaiting) (slot : Int) :
    todo o (admittedReq o q slot) = todo o q := by
  have h1 : (admittedReq o q slot).state ≠ .kFinished := nofun
  rw [todo_unfinished h1, todo_unfinished (by rw [h]; nofun)]
  rfl

/-- a chunk in the middle of the prompt -/
theorem todo_progressed (hc : 1 ≤ o.prefillChunkTokens) (hs : q.state = .kPrefill)
    (hm : chunkEnd o q < q.numPromptTokens) :
    todo o (progressed q (chunkEnd o q)) < todo o q := by
  have he : chunkEnd o q = q.prefillProgress + o.prefillChunkTokens := by
    unfold chunkEnd at hm ⊢; omega
  have hsub : q.numPromptTokens - q.prefillProgress
      = q.numPromptTokens - chunkEnd o q + o.prefillChunkTokens := by omega
  have hq : q.state ≠ .kFinished := by rw [hs]; nofun
  have hq' : (progressed q (chunkEnd o q)).state ≠ .kFinished := hq
  rw [todo_unfinished hq, todo_unfinished hq', hsub, chunks_add hc]
  show chunks o (q.numPromptTokens - chunkEnd o q) + (q.maxNewTokens.toNat - q.numOutputTokens) < _
  omega

/-- a token -/
theorem todo_sampled (hlt : (q.numOutputTokens : Int) < q.maxNewTokens) (hs : q.state ≠ .kFinished)
    (token : Int) : todo o (sampledReq o q token) < todo o q := by
  have hq := todo_unfinished (o := o) hs
  by_cases hn : reasonOf o q token = .kNone
  · have hq' : (sampledReq o q token).state ≠ .kFinished := by rw [sampledReq_next hn]; nofun
    rw [todo_unfinished hq', sampledReq_next hn, hq]
    show chunks o (q.numPromptTokens - q.prefillProgress)
      + (q.maxNewTokens.toNat - (appendedReq q token).numOutputTokens) < _
    rw [numOutputTokens_appendedReq]
    omega
  · rw [todo_finished (sampledReq_finished hn).state, hq]
    omega

end

section
variable {T : Nat} {o : SchedulerOptions} {s s' : Scheduler} {plan : StepPlan}

theorem Inv.outputs_lt (h : Inv T o s) {r : Nat} (hr : r < s.nextPtr)
    (hst : (s.heap r).state ≠ .kFinished) :
    ((s.heap r).numOutputTokens : Int) < (s.heap r).maxNewTokens := by
  have hmax := (h.valid r hr).maxNew_pos
  by_cases hw : r ∈ s.waiting
  · unfold Request.numOutputTokens
    rw [(h.waiting r hw).outputs]
    exact hmax
  · by_cases hm : r ∈ s.admitted
    · rcases List.mem_append.mp hm with hm | hm
      · exact (h.running r hm).outputs_lt
      · unfold Request.numOutputTokens
        rw [(h.prefill r hm).outputs]
        exact hmax
    · exact absurd (h.finished r hr hw hm).state hst

theorem Inv.todo_pos (h : Inv T o s) {r : Nat} (hr : r < s.nextPtr)
    (hst : (s.heap r).state ≠ .kFinished) : 0 < todo o (s.heap r) := by
  have hlt := h.outputs_lt hr hst
  rw [todo_unfinished hst]
  omega

/-- no work is left exactly when every request is finished -/
theorem Inv.pending_eq_zero (h : Inv T o s) (h0 : s.pending o = 0) :
    ∀ r < s.nextPtr, (s.heap r).state = .kFinished := by
  intro r hr
  by_contra hst
  have hpos := h.todo_pos hr hst
  have hmem : todo o (s.heap r) ∈ s.requests.map fun i => todo o (s.heap i) :=
    List.mem_map_of_mem (f := fun i => todo o (s.heap i)) (List.mem_range.mpr hr)
  have hle := List.single_le_sum (fun x _ => Nat.zero_le x) _ hmem
  unfold Scheduler.pending held at h0
  omega

/-! ## something is planned -/

/-- an idle pool admits the head -/
theorem admitsHead_of_idle (h : Inv T o s) (hb : 1 ≤ o.maxBatch) (hr : s.running = [])
    (hq : s.prefillQueue = []) (hw : s.waiting ≠ []) : s.admitsHead = true := by
  have hadm : s.admitted = [] := by unfold Scheduler.admitted; rw [hr, hq]; rfl
  have hres : s.allocator.reserved = 0 := by rw [h.reserved, hadm]; rfl
  have hfree : (s.allocator.freeBlocks : Int) = s.allocator.usableBlocks := by
    have hu := h.uncommitted_add
    unfold Scheduler.uncommitted at hu
    rw [hadm, held_nil, hres] at hu
    omega
  unfold Scheduler.admitsHead
  cases hwr : s.waiting with
  | nil => exact absurd hwr hw
  | cons r rest =>
    have hv := h.valid r (h.lt_nextPtr (Or.inl (by rw [hwr]; exact List.mem_cons_self)))
    have hfit := hv.fits_pool
    have hroom : s.numRunning < s.options.maxBatch := by
      unfold Scheduler.numRunning
      rw [hr, hq, h.options]
      exact hb
    have hcan : s.canAdmit (s.heap r) = true := by
      unfold FitsPool at hfit
      unfold Scheduler.canAdmit
      rw [h.options]
      cases hp : o.admissionPolicy with
      | kReserveFull =>
        rw [hp] at hfit
        simp only [BlockAllocator.canReserve, hres, hfree, decide_eq_true_eq]
        omega
      | kWatermark =>
        rw [hp] at hfit
        simp only [hres, hfree, Scheduler.floor, h.options, sub_zero, decide_eq_true_eq]
        exact hfit
    simp only [hroom, hcan, decide_true, Bool.and_self]

/-- **A busy scheduler plans something.** -/
theorem Planned.nonempty (h : Inv T o s) (hb : 1 ≤ o.maxBatch) (hbusy : s.Busy)
    (hP : Scheduler.Planned T o s plan s') :
    plan.prefill ≠ none ∨ plan.decode ≠ [] ∨ plan.aborted ≠ [] := by
  cases hP with
  | prefill s1 k r rest hP => exact Or.inl (by rw [hP.shape]; nofun)
  | decode blocked hD =>
    by_cases hr : s.running = []
    · have hw : s.waiting ≠ [] := by
        rcases hbusy with hw | hq | hr'
        · exact hw
        · exact absurd hD.queue hq
        · exact absurd hr hr'
      rw [admitsHead_of_idle h hb hr hD.queue hw] at blocked
      cases blocked
    · right
      by_contra hc
      rw [not_or, not_not, not_not] at hc
      rw [hD.cut, hc.1, hc.2] at hr
      exact hr rfl

/-! ## every step works -/

theorem Inv.busy (h : Inv T o s) {r : Nat} (hr : r < s.nextPtr)
    (hst : (s.heap r).state ≠ .kFinished) : s.Busy := by
  by_cases hw : r ∈ s.waiting
  · exact Or.inl (List.ne_nil_of_mem hw)
  · by_cases hm : r ∈ s.admitted
    · rcases List.mem_append.mp hm with hm | hm
      · exact Or.inr (Or.inr (List.ne_nil_of_mem hm))
      · exact Or.inr (Or.inl (List.ne_nil_of_mem hm))
    · exact absurd (h.finished r hr hw hm).state hst

theorem Planned.nextPtr (hP : Scheduler.Planned T o s plan s') : s'.nextPtr = s.nextPtr := by
  cases hP with
  | prefill s1 k r rest hP => exact hP.chunk.nextPtr.trans hP.admissions.nextPtr
  | decode _ hD => exact hD.nextPtr

/-- planning adds no work, and an abort takes some away -/
theorem Planned.todo_le (h : Inv T o s) (hP : Scheduler.Planned T o s plan s') :
    (∀ r, todo o (s'.heap r) ≤ todo o (s.heap r)) ∧
      ∀ r ∈ plan.aborted, todo o (s'.heap r) < todo o (s.heap r) := by
  cases hP with
  | prefill s1 k r rest hP =>
    refine ⟨fun x => ?_, fun x hx => ?_⟩
    · have h1 : todo o (s'.heap x) = todo o (s1.heap x) := by
        by_cases hx : x = r
        · rw [hx]; exact todo_grown hP.chunk.grown
        · rw [hP.chunk.frame x hx]
      have h2 : todo o (s1.heap x) = todo o (s.heap x) := by
        by_cases hx : x ∈ s.waiting.take k
        · obtain ⟨slot, hs⟩ := hP.admissions.taken x hx
          rw [hs, todo_admitted (h.waiting x (List.mem_of_mem_take hx)).state]
        · rw [hP.admissions.frame x hx]
      rw [h1, h2]
    · rw [hP.shape] at hx
      exact absurd hx List.not_mem_nil
  | decode _ hD =>
    have hab : ∀ r ∈ plan.aborted, todo o (s'.heap r) < todo o (s.heap r) := by
      intro r hr
      have hm : r ∈ s.running := by
        rw [hD.cut]; exact List.mem_append_right _ (List.mem_reverse.mpr hr)
      rw [hD.evictions r hr, todo_finished (evicted_finished _).state]
      exact h.todo_pos (h.lt_nextPtr (Or.inr (List.mem_append_left _ hm)))
        (by rw [(h.running r hm).state]; nofun)
    refine ⟨fun x => ?_, hab⟩
    by_cases hx : x ∈ s.running
    · rw [hD.cut, List.mem_append, List.mem_reverse] at hx
      rcases hx with hx | hx
      · rw [todo_grown (hD.rows x hx).1]
      · exact (hab x hx).le
    · rw [hD.frame x hx]

/-- completing adds no work, and takes some away from what was scheduled -/
theorem Completed.todo_le (h : Inv T o s) {sampled : List Int} {results : List StepResult}
    (hC : Scheduler.Completed T o s plan sampled results s') :
    (∀ r, todo o (s'.heap r) ≤ todo o (s.heap r)) ∧
      ∀ r, plan.prefill = some r ∨ r ∈ plan.decode → todo o (s'.heap r) < todo o (s.heap r) := by
  cases hC with
  | chunk r rest queue shape more none state inv =>
    have hpre := h.prefill r (by rw [queue]; exact List.mem_cons_self)
    have hlt : todo o (s'.heap r) < todo o (s.heap r) := by
      rw [state]
      show todo o (Function.update s.heap r _ r) < _
      rw [Function.update_self]
      exact todo_progressed h.tuned.chunk_pos hpre.state more
    refine ⟨fun x => ?_, fun x hx => ?_⟩
    · by_cases hx : x = r
      · rw [hx]; exact hlt.le
      · rw [state]
        show todo o (Function.update s.heap r _ x) ≤ _
        rw [Function.update_of_ne hx]
    · rw [shape] at hx
      rcases hx with hx | hx
      · rw [← Option.some.inj hx]; exact hlt
      · exact absurd hx List.not_mem_nil
  | first r rest token queue shape last tokens emits applied =>
    have hpre := h.prefill r (by rw [queue]; exact List.mem_cons_self)
    have hr : r < s.nextPtr :=
      h.lt_nextPtr (Or.inr (List.mem_append_right _ (by rw [queue]; exact List.mem_cons_self)))
    have hst : (s.heap r).state ≠ .kFinished := by rw [hpre.state]; nofun
    have hprog : todo o (progressed (s.heap r) (s.heap r).numPromptTokens) ≤ todo o (s.heap r) := by
      have hst' : (progressed (s.heap r) (s.heap r).numPromptTokens).state ≠ .kFinished := hst
      rw [todo_unfinished hst', todo_unfinished hst]
      apply Nat.add_le_add_right
      apply chunks_mono
      show (s.heap r).numPromptTokens - (s.heap r).numPromptTokens ≤ _
      omega
    have hlt : todo o (s'.heap r) < todo o (s.heap r) := by
      rw [applied.heap, Function.update_self]
      exact (todo_sampled (q := progressed (s.heap r) (s.heap r).numPromptTokens)
        (h.outputs_lt hr hst) hst token).trans_le hprog
    refine ⟨fun x => ?_, fun x hx => ?_⟩
    · by_cases hx : x = r
      · rw [hx]; exact hlt.le
      · rw [applied.heap, Function.update_of_ne hx]
    · rw [shape] at hx
      rcases hx with hx | hx
      · rw [← Option.some.inj hx]; exact hlt
      · exact absurd hx List.not_mem_nil
  | rows shape running tokens emits applied =>
    have hfst : (plan.decode.zip sampled).map Prod.fst = plan.decode :=
      List.map_fst_zip (by omega)
    have hdec : ∀ r ∈ plan.decode, todo o (s'.heap r) < todo o (s.heap r) := by
      intro r hr
      have hm : r ∈ s.running := by rw [running]; exact hr
      rw [← hfst] at hr
      obtain ⟨p, hp, rfl⟩ := List.mem_map.mp hr
      rw [applied.applied p hp]
      exact todo_sampled (h.running p.1 hm).outputs_lt (by rw [(h.running p.1 hm).state]; nofun) p.2
    refine ⟨fun x => ?_, fun x hx => ?_⟩
    · by_cases hx : x ∈ plan.decode
      · exact (hdec x hx).le
      · rw [applied.frame x (by rw [hfst]; exact hx)]
    · rw [shape] at hx
      exact hdec x (hx.resolve_left nofun)

theorem Completed.nextPtr {sampled : List Int} {results : List StepResult}
    (hC : Scheduler.Completed T o s plan sampled results s') : s'.nextPtr = s.nextPtr := by
  cases hC with
  | chunk r rest queue shape more none state inv => rw [state]
  | first r rest token queue shape last tokens emits applied => exact applied.nextPtr
  | rows shape running tokens emits applied => exact applied.nextPtr

/-- whatever the plan schedules is a request there is -/
theorem PlanOk.scheduled_lt (h : Inv T o s) (hP : Scheduler.PlanOk o s plan) {r : Nat}
    (hr : plan.prefill = some r ∨ r ∈ plan.decode) : r < s.nextPtr := by
  apply h.lt_nextPtr
  right
  cases hP with
  | prefill r' rest queue shape blocks =>
    rw [shape] at hr
    rcases hr with hr | hr
    · rw [← Option.some.inj hr]
      exact List.mem_append_right _ (by rw [queue]; exact List.mem_cons_self)
    · exact absurd hr List.not_mem_nil
  | decode shape running blocks victims =>
    rw [shape] at hr
    exact List.mem_append_left _ (by rw [running]; exact hr.resolve_left nofun)

/-- **A completed step works.** -/
theorem pending_step (h : Inv T o s) (hb : 1 ≤ o.maxBatch) {s1 : Scheduler} {sampled : List Int}
    {results : List StepResult} (hP : Scheduler.Planned T o s plan s1)
    (hC : Scheduler.Completed T o s1 plan sampled results s') :
    s'.pending o ≤ s.pending o - 1 := by
  have hle : ∀ r, todo o (s'.heap r) ≤ todo o (s.heap r) := fun r =>
    ((Completed.todo_le hP.inv hC).1 r).trans ((Planned.todo_le h hP).1 r)
  have hreq : s'.requests = s.requests := by
    unfold Scheduler.requests; rw [Completed.nextPtr hC, Planned.nextPtr hP]
  unfold Scheduler.pending
  rw [hreq]
  by_cases hall : ∀ r < s.nextPtr, (s.heap r).state = .kFinished
  · -- nothing is left
    have h0 : held (todo o) s.heap s.requests = 0 :=
      held_zero fun r hr => todo_finished (hall r (List.mem_range.mp hr))
    have := held_le_held (f := todo o) (g := todo o) (l := s.requests) fun r _ => hle r
    omega
  · rw [not_forall] at hall
    obtain ⟨r0, hall⟩ := hall
    rw [Classical.not_imp] at hall
    have hbusy := h.busy hall.1 hall.2
    have hex : ∃ r ∈ s.requests, todo o (s'.heap r) < todo o (s.heap r) := by
      have hsched : ∀ r, plan.prefill = some r ∨ r ∈ plan.decode →
          ∃ r ∈ s.requests, todo o (s'.heap r) < todo o (s.heap r) := by
        intro r hr
        have hlt := PlanOk.scheduled_lt hP.inv (hP.planOk h) hr
        rw [Planned.nextPtr hP] at hlt
        exact ⟨r, List.mem_range.mpr hlt,
          ((Completed.todo_le hP.inv hC).2 r hr).trans_le ((Planned.todo_le h hP).1 r)⟩
      rcases Planned.nonempty h hb hbusy hP with hp | hd | ha
      · obtain ⟨r, hr⟩ := Option.ne_none_iff_exists'.mp hp
        exact hsched r (Or.inl hr)
      · obtain ⟨r, hr⟩ := List.exists_mem_of_ne_nil _ hd
        exact hsched r (Or.inr hr)
      · obtain ⟨r, hr⟩ := List.exists_mem_of_ne_nil _ ha
        have hlt := (Planned.todo_le h hP).2 r hr
        have hnf : todo o (s.heap r) ≠ 0 := by omega
        have hrn : r < s.nextPtr := by
          cases hP.planOk h with
          | prefill r' rest queue shape blocks => rw [shape] at hr; exact absurd hr List.not_mem_nil
          | decode shape running blocks victims =>
            rw [← Planned.nextPtr hP]; exact (victims r hr).1
        exact ⟨r, List.mem_range.mpr hrn, ((Completed.todo_le hP.inv hC).1 r).trans_lt hlt⟩
    have := held_lt_held (f := todo o) (l := s.requests) (fun r _ => hle r) hex
    omega

end

/-! ## draining -/

/-- plan and complete, once for each list of sampled tokens -/
def drainCalls (rounds : List (List Int)) : List Call :=
  rounds.flatMap fun sampled => [.planStep, .completeStep sampled]

/-- one round of a drain -/
theorem drain_round {T : Nat} {o : SchedulerOptions} {w : World} (h : World.Reach T o w)
    (hb : 1 ≤ o.maxBatch) {sampled : List Int} {cs : List Call}
    (hL : Legal World.step World.ok w (.planStep :: .completeStep sampled :: cs)) :
    ∃ w', run World.step w [.planStep, .completeStep sampled] = some w' ∧ World.Reach T o w' ∧
      Legal World.step World.ok w' cs ∧ w'.sched.pending o ≤ w.sched.pending o - 1 := by
  obtain ⟨_, hL1⟩ := hL
  obtain ⟨w1, hs1, h1, hS1⟩ := World.step_spec h .planStep trivial
  obtain ⟨hok, hL2⟩ := hL1 w1 hs1
  obtain ⟨w2, hs2, h2, hS2⟩ := World.step_spec h1 (.completeStep sampled) hok
  refine ⟨w2, ?_, h2, hL2 w2 hs2, ?_⟩
  · rw [run_cons, hs1, Option.bind_some, run_cons, hs2]
    rfl
  · cases hS1 with
    | planned plan s hP =>
      cases hS2 with
      | completed plan' sampled results s' stands hC =>
        obtain rfl : plan = plan' := Option.some.inj stands
        exact pending_step h.inv hb hP hC

theorem drain_rounds {T : Nat} {o : SchedulerOptions} (hb : 1 ≤ o.maxBatch)
    (rounds : List (List Int)) : ∀ w, World.Reach T o w →
      Legal World.step World.ok w (drainCalls rounds) →
      ∃ w', run World.step w (drainCalls rounds) = some w' ∧ World.Reach T o w' ∧
        w'.sched.pending o ≤ w.sched.pending o - rounds.length := by
  induction rounds with
  | nil => exact fun w h _ => ⟨w, rfl, h, le_refl _⟩
  | cons sampled rounds ih =>
    intro w h hL
    obtain ⟨w1, hr1, h1, hL1, hle1⟩ := drain_round h hb hL
    obtain ⟨w2, hr2, h2, hle2⟩ := ih w1 h1 hL1
    refine ⟨w2, ?_, h2, ?_⟩
    · show run World.step w ([.planStep, .completeStep sampled] ++ drainCalls rounds) = some w2
      rw [run_append, hr1]
      exact hr2
    · rw [List.length_cons]
      omega

/-- **Progress and bounded drain.**  In every state a legal run reaches, a busy scheduler plans
something, and enough completed steps finish every request. -/
theorem progress_and_drain (T : Nat) (o : SchedulerOptions)
    (ha : Scheduler.ConstructorAsserts T o) (cs : List Call)
    (hL : Legal World.step World.ok (World.init T o) cs) :
    ∃ w, run World.step (World.init T o) cs = some w ∧
      (w.sched.Busy → ∃ plan s, w.sched.planStep = some (plan, s) ∧
        (plan.prefill ≠ none ∨ plan.decode ≠ [] ∨ plan.aborted ≠ [])) ∧
      ∀ rounds, Legal World.step World.ok w (drainCalls rounds) →
        w.sched.totalBudget o ≤ rounds.length →
        ∃ w', run World.step w (drainCalls rounds) = some w' ∧
          ∀ r < w'.sched.nextPtr, (w'.sched.heap r).state = .kFinished := by
  have hb : 1 ≤ o.maxBatch := ha.2.1
  obtain ⟨w, hr, hw⟩ := World.reach_run (World.Reach.init (World.tuned_of_asserts ha)) cs hL
  refine ⟨w, hr, fun hbusy => ?_, fun rounds hL' hlen => ?_⟩
  · obtain ⟨plan, s, hs, hP⟩ := Scheduler.planStep_spec hw.inv
    exact ⟨plan, s, hs, Planned.nonempty hw.inv hb hbusy hP⟩
  · obtain ⟨w', hr', hw', hle⟩ := drain_rounds hb rounds w hw hL'
    refine ⟨w', hr', hw'.inv.pending_eq_zero ?_⟩
    have hbudget : w.sched.pending o ≤ w.sched.totalBudget o :=
      held_le_held fun _ _ => todo_le_budget
    omega

/-- a drain of two requests on a pool for one of them -/
theorem progress_and_drain_example :
    ∃ w, run World.step (World.init 2 { maxBatch := 2, maxSeqLen := 16 })
        [.enqueue { promptTokens := [1], maxNewTokens := 1 },
          .enqueue { promptTokens := [1, 2], maxNewTokens := 1 }] = some w ∧
      (w.sched.Busy → ∃ plan s, w.sched.planStep = some (plan, s) ∧
        (plan.prefill ≠ none ∨ plan.decode ≠ [] ∨ plan.aborted ≠ [])) ∧
      ∀ rounds, Legal World.step World.ok w (drainCalls rounds) →
        w.sched.totalBudget { maxBatch := 2, maxSeqLen := 16 } ≤ rounds.length →
        ∃ w', run World.step w (drainCalls rounds) = some w' ∧
          ∀ r < w'.sched.nextPtr, (w'.sched.heap r).state = .kFinished :=
  progress_and_drain 2 { maxBatch := 2, maxSeqLen := 16 } (by decide +kernel)
    [.enqueue { promptTokens := [1], maxNewTokens := 1 },
      .enqueue { promptTokens := [1, 2], maxNewTokens := 1 }]
    (by decide)

end Redline
