import Redline.Sched.Drain

/-!
# How long dedicated prefill steps stall a running decode

In a stretch of calls where `r` keeps running and every completed plan is a prefill chunk
(`Stalling r`), the completed plans are bounded by the requests that can leave the prefill queue.
A slot is free again only when a request finishes, so there are at most
`max_batch - 1 + f` of them, `f` the number of requests that finish in the stretch
(`stall_bound`).  Requests that finish straight out of prefill make room for new ones, and three of
them are enough to pass the bound of `max_batch` prompts (`stall_counterexample`).

`Inv.parted` counts: what left the prefill queue is running or finished.
-/

namespace Redline
open Prog

namespace Scheduler

def numFinished (s : Scheduler) : Nat :=
  s.requests.countP fun r => decide ((s.heap r).state = .kFinished)

/-- the requests that are past their prefill -/
def past (s : Scheduler) : Nat := s.running.length + s.numFinished

/-- chunks done for the head of the prefill queue -/
def headDone (o : SchedulerOptions) (s : Scheduler) : Nat :=
  match s.prefillQueue with
  | [] => 0
  | r :: _ => chunks o (s.heap r).numPromptTokens
      - chunks o ((s.heap r).numPromptTokens - (s.heap r).prefillProgress)

end Scheduler

/-- the contract of a call in a stretch that stalls `r` -/
def Stalling (r : Nat) (w : World) (c : Call) : Prop :=
  w.ok c ∧ r ∈ w.sched.running ∧
    match c with
    | .completeStep _ => ∃ plan ∈ w.plan, plan.isPrefill = true
    | _ => True

instance (r : Nat) (w : World) : (c : Call) → Decidable (Stalling r w c)
  | .enqueue n => inferInstanceAs (Decidable (w.ok (.enqueue n) ∧ r ∈ w.sched.running ∧ True))
  | .planStep => inferInstanceAs (Decidable (w.ok .planStep ∧ r ∈ w.sched.running ∧ True))
  | .completeStep sampled =>
    inferInstanceAs (Decidable (w.ok (.completeStep sampled) ∧ r ∈ w.sched.running ∧
      ∃ plan ∈ w.plan, plan.isPrefill = true))

def Call.completes : Call → Bool
  | .completeStep _ => true
  | _ => false

/-- the number of completed plans -/
def completions (cs : List Call) : Nat := cs.countP Call.completes

theorem completions_cons (c : Call) (cs : List Call) :
    completions (c :: cs) = completions cs + if c.completes then 1 else 0 := List.countP_cons

section
variable {T : Nat} {o : SchedulerOptions} {s s' : Scheduler} {plan : StepPlan}

/-- a request waits, is admitted, or is finished -/
theorem Inv.parted (h : Inv T o s) :
    s.past + s.prefillQueue.length + s.waiting.length = s.nextPtr := by
  have hperm : (s.waiting ++ s.admitted).Perm
      (s.requests.filter fun r => !decide ((s.heap r).state = .kFinished)) := by
    refine (List.perm_ext_iff_of_nodup ?_ ?_).mpr fun r => ?_
    · rw [List.nodup_append]
      refine ⟨?_, h.nodup, fun x hx y hy e => ?_⟩
      · obtain ⟨k, _, hw, _⟩ := h.arrival
        rw [hw]; exact List.nodup_range' ..
      · exact Nat.lt_irrefl y (h.admitted_lt_waiting hy (e ▸ hx))
    · exact List.nodup_range.filter _
    · simp only [List.mem_append, List.mem_filter, Bool.not_eq_true', decide_eq_false_iff_not,
        Scheduler.requests, List.mem_range]
      constructor
      · intro hr
        refine ⟨h.lt_nextPtr hr, ?_⟩
        rcases hr with hr | hr
        · rw [(h.waiting r hr).state]; nofun
        · rcases List.mem_append.mp hr with hr | hr
          · rw [(h.running r hr).state]; nofun
          · rw [(h.prefill r hr).state]; nofun
      · rintro ⟨hr, hst⟩
        by_contra hc
        rw [not_or] at hc
        exact hst (h.finished r hr hc.1 hc.2).state
  have hlen := hperm.length_eq
  have hsum := List.length_eq_countP_add_countP
    (fun r => decide ((s.heap r).state = .kFinished)) (l := s.requests)
  rw [List.length_append, ← List.countP_eq_length_filter] at hlen
  unfold Scheduler.requests at hsum hlen
  rw [List.length_range] at hsum
  unfold Scheduler.past Scheduler.numFinished Scheduler.requests
  have hadm : s.admitted.length = s.running.length + s.prefillQueue.length := List.length_append
  have hneg : (List.range s.nextPtr).countP (fun r => !decide ((s.heap r).state = .kFinished))
      = (List.range s.nextPtr).countP
          fun r => decide ¬ decide ((s.heap r).state = .kFinished) = true := by
    congr 1
    funext r
    simp
  omega

theorem headDone_cons {r : Nat} {rest : List Nat} (hq : s.prefillQueue = r :: rest) :
    s.headDone o = chunks o (s.heap r).numPromptTokens
      - chunks o ((s.heap r).numPromptTokens - (s.heap r).prefillProgress) := by
  unfold Scheduler.headDone; rw [hq]

theorem headDone_nil (hq : s.prefillQueue = []) : s.headDone o = 0 := by
  unfold Scheduler.headDone; rw [hq]

theorem headDone_congr (hq : s'.prefillQueue = s.prefillQueue)
    (hh : ∀ r ∈ s.prefillQueue, s'.heap r = s.heap r) : s'.headDone o = s.headDone o := by
  unfold Scheduler.headDone
  rw [hq]
  cases hp : s.prefillQueue with
  | nil => rfl
  | cons r rest =>
    have hr := hh r (by rw [hp]; exact List.mem_cons_self)
    simp only [hr]

/-- no prompt has more chunks than `max_seq_len` has -/
theorem Inv.chunks_le (h : Inv T o s) {r : Nat} (hr : r < s.nextPtr) :
    chunks o (s.heap r).numPromptTokens ≤ chunks o o.maxSeqLen := by
  have hv := h.valid r hr
  have := hv.maxNew_pos
  have := hv.fits_seq
  exact chunks_mono (by omega)

theorem Inv.headDone_le (h : Inv T o s) :
    s.headDone o ≤ if s.prefillQueue = [] then 0 else chunks o o.maxSeqLen := by
  cases hq : s.prefillQueue with
  | nil => rw [headDone_nil hq]; exact Nat.zero_le _
  | cons r rest =>
    have hr : r < s.nextPtr :=
      h.lt_nextPtr (Or.inr (List.mem_append_right _ (by rw [hq]; exact List.mem_cons_self)))
    rw [headDone_cons hq, if_neg nofun]
    exact (Nat.sub_le _ _).trans (h.chunks_le hr)

/-- queueing leaves the prefill queue alone -/
theorem stall_queued (h : Inv T o s) {q : Request} (h' : Inv T o { s with
      heap := Function.update s.heap s.nextPtr q
      waiting := s.waiting ++ [s.nextPtr]
      nextPtr := s.nextPtr + 1 }) :
    Scheduler.past { s with
      heap := Function.update s.heap s.nextPtr q
      waiting := s.waiting ++ [s.nextPtr]
      nextPtr := s.nextPtr + 1 } = s.past ∧
    Scheduler.headDone o { s with
      heap := Function.update s.heap s.nextPtr q
      waiting := s.waiting ++ [s.nextPtr]
      nextPtr := s.nextPtr + 1 } = s.headDone o := by
  constructor
  · have h1 := h.parted
    have h2 := h'.parted
    simp only [List.length_append, List.length_singleton] at h2
    omega
  · refine headDone_congr rfl fun r hr => ?_
    exact Function.update_of_ne
      (Nat.ne_of_lt (h.lt_nextPtr (Or.inr (List.mem_append_right _ hr)))) _ _

/-- planning moves nothing past its prefill, and keeps the head -/
theorem stall_planned (h : Inv T o s) (hP : Scheduler.Planned T o s plan s') :
    s'.past = s.past ∧ s.headDone o ≤ s'.headDone o := by
  have h1 := h.parted
  have h2 := hP.inv.parted
  have hn := Planned.nextPtr hP
  cases hP with
  | prefill s1 k r rest hP =>
    have hpq : s'.prefillQueue = s.prefillQueue ++ s.waiting.take k :=
      hP.chunk.prefill.trans hP.admissions.prefill
    have hw : s'.waiting = s.waiting.drop k := hP.chunk.waiting.trans hP.admissions.waiting
    have hk := hP.admissions.count
    constructor
    · rw [hpq, hw, List.length_append, List.length_take, List.length_drop] at h2
      omega
    · cases hq : s.prefillQueue with
      | nil => rw [headDone_nil hq]; exact Nat.zero_le _
      | cons x xs =>
        have hx : x ∉ s.waiting.take k := fun hm => Nat.lt_irrefl x
          (h.admitted_lt_waiting (List.mem_append_right _ (by rw [hq]; exact List.mem_cons_self))
            (List.mem_of_mem_take hm))
        have hq1 := hP.admissions.prefill
        rw [hP.queue, hq, List.cons_append, List.cons.injEq] at hq1
        obtain ⟨rfl, _⟩ := hq1
        obtain ⟨bs, n, hg⟩ := hP.chunk.grown
        rw [hP.admissions.frame r hx] at hg
        rw [headDone_cons hq, headDone_cons (hP.chunk.prefill.trans hP.queue), hg]
        exact le_refl _
  | decode _ hD =>
    constructor
    · rw [hD.prefill, hD.waiting] at h2
      rw [hD.queue] at h1
      omega
    · rw [headDone_nil hD.queue]
      exact Nat.zero_le _

/-- a completed chunk advances the head, or takes it past its prefill -/
theorem stall_completed (h : Inv T o s) {sampled : List Int} {results : List StepResult}
    (hC : Scheduler.Completed T o s plan sampled results s') (hp : plan.isPrefill = true) :
    chunks o o.maxSeqLen * s.past + s.headDone o + 1
      ≤ chunks o o.maxSeqLen * s'.past + s'.headDone o := by
  have h1 := h.parted
  have h2 := hC.inv.parted
  have hn := Completed.nextPtr hC
  cases hC with
  | chunk r rest queue shape more none state inv =>
    have hpast : s'.past = s.past := by
      rw [state] at h2 ⊢
      have h2' : _ + s.prefillQueue.length + s.waiting.length = s.nextPtr := h2
      omega
    have hle : chunks o ((s.heap r).numPromptTokens - (s.heap r).prefillProgress)
        ≤ chunks o (s.heap r).numPromptTokens := chunks_mono (Nat.sub_le _ _)
    have he : chunkEnd o (s.heap r) = (s.heap r).prefillProgress + o.prefillChunkTokens := by
      unfold chunkEnd at more ⊢; omega
    have hsub : (s.heap r).numPromptTokens - (s.heap r).prefillProgress
        = (s.heap r).numPromptTokens - chunkEnd o (s.heap r) + o.prefillChunkTokens := by omega
    have hstep := chunks_add h.tuned.chunk_pos
      ((s.heap r).numPromptTokens - chunkEnd o (s.heap r))
    have hhead : s'.headDone o = chunks o (s.heap r).numPromptTokens
        - chunks o ((s.heap r).numPromptTokens - chunkEnd o (s.heap r)) := by
      have hr : s'.heap r = progressed (s.heap r) (chunkEnd o (s.heap r)) := by
        rw [state]; exact Function.update_self ..
      have hq : s'.prefillQueue = r :: rest := by rw [state]; exact queue
      rw [headDone_cons hq, hr]
      rfl
    rw [hpast, headDone_cons queue, hhead, hsub, hstep]
    rw [hsub, hstep] at hle
    omega
  | first r rest token queue shape last tokens emits applied =>
    have hr : r ∈ s.prefillQueue := by rw [queue]; exact List.mem_cons_self
    have hlt := (h.prefill r hr).progress
    have hpos : 0 < chunks o ((s.heap r).numPromptTokens - (s.heap r).prefillProgress) :=
      chunks_pos h.tuned.chunk_pos (by omega)
    have hC' := h.chunks_le (h.lt_nextPtr (Or.inr (List.mem_append_right _ hr)))
    have hpos' : 0 < chunks o o.maxSeqLen :=
      hpos.trans_le ((chunks_mono (Nat.sub_le _ _)).trans hC')
    have hpast : s'.past = s.past + 1 := by
      rw [applied.prefill, applied.waiting] at h2
      rw [queue, List.length_cons] at h1
      omega
    rw [hpast, headDone_cons queue, Nat.mul_add, Nat.mul_one]
    omega
  | rows shape running tokens emits applied =>
    rw [shape] at hp
    cases hp

/-- the run lemma: completed chunks are paid for by requests past their prefill -/
theorem stall_run {r : Nat} (cs : List Call) : ∀ w : World, World.Reach T o w →
    Legal World.step (Stalling r) w cs →
    ∃ w', run World.step w cs = some w' ∧ World.Reach T o w' ∧
      completions cs + (chunks o o.maxSeqLen * w.sched.past + w.sched.headDone o)
        ≤ chunks o o.maxSeqLen * w'.sched.past + w'.sched.headDone o := by
  induction cs with
  | nil => exact fun w h _ => ⟨w, rfl, h, by simp [completions]⟩
  | cons c cs ih =>
    intro w h hL
    obtain ⟨⟨hok, _, hplan⟩, hL'⟩ := hL
    obtain ⟨w1, hs1, h1, hS1⟩ := World.step_spec h c hok
    obtain ⟨w2, hr2, h2, hle⟩ := ih w1 h1 (hL' w1 hs1)
    refine ⟨w2, by rw [run_cons, hs1]; exact hr2, h2, ?_⟩
    cases hS1 with
    | rejected n => exact hle
    | queued n valid =>
      obtain ⟨hp, hh⟩ := stall_queued h.inv h1.inv
      rw [hp, hh] at hle
      exact hle
    | planned plan s hP =>
      obtain ⟨hp, hh⟩ := stall_planned h.inv hP
      rw [hp] at hle
      have hle' : completions (.planStep :: cs)
          + (chunks o o.maxSeqLen * w.sched.past + s.headDone o) ≤ _ := hle
      omega
    | completed plan sampled results s stands hC =>
      obtain ⟨plan', hplan', hpre⟩ := hplan
      rw [Option.mem_def, stands, Option.some.injEq] at hplan'
      rw [← hplan'] at hpre
      have hone := stall_completed h.inv hC hpre
      have hle' : completions cs + (chunks o o.maxSeqLen * s.past + s.headDone o) ≤ _ := hle
      rw [completions_cons, if_pos (show (Call.completeStep sampled).completes = true from rfl)]
      omega

end

/-- **The stall is bounded by the requests that finish in it.** -/
theorem stall_bound (T : Nat) (o : SchedulerOptions) (ha : Scheduler.ConstructorAsserts T o)
    (cs : List Call) (hL : Legal World.step World.ok (World.init T o) cs) (w : World)
    (hw : run World.step (World.init T o) cs = some w) (r : Nat) (ds : List Call)
    (hD : Legal World.step (Stalling r) w ds) :
    ∃ w', run World.step w ds = some w' ∧ completions ds
      ≤ (o.maxBatch - 1 + (w'.sched.numFinished - w.sched.numFinished))
        * chunks o o.maxSeqLen := by
  obtain ⟨w1, hr1, h1⟩ := World.reach_run (World.Reach.init (World.tuned_of_asserts ha)) cs hL
  obtain rfl : w = w1 := Option.some.inj (hw.symm.trans hr1)
  obtain ⟨w', hr, h', hle⟩ := stall_run ds w h1 hD
  refine ⟨w', hr, ?_⟩
  cases ds with
  | nil => exact Nat.zero_le _
  | cons d ds =>
    have hpos : 0 < w.sched.running.length := List.length_pos_of_mem hD.1.2.1
    have hhead := h'.inv.headDone_le
    have hcount := h'.inv.count
    have hadm : w'.sched.admitted.length
        = w'.sched.running.length + w'.sched.prefillQueue.length := List.length_append
    -- the requests past their prefill, and the head, fit into the batch
    obtain ⟨e, he, hbound⟩ : ∃ e, w'.sched.headDone o ≤ e * chunks o o.maxSeqLen ∧
        w'.sched.running.length + e ≤ o.maxBatch := by
      by_cases hq : w'.sched.prefillQueue = []
      · exact ⟨0, by rw [if_pos hq] at hhead; omega, by omega⟩
      · have := List.length_pos_of_ne_nil hq
        exact ⟨1, by rw [if_neg hq] at hhead; omega, by omega⟩
    have hpast : w'.sched.past + e ≤ w.sched.past
        + (o.maxBatch - 1 + (w'.sched.numFinished - w.sched.numFinished)) := by
      unfold Scheduler.past
      omega
    have hmul := Nat.mul_le_mul_right (chunks o o.maxSeqLen) hpast
    rw [Nat.add_mul, Nat.add_mul] at hmul
    rw [Nat.mul_comm _ w.sched.past, Nat.mul_comm _ w'.sched.past] at hle
    omega

/-! ## arrivals that finish straight out of prefill -/

def stallOptions : SchedulerOptions := { maxBatch := 2, prefillChunkTokens := 16, maxSeqLen := 16 }

/-- a long request starts to decode -/
def stallStart : List Call :=
  [.enqueue { promptTokens := [1], maxNewTokens := 10 }, .planStep, .completeStep [5]]

/-- requests for one token each come in, one after the other -/
def stallArrivals (n : Nat) : List Call :=
  (List.replicate n [.enqueue { promptTokens := [1], maxNewTokens := 1 }, .planStep,
    .completeStep [5]]).flatten

/-- the state in which the arrivals begin -/
def stallWorld : World := (run World.step (World.init 9 stallOptions) stallStart).get (by decide)

theorem stall_bound_example :
    ∃ w', run World.step stallWorld (stallArrivals 3) = some w' ∧
      completions (stallArrivals 3)
        ≤ (stallOptions.maxBatch - 1 + (w'.sched.numFinished - stallWorld.sched.numFinished))
          * chunks stallOptions stallOptions.maxSeqLen :=
  stall_bound 9 stallOptions (by decide +kernel) stallStart (by decide) stallWorld
    (Option.some_get _).symm 0 (stallArrivals 3) (by decide)

/-- the bound `max_batch * ceil(max_seq_len / prefill_chunk_tokens)` does not hold -/
theorem stall_counterexample :
    ¬ ∀ (T : Nat) (o : SchedulerOptions), Scheduler.ConstructorAsserts T o →
      ∀ cs, Legal World.step World.ok (World.init T o) cs →
      ∀ w, run World.step (World.init T o) cs = some w →
      ∀ r ds, Legal World.step (Stalling r) w ds →
        completions ds ≤ o.maxBatch * chunks o o.maxSeqLen := by
  intro h
  have hle := h 9 stallOptions (by decide +kernel) stallStart (by decide) stallWorld
    (Option.some_get _).symm 0 (stallArrivals 3) (by decide)
  exact absurd hle (by decide)

end Redline
