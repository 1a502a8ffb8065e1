import Redline.Sched.Run

/-!
# What a step does to one request

Planning leaves the sequence of a request alone (`Planned.carried`) and only appends to its block
table, unless it evicts it (`Planned.table`).  Completing gives every scheduled request its chunk
or its token, and leaves all others as they are (`Completed.cases`).
-/

namespace Redline
open Prog

/-- what the caller asked for -/
def Request.asked (q : Request) : NewRequest :=
  { id := q.id
    promptTokens := q.promptTokens
    maxNewTokens := q.maxNewTokens
    ignoreEos := q.ignoreEos
    forcedTokens := q.forcedTokens }

/-- the sequence stays as it is -/
structure Carried (q q' : Request) : Prop where
  asked : q'.asked = q.asked
  outputs : q'.outputTokens = q.outputTokens
  progress : q'.prefillProgress = q.prefillProgress

theorem Carried.refl (q : Request) : Carried q q := ⟨rfl, rfl, rfl⟩

theorem Carried.trans {q q1 q2 : Request} (h : Carried q q1) (h' : Carried q1 q2) : Carried q q2 :=
  ⟨h'.asked.trans h.asked, h'.outputs.trans h.outputs, h'.progress.trans h.progress⟩

theorem Grown.carried {q q' : Request} (h : Grown q q') : Carried q q' := by
  obtain ⟨bs, n, rfl⟩ := h
  exact ⟨rfl, rfl, rfl⟩

theorem Grown.table {q q' : Request} (h : Grown q q') :
    ∃ bs, q'.blockTable.blocks = q.blockTable.blocks ++ bs := by
  obtain ⟨bs, n, rfl⟩ := h
  exact ⟨bs, rfl⟩

theorem asked_sampledReq (o : SchedulerOptions) (q : Request) (token : Int) :
    (sampledReq o q token).asked = q.asked := by
  unfold sampledReq
  split <;> rfl

theorem Carried.seqLen {q q' : Request} (h : Carried q q') : q'.seqLen = q.seqLen := by
  have hp : q'.promptTokens = q.promptTokens := congrArg NewRequest.promptTokens h.asked
  unfold Request.seqLen Request.numPromptTokens Request.numOutputTokens
  rw [hp, h.outputs]

section
variable {T : Nat} {o : SchedulerOptions} {s s' : Scheduler} {plan : StepPlan}

/-- **Planning**: either the request is evicted, or its table grows at most. -/
theorem Planned.cases (hP : Scheduler.Planned T o s plan s') (r : Nat) :
    (r ∈ plan.aborted ∧ s'.heap r = evicted (s.heap r)) ∨
    (r ∉ plan.aborted ∧ Carried (s.heap r) (s'.heap r) ∧
      ∃ bs, (s'.heap r).blockTable.blocks = (s.heap r).blockTable.blocks ++ bs) := by
  cases hP with
  | prefill s1 k x rest hP =>
    have hab : r ∉ plan.aborted := by rw [hP.shape]; exact List.not_mem_nil
    have h1 : Carried (s.heap r) (s1.heap r) ∧
        (s1.heap r).blockTable.blocks = (s.heap r).blockTable.blocks := by
      by_cases hr : r ∈ s.waiting.take k
      · obtain ⟨slot, hs⟩ := hP.admissions.taken r hr
        rw [hs]
        exact ⟨⟨rfl, rfl, rfl⟩, rfl⟩
      · rw [hP.admissions.frame r hr]
        exact ⟨Carried.refl _, rfl⟩
    refine Or.inr ⟨hab, ?_⟩
    by_cases hrx : r = x
    · subst hrx
      obtain ⟨bs, hb⟩ := hP.chunk.grown.table
      exact ⟨h1.1.trans hP.chunk.grown.carried, bs, by rw [hb, h1.2]⟩
    · rw [hP.chunk.frame r hrx]
      exact ⟨h1.1, [], by rw [h1.2, List.append_nil]⟩
  | decode _ hD =>
    by_cases hab : r ∈ plan.aborted
    · exact Or.inl ⟨hab, hD.evictions r hab⟩
    · refine Or.inr ⟨hab, ?_⟩
      by_cases hd : r ∈ plan.decode
      · exact ⟨(hD.rows r hd).1.carried, (hD.rows r hd).1.table⟩
      · have hr : r ∉ s.running := by
          rw [hD.cut, List.mem_append, List.mem_reverse]
          exact fun hm => hm.elim hd hab
        rw [hD.frame r hr]
        exact ⟨Carried.refl _, [], (List.append_nil _).symm⟩

theorem Planned.carried (hP : Scheduler.Planned T o s plan s') (r : Nat) :
    Carried (s.heap r) (s'.heap r) := by
  rcases Planned.cases hP r with ⟨_, he⟩ | ⟨_, hc, _⟩
  · rw [he]; exact ⟨rfl, rfl, rfl⟩
  · exact hc

/-- planning finishes nobody but its victims -/
theorem Planned.reason (hP : Scheduler.Planned T o s plan s') {r : Nat} (hr : r ∉ plan.aborted) :
    (s'.heap r).finishReason = (s.heap r).finishReason := by
  cases hP with
  | prefill s1 k x rest hP =>
    have h1 : (s1.heap r).finishReason = (s.heap r).finishReason := by
      by_cases hw : r ∈ s.waiting.take k
      · obtain ⟨slot, hs⟩ := hP.admissions.taken r hw
        rw [hs]
        rfl
      · rw [hP.admissions.frame r hw]
    by_cases hrx : r = x
    · obtain ⟨bs, n, hg⟩ := hP.chunk.grown
      rw [hrx, hg, ← hrx]
      exact h1
    · rw [hP.chunk.frame r hrx, h1]
  | decode _ hD =>
    by_cases hd : r ∈ plan.decode
    · obtain ⟨bs, n, hg⟩ := (hD.rows r hd).1
      rw [hg]
    · rw [hD.frame r (by rw [hD.cut, List.mem_append, List.mem_reverse]; exact fun hm => hm.elim hd hr)]

/-- the victims of a plan were running -/
theorem Planned.victims (h : Inv T o s) (hP : Scheduler.Planned T o s plan s') :
    plan.aborted.Nodup ∧ ∀ r ∈ plan.aborted, r ∈ s.running ∧ r ∉ plan.decode ∧
      s'.heap r = evicted (s.heap r) := by
  cases hP with
  | prefill s1 k x rest hP =>
    rw [hP.shape]
    exact ⟨List.nodup_nil, fun r hr => absurd hr List.not_mem_nil⟩
  | decode _ hD =>
    have hn := (List.nodup_append.mp h.nodup).1
    rw [hD.cut, List.nodup_append, List.nodup_reverse] at hn
    refine ⟨hn.2.1, fun r hr => ⟨?_, fun hd => ?_, hD.evictions r hr⟩⟩
    · rw [hD.cut]
      exact List.mem_append_right _ (List.mem_reverse.mpr hr)
    · exact hn.2.2 r hd r (List.mem_reverse.mpr hr) rfl

/-- the request has a row in the plan -/
def StepPlan.schedules (plan : StepPlan) (r : Nat) : Prop := plan.prefill = some r ∨ r ∈ plan.decode

/-- what completing does to one request -/
inductive Moved (o : SchedulerOptions) (s : Scheduler) (plan : StepPlan) (sampled : List Int)
    (r : Nat) (s' : Scheduler) : Prop where
  | same (out : ¬ plan.schedules r) (eq : s'.heap r = s.heap r)
  | chunk (prefill : plan.prefill = some r)
      (more : chunkEnd o (s.heap r) < (s.heap r).numPromptTokens)
      (eq : s'.heap r = progressed (s.heap r) (chunkEnd o (s.heap r)))
  | first (prefill : plan.prefill = some r) (token : Int) (tokens : sampled = [token])
      (last : chunkEnd o (s.heap r) = (s.heap r).numPromptTokens)
      (eq : s'.heap r = sampledReq o (progressed (s.heap r) (s.heap r).numPromptTokens) token)
  | row (i : Nat) (token : Int) (row : plan.decode[i]? = some r) (tokens : sampled[i]? = some token)
      (eq : s'.heap r = sampledReq o (s.heap r) token)

/-- **Completing**: each scheduled request gets its chunk or its token. -/
theorem Completed.cases {sampled : List Int} {results : List StepResult}
    (hC : Scheduler.Completed T o s plan sampled results s') (r : Nat) :
    Moved o s plan sampled r s' := by
  cases hC with
  | chunk x rest queue shape more none state inv =>
    have hp : plan.prefill = some x := by rw [shape]; rfl
    by_cases hrx : r = x
    · subst hrx
      exact .chunk hp more (by rw [state]; exact Function.update_self ..)
    · refine .same ?_ (by rw [state]; exact Function.update_of_ne hrx _ _)
      rintro (h | h)
      · rw [hp] at h; exact hrx (Option.some.inj h).symm
      · rw [shape] at h; exact List.not_mem_nil h
  | first x rest token queue shape last tokens emits applied =>
    have hp : plan.prefill = some x := by rw [shape]; rfl
    by_cases hrx : r = x
    · subst hrx
      exact .first hp token tokens last (by rw [applied.heap]; exact Function.update_self ..)
    · refine .same ?_ (by rw [applied.heap]; exact Function.update_of_ne hrx _ _)
      rintro (h | h)
      · rw [hp] at h; exact hrx (Option.some.inj h).symm
      · rw [shape] at h; exact List.not_mem_nil h
  | rows shape running tokens emits applied =>
    have hp : plan.prefill = none := by rw [shape]
    by_cases hr : r ∈ plan.decode
    · obtain ⟨i, hi, hri⟩ := List.getElem_of_mem hr
      have hs : i < sampled.length := by omega
      have hz : (r, sampled[i]) ∈ plan.decode.zip sampled := by
        rw [List.mem_iff_getElem]
        exact ⟨i, by rw [List.length_zip]; omega, by rw [List.getElem_zip, hri]⟩
      exact .row i sampled[i] (by rw [List.getElem?_eq_getElem hi, hri])
        (List.getElem?_eq_getElem hs) (applied.applied _ hz)
    · refine .same ?_ (applied.frame r ?_)
      · rintro (h | h)
        · rw [hp] at h; cases h
        · exact hr h
      · rw [List.map_fst_zip (by omega)]
        exact hr

theorem Moved.asked {sampled : List Int} {r : Nat} (h : Moved o s plan sampled r s') :
    (s'.heap r).asked = (s.heap r).asked := by
  cases h with
  | same out eq => rw [eq]
  | chunk prefill more eq => rw [eq]; rfl
  | first prefill token tokens last eq => rw [eq, asked_sampledReq]; rfl
  | row i token row tokens eq => rw [eq, asked_sampledReq]

end
end Redline
