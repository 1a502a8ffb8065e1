import Redline.Engine.Emission
import Redline.Sched.Stall

/-!
# What a returning step tells its caller

A client sees nothing but the results of the steps that return.  `Ended.notice`: about one request
that is its eviction, nothing, or one token, and the report says how the request goes on; no
request is told of twice in one step (`Ended.told`).  A step that tells nothing although a request is
unfinished did a chunk in the middle of a prompt (`Ended.quiet`).
-/

namespace Redline
open Prog

/-- what a step does to a request and reports about it -/
inductive Notice (q q' : Request) : List StepResult → Prop where
  | silent (same : q'.finishReason = q.finishReason) : Notice q q' []
  | evicted (before : q.finishReason = .kNone) (after : q'.finishReason = .kAborted) :
      Notice q q' [⟨q'.id, 0, true, .kAborted⟩]
  | told (token : Int) (before : q.finishReason = .kNone) (natural : q'.finishReason ≠ .kAborted) :
      Notice q q' [⟨q'.id, token, decide (q'.finishReason ≠ .kNone), q'.finishReason⟩]

/-- the reports about a request so far: its end is the last of them -/
inductive Story (q : Request) : List StepResult → Prop where
  | going (reason : q.finishReason = .kNone) (l : List StepResult)
      (unfinished : ∀ x ∈ l, x.finished = false) : Story q l
  | ended (reason : q.finishReason ≠ .kNone) (l : List StepResult) (x : StepResult)
      (unfinished : ∀ y ∈ l, y.finished = false) (finished : x.finished = true)
      (same : x.finishReason = q.finishReason) : Story q (l ++ [x])

theorem Notice.story {q q' : Request} {l0 l : List StepResult} (hN : Notice q q' l)
    (h : Story q l0) : Story q' (l0 ++ l) := by
  cases hN with
  | silent same =>
    rw [List.append_nil]
    cases h with
    | going reason l unfinished => exact .going (same.trans reason) _ unfinished
    | ended reason l x unfinished finished at_end =>
      exact .ended (same.symm ▸ reason) l x unfinished finished (at_end.trans same.symm)
  | evicted before after =>
    cases h with
    | ended reason l x unfinished finished same => exact absurd before reason
    | going reason l unfinished =>
      exact .ended (by rw [after]; nofun) l0 _ unfinished rfl after.symm
  | told token before natural =>
    cases h with
    | ended reason l x unfinished finished same => exact absurd before reason
    | going reason l unfinished =>
      by_cases hq : q'.finishReason = .kNone
      · refine .going hq _ fun x hx => ?_
        rcases List.mem_append.mp hx with hx | hx
        · exact unfinished x hx
        · rw [List.mem_singleton.mp hx]
          exact decide_eq_false (not_not.mpr hq)
      · exact .ended hq l0 _ unfinished (decide_eq_true hq) rfl

/-- what follows an unfinished part of the reports -/
theorem Story.split {q : Request} {l l' : List StepResult} {x : StepResult}
    (h : Story q (l ++ x :: l')) : ∀ y ∈ l, y.finished = false := by
  generalize hall : l ++ x :: l' = all at h
  cases h with
  | going reason _ unfinished =>
    intro y hy
    exact unfinished y (hall ▸ List.mem_append_left _ hy)
  | ended reason l1 z unfinished finished same =>
    intro y hy
    refine unfinished y ?_
    have hl : l ++ (x :: l').dropLast = l1 := by
      rw [← List.dropLast_append_of_ne_nil (List.cons_ne_nil x l'), hall, List.dropLast_concat]
    rw [← hl]
    exact List.mem_append_left _ hy

/-- reports with an end are the reports of a request that has one -/
theorem Story.reason {q : Request} {l : List StepResult} (h : Story q l)
    (hend : l.any (·.finished) = true) : q.finishReason ≠ .kNone := by
  cases h with
  | going reason _ unfinished =>
    obtain ⟨x, hx, hf⟩ := List.any_eq_true.mp hend
    rw [unfinished x hx] at hf
    cases hf
  | ended reason l x unfinished finished same => exact reason

theorem Story.last {q : Request} {l : List StepResult} {x : StepResult} (h : Story q (l ++ [x]))
    (hx : x.finished = true) : x.finishReason = q.finishReason := by
  generalize hall : l ++ [x] = all at h
  cases h with
  | going reason _ unfinished =>
    rw [unfinished x (hall ▸ List.mem_append_right _ List.mem_cons_self)] at hx
    cases hx
  | ended reason l1 y unfinished finished same =>
    rw [(List.cons.inj (List.append_inj' hall rfl).2).1]
    exact same

section
variable {T : Nat} {o : SchedulerOptions} {s s1 s' : Scheduler} {plan : StepPlan}

/-- one token -/
theorem Notice.sampled {q q1 q' : Request} {token : Int} (h : q.finishReason = .kNone)
    (h1 : q1.finishReason = q.finishReason) (eq : q' = sampledReq o q1 token) :
    Notice q q' [sampledResult o q1 token] := by
  have hf := finishReason_sampledReq (o := o) (h1.trans h) token
  rw [← eq] at hf
  have hid : q'.id = q1.id := by
    rw [eq]; exact congrArg NewRequest.id (asked_sampledReq o q1 token)
  have hx : sampledResult o q1 token
      = ⟨q'.id, token, decide (q'.finishReason ≠ .kNone), q'.finishReason⟩ := by
    rw [hid, hf]
    rfl
  rw [hx]
  exact .told token h (hf ▸ reasonOf_ne_aborted o q1 token)

/-- **Completing notifies each request.** -/
theorem Answer.notice (h : Inv T o s) (h1 : Inv T o s1) (hV : Victims s s1 plan)
    {sampled : List Int} {r : Nat} {l : List StepResult} (hA : Answer o s1 plan sampled r s' l)
    (hwait : ∀ x, plan.prefill = some x → x ∈ s1.prefillQueue ∧ plan.aborted = [])
    (hrun : ∀ x ∈ plan.decode, x ∈ s1.running) : Notice (s.heap r) (s'.heap r) l := by
  cases hA with
  | evicted victim eq =>
    obtain ⟨hmem, _, hev⟩ := hV.mem r victim
    have hid : (s'.heap r).id = (s1.heap r).id := by rw [eq]
    have : Notice (s.heap r) (s'.heap r) [⟨(s'.heap r).id, 0, true, .kAborted⟩] :=
      .evicted (h.running r hmem).reason (by rw [eq, hev]; rfl)
    rw [hid] at this
    exact this
  | none victim out eq => exact .silent (by rw [eq]; exact hV.others r victim)
  | chunk prefill more eq =>
    have hab : r ∉ plan.aborted := by rw [(hwait r prefill).2]; exact List.not_mem_nil
    exact .silent (by rw [eq]; exact hV.others r hab)
  | first prefill token tokens last eq =>
    have hab : r ∉ plan.aborted := by rw [(hwait r prefill).2]; exact List.not_mem_nil
    have hnone := (h1.prefill r (hwait r prefill).1).reason
    exact .sampled ((hV.others r hab).symm.trans hnone) (hV.others r hab) eq
  | row i token row tokens eq =>
    have hd := List.mem_of_getElem? row
    have hab : r ∉ plan.aborted := fun ha => (hV.mem r ha).2.1 hd
    have hnone := (h1.running r (hrun r hd)).reason
    exact .sampled ((hV.others r hab).symm.trans hnone) (hV.others r hab) eq

/-- at most one report about each request -/
theorem nodup_of_about {results : List StepResult}
    (h : ∀ id, (about id results).length ≤ 1) : (results.map (·.requestId)).Nodup := by
  rw [List.nodup_iff_count_le_one]
  intro id
  rw [List.count, List.countP_map, List.countP_eq_length_filter]
  exact h id

variable {δ : Type} {dev : Device δ} {d d' : δ} {e e' : Engine} {results : List StepResult}

/-- what the caller of a returning step learns -/
structure Tells (e e' : Engine) (results : List StepResult) : Prop where
  notice : ∀ r, Notice (e.sched.heap r) (e'.sched.heap r) (about (r + 1) results)
  known : ∀ x ∈ results, ∃ r < e.sched.nextPtr, x.requestId = r + 1

theorem Tells.nodup (h : Tells e e' results) : (results.map (·.requestId)).Nodup := by
  refine nodup_of_about fun id => ?_
  cases id with
  | zero =>
    have h0 : about 0 results = [] := about_nil fun x hx e0 => by
      obtain ⟨r, _, hid⟩ := h.known x hx
      omega
    rw [h0]
    exact Nat.zero_le _
  | succ r =>
    have hr := h.notice r
    generalize about (r + 1) results = l at hr ⊢
    cases hr <;> simp

theorem Completed.tells (hE : EngineInv T o e) (hP : Scheduler.Planned T o e.sched plan s1)
    {sampled : List Int} (hC : Scheduler.Completed T o s1 plan sampled results s') (e' : Engine)
    (hs : e'.sched = s') : Tells e e' results := by
  have hV := Planned.finishes hE.sched hP
  have hE1 := Engine.EngineInv.planned hE hP
  have hlt : ∀ r ∈ plan.aborted, r < e.sched.nextPtr := fun r hr =>
    hE.sched.lt_nextPtr (Or.inr (List.mem_append_left _ (hV.mem r hr).1))
  have hn := Planned.nextPtr hP
  subst hs
  refine ⟨fun r => ?_, fun x hx => ?_⟩
  · exact (Completed.answer hE1.sched hE1.ids hV.nodup (fun r hr => ⟨hn ▸ hlt r hr,
      (hV.mem r hr).2.1⟩) hC r).notice hE.sched hE1.sched hV (Completed.scheduled hC).1
      (Completed.scheduled hC).2
  · -- a report is about the request it came from
    have hrange : ∀ r, r < s1.nextPtr → (s1.heap r).id = r + 1 := hE1.ids
    cases hC with
    | chunk y rest queue shape more none state inv =>
      rw [none] at hx
      exact absurd hx List.not_mem_nil
    | first y rest token queue shape last tokens emits applied =>
      rw [emits, List.mem_singleton] at hx
      have hy : y < s1.nextPtr := hE1.sched.lt_nextPtr
        (Or.inr (List.mem_append_right _ (by rw [queue]; exact List.mem_cons_self)))
      exact ⟨y, hn ▸ hy, by rw [hx]; exact hrange y hy⟩
    | rows shape running tokens emits applied =>
      rw [emits, List.mem_append, List.mem_map, List.mem_map] at hx
      rcases hx with ⟨r, hr, rfl⟩ | ⟨p, hp, rfl⟩
      · exact ⟨r, hlt r hr, hrange r (hn ▸ hlt r hr)⟩
      · have hp1 : p.1 < s1.nextPtr := hE1.sched.lt_nextPtr (Or.inr (List.mem_append_left _ (by
          rw [running]; exact (List.of_mem_zip hp).1)))
        exact ⟨p.1, hn ▸ hp1, hrange p.1 hp1⟩

/-- **A step that returns** tells of each request at most once, and what became of it. -/
theorem Ended.tells (hE : EngineInv T o e) (hP : Scheduler.Planned T o e.sched plan s1)
    (hend : Engine.Ended T o dev d { e with sched := s1 } plan (.ok results) e' d') :
    Tells e e' results := by
  cases hend with
  | idle empty =>
    have hab : plan.aborted = [] := by
      rw [StepPlan.empty, Bool.and_eq_true, Bool.and_eq_true] at empty
      exact List.isEmpty_iff.mp empty.2
    refine ⟨fun r => .silent ((Planned.finishes hE.sched hP).others r ?_), fun x hx => ?_⟩
    · rw [hab]; exact List.not_mem_nil
    · exact absurd hx List.not_mem_nil
  | evictions prefill decode results s completed => exact Completed.tells hE hP completed _ rfl
  | done m done l argmax d' results s launch launched device completed =>
    exact Completed.tells hE hP completed _ rfl

/-- a completed plan that reports nothing was a chunk in the middle of a prompt -/
theorem Completed.quiet (h : Inv T o s) {sampled : List Int}
    (hC : Scheduler.Completed T o s plan sampled [] s')
    (hbusy : plan.prefill ≠ none ∨ plan.decode ≠ [] ∨ plan.aborted ≠ []) :
    s.headDone o + 1 ≤ s'.headDone o ∧
      ∃ r ∈ s'.prefillQueue, s'.headDone o + 1 ≤ chunks o (s'.heap r).numPromptTokens := by
  have h1 := h.parted
  have h2 := hC.inv.parted
  have hn := Completed.nextPtr hC
  have hadvance := fun hp => stall_completed h hC hp
  have hinv := hC.inv
  cases hC with
  | chunk r rest queue shape more none state inv =>
    have hle := hadvance (by rw [shape]; rfl)
    have hqueue : s'.prefillQueue = r :: rest := by rw [state]; exact queue
    have hpast : s'.past = s.past := by
      have hw : s'.waiting = s.waiting := by rw [state]
      rw [hqueue, hw] at h2
      rw [queue] at h1
      omega
    rw [hpast] at hle
    have hm : r ∈ s'.prefillQueue := by rw [hqueue]; exact List.mem_cons_self
    have hprogress := (hinv.prefill r hm).progress
    have hpos : 0 < chunks o ((s'.heap r).numPromptTokens - (s'.heap r).prefillProgress) :=
      chunks_pos h.tuned.chunk_pos (by omega)
    have hmono : chunks o ((s'.heap r).numPromptTokens - (s'.heap r).prefillProgress)
        ≤ chunks o (s'.heap r).numPromptTokens := chunks_mono (Nat.sub_le _ _)
    refine ⟨by omega, r, hm, ?_⟩
    rw [headDone_cons hqueue]
    omega
  | first r rest token queue shape last tokens emits applied => cases emits
  | rows shape running tokens emits applied =>
    obtain ⟨hab, hde⟩ := List.append_eq_nil_iff.mp emits.symm
    have hdecode : plan.decode = [] := by
      have hlen := congrArg List.length hde
      rw [List.length_map, List.length_zip, tokens, Nat.min_self] at hlen
      exact List.eq_nil_of_length_eq_zero hlen
    rcases hbusy with hb | hb | hb
    · exact absurd (by rw [shape]) hb
    · exact absurd hdecode hb
    · exact absurd (List.map_eq_nil_iff.mp hab) hb

/-- **A step that returns nothing**, with a request unfinished, did a chunk of the head of the prefill
queue, which is not through its prompt yet. -/
theorem Ended.quiet (hE : EngineInv T o e) (hP : Scheduler.Planned T o e.sched plan s1)
    (hend : Engine.Ended T o dev d { e with sched := s1 } plan (.ok []) e' d')
    (hbusy : e.sched.Busy) : e.sched.headDone o + 1 ≤ e'.sched.headDone o ∧
      ∃ r ∈ e'.sched.prefillQueue,
        e'.sched.headDone o + 1 ≤ chunks o (e'.sched.heap r).numPromptTokens := by
  have hE1 := Engine.EngineInv.planned hE hP
  have hne := Planned.nonempty hE.sched hE.batch_pos hbusy hP
  have hhead := (stall_planned hE.sched hP).2
  generalize hres : Except.ok [] = out at hend
  cases hend with
  | idle empty =>
    rw [StepPlan.empty, Bool.and_eq_true, Bool.and_eq_true] at empty
    rcases hne with h | h | h
    · exact absurd (Option.isNone_iff_eq_none.mp empty.1.1) h
    · exact absurd (List.isEmpty_iff.mp empty.1.2) h
    · exact absurd (List.isEmpty_iff.mp empty.2) h
  | evictions prefill decode results s completed =>
    obtain rfl := Except.ok.inj hres
    obtain ⟨h1, h2⟩ := Completed.quiet hE1.sched completed hne
    exact ⟨(Nat.succ_le_succ hhead).trans h1, h2⟩
  | refused m err launch busy => cases hres
  | threw m done l err d' launch launched device busy => cases hres
  | done m done l argmax d' results s launch launched device completed =>
    obtain rfl := Except.ok.inj hres
    obtain ⟨h1, h2⟩ := Completed.quiet hE1.sched completed hne
    exact ⟨(Nat.succ_le_succ hhead).trans h1, h2⟩

end
end Redline
