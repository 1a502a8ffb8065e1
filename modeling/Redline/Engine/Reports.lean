import Redline.Engine.Run

/-!
# What a run reports

`reports events` are the results of the steps that returned, in order, and `about id` those of one
request.  `Completed.answer` says what one completed plan reports about one request, together with
what it does to it: an eviction, nothing, a chunk without a token, or a token.
-/

namespace Redline
open Prog

/-- the reports of one call -/
def Event.results : Event → List StepResult
  | .stepped _ (.ok results) => results
  | _ => []

def reports (events : List Event) : List StepResult := events.flatMap Event.results

/-- the reports about the request `id` -/
def about (id : Nat) (results : List StepResult) : List StepResult :=
  results.filter fun x => x.requestId == id

theorem reports_append (events : List Event) (event : Event) :
    reports (events ++ [event]) = reports events ++ event.results := by
  simp [reports]

theorem about_append (id : Nat) (a b : List StepResult) :
    about id (a ++ b) = about id a ++ about id b := List.filter_append ..

theorem about_nil {id : Nat} {l : List StepResult} (h : ∀ x ∈ l, x.requestId ≠ id) :
    about id l = [] := by
  unfold about
  rw [List.filter_eq_nil_iff]
  intro x hx hc
  exact h x hx (beq_iff_eq.mp hc)

theorem about_single {id : Nat} {x : StepResult} (h : x.requestId = id) : about id [x] = [x] := by
  unfold about
  rw [List.filter_cons, List.filter_nil, h, beq_self_eq_true, if_pos rfl]

/-- one report for each element of a list, told apart by a key -/
theorem about_keyed {α : Type} {l : List α} {key : α → Nat} {f : α → StepResult}
    (hk : ∀ a ∈ l, (f a).requestId = key a + 1) (hn : (l.map key).Nodup) {a : α} (ha : a ∈ l) :
    about (key a + 1) (l.map f) = [f a] := by
  obtain ⟨pre, post, rfl⟩ := List.append_of_mem ha
  rw [List.map_append, List.map_cons, List.nodup_append, List.nodup_cons] at hn
  have hpre : about (key a + 1) (pre.map f) = [] := by
    refine about_nil fun x hx => ?_
    obtain ⟨b, hb, rfl⟩ := List.mem_map.mp hx
    rw [hk b (List.mem_append_left _ hb)]
    exact fun e => hn.2.2 (key b) (List.mem_map_of_mem hb) (key a) List.mem_cons_self
      (Nat.succ.inj e)
  have hpost : about (key a + 1) (post.map f) = [] := by
    refine about_nil fun x hx => ?_
    obtain ⟨b, hb, rfl⟩ := List.mem_map.mp hx
    rw [hk b (List.mem_append_right _ (List.mem_cons_of_mem _ hb))]
    exact fun e => hn.2.1.1 (Nat.succ.inj e ▸ List.mem_map_of_mem hb)
  rw [List.map_append, List.map_cons, ← List.singleton_append, about_append, about_append, hpre,
    hpost, about_single (hk a ha), List.nil_append, List.append_nil]

section
variable {T : Nat} {o : SchedulerOptions} {s s1 s' : Scheduler} {plan : StepPlan}

/-- what a plan finishes while it stands -/
structure Victims (s s1 : Scheduler) (plan : StepPlan) : Prop where
  nodup : plan.aborted.Nodup
  mem : ∀ r ∈ plan.aborted, r ∈ s.running ∧ r ∉ plan.decode ∧ s1.heap r = evicted (s.heap r)
  others : ∀ r, r ∉ plan.aborted → (s1.heap r).finishReason = (s.heap r).finishReason

theorem Planned.finishes (h : Inv T o s) (hP : Scheduler.Planned T o s plan s1) :
    Victims s s1 plan :=
  ⟨(Planned.victims h hP).1, (Planned.victims h hP).2, fun _ hr => Planned.reason hP hr⟩

/-- what completing `plan` in `s` does to the request `r`, and reports about it -/
inductive Answer (o : SchedulerOptions) (s : Scheduler) (plan : StepPlan) (sampled : List Int)
    (r : Nat) (s' : Scheduler) : List StepResult → Prop where
  | evicted (victim : r ∈ plan.aborted) (eq : s'.heap r = s.heap r) :
      Answer o s plan sampled r s' [evictionResult (s.heap r)]
  | none (victim : r ∉ plan.aborted) (out : ¬ plan.schedules r) (eq : s'.heap r = s.heap r) :
      Answer o s plan sampled r s' []
  | chunk (prefill : plan.prefill = some r)
      (more : chunkEnd o (s.heap r) < (s.heap r).numPromptTokens)
      (eq : s'.heap r = progressed (s.heap r) (chunkEnd o (s.heap r))) :
      Answer o s plan sampled r s' []
  | first (prefill : plan.prefill = some r) (token : Int) (tokens : sampled = [token])
      (last : chunkEnd o (s.heap r) = (s.heap r).numPromptTokens)
      (eq : s'.heap r = sampledReq o (progressed (s.heap r) (s.heap r).numPromptTokens) token) :
      Answer o s plan sampled r s'
        [sampledResult o (progressed (s.heap r) (s.heap r).numPromptTokens) token]
  | row (i : Nat) (token : Int) (row : plan.decode[i]? = some r) (tokens : sampled[i]? = some token)
      (eq : s'.heap r = sampledReq o (s.heap r) token) :
      Answer o s plan sampled r s' [sampledResult o (s.heap r) token]

/-- **Completing answers each request.** -/
theorem Completed.answer (h : Inv T o s) (hids : ∀ r < s.nextPtr, (s.heap r).id = r + 1)
    {sampled : List Int} {results : List StepResult} (hnd : plan.aborted.Nodup)
    (hv : ∀ r ∈ plan.aborted, r < s.nextPtr ∧ r ∉ plan.decode)
    (hC : Scheduler.Completed T o s plan sampled results s') (r : Nat) :
    Answer o s plan sampled r s' (about (r + 1) results) := by
  cases hC with
  | chunk x rest queue shape more none state inv =>
    have hp : plan.prefill = some x := by rw [shape]; rfl
    rw [none]
    by_cases hrx : r = x
    · subst hrx
      exact .chunk hp more (by rw [state]; exact Function.update_self ..)
    · refine .none (by rw [shape]; exact List.not_mem_nil) ?_
        (by rw [state]; exact Function.update_of_ne hrx _ _)
      rintro (h1 | h1)
      · rw [hp] at h1; exact hrx (Option.some.inj h1).symm
      · rw [shape] at h1; exact List.not_mem_nil h1
  | first x rest token queue shape last tokens emits applied =>
    have hp : plan.prefill = some x := by rw [shape]; rfl
    have hmem : x ∈ s.prefillQueue := by rw [queue]; exact List.mem_cons_self
    have hx := hids x (h.lt_nextPtr (Or.inr (List.mem_append_right _ hmem)))
    rw [emits]
    by_cases hrx : r = x
    · subst hrx
      rw [about_single hx]
      exact .first hp token tokens last (by rw [applied.heap]; exact Function.update_self ..)
    · have hnil : about (r + 1) [sampledResult o
          (progressed (s.heap x) (s.heap x).numPromptTokens) token] = [] := by
        refine about_nil fun y hy => ?_
        rw [List.mem_singleton.mp hy]
        show (s.heap x).id ≠ r + 1
        omega
      rw [hnil]
      refine .none (by rw [shape]; exact List.not_mem_nil) ?_
        (by rw [applied.heap]; exact Function.update_of_ne hrx _ _)
      rintro (h1 | h1)
      · rw [hp] at h1; exact hrx (Option.some.inj h1).symm
      · rw [shape] at h1; exact List.not_mem_nil h1
  | rows shape running tokens emits applied =>
    have hp : plan.prefill = none := by rw [shape]
    have hfst : (plan.decode.zip sampled).map Prod.fst = plan.decode := List.map_fst_zip (by omega)
    have hpair : ∀ p ∈ plan.decode.zip sampled, p.1 ∈ plan.decode := fun p hp => by
      rw [← hfst]; exact List.mem_map_of_mem hp
    have hlt : ∀ x ∈ plan.decode, x < s.nextPtr := fun x hx =>
      h.lt_nextPtr (Or.inr (List.mem_append_left _ (by rw [running]; exact hx)))
    have hkeyA : ∀ x ∈ plan.aborted, (evictionResult (s.heap x)).requestId = x + 1 :=
      fun x hx => hids x (hv x hx).1
    have hkeyD : ∀ p ∈ plan.decode.zip sampled,
        (sampledResult o (s.heap p.1) p.2).requestId = p.1 + 1 :=
      fun p hp => hids p.1 (hlt p.1 (hpair p hp))
    have hout : ∀ x, x ∉ plan.decode → about (x + 1)
        ((plan.decode.zip sampled).map fun p => sampledResult o (s.heap p.1) p.2) = [] := by
      intro x hx
      refine about_nil fun y hy => ?_
      obtain ⟨p, hp, rfl⟩ := List.mem_map.mp hy
      rw [hkeyD p hp]
      exact fun e => hx (Nat.succ.inj e ▸ hpair p hp)
    rw [emits, about_append]
    by_cases hab : r ∈ plan.aborted
    · have htold : about (r + 1) (plan.aborted.map fun x => evictionResult (s.heap x))
          = [evictionResult (s.heap r)] :=
        about_keyed hkeyA (by rw [List.map_id'' fun _ => rfl]; exact hnd) hab
      rw [htold, hout r (hv r hab).2]
      exact .evicted hab (applied.frame r (by rw [hfst]; exact (hv r hab).2))
    · have htold : about (r + 1) (plan.aborted.map fun x => evictionResult (s.heap x)) = [] := by
        refine about_nil fun y hy => ?_
        obtain ⟨x, hx, rfl⟩ := List.mem_map.mp hy
        rw [hkeyA x hx]
        exact fun e => hab (Nat.succ.inj e ▸ hx)
      rw [htold, List.nil_append]
      by_cases hd : r ∈ plan.decode
      · obtain ⟨i, hi, hri⟩ := List.getElem_of_mem hd
        have hs : i < sampled.length := by omega
        have hz : (r, sampled[i]) ∈ plan.decode.zip sampled := by
          rw [List.mem_iff_getElem]
          exact ⟨i, by rw [List.length_zip]; omega, by rw [List.getElem_zip, hri]⟩
        have hnodup : ((plan.decode.zip sampled).map Prod.fst).Nodup := by
          rw [hfst, ← running]
          exact (List.nodup_append.mp h.nodup).1
        have hab := about_keyed hkeyD hnodup hz
        simp only at hab
        rw [hab]
        exact .row i sampled[i] (by rw [List.getElem?_eq_getElem hi, hri])
          (List.getElem?_eq_getElem hs) (applied.applied _ hz)
      · rw [hout r hd]
        refine .none hab ?_ (applied.frame r (by rw [hfst]; exact hd))
        rintro (h1 | h1)
        · rw [hp] at h1; cases h1
        · exact hd h1

/-- a completed plan scheduled the head of the prefill queue, or running requests -/
theorem Completed.scheduled {sampled : List Int} {results : List StepResult}
    (hC : Scheduler.Completed T o s plan sampled results s') :
    (∀ r, plan.prefill = some r → r ∈ s.prefillQueue ∧ plan.aborted = []) ∧
      ∀ r ∈ plan.decode, r ∈ s.running := by
  have hchunk : ∀ x rest, s.prefillQueue = x :: rest → plan = Scheduler.chunkPlan o s x →
      (∀ r, plan.prefill = some r → r ∈ s.prefillQueue ∧ plan.aborted = []) ∧
        ∀ r ∈ plan.decode, r ∈ s.running := by
    rintro x rest queue rfl
    refine ⟨fun r hr => ⟨?_, rfl⟩, fun r hr => absurd hr List.not_mem_nil⟩
    rw [queue, ← Option.some.inj hr]
    exact List.mem_cons_self
  cases hC with
  | chunk x rest queue shape more none state inv => exact hchunk x rest queue shape
  | first x rest token queue shape last tokens emits applied => exact hchunk x rest queue shape
  | rows shape running tokens emits applied =>
    refine ⟨fun r hr => ?_, fun r hr => by rw [running]; exact hr⟩
    rw [shape] at hr
    cases hr

/-- every report is about an accepted request -/
theorem Completed.known (h : Inv T o s) {sampled : List Int} {results : List StepResult}
    (hC : Scheduler.Completed T o s plan sampled results s')
    (hids : ∀ r < s.nextPtr, (s.heap r).id = r + 1) (hv : ∀ r ∈ plan.aborted, r < s.nextPtr) :
    ∀ x ∈ results, x.requestId < s.nextPtr + 1 := by
  intro x hx
  cases hC with
  | chunk y rest queue shape more none state inv => rw [none] at hx; exact absurd hx List.not_mem_nil
  | first y rest token queue shape last tokens emits applied =>
    rw [emits] at hx
    have hy : y < s.nextPtr :=
      h.lt_nextPtr (Or.inr (List.mem_append_right _ (by rw [queue]; exact List.mem_cons_self)))
    rw [List.mem_singleton.mp hx]
    show (s.heap y).id < _
    rw [hids y hy]
    omega
  | rows shape running tokens emits applied =>
    rw [emits, List.mem_append, List.mem_map, List.mem_map] at hx
    rcases hx with ⟨r, hr, rfl⟩ | ⟨p, hp, rfl⟩
    · have := hids r (hv r hr)
      have := hv r hr
      show (s.heap r).id < _
      omega
    · have hlt : p.1 < s.nextPtr := h.lt_nextPtr (Or.inr (List.mem_append_left _ (by
        rw [running]; exact (List.of_mem_zip hp).1)))
      have := hids p.1 hlt
      show (s.heap p.1).id < _
      omega

end
end Redline
