import Redline.Engine.Run

/-!
# Two devices in lockstep

All that `Step` takes from the device is the sampled tokens, as many as the launch is due, or an
exception (`answered`).  Two devices that answer every launch of an executor alike, and whose states
stay related, give the same run: the same engine, the same log (`EngineRun.run_lockstep`).
-/

namespace Redline
open Prog

/-- what `Step` copies back: the tokens of the launch, or the exception -/
def answered (l : Launch) (out : Except ExecutorError (Nat → Int)) : Except ExecutorError (List Int) :=
  out.map fun argmax => (List.range l.tokens).map argmax

section
variable {δ δ' : Type}

/-- the devices answer alike every launch an engine makes with the executor `y`, and their states stay
related -/
def AnswersAlike (y : Executor) (T : Nat) (o : SchedulerOptions) (R : δ → δ' → Prop) (dev : Device δ)
    (dev' : Device δ') : Prop :=
  ∀ x s plan l, y.Refilled x → Inv T o s → Scheduler.PlanOk o s plan → Launched x o s plan l →
    ∀ d d', R d d' → answered l (dev l d).1 = answered l (dev' l d').1 ∧
      R (dev l d).2 (dev' l d').2

variable {y : Executor} {T : Nat} {o : SchedulerOptions} {R : δ → δ' → Prop} {dev : Device δ}
    {dev' : Device δ'}
  {d : δ} {d' : δ'} {e : Engine}

namespace Engine

/-- a plan that stands is carried out alike -/
theorem execute_lockstep (hE : EngineInv T o e) (hy : y.Refilled e.executor) {plan : StepPlan}
    (hP : Scheduler.PlanOk o e.sched plan) (halike : AnswersAlike y T o R dev dev') (hR : R d d') :
    ∃ res e' d1 d1', e.execute dev d plan = some (res, e', d1) ∧
      e.execute dev' d' plan = some (res, e', d1') ∧ R d1 d1' := by
  obtain ⟨res, e', d1, hx, hend⟩ := execute_spec hE hP dev d
  refine ⟨res, e', d1, ?_⟩
  unfold execute at hx ⊢
  by_cases hn : (plan.prefill.isNone && plan.decode.isEmpty) = true
  · -- the device is not asked
    rw [if_pos hn] at hx
    rw [if_pos hn, if_pos hn]
    obtain ⟨⟨results, e1⟩, hc, hx⟩ := Option.bind_eq_some_iff.mp hx
    obtain ⟨rfl, rfl, rfl⟩ : Except.ok results = res ∧ e1 = e' ∧ d = d1 := by simpa using hx
    rw [hc]
    exact ⟨d', rfl, rfl, hR⟩
  · have hne : plan.prefill = none → plan.decode ≠ [] := by
      intro h1 h2
      rw [h1, h2] at hn
      exact hn rfl
    obtain ⟨out, m, hl, hL⟩ := launch_spec hE.sched hE.fits hP hne hE.prompts
    rw [if_neg hn] at hx
    rw [if_neg hn, if_neg hn]
    simp only [hl, Option.bind_eq_bind, Option.bind_some] at hx ⊢
    cases out with
    | error err =>
      obtain ⟨rfl, rfl, rfl⟩ : Except.error err = res ∧ _ = e' ∧ d = d1 := by simpa using hx
      exact ⟨d', rfl, rfl, hR⟩
    | ok p =>
      obtain ⟨done, l⟩ := p
      obtain ⟨hans, hnext⟩ := halike _ _ _ l hy hE.sched hP (hL done l rfl) d d' hR
      cases hdev : dev l d with
      | mk r d2 =>
        cases hdev' : dev' l d' with
        | mk r' d2' =>
          rw [hdev, hdev'] at hans hnext
          simp only [hdev] at hx
          cases r with
          | error err =>
            cases r' with
            | ok argmax' => cases hans
            | error err' =>
              obtain rfl := Except.error.inj hans
              obtain ⟨rfl, rfl, rfl⟩ : Except.error err = res ∧ _ = e' ∧ d2 = d1 := by simpa using hx
              exact ⟨d2', by simp only [hdev]; rfl, by simp only [hdev']; rfl, hnext⟩
          | ok argmax =>
            cases r' with
            | error err' => cases hans
            | ok argmax' =>
              have htokens : (List.range l.tokens).map argmax = (List.range l.tokens).map argmax' :=
                Except.ok.inj hans
              obtain ⟨⟨results, e1⟩, hc, hx⟩ := Option.bind_eq_some_iff.mp hx
              obtain ⟨rfl, rfl, rfl⟩ : Except.ok results = res ∧ e1 = e' ∧ d2 = d1 := by simpa using hx
              refine ⟨d2', ?_, ?_, hnext⟩
              · simp only [hdev, hc, Option.bind_some]
                rfl
              · simp only [hdev', ← htokens, hc, Option.bind_some]
                rfl

/-- **One step.** -/
theorem step_lockstep (hE : EngineInv T o e) (hy : y.Refilled e.executor)
    (halike : AnswersAlike y T o R dev dev') (hR : R d d') :
    ∃ res e' d1 d1', e.step dev d = some (res, e', d1) ∧
      e.step dev' d' = some (res, e', d1') ∧ R d1 d1' := by
  obtain ⟨plan, s, hs, hP⟩ := Scheduler.planStep_spec hE.sched
  unfold step
  simp only [hs, Option.bind_eq_bind, Option.bind_some]
  by_cases hempty : plan.empty = true
  · rw [if_pos hempty, if_pos hempty]
    exact ⟨_, _, _, _, rfl, rfl, hR⟩
  · rw [if_neg hempty, if_neg hempty]
    exact execute_lockstep (EngineInv.planned hE hP) hy (hP.planOk hE.sched) halike hR

end Engine

/-! ## runs -/

/-- the two runs differ in their devices only -/
structure Lockstep (R : δ → δ' → Prop) (w : EngineRun δ) (w' : EngineRun δ') : Prop where
  engine : w'.engine = w.engine
  device : R w.device w'.device
  events : w'.events = w.events

variable {κ : Type} {env : Environment κ δ} {env' : Environment κ δ'} {w : EngineRun δ}
  {w' : EngineRun δ'}

theorem EngineRun.step_refused (env : Environment κ δ) {a : RequestArgs} {err : InvalidArgument}
    (ha : w.engine.addRequest a = some (.error err)) : EngineRun.step env w (.addRequest a)
      = some { w with events := w.events ++ [.refused err] } := by
  simp only [EngineRun.step, ha]
  rfl

theorem EngineRun.step_added (env : Environment κ δ) {a : RequestArgs} {id : Nat}
    (ha : w.engine.addRequest a = some (.ok (id, e))) : EngineRun.step env w (.addRequest a)
      = some { w with
        engine := e
        events := w.events ++ [.added id a] } := by
  simp only [EngineRun.step, ha]
  rfl

/-- one call -/
theorem EngineRun.step_lockstep (halike : ∀ k, AnswersAlike y T o R (env.dev k) (env'.dev k))
    (hplanned : ∀ s s' d d', R d d' → R (env.planned s s' d) (env'.planned s s' d'))
    (hE : EngineInv T o w.engine) (hy : y.Refilled w.engine.executor) (h : Lockstep R w w')
    (c : EngineCall κ) :
    ∃ w1 w1', EngineRun.step env w c = some w1 ∧ EngineRun.step env' w' c = some w1' ∧
      EngineInv T o w1.engine ∧ y.Refilled w1.engine.executor ∧ Lockstep R w1 w1' := by
  obtain ⟨w1, hw1, hE1, hstepped⟩ := EngineRun.step_spec env hE c
  have hy1 := hy.trans hstepped.refilled
  cases c with
  | addRequest a =>
    rcases Engine.addRequest_spec hE a with ⟨err, ha⟩ | ⟨ha, _⟩
    · have ha' : w'.engine.addRequest a = some (.error err) := by rw [h.engine]; exact ha
      obtain rfl := Option.some.inj ((step_refused env ha).symm.trans hw1)
      exact ⟨_, _, hw1, step_refused env' ha', hE1, hy1, h.engine, h.device, congrArg (· ++ _) h.events⟩
    · have ha' := h.engine.symm ▸ ha
      obtain rfl := Option.some.inj ((step_added env ha).symm.trans hw1)
      exact ⟨_, _, hw1, step_added env' ha', hE1, hy1, by rw [h.engine], h.device,
        by rw [h.engine, h.events]⟩
  | step k =>
    obtain ⟨plan, s, hs, _⟩ := Scheduler.planStep_spec hE.sched
    obtain ⟨res, e', d1, d1', hx, hx', hnext⟩ := Engine.step_lockstep hE hy (halike k)
      (hplanned w.engine.sched s _ _ h.device)
    have hs1 : EngineRun.step env w (.step k) = _ := EngineRun.step_eq hs hx
    have hs' : w'.engine.sched.planStep = some (plan, s) := by rw [h.engine]; exact hs
    have hs1' : EngineRun.step env' w' (.step k) = _ := EngineRun.step_eq hs'
      (by rw [h.engine]; exact hx')
    obtain rfl := Option.some.inj (hs1.symm.trans hw1)
    exact ⟨_, _, hs1, hs1', hE1, hy1, rfl, hnext, congrArg (· ++ _) h.events⟩

/-- **The same run** on both devices. -/
theorem EngineRun.run_lockstep (halike : ∀ k, AnswersAlike y T o R (env.dev k) (env'.dev k))
    (hplanned : ∀ s s' d d', R d d' → R (env.planned s s' d) (env'.planned s s' d'))
    (cs : List (EngineCall κ)) : ∀ {w : EngineRun δ} {w' : EngineRun δ'}, EngineInv T o w.engine →
    y.Refilled w.engine.executor → Lockstep R w w' →
    ∃ w1 w1', run (EngineRun.step env) w cs = some w1 ∧ run (EngineRun.step env') w' cs = some w1' ∧
      EngineInv T o w1.engine ∧ y.Refilled w1.engine.executor ∧ Lockstep R w1 w1' := by
  induction cs with
  | nil => exact fun hE hy h => ⟨_, _, rfl, rfl, hE, hy, h⟩
  | cons c cs ih =>
    intro w w' hE hy h
    obtain ⟨w1, w1', hs, hs', hE1, hy1, h1⟩ := step_lockstep halike hplanned hE hy h c
    obtain ⟨w2, w2', hr, hr', hE2, hy2, h2⟩ := ih hE1 hy1 h1
    exact ⟨w2, w2', by rw [run_cons, hs]; exact hr, by rw [run_cons, hs']; exact hr', hE2, hy2, h2⟩

end
end Redline
