import Redline.Engine.Reports
import Redline.Sched.Retry

/-!
# Retries

A step whose executor call throws leaves its plan behind, in the blocks and reservations that
`PlanStep` moved, and the mirrors its call filled.  Under `reserve_full` the next step finds both
done: it makes the same plan (`planStep_twice`) and fills the same mirrors (`launch_twice`), so it
ends as if there had been no attempt before (`Engine.step_again`).

`plan_retry`: planning is idempotent in every reachable state, and a run with failing attempts
before its steps makes the same plans and reports, and ends in the same engine.
-/

namespace Redline
open Prog Script

namespace Executor

/-- a log writes a cell, or leaves it alone -/
theorem afterLog_cell (k : Mirror) (i : Nat) (log : List Action) :
    (∀ m m', afterLog log m k i = afterLog log m' k i) ∨ ∀ m, afterLog log m k i = m k i := by
  induction log with
  | nil => exact Or.inr fun m => rfl
  | cons a log ih =>
    rcases ih with ih | ih
    · exact Or.inl fun m m' => ih _ _
    · have hcons : ∀ m, afterLog (a :: log) m k i = Action.apply m a k i := fun m => ih _
      cases a with
      | store w =>
        by_cases hw : w.mirror = k ∧ w.index = i
        · obtain ⟨rfl, rfl⟩ := hw
          refine Or.inl fun m m' => ?_
          rw [hcons, hcons]
          exact (store_self m w).trans (store_self m' w).symm
        · refine Or.inr fun m => ?_
          rw [hcons]
          refine store_other m w ?_
          by_cases hk : k = w.mirror
          · exact Or.inr fun hi => hw ⟨hk.symm, hi.symm⟩
          · exact Or.inl hk
      | _ => exact Or.inr hcons

/-- **Filling twice is filling once.** -/
theorem afterLog_twice (log : List Action) (m : Mirrors) :
    afterLog log (afterLog log m) = afterLog log m := by
  funext k i
  rcases afterLog_cell k i log with h | h
  · exact h _ _
  · exact h _

/-- the copies of a call find the same again -/
theorem inputsAfter_twice {fill work uploads : List Action} {kernels : List Kernel} {tokens : Nat}
    (hf : HostOnly fill) (hw : Work uploads kernels tokens work) (m : Mirrors) :
    inputsAfter (fill ++ work) (afterLog (fill ++ work) m) = inputsAfter (fill ++ work) m := by
  rw [hw.inputsAfter hf, hw.inputsAfter hf, afterLog_append, afterLog_of_noStore hw.noStore,
    afterLog_twice]

/-- **Launching twice**: the same kernels find the same inputs. -/
theorem launchOf_twice {x : Executor} {fill work uploads : List Action} {kernels : List Kernel}
    {tokens : Nat} (hf : HostOnly fill) (hw : Work uploads kernels tokens work) (batch : List Nat) :
    ({ x with mirrors := afterLog (fill ++ work) x.mirrors } : Executor).launchOf batch (fill ++ work)
      = x.launchOf batch (fill ++ work) := by
  unfold launchOf
  simp only [inputsAfter_twice hf hw]

/-- a call that decodes nothing logs nothing -/
theorem decode_nil {x : Executor} {log : List Action} {shape : DecodeShape}
    (h : Returns (x.decodeEager []) log shape ∨ Returns (x.decodeGraph []) log shape) : log = [] := by
  rcases h with h | h <;> exact (returns_pure_iff.mp h).1

/-- the launch of a decode call that returned, twice -/
theorem decodeLaunch_twice {x : Executor} {requests : List Request} {log : List Action}
    {shape : DecodeShape}
    (h : Returns (x.decodeEager requests) log shape ∨ Returns (x.decodeGraph requests) log shape)
    (batch : List Nat) :
    ({ x with mirrors := afterLog log x.mirrors } : Executor).launchOf batch log
      = x.launchOf batch log := by
  by_cases hne : requests = []
  · subst hne
    rw [decode_nil h]
    rfl
  · obtain ⟨fill, work, rfl, hf, hw⟩ := decode_split hne h
    exact launchOf_twice hf hw batch

end Executor

namespace Engine

variable {T : Nat} {o : SchedulerOptions} {e e' : Engine} {plan : StepPlan}

/-- the same launch again -/
theorem launch_twice {out : Except ExecutorError (Executed × Launch)} {x : Executor}
    (h : e.launch plan = some (out, x)) :
    ({ e with executor := x } : Engine).launch plan = some (out, x) := by
  unfold launch at h ⊢
  cases hp : plan.prefill with
  | some r =>
    simp only [hp] at h ⊢
    cases hc : e.executor.prefillChunk false (e.sched.heap r) plan.prefillBegin plan.prefillEnd with
    | none => simp only [hc] at h; cases h
    | some y =>
      obtain ⟨log, out'⟩ := y
      simp only [hc] at h
      have hx : x = { e.executor with mirrors := Executor.afterLog log e.executor.mirrors } := by
        cases out' with
        | error err => exact (congrArg Prod.snd (Option.some.inj h)).symm
        | ok shape => exact (congrArg Prod.snd (Option.some.inj h)).symm
      have hc' : x.prefillChunk false (e.sched.heap r) plan.prefillBegin plan.prefillEnd
          = some (log, out') := by
        rw [hx]
        exact hc
      have hm : ({ x with mirrors := Executor.afterLog log x.mirrors } : Executor) = x := by
        rw [hx, Executor.afterLog_twice]
      have hl : ∀ shape, out' = .ok shape →
          x.launchOf (List.replicate shape.rows r) log
            = e.executor.launchOf (List.replicate shape.rows r) log := fun shape ho => by
        rw [ho] at hc
        obtain ⟨fill, work, mode, rfl, hf, hw⟩ := Executor.prefill_split hc
        rw [hx]
        exact Executor.launchOf_twice hf hw _
      simp only [hc', hm]
      rw [← hx] at h
      cases out' with
      | error err => exact h
      | ok shape =>
        simp only [hl shape rfl]
        exact h
  | none =>
    simp only [hp] at h ⊢
    cases hc : (if e.replaysGraph plan.decode.length then
        e.executor.decodeGraph (plan.decode.map e.sched.heap)
        else e.executor.decodeEager (plan.decode.map e.sched.heap)) with
    | none => simp only [hc] at h; cases h
    | some y =>
      obtain ⟨log, out'⟩ := y
      simp only [hc] at h
      have hx : x = { e.executor with mirrors := Executor.afterLog log e.executor.mirrors } := by
        cases out' with
        | error err => exact (congrArg Prod.snd (Option.some.inj h)).symm
        | ok shape => exact (congrArg Prod.snd (Option.some.inj h)).symm
      have hc' : (if ({ e with executor := x } : Engine).replaysGraph plan.decode.length then
          x.decodeGraph (plan.decode.map e.sched.heap)
          else x.decodeEager (plan.decode.map e.sched.heap)) = some (log, out') := by
        rw [hx]
        exact hc
      have hm : ({ x with mirrors := Executor.afterLog log x.mirrors } : Executor) = x := by
        rw [hx, Executor.afterLog_twice]
      have hr : ({ e with executor := x } : Engine).replaysGraph plan.decode.length
          = e.replaysGraph plan.decode.length := by
        rw [hx]
        rfl
      have hl : ∀ shape, out' = .ok shape →
          x.launchOf plan.decode log = e.executor.launchOf plan.decode log := fun shape ho => by
        rw [ho] at hc
        have hreturned : Returns (e.executor.decodeEager (plan.decode.map e.sched.heap)) log shape ∨
            Returns (e.executor.decodeGraph (plan.decode.map e.sched.heap)) log shape := by
          split at hc
          · exact Or.inr hc
          · exact Or.inl hc
        rw [hx]
        exact Executor.decodeLaunch_twice hreturned plan.decode
      simp only [hc', hm]
      rw [hr]
      rw [← hx] at h
      cases out' with
      | error err => exact h
      | ok shape =>
        simp only [hl shape rfl]
        exact h

/-- under `reserve_full` a plan that is not empty has rows -/
theorem busy_of_not_empty (hp : o.admissionPolicy = .kReserveFull)
    {s : Scheduler} (hP : Scheduler.Planned T o e.sched plan s) (hn : ¬ plan.empty = true) :
    ¬ (plan.prefill.isNone && plan.decode.isEmpty) = true := by
  intro hidle
  have hab : plan.aborted = [] := by
    cases hP with
    | prefill s1 k r rest h => rw [h.shape]; rfl
    | decode blocked h =>
      by_contra hne
      have := (h.aborts hne).1
      rw [hp] at this
      cases this
  refine hn ?_
  unfold StepPlan.empty
  rw [hidle, hab]
  rfl

/-- **A failed attempt** makes its plan and reports nothing; every further attempt ends as it would
have ended at once. -/
theorem attempt_spec (hE : EngineInv T o e) (hp : o.admissionPolicy = .kReserveFull)
    (err : ExecutorError) : ∃ plan s out x, e.sched.planStep = some (plan, s) ∧
      s.planStep = some (plan, s) ∧
      e.step (hostOnly.dev (.error err)) () = some (out, { e with sched := s, executor := x }, ()) ∧
      (Event.stepped plan out).results = [] ∧
      ∀ k, ({ e with sched := s, executor := x } : Engine).step (hostOnly.dev k) ()
        = e.step (hostOnly.dev k) () := by
  obtain ⟨plan, s, hs, hP⟩ := Scheduler.planStep_spec hE.sched
  have hs2 := Scheduler.planStep_twice hE.sched hp hs
  have hE1 := EngineInv.planned hE hP
  by_cases hempty : plan.empty = true
  · refine ⟨plan, s, .ok [], e.executor, hs, hs2, ?_, rfl, fun k => ?_⟩
    · unfold step
      simp only [hs, Option.bind_eq_bind, Option.bind_some, if_pos hempty]
      rfl
    · unfold step
      simp only [hs, hs2, Option.bind_eq_bind, Option.bind_some, if_pos hempty]
  · have hbusy := busy_of_not_empty hp hP hempty
    have hne : plan.prefill = none → plan.decode ≠ [] := by
      intro h1 h2
      rw [h1, h2] at hbusy
      exact hbusy rfl
    obtain ⟨out, m, hl, _⟩ := launch_spec hE1.sched hE1.fits (hP.planOk hE.sched) hne hE1.prompts
    have hl2 := launch_twice hl
    have hagain : ∀ k, ({ e with sched := s, executor := { e.executor with mirrors := m } } : Engine).step
        (hostOnly.dev k) () = e.step (hostOnly.dev k) () := by
      intro k
      unfold step execute
      simp only [hs, hs2, Option.bind_eq_bind, Option.bind_some, if_neg hempty, if_neg hbusy, hl, hl2]
    cases out with
    | error err' =>
      refine ⟨plan, s, .error err', _, hs, hs2, ?_, rfl, hagain⟩
      unfold step execute
      simp only [hs, Option.bind_eq_bind, Option.bind_some, if_neg hempty, if_neg hbusy, hl]
      rfl
    | ok p =>
      obtain ⟨done, l⟩ := p
      refine ⟨plan, s, .error err, _, hs, hs2, ?_, rfl, hagain⟩
      unfold step execute
      simp only [hs, Option.bind_eq_bind, Option.bind_some, if_neg hempty, if_neg hbusy, hl, hostOnly]
      rfl

end Engine

/-! ## runs with retries -/

/-- a call of a run whose device has no state -/
abbrev HostCall := EngineCall (Except ExecutorError (Nat → Int))

/-- attempts at a step, each ended by the exception of the executor -/
def attempts (errs : List ExecutorError) : List HostCall := errs.map fun err => .step (.error err)

/-- the calls `cs` with failing attempts before some of the steps -/
inductive Retried : List HostCall → List HostCall → Prop where
  | nil : Retried [] []
  | addRequest (a : RequestArgs) {cs ds : List HostCall} (rest : Retried cs ds) :
      Retried (.addRequest a :: cs) (.addRequest a :: ds)
  | step (errs : List ExecutorError) (k : Except ExecutorError (Nat → Int)) {cs ds : List HostCall}
      (rest : Retried cs ds) : Retried (.step k :: cs) (attempts errs ++ .step k :: ds)

/-- a step that made this plan and reported nothing -/
def Attempt (plan : StepPlan) (event : Event) : Prop :=
  event.results = [] ∧ ∃ out, event = .stepped plan out

/-- the log `l` with attempts at the same plan in front of some of its steps -/
inductive RetriedLog : List Event → List Event → Prop where
  | nil : RetriedLog [] []
  | other {l l' : List Event} (h : RetriedLog l l') (event : Event) :
      RetriedLog (l ++ [event]) (l' ++ [event])
  | stepped {l l' : List Event} (h : RetriedLog l l') (plan : StepPlan)
      (out : Except ExecutorError (List StepResult)) (failed : List Event)
      (same : ∀ event ∈ failed, Attempt plan event) :
      RetriedLog (l ++ [.stepped plan out]) (l' ++ failed ++ [.stepped plan out])

/-- the reports are the ones of the run without failures -/
theorem RetriedLog.reports {l l' : List Event} (h : RetriedLog l l') : reports l' = reports l := by
  induction h with
  | nil => rfl
  | other h event ih => rw [reports_append, reports_append, ih]
  | stepped h plan out failed same ih =>
    have hnone : Redline.reports failed = [] := by
      apply List.flatMap_eq_nil_iff.mpr
      intro event he
      exact (same event he).1
    rw [reports_append, reports_append, ← ih]
    congr 1
    show List.flatMap Event.results _ = _
    rw [List.flatMap_append]
    show _ ++ Redline.reports failed = _
    rw [hnone, List.append_nil]
    rfl

section
variable {T : Nat} {o : SchedulerOptions}

/-- a request is added to two equal engines -/
theorem addRequest_same {w v w1 : EngineRun Unit} {a : RequestArgs} (he : v.engine = w.engine)
    (h : EngineRun.step hostOnly w (.addRequest a) = some w1) :
    ∃ v1 event, EngineRun.step hostOnly v (.addRequest a) = some v1 ∧ v1.engine = w1.engine ∧
      w1.events = w.events ++ [event] ∧ v1.events = v.events ++ [event] := by
  unfold EngineRun.step at h ⊢
  rw [he]
  cases hadd : w.engine.addRequest a with
  | none => simp only [hadd, Option.bind_eq_bind, Option.bind_none] at h; cases h
  | some res =>
    simp only [hadd, Option.bind_eq_bind, Option.bind_some] at h ⊢
    cases res with
    | error err =>
      obtain rfl := Option.some.inj h
      exact ⟨_, .refused err, rfl, rfl, rfl, rfl⟩
    | ok res =>
      obtain rfl := Option.some.inj h
      exact ⟨_, .added res.1 a, rfl, rfl, rfl, rfl⟩

/-- **Attempts** at one step: each makes the same plan, and the step after them ends as it would
have ended before them. -/
theorem attempts_run (hp : o.admissionPolicy = .kReserveFull) (errs : List ExecutorError) :
    ∀ v : EngineRun Unit, EngineInv T o v.engine →
      ∃ v' plan s s' failed, run (EngineRun.step hostOnly) v (attempts errs) = some v' ∧
        EngineInv T o v'.engine ∧ v'.events = v.events ++ failed ∧
        v.engine.sched.planStep = some (plan, s) ∧ v'.engine.sched.planStep = some (plan, s') ∧
        (∀ event ∈ failed, Attempt plan event) ∧
        ∀ k, v'.engine.step (hostOnly.dev k) () = v.engine.step (hostOnly.dev k) () := by
  induction errs with
  | nil =>
    intro v hE
    obtain ⟨plan, s, hs, _⟩ := Scheduler.planStep_spec hE.sched
    exact ⟨v, plan, s, s, [], rfl, hE, (List.append_nil _).symm, hs, hs,
      fun event he => absurd he List.not_mem_nil, fun k => rfl⟩
  | cons err errs ih =>
    intro v hE
    obtain ⟨plan, s, out, x, hs, hs2, hstep, hres, hagain⟩ := Engine.attempt_spec hE hp err
    have hcall : EngineRun.step hostOnly v (.step (.error err)) = some _ :=
      EngineRun.step_eq hs hstep
    obtain ⟨v1, hv1, hE1, _⟩ := EngineRun.step_spec hostOnly hE (.step (.error err))
    obtain rfl := Option.some.inj (hv1.symm.trans hcall)
    obtain ⟨v', plan', s1, s', failed, hrun, hE', hlog, hs1, hs', hsame, hk⟩ := ih _ hE1
    obtain ⟨rfl, rfl⟩ := Prod.mk.inj (Option.some.inj (hs2.symm.trans hs1))
    refine ⟨v', plan, s, s', .stepped plan out :: failed, ?_, hE', ?_, hs, hs', ?_, ?_⟩
    · show run _ v (.step (.error err) :: attempts errs) = _
      rw [run_cons, hcall]
      exact hrun
    · rw [hlog, List.append_assoc]
      rfl
    · intro event he
      rcases List.mem_cons.mp he with rfl | he
      · exact ⟨hres, out, rfl⟩
      · exact hsame event he
    · intro k
      rw [hk]
      exact hagain k

/-- **Attempts change nothing**: with them, the run ends in the same engine. -/
theorem Retried.run (hp : o.admissionPolicy = .kReserveFull) {cs ds : List HostCall}
    (hR : Retried cs ds) : ∀ w v : EngineRun Unit, EngineInv T o w.engine → v.engine = w.engine →
      RetriedLog w.events v.events → ∃ w' v', Prog.run (EngineRun.step hostOnly) w cs = some w' ∧
        Prog.run (EngineRun.step hostOnly) v ds = some v' ∧ EngineInv T o w'.engine ∧
        v'.engine = w'.engine ∧ RetriedLog w'.events v'.events := by
  induction hR with
  | nil => exact fun w v hE he hl => ⟨w, v, rfl, rfl, hE, he, hl⟩
  | addRequest a rest ih =>
    intro w v hE he hl
    obtain ⟨w1, hw1, hE1, _⟩ := EngineRun.step_spec hostOnly hE (.addRequest a)
    obtain ⟨v1, event, hv1, he1, hwl, hvl⟩ := addRequest_same he hw1
    have hl1 : RetriedLog w1.events v1.events := by
      rw [hwl, hvl]
      exact .other hl event
    obtain ⟨w', v', hw', hv', h⟩ := ih w1 v1 hE1 he1 hl1
    refine ⟨w', v', ?_, ?_, h⟩
    · rw [run_cons, hw1]
      exact hw'
    · rw [run_cons, hv1]
      exact hv'
  | step errs k rest ih =>
    intro w v hE he hl
    obtain ⟨v1, plan, s, s', failed, hrun, hE1, hlog, hs, hs', hsame, hk⟩ :=
      attempts_run hp errs v (he ▸ hE)
    rw [he] at hs
    obtain ⟨plan', s1, out, e, d, hs1, hstep, hP, hend⟩ :=
      Engine.step_spec hE (hostOnly.dev k) ()
    obtain ⟨rfl, rfl⟩ := Prod.mk.inj (Option.some.inj (hs.symm.trans hs1))
    have hw1 : EngineRun.step hostOnly w (.step k) = some _ := EngineRun.step_eq hs hstep
    have hv1 : EngineRun.step hostOnly v1 (.step k) = some _ :=
      EngineRun.step_eq hs' ((hk k).trans (he ▸ hstep))
    have hE2 := hend.inv (Engine.EngineInv.planned hE hP)
    have hl1 : RetriedLog (w.events ++ [.stepped plan out]) (v1.events ++ [.stepped plan out]) := by
      rw [hlog]
      exact .stepped hl plan out failed hsame
    obtain ⟨w', v', hw', hv', h⟩ := ih ⟨e, d, w.events ++ [.stepped plan out]⟩
      ⟨e, d, v1.events ++ [.stepped plan out]⟩ hE2 rfl hl1
    refine ⟨w', v', ?_, ?_, h⟩
    · rw [run_cons, hw1]
      exact hw'
    · rw [run_append, hrun, Option.bind_some, run_cons, hv1]
      exact hv'

end

/-- **Planning is idempotent** in every state that a run reaches under `reserve_full`, and failing
attempts before the steps of a run leave its plans, its reports and its final engine alone. -/
theorem plan_retry (config : ModelConfig) (options : EngineOptions) (captured : Bool)
    (probe : Nat → Nat → Option PrefillGemmMode) (e : Engine)
    (he : Engine.make config options captured probe = .ok e)
    (hp : options.admissionPolicy = .kReserveFull) :
    (∀ cs : List HostCall, ∃ w plan s, run (EngineRun.step hostOnly) (.init e ()) cs = some w ∧
      w.engine.sched.planStep = some (plan, s) ∧ s.planStep = some (plan, s)) ∧
    (∀ cs ds : List HostCall, Retried cs ds → ∃ w v,
      run (EngineRun.step hostOnly) (.init e ()) cs = some w ∧
      run (EngineRun.step hostOnly) (.init e ()) ds = some v ∧
      v.engine = w.engine ∧ RetriedLog w.events v.events ∧ reports v.events = reports w.events) := by
  have hE := EngineInv.make he
  have hp' : (Engine.schedulerOptions config options).admissionPolicy = .kReserveFull := hp
  constructor
  · intro cs
    obtain ⟨w, hw, hEw, _⟩ := @EngineRun.run_keeps _ _ _ _ hostOnly (.init e ()) (fun _ => True)
      (fun _ _ _ _ _ _ => trivial) hE trivial cs
    obtain ⟨plan, s, hs, _⟩ := Scheduler.planStep_spec hEw.sched
    exact ⟨w, plan, s, hw, hs, Scheduler.planStep_twice hEw.sched hp' hs⟩
  · intro cs ds hR
    obtain ⟨w, v, hw, hv, _, he', hl⟩ := hR.run hp' (.init e ()) (.init e ()) hE rfl .nil
    exact ⟨w, v, hw, hv, he', hl, hl.reports⟩

/-- an attempt that fails after the admission, and the same run without it -/
theorem plan_retry_example :
    ∃ w v, run (EngineRun.step hostOnly) (.init (tinyEngine .kReserveFull) ())
        [.addRequest { promptTokens := [1, 2], maxNewTokens := 4 }, .step (.ok fun _ => 4)] = some w ∧
      run (EngineRun.step hostOnly) (.init (tinyEngine .kReserveFull) ())
        [.addRequest { promptTokens := [1, 2], maxNewTokens := 4 },
          .step (.error (.device "launch")), .step (.ok fun _ => 4)] = some v ∧
      v.engine = w.engine ∧ RetriedLog w.events v.events ∧ reports v.events = reports w.events :=
  (plan_retry tinyConfig (tinyOptions .kReserveFull) true tinyProbe (tinyEngine .kReserveFull)
    (tinyEngine_make .kReserveFull) rfl).2 _ _
    (.addRequest _ (.step [.device "launch"] _ .nil))

end Redline
