import Redline.Engine.Launch
import Redline.Sched.Drain

/-!
# Runs of the engine

`EngineInv T o e`: the scheduler invariant, the sizes of the executor, and what `AddRequest`
guarantees about every request it let in.

`Engine.step_spec` says once what a `Step` does (`Planned`, then `Ended`), whatever the device
does: the plan is empty, only evicts, is refused by the executor, is cut short by an exception of
the device, or is carried out.  A run is a list of `AddRequest` and `Step` calls; the caller
catches whatever is thrown and goes on.  `EngineRun.run_spec`: it never gets stuck, and keeps what
every call keeps.
-/

namespace Redline
open Prog Script

structure EngineInv (T : Nat) (o : SchedulerOptions) (e : Engine) : Prop where
  sched : Inv T o e.sched
  fits : Fits e.executor T o
  batch_pos : 1 ≤ o.maxBatch
  nextId : e.nextRequestId = e.sched.nextPtr + 1
  ids : ∀ r < e.sched.nextPtr, (e.sched.heap r).id = r + 1
  prompts : ∀ r < e.sched.nextPtr, ∀ t ∈ (e.sched.heap r).promptTokens, e.executor.inVocabulary t
  forced : ∀ r < e.sched.nextPtr, ∀ t ∈ (e.sched.heap r).forcedTokens, e.executor.inVocabulary t

/-- `x` is `y` with other contents in its mirrors -/
def Executor.Refilled (y x : Executor) : Prop := ∃ m, x = { y with mirrors := m }

theorem Executor.Refilled.trans {x y z : Executor} (h : z.Refilled y) (h' : y.Refilled x) :
    z.Refilled x := by
  obtain ⟨m, rfl⟩ := h
  obtain ⟨m', rfl⟩ := h'
  exact ⟨m', rfl⟩

/-! ## the constructor -/

theorem computeBudget_ok {c : ModelConfig} {o : ExecutorOptions} {n : Int}
    (h : computeBudget c o = .ok n) : validateGeometry c o = .ok () ∧ 2 ≤ n := by
  unfold computeBudget at h
  cases hg : validateGeometry c o with
  | error err => rw [hg] at h; cases h
  | ok u =>
    rw [hg] at h
    simp only [bind, Except.bind] at h
    split at h
    · cases h
    · obtain rfl := Except.ok.inj h
      exact ⟨rfl, by omega⟩

/-- the executor of an accepted configuration -/
theorem executor_of_make {c : ModelConfig} {o : ExecutorOptions} {captured : Bool}
    {probe : Nat → Nat → Option PrefillGemmMode} {x : Executor}
    (h : Executor.make c o captured probe = .ok x) :
    validateGeometry c o = .ok () ∧ x.config = c ∧ x.options = o ∧
      x.buckets = makeDecodeBuckets o.maxBatch.toNat ∧
      x.maxBlocksPerSeq = blocksForTokens o.maxSeqLen.toNat ∧ 2 ≤ x.numKvBlocks := by
  unfold Executor.make at h
  cases hb : computeBudget c o with
  | error err => rw [hb] at h; cases h
  | ok n =>
    rw [hb] at h
    obtain ⟨hg, hn⟩ := computeBudget_ok hb
    obtain rfl := Except.ok.inj h
    exact ⟨hg, rfl, rfl, rfl, rfl, hn⟩

/-- the number of KV blocks of the pool -/
def Engine.totalBlocks (e : Engine) : Nat := e.executor.numKvBlocks.toNat

/-- the engine its constructor leaves behind -/
theorem Engine.make_eq {c : ModelConfig} {eo : EngineOptions} {captured : Bool}
    {probe : Nat → Nat → Option PrefillGemmMode} {e : Engine}
    (h : Engine.make c eo captured probe = .ok e) :
    ∃ x, Executor.make c (makeExecutorOptions eo) captured probe = .ok x ∧ e =
      { executor := x
        sched := .make x.numKvBlocks.toNat (Engine.schedulerOptions c eo)
        nextRequestId := 1
        requests := fun _ => none
        stats := { bucketDecodeSteps := x.buckets.map fun _ => 0 } } := by
  unfold Engine.make at h
  split at h
  · cases h
  · cases hx : Executor.make c (makeExecutorOptions eo) captured probe with
    | error err => rw [hx] at h; cases h
    | ok x =>
      rw [hx] at h
      exact ⟨x, rfl, (Except.ok.inj h).symm⟩

theorem EngineInv.make {c : ModelConfig} {eo : EngineOptions} {captured : Bool}
    {probe : Nat → Nat → Option PrefillGemmMode} {e : Engine}
    (h : Engine.make c eo captured probe = .ok e) :
    EngineInv e.totalBlocks (Engine.schedulerOptions c eo) e := by
  obtain ⟨x, hx, rfl⟩ := Engine.make_eq h
  obtain ⟨hv, hc, ho, hb, hw, hn⟩ := executor_of_make hx
  have hall := geometry_of_ok hv
  have h1 : 1 ≤ eo.maxBatch := of_decide_eq_true (hall (_, _)
    (by simp only [geometryChecks]; exact .tail _ (.tail _ (.tail _ (.head _)))))
  have h2 : 1 ≤ eo.maxSeqLen := of_decide_eq_true (hall (_, _)
    (by simp only [geometryChecks]; exact .tail _ (.tail _ (.tail _ (.tail _ (.head _))))))
  have h3 : 1 ≤ eo.prefillChunkTokens := of_decide_eq_true (hall (_, _)
    (by simp only [geometryChecks]; exact .tail _ (.tail _ (.tail _ (.tail _ (.tail _ (.head _)))))))
  have ht : Tuned (Engine.schedulerOptions c eo) := by
    refine ⟨?_, by show (0 : ℚ) ≤ 1 / 10; norm_num⟩
    show 1 ≤ eo.prefillChunkTokens.toNat
    omega
  refine ⟨Inv.init ht, ⟨?_, ?_, ?_, ?_, hw, hb, ?_⟩, ?_, rfl, ?_, ?_, ?_⟩
  · show x.numKvBlocks = x.numKvBlocks.toNat
    omega
  · show x.options.maxBatch = eo.maxBatch.toNat
    rw [ho]; show eo.maxBatch = _; omega
  · show x.options.maxSeqLen = eo.maxSeqLen.toNat
    rw [ho]; show eo.maxSeqLen = _; omega
  · show x.options.prefillChunkTokens = eo.prefillChunkTokens.toNat
    rw [ho]; show eo.prefillChunkTokens = _; omega
  · have hdims := of_decide_eq_true (hall (_, _) List.mem_cons_self)
    show 0 < x.config.numLayers.toNat
    rw [hc]
    omega
  · show 1 ≤ eo.maxBatch.toNat
    omega
  all_goals exact fun r hr => absurd hr (Nat.not_lt_zero r)

/-! ## adding a request -/

namespace Engine

variable {T : Nat} {o : SchedulerOptions} {e : Engine}

theorem checkTokens_ok {tokens : List Int} {what : String}
    (h : e.checkTokens tokens what = .ok ()) : ∀ t ∈ tokens, e.executor.inVocabulary t := by
  intro t ht
  unfold checkTokens at h
  cases hf : tokens.find? fun t => decide (¬ e.executor.inVocabulary t) with
  | some q => rw [hf] at h; cases h
  | none => simpa using List.find?_eq_none.mp hf t ht

/-- the engine with a new request -/
def added (e : Engine) (a : RequestArgs) : Engine :=
  { e with
    sched := { e.sched with
      heap := Function.update e.sched.heap e.sched.nextPtr (a.request e.nextRequestId)
      waiting := e.sched.waiting ++ [e.sched.nextPtr]
      nextPtr := e.sched.nextPtr + 1 }
    nextRequestId := e.nextRequestId + 1
    requests := Function.update e.requests e.nextRequestId (some e.sched.nextPtr) }

/-- what `AddRequest` guarantees about a request it lets in -/
structure Accepted (o : SchedulerOptions) (e : Engine) (a : RequestArgs) : Prop where
  valid : Valid e.sched.allocator.usableBlocks o (a.request e.nextRequestId)
  prompt : ∀ t ∈ a.promptTokens, e.executor.inVocabulary t
  forced : ∀ t ∈ a.forcedTokens, e.executor.inVocabulary t

/-- **AddRequest returns**; a rejected request leaves no trace -/
theorem addRequest_spec (hE : EngineInv T o e) (a : RequestArgs) :
    (∃ err, e.addRequest a = some (.error err)) ∨
    (e.addRequest a = some (.ok (e.nextRequestId, e.added a)) ∧ Accepted o e a) := by
  unfold addRequest
  cases hp : e.checkTokens a.promptTokens "prompt_tokens" with
  | error err => exact Or.inl ⟨err, rfl⟩
  | ok u =>
    cases hf : e.checkTokens a.forcedTokens "forced_tokens" with
    | error err => exact Or.inl ⟨err, rfl⟩
    | ok u' =>
      have hw : WaitingReq (a.request e.nextRequestId) := ⟨rfl, rfl, rfl, rfl, rfl, rfl, rfl⟩
      rcases Scheduler.enqueue_spec hE.sched hw with ⟨err, he⟩ | ⟨hv, he⟩
      · exact Or.inl ⟨err, by simp only [he]; rfl⟩
      · exact Or.inr ⟨by simp only [he]; rfl, hv, checkTokens_ok hp, checkTokens_ok hf⟩

theorem EngineInv.added (hE : EngineInv T o e) {a : RequestArgs} (hA : Accepted o e a) :
    EngineInv T o (e.added a) := by
  have hw : WaitingReq (a.request e.nextRequestId) := ⟨rfl, rfl, rfl, rfl, rfl, rfl, rfl⟩
  have hcases : ∀ r < e.sched.nextPtr + 1, (r = e.sched.nextPtr ∧
      (e.added a).sched.heap r = a.request e.nextRequestId) ∨
      (r < e.sched.nextPtr ∧ (e.added a).sched.heap r = e.sched.heap r) := by
    intro r hr
    by_cases hn : r = e.sched.nextPtr
    · subst hn
      exact Or.inl ⟨rfl, Function.update_self ..⟩
    · exact Or.inr ⟨by omega, Function.update_of_ne hn _ _⟩
  refine ⟨hE.sched.queued hw hA.valid, hE.fits, hE.batch_pos, ?_, ?_, ?_, ?_⟩
  · show e.nextRequestId + 1 = e.sched.nextPtr + 1 + 1
    rw [hE.nextId]
  · intro r hr
    rcases hcases r hr with ⟨rfl, h⟩ | ⟨hlt, h⟩
    · rw [h]; exact hE.nextId
    · rw [h]; exact hE.ids r hlt
  · intro r hr
    rcases hcases r hr with ⟨rfl, h⟩ | ⟨hlt, h⟩
    · rw [h]; exact hA.prompt
    · rw [h]; exact hE.prompts r hlt
  · intro r hr
    rcases hcases r hr with ⟨rfl, h⟩ | ⟨hlt, h⟩
    · rw [h]; exact hA.forced
    · rw [h]; exact hE.forced r hlt

/-! ## a step -/

variable {δ : Type} {dev : Device δ} {d : δ} {plan : StepPlan}

/-- the engine after its plan was completed -/
def finish (e : Engine) (plan : StepPlan) (done : Executed) (results : List StepResult)
    (sched : Scheduler) : Engine :=
  { e with
    sched
    stats := e.count plan done
    requests := dropFinished e.requests results }

/-- how a step ends, from the engine `e` whose plan stands -/
inductive Ended (T : Nat) (o : SchedulerOptions) (dev : Device δ) (d : δ) (e : Engine)
    (plan : StepPlan) : Except ExecutorError (List StepResult) → Engine → δ → Prop where
  | idle (empty : plan.empty = true) : Ended T o dev d e plan (.ok []) e d
  | evictions (prefill : plan.prefill = none) (decode : plan.decode = [])
      (results : List StepResult) (s : Scheduler)
      (completed : Scheduler.Completed T o e.sched plan [] results s) :
      Ended T o dev d e plan (.ok results) (e.finish plan {} results s) d
  | refused (m : Mirrors) (err : ExecutorError)
      (launch : e.launch plan = some (.error err, { e.executor with mirrors := m }))
      (busy : plan.prefill = none → plan.decode ≠ []) :
      Ended T o dev d e plan (.error err) { e with executor := { e.executor with mirrors := m } } d
  | threw (m : Mirrors) (done : Executed) (l : Launch) (err : ExecutorError) (d' : δ)
      (launch : e.launch plan = some (.ok (done, l), { e.executor with mirrors := m }))
      (launched : Launched e.executor o e.sched plan l) (device : dev l d = (.error err, d'))
      (busy : plan.prefill = none → plan.decode ≠ []) :
      Ended T o dev d e plan (.error err) { e with executor := { e.executor with mirrors := m } } d'
  | done (m : Mirrors) (done : Executed) (l : Launch) (argmax : Nat → Int) (d' : δ)
      (results : List StepResult) (s : Scheduler)
      (launch : e.launch plan = some (.ok (done, l), { e.executor with mirrors := m }))
      (launched : Launched e.executor o e.sched plan l) (device : dev l d = (.ok argmax, d'))
      (completed : Scheduler.Completed T o e.sched plan ((List.range l.tokens).map argmax) results s) :
      Ended T o dev d e plan (.ok results)
        (finish { e with executor := { e.executor with mirrors := m } } plan done results s) d'

/-- a plan that is not empty is carried out, or an exception ends it -/
theorem execute_spec (hE : EngineInv T o e) (hP : Scheduler.PlanOk o e.sched plan) (dev : Device δ)
    (d : δ) : ∃ res e' d', e.execute dev d plan = some (res, e', d') ∧
      Ended T o dev d e plan res e' d' := by
  unfold execute
  by_cases hn : (plan.prefill.isNone && plan.decode.isEmpty) = true
  · have hp : plan.prefill = none := by simpa using (Bool.and_eq_true_iff.mp hn).1
    have hd : plan.decode = [] := by simpa using (Bool.and_eq_true_iff.mp hn).2
    have hlen : ([] : List Int).length = e.sched.tokensDue plan := by
      unfold Scheduler.tokensDue
      rw [hp, hd]
      rfl
    obtain ⟨results, s, hs, hC⟩ := Scheduler.completeStep_spec hE.sched hP hlen
    refine ⟨_, _, d, ?_, .evictions hp hd results s hC⟩
    rw [if_pos hn]
    simp only [complete, hs, Option.bind_eq_bind, Option.bind_some]
    rfl
  · have hne : plan.prefill = none → plan.decode ≠ [] := by
      intro h1 h2
      rw [h1, h2] at hn
      exact hn rfl
    obtain ⟨out, m, hl, hL⟩ := launch_spec hE.sched hE.fits hP hne hE.prompts
    rw [if_neg hn]
    cases out with
    | error err =>
      exact ⟨_, _, _, by simp only [hl, Option.bind_eq_bind, Option.bind_some]; rfl,
        .refused m err hl hne⟩
    | ok p =>
      obtain ⟨done, l⟩ := p
      have hlaunched := hL done l rfl
      cases hdev : dev l d with
      | mk r d1 =>
        cases r with
        | error err =>
          exact ⟨_, _, _, by simp only [hl, hdev, Option.bind_eq_bind, Option.bind_some]; rfl,
            .threw m done l err d1 hl hlaunched hdev hne⟩
        | ok argmax =>
          have hlen : ((List.range l.tokens).map argmax).length = e.sched.tokensDue plan := by
            rw [List.length_map, List.length_range, hlaunched.tokens]
          obtain ⟨results, s, hs, hC⟩ := Scheduler.completeStep_spec hE.sched hP hlen
          refine ⟨_, _, _, ?_, .done m done l argmax d1 results s hl hlaunched hdev hC⟩
          simp only [hl, hdev, complete, hs, Option.bind_eq_bind, Option.bind_some]
          rfl

theorem EngineInv.planned (hE : EngineInv T o e) {s : Scheduler}
    (hP : Scheduler.Planned T o e.sched plan s) : EngineInv T o { e with sched := s } := by
  have hn := Planned.nextPtr hP
  have hask : ∀ r, (s.heap r).asked = (e.sched.heap r).asked := fun r => (Planned.carried hP r).asked
  refine ⟨hP.inv, hE.fits, hE.batch_pos, ?_, ?_, ?_, ?_⟩
  · show e.nextRequestId = s.nextPtr + 1
    rw [hn]; exact hE.nextId
  · intro r hr
    exact (congrArg NewRequest.id (hask r)).trans (hE.ids r (hn ▸ hr))
  · intro r hr
    have hp : (s.heap r).promptTokens = _ := congrArg NewRequest.promptTokens (hask r)
    rw [hp]; exact hE.prompts r (hn ▸ hr)
  · intro r hr
    have hp : (s.heap r).forcedTokens = _ := congrArg NewRequest.forcedTokens (hask r)
    rw [hp]; exact hE.forced r (hn ▸ hr)

theorem EngineInv.completed (hE : EngineInv T o e) {sampled : List Int} {results : List StepResult}
    {s : Scheduler} (hC : Scheduler.Completed T o e.sched plan sampled results s) (done : Executed) :
    EngineInv T o (e.finish plan done results s) := by
  have hn := Completed.nextPtr hC
  have hask : ∀ r, (s.heap r).asked = (e.sched.heap r).asked := fun r => (Completed.cases hC r).asked
  refine ⟨hC.inv, hE.fits, hE.batch_pos, ?_, ?_, ?_, ?_⟩
  · show e.nextRequestId = s.nextPtr + 1
    rw [hn]; exact hE.nextId
  · intro r hr
    exact (congrArg NewRequest.id (hask r)).trans (hE.ids r (hn ▸ hr))
  · intro r hr
    have hp : (s.heap r).promptTokens = _ := congrArg NewRequest.promptTokens (hask r)
    show ∀ t ∈ (s.heap r).promptTokens, _
    rw [hp]; exact hE.prompts r (hn ▸ hr)
  · intro r hr
    have hp : (s.heap r).forcedTokens = _ := congrArg NewRequest.forcedTokens (hask r)
    show ∀ t ∈ (s.heap r).forcedTokens, _
    rw [hp]; exact hE.forced r (hn ▸ hr)

/-- only the mirrors change -/
theorem EngineInv.mirrors (hE : EngineInv T o e) (m : Mirrors) :
    EngineInv T o { e with executor := { e.executor with mirrors := m } } :=
  ⟨hE.sched, ⟨hE.fits.blocks, hE.fits.batch, hE.fits.seqLen, hE.fits.chunk, hE.fits.width,
    hE.fits.buckets, hE.fits.layers⟩, hE.batch_pos, hE.nextId, hE.ids, hE.prompts, hE.forced⟩

theorem Ended.inv {res : Except ExecutorError (List StepResult)} {e' : Engine} {d' : δ}
    (hE : EngineInv T o e) (h : Ended T o dev d e plan res e' d') : EngineInv T o e' := by
  cases h with
  | idle empty => exact hE
  | evictions prefill decode results s completed => exact EngineInv.completed hE completed {}
  | refused m err launch busy => exact EngineInv.mirrors hE m
  | threw m done l err d' launch launched device busy => exact EngineInv.mirrors hE m
  | done m done l argmax d' results s launch launched device completed =>
    exact EngineInv.completed (EngineInv.mirrors hE m) completed done

/-- the executor stays, but for what its mirrors hold -/
theorem Ended.refilled {res : Except ExecutorError (List StepResult)} {e' : Engine} {d' : δ}
    (h : Ended T o dev d e plan res e' d') : e.executor.Refilled e'.executor := by
  cases h with
  | idle empty => exact ⟨_, rfl⟩
  | evictions prefill decode results s completed => exact ⟨_, rfl⟩
  | refused m err launch busy => exact ⟨m, rfl⟩
  | threw m done l err d' launch launched device busy => exact ⟨m, rfl⟩
  | done m done l argmax d' results s launch launched device completed => exact ⟨m, rfl⟩

/-- the requests stay the ones that were asked for -/
theorem Ended.asked {res : Except ExecutorError (List StepResult)} {e' : Engine} {d' : δ}
    (h : Ended T o dev d e plan res e' d') : e'.sched.nextPtr = e.sched.nextPtr ∧
      ∀ r, (e'.sched.heap r).asked = (e.sched.heap r).asked := by
  cases h with
  | idle empty => exact ⟨rfl, fun _ => rfl⟩
  | evictions prefill decode results s completed =>
    exact ⟨Completed.nextPtr completed, fun r => (Completed.cases completed r).asked⟩
  | refused m err launch busy => exact ⟨rfl, fun _ => rfl⟩
  | threw m done l err d' launch launched device busy => exact ⟨rfl, fun _ => rfl⟩
  | done m done l argmax d' results s launch launched device completed =>
    exact ⟨Completed.nextPtr completed, fun r => (Completed.cases completed r).asked⟩

/-- **What a step does**, whatever the device does. -/
theorem step_spec (hE : EngineInv T o e) (dev : Device δ) (d : δ) :
    ∃ plan s res e' d', e.sched.planStep = some (plan, s) ∧ e.step dev d = some (res, e', d') ∧
      Scheduler.Planned T o e.sched plan s ∧ Ended T o dev d { e with sched := s } plan res e' d' := by
  obtain ⟨plan, s, hs, hP⟩ := Scheduler.planStep_spec hE.sched
  have hE1 := EngineInv.planned hE hP
  unfold step
  simp only [hs, Option.bind_eq_bind, Option.bind_some]
  by_cases hempty : plan.empty = true
  · exact ⟨plan, s, _, _, _, rfl, if_pos hempty, hP, .idle hempty⟩
  · obtain ⟨res, e', d', hx, hend⟩ := execute_spec hE1 (hP.planOk hE.sched) dev d
    exact ⟨plan, s, res, e', d', rfl, (if_neg hempty).trans hx, hP, hend⟩

end Engine

/-! ## runs -/

/-- a call of the interface; `k` is what the environment does during a step -/
inductive EngineCall (κ : Type) where
  | addRequest (a : RequestArgs)
  | step (k : κ)

/-- one entry of the log of a run -/
inductive Event where
  | added (id : Nat) (a : RequestArgs)
  | refused (e : InvalidArgument)
  | stepped (plan : StepPlan) (out : Except ExecutorError (List StepResult))

/-- the device during each step, and ghost bookkeeping on its state when a plan was made -/
structure Environment (κ δ : Type) where
  dev : κ → Device δ
  planned : Scheduler → Scheduler → δ → δ := fun _ _ d => d

/-- a device without a state: a step is told its argmax buffer, or its exception -/
def hostOnly : Environment (Except ExecutorError (Nat → Int)) Unit where
  dev := fun k _ d => (k, d)

structure EngineRun (δ : Type) where
  engine : Engine
  device : δ
  events : List Event

namespace EngineRun

variable {κ δ : Type}

def init (e : Engine) (d : δ) : EngineRun δ := ⟨e, d, []⟩

def step (env : Environment κ δ) (w : EngineRun δ) : EngineCall κ → Option (EngineRun δ)
  | .addRequest a => do
    match ← w.engine.addRequest a with
    | .error err => return { w with events := w.events ++ [.refused err] }
    | .ok (id, e) => return { w with
        engine := e
        events := w.events ++ [.added id a] }
  | .step k => do
    let (plan, s) ← w.engine.sched.planStep
    let (out, e, d) ← w.engine.step (env.dev k) (env.planned w.engine.sched s w.device)
    return { engine := e, device := d, events := w.events ++ [.stepped plan out] }

/-- what a call does -/
inductive Stepped (T : Nat) (o : SchedulerOptions) (env : Environment κ δ) (w : EngineRun δ) :
    EngineCall κ → EngineRun δ → Prop where
  | refused (a : RequestArgs) (err : InvalidArgument) :
      Stepped T o env w (.addRequest a) { w with events := w.events ++ [.refused err] }
  | added (a : RequestArgs) (accepted : Engine.Accepted o w.engine a) :
      Stepped T o env w (.addRequest a) { w with
        engine := w.engine.added a
        events := w.events ++ [.added w.engine.nextRequestId a] }
  | stepped (k : κ) (plan : StepPlan) (s : Scheduler)
      (out : Except ExecutorError (List StepResult)) (e : Engine) (d : δ)
      (plans : w.engine.sched.planStep = some (plan, s))
      (planned : Scheduler.Planned T o w.engine.sched plan s)
      (ended : Engine.Ended T o (env.dev k) (env.planned w.engine.sched s w.device)
        { w.engine with sched := s } plan out e d) :
      Stepped T o env w (.step k)
        { engine := e, device := d, events := w.events ++ [.stepped plan out] }

section
variable {T : Nat} {o : SchedulerOptions} {env : Environment κ δ} {w : EngineRun δ}

theorem Stepped.refilled {c : EngineCall κ} {w' : EngineRun δ} (h : Stepped T o env w c w') :
    w.engine.executor.Refilled w'.engine.executor := by
  cases h with
  | refused a err => exact ⟨_, rfl⟩
  | added a accepted => exact ⟨_, rfl⟩
  | stepped k plan s out e d plans planned ended => exact ended.refilled

theorem step_eq {k : κ} {plan : StepPlan} {s : Scheduler}
    {out : Except ExecutorError (List StepResult)} {e : Engine} {d : δ}
    (hs : w.engine.sched.planStep = some (plan, s))
    (hx : w.engine.step (env.dev k) (env.planned w.engine.sched s w.device) = some (out, e, d)) :
    step env w (.step k)
      = some { engine := e, device := d, events := w.events ++ [.stepped plan out] } := by
  simp only [step, hs, hx, Option.bind_eq_bind, Option.bind_some]
  rfl

/-- **One call**: it returns, and does what `Stepped` says -/
theorem step_spec (env : Environment κ δ) (hE : EngineInv T o w.engine) (c : EngineCall κ) :
    ∃ w', step env w c = some w' ∧ EngineInv T o w'.engine ∧ Stepped T o env w c w' := by
  cases c with
  | addRequest a =>
    rcases Engine.addRequest_spec hE a with ⟨err, h⟩ | ⟨h, hA⟩
    · exact ⟨{ w with events := w.events ++ [.refused err] }, by simp only [step, h]; rfl, hE,
        .refused a err⟩
    · exact ⟨_, by simp only [step, h]; rfl, Engine.EngineInv.added hE hA, .added a hA⟩
  | step k =>
    obtain ⟨plan, s, hs, hP⟩ := Scheduler.planStep_spec hE.sched
    obtain ⟨plan1, s1, out, e, d, hs1, hst, _, hend⟩ := Engine.step_spec hE (env.dev k)
      (env.planned w.engine.sched s w.device)
    rw [hs, Option.some.injEq, Prod.mk.injEq] at hs1
    obtain ⟨rfl, rfl⟩ := hs1
    exact ⟨_, step_eq hs hst, hend.inv (Engine.EngineInv.planned hE hP),
      .stepped k plan s out e d hs hP hend⟩

/-- a run keeps what every call that honours `ok` keeps -/
theorem run_spec {ok : EngineRun δ → EngineCall κ → Prop} (I : EngineRun δ → Prop)
    (hI : ∀ w c w', EngineInv T o w.engine → I w → ok w c → Stepped T o env w c w' → I w')
    (hE : EngineInv T o w.engine) (h0 : I w) (cs : List (EngineCall κ))
    (hL : Legal (step env) ok w cs) :
    ∃ w', run (step env) w cs = some w' ∧ EngineInv T o w'.engine ∧ I w' := by
  obtain ⟨w', hr, h1, h2⟩ := run_total (fun w => EngineInv T o w.engine ∧ I w)
    (fun w c ⟨hE, hi⟩ hok => by
      obtain ⟨w1, hs, h1, h2⟩ := step_spec env hE c
      exact ⟨w1, hs, h1, hI w c w1 hE hi hok h2⟩)
    cs w ⟨hE, h0⟩ hL
  exact ⟨w', hr, h1, h2⟩

/-- a run keeps what every call keeps -/
theorem run_keeps (I : EngineRun δ → Prop)
    (hI : ∀ w c w', EngineInv T o w.engine → I w → Stepped T o env w c w' → I w')
    (hE : EngineInv T o w.engine) (h0 : I w) (cs : List (EngineCall κ)) :
    ∃ w', run (step env) w cs = some w' ∧ EngineInv T o w'.engine ∧ I w' :=
  run_spec I (fun w c w' hE hi (_ : True) hs => hI w c w' hE hi hs) hE h0 cs
    (legal_of_forall cs (fun _ _ _ => trivial) w)

end
end EngineRun
/-! ## a small engine -/

/-- one layer, one head, ten tokens; 7 is the end of sequence -/
def tinyConfig : ModelConfig :=
  { hiddenSize := 1
    numLayers := 1
    numQHeads := 1
    numKvHeads := 1
    headDim := 1
    intermediateSize := 1
    vocabSize := 10
    eosTokenIds := [7] }

/-- four blocks of 64 bytes, two rows -/
def tinyOptions (policy : AdmissionPolicy) : EngineOptions :=
  { kvPoolGb := 1 / 4194304
    maxBatch := 2
    maxSeqLen := 64
    prefillChunkTokens := 16
    admissionPolicy := policy }

def tinyProbe : Nat → Nat → Option PrefillGemmMode := fun _ _ => some .kStridedBatched

def tinyEngine (policy : AdmissionPolicy) : Engine :=
  { executor :=
      { config := tinyConfig
        options := makeExecutorOptions (tinyOptions policy)
        buckets := [1, 2]
        maxBlocksPerSeq := 4
        numKvBlocks := 4
        hasDecodeGraphs := true
        probe := tinyProbe
        mirrors := fun _ _ => 0 }
    sched := .make 4 (Engine.schedulerOptions tinyConfig (tinyOptions policy))
    nextRequestId := 1
    requests := fun _ => none
    stats := { bucketDecodeSteps := [0, 0] } }

theorem makeExecutorOptions_tiny (policy : AdmissionPolicy) :
    makeExecutorOptions (tinyOptions policy) =
      { kvPoolBytes := 256
        maxBatch := 2
        maxSeqLen := 64
        prefillChunkTokens := 16
        enableCudaGraphs := true
        padEagerToBucket := 0
        debugDumpDir := "" } := by
  unfold makeExecutorOptions tinyOptions
  congr 1
  norm_num

theorem tinyExecutor_make (policy : AdmissionPolicy) :
    Executor.make tinyConfig (makeExecutorOptions (tinyOptions policy)) true tinyProbe
      = .ok (tinyEngine policy).executor := by
  unfold tinyEngine
  rw [makeExecutorOptions_tiny]
  rfl

theorem tinyEngine_make (policy : AdmissionPolicy) :
    Engine.make tinyConfig (tinyOptions policy) true tinyProbe = .ok (tinyEngine policy) := by
  have hx := tinyExecutor_make policy
  have hg : ¬ (¬ 0 < (tinyOptions policy).kvPoolGb ∨ 1024 < (tinyOptions policy).kvPoolGb) := by
    show ¬ (¬ (0 : ℚ) < 1 / 4194304 ∨ (1024 : ℚ) < 1 / 4194304)
    norm_num
  unfold Engine.make
  rw [if_neg hg, hx]
  rfl

end Redline
