import Redline.Engine.Run

/-!
# Every plan passes the executor's checks

`plans_pass_checks`: after any run of an engine its constructor accepted, in which the sampled
tokens lie in the vocabulary, the plan that `PlanStep` produces passes every check of the executor
(`PassesChecks`).  Steps may throw in between.

What the checks need beyond `EngineInv` is `Spoken`: no generated token lies outside the
vocabulary.  A forced token was checked by `AddRequest`, a sampled one lies inside by assumption.
-/

namespace Redline
open Prog Script

/-- the executor accepts what the plan asks for; `e` is the engine whose plan stands -/
structure PassesChecks (o : SchedulerOptions) (e : Engine) (plan : StepPlan) : Prop where
  /-- a chunk: a non-empty slice, covered, and its fill returns -/
  chunk : ∀ r, plan.prefill = some r →
    ChunkOk e.executor (e.sched.heap r) plan.prefillBegin plan.prefillEnd ∧
    ∃ log, Returns (e.executor.fillPrefillMirrors (e.sched.heap r) plan.prefillBegin plan.prefillEnd)
      log (plan.prefillEnd - plan.prefillBegin)
  /-- the rows of a batch meet the checks of `FillDecodeMirrors` -/
  rows : plan.prefill = none → ∀ r ∈ plan.decode, DecodeRowOk e.executor (e.sched.heap r)
  /-- the eager path runs the batch, within `max_batch` rows -/
  eager : plan.prefill = none → plan.decode ≠ [] →
    ∃ log shape, Returns (e.executor.decodeEager (plan.decode.map e.sched.heap)) log shape ∧
      plan.decode.length ≤ shape.rows ∧ (shape.rows : Int) ≤ e.executor.options.maxBatch
  /-- a graph is replayed only if one was captured for a bucket that covers the batch -/
  graph : plan.prefill = none → plan.decode ≠ [] → e.replaysGraph plan.decode.length = true →
    ∃ bucket ∈ e.executor.buckets, plan.decode.length ≤ bucket ∧
      (bucket : Int) ≤ e.executor.options.maxBatch ∧ e.executor.hasDecodeGraphs = true ∧
      ∃ log, Returns (e.executor.decodeGraph (plan.decode.map e.sched.heap)) log
        { rows := bucket, bucket := some bucket }

/-- no generated token lies outside the vocabulary -/
def Spoken (e : Engine) : Prop :=
  ∀ r < e.sched.nextPtr, ∀ t ∈ (e.sched.heap r).outputTokens, e.executor.inVocabulary t

/-- the device samples inside the vocabulary -/
def SamplesVocabulary (config : ModelConfig) :
    EngineCall (Except ExecutorError (Nat → Int)) → Prop
  | .step (.ok argmax) => ∀ row, 0 ≤ argmax row ∧ argmax row < config.vocabSize
  | _ => True

section
variable {T : Nat} {o : SchedulerOptions} {e : Engine} {plan : StepPlan}

/-- a standing plan passes -/
theorem passes_of_planOk (hE : EngineInv T o e) (hS : Spoken e)
    (hP : Scheduler.PlanOk o e.sched plan) : PassesChecks o e plan := by
  cases hP with
  | prefill r rest queue shape blocks =>
    have hp : plan.prefill = some r := by rw [shape]; rfl
    have hr : r < e.sched.nextPtr := hE.sched.lt_nextPtr
      (Or.inr (List.mem_append_right _ (by rw [queue]; exact List.mem_cons_self)))
    have hok : ChunkOk e.executor (e.sched.heap r) plan.prefillBegin plan.prefillEnd := by
      have := hE.fits.chunkOk hE.sched queue blocks (hE.prompts r hr)
      rw [shape]
      exact this
    have hnone : plan.prefill ≠ none := by rw [hp]; nofun
    refine ⟨?_, fun h => absurd h hnone, fun h => absurd h hnone, fun h => absurd h hnone⟩
    intro x hx
    rw [hp, Option.some.injEq] at hx
    subst hx
    exact ⟨hok, _, Executor.fillPrefillMirrors_returns hok.sliceOk⟩
  | decode shape running blocks victims =>
    have hp : plan.prefill = none := by rw [shape]
    have hrow : ∀ r ∈ plan.decode, DecodeRowOk e.executor (e.sched.heap r) := by
      intro r hr
      have hrun : r ∈ e.sched.running := by rw [running]; exact hr
      have hfit := hE.fits.decodeRow hE.sched hrun (blocks r hr)
      refine ⟨hfit, hS r (hE.sched.lt_nextPtr (Or.inr (List.mem_append_left _ hrun))) _ ?_⟩
      rw [List.getLastD_eq_getLast?, List.getLast?_eq_getLast_of_ne_nil hfit.token]
      exact List.getLast_mem _
    have hbatch : ∀ q ∈ plan.decode.map e.sched.heap, DecodeRowOk e.executor q := by
      intro q hq
      obtain ⟨r, hr, rfl⟩ := List.mem_map.mp hq
      exact hrow r hr
    have hlen : (plan.decode.map e.sched.heap).length = plan.decode.length := List.length_map _
    have hmax : plan.decode.length ≤ o.maxBatch := by
      have hc := hE.sched.count
      unfold Scheduler.admitted at hc
      rw [List.length_append, running] at hc
      omega
    have hmax' : ((plan.decode.map e.sched.heap).length : Int) ≤ e.executor.options.maxBatch := by
      rw [hlen, hE.fits.batch]
      omega
    refine ⟨fun r hr => absurd hr (by rw [hp]; nofun), fun _ => hrow, fun _ hne => ?_,
      fun _ hne hrep => ?_⟩
    · obtain ⟨log, sh, hret, hD⟩ := Executor.decodeEager_returns (by simpa using hne) hmax' hbatch
      obtain ⟨h1, h2⟩ := hE.fits.executedRows hmax 0 fun h0 =>
        absurd h0 (Nat.lt_irrefl 0)
      rw [hlen] at hD
      exact ⟨log, sh, hret, by rw [hD.rows]; exact h1, by rw [hD.rows, hE.fits.batch]; omega⟩
    · obtain ⟨bucket, hb, hbm, hg⟩ := hE.fits.replays hrep
      obtain ⟨h0, hle, hm⟩ := selectBucket_some hb
      obtain ⟨log, sh, hret, hsb, hD⟩ := Executor.decodeGraph_returns (by simpa using hne) hg hmax'
        (by rw [hlen]; exact hb) hbm hbatch
      refine ⟨bucket, hm, hle, hbm, hg, log, ?_⟩
      have hsh : sh = { rows := bucket, bucket := some bucket } := by
        have hr : sh.rows = bucket := hD.rows.trans (if_pos (by omega))
        cases sh
        simp only at hr hsb
        rw [hr, hsb]
      rw [← hsh]
      exact hret

theorem appendedToken_mem (q : Request) (sampled : Int) :
    Scheduler.appendedToken q sampled ∈ q.forcedTokens ∨
      Scheduler.appendedToken q sampled = sampled := by
  unfold Scheduler.appendedToken
  by_cases h : q.outputTokens.length < q.forcedTokens.length
  · exact Or.inl (by rw [List.getD_eq_getElem?_getD, List.getElem?_eq_getElem h]; exact List.getElem_mem h)
  · exact Or.inr (by rw [List.getD_eq_getElem?_getD, List.getElem?_eq_none (by omega)]; rfl)

/-- completing keeps `Spoken`, if the tokens are in the vocabulary -/
theorem Spoken.completed (hE : EngineInv T o e) (hS : Spoken e) {sampled : List Int}
    {results : List StepResult} {s : Scheduler}
    (hC : Scheduler.Completed T o e.sched plan sampled results s)
    (hv : ∀ t ∈ sampled, e.executor.inVocabulary t) (done : Executed) :
    Spoken (e.finish plan done results s) := by
  intro r hr t ht
  have hr' : r < e.sched.nextPtr := Completed.nextPtr hC ▸ hr
  have ht' : t ∈ (s.heap r).outputTokens := ht
  have hnew : ∀ (q : Request) (token : Int), q.outputTokens = (e.sched.heap r).outputTokens →
      q.forcedTokens = (e.sched.heap r).forcedTokens → token ∈ sampled →
      t ∈ q.outputTokens ++ [Scheduler.appendedToken q token] → e.executor.inVocabulary t := by
    intro q token ho hf hm hmem
    rcases List.mem_append.mp hmem with hmem | hmem
    · exact hS r hr' t (ho ▸ hmem)
    · rw [List.mem_singleton.mp hmem]
      rcases appendedToken_mem q token with h | h
      · exact hE.forced r hr' _ (hf ▸ h)
      · rw [h]; exact hv token hm
  cases Completed.cases hC r with
  | same out eq => exact hS r hr' t (eq ▸ ht')
  | chunk prefill more eq =>
    rw [eq] at ht'
    exact hS r hr' t ht'
  | first prefill token tokens last eq =>
    rw [eq, outputTokens_sampledReq] at ht'
    exact hnew _ token rfl rfl (by rw [tokens]; exact List.mem_singleton_self _) ht'
  | row i token row tokens eq =>
    rw [eq, outputTokens_sampledReq] at ht'
    exact hnew _ token rfl rfl (List.mem_of_getElem? tokens) ht'

theorem Spoken.planned (hS : Spoken e) {s : Scheduler}
    (hP : Scheduler.Planned T o e.sched plan s) : Spoken { e with sched := s } := by
  intro r hr t ht
  have ht' : t ∈ (s.heap r).outputTokens := ht
  rw [(Planned.carried hP r).outputs] at ht'
  exact hS r (Planned.nextPtr hP ▸ hr) t ht'

/-- **One call keeps `Spoken`.** -/
theorem Spoken.step {w w' : EngineRun Unit} {c : EngineCall (Except ExecutorError (Nat → Int))}
    (hE : EngineInv T o w.engine) (hS : Spoken w.engine)
    (hok : SamplesVocabulary w.engine.executor.config c)
    (hs : EngineRun.Stepped T o hostOnly w c w') :
    Spoken w'.engine ∧ w'.engine.executor.config = w.engine.executor.config := by
  cases hs with
  | refused a err => exact ⟨hS, rfl⟩
  | added a accepted =>
    refine ⟨fun r hr t ht => ?_, rfl⟩
    have ht' : t ∈ (Function.update w.engine.sched.heap w.engine.sched.nextPtr
      (a.request w.engine.nextRequestId) r).outputTokens := ht
    by_cases hn : r = w.engine.sched.nextPtr
    · rw [hn, Function.update_self] at ht'
      exact absurd ht' List.not_mem_nil
    · rw [Function.update_of_ne hn] at ht'
      have hr' : r < w.engine.sched.nextPtr + 1 := hr
      exact hS r (by omega) t ht'
  | stepped k plan s out e d plans planned ended =>
    have hE1 := Engine.EngineInv.planned hE planned
    have hS1 := hS.planned planned
    cases ended with
    | idle empty => exact ⟨hS1, rfl⟩
    | evictions prefill decode results s' completed =>
      exact ⟨hS1.completed hE1 completed nofun {}, rfl⟩
    | refused m err launch busy => exact ⟨hS1, rfl⟩
    | threw m done l err d' launch launched device busy => exact ⟨hS1, rfl⟩
    | done m done l argmax d' results s' launch launched device completed =>
      have hk : k = .ok argmax := (Prod.mk.inj device).1
      rw [hk] at hok
      refine ⟨Spoken.completed (Engine.EngineInv.mirrors hE1 m) hS1 completed ?_ done, rfl⟩
      intro t ht
      obtain ⟨i, _, rfl⟩ := List.mem_map.mp ht
      exact hok i

end

/-- **Every plan passes the executor's checks.** -/
theorem plans_pass_checks (config : ModelConfig) (options : EngineOptions) (captured : Bool)
    (probe : Nat → Nat → Option PrefillGemmMode) (e : Engine)
    (ha : Engine.make config options captured probe = .ok e)
    (cs : List (EngineCall (Except ExecutorError (Nat → Int))))
    (hv : ∀ c ∈ cs, SamplesVocabulary config c) :
    ∃ w, run (EngineRun.step hostOnly) (EngineRun.init e ()) cs = some w ∧
      ∃ plan s, w.engine.sched.planStep = some (plan, s) ∧
        PassesChecks (Engine.schedulerOptions config options) { w.engine with sched := s } plan := by
  have hE := EngineInv.make ha
  have h0 : Spoken e ∧ e.executor.config = config := by
    obtain ⟨x, hx, rfl⟩ := Engine.make_eq ha
    exact ⟨fun r hr => absurd hr (Nat.not_lt_zero r), (executor_of_make hx).2.1⟩
  have hL : Legal (EngineRun.step hostOnly) (fun _ c => SamplesVocabulary config c) (.init e ()) cs :=
    legal_of_forall cs (fun c hc _ => hv c hc) _
  obtain ⟨w, hr, hEw, hSw, _⟩ := EngineRun.run_spec
    (fun w => Spoken w.engine ∧ w.engine.executor.config = config)
    (fun w c w' hE ⟨hS, hc⟩ hok hs => by
      obtain ⟨h1, h2⟩ := hS.step hE (by rw [hc]; exact hok) hs
      exact ⟨h1, h2.trans hc⟩)
    hE h0 cs hL
  obtain ⟨plan, s, hs, hP⟩ := Scheduler.planStep_spec hEw.sched
  exact ⟨w, hr, plan, s, hs, passes_of_planOk (Engine.EngineInv.planned hEw hP) (hSw.planned hP)
    (hP.planOk hEw.sched)⟩

/-- a run with a throwing step; the next plan is the decode step that threw -/
theorem plans_pass_checks_example :
    ∃ w, run (EngineRun.step hostOnly) (EngineRun.init (tinyEngine .kWatermark) ())
        [.addRequest { promptTokens := [1, 2], maxNewTokens := 3 }, .step (.ok fun _ => 4),
          .step (.error (.device "cudaGraphLaunch decode"))] = some w ∧
      ∃ plan s, w.engine.sched.planStep = some (plan, s) ∧
        PassesChecks (Engine.schedulerOptions tinyConfig (tinyOptions .kWatermark))
          { w.engine with sched := s } plan :=
  plans_pass_checks tinyConfig (tinyOptions .kWatermark) true tinyProbe (tinyEngine .kWatermark)
    (tinyEngine_make .kWatermark)
    [.addRequest { promptTokens := [1, 2], maxNewTokens := 3 }, .step (.ok fun _ => 4),
      .step (.error (.device "cudaGraphLaunch decode"))]
    (by
      intro c hc
      rcases List.mem_cons.mp hc with rfl | hc
      · trivial
      rcases List.mem_cons.mp hc with rfl | hc
      · exact fun _ => (by decide : (0 : Int) ≤ 4 ∧ 4 < tinyConfig.vocabSize)
      rw [List.mem_singleton.mp hc]
      trivial)

end Redline
