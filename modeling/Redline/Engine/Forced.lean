import Mathlib.Data.List.Forall2
import Redline.Engine.Run

/-!
# Teacher forcing

With a script that covers every generated token, what the executor samples reaches the reports of
a step and nothing else.  `applySampledToken_retold` is the reason: the sampled token is read in
two places, the token that is appended (the scripted one) and the report.

`teacher_forcing_noninterference` compares two runs of one workload whose sampled tokens differ.
`StepResult.untold` forgets the token of a report; everything else in the logs is equal, and so are
the engines, after every call.
-/

namespace Redline
open Prog

/-- a report without its token -/
def StepResult.untold (x : StepResult) : StepResult := { x with token := 0 }

/-- the same report of another token -/
def StepResult.retold (x : StepResult) (token : Int) : StepResult := { x with token }

/-- the script covers the next token -/
def Scripted (q : Request) : Prop := q.outputTokens.length < q.forcedTokens.length

/-- every request has a script for all the tokens it may generate -/
def FullyForced (s : Scheduler) : Prop :=
  ∀ r < s.nextPtr, (s.heap r).maxNewTokens ≤ (s.heap r).forcedTokens.length

section
variable {q : Request}

theorem Scripted.appended (h : Scripted q) (a b : Int) :
    Scheduler.appendedToken q a = Scheduler.appendedToken q b := by
  unfold Scripted at h
  unfold Scheduler.appendedToken
  rw [List.getD_eq_getElem?_getD, List.getD_eq_getElem?_getD, List.getElem?_eq_getElem h]
  rfl

theorem Scripted.reason (h : Scripted q) (o : SchedulerOptions) (a b : Int) :
    reasonOf o q a = reasonOf o q b := by
  unfold reasonOf
  rw [h.appended a b]

theorem Scripted.appendedReq (h : Scripted q) (a b : Int) : appendedReq q a = appendedReq q b := by
  unfold Redline.appendedReq
  rw [h.appended a b]

theorem Scripted.result (h : Scripted q) (o : SchedulerOptions) (a b : Int) :
    sampledResult o q b = (sampledResult o q a).retold b := by
  unfold sampledResult StepResult.retold
  rw [h.reason o a b]

end

namespace Scheduler

variable {T : Nat} {o : SchedulerOptions} {s : Scheduler}

/-- **The sampled token is only told.** -/
theorem applySampledToken_retold (ho : s.options = o) {r : Nat}
    (hst : (s.heap r).state = .kPrefill ∨ (s.heap r).state = .kRunning) (h : Scripted (s.heap r))
    (a b : Int) : s.applySampledToken r b
      = (s.applySampledToken r a).map (Prod.map (·.retold b) id) := by
  have hr := h.reason o b a
  by_cases hn : reasonOf o (s.heap r) a = .kNone
  · rw [applySampledToken_next ho hst (hr.trans hn), applySampledToken_next ho hst hn,
      h.appendedReq b a, h.result o a b]
    rfl
  · rw [applySampledToken_stop ho hst (hr ▸ hn), applySampledToken_stop ho hst hn,
      h.appendedReq b a, hr, Option.map_bind, h.result o a b]
    congr 1
    funext s1
    show (if _ then _ else _) = Option.map _ (if _ then _ else _)
    split
    · rfl
    · cases check (r ∈ s1.running) <;> rfl

/-- a running request has a token left in its script -/
theorem FullyForced.running (hF : FullyForced s) (h : Inv T o s) {r : Nat} (hr : r ∈ s.running) :
    Scripted (s.heap r) := by
  have h1 := hF r (h.lt_nextPtr (Or.inr (List.mem_append_left _ hr)))
  have h2 := (h.running r hr).outputs_lt
  unfold Request.numOutputTokens at h2
  unfold Scripted
  omega

/-- a request in its last chunk has a token left in its script -/
theorem FullyForced.prefill (hF : FullyForced s) (h : Inv T o s) {r : Nat}
    (hr : r ∈ s.prefillQueue) : Scripted (s.heap r) := by
  have hlt := h.lt_nextPtr (Or.inr (List.mem_append_right _ hr))
  have h1 := hF r hlt
  have h2 := (h.valid r hlt).maxNew_pos
  unfold Scripted
  rw [(h.prefill r hr).outputs]
  show 0 < _
  omega

theorem applyRows_retold (batch : List Nat) : ∀ (s : Scheduler) (pre : List Nat) (as bs : List Int),
    Inv T o s → s.running = pre ++ batch →
    (∀ r ∈ batch, (s.heap r).blockTable.numBlocks = blocksForTokens (s.heap r).seqLen) →
    (∀ r ∈ batch, Scripted (s.heap r)) → as.length = batch.length → bs.length = batch.length →
    ∃ xs ys s', s.applyRows (batch.zip as) = some (xs, s') ∧
      s.applyRows (batch.zip bs) = some (ys, s') ∧
      ys.map StepResult.untold = xs.map StepResult.untold := by
  induction batch with
  | nil => intro s pre as bs _ _ _ _ _ _; exact ⟨[], [], s, rfl, rfl, rfl⟩
  | cons r batch ih =>
    intro s pre as bs h hR hb hS ha hb'
    match as, bs, ha, hb' with
    | a :: as, b :: bs, ha, hb' =>
      have hst := (h.running r (by rw [hR]; simp)).state
      obtain ⟨s1, hs, hA⟩ := applyRow_spec h hR (hb r List.mem_cons_self) a
      have hs' := applySampledToken_retold h.options (Or.inr hst) (hS r List.mem_cons_self) a b
      rw [hs] at hs'
      have hnd := (List.nodup_append.mp h.nodup).1
      rw [hR, List.nodup_append, List.nodup_cons] at hnd
      have hsame : ∀ x ∈ batch, s1.heap x = s.heap x := by
        intro x hx
        have hne : x ≠ r := fun e => hnd.2.1.1 (e ▸ hx)
        rw [hA.heap, Function.update_of_ne hne]
      obtain ⟨xs, ys, s2, h1, h2, h3⟩ := ih s1 _ as bs hA.inv hA.running
        (fun x hx => by rw [hsame x hx]; exact hb x (List.mem_cons_of_mem _ hx))
        (fun x hx => by rw [hsame x hx]; exact hS x (List.mem_cons_of_mem _ hx))
        (Nat.succ.inj ha) (Nat.succ.inj hb')
      refine ⟨sampledResult o (s.heap r) a :: xs, (sampledResult o (s.heap r) a).retold b :: ys, s2,
        ?_, ?_, congrArg (List.cons _) h3⟩
      · rw [List.zip_cons_cons]
        unfold applyRows
        simp only [hs, h1, Option.bind_eq_bind, Option.bind_some, Option.pure_def]
      · rw [List.zip_cons_cons]
        unfold applyRows
        simp only [hs', h2, Option.bind_eq_bind, Option.bind_some, Option.pure_def, Option.map_some,
          Prod.map_apply, id]

/-- completing one plan with two sets of sampled tokens -/
theorem completeStep_retold (h : Inv T o s) (hF : FullyForced s) {plan : StepPlan}
    (hP : PlanOk o s plan) {as bs : List Int} (ha : as.length = s.tokensDue plan)
    (hb : bs.length = s.tokensDue plan) : ∃ xs ys s', s.completeStep plan as = some (xs, s') ∧
      s.completeStep plan bs = some (ys, s') ∧
      ys.map StepResult.untold = xs.map StepResult.untold := by
  cases hP with
  | prefill r rest queue shape blocks =>
    have hdue := tokensDue_chunkPlan (s := s) shape
    by_cases hlast : chunkEnd o (s.heap r) = (s.heap r).numPromptTokens
    · rw [hdue, if_pos hlast] at ha hb
      obtain ⟨a, rfl⟩ := List.length_eq_one_iff.mp ha
      obtain ⟨b, rfl⟩ := List.length_eq_one_iff.mp hb
      have hmem : r ∈ s.prefillQueue := by rw [queue]; exact List.mem_cons_self
      obtain ⟨s', hs, _⟩ := applyFirst_spec h queue (by rw [blocks, hlast]; rfl) a
      let s1 : Scheduler := { s with
        heap := Function.update s.heap r (progressed (s.heap r) (s.heap r).numPromptTokens)
        prefillQueue := rest }
      have hq : s1.heap r = progressed (s.heap r) (s.heap r).numPromptTokens :=
        Function.update_self ..
      have hst : (s1.heap r).state = .kPrefill := by rw [hq]; exact (h.prefill r hmem).state
      have hS : Scripted (s1.heap r) := by rw [hq]; exact FullyForced.prefill hF h hmem
      have hs' := applySampledToken_retold (s := s1) h.options (Or.inl hst) hS a b
      rw [show s1.applySampledToken r a = _ from hs] at hs'
      let x := sampledResult o (progressed (s.heap r) (s.heap r).numPromptTokens) a
      refine ⟨[x], [x.retold b], s', ?_, ?_, rfl⟩
      · rw [completeStep_last queue shape hlast, hs]
        rfl
      · rw [completeStep_last queue shape hlast]
        exact congrArg (Option.map _) hs'
    · rw [hdue, if_neg hlast] at ha hb
      have hle := chunkEnd_le_prompt (o := o) (q := s.heap r)
      have hx := completeStep_chunk queue shape (by omega)
      rw [List.eq_nil_of_length_eq_zero ha, List.eq_nil_of_length_eq_zero hb]
      exact ⟨[], [], _, hx, hx, rfl⟩
  | decode shape running blocks victims =>
    have hdue : s.tokensDue plan = plan.decode.length := by
      unfold tokensDue
      rw [shape]
    rw [hdue] at ha hb
    have hS : ∀ r ∈ plan.decode, Scripted (s.heap r) := fun r hr =>
      FullyForced.running hF h (by rw [running]; exact hr)
    obtain ⟨xs, ys, s', hx, hy, hxy⟩ :=
      applyRows_retold plan.decode s [] as bs h running blocks hS ha hb
    let told := plan.aborted.map fun r => evictionResult (s.heap r)
    refine ⟨told ++ xs, told ++ ys, s', ?_, ?_, ?_⟩
    · rw [completeStep_rows shape victims ha, hx]
      rfl
    · rw [completeStep_rows shape victims hb, hy]
      rfl
    · simp only [List.map_append, hxy]

end Scheduler

/-! ## a step -/

theorem FullyForced.of_asked {s s' : Scheduler} (hF : FullyForced s) (hn : s'.nextPtr = s.nextPtr)
    (hask : ∀ r, (s'.heap r).asked = (s.heap r).asked) : FullyForced s' := by
  intro r hr
  have hm : (s'.heap r).maxNewTokens = _ := congrArg NewRequest.maxNewTokens (hask r)
  have hf : (s'.heap r).forcedTokens = _ := congrArg NewRequest.forcedTokens (hask r)
  rw [hm, hf]
  exact hF r (hn ▸ hr)

theorem dropFinished_retold {xs ys : List StepResult}
    (h : ys.map StepResult.untold = xs.map StepResult.untold) : ∀ m : Nat → Option Nat,
    Engine.dropFinished m ys = Engine.dropFinished m xs := by
  intro m
  have key : ∀ zs : List StepResult, Engine.dropFinished m zs
      = Engine.dropFinished m (zs.map StepResult.untold) := by
    intro zs
    unfold Engine.dropFinished
    rw [List.foldl_map]
    rfl
  rw [key ys, key xs, h]

def outUntold : Except ExecutorError (List StepResult) → Except ExecutorError (List StepResult)
  | .ok results => .ok (results.map StepResult.untold)
  | .error err => .error err

/-- what a call logged, but for the tokens -/
def Event.untold : Event → Event
  | .stepped plan out => .stepped plan (outUntold out)
  | event => event

/-- the executor did the same, but for the tokens it sampled -/
inductive SameButSamples :
    Except ExecutorError (Nat → Int) → Except ExecutorError (Nat → Int) → Prop where
  | sampled (argmax argmax' : Nat → Int) : SameButSamples (.ok argmax) (.ok argmax')
  | threw (err : ExecutorError) : SameButSamples (.error err) (.error err)

/-- the same call again: a fully forced request, or a step whose samples may differ -/
inductive Rerun : EngineCall (Except ExecutorError (Nat → Int)) →
    EngineCall (Except ExecutorError (Nat → Int)) → Prop where
  | addRequest (a : RequestArgs) (forced : a.maxNewTokens ≤ a.forcedTokens.length) :
      Rerun (.addRequest a) (.addRequest a)
  | step {k k' : Except ExecutorError (Nat → Int)} (same : SameButSamples k k') :
      Rerun (.step k) (.step k')

section
variable {T : Nat} {o : SchedulerOptions} {e : Engine}

/-- the two samplings leave the same engine behind -/
theorem Engine.complete_retold (hE : EngineInv T o e) (hF : FullyForced e.sched) {plan : StepPlan}
    (hP : Scheduler.PlanOk o e.sched plan) (done : Executed) {as bs : List Int}
    (ha : as.length = e.sched.tokensDue plan) (hb : bs.length = e.sched.tokensDue plan) :
    ∃ xs ys e', e.complete plan done as = some (xs, e') ∧ e.complete plan done bs = some (ys, e') ∧
      ys.map StepResult.untold = xs.map StepResult.untold := by
  obtain ⟨xs, ys, s, hx, hy, hxy⟩ := Scheduler.completeStep_retold hE.sched hF hP ha hb
  refine ⟨xs, ys, e.finish plan done xs s, ?_, ?_, hxy⟩
  · unfold complete
    rw [hx]
    rfl
  · unfold complete finish
    rw [hy, ← dropFinished_retold hxy]
    rfl

theorem Engine.execute_retold (hE : EngineInv T o e) (hF : FullyForced e.sched) {plan : StepPlan}
    (hP : Scheduler.PlanOk o e.sched plan) {k k' : Except ExecutorError (Nat → Int)}
    (hk : SameButSamples k k') : ∃ x y e', e.execute (hostOnly.dev k) () plan = some (x, e', ()) ∧
      e.execute (hostOnly.dev k') () plan = some (y, e', ()) ∧ outUntold y = outUntold x := by
  by_cases hn : (plan.prefill.isNone && plan.decode.isEmpty) = true
  · -- nothing is executed
    obtain ⟨x, e', d, hx, _⟩ := Engine.execute_spec hE hP (hostOnly.dev k) ()
    refine ⟨x, x, e', hx, ?_, rfl⟩
    rw [← hx]
    unfold execute
    rw [if_pos hn, if_pos hn]
  · have hne : plan.prefill = none → plan.decode ≠ [] := by
      intro h1 h2
      rw [h1, h2] at hn
      exact hn rfl
    obtain ⟨out, m, hl, hL⟩ := launch_spec hE.sched hE.fits hP hne hE.prompts
    unfold execute
    rw [if_neg hn, if_neg hn]
    cases out with
    | error err =>
      simp only [hl, Option.bind_eq_bind, Option.bind_some]
      exact ⟨.error err, .error err, _, rfl, rfl, rfl⟩
    | ok p =>
      obtain ⟨done, l⟩ := p
      have hdue := (hL done l rfl).tokens
      cases hk with
      | threw err =>
        simp only [hl, hostOnly, Option.bind_eq_bind, Option.bind_some]
        exact ⟨.error err, .error err, _, rfl, rfl, rfl⟩
      | sampled argmax argmax' =>
        have hlen : ∀ f : Nat → Int, ((List.range l.tokens).map f).length = e.sched.tokensDue plan :=
          fun f => by rw [List.length_map, List.length_range, hdue]
        obtain ⟨xs, ys, e', hx, hy, hxy⟩ := complete_retold (EngineInv.mirrors hE m) hF hP done
          (hlen argmax) (hlen argmax')
        simp only [hl, hostOnly, hx, hy, Option.bind_eq_bind, Option.bind_some]
        exact ⟨.ok xs, .ok ys, e', rfl, rfl, congrArg Except.ok hxy⟩

theorem Engine.step_retold (hE : EngineInv T o e) (hF : FullyForced e.sched)
    {k k' : Except ExecutorError (Nat → Int)} (hk : SameButSamples k k') :
    ∃ plan s x y e', e.sched.planStep = some (plan, s) ∧
      e.step (hostOnly.dev k) () = some (x, e', ()) ∧
      e.step (hostOnly.dev k') () = some (y, e', ()) ∧ outUntold y = outUntold x ∧
      EngineInv T o e' ∧ FullyForced e'.sched := by
  obtain ⟨plan, s, x, e', d, hs, hx, hP, hend⟩ := Engine.step_spec hE (hostOnly.dev k) ()
  have hE1 := EngineInv.planned hE hP
  have hF1 : FullyForced s :=
    hF.of_asked (Planned.nextPtr hP) fun r => (Planned.carried hP r).asked
  have hF2 : FullyForced e'.sched := hF1.of_asked hend.asked.1 hend.asked.2
  have hxy : ∃ y, e.step (hostOnly.dev k') () = some (y, e', ()) ∧ outUntold y = outUntold x := by
    unfold Engine.step at hx ⊢
    simp only [hs, Option.bind_eq_bind, Option.bind_some] at hx ⊢
    by_cases hempty : plan.empty = true
    · rw [if_pos hempty] at hx ⊢
      exact ⟨x, hx, rfl⟩
    · rw [if_neg hempty] at hx ⊢
      obtain ⟨x1, y, e1, h1, h2, h3⟩ := Engine.execute_retold hE1 hF1 (hP.planOk hE.sched) hk
      rw [hx, Option.some.injEq, Prod.mk.injEq, Prod.mk.injEq] at h1
      obtain ⟨rfl, rfl, _⟩ := h1
      exact ⟨y, h2, h3⟩
  obtain ⟨y, hy, hout⟩ := hxy
  exact ⟨plan, s, x, y, e', hs, hx, hy, hout, hend.inv hE1, hF2⟩

/-- two runs that look the same to everybody but the reader of the sampled tokens -/
structure Alike (T : Nat) (o : SchedulerOptions) (w w' : EngineRun Unit) : Prop where
  inv : EngineInv T o w.engine
  forced : FullyForced w.engine.sched
  engine : w'.engine = w.engine
  events : w'.events.map Event.untold = w.events.map Event.untold

/-- **One call, twice.** -/
theorem Alike.step {w v : EngineRun Unit} (h : Alike T o w v)
    {c d : EngineCall (Except ExecutorError (Nat → Int))} (hcd : Rerun c d) :
    ∃ w' v', EngineRun.step hostOnly w c = some w' ∧ EngineRun.step hostOnly v d = some v' ∧
      Alike T o w' v' := by
  obtain ⟨⟨e, ⟨⟩, es⟩, ⟨e', ⟨⟩, es'⟩⟩ := w, v
  obtain ⟨hE, hF, heng, hev⟩ := h
  obtain rfl : e' = e := heng
  cases hcd with
  | addRequest a forced =>
    rcases Engine.addRequest_spec hE a with ⟨err, h⟩ | ⟨h, hA⟩
    · refine ⟨⟨e', (), es ++ [.refused err]⟩, ⟨e', (), es' ++ [.refused err]⟩, ?_, ?_, hE, hF, rfl, ?_⟩
      · simp only [EngineRun.step, h]
        rfl
      · simp only [EngineRun.step, h]
        rfl
      · simp only [List.map_append, hev]
    · refine ⟨⟨e'.added a, (), es ++ [.added e'.nextRequestId a]⟩,
        ⟨e'.added a, (), es' ++ [.added e'.nextRequestId a]⟩, ?_, ?_,
        Engine.EngineInv.added hE hA, ?_, rfl, ?_⟩
      · simp only [EngineRun.step, h]
        rfl
      · simp only [EngineRun.step, h]
        rfl
      · intro r hr
        show ((Function.update e'.sched.heap e'.sched.nextPtr (a.request e'.nextRequestId)) r).maxNewTokens
          ≤ ((Function.update e'.sched.heap e'.sched.nextPtr (a.request e'.nextRequestId)) r).forcedTokens.length
        by_cases hn : r = e'.sched.nextPtr
        · rw [hn, Function.update_self]; exact forced
        · rw [Function.update_of_ne hn]; exact hF r ((Nat.lt_succ_iff_lt_or_eq.mp hr).resolve_right hn)
      · simp only [List.map_append, hev]
  | step same =>
    obtain ⟨plan, s, x, y, e1, hs, hx, hy, hxy, hE1, hF1⟩ := Engine.step_retold hE hF same
    refine ⟨_, _, EngineRun.step_eq hs hx, EngineRun.step_eq hs hy, hE1, hF1, rfl, ?_⟩
    simp only [List.map_append, List.map_cons, Event.untold, hev, hxy]

theorem Alike.run {w v : EngineRun Unit} (h : Alike T o w v)
    {cs ds : List (EngineCall (Except ExecutorError (Nat → Int)))} (hR : List.Forall₂ Rerun cs ds) :
    ∃ w' v', run (EngineRun.step hostOnly) w cs = some w' ∧
      run (EngineRun.step hostOnly) v ds = some v' ∧ Alike T o w' v' := by
  refine run_related (Alike T o) ?_ hR w v h
  exact fun _ _ _ _ h hcd => h.step hcd

end

/-- **Teacher-forcing noninterference.**  After any number of calls the two engines are equal, and
so are their logs, but for the tokens in the reports. -/
theorem teacher_forcing_noninterference (config : ModelConfig) (options : EngineOptions)
    (captured : Bool) (probe : Nat → Nat → Option PrefillGemmMode) (e : Engine)
    (he : Engine.make config options captured probe = .ok e)
    (cs ds : List (EngineCall (Except ExecutorError (Nat → Int)))) (hR : List.Forall₂ Rerun cs ds)
    (n : Nat) : ∃ w v, run (EngineRun.step hostOnly) (.init e ()) (cs.take n) = some w ∧
      run (EngineRun.step hostOnly) (.init e ()) (ds.take n) = some v ∧ v.engine = w.engine ∧
      v.events.map Event.untold = w.events.map Event.untold := by
  have h0 : Alike e.totalBlocks (Engine.schedulerOptions config options) (.init e ()) (.init e ()) := by
    refine ⟨EngineInv.make he, ?_, rfl, rfl⟩
    obtain ⟨x, _, rfl⟩ := Engine.make_eq he
    exact fun r hr => absurd hr (Nat.not_lt_zero r)
  obtain ⟨w, v, hw, hv, h⟩ := h0.run (List.forall₂_take n hR)
  exact ⟨w, v, hw, hv, h.engine, h.events⟩

/-- an end-of-sequence token is sampled in one run only -/
theorem teacher_forcing_noninterference_example :
    ∃ w v, run (EngineRun.step hostOnly) (.init (tinyEngine .kReserveFull) ())
        ([.addRequest { promptTokens := [1], maxNewTokens := 2, forcedTokens := [3, 4] },
          .step (.ok fun _ => 7), .step (.ok fun _ => 5)].take 3) = some w ∧
      run (EngineRun.step hostOnly) (.init (tinyEngine .kReserveFull) ())
        ([.addRequest { promptTokens := [1], maxNewTokens := 2, forcedTokens := [3, 4] },
          .step (.ok fun _ => 2), .step (.ok fun _ => 7)].take 3) = some v ∧
      v.engine = w.engine ∧ v.events.map Event.untold = w.events.map Event.untold :=
  teacher_forcing_noninterference tinyConfig (tinyOptions .kReserveFull) true tinyProbe
    (tinyEngine .kReserveFull) (tinyEngine_make .kReserveFull)
    [.addRequest { promptTokens := [1], maxNewTokens := 2, forcedTokens := [3, 4] },
      .step (.ok fun _ => 7), .step (.ok fun _ => 5)]
    [.addRequest { promptTokens := [1], maxNewTokens := 2, forcedTokens := [3, 4] },
      .step (.ok fun _ => 2), .step (.ok fun _ => 7)]
    (.cons (.addRequest _ (by decide)) (.cons (.step (.sampled _ _)) (.cons (.step (.sampled _ _))
      .nil))) 3

end Redline
