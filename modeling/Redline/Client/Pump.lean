import Redline.Client.Generate
import Redline.Device.Refine
import Redline.Engine.Lockstep

/-!
# The pump finishes

`Pumping` is the invariant between two turns of `generate`: the engine was driven by this client only
(`ran`, `asked`), the completions say what was reported (`Gathers`), and the idle steps in a row are
chunks of the head of the prefill queue (`idle`).  A step of the engine takes one off the work left
(`Pumping.advances`), so the loop ends.

`generate_ends`: for any device, no exception but those of the engine, unless a prompt is very long, and
completions that say what was reported.
-/

namespace Redline
open Prog Ledger Decoding

/-! ## the work left -/

/-- the steps a prompt may take -/
def cost (o : SchedulerOptions) (job : List Int × Int) : Nat := chunks o job.1.length + job.2.toNat

def Generation.work {δ : Type} (o : SchedulerOptions) (p : Generation δ) : Nat :=
  p.w.engine.sched.pending o + (p.rest.map (cost o)).sum

section
variable {T : Nat} {o : SchedulerOptions} {s : Scheduler} {e : Engine}

theorem pending_added (e : Engine) (a : RequestArgs) : (e.added a).sched.pending o
    = e.sched.pending o + (chunks o a.promptTokens.length + a.maxNewTokens.toNat) := by
  have hold : held (todo o) (e.added a).sched.heap (List.range e.sched.nextPtr)
      = held (todo o) e.sched.heap (List.range e.sched.nextPtr) := by
    refine held_congr fun r hr => ?_
    show todo o (Function.update e.sched.heap e.sched.nextPtr _ r) = _
    rw [Function.update_of_ne (Nat.ne_of_lt (List.mem_range.mp hr))]
  have hnew : todo o ((e.added a).sched.heap e.sched.nextPtr)
      = chunks o a.promptTokens.length + a.maxNewTokens.toNat := by
    show todo o (Function.update e.sched.heap e.sched.nextPtr _ e.sched.nextPtr) = _
    rw [Function.update_self]
    exact todo_unfinished nofun
  show held (todo o) (e.added a).sched.heap (List.range (e.sched.nextPtr + 1)) = _
  rw [List.range_succ, held_append, hold, held_cons, hnew]
  rfl

theorem Inv.pending_pos (h : Inv T o s) (hbusy : s.Busy) : 0 < s.pending o := by
  by_contra h0
  have hall := h.pending_eq_zero (Nat.eq_zero_of_not_pos h0)
  rcases hbusy with hb | hb | hb
  · obtain ⟨r, hr⟩ := List.exists_mem_of_ne_nil _ hb
    have := hall r (h.lt_nextPtr (Or.inl hr))
    rw [(h.waiting r hr).state] at this
    cases this
  · obtain ⟨r, hr⟩ := List.exists_mem_of_ne_nil _ hb
    have := hall r (h.lt_nextPtr (Or.inr (List.mem_append_right _ hr)))
    rw [(h.prefill r hr).state] at this
    cases this
  · obtain ⟨r, hr⟩ := List.exists_mem_of_ne_nil _ hb
    have := hall r (h.lt_nextPtr (Or.inr (List.mem_append_left _ hr)))
    rw [(h.running r hr).state] at this
    cases this

end

/-! ## one turn -/

section
variable {κ δ : Type} {T : Nat} {o : SchedulerOptions} {env : Environment κ δ} {first : Nat}
  {w0 w : EngineRun δ} {ignoreEos : Bool} {all rest : List (List Int × Int)} {g : Gathered}

/-- between two turns: `first` requests were there before, `all` are the prompts -/
structure Pumping (T : Nat) (o : SchedulerOptions) (env : Environment κ δ) (first : Nat)
    (w0 : EngineRun δ) (ignoreEos : Bool) (all : List (List Int × Int)) (p : Generation δ) : Prop where
  inv : EngineInv T o p.w.engine
  gathers : Gathers first p.w.engine.sched (reports p.w.events) p.gathered
  known : ∀ x ∈ reports p.w.events, x.requestId < p.w.engine.sched.nextPtr + 1
  idle : p.idleSteps ≤ p.w.engine.sched.headDone o
  ran : ∃ calls, run (EngineRun.step env) w0 calls = some p.w
  jobs : p.rest = all.drop p.gathered.completions.length
  few : p.gathered.completions.length ≤ all.length
  asked : ∀ (i : Nat) (job : List Int × Int), i < p.gathered.completions.length → all[i]? = some job →
    .added (first + i + 1) (jobArgs ignoreEos job) ∈ p.w.events ∧
      (p.w.engine.sched.heap (first + i)).promptTokens = job.1

theorem run_snoc {c : EngineCall κ} {w1 : EngineRun δ} {calls : List (EngineCall κ)}
    (h : run (EngineRun.step env) w0 calls = some w) (hs : EngineRun.step env w c = some w1) :
    run (EngineRun.step env) w0 (calls ++ [c]) = some w1 := by
  rw [run_append, h, Option.bind_some, run_cons, hs]
  rfl

/-- a prompt the engine lets in -/
theorem Pumping.added {job : List Int × Int} {idleSteps : Nat}
    (h : Pumping T o env first w0 ignoreEos all ⟨w, g, job :: rest, idleSteps⟩)
    (ha : w.engine.addRequest (jobArgs ignoreEos job)
      = some (.ok (w.engine.nextRequestId, w.engine.added (jobArgs ignoreEos job))))
    (hA : Engine.Accepted o w.engine (jobArgs ignoreEos job)) :
    Pumping T o env first w0 ignoreEos all
      ⟨{ w with
        engine := w.engine.added (jobArgs ignoreEos job)
        events := w.events ++ [.added w.engine.nextRequestId (jobArgs ignoreEos job)] },
        g.submitted w.engine.nextRequestId, rest, idleSteps⟩ := by
  have hE := Engine.EngineInv.added h.inv hA
  have hrep : reports (w.events ++ [.added w.engine.nextRequestId (jobArgs ignoreEos job)])
      = reports w.events := by
    rw [reports_append]
    exact List.append_nil _
  have hlen : (g.submitted w.engine.nextRequestId).completions.length = g.completions.length + 1 :=
    List.length_append
  have hjobs : job :: rest = all.drop g.completions.length := h.jobs
  have hget : all[g.completions.length]? = some job := by
    have := congrArg (·[0]?) hjobs
    rw [List.getElem?_drop] at this
    exact this.symm
  obtain ⟨calls, hran⟩ := h.ran
  refine ⟨hE, ?_, fun x hx => ?_, ?_, ⟨_, run_snoc hran (EngineRun.step_added env ha)⟩, ?_,
    ?_, fun i job' hi hjob => ?_⟩
  · show Gathers first _ (reports (w.events ++ _)) _
    rw [hrep]
    exact h.gathers.added h.inv _ h.known
  · have hx' : x ∈ reports (w.events ++ [.added w.engine.nextRequestId (jobArgs ignoreEos job)]) := hx
    rw [hrep] at hx'
    exact Nat.lt_succ_of_lt (h.known x hx')
  · exact h.idle.trans (Nat.le_of_eq (stall_queued h.inv.sched hE.sched).2.symm)
  · show rest = all.drop (g.submitted w.engine.nextRequestId).completions.length
    rw [hlen, ← List.drop_drop, ← hjobs]
    rfl
  · show (g.submitted w.engine.nextRequestId).completions.length ≤ all.length
    rw [hlen]
    exact (List.getElem?_eq_some_iff.mp hget).1
  · have hi' : i < g.completions.length + 1 := hlen ▸ hi
    have hcount : w.engine.sched.nextPtr = first + g.completions.length := h.gathers.count
    rcases Nat.lt_succ_iff_lt_or_eq.mp hi' with hi | rfl
    · obtain ⟨hadded, hprompt⟩ := h.asked i job' hi hjob
      refine ⟨List.mem_append_left _ hadded, ?_⟩
      show Request.promptTokens (Function.update w.engine.sched.heap w.engine.sched.nextPtr _ (first + i)) = _
      rw [Function.update_of_ne (by omega)]
      exact hprompt
    · obtain rfl := Option.some.inj (hget.symm.trans hjob)
      have hnext : first + g.completions.length + 1 = w.engine.nextRequestId := by
        rw [h.inv.nextId, hcount]
      refine ⟨List.mem_append_right _ (List.mem_singleton.mpr (by rw [hnext])), ?_⟩
      show Request.promptTokens (Function.update w.engine.sched.heap w.engine.sched.nextPtr _
        (first + g.completions.length)) = _
      rw [← hcount, Function.update_self]
      rfl

/-- why `generate` raises: the engine threw, or a prompt has too many chunks -/
inductive Raises (o : SchedulerOptions) (env : Environment κ δ) (w0 : EngineRun δ) (ignoreEos : Bool)
    (all : List (List Int × Int)) : GenerateError → Prop where
  | refused (err : InvalidArgument) (job : List Int × Int) (asked : job ∈ all)
      (calls : List (EngineCall κ)) (w : EngineRun δ) (ran : run (EngineRun.step env) w0 calls = some w)
      (throws : w.engine.addRequest (jobArgs ignoreEos job) = some (.error err)) :
      Raises o env w0 ignoreEos all (.invalidArgument err)
  | threw (err : ExecutorError) (calls : List (EngineCall κ)) (w : EngineRun δ)
      (ran : run (EngineRun.step env) w0 calls = some w) (throws : w.returned = .error err) :
      Raises o env w0 ignoreEos all (.executor err)
  | idle (unfinished : Int) (job : List Int × Int) (asked : job ∈ all)
      (long : maxIdleSteps + 1 < chunks o job.1.length) :
      Raises o env w0 ignoreEos all (.noProgress unfinished)

/-- how submitting ends -/
inductive Submitted (T : Nat) (o : SchedulerOptions) (env : Environment κ δ) (first : Nat)
    (w0 : EngineRun δ) (ignoreEos : Bool) (all : List (List Int × Int)) (p : Generation δ) :
    Except GenerateError (EngineRun δ × Gathered × List (List Int × Int)) → Prop where
  | refused (err : GenerateError) (raises : Raises o env w0 ignoreEos all err) :
      Submitted T o env first w0 ignoreEos all p (.error err)
  | done (w : EngineRun δ) (g : Gathered) (rest : List (List Int × Int))
      (pumping : Pumping T o env first w0 ignoreEos all ⟨w, g, rest, p.idleSteps⟩)
      (work : Generation.work o ⟨w, g, rest, p.idleSteps⟩ = p.work o)
      (busy : w.engine.sched.Busy ∨ (p.rest = [] ∧ rest = [] ∧ w = p.w ∧ g = p.gathered)) :
      Submitted T o env first w0 ignoreEos all p (.ok (w, g, rest))

/-- **Submitting** ends with a request in the engine, when there was one to submit. -/
theorem Pumping.submits (rest : List (List Int × Int)) : ∀ {w : EngineRun δ} {g : Gathered}
    {idleSteps : Nat}, Pumping T o env first w0 ignoreEos all ⟨w, g, rest, idleSteps⟩ →
    ∃ out, submit ignoreEos w g rest = some out ∧
      Submitted T o env first w0 ignoreEos all ⟨w, g, rest, idleSteps⟩ out := by
  induction rest with
  | nil => exact fun h => ⟨_, rfl, .done _ _ _ h rfl (Or.inr ⟨rfl, rfl, rfl, rfl⟩)⟩
  | cons job rest ih =>
    intro w g idleSteps h
    unfold submit
    by_cases hcap : w.engine.hasCapacity = true
    · rw [if_pos hcap]
      rcases Engine.addRequest_spec h.inv (jobArgs ignoreEos job) with ⟨err, ha⟩ | ⟨ha, hA⟩
      · obtain ⟨calls, hran⟩ := h.ran
        have hjobs : job :: rest = all.drop g.completions.length := h.jobs
        have hasked : job ∈ all := List.mem_of_mem_drop (hjobs ▸ List.mem_cons_self)
        simp only [ha]
        exact ⟨_, rfl, .refused _ (.refused err job hasked calls w hran ha)⟩
      · simp only [ha]
        obtain ⟨out, hout, hend⟩ := ih (h.added ha hA)
        refine ⟨out, hout, ?_⟩
        cases hend with
        | refused err raises => exact .refused err raises
        | done w1 g1 rest1 pumping work busy =>
          refine .done w1 g1 rest1 pumping (work.trans ?_) (Or.inl ?_)
          · show (w.engine.added _).sched.pending o + _ = w.engine.sched.pending o + _
            rw [pending_added, List.map_cons, List.sum_cons, Nat.add_assoc]
            rfl
          · rcases busy with hb | ⟨_, _, rfl, _⟩
            · exact hb
            · exact Or.inl (List.append_ne_nil_of_right_ne_nil _ (List.cons_ne_nil _ _))
    · rw [if_neg hcap]
      refine ⟨_, rfl, .done w g (job :: rest) h rfl (Or.inl (Or.inl ?_))⟩
      intro h0
      refine hcap (decide_eq_true ?_)
      rw [h0]
      exact Nat.succ_pos _

/-- an open completion is a request in the engine -/
theorem Gathers.busy {s : Scheduler} {told : List StepResult} (hs : Inv T o s)
    (h : Gathers first s told g) (hne : g.unfinished ≠ 0) : s.Busy := by
  have hpos : 0 < g.completions.countP fun c => c.finishReason == "" := by
    have := h.unfinished
    omega
  obtain ⟨c, hc, hreason⟩ := List.countP_pos_iff.mp hpos
  obtain ⟨i, hi⟩ := List.getElem?_of_mem hc
  have hlt : first + i < s.nextPtr := by
    have := (List.getElem?_eq_some_iff.mp hi).1
    have := h.count
    omega
  refine hs.busy hlt fun hfin => (hs.finished_iff hlt).mp hfin (FinishReason.name_inj ?_)
  rw [h.slot i c hi] at hreason
  exact beq_iff_eq.mp hreason

/-- a request in the prefill queue is one of the prompts -/
theorem Pumping.prompt {p : Generation δ} (h : Pumping T o env first w0 ignoreEos all p) {r : Nat}
    (hr : r ∈ p.w.engine.sched.prefillQueue) :
    ∃ job ∈ all, (p.w.engine.sched.heap r).numPromptTokens = job.1.length := by
  have hlt : r < p.w.engine.sched.nextPtr :=
    h.inv.sched.lt_nextPtr (Or.inr (List.mem_append_right _ hr))
  have hfirst : first ≤ r := by
    by_contra hold
    exact h.gathers.old r (Nat.not_le.mp hold) (h.inv.sched.prefill r hr).reason
  obtain ⟨i, rfl⟩ := Nat.exists_eq_add_of_le hfirst
  have hcount := h.gathers.count
  have hi : i < p.gathered.completions.length := by omega
  have hjob := List.getElem?_eq_getElem (Nat.lt_of_lt_of_le hi h.few)
  exact ⟨_, List.mem_of_getElem? hjob, congrArg List.length (h.asked i _ hi hjob).2⟩

/-- how submitting ends, with a prompt or a completion open -/
inductive Ready (T : Nat) (o : SchedulerOptions) (env : Environment κ δ) (first : Nat)
    (w0 : EngineRun δ) (ignoreEos : Bool) (all : List (List Int × Int)) (p : Generation δ) :
    Except GenerateError (EngineRun δ × Gathered × List (List Int × Int)) → Prop where
  | raised (err : GenerateError) (raises : Raises o env w0 ignoreEos all err) :
      Ready T o env first w0 ignoreEos all p (.error err)
  | ready (w : EngineRun δ) (g : Gathered) (rest : List (List Int × Int))
      (pumping : Pumping T o env first w0 ignoreEos all ⟨w, g, rest, p.idleSteps⟩)
      (work : Generation.work o ⟨w, g, rest, p.idleSteps⟩ = p.work o)
      (busy : w.engine.sched.Busy) : Ready T o env first w0 ignoreEos all p (.ok (w, g, rest))

theorem Pumping.submitted {p : Generation δ} (h : Pumping T o env first w0 ignoreEos all p)
    (hgo : ¬ (p.rest = [] ∧ p.gathered.unfinished = 0)) :
    ∃ out, submit ignoreEos p.w p.gathered p.rest = some out ∧
      Ready T o env first w0 ignoreEos all p out := by
  obtain ⟨out, hsubmit, hend⟩ := Pumping.submits p.rest h
  refine ⟨out, hsubmit, ?_⟩
  cases hend with
  | refused err raises => exact .raised err raises
  | done w g rest pumping work busy =>
    refine .ready w g rest pumping work ?_
    rcases busy with hb | ⟨hr, _, rfl, rfl⟩
    · exact hb
    · exact h.gathers.busy h.inv.sched fun h0 => hgo ⟨hr, h0⟩

/-- how a step of the pump ends -/
inductive Pumped (T : Nat) (o : SchedulerOptions) (env : Environment κ δ) (first : Nat)
    (w0 : EngineRun δ) (ignoreEos : Bool) (all : List (List Int × Int)) (p : Generation δ) :
    Except GenerateError (Generation δ) → Prop where
  | raised (err : GenerateError) (raises : Raises o env w0 ignoreEos all err) :
      Pumped T o env first w0 ignoreEos all p (.error err)
  | pumped (p1 : Generation δ) (pumping : Pumping T o env first w0 ignoreEos all p1)
      (less : p1.work o + 1 ≤ p.work o) : Pumped T o env first w0 ignoreEos all p (.ok p1)

/-- **The results of a step** reach their completions; all holds but for the count of idle steps. -/
theorem Pumping.told {idleSteps : Nat} (h1 : Pumping T o env first w0 ignoreEos all ⟨w, g, rest, idleSteps⟩)
    {plan : StepPlan} {s : Scheduler} {e : Engine} {d : δ} {k : κ} {results : List StepResult}
    {calls : List (EngineCall κ)} (hE1 : EngineInv T o e)
    (hran1 : run (EngineRun.step env) w0 calls = some
      { engine := e, device := d, events := w.events ++ [.stepped plan (.ok results)] })
    (planned : Scheduler.Planned T o w.engine.sched plan s)
    (ended : Engine.Ended T o (env.dev k) (env.planned w.engine.sched s w.device)
      { w.engine with sched := s } plan (.ok results) e d) :
    ∃ g1, g.takeAll results = .ok g1 ∧ ∀ idleSteps, idleSteps ≤ e.sched.headDone o →
      Pumping T o env first w0 ignoreEos all
        ⟨{ engine := e, device := d, events := w.events ++ [.stepped plan (.ok results)] }, g1, rest,
          idleSteps⟩ := by
  have htells := Ended.tells h1.inv planned ended
  have hasked : ∀ r, (e.sched.heap r).asked = (w.engine.sched.heap r).asked := fun r =>
    (ended.asked.2 r).trans (Planned.carried planned r).asked
  have hn : e.sched.nextPtr = w.engine.sched.nextPtr :=
    ended.asked.1.trans (Planned.nextPtr planned)
  have hrep : reports (w.events ++ [.stepped plan (.ok results)]) = reports w.events ++ results :=
    reports_append _ _
  obtain ⟨g1, htake, hg1⟩ :=
    h1.gathers.stepped htells (fun r => congrArg NewRequest.id (hasked r)) hn
  have hlen : g1.completions.length = g.completions.length := by
    have h1c : w.engine.sched.nextPtr = first + g.completions.length := h1.gathers.count
    have h2c := hg1.count
    omega
  refine ⟨g1, htake, fun idleSteps hidle =>
    ⟨hE1, ?_, fun x hx => ?_, hidle, ⟨_, hran1⟩, ?_, ?_, fun i job hi hjob => ?_⟩⟩
  · show Gathers first e.sched (reports (w.events ++ _)) g1
    rw [hrep]
    exact hg1
  · have hx' : x ∈ reports (w.events ++ [.stepped plan (.ok results)]) := hx
    rw [hrep, List.mem_append] at hx'
    show x.requestId < e.sched.nextPtr + 1
    rw [hn]
    rcases hx' with hx' | hx'
    · exact h1.known x hx'
    · obtain ⟨r, hr, hid⟩ := htells.known x hx'
      rw [hid]
      exact Nat.succ_lt_succ hr
  · show rest = all.drop g1.completions.length
    rw [hlen]
    exact h1.jobs
  · show g1.completions.length ≤ all.length
    rw [hlen]
    exact h1.few
  · obtain ⟨hadded, hprompt⟩ := h1.asked i job (hlen ▸ hi) hjob
    exact ⟨List.mem_append_left _ hadded,
      (congrArg NewRequest.promptTokens (hasked (first + i))).trans hprompt⟩

/-- **A step** takes one off the work, or there is a reason to raise. -/
theorem Pumping.advances {p : Generation δ} (h1 : Pumping T o env first w0 ignoreEos all p)
    (hbusy : p.w.engine.sched.Busy) (k : κ) :
    ∃ out, p.advance env k = some out ∧ Pumped T o env first w0 ignoreEos all p out := by
  obtain ⟨w, g, rest, idleSteps⟩ := p
  unfold Generation.advance
  obtain ⟨w1, hstep, hE1, hstepped⟩ := EngineRun.step_spec env h1.inv (.step k)
  obtain ⟨calls, hran⟩ := h1.ran
  have hran1 := run_snoc hran hstep
  simp only [hstep, Option.bind_eq_bind, Option.bind_some]
  cases hstepped with
  | stepped k plan s out e d plans planned ended =>
    have hreturned : EngineRun.returned { engine := e, device := d, events := w.events ++
        [.stepped plan out] } = out := by
      unfold EngineRun.returned
      rw [List.getLast?_append]
      rfl
    simp only [hreturned]
    cases out with
    | error err => exact ⟨_, rfl, .raised _ (.threw err _ _ hran1 hreturned)⟩
    | ok results =>
      obtain ⟨g1, htake, hnext⟩ := h1.told hE1 hran1 planned ended
      have hless : ∀ idleSteps, Generation.work o
          ⟨{ engine := e, device := d, events := w.events ++ [.stepped plan (.ok results)] }, g1,
            rest, idleSteps⟩ + 1 ≤ Generation.work o ⟨w, g, rest, idleSteps⟩ := by
        intro idleSteps
        have hdrop : e.sched.pending o ≤ w.engine.sched.pending o - 1 :=
          Ended.pending h1.inv.batch_pos h1.inv planned ended rfl
        have hpos : 0 < w.engine.sched.pending o := h1.inv.sched.pending_pos hbusy
        show e.sched.pending o + (rest.map (cost o)).sum + 1
          ≤ w.engine.sched.pending o + (rest.map (cost o)).sum
        omega
      cases results with
      | nil =>
        obtain ⟨hmore, r, hr, hmax⟩ : w.engine.sched.headDone o + 1 ≤ e.sched.headDone o ∧
            ∃ r ∈ e.sched.prefillQueue,
              e.sched.headDone o + 1 ≤ chunks o (e.sched.heap r).numPromptTokens :=
          Ended.quiet h1.inv planned ended hbusy
        have hidle : idleSteps ≤ w.engine.sched.headDone o := h1.idle
        have hle : idleSteps + 1 ≤ e.sched.headDone o := by omega
        obtain rfl := Except.ok.inj htake
        by_cases hmany : maxIdleSteps < idleSteps + 1
        · obtain ⟨job, hjob, hprompt⟩ := (hnext _ hle).prompt hr
          have hlong : e.sched.headDone o + 1 ≤ chunks o job.1.length := hprompt ▸ hmax
          exact ⟨_, if_pos hmany, .raised _ (.idle _ job hjob (by omega))⟩
        · exact ⟨_, if_neg hmany, .pumped _ (hnext _ hle) (hless _)⟩
      | cons x results =>
        simp only [htake]
        exact ⟨_, rfl, .pumped _ (hnext 0 (Nat.zero_le _)) (hless 0)⟩

/-- how `generate` ends -/
inductive Finished (T : Nat) (o : SchedulerOptions) (env : Environment κ δ) (first : Nat)
    (w0 : EngineRun δ) (ignoreEos : Bool) (all : List (List Int × Int)) : Generated δ → Prop where
  | raised (err : GenerateError) (raises : Raises o env w0 ignoreEos all err) :
      Finished T o env first w0 ignoreEos all (.raised err)
  | returned (p : Generation δ) (pumping : Pumping T o env first w0 ignoreEos all p)
      (done : p.rest = [] ∧ p.gathered.unfinished = 0) :
      Finished T o env first w0 ignoreEos all (.returned p)

/-- **The loop ends**, given as many steps as there is work. -/
theorem Pumping.loops (ks : List κ) :
    ∀ {p : Generation δ}, Pumping T o env first w0 ignoreEos all p → p.work o ≤ ks.length →
    ∃ out, p.loop env ignoreEos ks = some out ∧ Finished T o env first w0 ignoreEos all out := by
  induction ks with
  | nil =>
    intro p h hle
    unfold Generation.loop
    by_cases hdone : p.rest = [] ∧ p.gathered.unfinished = 0
    · rw [if_pos hdone]
      exact ⟨_, rfl, .returned p h hdone⟩
    · rw [if_neg hdone]
      obtain ⟨out, hsubmit, hend⟩ := h.submitted hdone
      simp only [hsubmit]
      cases hend with
      | raised err raises => exact ⟨_, rfl, .raised err raises⟩
      | ready w g rest pumping work busy =>
        -- a request in the engine is work
        have hpos : 0 < w.engine.sched.pending o := pumping.inv.sched.pending_pos busy
        have hwork : w.engine.sched.pending o + (rest.map (cost o)).sum = p.work o := work
        rw [List.length_nil] at hle
        omega
  | cons k ks ih =>
    intro p h hle
    unfold Generation.loop
    by_cases hdone : p.rest = [] ∧ p.gathered.unfinished = 0
    · rw [if_pos hdone]
      exact ⟨_, rfl, .returned p h hdone⟩
    · rw [if_neg hdone]
      obtain ⟨out, hsubmit, hend⟩ := h.submitted hdone
      simp only [hsubmit]
      cases hend with
      | raised err raises => exact ⟨_, rfl, .raised err raises⟩
      | ready w g rest pumping work busy =>
        obtain ⟨out, hadvance, hend⟩ := pumping.advances busy k
        simp only [hadvance]
        cases hend with
        | raised err raises => exact ⟨_, rfl, .raised err raises⟩
        | pumped p1 pumping1 less =>
          rw [List.length_cons] at hle
          exact ih pumping1 (by omega)

end

/-! ## results -/

/-- a returned list: one completion for each prompt, in order, each finished and complete; what is raised
has a reason -/
def Generated.Sound {κ δ : Type} (o : SchedulerOptions) (env : Environment κ δ) (w0 : EngineRun δ)
    (ignoreEos : Bool) (all : List (List Int × Int)) : Generated δ → Prop
  | .running _ => False
  | .raised err => Raises o env w0 ignoreEos all err
  | .returned p =>
    p.gathered.completions.length = all.length ∧
    p.w.engine.sched.nextPtr = w0.engine.sched.nextPtr + all.length ∧
    (∀ r < p.w.engine.sched.nextPtr, (p.w.engine.sched.heap r).state = .kFinished) ∧
    ∀ (i : Nat) (job : List Int × Int), all[i]? = some job →
      .added (w0.engine.sched.nextPtr + i + 1) (jobArgs ignoreEos job) ∈ p.w.events ∧
      ∃ c, p.gathered.completions[i]? = some c ∧ c.requestId = w0.engine.sched.nextPtr + i + 1 ∧
        c.finishReason ∈ ["eos", "length", "aborted"] ∧
        c = collected (p.w.engine.sched.heap (w0.engine.sched.nextPtr + i))
          (about (w0.engine.sched.nextPtr + i + 1) (reports p.w.events))

section
variable {κ δ : Type} {T : Nat} {o : SchedulerOptions} {env : Environment κ δ} {first : Nat}
  {w0 : EngineRun δ} {ignoreEos : Bool} {all : List (List Int × Int)}

theorem FinishReason.name_mem {x : FinishReason} (h : x ≠ .kNone) :
    x.name ∈ ["eos", "length", "aborted"] := by
  cases x with
  | kNone => exact absurd rfl h
  | kEos => decide
  | kLength => decide
  | kAborted => decide

theorem Finished.sound {out : Generated δ} (hfirst : w0.engine.sched.nextPtr = first)
    (h : Finished T o env first w0 ignoreEos all out) : out.Sound o env w0 ignoreEos all := by
  cases h with
  | raised err raises => exact raises
  | returned p pumping done =>
    unfold Generated.Sound
    rw [hfirst]
    have hlen : p.gathered.completions.length = all.length := by
      have hdrop := congrArg List.length pumping.jobs
      have := pumping.few
      rw [done.1, List.length_drop, List.length_nil] at hdrop
      omega
    have hcount := pumping.gathers.count
    -- nothing is open, so every request is finished
    have hclosed : ∀ c ∈ p.gathered.completions, c.finishReason ≠ "" := by
      have h0 : p.gathered.completions.countP (fun c => c.finishReason == "") = 0 := by
        have := pumping.gathers.unfinished
        rw [done.2] at this
        omega
      intro c hc e
      exact List.countP_eq_zero.mp h0 c hc (beq_iff_eq.mpr e)
    have hreason : ∀ r < p.w.engine.sched.nextPtr, (p.w.engine.sched.heap r).finishReason ≠ .kNone := by
      intro r hr hnone
      by_cases hold : r < first
      · exact pumping.gathers.old r hold hnone
      · obtain ⟨i, rfl⟩ := Nat.exists_eq_add_of_le (Nat.not_lt.mp hold)
        have hi : i < p.gathered.completions.length := by omega
        have hget := List.getElem?_eq_getElem hi
        refine hclosed _ (List.getElem_mem hi) ?_
        rw [pumping.gathers.slot i _ hget]
        show FinishReason.name _ = ""
        rw [hnone]
        rfl
    refine ⟨hlen, by rw [hcount, hlen], fun r hr =>
      (pumping.inv.sched.finished_iff hr).mpr (hreason r hr), fun i job hjob => ?_⟩
    have hi : i < p.gathered.completions.length := by
      rw [hlen]
      exact (List.getElem?_eq_some_iff.mp hjob).1
    have hget := List.getElem?_eq_getElem hi
    have hslot := pumping.gathers.slot i _ hget
    have hr : first + i < p.w.engine.sched.nextPtr := by omega
    refine ⟨(pumping.asked i job hi hjob).1, _, hget, ?_, ?_, hslot⟩
    · rw [hslot]
      exact pumping.inv.ids _ hr
    · rw [hslot]
      exact FinishReason.name_mem (hreason _ hr)

/-- an engine with nothing unfinished is ready for a client -/
theorem Pumping.start {e : Engine} {d : δ} (hE : EngineInv T o e)
    (hidle : ∀ r < e.sched.nextPtr, (e.sched.heap r).state = .kFinished)
    (env : Environment κ δ) (ignoreEos : Bool) (all : List (List Int × Int)) :
    Pumping T o env e.sched.nextPtr (.init e d) ignoreEos all { w := .init e d, rest := all } where
  inv := hE
  gathers :=
    { byId := fun _ _ => iff_of_false nofun fun h => absurd h.2 (Nat.not_lt_zero _)
      unfinished := rfl
      count := rfl
      slot := fun _ _ hc => nomatch hc
      old := fun r hr => (hE.sched.finished_iff hr).mp (hidle r hr) }
  known := fun _ hx => absurd hx List.not_mem_nil
  idle := Nat.zero_le _
  ran := ⟨[], rfl⟩
  jobs := rfl
  few := Nat.zero_le _
  asked := fun _ _ hi _ => absurd hi (Nat.not_lt_zero _)

end

/-- **`generate` ends well.**  From any idle state of any engine, whatever the device does, it refuses
budgets that do not match the prompts, and with as many steps as `ceil(prompt_len / chunk) +
max_new_tokens` over the prompts it passes an exception of the engine on or returns.  It never sees an
unknown or a finished request, and gives up only on a prompt of more than `_MAX_IDLE_STEPS + 1` chunks. -/
theorem generate_ends (κ δ : Type) (config : ModelConfig) (options : EngineOptions) (captured : Bool)
    (probe : Nat → Nat → Option PrefillGemmMode) (e : Engine)
    (he : Engine.make config options captured probe = .ok e)
    (env : Environment κ δ) (d0 : δ) (calls : List (EngineCall κ)) (w : EngineRun δ)
    (hw : run (EngineRun.step env) (.init e d0) calls = some w)
    (hidle : ∀ r < w.engine.sched.nextPtr, (w.engine.sched.heap r).state = .kFinished)
    (prompts : List (List Int)) (maxNewTokens : MaxNewTokens) (ignoreEos : Bool) (ks : List κ) :
    (∀ err, jobs prompts maxNewTokens = .error err →
      generate env w.engine w.device prompts maxNewTokens ignoreEos ks = some (.raised err)) ∧
    ∀ all, jobs prompts maxNewTokens = .ok all →
      (all.map (cost (Engine.schedulerOptions config options))).sum ≤ ks.length →
      ∃ out, generate env w.engine w.device prompts maxNewTokens ignoreEos ks = some out ∧
        out.Sound (Engine.schedulerOptions config options) env
          (.init w.engine w.device) ignoreEos all := by
  refine ⟨fun err hjobs => by unfold generate; rw [hjobs], fun all hjobs hks => ?_⟩
  have hE0 : EngineInv e.totalBlocks (Engine.schedulerOptions config options)
      (EngineRun.init e d0).engine := EngineInv.make he
  obtain ⟨w1, hw1, hE, _⟩ : ∃ w1, run (EngineRun.step env) (.init e d0) calls = some w1 ∧
      EngineInv e.totalBlocks (Engine.schedulerOptions config options) w1.engine ∧ True :=
    EngineRun.run_keeps (fun _ => True) (fun _ _ _ _ _ _ => trivial) hE0 trivial calls
  obtain rfl : w1 = w := Option.some.inj (hw1.symm.trans hw)
  have h0 := Pumping.start (d := w1.device) hE hidle env ignoreEos all
  have hnone : w1.engine.sched.pending (Engine.schedulerOptions config options) = 0 :=
    held_zero fun r hr => todo_finished (hidle r (List.mem_range.mp hr))
  obtain ⟨out, hloop, hend⟩ := h0.loops ks (by
    show w1.engine.sched.pending _ + _ ≤ _
    rw [hnone, Nat.zero_add]
    exact hks)
  refine ⟨out, ?_, hend.sound rfl⟩
  unfold generate
  rw [hjobs]
  exact hloop

def Generated.completions {δ : Type} : Generated δ → List Completion
  | .returned p => p.gathered.completions
  | _ => []

/-- an engine that served one request -/
def servedRun : EngineRun Unit :=
  (run (EngineRun.step hostOnly) (.init (tinyEngine .kReserveFull) ())
    [.addRequest { promptTokens := [1], maxNewTokens := 1 }, .step (.ok fun _ => 4)]).get
      (by decide +kernel)

theorem generate_ends_example : ∃ p,
    generate hostOnly servedRun.engine servedRun.device [[1, 2], [3]] (.int 2) false
      (List.replicate 6 (.ok fun _ => 5)) = some (.returned p) ∧
    p.gathered.completions = [⟨2, [5, 5], "length"⟩, ⟨3, [5, 5], "length"⟩] ∧
    p.w.engine.sched.nextPtr = 3 := by
  obtain ⟨out, hout, hsound⟩ := (generate_ends (Except ExecutorError (Nat → Int)) Unit tinyConfig
    (tinyOptions .kReserveFull) true tinyProbe (tinyEngine .kReserveFull)
    (tinyEngine_make .kReserveFull) hostOnly () _ servedRun
    (Option.some_get _).symm (by decide +kernel) [[1, 2], [3]] (.int 2) false
    (List.replicate 6 (.ok fun _ => 5))).2 _ rfl (by decide +kernel)
  have hran : (generate hostOnly servedRun.engine servedRun.device [[1, 2], [3]] (.int 2) false
      (List.replicate 6 (.ok fun _ => 5))).map Generated.completions
      = some [⟨2, [5, 5], "length"⟩, ⟨3, [5, 5], "length"⟩] := by decide +kernel
  rw [hout, Option.map_some, Option.some.injEq] at hran
  cases out with
  | running p => exact hsound.elim
  | raised err => cases hran
  | returned p => exact ⟨p, hout, hran, hsound.2.1⟩

end Redline
