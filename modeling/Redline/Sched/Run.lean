import Mathlib.Order.Interval.Finset.Nat
import Redline.Sched.Complete

/-!
# Runs of the scheduler

A `World` is a scheduler with the plan that stands and three ghost records, which nothing reads
back: the requests in the order `Enqueue` accepted them, the requests in the order they were
admitted, and the positions planned so far.

`World.step` is one call of `Enqueue`, `PlanStep` or `CompleteStep`, `World.ok` its contract: a
plan is completed at most once, while it is the last one, with the token count it asks for; it
may never be completed.  `step_spec` says what one call does (`Stepped`), and `reach_run` that a
legal run never gets stuck and stays inside `World.Reach`.
-/

namespace Redline
open Prog

/-- what the caller fills in; the bookkeeping of a new request object has its defaults -/
structure NewRequest where
  id : Nat := 0
  promptTokens : List Int := []
  maxNewTokens : Int := 0
  ignoreEos : Bool := false
  forcedTokens : List Int := []
  deriving DecidableEq, Repr

def NewRequest.request (n : NewRequest) : Request :=
  { id := n.id
    promptTokens := n.promptTokens
    maxNewTokens := n.maxNewTokens
    ignoreEos := n.ignoreEos
    forcedTokens := n.forcedTokens }

theorem NewRequest.waiting (n : NewRequest) : WaitingReq n.request :=
  ⟨rfl, rfl, rfl, rfl, rfl, rfl, rfl⟩

/-- the positions of `r` whose KV the plan writes; `s` is the state the plan stands in -/
def StepPlan.positions (plan : StepPlan) (s : Scheduler) (r : Nat) : Finset Nat :=
  if plan.prefill = some r then Finset.Ico plan.prefillBegin plan.prefillEnd
  else if r ∈ plan.decode then {(s.heap r).seqLen - 1}
  else ∅

/-- a call of the scheduler's interface -/
inductive Call where
  | enqueue (n : NewRequest)
  | planStep
  | completeStep (sampled : List Int)
  deriving DecidableEq, Repr

structure World where
  sched : Scheduler
  /-- the last plan, while it was not completed -/
  plan : Option StepPlan
  /-- ghost: accepted requests, oldest first -/
  enqueued : List Nat
  /-- ghost: admitted requests, in order -/
  admissions : List Nat
  /-- ghost: the positions planned so far -/
  planned : Nat → Finset Nat

namespace World

def init (T : Nat) (o : SchedulerOptions) : World :=
  { sched := .make T o
    plan := none
    enqueued := []
    admissions := []
    planned := fun _ => ∅ }

def step (w : World) : Call → Option World
  | .enqueue n => do
    match ← w.sched.enqueue n.request with
    | .error _ => return w
    | .ok s => return { w with
        sched := s
        enqueued := w.enqueued ++ [w.sched.nextPtr] }
  | .planStep => do
    let (plan, s) ← w.sched.planStep
    return { w with
      sched := s
      plan := some plan
      admissions := w.admissions ++ s.prefillQueue.drop w.sched.prefillQueue.length
      planned := fun r => w.planned r ∪ plan.positions s r }
  | .completeStep sampled => do
    let plan ← w.plan
    let (_, s) ← w.sched.completeStep plan sampled
    return { w with
      sched := s
      plan := none }

/-- the contract of a call -/
def ok (w : World) : Call → Prop
  | .completeStep sampled => ∃ plan ∈ w.plan, sampled.length = w.sched.tokensDue plan
  | _ => True

instance (w : World) : (c : Call) → Decidable (w.ok c)
  | .enqueue _ => instDecidableTrue
  | .planStep => instDecidableTrue
  | .completeStep sampled =>
    inferInstanceAs (Decidable (∃ plan ∈ w.plan, sampled.length = w.sched.tokensDue plan))

/-- what a call does -/
inductive Stepped (T : Nat) (o : SchedulerOptions) (w : World) : Call → World → Prop where
  | rejected (n : NewRequest) : Stepped T o w (.enqueue n) w
  | queued (n : NewRequest) (valid : Valid w.sched.allocator.usableBlocks o n.request) :
      Stepped T o w (.enqueue n) { w with
        sched := { w.sched with
          heap := Function.update w.sched.heap w.sched.nextPtr n.request
          waiting := w.sched.waiting ++ [w.sched.nextPtr]
          nextPtr := w.sched.nextPtr + 1 }
        enqueued := w.enqueued ++ [w.sched.nextPtr] }
  | planned (plan : StepPlan) (s : Scheduler) (h : Scheduler.Planned T o w.sched plan s) :
      Stepped T o w .planStep { w with
        sched := s
        plan := some plan
        admissions := w.admissions ++ s.prefillQueue.drop w.sched.prefillQueue.length
        planned := fun r => w.planned r ∪ plan.positions s r }
  | completed (plan : StepPlan) (sampled : List Int) (results : List StepResult) (s : Scheduler)
      (stands : w.plan = some plan) (h : Scheduler.Completed T o w.sched plan sampled results s) :
      Stepped T o w (.completeStep sampled) { w with
        sched := s
        plan := none }

/-- the scheduler invariant, and the plan stands -/
structure Reach (T : Nat) (o : SchedulerOptions) (w : World) : Prop where
  inv : Inv T o w.sched
  plan : ∀ plan, w.plan = some plan → Scheduler.PlanOk o w.sched plan

section
variable {T : Nat} {o : SchedulerOptions} {w : World}

theorem Reach.init (ht : Tuned o) : Reach T o (World.init T o) :=
  ⟨Inv.init ht, fun _ h => absurd h (by simp [World.init])⟩

/-- **One call**: it returns, and does what `Stepped` says -/
theorem step_spec (h : Reach T o w) (c : Call) (hok : w.ok c) :
    ∃ w', w.step c = some w' ∧ Reach T o w' ∧ Stepped T o w c w' := by
  cases c with
  | enqueue n =>
    rcases Scheduler.enqueue_spec h.inv n.waiting with ⟨e, he⟩ | ⟨hv, he⟩
    · exact ⟨w, by simp [step, he], h, .rejected n⟩
    · refine ⟨_, by simp only [step, he]; rfl, ?_, .queued n hv⟩
      exact ⟨h.inv.queued n.waiting hv, fun plan hp => (h.plan plan hp).queued h.inv n.request⟩
  | planStep =>
    obtain ⟨plan, s, hs, hP⟩ := Scheduler.planStep_spec h.inv
    refine ⟨_, by simp only [step, hs]; rfl, ⟨hP.inv, ?_⟩, .planned plan s hP⟩
    intro plan1 h1
    obtain rfl : plan = plan1 := Option.some.inj h1
    exact hP.planOk h.inv
  | completeStep sampled =>
    obtain ⟨plan, hp, hlen⟩ := hok
    rw [Option.mem_def] at hp
    obtain ⟨results, s, hs, hC⟩ := Scheduler.completeStep_spec h.inv (h.plan plan hp) hlen
    refine ⟨_, by simp only [step, hp, Option.bind_eq_bind, Option.bind_some, hs]; rfl,
      ⟨hC.inv, fun plan1 h1 => absurd h1 (by simp)⟩, .completed plan sampled results s hp hC⟩

/-- a legal run keeps what every call keeps -/
theorem run_spec (I : World → Prop)
    (hI : ∀ w c w', Reach T o w → I w → Stepped T o w c w' → Reach T o w' → I w')
    (h : Reach T o w) (h0 : I w) (cs : List Call) (hL : Legal step ok w cs) :
    ∃ w', run step w cs = some w' ∧ Reach T o w' ∧ I w' := by
  obtain ⟨w', hr, h1, h2⟩ := run_total (fun w => Reach T o w ∧ I w)
    (fun w c ⟨h, hi⟩ hok => by
      obtain ⟨w1, hs, h1, h2⟩ := step_spec h c hok
      exact ⟨w1, hs, h1, hI w c w1 h hi h2 h1⟩)
    cs w ⟨h, h0⟩ hL
  exact ⟨w', hr, h1, h2⟩

/-- **A legal run never gets stuck.** -/
theorem reach_run (h : Reach T o w) (cs : List Call) (hL : Legal step ok w cs) :
    ∃ w', run step w cs = some w' ∧ Reach T o w' := by
  obtain ⟨w', hr, hw, _⟩ := run_spec (fun _ => True) (fun _ _ _ _ _ _ _ => trivial) h trivial cs hL
  exact ⟨w', hr, hw⟩

/-- the assertions of the constructors tune the options -/
theorem tuned_of_asserts (ha : Scheduler.ConstructorAsserts T o) : Tuned o :=
  ⟨ha.2.2.1, ha.2.2.2.2.1⟩

end
end World
end Redline
