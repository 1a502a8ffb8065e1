import Redline.Sched.Admission
import Redline.Sched.Decode

/-!
# What planning does

`planStep_spec`: from a state with `Inv`, `PlanStep` returns (no assertion fails, no loop runs
out of fuel), `Inv` holds again, and the plan is one of two kinds (`Planned`):

* `PrefillPlan`  some waiting requests were admitted, in order; the head of the prefill queue got
                 the blocks of its next chunk; nothing else changed;
* `DecodePlan`   nothing was admitted and the prefill queue is empty; the running list is cut into
                 the decode rows and, youngest first, the aborted sequences; the rows own the
                 block of their next position.

Everything that is proved about plans later is read off these two structures.
-/

namespace Redline
open Prog

namespace Scheduler

section
variable {T : Nat} {o : SchedulerOptions} {s s1 s' : Scheduler} {plan : StepPlan}

/-- the plan of the next chunk of `r` -/
def chunkPlan (o : SchedulerOptions) (s : Scheduler) (r : Nat) : StepPlan :=
  { prefill := some r
    prefillBegin := (s.heap r).prefillProgress
    prefillEnd := chunkEnd o (s.heap r) }

/-- what a prefill plan does; `s1` is the state between the admissions and the chunk -/
structure PrefillPlan (T : Nat) (o : SchedulerOptions) (s s1 : Scheduler) (k r : Nat)
    (rest : List Nat) (plan : StepPlan) (s' : Scheduler) : Prop where
  admissions : Admissions T o s s1 k
  blocked : s1.admitsHead = false
  queue : s1.prefillQueue = r :: rest
  shape : plan = chunkPlan o s1 r
  chunk : ChunkCovered T o s1 s' r
  blocks : (s'.heap r).blockTable.numBlocks = blocksForTokens (chunkEnd o (s1.heap r))

/-- what `PlanStep` does -/
inductive Planned (T : Nat) (o : SchedulerOptions) (s : Scheduler) (plan : StepPlan)
    (s' : Scheduler) : Prop where
  | prefill (s1 : Scheduler) (k r : Nat) (rest : List Nat)
      (h : PrefillPlan T o s s1 k r rest plan s')
  | decode (blocked : s.admitsHead = false) (h : DecodePlan T o s plan s')

theorem Planned.inv (h : Planned T o s plan s') : Inv T o s' := by
  cases h with
  | prefill s1 k r rest h => exact h.chunk.inv
  | decode _ h => exact h.inv

/-- the plan of a chunk whose blocks were covered -/
theorem planPrefill_eq (h : Inv T o s) {r : Nat} (hr : r ∈ s.prefillQueue)
    (hs : s.coverChunk r (chunkEnd o (s.heap r)) = some s') :
    s.planPrefill r = some (chunkPlan o s r, s') := by
  have hp := h.prefill r hr
  have hlt : (s.heap r).prefillProgress <
      min ((s.heap r).prefillProgress + s.options.prefillChunkTokens) (s.heap r).numPromptTokens := by
    rw [h.options]; exact lt_chunkEnd h.tuned hp
  have hs' : s.coverChunk r (min ((s.heap r).prefillProgress + s.options.prefillChunkTokens)
      (s.heap r).numPromptTokens) = some s' := by
    rw [h.options]; exact hs
  unfold planPrefill
  simp only [check_pos hp.state, check_pos hlt, hs', Option.bind_eq_bind, Option.bind_some,
    Option.pure_def]
  rw [h.options]
  rfl

theorem planPrefill_spec (h : Inv T o s) {r : Nat} {rest : List Nat}
    (hq : s.prefillQueue = r :: rest) :
    ∃ s', s.planPrefill r = some (chunkPlan o s r, s') ∧ ChunkCovered T o s s' r ∧
      (s'.heap r).blockTable.numBlocks = blocksForTokens (chunkEnd o (s.heap r)) := by
  obtain ⟨s', hs, hC, hb⟩ := coverChunk_spec h hq
  exact ⟨s', planPrefill_eq h (by rw [hq]; exact List.mem_cons_self) hs, hC, hb⟩

/-- **Planning returns**, and does one of two things. -/
theorem planStep_spec (h : Inv T o s) :
    ∃ plan s', s.planStep = some (plan, s') ∧ Planned T o s plan s' := by
  obtain ⟨s1, k, hl, hA, hblocked⟩ := admitLoop_spec h
  cases hq : s1.prefillQueue with
  | cons r rest =>
    obtain ⟨s', hs, hC, hb⟩ := planPrefill_spec hA.inv hq
    refine ⟨_, s', ?_, .prefill s1 k r rest ⟨hA, hblocked, hq, rfl, hC, hb⟩⟩
    unfold planStep
    simp only [hl, hq, hs, Option.bind_eq_bind, Option.bind_some]
  | nil =>
    obtain rfl := hA.idle_of_nil hq
    obtain ⟨plan, s', hs, hD⟩ := planDecode_spec h hq
    refine ⟨plan, s', ?_, .decode hblocked hD⟩
    unfold planStep
    simp only [hl, hq, hs, Option.bind_eq_bind, Option.bind_some]

/-- a returned plan is of one of the two kinds -/
theorem planned_of_planStep (h : Inv T o s) (hs : s.planStep = some (plan, s')) :
    Planned T o s plan s' := by
  obtain ⟨plan1, s1, hs1, hP⟩ := planStep_spec h
  rw [hs, Option.some.injEq, Prod.mk.injEq] at hs1
  rw [hs1.1, hs1.2]
  exact hP

end
end Scheduler
end Redline
