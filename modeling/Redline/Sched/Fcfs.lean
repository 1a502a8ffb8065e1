import Mathlib.Data.List.Sort
import Redline.Sched.Run

/-!
# Admission order and the choice of victims

`fcfs_discipline`: in every state of a legal run

* the log of admissions and the requests still waiting make up the log of `Enqueue`;
* the running list and then the prefill queue stand in the order of the admission log;
* whatever plan comes next, nothing in it is both scheduled and aborted, its victims are the end
  of the running list, and nothing is aborted under `reserve_full`;
* each call of `EnsureDecodeBlockCapacity` that planning makes returns, after one abort at most,
  and its victim was admitted no earlier than anything running at that moment.

`Planning s st` are the states of the loop over `running` in the `PlanStep` that starts in `s`.
-/

namespace Redline
open Prog

/-- the states of the decode loop of one `PlanStep` -/
inductive Planning (s : Scheduler) : Scheduler.DecodeLoop → Prop where
  | start {s1 : Scheduler} (admitted : s.admitLoop = some s1) (queue : s1.prefillQueue = []) :
      Planning s { i := 0, plan := {}, sched := s1 }
  | turn {st st' : Scheduler.DecodeLoop} (h : Planning s st) (more : Scheduler.decodeCond st = true)
      (body : Scheduler.decodeBody st = some st') : Planning s st'

theorem Planning.decodeInv {T : Nat} {o : SchedulerOptions} {s : Scheduler}
    {st : Scheduler.DecodeLoop} (h : Inv T o s) (hP : Planning s st) :
    Scheduler.DecodeInv T o s st := by
  induction hP with
  | start admitted queue =>
    obtain ⟨s2, k, hl, hA, _⟩ := Scheduler.admitLoop_spec h
    rw [admitted, Option.some.injEq] at hl
    subst hl
    rw [hA.idle_of_nil queue]
    exact .init h
  | turn hP more body ih =>
    obtain ⟨st1, hb, hD, _⟩ := ih.step h more
    rw [body, Option.some.injEq] at hb
    rw [hb]
    exact hD

/-- no later in the admission log -/
def NoLater (log : List Nat) (x v : Nat) : Prop := log.idxOf x ≤ log.idxOf v

/-- one call of `EnsureDecodeBlockCapacity`, for the row `r` of the loop state `st` -/
def OneVictim (log : List Nat) (st : Scheduler.DecodeLoop) (r : Nat) : Prop :=
  ∃ covered victims s', st.sched.ensureDecodeBlockCapacity r st.plan
      = some (covered, { st.plan with aborted := st.plan.aborted ++ victims }, s') ∧
    st.sched.running = s'.running ++ victims ∧ victims.length ≤ 1 ∧
    ∀ v ∈ victims, ∀ x ∈ st.sched.running, NoLater log x v

/-- **The admission and abort discipline.**  See the file header. -/
structure Discipline (o : SchedulerOptions) (w : World) : Prop where
  distinct : w.enqueued.Nodup
  fcfs : w.admissions ++ w.sched.waiting = w.enqueued
  sorted : (w.sched.running ++ w.sched.prefillQueue).Sublist w.admissions
  apart : ∀ plan s', w.sched.planStep = some (plan, s') →
    ∀ r ∈ plan.aborted, plan.prefill ≠ some r ∧ r ∉ plan.decode
  /-- the victims of a plan are the end of the running list, youngest first -/
  victims : ∀ plan s', w.sched.planStep = some (plan, s') → plan.aborted ≠ [] →
    w.sched.running = s'.running ++ plan.aborted.reverse
  full : o.admissionPolicy = .kReserveFull →
    ∀ plan s', w.sched.planStep = some (plan, s') → plan.aborted = []
  calls : ∀ st, Planning w.sched st → Scheduler.decodeCond st = true →
    ∀ r, st.sched.running[st.i]? = some r → Scheduler.needsBlock (st.sched.heap r) →
      OneVictim w.admissions st r

/-- the two logs, as addresses -/
structure Logged (w : World) : Prop where
  enqueued : w.enqueued = List.range w.sched.nextPtr
  fcfs : w.admissions ++ w.sched.waiting = w.enqueued

theorem Logged.step {T : Nat} {o : SchedulerOptions} {w w' : World} {c : Call} (hl : Logged w)
    (hs : World.Stepped T o w c w') (h' : World.Reach T o w') : Logged w' := by
  cases hs with
  | rejected n => exact hl
  | queued n valid =>
    refine ⟨?_, ?_⟩
    · show w.enqueued ++ [w.sched.nextPtr] = List.range (w.sched.nextPtr + 1)
      rw [List.range_succ, hl.enqueued]
    · show w.admissions ++ (w.sched.waiting ++ [w.sched.nextPtr]) = _
      rw [← List.append_assoc, hl.fcfs]
  | planned plan s hP =>
    cases hP with
    | prefill s1 k r rest hP =>
      refine ⟨?_, ?_⟩
      · show w.enqueued = List.range s.nextPtr
        rw [hP.chunk.nextPtr, hP.admissions.nextPtr]
        exact hl.enqueued
      · show (w.admissions ++ s.prefillQueue.drop w.sched.prefillQueue.length) ++ s.waiting = _
        rw [hP.chunk.prefill, hP.chunk.waiting, hP.admissions.prefill, hP.admissions.waiting,
          List.drop_left, List.append_assoc, List.take_append_drop]
        exact hl.fcfs
    | decode _ hD =>
      refine ⟨?_, ?_⟩
      · show w.enqueued = List.range s.nextPtr
        rw [hD.nextPtr]
        exact hl.enqueued
      · show (w.admissions ++ s.prefillQueue.drop w.sched.prefillQueue.length) ++ s.waiting = _
        rw [hD.prefill, hD.waiting, List.drop_nil, List.append_nil]
        exact hl.fcfs
  | completed plan sampled results s stands hC =>
    have hsame : s.waiting = w.sched.waiting ∧ s.nextPtr = w.sched.nextPtr := by
      cases hC with
      | chunk r rest queue shape more none state inv => rw [state]; exact ⟨rfl, rfl⟩
      | first r rest token queue shape last tokens emits applied =>
        exact ⟨applied.waiting, applied.nextPtr⟩
      | rows shape running tokens emits applied => exact ⟨applied.waiting, applied.nextPtr⟩
    refine ⟨?_, ?_⟩
    · show w.enqueued = List.range s.nextPtr
      rw [hsame.2]
      exact hl.enqueued
    · show w.admissions ++ s.waiting = _
      rw [hsame.1]
      exact hl.fcfs

section
variable {T : Nat} {o : SchedulerOptions} {w : World}

/-- the admission log lists addresses from 0 on, and the admitted requests are among them -/
theorem Logged.admissions (h : Inv T o w.sched) (hl : Logged w) :
    ∃ k, w.admissions = List.range k ∧ ∀ r ∈ w.sched.admitted, r < k := by
  obtain ⟨k, hk, hw, hlt⟩ := h.arrival
  have hf := hl.fcfs
  have hsplit : List.range w.sched.nextPtr
      = List.range k ++ List.range' k (w.sched.nextPtr - k) := by
    have happ : List.range' 0 k ++ List.range' (0 + k) (w.sched.nextPtr - k)
        = List.range' 0 (k + (w.sched.nextPtr - k)) := List.range'_append_1
    rw [Nat.zero_add, Nat.add_sub_cancel' hk] at happ
    rw [List.range_eq_range', List.range_eq_range', happ]
  rw [hl.enqueued, hw, hsplit] at hf
  exact ⟨k, List.append_cancel_right hf, hlt⟩

theorem Logged.sorted (h : Inv T o w.sched) (hl : Logged w) :
    w.sched.admitted.Sublist w.admissions := by
  obtain ⟨k, hk, hlt⟩ := hl.admissions h
  rw [hk]
  refine List.sublist_of_subperm_of_sortedLE ?_ ?_ ?_
  · exact h.nodup.subperm fun r hr => List.mem_range.mpr (hlt r hr)
  · exact (h.order.imp fun hab => Nat.le_of_lt hab).sortedLE
  · exact (List.pairwise_lt_range.imp fun hab => Nat.le_of_lt hab).sortedLE

theorem Logged.noLater (h : Inv T o w.sched) (hl : Logged w) {x v : Nat}
    (hv : v ∈ w.sched.admitted) (hxv : x ≤ v) : NoLater w.admissions x v := by
  obtain ⟨k, hk, hlt⟩ := hl.admissions h
  have hvk := hlt v hv
  have hidx : ∀ y < k, (List.range k).idxOf y = y := by
    intro y hy
    have := List.nodup_range.idxOf_getElem y (by rw [List.length_range]; exact hy)
    rwa [List.getElem_range] at this
  unfold NoLater
  rw [hk, hidx x (by omega), hidx v hvk]
  exact hxv

theorem discipline_of_inv (h : Inv T o w.sched) (hl : Logged w) : Discipline o w where
  distinct := by rw [hl.enqueued]; exact List.nodup_range
  fcfs := hl.fcfs
  sorted := hl.sorted h
  apart := by
    intro plan s' hs r hr
    cases Scheduler.planned_of_planStep h hs with
    | prefill s1 k r' rest hP =>
      rw [hP.shape] at hr
      exact absurd hr List.not_mem_nil
    | decode _ hD =>
      have hn := (List.nodup_append.mp h.nodup).1
      rw [hD.cut, List.nodup_append] at hn
      exact ⟨by rw [hD.shape]; simp, fun hm => hn.2.2 r hm r (List.mem_reverse.mpr hr) rfl⟩
  victims := by
    intro plan s' hs hne
    cases Scheduler.planned_of_planStep h hs with
    | prefill s1 k r' rest hP => exact absurd (by rw [hP.shape]; rfl) hne
    | decode _ hD => rw [hD.running]; exact hD.cut
  full := by
    intro hp plan s' hs
    cases Scheduler.planned_of_planStep h hs with
    | prefill s1 k r' rest hP => rw [hP.shape]; rfl
    | decode _ hD =>
      by_contra hne
      rw [(hD.aborts hne).1] at hp
      cases hp
  calls := by
    intro st hP hc r hr hn
    have hD := hP.decodeInv h
    obtain ⟨rest, hrest⟩ := hD.ahead
    have hrun : st.sched.running = st.plan.decode ++ r :: rest.tail := by
      rw [hrest, hD.index, List.getElem?_append_right (le_refl _), Nat.sub_self] at hr
      rw [hrest]
      cases rest with
      | nil => cases hr
      | cons r' rest => rw [Option.some.inj hr]; rfl
    have hmem : r ∈ st.sched.running := List.mem_of_getElem? hr
    have hfull := (hD.inv.running r hmem).boundary.mp hn
    obtain ⟨covered, ab, s', hs, hE⟩ :=
      Scheduler.ensureDecodeBlockCapacity_spec hD.inv hrun hfull st.plan
    refine ⟨covered, ab, s', hs, hE.running, hE.once, fun v hv x hx => ?_⟩
    have hold : ∀ y ∈ st.sched.running, y ∈ w.sched.admitted := fun y hy =>
      List.mem_append_left _ (by rw [hD.cut]; exact List.mem_append_left _ hy)
    have hvm : v ∈ st.sched.running := by rw [hE.running]; exact List.mem_append_right _ hv
    apply hl.noLater h (hold v hvm)
    -- the victim is the last running sequence
    have hsort := (List.pairwise_append.mp hD.inv.order).1
    rw [hE.running, List.pairwise_append] at hsort
    rw [hE.running] at hx
    rcases List.mem_append.mp hx with hx | hx
    · exact Nat.le_of_lt (hsort.2.2 x hx v hv)
    · match ab, hE.once, hv, hx with
      | [a], _, hv, hx => rw [List.mem_singleton.mp hv, List.mem_singleton.mp hx]

end

/-- **First come, first served; the youngest is aborted.** -/
theorem fcfs_discipline (T : Nat) (o : SchedulerOptions) (ha : Scheduler.ConstructorAsserts T o)
    (cs : List Call) (hL : Legal World.step World.ok (World.init T o) cs) :
    ∃ w, run World.step (World.init T o) cs = some w ∧ Discipline o w := by
  obtain ⟨w, hr, hw, hl⟩ := World.run_spec Logged (fun _ _ _ _ hl hs h' => hl.step hs h')
    (World.Reach.init (World.tuned_of_asserts ha)) ⟨rfl, rfl⟩ cs hL
  exact ⟨w, hr, discipline_of_inv hw.inv hl⟩

/-- a watermark run -/
theorem fcfs_discipline_example :
    ∃ w, run World.step
        (World.init 3 { maxBatch := 2, maxSeqLen := 64, admissionPolicy := .kWatermark })
        [.enqueue { promptTokens := [1], maxNewTokens := 20 }, .planStep, .completeStep [5],
          .planStep] = some w ∧
      Discipline { maxBatch := 2, maxSeqLen := 64, admissionPolicy := .kWatermark } w :=
  fcfs_discipline 3 { maxBatch := 2, maxSeqLen := 64, admissionPolicy := .kWatermark }
    (by decide +kernel)
    [.enqueue { promptTokens := [1], maxNewTokens := 20 }, .planStep, .completeStep [5], .planStep]
    (by decide +kernel)

end Redline
