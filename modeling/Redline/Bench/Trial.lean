import Mathlib.Algebra.BigOperators.Group.List.Basic
import Mathlib.Data.List.Dedup
import Mathlib.Data.List.Perm.Basic
import Redline.Bench.Metrics
import Redline.Lib.HalfEven
import Redline.Lib.Throw

/-!
# One measured trial

`assertForcedLengths`, `_trace_to_json` and `runTrial` of `bench/run_bench.py`.

* `runTrial_iff`         the traces a trial is made of: each names a request and has its length,
                          and each request has one;
* `trial_bijective_iff`   they correspond one to one to the requests, and the token total is the
                          workload's, exactly when no id comes twice.
-/

namespace Redline
namespace RunBench

/-! ## forced lengths -/

/-- the value of a dict built in order: the last assignment of a key stays -/
def expected (workload : Workload) (requestId : Int) : Option Nat :=
  (workload.requests.reverse.find? fun r => r.requestId == requestId).map (·.maxNewTokens)

def checkTrace (workload : Workload) (trace : RequestTrace) : List Violation :=
  match expected workload trace.requestId with
  | none => [.notInWorkload trace.requestId]
  | some want =>
    if trace.numTokens = want then []
    else [.produced trace.requestId trace.numTokens want trace.finishReason]

/-- the requests without a trace, in the order of their ids -/
def missing (workload : Workload) (traces : List RequestTrace) : List Int :=
  ((workload.requests.map (·.requestId)).dedup.filter fun id =>
    decide (id ∉ traces.map (·.requestId))).insertionSort (· ≤ ·)

def violations (traces : List RequestTrace) (workload : Workload) : List Violation :=
  traces.flatMap (checkTrace workload) ++ (missing workload traces).map .noTrace

def assertForcedLengths (traces : List RequestTrace) (workload : Workload) : Except BenchError Unit :=
  if violations traces workload = [] then .ok ()
  else .error (.forcedLength (violations traces workload))

/-! ## the record -/

/-- `round(x, 7)` -/
def round7 (x : Rat) : Rat := HalfEven.toUnit (1 / 10 ^ 7) x

/-- the raw record of a request -/
structure RequestRecord where
  requestId : Int
  enqueueTimeS : Rat
  tokenTimesS : List Rat
  tokenIds : List Int
  finishReason : String
  deriving DecidableEq, Repr

def traceToJson (trace : RequestTrace) (epoch : Rat) : RequestRecord where
  requestId := trace.requestId
  enqueueTimeS := round7 (trace.enqueueTime - epoch)
  tokenTimesS := trace.tokenTimes.map fun t => round7 (t - epoch)
  tokenIds := trace.tokenIds
  finishReason := trace.finishReason

structure Trial where
  metrics : Metrics
  requests : List RequestRecord
  deriving DecidableEq, Repr

/-- the traces are what `adapter.run(workload)` returned -/
def runTrial (traces : List RequestTrace) (workload : Workload) : Except BenchError Trial := do
  assertForcedLengths traces workload
  let metrics ← computeMetrics traces
  return ⟨metrics, traces.map fun t => traceToJson t (windowStart traces)⟩

/-! ## what a trial accepts -/

section
variable {workload : Workload} {traces : List RequestTrace}

/-- the requests of a workload have distinct ids -/
def Workload.Distinct (workload : Workload) : Prop := (workload.requests.map (·.requestId)).Nodup

/-- a request's id with the length it is forced to -/
def WorkloadRequest.pair (r : WorkloadRequest) : Int × Nat := (r.requestId, r.maxNewTokens)

def RequestTrace.pair (t : RequestTrace) : Int × Nat := (t.requestId, t.numTokens)

theorem expected_eq_some (hw : workload.Distinct) {id : Int} {n : Nat} :
    expected workload id = some n ↔ (id, n) ∈ workload.requests.map (·.pair) := by
  unfold expected
  constructor
  · intro h
    obtain ⟨r, hfind, rfl⟩ := Option.map_eq_some_iff.mp h
    have hbeq : (r.requestId == id) = true :=
      List.find?_some (p := fun r : WorkloadRequest => r.requestId == id) hfind
    have hid := beq_iff_eq.mp hbeq
    have hr := List.mem_reverse.mp (List.mem_of_find?_eq_some hfind)
    exact List.mem_map.mpr ⟨r, hr, Prod.ext hid rfl⟩
  · intro h
    obtain ⟨r, hr, hpair⟩ := List.mem_map.mp h
    obtain ⟨hid, hn⟩ := Prod.mk.inj hpair
    cases hfind : workload.requests.reverse.find? fun r => r.requestId == id with
    | none =>
      exact absurd (beq_iff_eq.mpr hid) (List.find?_eq_none.mp hfind r (List.mem_reverse.mpr hr))
    | some r' =>
      have hr' := List.mem_reverse.mp (List.mem_of_find?_eq_some hfind)
      have hbeq : (r'.requestId == id) = true :=
        List.find?_some (p := fun r : WorkloadRequest => r.requestId == id) hfind
      have hid' := beq_iff_eq.mp hbeq
      rw [List.inj_on_of_nodup_map hw hr' hr (hid'.trans hid.symm)]
      exact congrArg some hn

theorem checkTrace_eq_nil (hw : workload.Distinct) {t : RequestTrace} :
    checkTrace workload t = [] ↔ t.pair ∈ workload.requests.map (·.pair) := by
  show _ ↔ (t.requestId, t.numTokens) ∈ _
  rw [← expected_eq_some hw]
  unfold checkTrace
  cases expected workload t.requestId with
  | none => simp
  | some want => simp [eq_comm]

theorem missing_eq_nil : missing workload traces = [] ↔
    ∀ r ∈ workload.requests, r.requestId ∈ traces.map (·.requestId) := by
  have hperm :=
    List.perm_insertionSort (· ≤ ·) ((workload.requests.map (·.requestId)).dedup.filter fun id =>
    decide (id ∉ traces.map (·.requestId)))
  unfold missing
  constructor
  · intro h r hr
    by_contra hnot
    rw [h] at hperm
    have hmem : r.requestId ∈ (workload.requests.map (·.requestId)).dedup :=
      List.mem_dedup.mpr (List.mem_map_of_mem hr)
    exact absurd (hperm.symm.subset (List.mem_filter.mpr ⟨hmem, decide_eq_true hnot⟩)) List.not_mem_nil
  · intro h
    refine List.eq_nil_iff_forall_not_mem.mpr fun id hid => ?_
    obtain ⟨hmem, hnot⟩ := List.mem_filter.mp (hperm.subset hid)
    obtain ⟨r, hr, rfl⟩ := List.mem_map.mp (List.mem_dedup.mp hmem)
    exact of_decide_eq_true hnot (h r hr)

/-- each trace is a request's, of its length, and each request has a trace -/
structure Matched (workload : Workload) (traces : List RequestTrace) : Prop where
  known : ∀ t ∈ traces, t.pair ∈ workload.requests.map (·.pair)
  traced : ∀ r ∈ workload.requests, r.requestId ∈ traces.map (·.requestId)

theorem assertForcedLengths_iff (hw : workload.Distinct) :
    assertForcedLengths traces workload = .ok () ↔ Matched workload traces := by
  have hnil : violations traces workload = [] ↔ Matched workload traces := by
    unfold violations
    rw [List.append_eq_nil_iff, List.flatMap_eq_nil_iff, List.map_eq_nil_iff, missing_eq_nil]
    exact ⟨fun ⟨h, h'⟩ => ⟨fun t ht => (checkTrace_eq_nil hw).mp (h t ht), h'⟩,
      fun h => ⟨fun t ht => (checkTrace_eq_nil hw).mpr (h.known t ht), h.traced⟩⟩
  rw [← hnil]
  unfold assertForcedLengths
  by_cases h : violations traces workload = []
  · simp [h]
  · simp [h]

/-- **What `runTrial` accepts.** -/
theorem runTrial_iff (hw : workload.Distinct) {trial : Trial} : runTrial traces workload = .ok trial ↔
    Matched workload traces ∧ Measurable traces ∧
      trial = ⟨metricsOf traces, traces.map fun t => traceToJson t (windowStart traces)⟩ := by
  unfold runTrial
  rw [Throw.bind_eq_ok]
  constructor
  · rintro ⟨_, hforced, h⟩
    obtain ⟨m, hm, htrial⟩ := Throw.bind_eq_ok.mp h
    obtain ⟨hmeas, rfl⟩ := of_computeMetrics_ok hm
    exact ⟨(assertForcedLengths_iff hw).mp hforced, hmeas, (Except.ok.inj htrial).symm⟩
  · rintro ⟨hmatched, hmeas, rfl⟩
    exact ⟨(), (assertForcedLengths_iff hw).mpr hmatched,
      Throw.bind_eq_ok.mpr ⟨_, computeMetrics_ok hmeas, rfl⟩⟩

/-! ## one trace for each request -/

/-- the requests and the traces correspond one to one, with the forced lengths -/
def OneToOne (workload : Workload) (traces : List RequestTrace) : Prop :=
  (traces.map (·.pair)).Perm (workload.requests.map (·.pair))

def totalOutputTokens (workload : Workload) : Nat := (workload.requests.map (·.maxNewTokens)).sum

theorem ids_of_pairs (traces : List RequestTrace) : (traces.map (·.pair)).map Prod.fst = traces.map
    (·.requestId) :=
  List.map_map

theorem ids_of_requests (workload : Workload) :
    (workload.requests.map (·.pair)).map Prod.fst = workload.requests.map (·.requestId) := List.map_map

theorem OneToOne.matched (h : OneToOne workload traces) : Matched workload traces where
  known t ht := h.subset (List.mem_map_of_mem ht)
  traced r hr := by
    rw [← ids_of_pairs]
    exact List.mem_map_of_mem (f := Prod.fst) (h.symm.subset (List.mem_map_of_mem hr))

theorem OneToOne.nodup (hw : workload.Distinct) (h : OneToOne workload traces) :
    (traces.map (·.requestId)).Nodup := by
  have hids := h.map Prod.fst
  rw [ids_of_pairs, ids_of_requests] at hids
  exact hids.nodup_iff.mpr hw

theorem Matched.oneToOne (hw : workload.Distinct) (h : Matched workload traces)
    (hn : (traces.map (·.requestId)).Nodup) : OneToOne workload traces := by
  have hn' : (traces.map (·.pair)).Nodup := (ids_of_pairs traces ▸ hn).of_map _
  have hw' : (workload.requests.map (·.pair)).Nodup := by
    unfold Workload.Distinct at hw
    exact (ids_of_requests workload ▸ hw).of_map _
  refine (List.perm_ext_iff_of_nodup hn' hw').mpr fun p => ⟨fun hp => ?_, fun hp => ?_⟩
  · obtain ⟨t, ht, rfl⟩ := List.mem_map.mp hp
    exact h.known t ht
  · -- the trace of the request's id has the request's length
    obtain ⟨r, hr, rfl⟩ := List.mem_map.mp hp
    obtain ⟨t, ht, hid⟩ := List.mem_map.mp (h.traced r hr)
    obtain ⟨r', hr', hpair⟩ := List.mem_map.mp (h.known t ht)
    have hsame : r' = r := List.inj_on_of_nodup_map hw hr' hr ((congrArg Prod.fst hpair).trans hid)
    rw [← hsame, hpair]
    exact List.mem_map_of_mem ht

theorem OneToOne.total (h : OneToOne workload traces) :
    totalTokens traces = totalOutputTokens workload := by
  have hsum := (h.map Prod.snd).sum_eq
  rw [List.map_map, List.map_map] at hsum
  exact hsum

/-- **A trial is accepted on a bijection, and then counts the workload's tokens, exactly when no id
comes twice, or some trace is no request's or of another length, or some request has no trace.** -/
theorem trial_bijective_iff (hw : workload.Distinct) (hm : Measurable traces) :
    (((∃ trial, runTrial traces workload = .ok trial) ↔ OneToOne workload traces) ∧
      ∀ trial, runTrial traces workload = .ok trial →
        trial.metrics.totalNewTokens = totalOutputTokens workload) ↔
    (traces.map (·.requestId)).Nodup ∨
      (∃ t ∈ traces, ∀ r ∈ workload.requests,
        r.requestId = t.requestId → r.maxNewTokens ≠ t.numTokens) ∨
      ∃ r ∈ workload.requests, ∀ t ∈ traces, t.requestId ≠ r.requestId := by
  have haccept : (∃ trial, runTrial traces workload = .ok trial) ↔ Matched workload traces :=
    ⟨fun ⟨_, h⟩ => ((runTrial_iff hw).mp h).1, fun h => ⟨_, (runTrial_iff hw).mpr ⟨h, hm, rfl⟩⟩⟩
  have hunmatched : ¬ Matched workload traces ↔
      (∃ t ∈ traces, ∀ r ∈ workload.requests,
        r.requestId = t.requestId → r.maxNewTokens ≠ t.numTokens) ∨
      ∃ r ∈ workload.requests, ∀ t ∈ traces, t.requestId ≠ r.requestId := by
    constructor
    · intro hnot
      by_contra hall
      push Not at hall
      refine hnot ⟨fun t ht => ?_, fun r hr => ?_⟩
      · obtain ⟨r, hr, hid, hlen⟩ := hall.1 t ht
        exact List.mem_map.mpr ⟨r, hr, Prod.ext hid hlen⟩
      · obtain ⟨t, ht, hid⟩ := hall.2 r hr
        exact List.mem_map.mpr ⟨t, ht, hid⟩
    · rintro (⟨t, ht, hall⟩ | ⟨r, hr, hall⟩) h
      · obtain ⟨r, hr, hpair⟩ := List.mem_map.mp (h.known t ht)
        obtain ⟨hid, hlen⟩ := Prod.mk.inj hpair
        exact hall r hr hid hlen
      · obtain ⟨t, ht, hid⟩ := List.mem_map.mp (h.traced r hr)
        exact hall t ht hid
  rw [← hunmatched, haccept]
  constructor
  · rintro ⟨hiff, _⟩
    by_cases h : Matched workload traces
    · exact Or.inl ((hiff.mp h).nodup hw)
    · exact Or.inr h
  · rintro (hn | hnot)
    · refine ⟨⟨fun h => h.oneToOne hw hn, OneToOne.matched⟩, fun trial htrial => ?_⟩
      obtain ⟨hmatched, _, rfl⟩ := (runTrial_iff hw).mp htrial
      exact (hmatched.oneToOne hw hn).total
    · refine ⟨⟨fun h => absurd h hnot, fun h => absurd h.matched hnot⟩, fun trial htrial => ?_⟩
      exact absurd ((runTrial_iff hw).mp htrial).1 hnot

/-- one request of two tokens -/
def single : Workload := ⟨"single", [⟨0, [1000], 2, 0⟩]⟩

def singleTrace : RequestTrace := ⟨0, 0, [1, 2], [5, 6], "length"⟩

/-- three requests of different lengths -/
def three : Workload := ⟨"three", [⟨0, [1000], 2, 0⟩, ⟨1, [1001, 1002], 1, 0⟩, ⟨7, [1003], 3, 1 / 2⟩]⟩

/-- their traces, as the requests finished -/
def threeTraces : List RequestTrace :=
  [⟨1, 0, [1 / 3], [5], "stop"⟩, ⟨7, 1 / 2, [1, 2, 7 / 3], [6, 7, 8], "length"⟩,
    ⟨0, 0, [1, 3], [9, 9], "length"⟩]

theorem trial_bijective_permuted :
    ((∃ trial, runTrial threeTraces three = .ok trial) ↔ OneToOne three threeTraces) ∧
    ∃ trial, runTrial threeTraces three = .ok trial ∧ trial.metrics.totalNewTokens = 6 := by
  have hm : Measurable threeTraces := ⟨by decide, by decide, by decide +kernel⟩
  have hw : three.Distinct := by
    unfold Workload.Distinct
    decide
  obtain ⟨haccepts, htotal⟩ := (trial_bijective_iff hw hm).mpr (Or.inl (by decide))
  obtain ⟨trial, htrial⟩ :=
    haccepts.mpr (show (threeTraces.map (·.pair)).Perm (three.requests.map (·.pair)) by decide)
  exact ⟨haccepts, trial, htrial, (htotal trial htrial).trans (by decide)⟩

/-- the one request's trace comes twice: its tokens are counted twice -/
theorem repeated_trace_accepted :
    single.Distinct ∧ Measurable [singleTrace, singleTrace] ∧
      ¬ OneToOne single [singleTrace, singleTrace] ∧
      totalOutputTokens single = 2 ∧
      ∃ trial, runTrial [singleTrace, singleTrace] single = .ok trial ∧
        trial.metrics.totalNewTokens = 4 := by
  have hw : single.Distinct := by
    unfold Workload.Distinct
    decide
  have hm : Measurable [singleTrace, singleTrace] := ⟨by decide, by decide, by decide +kernel⟩
  have hmatched : Matched single [singleTrace, singleTrace] := ⟨by decide, by decide⟩
  refine ⟨hw, hm, fun h => absurd h.length_eq (by decide), by decide, ?_⟩
  exact ⟨_, (runTrial_iff hw).mpr ⟨hmatched, hm, rfl⟩, by decide⟩

end
end RunBench
end Redline
