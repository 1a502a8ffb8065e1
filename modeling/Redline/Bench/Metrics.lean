import Mathlib.Data.Rat.Floor
import Redline.Lib.Percentile

/-!
# The metrics of the harness

`bench/run_bench.py` over exact rationals: what a client recorded of each request, and the
figures computed from it.

* `percentile_ok`          the interpolated percentile of the harness, of at least one sample;
* `computeMetrics_ok`     the metrics of traces with tokens and a positive wall window;
* `of_computeMetrics_ok`  nothing else has metrics.
-/

namespace Redline
namespace RunBench

/-- `bench/adapters/__init__.py`: one time stamp and one id for each token -/
structure RequestTrace where
  requestId : Int
  enqueueTime : Rat
  tokenTimes : List Rat
  tokenIds : List Int
  finishReason : String
  deriving DecidableEq, Repr

namespace RequestTrace

def numTokens (t : RequestTrace) : Nat := t.tokenTimes.length

/-- `tokenTimes[0]` -/
def first (t : RequestTrace) : Rat := t.tokenTimes.headD 0

/-- `tokenTimes[-1]` -/
def last (t : RequestTrace) : Rat := t.tokenTimes.getLastD 0

end RequestTrace

structure WorkloadRequest where
  requestId : Int
  promptTokenIds : List Int
  maxNewTokens : Nat
  arrivalTimeS : Rat
  deriving DecidableEq, Repr

structure Workload where
  name : String
  requests : List WorkloadRequest
  deriving DecidableEq, Repr

/-- what one of the checks of a trial found -/
inductive Violation where
  | notInWorkload (requestId : Int)
  | produced (requestId : Int) (tokens expected : Nat) (finishReason : String)
  | noTrace (requestId : Int)
  deriving DecidableEq, Repr

inductive BenchError where
  | valueError (text : String)
  | noTokens (requestId : Int)
  | forcedLength (violations : List Violation)
  deriving DecidableEq, Repr

/-! ## percentiles -/

def percentile (values : List Rat) (p : Rat) : Except BenchError Rat :=
  if values = [] then .error (.valueError "percentile of empty list")
  else
    let data := values.insertionSort (· ≤ ·)
    if data.length = 1 then .ok (data.getD 0 0)
    else
      let rank := p / 100 * ((data.length - 1 : Nat) : Rat)
      let low := ⌊rank⌋.toNat
      let high := min (low + 1) (data.length - 1)
      let fraction := rank - low
      .ok (data.getD low 0 + fraction * (data.getD high 0 - data.getD low 0))

theorem percentile_ok {values : List Rat} (hn : values ≠ []) (p : Rat) :
    percentile values p = .ok (Percentile.percentile values p) := by
  unfold percentile
  rw [if_neg hn]
  by_cases h1 : (values.insertionSort (· ≤ ·)).length = 1
  · simp only [if_pos h1]
    rw [Percentile.percentile_single h1]
  · simp only [if_neg h1]
    unfold Percentile.percentile Percentile.atRank Percentile.rank
    rw [List.length_insertionSort]

/-! ## metrics -/

def interTokenLatencies (trace : RequestTrace) : List Rat :=
  (List.range (trace.numTokens - 1)).map fun i =>
    trace.tokenTimes.getD (i + 1) 0 - trace.tokenTimes.getD i 0

/-- the keys a set of traces may leave out are optional -/
structure Metrics where
  totalNewTokens : Nat
  wallWindowS : Rat
  throughputTokS : Rat
  ttftP50S : Rat
  ttftP99S : Rat
  numRequests : Nat
  itlP50S : Option Rat
  itlP99S : Option Rat
  decodeRateP50TokS : Option Rat
  decodeRateMinTokS : Option Rat
  decodeRateMaxTokS : Option Rat
  deriving DecidableEq, Repr

def totalTokens (traces : List RequestTrace) : Nat := (traces.map (·.numTokens)).sum

def windowStart (traces : List RequestTrace) : Rat := ((traces.map (·.enqueueTime)).min?).getD 0

def windowEnd (traces : List RequestTrace) : Rat := ((traces.map (·.last)).max?).getD 0

def wallWindow (traces : List RequestTrace) : Rat := windowEnd traces - windowStart traces

def ttfts (traces : List RequestTrace) : List Rat := traces.map fun t => t.first - t.enqueueTime

def pooledItls (traces : List RequestTrace) : List Rat := traces.flatMap interTokenLatencies

def decodeRates (traces : List RequestTrace) : List Rat :=
  (traces.filter fun t => decide (2 ≤ t.numTokens ∧ t.first < t.last)).map
    fun t => ((t.numTokens - 1 : Nat) : Rat) / (t.last - t.first)

/-- a key that is there when there are samples -/
def optional (values : List Rat) (f : List Rat → Except BenchError Rat) :
    Except BenchError (Option Rat) :=
  if values = [] then .ok none else (f values).map some

def computeMetrics (traces : List RequestTrace) : Except BenchError Metrics :=
  if traces = [] then .error (.valueError "compute_metrics needs at least one trace")
  else match traces.find? fun t => t.tokenTimes.isEmpty with
    | some trace => .error (.noTokens trace.requestId)
    | none => do
      let wall := wallWindow traces
      if wall ≤ 0 then .error (.valueError "non-positive wall window; timestamps are inconsistent")
      else
        return {
          totalNewTokens := totalTokens traces
          wallWindowS := wall
          throughputTokS := totalTokens traces / wall
          ttftP50S := ← percentile (ttfts traces) 50
          ttftP99S := ← percentile (ttfts traces) 99
          numRequests := traces.length
          itlP50S := ← optional (pooledItls traces) (percentile · 50)
          itlP99S := ← optional (pooledItls traces) (percentile · 99)
          decodeRateP50TokS := ← optional (decodeRates traces) (percentile · 50)
          decodeRateMinTokS := (decodeRates traces).min?
          decodeRateMaxTokS := (decodeRates traces).max? }

/-- the value at a key that is there when there are samples -/
def present (values : List Rat) (f : List Rat → Rat) : Option Rat :=
  if values = [] then none else some (f values)

theorem optional_percentile (values : List Rat) (p : Rat) :
    optional values (percentile · p) = .ok (present values (Percentile.percentile · p)) := by
  unfold optional present
  by_cases h : values = []
  · rw [if_pos h, if_pos h]
  · rw [if_neg h, if_neg h]
    show (percentile values p).map some = _
    rw [percentile_ok h]
    rfl

/-- the metrics of traces that have them -/
def metricsOf (traces : List RequestTrace) : Metrics where
  totalNewTokens := totalTokens traces
  wallWindowS := wallWindow traces
  throughputTokS := totalTokens traces / wallWindow traces
  ttftP50S := Percentile.percentile (ttfts traces) 50
  ttftP99S := Percentile.percentile (ttfts traces) 99
  numRequests := traces.length
  itlP50S := present (pooledItls traces) (Percentile.percentile · 50)
  itlP99S := present (pooledItls traces) (Percentile.percentile · 99)
  decodeRateP50TokS := present (decodeRates traces) (Percentile.percentile · 50)
  decodeRateMinTokS := (decodeRates traces).min?
  decodeRateMaxTokS := (decodeRates traces).max?

/-- traces that can be measured -/
structure Measurable (traces : List RequestTrace) : Prop where
  someTrace : traces ≠ []
  tokens : ∀ t ∈ traces, t.tokenTimes ≠ []
  window : 0 < wallWindow traces

theorem find_no_tokens {traces : List RequestTrace} :
    (traces.find? fun t => t.tokenTimes.isEmpty) = none ↔ ∀ t ∈ traces, t.tokenTimes ≠ [] := by
  rw [List.find?_eq_none]
  refine forall₂_congr fun t _ => not_congr List.isEmpty_iff

theorem computeMetrics_ok {traces : List RequestTrace} (h : Measurable traces) :
    computeMetrics traces = .ok (metricsOf traces) := by
  have httfts : ttfts traces ≠ [] := fun hnil => h.someTrace (List.map_eq_nil_iff.mp hnil)
  unfold computeMetrics
  rw [if_neg h.someTrace, find_no_tokens.mpr h.tokens]
  simp only [if_neg (not_le.mpr h.window), percentile_ok httfts, optional_percentile]
  rfl

theorem of_computeMetrics_ok {traces : List RequestTrace} {m : Metrics}
    (h : computeMetrics traces = .ok m) :
    Measurable traces ∧ m = metricsOf traces := by
  have hm : Measurable traces := by
    unfold computeMetrics at h
    by_cases hnil : traces = []
    · rw [if_pos hnil] at h
      cases h
    rw [if_neg hnil] at h
    cases hfind : traces.find? fun t => t.tokenTimes.isEmpty with
    | some t =>
      rw [hfind] at h
      cases h
    | none =>
      rw [hfind] at h
      by_cases hwall : wallWindow traces ≤ 0
      · simp only [if_pos hwall] at h
        cases h
      · exact ⟨hnil, find_no_tokens.mp hfind, not_le.mp hwall⟩
  exact ⟨hm, Except.ok.inj (h.symm.trans (computeMetrics_ok hm))⟩

end RunBench
end Redline
