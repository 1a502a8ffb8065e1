import Redline.Bench.Driver
import Redline.Lib.PyJson

/-!
# Recomputing the figures

`percentile`, `compute_metrics`, `select_median_trial`, `spread_exceeds` and `summarize_metrics` of
`bench/run_bench.py` over what `bench/report.py` hands them: values read from a file, in any float
format.  `Redline.Bench` has the same functions over exact rationals.
-/

namespace Redline
namespace Report
open Py Py.Value

variable {F : Type} [FloatOps F]

/-- the `RequestTrace` that the auditor rebuilds: its time stamps are floats -/
structure Trace (F : Type) where
  requestId : Value F
  enqueueTime : Value F
  tokenTimes : List F
  tokenIds : List (Value F)

namespace Trace

def numTokens (t : Trace F) : Nat := t.tokenTimes.length

def times (t : Trace F) : List (Value F) := t.tokenTimes.map .float

/-- `token_times[0]`, of a trace with tokens -/
def first (t : Trace F) : Value F := t.times.headD .null

/-- `token_times[-1]` -/
def last (t : Trace F) : Value F := t.times.getLastD .null

end Trace

def at? (data : List (Value F)) (i : Nat) : Except Exn (Value F) :=
  match data[i]? with
  | some v => .ok v
  | none => .error .indexError

def percentile (values : List (Value F)) (p : Int) : Except Exn (Value F) :=
  if values.isEmpty then .error .valueError
  else do
    let data ← sortBy lt values
    if data.length = 1 then at? data 0
    else
      let rank ← mul (← div (int p) (float (FloatOps.lit 100))) (int (data.length - 1 : Nat))
      let low ← toInt rank
      let high := min (low.toNat + 1) (data.length - 1)
      let fraction ← sub rank (int low)
      let bottom ← at? data low.toNat
      add bottom (← mul fraction (← sub (← at? data high) bottom))

def interTokenLatencies (trace : Trace F) : Except Exn (List (Value F)) :=
  (trace.times.zip trace.times.tail).mapM fun (a, b) => sub b a

/-- `(n - 1) / (last - first)`, of a trace that spans some time -/
def decodeRate (trace : Trace F) : Except Exn (List (Value F)) := do
  if 2 ≤ trace.numTokens then
    if ← lt trace.first trace.last then
      return [← div (int (trace.numTokens - 1 : Nat)) (← sub trace.last trace.first)]
    else return []
  else return []

/-- entries that are there when there are samples -/
def optional (values : List (Value F)) (entries : Except Exn (List (String × Value F))) :
    Except Exn (List (String × Value F)) :=
  if values.isEmpty then .ok [] else entries

def computeMetrics (traces : List (Trace F)) : Except Exn (List (String × Value F)) :=
  if traces.isEmpty then .error .valueError
  else if traces.any fun t => t.tokenTimes.isEmpty then .error .valueError
  else do
    let totalTokens := (traces.map (·.numTokens)).sum
    let windowStart ← minimum (traces.map (·.enqueueTime))
    let windowEnd ← maximum (traces.map (·.last))
    let wallWindow ← sub windowEnd windowStart
    if ← le wallWindow (int 0) then .error .valueError
    else
      let ttfts ← traces.mapM fun t => sub t.first t.enqueueTime
      let pooledItls := (← traces.mapM interTokenLatencies).flatten
      let decodeRates := (← traces.mapM decodeRate).flatten
      let metrics : List (String × Value F) := [
        ("total_new_tokens", int totalTokens),
        ("wall_window_s", wallWindow),
        ("throughput_tok_s", ← div (int totalTokens) wallWindow),
        ("ttft_p50_s", ← percentile ttfts 50),
        ("ttft_p99_s", ← percentile ttfts 99),
        ("num_requests", int traces.length)]
      let itls ← optional pooledItls do
        return [("itl_p50_s", ← percentile pooledItls 50), ("itl_p99_s", ← percentile pooledItls 99)]
      let rates ← optional decodeRates do
        return [("decode_rate_p50_tok_s", ← percentile decodeRates 50),
          ("decode_rate_min_tok_s", ← minimum decodeRates),
            ("decode_rate_max_tok_s", ← maximum decodeRates)]
      return metrics ++ itls ++ rates

def headlineMetric : String := "throughput_tok_s"

def metricLabels : List (String × String) :=
  [("throughput_tok_s", "output token throughput over the full wall window (includes all prefill work), tok/s"),
    ("decode_rate_p50_tok_s",
      "per-request decode rate (n_i - 1) / (t_i,last - t_i,0), p50 across requests, tok/s"),
    ("ttft_p50_s", "time to first token, p50 across requests, s"),
    ("ttft_p99_s", "time to first token, p99 across requests, s"),
    ("itl_p50_s", "inter-token latency pooled across requests, p50, s"),
    ("itl_p99_s", "inter-token latency pooled across requests, p99, s")]

def selectMedianTrial (values : List (Value F)) : Except Exn Nat :=
  if values.isEmpty then .error .valueError
  else do
    let order ← sortBy (fun i j => lt (values.getD i .null) (values.getD j .null))
      (List.range values.length)
    return order.getD ((values.length - 1) / 2) 0

def spreadExceeds (values : List (Value F)) (fraction : Value F) : Except Exn Bool :=
  if values.length < 2 then .ok false
  else do
    let spread ← sub (← maximum values) (← minimum values)
    lt (← mul fraction (← percentile values 50)) spread

/-- the metrics of the trials -/
def trialMetrics (trials : List (Value F)) : Except Exn (List (Value F)) :=
  trials.mapM (getItem "metrics")

/-- the entry of one metric, where the median trial has it -/
def summaryEntry (trials : List (Value F)) (median : Value F) (name label : String) :
    Except Exn (List (String × Value F)) := do
  let values := (← trials.mapM fun metrics => do
    if ← contains name metrics then return [← getItem name metrics] else return []).flatten
  if values.isEmpty then return []
  else if ← contains name median then
    return [(name, .obj [("value", ← getItem name median), ("min", ← minimum values),
      ("max", ← maximum values), ("label", .str label)])]
  else return []

def summarizeMetrics (trials : List (Value F)) (medianIndex : Nat) : Except Exn (Value F) := do
  let metrics ← trialMetrics trials
  let median ← at? metrics medianIndex
  let entries ← metricLabels.mapM fun (name, label) => summaryEntry metrics median name label
  return .obj entries.flatten

end Report
end Redline
