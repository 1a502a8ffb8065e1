import Redline.Bench.Workload
import Redline.Report.Audit

/-!
# The file that the driver writes

The `result` of `bench/run_bench.py`, with the times and figures as exact rationals; `json.dumps`
followed by `json.loads` gives it back.
-/

namespace Redline
namespace Report
open Py Py.Value RunBench

/-- what a run knows beside its trials -/
structure RunInfo where
  engine : String
  seed : Int
  /-- `adapter.version_info()` -/
  versionInfo : List (String × Value Rat)
  commandLine : List String
  nvidiaSmiQ : Value Rat
  /-- the other entries of `capture_environment` -/
  otherCaptures : List (String × Value Rat)
  /-- when the trial of an index began -/
  startedUtc : Nat → String
  engineStats : Value Rat
  ltAlgoReport : Value Rat

def metricsJson (m : Metrics) : List (String × Value Rat) :=
  [("total_new_tokens", int m.totalNewTokens), ("wall_window_s", float m.wallWindowS),
    ("throughput_tok_s", float m.throughputTokS), ("ttft_p50_s", float m.ttftP50S),
    ("ttft_p99_s", float m.ttftP99S), ("num_requests", int m.numRequests)] ++
  (m.itlP50S.map fun x => ("itl_p50_s", float x)).toList ++
  (m.itlP99S.map fun x => ("itl_p99_s", float x)).toList ++
  (m.decodeRateP50TokS.map fun x => ("decode_rate_p50_tok_s", float x)).toList ++
  (m.decodeRateMinTokS.map fun x => ("decode_rate_min_tok_s", float x)).toList ++
  (m.decodeRateMaxTokS.map fun x => ("decode_rate_max_tok_s", float x)).toList

def recordJson (r : RequestRecord) : Value Rat :=
  .obj [("request_id", int r.requestId), ("enqueue_time_s", float r.enqueueTimeS),
    ("token_times_s", .arr (r.tokenTimesS.map float)), ("token_ids", .arr (r.tokenIds.map int)),
    ("finish_reason", .str r.finishReason)]

/-- a trial with its index; only the re-run has its marker -/
def trialJson (info : RunInfo) (t : MeasuredTrial) : Value Rat :=
  .obj ([("started_utc", .str (info.startedUtc t.index)),
    ("metrics", .obj (metricsJson t.trial.metrics)),
    ("requests", .arr (t.trial.requests.map recordJson)), ("index", int t.index)] ++
    if t.dispersionRerun then [("dispersion_rerun", .bool true)] else [])

def metricKey : MetricName → String
  | .throughputTokS => "throughput_tok_s"
  | .decodeRateP50TokS => "decode_rate_p50_tok_s"
  | .ttftP50S => "ttft_p50_s"
  | .ttftP99S => "ttft_p99_s"
  | .itlP50S => "itl_p50_s"
  | .itlP99S => "itl_p99_s"

def entryJson (p : MetricName × Entry) : String × Value Rat :=
  (metricKey p.1, .obj [("value", float p.2.value), ("min", float p.2.min), ("max", float p.2.max),
    ("label", .str p.2.label)])

def dispersionJson (d : Dispersion) : Value Rat :=
  .obj [("metric", .str (metricKey d.metric)), ("threshold_fraction", float d.thresholdFraction),
    ("values", .arr (d.values.map float)), ("reran", .bool d.reran), ("flag", .bool d.flag)]

/-- `requests[1].arrival_time_s - requests[0].arrival_time_s` -/
def stagger (requests : List WorkloadRequest) : Rat :=
  match requests with
  | a :: b :: _ => b.arrivalTimeS - a.arrivalTimeS
  | _ => 0

/-- `_workload_summary`, of a workload with requests -/
def workloadSummary (w : Workload) : Value Rat :=
  .obj [("name", .str w.name), ("num_requests", int w.requests.length),
    ("input_len", int ((w.requests.head?.map (·.promptTokenIds.length)).getD 0 : Nat)),
    ("output_len", int ((w.requests.head?.map (·.maxNewTokens)).getD 0 : Nat)),
    ("arrival_stagger_s", float (stagger w.requests))]

def captureEnvironment (info : RunInfo) : Value Rat :=
  .obj ([("command_line", .arr (info.commandLine.map .str)),
    ("nvidia_smi_q", info.nvidiaSmiQ)] ++ info.otherCaptures)

def resultJson (info : RunInfo) (case : Case) (r : Result) : Value Rat :=
  .obj [("schema_version", int resultsSchemaVersion), ("engine", .str info.engine),
    ("case", .str case.name),
    ("seed", int info.seed), ("workload", workloadSummary (case.workload info.seed)),
    ("engine_config", .obj info.versionInfo), ("environment", captureEnvironment info),
    ("warmup", .arr (r.warmup.map fun m => .obj (metricsJson m))),
    ("trials", .arr (r.trials.map (trialJson info))),
    ("median_trial_index", int r.medianTrialIndex), ("metrics", .obj (r.metrics.map entryJson)),
    ("dispersion", dispersionJson r.dispersion), ("forced_length_ok", .bool true),
    ("engine_stats", info.engineStats), ("lt_algo_report", info.ltAlgoReport)]

end Report
end Redline
