import Redline.Lib.Throw
import Redline.Report.Recompute

/-!
# The audit of a results file

`validate_result` and `_audit_raw_data` of `bench/report.py`, on any JSON value.
-/

namespace Redline
namespace Report
open Py Py.Value

/-- what a `ReportError` says about one file -/
inductive Problem (F : Type) where
  | notAnObject
  | schemaVersion (found : Value F)
  | missingKey (key : String)
  | forcedLengthOk
  | environmentMissing
  | commandLineMissing
  | noTrials
  | headlineMissing
  | metricMissing (name field : String)
  | headlineLabel
  | medianIndex (found : Value F)
  | workloadKey (key : String)
  | trialNotAnObject (index : Nat)
  | noRequests (index : Nat)
  | requestCount (index records : Nat) (ran : Int)
  | tokensMissing (index : Nat) (requestId : Value F)
  | duplicateId (index : Nat) (requestId : Value F)
  | notParallel (index : Nat) (requestId : Value F) (ids times : Nat)
  | forcedLength (index : Nat) (requestId : Value F) (tokens : Nat) (forced : Int)
  | decreasing (index : Nat) (requestId : Value F)
  | notRecomputable (index : Nat) (error : Exn)
  | metricKeys (index : Nat) (recomputed : List String)
  | metricValue (index : Nat) (name : String) (stored expected : Value F)
  | summary
  | dispersionMetric (found : Value F)
  | threshold (found : Value F)
  | dispersionValues
  | medianTrial (found : Value F) (expected : Nat)
  | dispersionFlag
  | dispersionReran

/-- a `ReportError`, or an exception of the interpreter -/
inductive Raised (P : Type) where
  | report (problem : P)
  | exn (e : Exn)

abbrev Audit (F : Type) (α : Type) := Except (Raised (Problem F)) α

variable {F : Type} [FloatOps F] {P α : Type}

def lift (x : Except Exn α) : Except (Raised P) α :=
  match x with
  | .ok a => .ok a
  | .error e => .error (.exn e)

def require (p : Prop) [Decidable p] (problem : P) : Except (Raised P) Unit :=
  if p then .ok () else .error (.report problem)

omit [FloatOps F] in
theorem lift_ok {x : Except Exn α} {a : α} : (lift x : Except (Raised P) α) = .ok a ↔ x = .ok a := by
  unfold lift
  cases x with
  | ok b =>
    exact ⟨fun h => congrArg Except.ok (Except.ok.inj h),
      fun h => congrArg Except.ok (Except.ok.inj h)⟩
  | error e => exact ⟨fun h => (by cases h), fun h => (by cases h)⟩

omit [FloatOps F] in
theorem require_ok {p : Prop} [Decidable p] {problem : P} : require p problem = .ok () ↔ p := by
  unfold require
  by_cases h : p
  · rw [if_pos h]
    exact ⟨fun _ => h, fun _ => rfl⟩
  · rw [if_neg h]
    exact ⟨fun he => (by cases he), fun hp => absurd hp h⟩

/-! ## the raw data -/

/-- some value is below the one before it -/
def decreases : List (Value F) → Except Exn Bool
  | a :: b :: rest => do
    if ← lt b a then return true else decreases (b :: rest)
  | _ => .ok false

def auditRequest (index : Nat) (outputLen : Int) (seenIds : List (Value F)) (request : Value F) :
    Audit F (Trace F) := do
  let rid ← lift (getD "request_id" request)
  match ← lift (getD "token_ids" request), ← lift (getD "token_times_s" request) with
  | .arr tokenIds, .arr tokenTimes => do
    if ¬ hashable rid then .error (.exn .typeError)
    require (¬ seenIds.any (eq rid)) (.duplicateId index rid)
    require (tokenIds.length = tokenTimes.length)
      (.notParallel index rid tokenIds.length tokenTimes.length)
    require (tokenIds.length = outputLen) (.forcedLength index rid tokenIds.length outputLen)
    let falls ← lift (decreases tokenTimes)
    require (¬ falls) (.decreasing index rid)
    let enqueue ← lift (get "enqueue_time_s" request)
    let times ← lift (tokenTimes.mapM toFloat)
    return {
      requestId := rid
      enqueueTime := enqueue.getD (float (FloatOps.lit 0))
      tokenTimes := times
      tokenIds }
  | _, _ => .error (.report (.tokensMissing index rid))

def auditRequests (index : Nat) (outputLen : Int) (requests : List (Value F)) :
    Audit F (List (Trace F)) :=
  requests.foldlM (fun traces request => do
    return traces ++ [← auditRequest index outputLen (traces.map (·.requestId)) request]) []

def recomputeRelTol : Rat := 5 / 10 ^ 4

def recomputeAbsTol : Rat := 1 / 10 ^ 7

/-- a stored metric against the recomputed one -/
def metricMatches (stored expected : Value F) : Except Exn Bool :=
  match asInt expected with
  | some _ => .ok (eq stored expected)
  | none =>
    match asNumber stored with
    | some _ => isclose recomputeRelTol recomputeAbsTol stored expected
    | none => .ok false

def auditMetrics (index : Nat) (stored : List (String × Value F))
    (recomputed : List (String × Value F)) :
    Audit F Unit := do
  require ((∀ p ∈ stored, (lookup p.1 recomputed).isSome) ∧ ∀ p ∈ recomputed,
    (lookup p.1 stored).isSome) (.metricKeys index (recomputed.map Prod.fst))
  recomputed.forM fun (name, expected) => do
    let got ← lift (getItem name (.obj stored))
    require (← lift (metricMatches got expected)) (.metricValue index name got expected)

def auditTrial (numRequests outputLen : Int) (index : Nat) (trial : Value F) : Audit F Unit :=
  match trial with
  | .obj fields => do
    let requests ← match lookup "requests" fields with
      | some (.arr (r :: rs)) => pure (r :: rs)
      | _ => .error (.report (.noRequests index))
    require (requests.length = numRequests) (.requestCount index requests.length numRequests)
    let traces ← auditRequests index outputLen requests
    let recomputed ← match computeMetrics traces with
      | .ok metrics => pure metrics
      | .error .typeError => .error (.report (.notRecomputable index .typeError))
      | .error .valueError => .error (.report (.notRecomputable index .valueError))
      | .error e => .error (.exn e)
    match lookup "metrics" fields with
    | some (.obj stored) => auditMetrics index stored recomputed
    | _ => .error (.report (.metricKeys index (recomputed.map Prod.fst)))
  | _ => .error (.report (.trialNotAnObject index))

def auditTrials (numRequests outputLen : Int) : Nat → List (Value F) → Audit F Unit
  | _, [] => .ok ()
  | index, trial :: trials => do
    auditTrial numRequests outputLen index trial
    auditTrials numRequests outputLen (index + 1) trials

/-- `workload[key]`, a positive integer -/
def workloadSize (workload : Value F) (key : String) : Audit F Int := do
  match asInt (← lift (getD key workload)) with
  | some n => do
    require (0 < n) (.workloadKey key)
    return n
  | none => .error (.report (.workloadKey key))

/-- the dispersion block against the trials -/
def auditDispersion (dispersion medianIndex : Value F) (trials : List (Value F)) : Audit F Unit := do
  let headlineValues ← lift ((← lift (trialMetrics trials)).mapM (getItem headlineMetric))
  let metric ← lift (getD "metric" dispersion)
  require (eq metric (.str headlineMetric)) (.dispersionMetric metric)
  let threshold ← lift (getD "threshold_fraction" dispersion)
  match asNumber threshold with
  | none => .error (.report (.threshold threshold))
  | some _ => do
    require (¬ (← lift (le threshold (int 0)))) (.threshold threshold)
    require (eq (← lift (getD "values" dispersion)) (.arr headlineValues)) .dispersionValues
    let expected ← lift (selectMedianTrial headlineValues)
    require (eq medianIndex (int expected)) (.medianTrial medianIndex expected)
    let exceeds ← lift (spreadExceeds headlineValues threshold)
    require (truthy (← lift (getD "flag" dispersion)) = exceeds) .dispersionFlag
    let reruns ← lift (trials.mapM (getD "dispersion_rerun"))
    require (truthy (← lift (getD "reran" dispersion)) = reruns.any truthy) .dispersionReran

def auditRawData (result : Value F) (medianIndex : Nat) : Audit F Unit := do
  let workload ← lift (getItem "workload" result)
  let numRequests ← workloadSize workload "num_requests"
  let outputLen ← workloadSize workload "output_len"
  let trials ← lift (elements (← lift (getItem "trials" result)))
  auditTrials numRequests outputLen 0 trials
  let summary ← lift (summarizeMetrics trials medianIndex)
  require (eq (← lift (getItem "metrics" result)) summary) .summary
  auditDispersion (← lift (getItem "dispersion" result))
    (← lift (getItem "median_trial_index" result)) trials

/-! ## the whole file -/

def resultsSchemaVersion : Int := 1

def requiredKeys : List String :=
  ["engine", "case", "workload", "engine_config", "trials", "dispersion"]

def entryFields : List String := ["value", "min", "max", "label"]

/-- the index, where it is one of a trial -/
def trialIndex (medianIndex trials : Value F) : Audit F Nat :=
  match asInt medianIndex with
  | some i => do
    require (0 ≤ i) (.medianIndex medianIndex)
    let count ← lift (len trials)
    require (i < count) (.medianIndex medianIndex)
    return i.toNat
  | none => .error (.report (.medianIndex medianIndex))

def validateResult (result : Value F) : Audit F Unit :=
  match result with
  | .obj fields => do
    let field (key : String) : Value F := (lookup key fields).getD .null
    require (eq (field "schema_version") (int resultsSchemaVersion))
      (.schemaVersion (field "schema_version"))
    requiredKeys.forM fun key => require (lookup key fields).isSome (.missingKey key)
    require (field "forced_length_ok" matches .bool true) .forcedLengthOk
    match field "environment" with
    | .obj environment => do
      require (lookup "nvidia_smi_q" environment).isSome .environmentMissing
      require (lookup "command_line" environment).isSome .commandLineMissing
      require (truthy (field "trials")) .noTrials
      match field "metrics" with
      | .obj metrics => do
        require (lookup headlineMetric metrics).isSome .headlineMissing
        metrics.forM fun (name, entry) => entryFields.forM fun key => do
          require (← lift (contains key entry)) (.metricMissing name key)
        let label ← lift (getItem "label" (← lift (getItem headlineMetric (.obj metrics))))
        require (← lift (contains "prefill" label)) .headlineLabel
        let medianIndex ← trialIndex (field "median_trial_index") (field "trials")
        auditRawData result medianIndex
      | _ => .error (.report .headlineMissing)
    | _ => .error (.report .environmentMissing)
  | _ => .error (.report .notAnObject)

end Report
end Redline
