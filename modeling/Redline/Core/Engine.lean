import Mathlib.Data.Rat.Floor
import Redline.Core.Executor

/-!
# The engine

`core/engine.cpp`: `AddRequest` validates and queues, `Step` plans, executes and completes.

The device is a parameter of `Step`: `dev l d` is what becomes of the kernels launched with the
inputs `l` when the device is in the state `d`.  It gives back the argmax buffer, or the exception
that ended the call, and the new state of the device.  The debug dump of the first chunk comes
after the step boundary and adds no copy to the stream; when it throws, that is `dev`'s exception.
-/

namespace Redline
open Prog

structure EngineOptions where
  kvPoolGb : ℚ := 1
  maxBatch : Int := 8
  enableCudaGraphs : Bool := true
  maxSeqLen : Int := 2048
  prefillChunkTokens : Int := 1024
  admissionPolicy : AdmissionPolicy := .kReserveFull
  padEagerToBucket : Int := 0
  debugDumpDir : String := ""

def makeExecutorOptions (o : EngineOptions) : ExecutorOptions :=
  { kvPoolBytes := ⌊o.kvPoolGb * 2 ^ 30⌋
    maxBatch := o.maxBatch
    maxSeqLen := o.maxSeqLen
    prefillChunkTokens := o.prefillChunkTokens
    enableCudaGraphs := o.enableCudaGraphs
    padEagerToBucket := o.padEagerToBucket
    debugDumpDir := o.debugDumpDir }

/-- why the constructor throws -/
inductive EngineError where
  | kvPoolGb (value : ℚ)
  | executor (e : ExecutorError)

def EngineError.message : EngineError → String
  | .kvPoolGb value => "engine: kv_pool_gb must be in (0, 1024], got " ++ toStringFixed value
  | .executor e => e.message

/-- the arguments of `AddRequest` -/
structure RequestArgs where
  promptTokens : List Int
  maxNewTokens : Int
  ignoreEos : Bool := false
  forcedTokens : List Int := []
  deriving DecidableEq, Repr

def RequestArgs.request (a : RequestArgs) (id : Nat) : Request :=
  { id
    promptTokens := a.promptTokens
    maxNewTokens := a.maxNewTokens
    ignoreEos := a.ignoreEos
    forcedTokens := a.forcedTokens }

structure EngineStats where
  steps : Nat := 0
  prefillTokens : Nat := 0
  decodeTokens : Nat := 0
  graphReplays : Nat := 0
  eagerDecodes : Nat := 0
  aborts : Nat := 0
  /-- decode steps per bucket, in bucket order -/
  bucketDecodeSteps : List Nat := []
  deriving DecidableEq, Repr

structure Engine where
  executor : Executor
  sched : Scheduler
  nextRequestId : Nat
  /-- the live requests by id -/
  requests : Nat → Option Nat
  stats : EngineStats

/-- what one executor call did, for the counters -/
structure Executed where
  prefillRows : Nat := 0
  decodeRows : Nat := 0
  executedBucket : Option Nat := none
  replayedGraph : Bool := false
  deriving DecidableEq, Repr

/-- what becomes of a launch: the argmax buffer or an exception, and the new device -/
abbrev Device (δ : Type) := Launch → δ → Except ExecutorError (Nat → Int) × δ

namespace Engine

def schedulerOptions (config : ModelConfig) (o : EngineOptions) : SchedulerOptions :=
  { maxBatch := o.maxBatch.toNat
    prefillChunkTokens := o.prefillChunkTokens.toNat
    maxSeqLen := o.maxSeqLen.toNat
    admissionPolicy := o.admissionPolicy
    eosTokenIds := config.eosTokenIds }

/-- the constructor, without its debug assertions; `captured` and `probe` as in `Executor.make` -/
def make (config : ModelConfig) (o : EngineOptions) (captured : Bool)
    (probe : Nat → Nat → Option PrefillGemmMode) : Except EngineError Engine :=
  if ¬ 0 < o.kvPoolGb ∨ 1024 < o.kvPoolGb then .error (.kvPoolGb o.kvPoolGb)
  else match Executor.make config (makeExecutorOptions o) captured probe with
    | .error e => .error (.executor e)
    | .ok executor => .ok
      { executor
        sched := .make executor.numKvBlocks.toNat (schedulerOptions config o)
        nextRequestId := 1
        requests := fun _ => none
        stats := { bucketDecodeSteps := executor.buckets.map fun _ => 0 } }

/-- `check_tokens` -/
def checkTokens (e : Engine) (tokens : List Int) (what : String) : Except InvalidArgument Unit :=
  match tokens.find? fun t => decide (¬ e.executor.inVocabulary t) with
  | some t => .error (.vocabulary what t e.executor.config.vocabSize.toNat)
  | none => .ok ()

def addRequest (e : Engine) (a : RequestArgs) :
    Option (Except InvalidArgument (Nat × Engine)) :=
  match e.checkTokens a.promptTokens "prompt_tokens" with
  | .error err => some (.error err)
  | .ok () =>
    match e.checkTokens a.forcedTokens "forced_tokens" with
    | .error err => some (.error err)
    | .ok () => do
      match ← e.sched.enqueue (a.request e.nextRequestId) with
      | .error err => return .error err
      | .ok sched => return .ok (e.nextRequestId, { e with
          sched
          nextRequestId := e.nextRequestId + 1
          requests := Function.update e.requests e.nextRequestId (some e.sched.nextPtr) })

/-! ## executing a plan -/

/-- decode dispatch: the graph of the covering bucket, or the eager path -/
def replaysGraph (e : Engine) (rows : Nat) : Bool :=
  (selectBucket rows e.executor.buckets).isSome && e.executor.hasDecodeGraphs

/-- the host side of the executor call of a plan -/
def launch (e : Engine) (plan : StepPlan) :
    Option (Except ExecutorError (Executed × Launch) × Executor) :=
  match plan.prefill with
  | some r =>
    match e.executor.prefillChunk false (e.sched.heap r) plan.prefillBegin plan.prefillEnd with
    | none => none
    | some (log, out) =>
      let x := { e.executor with mirrors := Executor.afterLog log e.executor.mirrors }
      match out with
      | .error err => some (.error err, x)
      | .ok shape => some (.ok ({ prefillRows := shape.rows },
          e.executor.launchOf (List.replicate shape.rows r) log), x)
  | none =>
    let replayed := e.replaysGraph plan.decode.length
    let batch := plan.decode.map e.sched.heap
    match if replayed then e.executor.decodeGraph batch else e.executor.decodeEager batch with
    | none => none
    | some (log, out) =>
      let x := { e.executor with mirrors := Executor.afterLog log e.executor.mirrors }
      match out with
      | .error err => some (.error err, x)
      | .ok shape => some (.ok (
          { decodeRows := plan.decode.length
            executedBucket := shape.bucket
            replayedGraph := replayed },
          e.executor.launchOf plan.decode log), x)

/-- one more step in the histogram -/
def bumpBucket (buckets : List Nat) (bucket : Nat) (counts : List Nat) : List Nat :=
  counts.modify (buckets.idxOf bucket) (· + 1)

def count (e : Engine) (plan : StepPlan) (done : Executed) : EngineStats :=
  let s := { e.stats with
    steps := e.stats.steps + 1
    aborts := e.stats.aborts + plan.aborted.length
    prefillTokens := e.stats.prefillTokens + done.prefillRows }
  if done.decodeRows = 0 then s
  else
    let s := { s with decodeTokens := s.decodeTokens + done.decodeRows }
    let s := if done.replayedGraph then { s with graphReplays := s.graphReplays + 1 }
      else { s with eagerDecodes := s.eagerDecodes + 1 }
    match done.executedBucket with
    | none => s
    | some b => { s with
      bucketDecodeSteps := bumpBucket e.executor.buckets b s.bucketDecodeSteps }

/-- the finished requests of a step leave the map -/
def dropFinished (requests : Nat → Option Nat) (results : List StepResult) : Nat → Option Nat :=
  results.foldl (fun m r => if r.finished then Function.update m r.requestId none else m) requests

/-- `CompleteStep`, the counters and the map -/
def complete (e : Engine) (plan : StepPlan) (done : Executed) (sampled : List Int) :
    Option (List StepResult × Engine) := do
  let (results, sched) ← e.sched.completeStep plan sampled
  return (results, { e with
    sched
    stats := e.count plan done
    requests := dropFinished e.requests results })

section
variable {δ : Type}

/-- the rest of `Step`, once a plan that is not empty stands -/
def execute (dev : Device δ) (d : δ) (plan : StepPlan) (e : Engine) :
    Option (Except ExecutorError (List StepResult) × Engine × δ) :=
  if plan.prefill.isNone && plan.decode.isEmpty then do
    -- every survivor was evicted: nothing to execute
    let (results, e1) ← e.complete plan {} []
    return (.ok results, e1, d)
  else do
    let (out, executor) ← e.launch plan
    let e1 := { e with executor }
    match out with
    | .error err => return (.error err, e1, d)
    | .ok (done, l) =>
      match dev l d with
      | (.error err, d1) => return (.error err, e1, d1)
      | (.ok argmax, d1) =>
        let (results, e2) ← e1.complete plan done ((List.range l.tokens).map argmax)
        return (.ok results, e2, d1)

/-- one iteration; an exception leaves what planning did in place -/
def step (dev : Device δ) (d : δ) (e : Engine) :
    Option (Except ExecutorError (List StepResult) × Engine × δ) := do
  let (plan, sched) ← e.sched.planStep
  let e1 := { e with sched }
  if plan.empty then return (.ok [], e1, d)
  else e1.execute dev d plan

end
end Engine
end Redline
