import Redline.Bench.Metrics
import Redline.Client.Generate

/-!
# The asyncio adapter

`bench/adapters/redline_a.py` with `drive_workload` of `bench/adapters/__init__.py`: one task per
request, the pump, and `_run_async`, on one event loop; and the engine thread, which does the
submitted calls one at a time.

The adapter keeps its queues and its map of ids under the `request_id` of a request; a task, its calls
and its trace go with the place of the request in the workload.

A task runs from one `await` to the next.  `Trial.act` is one such piece of one task, or one call of
the engine thread; every interleaving of the tasks, the arrivals and the thread is a list of actions.
The loop is told of the calls that are done in their order (`replies`).  An action of a task that
cannot run does nothing; `none` is a failed assertion of the engine.
-/

namespace Redline
namespace RedlineAdapter
open RunBench

/-! ## the tasks -/

/-- what ends a task with an exception -/
inductive TrialError where
  /-- out of `add_request` -/
  | invalidArgument (e : InvalidArgument)
  /-- out of `step` -/
  | executor (e : ExecutorError)
  | unknownId (id : Nat)
  /-- a client after the pump failed -/
  | pumpFailed
  | cancelled

def TrialError.message : TrialError → String
  | .invalidArgument e => e.message
  | .executor e => e.message
  | .unknownId id => "engine returned unknown request id " ++ toString id
  | .pumpFailed => "redline pump loop failed"
  | .cancelled => ""

/-- an item of the queue of a request -/
inductive Item where
  | emission (token : Int) (finished : Bool) (reason : String)
  /-- `_PUMP_FAILED` -/
  | pumpFailed
  deriving DecidableEq

/-- where the task of a request awaits -/
inductive ClientTask where
  /-- its arrival -/
  | arriving
  /-- `has_capacity` -/
  | asking
  /-- the sleep after it was refused -/
  | backingOff
  /-- `add_request` -/
  | adding
  /-- `queue.get` -/
  | streaming
  | returned
  | raised (e : TrialError)
  | cancelled

structure Client where
  task : ClientTask := .arriving
  trace : RequestTrace

/-- `RequestTrace.record` at the time `now` -/
def record (trace : RequestTrace) (token : Int) (now : Rat) : RequestTrace :=
  { trace with
    tokenTimes := trace.tokenTimes ++ [now]
    tokenIds := trace.tokenIds ++ [token] }

/-- the client with an emission, which it took from its queue -/
def Client.heard (c : Client) (now : Rat) (token : Int) (finished : Bool) (reason : String) : Client :=
  let trace := if reason ≠ "aborted" then record c.trace token now else c.trace
  if finished then ⟨.returned, { trace with finishReason := reason }⟩ else { c with trace }

inductive PumpTask where
  /-- asleep, or not started yet -/
  | resting
  /-- awaits `step` -/
  | stepping
  | exited
  /-- the exception is `_pump_error` -/
  | raised (e : TrialError)

/-- `_run_async` -/
inductive MainTask where
  /-- awaits `drive_workload` -/
  | gathering
  | awaitingPump
  /-- awaits the pump it cancelled -/
  | failing (e : TrialError)
  | returned (traces : List RequestTrace)
  | raised (e : TrialError)

/-! ## the engine thread -/

inductive Call where
  | hasCapacity (i : Nat)
  | addRequest (i : Nat)
  | step

/-- how a call ended -/
inductive Reply where
  | capacity (i : Nat) (free : Bool)
  | added (i : Nat) (out : Except InvalidArgument Nat)
  | stepped (out : Except ExecutorError (List StepResult))

/-- the task that awaits the call: that of a request, or the pump -/
def Call.task : Call → Option Nat
  | .hasCapacity i => some i
  | .addRequest i => some i
  | .step => none

def Reply.task : Reply → Option Nat
  | .capacity i _ => some i
  | .added i _ => some i
  | .stepped _ => none

structure Trial (δ : Type) where
  w : EngineRun δ
  /-- submitted and not done -/
  calls : List Call := []
  /-- done, and the loop was not told -/
  replies : List Reply := []
  clients : Nat → Client
  /-- the queue of each `request_id` -/
  queues : Int → List Item := fun _ => []
  /-- the `request_id` of each id of the engine -/
  engineToRequest : Nat → Option Int := fun _ => none
  submitted : Nat := 0
  finished : Nat := 0
  pump : PumpTask := .resting
  /-- the exception `gather` has -/
  gathered : Option TrialError := none
  main : MainTask := .gathering
  poisoned : Bool := false

section
variable {κ δ : Type}

/-- the request of the `i`-th task -/
def request (requests : List WorkloadRequest) (i : Nat) : WorkloadRequest :=
  requests.getD i ⟨0, [], 0, 0⟩

/-- the key of the request of the `i`-th task -/
def requestId (requests : List WorkloadRequest) (i : Nat) : Int := (request requests i).requestId

/-- what the `i`-th task asks the engine for -/
def requestArgs (requests : List WorkloadRequest) (i : Nat) : RequestArgs :=
  { promptTokens := (request requests i).promptTokenIds
    maxNewTokens := (request requests i).maxNewTokens
    ignoreEos := true }

/-- `_run_async` of a loaded adapter, as far as its first `await`; a poisoned one refuses -/
def Trial.start (poisoned : Bool) (w : EngineRun δ) (requests : List WorkloadRequest) :
    Except String (Trial δ) :=
  if poisoned then
    .error ("a previous trial failed with requests possibly still in flight inside the engine " ++
      "(no abort API, docs/DESIGN.md section 10); call load() again to rebuild the engine before " ++
      "the next trial")
  else .ok
    { w
      clients := fun i => { trace := ⟨requestId requests i, 0, [], [], ""⟩ } }

namespace Trial

/-- a task goes on to its next `await` -/
def goOn (t : Trial δ) (i : Nat) (task : ClientTask) : Trial δ :=
  { t with clients := Function.update t.clients i { t.clients i with task } }

def submit (t : Trial δ) (c : Call) : Trial δ := { t with calls := t.calls ++ [c] }

/-- a client raises; the first one is what `gather` raises -/
def raiseClient (t : Trial δ) (i : Nat) (e : TrialError) : Trial δ :=
  { t.goOn i (.raised e) with gathered := t.gathered.or (some e) }

/-! ### the pump -/

/-- the condition of the loop, and the next `step` -/
def pumpOn (total : Nat) (t : Trial δ) : Trial δ :=
  if t.finished < total then { t.submit .step with pump := .stepping } else { t with pump := .exited }

/-- the handler of the pump -/
def failPump (t : Trial δ) (e : TrialError) : Trial δ :=
  { t with
    pump := .raised e
    queues := fun id => t.queues id ++ [.pumpFailed] }

/-- one emission, to the queue of its request -/
def put (t : Trial δ) (id : Int) (x : StepResult) : Trial δ :=
  { t with
    queues := Function.update t.queues id
      (t.queues id ++ [.emission x.token x.finished x.finishReason.name])
    finished := if x.finished then t.finished + 1 else t.finished }

/-- the emissions of a step; an unknown id ends the pump -/
def route (t : Trial δ) : List StepResult → Trial δ × Option TrialError
  | [] => (t, none)
  | x :: results =>
    match t.engineToRequest x.requestId with
    | none => (t, some (.unknownId x.requestId))
    | some id => (t.put id x).route results

/-- the pump after `step` -/
def stepped (total : Nat) (t : Trial δ) : Except ExecutorError (List StepResult) → Trial δ
  | .error e => t.failPump (.executor e)
  | .ok results =>
    match t.route results with
    | (t1, some e) => t1.failPump e
    | (t1, none) =>
      if results.isEmpty && t1.submitted == t1.finished then { t1 with pump := .resting }
      else t1.pumpOn total

/-! ### the clients -/

/-- a client takes an item of its queue at the time `now` -/
def take (requests : List WorkloadRequest) (t : Trial δ) (i : Nat) (now : Rat) : Trial δ :=
  let id := requestId requests i
  match t.queues id with
  | [] => t
  | .pumpFailed :: queue =>
    { t with queues := Function.update t.queues id queue }.raiseClient i .pumpFailed
  | .emission token finished reason :: queue =>
    { t with
      clients := Function.update t.clients i ((t.clients i).heard now token finished reason)
      queues := Function.update t.queues id queue }

/-- a client that was asleep, or that gets from its queue -/
def client (requests : List WorkloadRequest) (t : Trial δ) (i : Nat) (now : Rat) : Trial δ :=
  if i < requests.length then
    match (t.clients i).task with
    | .arriving =>
      let c := t.clients i
      { t with
        clients := Function.update t.clients i
          { c with trace := { c.trace with enqueueTime := now } } }.goOn i .asking
        |>.submit (.hasCapacity i)
    | .backingOff => (t.goOn i .asking).submit (.hasCapacity i)
    | .streaming => t.take requests i now
    | _ => t
  else t

/-- a client after `has_capacity` -/
def asked (t : Trial δ) (i : Nat) (free : Bool) : Trial δ :=
  if free then (t.goOn i .adding).submit (.addRequest i) else t.goOn i .backingOff

/-- a client after `add_request` -/
def added (requests : List WorkloadRequest) (t : Trial δ) (i : Nat) :
    Except InvalidArgument Nat → Trial δ
  | .error e => t.raiseClient i (.invalidArgument e)
  | .ok id =>
    { t.goOn i .streaming with
      engineToRequest := Function.update t.engineToRequest id (some (requestId requests i))
      submitted := t.submitted + 1 }

/-! ### the loop and the thread -/

/-- the loop is told of the next call that is done; a task that was cancelled does not go on -/
def deliver (requests : List WorkloadRequest) (t : Trial δ) : Trial δ :=
  match t.replies with
  | [] => t
  | r :: replies =>
    let t := { t with replies }
    match r with
    | .capacity i free =>
      match (t.clients i).task with
      | .asking => t.asked i free
      | _ => t
    | .added i out =>
      match (t.clients i).task with
      | .adding => t.added requests i out
      | _ => t
    | .stepped out =>
      match t.pump with
      | .stepping => t.stepped requests.length out
      | _ => t

/-- the engine thread does the next call -/
def work (env : Environment κ δ) (requests : List WorkloadRequest) (k : κ) (t : Trial δ) :
    Option (Trial δ) :=
  match t.calls with
  | [] => some t
  | .hasCapacity i :: calls => some { t with
      calls
      replies := t.replies ++ [.capacity i t.w.engine.hasCapacity] }
  | .addRequest i :: calls => do
    let out ← t.w.engine.addRequest (requestArgs requests i)
    let w ← EngineRun.step env t.w (.addRequest (requestArgs requests i))
    return { t with
      w
      calls
      replies := t.replies ++ [.added i (out.map Prod.fst)] }
  | .step :: calls => do
    let w ← EngineRun.step env t.w (.step k)
    return { t with
      w
      calls
      replies := t.replies ++ [.stepped w.returned] }

/-! ### `_run_async` -/

/-- a task that is not done -/
def cancelTask : ClientTask → ClientTask
  | .returned => .returned
  | .raised e => .raised e
  | _ => .cancelled

/-- `cancel` of the pump; one that is done stays so -/
def cancelPump (t : Trial δ) : Trial δ :=
  match t.pump with
  | .resting => t.failPump .cancelled
  | .stepping => t.failPump .cancelled
  | _ => t

/-- the handlers of `drive_workload` and `_run_async`; a call is cancelled with the task that awaits it,
unless the thread has begun it -/
def fail (t : Trial δ) (begun : Bool) (e : TrialError) : Trial δ :=
  { t with
    calls := if begun then t.calls.take 1 else []
    clients := fun i => { t.clients i with task := cancelTask (t.clients i).task }
    poisoned := true
    main := .failing e }.cancelPump

def pumpDone : PumpTask → Bool
  | .exited => true
  | .raised _ => true
  | _ => false

def returnedTask : ClientTask → Bool
  | .returned => true
  | _ => false

def mainOn (total : Nat) (t : Trial δ) (begun : Bool) : Trial δ :=
  match t.main with
  | .gathering =>
    match t.gathered with
    | some e => t.fail begun e
    | none =>
      if (List.range total).all fun i => returnedTask (t.clients i).task then
        { t with main := .awaitingPump }
      else t
  | .awaitingPump =>
    match t.pump with
    | .exited => { t with main := .returned ((List.range total).map fun i => (t.clients i).trace) }
    | .raised e => t.fail begun e
    | _ => t
  | .failing e => if pumpDone t.pump then { t with main := .raised e } else t
  | _ => t

end Trial

/-- who runs next; for a client the clock it reads, for the thread what the device does, for
`_run_async` whether the thread has begun its next call -/
inductive Action (κ : Type) where
  | client (i : Nat) (now : Rat)
  | pump
  | deliver
  | worker (k : κ)
  | main (begun : Bool)

def Trial.act (env : Environment κ δ) (requests : List WorkloadRequest) (t : Trial δ) :
    Action κ → Option (Trial δ)
  | .client i now => some (t.client requests i now)
  | .pump =>
    match t.pump with
    | .resting => some (t.pumpOn requests.length)
    | _ => some t
  | .deliver => some (t.deliver requests)
  | .worker k => t.work env requests k
  | .main begun => some (t.mainOn requests.length begun)

end
end RedlineAdapter
end Redline
