import Mathlib.Algebra.Order.Ring.Rat
import Redline.Core.BlockAllocator

/-!
# The iteration-level scheduler

`core/scheduler.cpp`, function by function.  The state is the scheduler's members together with
the allocator it points to and the heap of request objects; `free_slots_`, like the free list of
the allocator, is written top first, the queues and `running` front first.

A function returns `none` when a debug assertion fails, or when a `while` of the source takes
more turns than its fuel.  `Redline.Sched.Plan` and `Redline.Sched.Complete` show that neither
ever happens.  The watermark fraction is an exact rational.
-/

namespace Redline
open Prog

inductive AdmissionPolicy where
  | kReserveFull
  | kWatermark
  deriving DecidableEq, Repr

structure SchedulerOptions where
  maxBatch : Nat := 8
  prefillChunkTokens : Nat := 1024
  maxSeqLen : Nat := 2048
  admissionPolicy : AdmissionPolicy := .kReserveFull
  watermarkFreeFraction : ℚ := 1 / 10
  eosTokenIds : List Int := []

/-- What to execute next: one prefill slice, or a decode batch. -/
structure StepPlan where
  prefill : Option Nat := none
  prefillBegin : Nat := 0
  prefillEnd : Nat := 0
  decode : List Nat := []
  /-- watermark only: the sequences aborted while planning -/
  aborted : List Nat := []
  deriving DecidableEq, Repr

namespace StepPlan

def isPrefill (p : StepPlan) : Bool := p.prefill.isSome

def empty (p : StepPlan) : Bool := p.prefill.isNone && p.decode.isEmpty && p.aborted.isEmpty

end StepPlan

/-! ## decode buckets -/

def decodeLadder : List Nat := [1, 2, 4, 8, 16, 32, 48, 64]

def makeDecodeBuckets (maxBatch : Nat) : List Nat := decodeLadder.filter (· ≤ maxBatch)

/-- the first bucket of an ascending list that fits; no bucket for an empty batch -/
def selectBucket (batchSize : Nat) (buckets : List Nat) : Option Nat :=
  if batchSize = 0 then none else buckets.find? (batchSize ≤ ·)

/-! ## rejected requests -/

/-- the texts of `std::invalid_argument` -/
inductive InvalidArgument where
  | emptyPrompt (id : Nat)
  | maxNewTokens (id : Nat) (maxNew : Int)
  | tooLong (id promptLen : Nat) (maxNew : Int) (maxSeqLen : Nat)
  | worstCase (id needed usable : Nat)
  | freeFloor (id promptBlocks usable : Nat) (floor : ℚ)
  | vocabulary (what : String) (token : Int) (vocabSize : Nat)

/-- `std::to_string` of a non-negative double: six decimals, halves to even -/
def toStringFixed (q : ℚ) : String :=
  let scaled := q * 1000000
  let low := scaled.floor.toNat
  let twice := (scaled - low) * 2
  let n := if twice < 1 ∨ (twice = 1 ∧ low % 2 = 0) then low else low + 1
  let digits := toString (n % 1000000)
  toString (n / 1000000) ++ "." ++ String.ofList (List.replicate (6 - digits.length) '0') ++ digits

def InvalidArgument.message : InvalidArgument → String
  | .emptyPrompt id => "redline: request " ++ toString id ++ ": prompt is empty"
  | .maxNewTokens id maxNew =>
    "redline: request " ++ toString id ++ ": max_new_tokens must be positive, got " ++
      toString maxNew
  | .tooLong id promptLen maxNew maxSeqLen =>
    "redline: request " ++ toString id ++ ": prompt_len (" ++ toString promptLen ++
      ") + max_new_tokens (" ++ toString maxNew ++ ") exceeds max_seq_len (" ++
      toString maxSeqLen ++ ")"
  | .worstCase id needed usable =>
    "redline: request " ++ toString id ++ ": needs " ++ toString needed ++
      " KV blocks worst-case but the pool has " ++ toString usable ++ " usable blocks"
  | .freeFloor id promptBlocks usable floor =>
    "redline: request " ++ toString id ++ ": prompt needs " ++ toString promptBlocks ++
      " KV blocks; even an idle pool cannot admit it above the free floor (" ++
      toString usable ++ " usable, floor " ++ toStringFixed floor ++ ")"
  | .vocabulary what token vocabSize =>
    "engine: " ++ what ++ " contains token id " ++ toString token ++
      " outside the vocabulary [0, " ++ toString vocabSize ++ ")"

/-! ## the state -/

structure Scheduler where
  allocator : BlockAllocator
  options : SchedulerOptions
  /-- FCFS arrival order -/
  waiting : List Nat
  /-- admitted, prompt not fully in KV -/
  prefillQueue : List Nat
  /-- decoding, admission order; the last one is the youngest -/
  running : List Nat
  freeSlots : List Int
  heap : Nat → Request
  /-- the address of the next request object -/
  nextPtr : Nat

/-- the batch slots, in the order the constructor leaves them on the stack -/
def batchSlots (maxBatch : Nat) : List Int := (List.range maxBatch).map Int.ofNat

namespace Scheduler

/-- the assertions of the two constructors -/
def ConstructorAsserts (totalBlocks : Nat) (o : SchedulerOptions) : Prop :=
  1 ≤ totalBlocks ∧ 1 ≤ o.maxBatch ∧ 1 ≤ o.prefillChunkTokens ∧ 2 ≤ o.maxSeqLen ∧
    0 ≤ o.watermarkFreeFraction ∧ o.watermarkFreeFraction < 1

instance (totalBlocks : Nat) (o : SchedulerOptions) : Decidable (ConstructorAsserts totalBlocks o) :=
  inferInstanceAs (Decidable (1 ≤ totalBlocks ∧ 1 ≤ o.maxBatch ∧ 1 ≤ o.prefillChunkTokens ∧
    2 ≤ o.maxSeqLen ∧ 0 ≤ o.watermarkFreeFraction ∧ o.watermarkFreeFraction < 1))

def make (totalBlocks : Nat) (options : SchedulerOptions) : Scheduler :=
  { allocator := .make totalBlocks, options, waiting := [], prefillQueue := [], running := [],
    freeSlots := batchSlots options.maxBatch, heap := fun _ => {}, nextPtr := 0 }

def numRunning (s : Scheduler) : Nat := s.prefillQueue.length + s.running.length

/-- the free floor of the watermark policy, over usable blocks -/
def floor (s : Scheduler) : ℚ := s.options.watermarkFreeFraction * s.allocator.usableBlocks

def finalPrefillChunk (s : Scheduler) (p : StepPlan) : Bool :=
  match p.prefill with
  | some r => p.prefillEnd == (s.heap r).numPromptTokens
  | none => false

/-! ## admission -/

def worstCaseBlocks (q : Request) : Nat :=
  blocksForTokens (q.numPromptTokens + q.maxNewTokens.toNat)

def promptBlocks (q : Request) : Nat := blocksForTokens q.numPromptTokens

def validateRequest (s : Scheduler) (q : Request) : Except InvalidArgument Unit :=
  if q.numPromptTokens = 0 then .error (.emptyPrompt q.id)
  else if q.maxNewTokens ≤ 0 then .error (.maxNewTokens q.id q.maxNewTokens)
  else if (s.options.maxSeqLen : Int) < q.numPromptTokens + q.maxNewTokens then
    .error (.tooLong q.id q.numPromptTokens q.maxNewTokens s.options.maxSeqLen)
  else match s.options.admissionPolicy with
    | .kReserveFull =>
      if s.allocator.usableBlocks < worstCaseBlocks q then
        .error (.worstCase q.id (worstCaseBlocks q) s.allocator.usableBlocks)
      else .ok ()
    | .kWatermark =>
      if (((s.allocator.usableBlocks : Int) - promptBlocks q : Int) : ℚ) < s.floor then
        .error (.freeFloor q.id (promptBlocks q) s.allocator.usableBlocks s.floor)
      else .ok ()

/-- queue a new request object; a rejected one leaves no trace -/
def enqueue (s : Scheduler) (q : Request) : Option (Except InvalidArgument Scheduler) := do
  check (q.state = .kWaiting)
  match s.validateRequest q with
  | .error e => return .error e
  | .ok () =>
    return .ok { s with
      heap := Function.update s.heap s.nextPtr q
      waiting := s.waiting ++ [s.nextPtr]
      nextPtr := s.nextPtr + 1 }

def canAdmit (s : Scheduler) (q : Request) : Bool :=
  match s.options.admissionPolicy with
  | .kReserveFull => s.allocator.canReserve (worstCaseBlocks q)
  | .kWatermark =>
    let uncommitted : Int := s.allocator.freeBlocks - s.allocator.reserved
    decide (s.floor ≤ ((uncommitted - promptBlocks q : Int) : ℚ))

def reservationFor (s : Scheduler) (q : Request) : Nat :=
  match s.options.admissionPolicy with
  | .kReserveFull => worstCaseBlocks q
  | .kWatermark => promptBlocks q

/-- `Admit`: pop the waiting head into the prefill queue -/
def admitHead (s : Scheduler) : Option Scheduler :=
  match s.waiting, s.freeSlots with
  | r :: waiting, slot :: freeSlots => do
    let q := s.heap r
    let reservation := s.reservationFor q
    let allocator ← s.allocator.reserve reservation
    let q1 := { q with reservedBlocks := reservation, slot, state := .kPrefill }
    return { s with
      heap := Function.update s.heap r q1
      allocator
      waiting
      freeSlots
      prefillQueue := s.prefillQueue ++ [r] }
  | _, _ => none

def admitsHead (s : Scheduler) : Bool :=
  match s.waiting with
  | [] => false
  | r :: _ => decide (s.numRunning < s.options.maxBatch) && s.canAdmit (s.heap r)

def admitLoop (s : Scheduler) : Option Scheduler := loop admitsHead admitHead (s.waiting.length + 1) s

/-! ## blocks -/

/-- append one block out of the request's own reservation -/
def appendReserved (r : Nat) (s : Scheduler) : Option Scheduler := do
  let q := s.heap r
  check (0 < q.reservedBlocks)
  let (block, allocator) ← s.allocator.allocReserved
  let q1 := { q with
    blockTable := q.blockTable.append block
    reservedBlocks := q.reservedBlocks - 1 }
  return { s with heap := Function.update s.heap r q1, allocator }

/-- materialize the blocks that cover the positions below `chunkEnd` -/
def coverChunk (r chunkEnd : Nat) (s : Scheduler) : Option Scheduler :=
  loop (fun s => decide ((s.heap r).blockTable.tokenCapacity < chunkEnd)) (appendReserved r)
    (chunkEnd + 1) s

def freeAll : List Int → BlockAllocator → Option BlockAllocator
  | [], a => some a
  | block :: blocks, a => (a.freeBlock block).bind (freeAll blocks)

/-- give back blocks, reservation and slot -/
def releaseResources (r : Nat) (s : Scheduler) : Option Scheduler := do
  let q := s.heap r
  let (blocks, blockTable) := q.blockTable.release
  let a ← freeAll blocks s.allocator
  let allocator ← a.unreserve q.reservedBlocks
  let q1 := { q with blockTable, reservedBlocks := 0 }
  if 0 ≤ q.slot then
    return { s with
      heap := Function.update s.heap r { q1 with slot := -1 }
      allocator
      freeSlots := q.slot :: s.freeSlots }
  else
    return { s with heap := Function.update s.heap r q1, allocator }

/-- release the last running sequence and record it as aborted -/
def abortYoungestRunning (plan : StepPlan) (s : Scheduler) : Option (StepPlan × Scheduler) := do
  let victim ← s.running.getLast?
  let q := s.heap victim
  let q1 := { q with state := .kFinished, finishReason := .kAborted }
  let s1 := { s with heap := Function.update s.heap victim q1, running := s.running.dropLast }
  let s2 ← s1.releaseResources victim
  return ({ plan with aborted := plan.aborted ++ [victim] }, s2)

/-- the `while (!CanReserve(1))` of `EnsureDecodeBlockCapacity`, with its early return -/
structure AbortLoop where
  plan : StepPlan
  sched : Scheduler
  victimIsSelf : Bool := false

def abortBody (request : Nat) (st : AbortLoop) : Option AbortLoop := do
  let back ← st.sched.running.getLast?
  let (plan, sched) ← st.sched.abortYoungestRunning st.plan
  return { plan, sched, victimIsSelf := back == request }

def abortUntilFree (request : Nat) (plan : StepPlan) (s : Scheduler) : Option AbortLoop :=
  loop (fun st => !st.victimIsSelf && !st.sched.allocator.canReserve 1) (abortBody request)
    (s.running.length + 1) { plan, sched := s }

/-- cover the next decode position; `false` when the request itself became the victim -/
def ensureDecodeBlockCapacity (request : Nat) (plan : StepPlan) (s : Scheduler) :
    Option (Bool × StepPlan × Scheduler) :=
  match s.options.admissionPolicy with
  | .kReserveFull => do
    let s' ← s.appendReserved request
    return (true, plan, s')
  | .kWatermark => do
    let st ← s.abortUntilFree request plan
    if st.victimIsSelf then
      return (false, st.plan, st.sched)
    let a ← st.sched.allocator.reserve 1
    let (block, allocator) ← a.allocReserved
    let q := st.sched.heap request
    let q1 := { q with blockTable := q.blockTable.append block }
    return (true, st.plan,
      { st.sched with heap := Function.update st.sched.heap request q1, allocator })

/-! ## planning -/

structure DecodeLoop where
  i : Nat
  plan : StepPlan
  sched : Scheduler

def decodeCond (st : DecodeLoop) : Bool :=
  decide (st.i < st.sched.running.length ∧ st.plan.decode.length < st.sched.options.maxBatch)

/-- the next decode position of the request lies past its blocks -/
def needsBlock (q : Request) : Prop := (q.blockTable.tokenCapacity : Int) ≤ (q.seqLen : Int) - 1

instance (q : Request) : Decidable (needsBlock q) :=
  inferInstanceAs (Decidable ((q.blockTable.tokenCapacity : Int) ≤ (q.seqLen : Int) - 1))

def decodeBody (st : DecodeLoop) : Option DecodeLoop := do
  let request ← st.sched.running[st.i]?
  let q := st.sched.heap request
  if needsBlock q then
    check ((q.seqLen : Int) - 1 = q.blockTable.tokenCapacity)
    let (covered, plan, sched) ← st.sched.ensureDecodeBlockCapacity request st.plan
    if covered then
      return { i := st.i + 1, plan := { plan with decode := plan.decode ++ [request] }, sched }
    else
      -- the request was the last running one, so the loop bound shrank past `i`
      return { i := st.i, plan, sched }
  else
    return { st with
      i := st.i + 1
      plan := { st.plan with decode := st.plan.decode ++ [request] } }

def planDecode (s : Scheduler) : Option (StepPlan × Scheduler) := do
  let st ← loop decodeCond decodeBody (s.running.length + 1) { i := 0, plan := {}, sched := s }
  return (st.plan, st.sched)

def planPrefill (r : Nat) (s : Scheduler) : Option (StepPlan × Scheduler) := do
  let q := s.heap r
  check (q.state = .kPrefill)
  let plan : StepPlan :=
    { prefill := some r
      prefillBegin := q.prefillProgress
      prefillEnd := min (q.prefillProgress + s.options.prefillChunkTokens) q.numPromptTokens }
  check (plan.prefillBegin < plan.prefillEnd)
  let s' ← s.coverChunk r plan.prefillEnd
  return (plan, s')

def planStep (s : Scheduler) : Option (StepPlan × Scheduler) := do
  let s' ← s.admitLoop
  match s'.prefillQueue with
  | r :: _ => s'.planPrefill r
  | [] => s'.planDecode

/-! ## completion -/

def isEosToken (s : Scheduler) (token : Int) : Bool := s.options.eosTokenIds.contains token

/-- the token appended to the sequence: the scripted one as far as the script goes -/
def appendedToken (q : Request) (sampled : Int) : Int :=
  q.forcedTokens.getD q.outputTokens.length sampled

/-- the stop checks, on the request with the token appended -/
def stopReason (s : Scheduler) (q : Request) (appended : Int) : FinishReason :=
  if !q.ignoreEos && s.isEosToken appended then .kEos
  else if q.maxNewTokens ≤ q.numOutputTokens then .kLength
  else .kNone

def applySampledToken (r : Nat) (sampled : Int) (s : Scheduler) :
    Option (StepResult × Scheduler) := do
  let q := s.heap r
  check (q.state = .kPrefill ∨ q.state = .kRunning)
  let fromPrefill := q.state == .kPrefill
  let appended := appendedToken q sampled
  let q1 := { q with outputTokens := q.outputTokens ++ [appended] }
  let reason := s.stopReason q1 appended
  if reason = .kNone then
    let result : StepResult := ⟨q.id, sampled, false, .kNone⟩
    if fromPrefill then
      return (result, { s with
        heap := Function.update s.heap r { q1 with state := .kRunning }
        running := s.running ++ [r] })
    else
      return (result, { s with heap := Function.update s.heap r q1 })
  else
    let q2 := { q1 with state := .kFinished, finishReason := reason }
    let s1 ← ({ s with heap := Function.update s.heap r q2 } : Scheduler).releaseResources r
    let result : StepResult := ⟨q.id, sampled, true, reason⟩
    if fromPrefill then
      return (result, s1)
    else
      check (r ∈ s1.running)
      return (result, { s1 with running := s1.running.erase r })

/-- the evictions of a plan, reported first -/
def abortedResults (s : Scheduler) : List Nat → Option (List StepResult)
  | [] => some []
  | r :: rs => do
    check ((s.heap r).state = .kFinished ∧ (s.heap r).finishReason = .kAborted)
    let results ← s.abortedResults rs
    return ⟨(s.heap r).id, 0, true, .kAborted⟩ :: results

/-- one token per decode row, in plan order -/
def applyRows : List (Nat × Int) → Scheduler → Option (List StepResult × Scheduler)
  | [], s => some ([], s)
  | (r, token) :: rows, s => do
    let (result, s1) ← s.applySampledToken r token
    let (results, s2) ← applyRows rows s1
    return (result :: results, s2)

def completeStep (plan : StepPlan) (sampled : List Int) (s : Scheduler) :
    Option (List StepResult × Scheduler) := do
  let evictions ← s.abortedResults plan.aborted
  match plan.prefill with
  | some r =>
    check (s.prefillQueue.head? = some r)
    check ((s.heap r).prefillProgress = plan.prefillBegin)
    let q1 := { s.heap r with prefillProgress := plan.prefillEnd }
    let s1 := { s with heap := Function.update s.heap r q1 }
    if (s1.heap r).prefillDone then
      check (sampled.length = 1)
      let token ← sampled.head?
      let (result, s2) ←
        ({ s1 with prefillQueue := s1.prefillQueue.tail } : Scheduler).applySampledToken r token
      return (evictions ++ [result], s2)
    else
      check (sampled = [])
      return (evictions, s1)
  | none =>
    check (sampled.length = plan.decode.length)
    let (results, s1) ← s.applyRows (plan.decode.zip sampled)
    return (evictions ++ results, s1)

/-- the number of sampled tokens the contract of `CompleteStep` asks for -/
def tokensDue (s : Scheduler) (plan : StepPlan) : Nat :=
  match plan.prefill with
  | some _ => if s.finalPrefillChunk plan then 1 else 0
  | none => plan.decode.length

end Scheduler
end Redline
