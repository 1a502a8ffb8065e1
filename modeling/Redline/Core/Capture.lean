import Redline.Core.Executor

/-!
# The capture of the decode graphs

`CaptureDecodeGraphs` of `core/model_executor.cpp`, with the warmup, the cleanup and `ReleaseAll`.  A
call to CUDA or cuBLASLt takes the next answer: `none` is success.  A graph and an executable are
numbered in the order they are created.

As CUDA documents: a capture that cannot be begun is not open; ending one closes it in any case, and
returns no graph with an error; an instantiation that fails creates nothing.
-/

namespace Redline

structure CaptureState where
  /-- how many answers were taken -/
  answered : Nat
  mirrors : Mirrors
  /-- the work recorded since the capture was begun, while one is open -/
  recording : Option (List Kernel)
  /-- what was recorded into each graph -/
  graphs : List (List Kernel)
  destroyedGraphs : List Nat
  /-- what each executable runs -/
  executables : List (List Kernel)
  destroyedExecs : List Nat
  /-- the locals of the capture that its cleanup reads -/
  execs : List Nat
  capturing : Bool
  graphExecs : List Nat

/-- a program that throws the text of the failure -/
abbrev CaptureM := EStateM String CaptureState

/-- the state that the constructor leaves before the capture -/
def CaptureState.initial (mirrors : Mirrors) : CaptureState :=
  ⟨0, mirrors, none, [], [], [], [], [], false, []⟩

namespace Executor

/-- the stores of `FillDummyDecodeMirrors`: token 0, position 0, one cached position, dummy blocks -/
def fillDummyDecodeMirrors (x : Executor) (rows : Nat) : List Action :=
  (List.range rows).flatMap fun r =>
    [.store ⟨.inputIds, r, 0⟩, .store ⟨.positions, r, 0⟩, .store ⟨.seqLens, r, 1⟩] ++
      (List.range x.maxBlocksPerSeq).map fun i => .store ⟨.blockTables, r * x.maxBlocksPerSeq + i,
        kDummyBlockId⟩

/-! ## the calls -/

section
variable (answers : Nat → Option String)

def status : CaptureM (Option String) :=
  fun s => .ok (answers s.answered) { s with answered := s.answered + 1 }

/-- `CudaCheck` and `CheckCublas` -/
def cudaCheck (what : String) : CaptureM Unit := do
  match ← status answers with
  | none => return
  | some error => throw (what ++ ": " ++ error)

def check {α : Type} : Except String α → CaptureM α
  | .ok a => return a
  | .error error => throw error

def isGemm : Kernel → Bool
  | .gemm _ _ => true
  | _ => false

/-- an enqueue: what is recorded is not run.  The launch of a kernel is not checked, that of a product is -/
def enqueue (kernels : List Kernel) : CaptureM Unit := do
  match ← status answers with
  | none => modify fun s => { s with recording := s.recording.map (· ++ kernels) }
  | some error => if kernels.any isGemm then throw error else return

def perform : Action → CaptureM Unit
  | .store w => modify fun s => { s with mirrors := s.mirrors.store w }
  | .launch kernels => enqueue answers kernels
  | .upload _ _ => cudaCheck answers "H2D"
  | .download _ => cudaCheck answers "D2H"
  | .sync => cudaCheck answers "sync"
  | .poll => cudaCheck answers "launches"
  | .resolve | .writeFile => return

def beginCapture : CaptureM Unit := do
  cudaCheck answers "cudaStreamBeginCapture"
  modify fun s => { s with recording := some [] }

/-- `cudaStreamEndCapture`: the graph, or the failure -/
def endCapture : CaptureM (Except String Nat) := fun s =>
  match s.recording, answers s.answered with
  | none, _ => .ok (.error "no capture") { s with answered := s.answered + 1 }
  | some _, some error => .ok (.error error) { s with answered := s.answered + 1, recording := none }
  | some kernels, none => .ok (.ok s.graphs.length)
      { s with
        answered := s.answered + 1
        recording := none
        graphs := s.graphs ++ [kernels] }

def destroyGraph (graph : Nat) : CaptureM Unit :=
  modify fun s => { s with destroyedGraphs := s.destroyedGraphs ++ [graph] }

/-- `cudaGraphInstantiate`: the executable, or the failure -/
def instantiate (graph : Nat) : CaptureM (Except String Nat) := fun s =>
  match answers s.answered with
  | some error => .ok (.error error) { s with answered := s.answered + 1 }
  | none => .ok (.ok s.executables.length)
      { s with
        answered := s.answered + 1
        executables := s.executables ++ [s.graphs.getD graph []] }

/-! ## the capture -/

def warmupDecodeBucket (x : Executor) (rows : Nat) : CaptureM Unit :=
  (x.fillDummyDecodeMirrors rows ++ x.decodeEagerWork rows).forM (perform answers)

/-- one bucket: inputs, capture, instantiation, upload -/
def captureBucket (x : Executor) (bucket : Nat) : CaptureM Unit := do
  (x.fillDummyDecodeMirrors bucket ++ x.uploadDecodeInputs bucket ++ [Action.sync]).forM
    (perform answers)
  beginCapture answers
  modify fun s => { s with capturing := true }
  ((x.decodeKernels bucket).map launch).forM (perform answers)
  let ended ← endCapture answers
  modify fun s => { s with capturing := false }
  let graph ← check ended
  let instantiated ← instantiate answers graph
  destroyGraph graph
  let exec ← check instantiated
  modify fun s => { s with execs := s.execs ++ [exec] }
  cudaCheck answers "cudaGraphUpload"
  cudaCheck answers "drain graph upload"

/-- the first part of the cleanup: a capture that is still open is ended -/
def endOpenCapture : CaptureM Unit := do
  let s ← get
  if s.capturing then
    match ← endCapture answers with
    | .ok dead => destroyGraph dead
    | .error _ => return

def degrade : CaptureM Unit := do
  endOpenCapture answers
  modify fun s => { s with destroyedExecs := s.destroyedExecs ++ s.execs }
  let _ ← status answers
  let _ ← status answers

def captureDecodeGraphs (x : Executor) : CaptureM Unit := do
  modify fun s => { s with execs := [], capturing := false }
  let captured ← tryCatch
    (do
      x.buckets.forM (warmupDecodeBucket answers x)
      cudaCheck answers "cudaMemGetInfo before capture"
      x.buckets.forM (captureBucket answers x)
      cudaCheck answers "cudaMemGetInfo after capture"
      return true)
    fun _ => do
      degrade answers
      return false
  if captured then
    modify fun s => { s with graphExecs := s.execs }

end

/-- the part of `ReleaseAll` that is about graphs -/
def releaseGraphs (s : CaptureState) : CaptureState :=
  { s with
    destroyedExecs := s.destroyedExecs ++ s.graphExecs
    graphExecs := [] }

/-! ## the replay -/

/-- the executable that `DecodeGraph` launches: that of the first bucket that covers the batch -/
def replayed (x : Executor) (s : CaptureState) (batch : List Request) : Option Nat :=
  (selectBucket batch.length x.buckets).bind fun bucket => s.graphExecs[x.buckets.idxOf bucket]?

/-- the executor with the graphs that a capture left -/
def withGraphs (x : Executor) (s : CaptureState) : Executor :=
  { x with hasDecodeGraphs := !s.graphExecs.isEmpty }

end Executor
end Redline
