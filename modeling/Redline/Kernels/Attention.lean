import Redline.Core.Executor
import Redline.Gemm.Config
import Redline.Kernels.Gather
import Redline.Lib.Softmax

/-!
# The prefill attention composite

`ModelExecutor::EnqueuePrefillAttention` with the softmax kernel of `kernels/prefill_attention.cu`:
gather, scores products, causal softmax, PV products, in the strided-batched and in the per-head form.
Values are exact; `exp` and the most negative float are parameters.
-/

namespace Redline
variable {K : Type*} [Field K] [LinearOrder K]

/-- the arithmetic of the device -/
structure DeviceMath (K : Type*) where
  exp : K → K
  /-- `FLT_MAX` -/
  fltMax : K

/-- what the composite reads of the executor -/
structure AttentionFields (K : Type*) where
  numQHeads : Int
  numKvHeads : Int
  headDim : Int
  hiddenSize : Int
  qkvWidth : Int
  headsPerGroup : Int
  gatherPlaneStride : Int
  attnScale : K

/-- the fields as the constructor sets them; the width of a row of `qkv` is taken as it is -/
def attentionFields (config : ModelConfig) (options : ExecutorOptions) (qkvWidth : Int)
    (attnScale : K) :
    AttentionFields K where
  numQHeads := config.numQHeads
  numKvHeads := config.numKvHeads
  headDim := config.headDim
  hiddenSize := config.hiddenSize
  qkvWidth := qkvWidth
  headsPerGroup := config.numQHeads.tdiv config.numKvHeads
  gatherPlaneStride := options.maxSeqLen * config.headDim
  attnScale := attnScale

/-- the buffers of one layer, each from its own start -/
structure AttentionMemory (K : Type*) where
  pool : Int → K
  blockTable : Nat → Int
  qkv : Int → K
  khat : Int → K
  vhat : Int → K
  scores : Int → K
  probs : Int → K
  attnOut : Int → K

/-! ## the products -/

section
variable (x : AttentionFields K) (rows ctx : Int)

def scoresStores (mode : PrefillGemmMode) (khat qkv : Int → K) : List (Int × K) :=
  let scorePlane := rows * ctx
  match mode with
  | .kStridedBatched =>
    let scores := GemmConfig.prefillScores rows ctx x.headDim x.headsPerGroup x.qkvWidth
    (List.range x.numKvHeads.toNat).flatMap fun (g : Nat) =>
      let h0 := g * x.headsPerGroup
      (scores.product (g * x.gatherPlaneStride) (h0 * x.headDim) (h0 * scorePlane)).stores
        khat qkv x.attnScale
  | .kPerHead =>
    let scores := GemmConfig.prefillScores rows ctx x.headDim 1 x.qkvWidth
    (List.range x.numQHeads.toNat).flatMap fun (h : Nat) =>
      let g := (h : Int).tdiv x.headsPerGroup
      (scores.product (g * x.gatherPlaneStride) (h * x.headDim) (h * scorePlane)).stores
        khat qkv x.attnScale

def pvStores (mode : PrefillGemmMode) (vhat probs : Int → K) : List (Int × K) :=
  let scorePlane := rows * ctx
  match mode with
  | .kStridedBatched =>
    let pv := GemmConfig.prefillPv rows ctx x.headDim x.headsPerGroup x.hiddenSize
    (List.range x.numKvHeads.toNat).flatMap fun (g : Nat) =>
      let h0 := g * x.headsPerGroup
      (pv.product (g * x.gatherPlaneStride) (h0 * scorePlane) (h0 * x.headDim)).stores vhat probs 1
  | .kPerHead =>
    let pv := GemmConfig.prefillPv rows ctx x.headDim 1 x.hiddenSize
    (List.range x.numQHeads.toNat).flatMap fun (h : Nat) =>
      let g := (h : Int).tdiv x.headsPerGroup
      (pv.product (g * x.gatherPlaneStride) (h * scorePlane) (h * x.headDim)).stores vhat probs 1

end

/-! ## the softmax kernel -/

/-- the live keys of a query row -/
def liveKeys (kvLen chunkStart row : Nat) : Nat :=
  let qPos := chunkStart + row
  if qPos + 1 < kvLen then qPos + 1 else kvLen

def softmaxRowMax (math : DeviceMath K) (s : Nat → K) (live : Nat) : K :=
  BlockReduce.blockReduce max 8 (-math.fltMax) live s

def softmaxDenom (math : DeviceMath K) (s : Nat → K) (live : Nat) (rowMax : K) : K :=
  BlockReduce.blockReduce (fun a b => a + b) 8 0 live fun j => math.exp (s j - rowMax)

/-- one block: the probs of one query row of one head -/
def prefillSoftmaxBlock (math : DeviceMath K) (chunkLen kvLen chunkStart : Nat) (scores : Int → K)
    (head row : Nat) : List (Int × K) :=
  let rowOffset := (head * chunkLen + row) * kvLen
  let s := fun j : Nat => scores (rowOffset + j : Nat)
  let live := liveKeys kvLen chunkStart row
  let rowMax := softmaxRowMax math s live
  let denom := softmaxDenom math s live rowMax
  (List.range 256).flatMap fun tid => (BlockReduce.strided 256 kvLen tid).map fun j =>
    (((rowOffset + j : Nat) : Int), if j < live then math.exp (s j - rowMax) / denom else 0)

def launchPrefillSoftmax (math : DeviceMath K) (scores : Int → K)
    (numQHeads chunkLen kvLen chunkStart : Nat) : List (Int × K) :=
  (List.range numQHeads ×ˢ List.range chunkLen).flatMap fun block =>
    prefillSoftmaxBlock math chunkLen kvLen chunkStart scores block.1 block.2

/-! ## the composite -/

open Stores in
def enqueuePrefillAttention (math : DeviceMath K) (x : AttentionFields K) (pointersAligned : Bool)
    (mode : PrefillGemmMode) (rows chunkStart ctx : Nat) (m : AttentionMemory K) : AttentionMemory K :=
  let khatBuffer : GatherBuffer := ⟨0, x.gatherPlaneStride, x.headDim⟩
  let vhatBuffer : GatherBuffer := ⟨1, x.gatherPlaneStride, x.headDim⟩
  let gather := fun buffer => launchKvGather khatBuffer vhatBuffer buffer pointersAligned m.pool
    m.blockTable ctx x.numKvHeads.toNat x.headDim.toNat
  let khat := store m.khat (gather khatBuffer)
  let vhat := store m.vhat (gather vhatBuffer)
  let scores := store m.scores (scoresStores x rows ctx mode khat m.qkv)
  let probs := store m.probs (launchPrefillSoftmax math scores x.numQHeads.toNat rows ctx chunkStart)
  { m with
    khat, vhat, scores, probs
    attnOut := store m.attnOut (pvStores x rows ctx mode vhat probs) }

end Redline
