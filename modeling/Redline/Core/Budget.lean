import Redline.Core.Config
import Redline.Core.Engine
import Redline.Lib.Wrap
import Redline.Loader.Weights

/-!
# The memory budget

The byte and block counts of `core/model_executor.cpp` and the preflight of `core/engine.cpp`, each
result in its own machine type.  `Arith.machine` is the code, `Arith.exact` the mathematical values.

* `computeScratchLayout`, `computePinnedLayout`   the regions of the two slabs;
* `memoryBudget`, `requiredBytes`                 `ComputeBudget`, and the total of the preflight.
-/

namespace Redline
open Wrap

/-! ## counts -/

def blocksForTokens32 (A : Arith) (numTokens : Int) : Int :=
  (A.int32 (A.int32 (numTokens + 16) - 1)).tdiv 16

def ExecutorOptions.maxBlocksPerSeq (A : Arith) (o : ExecutorOptions) : Int :=
  blocksForTokens32 A o.maxSeqLen

def ModelConfig.kvBytesPerToken64 (A : Arith) (c : ModelConfig) : Int :=
  A.int64 (A.int64 (A.int64 (A.int64 (2 * c.numLayers) * c.numKvHeads) * c.headDim) * 2)

/-! ## the slabs -/

/-- the regions of the scratch slab, in the order they are taken -/
inductive ScratchRegion where
  | x
  | normed
  | qkv
  | attnOut
  | gateup
  | mlpOut
  | logits
  | scores
  | probs
  | khat
  | vhat
  | inputIds
  | positions
  | seqLens
  | blockTables
  | argmax
  deriving DecidableEq, Repr

def scratchRegions : List ScratchRegion :=
  [.x, .normed, .qkv, .attnOut, .gateup, .mlpOut, .logits, .scores, .probs, .khat, .vhat,
    .inputIds, .positions,
   .seqLens, .blockTables, .argmax]

/-- the bytes that are asked for a region -/
def scratchBytes (A : Arith) (c : ModelConfig) (o : ExecutorOptions) (region : ScratchRegion) : Int :=
  let rows := max o.prefillChunkTokens o.maxBatch
  let hidden := c.hiddenSize
  let qkvWidth := A.int64 (A.int64 (c.numQHeads + A.int32 (2 * c.numKvHeads)) * c.headDim)
  let gateupWidth := A.int64 (2 * c.intermediateSize)
  let scoreElems := A.int64 (A.int64 (c.numQHeads * o.prefillChunkTokens) * o.maxSeqLen)
  let gatherElems := A.int64 (A.int64 (c.numKvHeads * o.maxSeqLen) * c.headDim)
  let tableElems := A.int64 (o.maxBatch * o.maxBlocksPerSeq A)
  match region with
  | .x | .normed | .attnOut | .mlpOut => A.int64 (A.int64 (rows * hidden) * 2)
  | .qkv => A.int64 (A.int64 (rows * qkvWidth) * 2)
  | .gateup => A.int64 (A.int64 (rows * gateupWidth) * 2)
  | .logits => A.int64 (A.int64 (o.maxBatch * c.vocabSize) * 2)
  | .scores => A.int64 (scoreElems * 4)
  | .probs => A.int64 (scoreElems * 2)
  | .khat | .vhat => A.int64 (gatherElems * 2)
  | .inputIds | .positions => A.int64 (rows * 4)
  | .seqLens | .argmax => A.int64 (o.maxBatch * 4)
  | .blockTables => A.int64 (tableElems * 4)

/-- the offsets of the regions, and the size of the slab -/
def computeScratchLayout (A : Arith) (c : ModelConfig) (o : ExecutorOptions) : List Int × Int :=
  takeAll A 256 0 (scratchRegions.map (scratchBytes A c o))

/-- the regions of the pinned slab are the inputs and the argmax buffer of the scratch slab -/
def pinnedRegions : List ScratchRegion := [.inputIds, .positions, .seqLens, .blockTables, .argmax]

def computePinnedLayout (A : Arith) (c : ModelConfig) (o : ExecutorOptions) : List Int × Int :=
  takeAll A 256 0 (pinnedRegions.map (scratchBytes A c o))

/-! ## the budget -/

structure MemoryBudget where
  numKvBlocks : Int
  kvPoolBytes : Int
  scratchBytes : Int
  workspaceBytes : Int
  totalDeviceBytes : Int
  pinnedHostBytes : Int
  deriving DecidableEq, Repr

def kDefaultWorkspaceBytes : Int := 32 * 2 ^ 20

/-- the counts of `ComputeBudget` -/
def budgetCounts (A : Arith) (c : ModelConfig) (o : ExecutorOptions) : MemoryBudget :=
  let blockBytes := A.int64 (16 * c.kvBytesPerToken64 A)
  let numBlocks := o.kvPoolBytes.tdiv blockBytes
  let kvPoolBytes := A.int64 (numBlocks * blockBytes)
  let scratch := (computeScratchLayout A c o).2
  { numKvBlocks := A.int32 numBlocks
    kvPoolBytes
    scratchBytes := scratch
    workspaceBytes := kDefaultWorkspaceBytes
    totalDeviceBytes := A.int64 (A.int64 (kvPoolBytes + scratch) + kDefaultWorkspaceBytes)
    pinnedHostBytes := (computePinnedLayout A c o).2 }

/-- `ModelExecutor::ComputeBudget` -/
def memoryBudget (A : Arith) (c : ModelConfig) (o : ExecutorOptions) :
    Except ExecutorError MemoryBudget := do
  validateGeometry c o
  let blockBytes := A.int64 (16 * c.kvBytesPerToken64 A)
  if o.kvPoolBytes.tdiv blockBytes < 2 then .error (.poolTooSmall o.kvPoolBytes blockBytes)
  else return budgetCounts A c o

/-! ## the preflight -/

def kContextSlackBytes : Int := 512 * 2 ^ 20

def kGraphBudgetPerBucketBytes : Int := 16 * 2 ^ 20

/-- the configuration as the loader reads it; the other two fields are pinned too -/
def ModelConfig.toLoaderConfig (c : ModelConfig) : LoaderConfig :=
  { c with
    qkvBias := true
    tieWordEmbeddings := true }

/-- `DeviceWeights::TotalDeviceBytes` -/
def totalWeightBytes (c : ModelConfig) (hasLmHead : Bool) : Int :=
  (weightsLayout c.toLoaderConfig hasLmHead).totalBytes

def graphBytes (A : Arith) (o : EngineOptions) : Int :=
  if o.enableCudaGraphs then A.int64
    ((makeDecodeBuckets o.maxBatch.toNat).length * kGraphBudgetPerBucketBytes) else 0

/-- the total that is compared with the free device memory -/
def requiredBytes (A : Arith) (c : ModelConfig) (o : EngineOptions) (hasLmHead : Bool) : Int :=
  A.int64 (A.int64 (A.int64 (totalWeightBytes c hasLmHead +
    (budgetCounts A c (makeExecutorOptions o)).totalDeviceBytes) + graphBytes A o) + kContextSlackBytes)

/-- the preflight lets the configuration through -/
def preflightOk (A : Arith) (c : ModelConfig) (o : EngineOptions) (hasLmHead : Bool)
    (freeBytes : Int) : Bool :=
  !decide (freeBytes < requiredBytes A c o hasLmHead)

end Redline
