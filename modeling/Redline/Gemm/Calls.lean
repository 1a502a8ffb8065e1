import Redline.Core.Budget
import Redline.Gemm.PlanCache

/-!
# The GEMM calls of the forwards

The entry points of `gemm/cublaslt_gemm.cpp`, and which of them `core/model_executor.cpp` calls in a
forward, with the configurations and the pointers that it passes.  The names of the buffers are those
of the two slabs; a pointer is the address of its slab, the offset of its region, and what the code
adds to it.

* `decodeForwardCalls_kernels`, `prefillForwardCalls_kernels`
      the same products, in the same order, as the executor enqueues.
-/

namespace Redline
open Wrap

/-! ## the entry points -/

/-- `GemmFp16`, `GemmBiasFp16` and the two overloads of `GemmStridedBatched` -/
inductive GemmEntry where
  | fp16
  | biasFp16 (bias : Int)
  | stridedBatchedHalf
  | stridedBatchedFloat
  deriving DecidableEq, Repr

structure GemmCall where
  entry : GemmEntry
  config : GemmConfig
  d : Int
  a : Int
  b : Int
  deriving DecidableEq, Repr

namespace GemmCall

def gemmFp16 (out outRowStride act actRowStride weight rows outFeatures inFeatures : Int) : GemmCall :=
  ⟨.fp16, .linear rows outFeatures inFeatures actRowStride outRowStride .kNone, out, weight, act⟩

def gemmBiasFp16 (out outRowStride act actRowStride weight bias rows outFeatures inFeatures : Int) : GemmCall :=
  ⟨.biasFp16 bias, .linear rows outFeatures inFeatures actRowStride outRowStride .kBias, out,
    weight, act⟩

/-- the checks of `GemmStridedBatched` for the type that an overload writes -/
def checkStridedBatched (typeD : CudaDataType) (config : GemmConfig) : Option GemmError :=
  if config.typeD ≠ typeD then some (.wrongOverload config)
  else if config.epilogue ≠ .kNone then some (.batchedEpilogue config)
  else none

/-- what an entry point throws ahead of the run -/
def rejected (call : GemmCall) : Option GemmError :=
  match call.entry with
  | .fp16 => none
  | .biasFp16 bias => if bias = 0 then some .nullBias else none
  | .stridedBatchedHalf => checkStridedBatched .r16F call.config
  | .stridedBatchedFloat => checkStridedBatched .r32F call.config

def tag (call : GemmCall) : String :=
  match call.entry with
  | .fp16 => "linear"
  | .biasFp16 _ => "linear_bias"
  | .stridedBatchedHalf => "strided_batched_f16"
  | .stridedBatchedFloat => "strided_batched_f32"

end GemmCall

namespace CublasLtGemm

def gemm (g : CublasLtGemm) (call : GemmCall) (answers : RunAnswers) :
    Except GemmError Plan × CublasLtGemm :=
  match call.rejected with
  | some error => (.error error, g)
  | none => g.runImpl call.config call.tag answers

/-- one call after the other, up to the first that throws -/
def gemmAll (g : CublasLtGemm) : List GemmCall → (Nat → RunAnswers) →
    Except GemmError Unit × CublasLtGemm
  | [], _ => (.ok (), g)
  | call :: calls, answers =>
    match g.gemm call (answers 0) with
    | (.error error, g) => (.error error, g)
    | (.ok _, g) => g.gemmAll calls fun i => answers (i + 1)

end CublasLtGemm

/-! ## the buffers -/

/-- the address of a `cudaMalloc`: at least 256-byte aligned -/
structure DeviceAllocation where
  address : Int
  positive : 0 < address
  aligned : 256 ∣ address

/-- the two slabs of an executor, with what decides their layouts -/
structure DeviceBuffers where
  config : ModelConfig
  options : ExecutorOptions
  scratchSlab : DeviceAllocation
  weightsSlab : DeviceAllocation
  hasLmHead : Bool

namespace DeviceBuffers

section
variable (x : DeviceBuffers)

/-- `SlabAt` of a region -/
def slabAt (region : ScratchRegion) : Int :=
  x.scratchSlab.address + (computeScratchLayout machine x.config x.options).1.getD
    (scratchRegions.idxOf region) 0

def layout : WeightsLayout := weightsLayout x.config.toLoaderConfig x.hasLmHead

/-- a weight of the layout -/
def weight (offset : Int) : Int := x.weightsSlab.address + offset

def layerWeights (layer : Nat) : LayerOffsets := x.layout.layers.getD layer default

def qkvWidth : Int := (x.config.numQHeads + 2 * x.config.numKvHeads) * x.config.headDim

def gateupWidth : Int := 2 * x.config.intermediateSize

def headsPerGroup : Int := x.config.numQHeads.tdiv x.config.numKvHeads

def gatherPlaneStride : Int := x.options.maxSeqLen * x.config.headDim

/-! ## the products of a layer -/

def qkvCall (rows layer : Nat) : GemmCall :=
  .gemmBiasFp16 (x.slabAt .qkv) x.qkvWidth (x.slabAt .normed) x.config.hiddenSize
    (x.weight (x.layerWeights layer).wQkv) (x.weight (x.layerWeights layer).bQkv)
    rows x.qkvWidth x.config.hiddenSize

def oCall (rows layer : Nat) : GemmCall :=
  .gemmFp16 (x.slabAt .mlpOut) x.config.hiddenSize (x.slabAt .attnOut) x.config.hiddenSize
    (x.weight (x.layerWeights layer).wO) rows x.config.hiddenSize x.config.hiddenSize

def gateupCall (rows layer : Nat) : GemmCall :=
  .gemmFp16 (x.slabAt .gateup) x.gateupWidth (x.slabAt .normed) x.config.hiddenSize
    (x.weight (x.layerWeights layer).wGateup) rows x.gateupWidth x.config.hiddenSize

def downCall (rows layer : Nat) : GemmCall :=
  .gemmFp16 (x.slabAt .mlpOut) x.config.hiddenSize (x.slabAt .gateup) x.gateupWidth
    (x.weight (x.layerWeights layer).wDown) rows x.config.hiddenSize x.config.intermediateSize

/-- the head over `rows` rows of the normed buffer, from its element `lastRow` on -/
def lmHeadCall (rows : Nat) (lastRow : Int) : GemmCall :=
  .gemmFp16 (x.slabAt .logits) x.config.vocabSize (x.slabAt .normed + lastRow * 2) x.config.hiddenSize
    (x.weight x.layout.lmHead) rows x.config.vocabSize x.config.hiddenSize

/-- the products of a layer that the two forwards share, around those of its attention -/
def layerCalls (rows layer : Nat) (attention : List (Gemm × GemmCall)) : List (Gemm × GemmCall) :=
  (.qkvBias, x.qkvCall rows layer) :: attention ++
    [(.o, x.oCall rows layer), (.gateup, x.gateupCall rows layer), (.down, x.downCall rows layer)]

/-! ## the prefill attention -/

/-- the scores of the query heads from `h` on, with the keys of KV head `g` -/
def scoresCall (rows ctx : Nat) (headsPerGroup h g : Int) : GemmCall where
  entry := .stridedBatchedFloat
  config := .prefillScores rows ctx x.config.headDim headsPerGroup x.qkvWidth
  d := x.slabAt .scores + machine.int64 (h * (rows * ctx)) * 4
  a := x.slabAt .khat + g * x.gatherPlaneStride * 2
  b := x.slabAt .qkv + h * x.config.headDim * 2

/-- the outputs of the query heads from `h` on, with the values of KV head `g` -/
def pvCall (rows ctx : Nat) (headsPerGroup h g : Int) : GemmCall where
  entry := .stridedBatchedHalf
  config := .prefillPv rows ctx x.config.headDim headsPerGroup x.config.hiddenSize
  d := x.slabAt .attnOut + h * x.config.headDim * 2
  a := x.slabAt .vhat + g * x.gatherPlaneStride * 2
  b := x.slabAt .probs + machine.int64 (h * (rows * ctx)) * 2

/-- one call for each KV head over its group, or one for each query head -/
def perHead (call : Int → Int → Int → GemmCall) : PrefillGemmMode → List GemmCall
  | .kStridedBatched =>
    (List.range x.config.numKvHeads.toNat).map fun (g : Nat) => call x.headsPerGroup
    (g * x.headsPerGroup) g
  | .kPerHead =>
    (List.range x.config.numQHeads.toNat).map fun (h : Nat) => call 1 h ((h : Int).tdiv x.headsPerGroup)

def prefillAttentionCalls (rows ctx : Nat) (mode : PrefillGemmMode) : List (Gemm × GemmCall) :=
  (x.perHead (x.scoresCall rows ctx) mode).map (Prod.mk .scores) ++
    (x.perHead (x.pvCall rows ctx) mode).map (Prod.mk .pv)

/-! ## the forwards -/

/-- `EnqueueDecodeForward` -/
def decodeForwardCalls (rows : Nat) : List (Gemm × GemmCall) :=
  ((List.range x.config.numLayers.toNat).flatMap fun layer => x.layerCalls rows layer []) ++
    [(.lmHead, x.lmHeadCall rows 0)]

/-- `EnqueuePrefillForward` -/
def prefillForwardCalls (rows ctx : Nat) (finalChunk : Bool) (mode : PrefillGemmMode) :
    List (Gemm × GemmCall) :=
  ((List.range x.config.numLayers.toNat).flatMap fun layer =>
    x.layerCalls rows layer (x.prefillAttentionCalls rows ctx mode)) ++
    if finalChunk then [(.lmHead, x.lmHeadCall 1 ((rows - 1) * x.config.hiddenSize))] else []

/-- `DumpLayer0Activations` -/
def dumpCalls (rows ctx : Nat) (mode : PrefillGemmMode) : List (Gemm × GemmCall) :=
  x.layerCalls rows 0 (x.prefillAttentionCalls rows ctx mode)

end

/-! ## the executor enqueues these products -/

/-- the product that a kernel of a forward is, with its rows -/
def productOf : Kernel → Option (Gemm × Nat)
  | .gemm which rows => some (which, rows)
  | _ => none

/-- a labelled call, with its rows -/
def productRows (call : Gemm × GemmCall) : Gemm × Nat := (call.1, call.2.config.n.toNat)

section
variable {x : DeviceBuffers} {e : Executor}

theorem filterMap_gemm (which : Gemm) (rows : Nat) (kernels : List Kernel) :
    (Kernel.gemm which rows :: kernels).filterMap productOf
      = (which, rows) :: kernels.filterMap productOf := rfl

theorem filterMap_replicate (which : Gemm) (rows n : Nat) :
    (List.replicate n (Kernel.gemm which rows)).filterMap productOf = List.replicate n
    (which, rows) := by
  induction n with
  | zero => rfl
  | succ n ih =>
    rw [List.replicate_succ, filterMap_gemm, ih]
    rfl

/-- calls over the same rows, one for each head that the mode calls for -/
theorem perHead_products (which : Gemm) (call : Int → Int → Int → GemmCall) (mode : PrefillGemmMode)
    {rows : Nat} (hrows : ∀ k h g, (call k h g).config.n = rows) :
    ((x.perHead call mode).map (Prod.mk which)).map productRows = List.replicate
      (match mode with
        | .kStridedBatched => x.config.numKvHeads.toNat
        | .kPerHead => x.config.numQHeads.toNat) (which, rows) := by
  unfold perHead
  cases mode with
  | kStridedBatched =>
    rw [List.map_map, List.map_map, List.map_congr_left (g := fun _ => (which, rows)) fun g _ => ?_,
      List.map_const', List.length_range]
    show (which, Int.toNat _) = _
    rw [hrows, Int.toNat_natCast]
  | kPerHead =>
    rw [List.map_map, List.map_map, List.map_congr_left (g := fun _ => (which, rows)) fun h _ => ?_,
      List.map_const', List.length_range]
    show (which, Int.toNat _) = _
    rw [hrows, Int.toNat_natCast]

theorem attention_products (hconfig : e.config = x.config) (layer rows chunkStart ctx : Nat)
    (mode : PrefillGemmMode) :
    (e.enqueuePrefillAttention layer rows chunkStart ctx mode).filterMap productOf
      = (x.prefillAttentionCalls rows ctx mode).map productRows := by
  unfold prefillAttentionCalls Executor.enqueuePrefillAttention
  rw [List.map_append, perHead_products .scores (x.scoresCall rows ctx) mode fun _ _ _ => rfl,
    perHead_products .pv (x.pvCall rows ctx) mode fun _ _ _ => rfl, hconfig]
  cases mode
  all_goals
    rw [List.cons_append, List.filterMap_cons_none rfl, List.filterMap_append,
      List.filterMap_cons_none rfl, filterMap_replicate, filterMap_replicate]

theorem layer_products (rows layer : Nat) (attention : List (Gemm × GemmCall)) :
    (x.layerCalls rows layer attention).map productRows
      = (.qkvBias, rows) :: attention.map productRows ++
      [(.o, rows), (.gateup, rows), (.down, rows)] := by
  unfold layerCalls
  rw [List.map_append, List.map_cons]
  rfl

theorem decodeForwardCalls_kernels (hconfig : e.config = x.config) (rows : Nat) :
    (e.enqueueDecodeForward rows).filterMap productOf
      = (x.decodeForwardCalls rows).map productRows := by
  unfold Executor.enqueueDecodeForward decodeForwardCalls
  rw [List.cons_append, List.filterMap_cons_none rfl, List.filterMap_append, List.filterMap_flatMap,
    List.map_append, List.map_flatMap, hconfig]
  refine congrArg₂ _ (List.flatMap_congr fun layer _ => ?_) rfl
  rw [layer_products]
  unfold Executor.inputNorm
  split <;> rfl

theorem prefillForwardCalls_kernels (hconfig : e.config = x.config) (rows chunkStart ctx : Nat)
    (finalChunk : Bool)
    (mode : PrefillGemmMode) : (e.enqueuePrefillForward rows chunkStart ctx finalChunk mode).filterMap productOf
      = (x.prefillForwardCalls rows ctx finalChunk mode).map productRows := by
  unfold Executor.enqueuePrefillForward prefillForwardCalls
  rw [List.cons_append, List.filterMap_cons_none rfl, List.filterMap_append, List.filterMap_flatMap,
    List.map_append, List.map_flatMap, hconfig]
  refine congrArg₂ _ (List.flatMap_congr fun layer _ => ?_) ?_
  · rw [layer_products, ← attention_products hconfig layer rows chunkStart ctx mode]
    unfold Executor.prefillLayerKernels Executor.inputNorm Executor.mlpKernels
    have hnorm : productOf (if layer = 0 then .rmsNorm rows else .rmsNormResidual rows) = none := by
      split <;> rfl
    rw [List.filterMap_cons_none hnorm, filterMap_gemm, List.filterMap_cons_none rfl,
      List.filterMap_cons_none rfl, List.filterMap_append]
    rfl
  · cases finalChunk <;> rfl

end
end DeviceBuffers
end Redline
