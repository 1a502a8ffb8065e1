import Redline.Engine.Preflight
import Redline.Gemm.Alignment
import Redline.Kernels.Causal
import Redline.Lib.Extent

/-!
# The regions of the slabs and the operands in them

For a configuration whose byte counts are exact, the regions that `ComputeScratchLayout` carves from the
scratch slab are apart from each other, and every element that a product of a forward reads or writes is
in the region it is meant for.

* `Carved`                   the two slabs of such a configuration;
* `extent_apart`, `extent_within`, `cell_within`   the regions of the scratch slab and their cells;
* `forward_confined`         the operands of every product of a forward, at any rows and context.
-/

namespace Redline
open Wrap StridedGemm

/-! ## the operands of a call -/

/-- the region that a product reads its activations from -/
def Gemm.actRegion : Gemm → ScratchRegion
  | .qkvBias | .gateup | .lmHead => .normed
  | .o => .attnOut
  | .down => .gateup
  | .scores => .qkv
  | .pv => .probs

/-- the region that a product writes -/
def Gemm.outRegion : Gemm → ScratchRegion
  | .qkvBias => .qkv
  | .o | .down => .mlpOut
  | .gateup => .gateup
  | .lmHead => .logits
  | .scores => .scores
  | .pv => .attnOut

/-- the elements of the three operands are inside three extents -/
structure GemmCall.Inside (call : GemmCall) (a b d : Extent) : Prop where
  a : (call.config.product 0 0 0).a.Inside call.config.batch.toNat call.config.m.toNat call.config.k.toNat call.a 2 a
  b : (call.config.product 0 0 0).b.Inside call.config.batch.toNat call.config.k.toNat call.config.n.toNat call.b 2 b
  d : (call.config.product 0 0 0).d.Inside call.config.batch.toNat call.config.m.toNat call.config.n.toNat call.d
    call.config.typeD.bytes d

/-! ## the cells of a region -/

/-- the rows of a region, the columns of a row and the bytes of a cell -/
structure RegionShape where
  rows : Int
  cols : Int
  size : Int
  deriving DecidableEq, Repr

/-- a region as rows of cells, at the largest shape -/
def ScratchRegion.shape (o : EngineOptions) : ScratchRegion → RegionShape
  | .x | .normed | .attnOut | .mlpOut => ⟨max o.prefillChunkTokens o.maxBatch, 1536, 2⟩
  | .qkv => ⟨max o.prefillChunkTokens o.maxBatch, 2048, 2⟩
  | .gateup => ⟨max o.prefillChunkTokens o.maxBatch, 17920, 2⟩
  | .logits => ⟨o.maxBatch, 151936, 2⟩
  | .scores => ⟨12 * o.prefillChunkTokens, o.maxSeqLen, 4⟩
  | .probs => ⟨12 * o.prefillChunkTokens, o.maxSeqLen, 2⟩
  | .khat | .vhat => ⟨2 * o.maxSeqLen, 128, 2⟩
  | .inputIds | .positions => ⟨max o.prefillChunkTokens o.maxBatch, 1, 4⟩
  | .seqLens | .argmax => ⟨o.maxBatch, 1, 4⟩
  | .blockTables => ⟨o.maxBatch, (o.maxSeqLen + 15) / 16, 4⟩

theorem ScratchRegion.shape_size (o : EngineOptions) (region : ScratchRegion) :
    0 < (region.shape o).size := by
  cases region <;> simp only [shape] <;> decide

/-- the cells take what the region was carved with -/
theorem ScratchRegion.shape_bytes (o : EngineOptions) (region : ScratchRegion) :
    regionBytes o region = (region.shape o).rows * (region.shape o).cols * (region.shape o).size := by
  cases region <;> simp only [regionBytes, shape] <;> ring

namespace DeviceBuffers

section
variable (x : DeviceBuffers)

/-- a region of the scratch slab, with the bytes that were asked for it -/
def extent (region : ScratchRegion) : Extent :=
  ⟨x.slabAt region, scratchBytes machine x.config x.options region⟩

def scratchExtent : Extent :=
  ⟨x.scratchSlab.address, (computeScratchLayout machine x.config x.options).2⟩

def weightsExtent : Extent := ⟨x.weightsSlab.address, x.layout.totalBytes⟩

/-- the matrix that a product multiplies the activations with: a weight, or the gathered keys or values -/
def matrixExtent (layer : Nat) : Gemm → Extent
  | .qkvBias => ⟨x.weight (x.layerWeights layer).wQkv, x.qkvWidth * x.config.hiddenSize * 2⟩
  | .o => ⟨x.weight (x.layerWeights layer).wO, x.config.hiddenSize * x.config.hiddenSize * 2⟩
  | .gateup => ⟨x.weight (x.layerWeights layer).wGateup, x.gateupWidth * x.config.hiddenSize * 2⟩
  | .down =>
    ⟨x.weight (x.layerWeights layer).wDown, x.config.hiddenSize * x.config.intermediateSize * 2⟩
  | .lmHead => ⟨x.weight x.layout.lmHead, x.config.vocabSize * x.config.hiddenSize * 2⟩
  | .scores => x.extent .khat
  | .pv => x.extent .vhat

/-- the slab that the matrix is in -/
def matrixSlab : Gemm → Extent
  | .scores | .pv => x.scratchExtent
  | _ => x.weightsExtent

def biasExtent (layer : Nat) : Extent := ⟨x.weight (x.layerWeights layer).bQkv, x.qkvWidth * 2⟩

/-- the operands of a product are where they are meant to be -/
structure Confined (layer : Nat) (which : Gemm) (call : GemmCall) : Prop where
  operands : call.Inside (x.matrixExtent layer which) (x.extent which.actRegion)
    (x.extent which.outRegion)
  bias : ∀ pointer, call.entry = .biasFp16 pointer →
    (x.biasExtent layer).Holds pointer (call.config.m * 2)

/-- the slabs of accepted options, with byte counts in range -/
structure Carved (o : EngineOptions) (eosTokenIds : List Int) : Prop where
  config : x.config = pinnedGeometry eosTokenIds
  options : x.options = makeExecutorOptions o
  sized : Sized o
  seqLen : o.maxSeqLen ≤ 2 ^ 31 - 16
  total : requiredTotal o x.hasLmHead < 2 ^ 63

end

section
variable {x : DeviceBuffers} {o : EngineOptions} {eosTokenIds : List Int} (hx : x.Carved o eosTokenIds)
include hx

/-! ## the regions -/

theorem Carved.bytes_eq (region : ScratchRegion) :
    scratchBytes machine x.config x.options region = regionBytes o region := by
  rw [hx.config, hx.options]
  exact scratchBytes_machine hx.sized hx.seqLen (parts_of_total hx.sized hx.total).1 region

theorem Carved.layout_eq : computeScratchLayout machine x.config x.options
    = takeAll exact 256 0 (scratchRegions.map (regionBytes o)) := by
  rw [hx.config, hx.options, (counts_of_total eosTokenIds hx.sized hx.seqLen hx.total).1]
  unfold computeScratchLayout
  rw [List.map_congr_left fun region _ => scratchBytes_exact hx.sized region]

theorem Carved.extent_eq (region : ScratchRegion) : x.extent region
    = ⟨x.scratchSlab.address + offsetOf exact 256 scratchRegions (regionBytes o) region,
      regionBytes o region⟩ := by
  unfold extent slabAt offsetOf
  rw [hx.bytes_eq, hx.layout_eq]

omit hx in
theorem mem_scratchRegions (region : ScratchRegion) : region ∈ scratchRegions := by
  cases region <;> decide

/-- **Two regions** have no byte in common. -/
theorem Carved.extent_apart {region region' : ScratchRegion} (hne : region ≠ region') :
    (x.extent region).Apart (x.extent region') := by
  have hapart :=
    offsetOf_apart (show (0 : Int) < 256 by decide)
      (fun region _ => regionBytes_nonneg hx.sized region)
    (mem_scratchRegions region) (mem_scratchRegions region') hne
  rw [hx.extent_eq, hx.extent_eq]
  unfold Extent.Apart Extent.stop at *
  dsimp only at *
  omega

theorem Carved.extent_within (region : ScratchRegion) : (x.extent region).Within x.scratchExtent := by
  have hwithin :=
    offsetOf_within (show (0 : Int) < 256 by decide)
      (fun region _ => regionBytes_nonneg hx.sized region)
    (mem_scratchRegions region)
  rw [hx.extent_eq]
  unfold Extent.Within Extent.Holds Extent.stop scratchExtent
  rw [hx.layout_eq]
  dsimp only
  omega

theorem Carved.slabAt_stop (region : ScratchRegion) :
    (x.extent region).start = x.slabAt region ∧
    (x.extent region).stop = x.slabAt region + regionBytes o region :=
  ⟨rfl, congrArg (x.slabAt region + ·) (hx.bytes_eq region)⟩

/-- **A cell** of a region, by its row and its column. -/
theorem Carved.cell_within (region : ScratchRegion) {row col : Nat} (hrow : row < (region.shape o).rows)
    (hcol : col < (region.shape o).cols) : (x.extent region).Holds
      (x.slabAt region + (row * (region.shape o).cols + col) * (region.shape o).size)
        (region.shape o).size := by
  obtain ⟨hstart, hstop⟩ := hx.slabAt_stop region
  have hsize := region.shape_size o
  have hcell : 0 ≤ (row * (region.shape o).cols + col) * (region.shape o).size := by
    have hcols : 0 ≤ (region.shape o).cols := by omega
    positivity
  have hrows : (row + 1) * (region.shape o).cols ≤ (region.shape o).rows * (region.shape o).cols :=
    mul_le_mul_of_nonneg_right (by omega) (by omega)
  have hlast : (row * (region.shape o).cols + col + 1) * (region.shape o).size
      ≤ (region.shape o).rows * (region.shape o).cols * (region.shape o).size :=
    mul_le_mul_of_nonneg_right (by linarith) hsize.le
  unfold Extent.Holds
  rw [hstart, hstop, region.shape_bytes o]
  exact ⟨by linarith, by linarith⟩

/-! ## the sizes -/

theorem Carved.sizes : x.config.hiddenSize = (1536 : Nat) ∧ x.config.intermediateSize = (8960 : Nat) ∧
    x.config.vocabSize = (151936 : Nat) ∧ x.config.headDim = (128 : Nat) ∧ x.qkvWidth = (2048 : Nat) ∧
    x.gateupWidth = (17920 : Nat) ∧ x.headsPerGroup = (6 : Nat) := by
  unfold qkvWidth gateupWidth headsPerGroup
  rw [hx.config]
  exact ⟨rfl, rfl, rfl, rfl, rfl, rfl, rfl⟩

theorem Carved.design : Design x.config.toLoaderConfig := design_of_pinned hx.config

end

/-! ## a product -/

/-- a linear product, over a matrix of its own -/
theorem inside_linear (rows outFeatures inFeatures actRowStride outRowStride : Nat)
    (epilogue : GemmEpilogue)
    {call : GemmCall} (hconfig : call.config = .linear rows outFeatures inFeatures actRowStride outRowStride epilogue)
    {a b d : Extent} (ha : a.start = call.a ∧ a.bytes = outFeatures * inFeatures * 2)
    (hb : b.start ≤ call.b ∧ call.b + (inFeatures + (rows - 1 : Int) * actRowStride) * 2 ≤ b.stop)
    (hd : d.start ≤ call.d ∧ call.d + (outFeatures + (rows - 1 : Int) * outRowStride) * 2 ≤ d.stop) :
    call.Inside a b d := by
  constructor
  all_goals rw [hconfig]
  · refine Operand.inside rfl (Int.natCast_nonneg _) (le_refl _) (by decide) ha.1.le ?_
    rw [Operand.last_transposed rfl]
    unfold Extent.stop
    simp only [ha.1, ha.2, GemmConfig.product, GemmConfig.linear, Int.toNat_natCast]
    linarith
  · refine Operand.inside rfl (Int.natCast_nonneg _) (le_refl _) (by decide) hb.1
      (le_trans (le_of_eq ?_) hb.2)
    rw [Operand.last_normal rfl]
    simp only [GemmConfig.product, GemmConfig.linear, Int.toNat_natCast]
    ring
  · refine Operand.inside rfl (Int.natCast_nonneg _) (le_refl _) (by show (0 : Int) ≤ 2; decide) hd.1
      (le_trans (le_of_eq ?_) hd.2)
    rw [Operand.last_normal rfl]
    simp only [GemmConfig.product, GemmConfig.linear, Int.toNat_natCast, CudaDataType.bytes]
    ring

/-- the planes of `k` heads, packed at the current shape, end inside what the largest shape takes -/
theorem planes_fit {rows ctx h k : Nat} {chunk seq : Int} (hrows : rows ≤ chunk) (hctx : ctx ≤ seq)
    (hk : 0 < k) (hheads : h + k ≤ 12) :
    (h : Int) * (rows * ctx) + (((k - 1 : Int) * (if (1 : Int) < k then (rows * ctx : Int) else 0)
      + ((ctx - 1 : Int) + (rows - 1 : Int) * ctx)) + 1) ≤ 12 * (chunk * seq) := by
  have hplane : (rows * ctx : Int) ≤ chunk * seq := by
    exact mul_le_mul hrows hctx (by omega) (by omega)
  have hstride : (k - 1 : Int) * (if (1 : Int) < k then (rows * ctx : Int) else 0)
      = (k - 1 : Int) * (rows * ctx) := by
    split
    · rfl
    · rw [show (k : Int) = 1 by omega, sub_self, zero_mul, zero_mul]
  have hall : ((h + k : Nat) : Int) * (rows * ctx) ≤ 12 * (rows * ctx : Int) :=
    mul_le_mul_of_nonneg_right (by omega) (by positivity)
  rw [hstride]
  push_cast at hall
  linarith

section
variable {x : DeviceBuffers} {o : EngineOptions} {eosTokenIds : List Int} (hx : x.Carved o eosTokenIds)
  {rows ctx k h g : Nat} (hrows : rows ≤ o.prefillChunkTokens) (hctx : ctx ≤ o.maxSeqLen) (hk : 0 < k)
  (hheads : h + k ≤ 12) (hg : g < 2)
include hx hrows hctx hk hheads hg

omit hg in
/-- the offset of a plane does not wrap -/
theorem Carved.plane_offset : machine.int64 ((h : Int) * (rows * ctx)) = h * (rows * ctx) := by
  obtain ⟨hscores, _⟩ := parts_of_total hx.sized hx.total
  have hplane : (rows * ctx : Int) ≤ o.prefillChunkTokens * o.maxSeqLen :=
    mul_le_mul hrows hctx (by omega) (by omega)
  have hall : (h : Int) * (rows * ctx) ≤ 12 * (rows * ctx : Int) :=
    mul_le_mul_of_nonneg_right (by omega) (by positivity)
  exact machine_int64 (by positivity) (by linarith)

omit hrows hk hheads in
/-- the plane of a KV head in a gathered buffer -/
theorem Carved.gathered_plane (region : ScratchRegion)
    (hregion : regionBytes o region = 512 * o.maxSeqLen) :
    (x.extent region).start ≤ x.slabAt region + (g : Int) * (x.options.maxSeqLen * (128 : Nat)) * 2 ∧
      x.slabAt region + (g : Int) * (x.options.maxSeqLen * (128 : Nat)) * 2 + (ctx * 128) * 2
        ≤ (x.extent region).stop := by
  have h0 : 0 ≤ (g : Int) * o.maxSeqLen := mul_nonneg (by omega) (by omega)
  have h1 : (g : Int) * o.maxSeqLen ≤ 1 * o.maxSeqLen :=
    mul_le_mul_of_nonneg_right (by omega) (by omega)
  obtain ⟨hstart, hstop⟩ := hx.slabAt_stop region
  rw [hstart, hstop, hregion, hx.options]
  show _ ≤ _ + (g : Int) * (o.maxSeqLen * 128) * 2 ∧ _ + (g : Int) * (o.maxSeqLen * 128) * 2 + _ ≤ _
  rw [← mul_assoc]
  omega

omit hctx hg in
/-- `k` heads of 128 channels in every row of a buffer -/
theorem Carved.heads_columns (region : ScratchRegion) {width : Nat} (hwidth : 1536 ≤ width)
    (hregion : regionBytes o region = 2 * width * max o.prefillChunkTokens o.maxBatch) :
    (x.extent region).start ≤ x.slabAt region + (h : Int) * (128 : Nat) * 2 ∧
      x.slabAt region + (h : Int) * (128 : Nat) * 2 +
        (((k - 1 : Int) * (if (1 : Int) < k then ((128 : Nat) : Int) else 0) +
        ((128 - 1 : Int) + (rows - 1 : Int) * width)) + 1) * 2 ≤ (x.extent region).stop := by
  obtain ⟨hstart, hstop⟩ := hx.slabAt_stop region
  have hstride : (k - 1 : Int) * (if (1 : Int) < k then ((128 : Nat) : Int) else 0)
      = (k - 1 : Int) * 128 := by
    split
    · rfl
    · omega
  have hall : (rows : Int) * width ≤ max o.prefillChunkTokens o.maxBatch * width :=
    mul_le_mul_of_nonneg_right (by omega) (by omega)
  rw [hstart, hstop, hregion, hstride]
  refine ⟨by omega, ?_⟩
  push_cast
  linarith

/-- the scores of `k` query heads from `h` on -/
theorem Carved.scores_inside :
    (x.scoresCall rows ctx k h g).Inside (x.extent .khat) (x.extent .qkv) (x.extent .scores) := by
  obtain ⟨_, _, _, hdim, hqkv, _, _⟩ := hx.sizes
  obtain ⟨hkstart, hkstop⟩ := hx.gathered_plane hctx hg .khat rfl
  obtain ⟨hqstart, hqstop⟩ := hx.heads_columns hrows hk hheads .qkv (show 1536 ≤ 2048 by decide) (by
    simp only [regionBytes]; norm_num)
  obtain ⟨hsstart, hsstop⟩ := hx.slabAt_stop .scores
  have hplanes := planes_fit hrows hctx hk hheads
  have hplane0 : 0 ≤ (h : Int) * (rows * ctx) := by positivity
  unfold scoresCall gatherPlaneStride
  rw [hdim, hqkv, hx.plane_offset hrows hctx hk hheads]
  constructor
  · refine Operand.inside rfl (Int.natCast_nonneg _) (le_refl _) (by decide) hkstart
      (le_trans (le_of_eq ?_) hkstop)
    rw [Operand.last_transposed rfl]
    simp only [GemmConfig.product, GemmConfig.prefillScores, Int.toNat_natCast]
    push_cast
    ring
  · refine Operand.inside rfl (Int.natCast_nonneg _) ?_ (by decide) hqstart
      (le_trans (le_of_eq ?_) hqstop)
    · simp only [GemmConfig.product, GemmConfig.prefillScores]
      split <;> decide
    · rw [Operand.last_normal rfl]
      simp only [GemmConfig.product, GemmConfig.prefillScores, Int.toNat_natCast]
      rfl
  · refine Operand.inside rfl (Int.natCast_nonneg _) ?_ (by show (0 : Int) ≤ 4; decide) ?_ ?_
    · simp only [GemmConfig.product, GemmConfig.prefillScores]
      split <;> positivity
    · rw [hsstart]
      show x.slabAt .scores ≤ x.slabAt .scores + (h : Int) * (rows * ctx) * 4
      omega
    · rw [hsstop, Operand.last_normal rfl]
      simp only [GemmConfig.product, GemmConfig.prefillScores, Int.toNat_natCast,
        CudaDataType.bytes, regionBytes]
      linarith

/-- the outputs of `k` query heads from `h` on -/
theorem Carved.pv_inside :
    (x.pvCall rows ctx k h g).Inside (x.extent .vhat) (x.extent .probs) (x.extent .attnOut) := by
  obtain ⟨hhidden, _, _, hdim, _, _, _⟩ := hx.sizes
  obtain ⟨hvstart, hvstop⟩ := hx.gathered_plane hctx hg .vhat rfl
  obtain ⟨hostart, hostop⟩ := hx.heads_columns hrows hk hheads .attnOut (le_refl 1536) (by
    simp only [regionBytes]; norm_num)
  obtain ⟨hpstart, hpstop⟩ := hx.slabAt_stop .probs
  have hplanes := planes_fit hrows hctx hk hheads
  have hplane0 : 0 ≤ (h : Int) * (rows * ctx) := by positivity
  unfold pvCall gatherPlaneStride
  rw [hdim, hhidden, hx.plane_offset hrows hctx hk hheads]
  constructor
  · refine Operand.inside rfl (Int.natCast_nonneg _) (le_refl _) (by decide) hvstart
      (le_trans (le_of_eq ?_) hvstop)
    rw [Operand.last_normal rfl]
    simp only [GemmConfig.product, GemmConfig.prefillPv, Int.toNat_natCast]
    push_cast
    ring
  · refine Operand.inside rfl (Int.natCast_nonneg _) ?_ (by decide) ?_ ?_
    · simp only [GemmConfig.product, GemmConfig.prefillPv]
      split <;> positivity
    · rw [hpstart]
      show x.slabAt .probs ≤ x.slabAt .probs + (h : Int) * (rows * ctx) * 2
      omega
    · rw [hpstop, Operand.last_normal rfl]
      simp only [GemmConfig.product, GemmConfig.prefillPv, Int.toNat_natCast, regionBytes]
      linarith
  · refine Operand.inside rfl (Int.natCast_nonneg _) ?_ (by show (0 : Int) ≤ 2; decide) hostart
      (le_trans (le_of_eq ?_) hostop)
    · simp only [GemmConfig.product, GemmConfig.prefillPv]
      split <;> decide
    · rw [Operand.last_normal rfl]
      simp only [GemmConfig.product, GemmConfig.prefillPv, Int.toNat_natCast, CudaDataType.bytes]
      rfl

end

/-! ## the forwards -/

section
variable {x : DeviceBuffers} {o : EngineOptions} {eosTokenIds : List Int} (hx : x.Carved o eosTokenIds)
include hx

omit hx in
theorem weight_within {offset bytes : Int} (h0 : 0 ≤ offset)
    (h : offset + bytes ≤ x.layout.totalBytes) :
    (Extent.mk (x.weight offset) bytes).Within x.weightsExtent := by
  unfold Extent.Within Extent.Holds Extent.stop weightsExtent weight
  dsimp only
  omega

/-- the sizes of the weights slab, and where a layer starts in it -/
theorem Carved.weights_layout {layer : Nat} (hlayer : layer < 28) :
    (x.layerWeights layer = layerAt (466747392 + 93595648 * layer)) ∧
      466747392 + 93595648 * 28 + 3072 ≤ x.layout.totalBytes ∧
        0 ≤ x.layout.lmHead ∧ x.layout.lmHead + 466747392 ≤ x.layout.totalBytes := by
  have hplace : x.layerWeights layer = layerAt ((embedBytes : Int) + (layerBytes * layer : Nat)) :=
    layers_getD hx.design x.hasLmHead hlayer
  have hlayout := weightsLayout_eq hx.design x.hasLmHead
  have htotal : x.layout.totalBytes = embedBytes + (layerBytes * 28 : Nat) + normBytes +
      if x.hasLmHead then (embedBytes : Int) else 0 := congrArg WeightsLayout.totalBytes hlayout
  have hhead : x.layout.lmHead = if x.hasLmHead then (embedBytes : Int) +
      (layerBytes * 28 : Nat) + normBytes else 0 :=
    congrArg WeightsLayout.lmHead hlayout
  unfold embedBytes layerBytes at hplace
  unfold embedBytes layerBytes normBytes at htotal hhead
  refine ⟨hplace.trans (by push_cast; rfl), ?_⟩
  rw [htotal, hhead]
  split <;> omega

/-- the matrix of a product, and the bias of a layer, are in their slab -/
theorem Carved.matrix_within {layer : Nat} (hlayer : layer < 28) (which : Gemm) :
    (x.matrixExtent layer which).Within (x.matrixSlab which) ∧
    (x.biasExtent layer).Within x.weightsExtent := by
  obtain ⟨hhidden, hinter, hvocab, _, hqkv, hgateup, _⟩ := hx.sizes
  obtain ⟨hplace, htotal, hhead⟩ := hx.weights_layout hlayer
  have hbias : (x.biasExtent layer).Within x.weightsExtent := by
    unfold biasExtent
    rw [hplace, hqkv]
    exact weight_within (by dsimp only [layerAt]; omega) (by dsimp only [layerAt]; omega)
  refine ⟨?_, hbias⟩
  unfold matrixExtent matrixSlab
  rw [hplace, hhidden, hinter, hvocab, hqkv, hgateup]
  cases which with
  | scores => exact hx.extent_within _
  | pv => exact hx.extent_within _
  | lmHead => exact weight_within (by omega) (by omega)
  | _ => exact weight_within (by dsimp only [layerAt]; omega) (by dsimp only [layerAt]; omega)

/-! ## the forwards -/

section
variable {rows : Nat} (hrows : rows ≤ max o.prefillChunkTokens o.maxBatch)
include hrows

/-- `rows` rows of a buffer, of which a product uses `used` columns of `width` -/
theorem Carved.rows_fit (region : ScratchRegion) {used width : Nat} (hused : used ≤ width)
    (hregion : regionBytes o region = 2 * width * max o.prefillChunkTokens o.maxBatch) :
    (x.extent region).start ≤ x.slabAt region ∧
      x.slabAt region + (used + (rows - 1 : Int) * width) * 2 ≤ (x.extent region).stop := by
  obtain ⟨hstart, hstop⟩ := hx.slabAt_stop region
  have hall : (rows : Int) * width ≤ max o.prefillChunkTokens o.maxBatch * width :=
    mul_le_mul_of_nonneg_right hrows (by omega)
  rw [hstart, hstop, hregion]
  exact ⟨le_refl _, by linarith⟩

theorem Carved.layerCalls_confined {layer : Nat} {attention : List (Gemm × GemmCall)}
    (hattention : ∀ p ∈ attention, x.Confined layer p.1 p.2) :
    ∀ p ∈ x.layerCalls rows layer attention, x.Confined layer p.1 p.2 := by
  obtain ⟨hhidden, hinter, hvocab, _, hqkv, hgateup, _⟩ := hx.sizes
  have hnormed := hx.rows_fit hrows .normed (le_refl 1536) (by simp only [regionBytes]; norm_num)
  have hqkvOut := hx.rows_fit hrows .qkv (le_refl 2048) (by simp only [regionBytes]; norm_num)
  have hattn := hx.rows_fit hrows .attnOut (le_refl 1536) (by simp only [regionBytes]; norm_num)
  have hmlp := hx.rows_fit hrows .mlpOut (le_refl 1536) (by simp only [regionBytes]; norm_num)
  have hgate :=
    hx.rows_fit hrows .gateup (show 8960 ≤ 17920 by decide) (by simp only [regionBytes]; norm_num)
  have hfull := hx.rows_fit hrows .gateup (le_refl 17920) (by simp only [regionBytes]; norm_num)
  have hlinear : ∀ {which : Gemm} {call : GemmCall},
      call.Inside (x.matrixExtent layer which) (x.extent which.actRegion)
      (x.extent which.outRegion) → call.entry = .fp16 → x.Confined layer which call :=
        fun hinside hentry =>
    ⟨hinside, fun p hp => by rw [hentry] at hp; cases hp⟩
  intro p hp
  unfold layerCalls at hp
  simp only [List.cons_append, List.mem_cons, List.mem_append, List.not_mem_nil, or_false] at hp
  rcases hp with rfl | hp | rfl | rfl | rfl
  · refine ⟨inside_linear rows 2048 1536 1536 2048 .kBias ?_ ⟨rfl, ?_⟩ hnormed hqkvOut, fun p hp => ?_⟩
    · show GemmConfig.linear _ _ _ _ _ _ = _
      rw [hqkv, hhidden]
    · show x.qkvWidth * x.config.hiddenSize * 2 = _
      rw [hqkv, hhidden]
    · obtain rfl := GemmEntry.biasFp16.inj hp
      exact ⟨le_refl _, le_refl _⟩
  · exact hattention p hp
  · refine hlinear (inside_linear rows 1536 1536 1536 1536 .kNone ?_ ⟨rfl, ?_⟩ hattn hmlp) rfl
    · show GemmConfig.linear _ _ _ _ _ _ = _
      rw [hhidden]
    · show x.config.hiddenSize * x.config.hiddenSize * 2 = _
      rw [hhidden]
  · refine hlinear (inside_linear rows 17920 1536 1536 17920 .kNone ?_ ⟨rfl, ?_⟩ hnormed hfull) rfl
    · show GemmConfig.linear _ _ _ _ _ _ = _
      rw [hgateup, hhidden]
    · show x.gateupWidth * x.config.hiddenSize * 2 = _
      rw [hgateup, hhidden]
  · refine hlinear (inside_linear rows 1536 8960 17920 1536 .kNone ?_ ⟨rfl, ?_⟩ hgate hmlp) rfl
    · show GemmConfig.linear _ _ _ _ _ _ = _
      rw [hgateup, hhidden, hinter]
    · show x.config.hiddenSize * x.config.intermediateSize * 2 = _
      rw [hhidden, hinter]

end

/-- the head of `rows` rows, from row `first` of the normed buffer on -/
theorem Carved.lmHeadCall_confined (layer rows first : Nat) (hbatch : rows ≤ o.maxBatch)
    (hrows : first + rows ≤ max o.prefillChunkTokens o.maxBatch) :
    x.Confined layer .lmHead (x.lmHeadCall rows (first * x.config.hiddenSize)) := by
  obtain ⟨hhidden, hinter, hvocab, _, hqkv, hgateup, _⟩ := hx.sizes
  obtain ⟨hnstart, hnstop⟩ := hx.slabAt_stop .normed
  obtain ⟨hlstart, hlstop⟩ := hx.slabAt_stop .logits
  refine ⟨inside_linear rows 151936 1536 1536 151936 .kNone ?_ ⟨rfl, ?_⟩ ?_ ?_, fun p hp => by cases hp⟩
  · show GemmConfig.linear _ _ _ _ _ _ = _
    rw [hhidden, hvocab]
  · show x.config.vocabSize * x.config.hiddenSize * 2 = _
    rw [hhidden, hvocab]
  · show (x.extent .normed).start ≤ x.slabAt .normed + first * x.config.hiddenSize * 2 ∧
      x.slabAt .normed + first * x.config.hiddenSize * 2 + _ ≤ (x.extent .normed).stop
    rw [hnstart, hnstop, hhidden]
    simp only [regionBytes]
    omega
  · show (x.extent .logits).start ≤ x.slabAt .logits ∧ x.slabAt .logits + _ ≤ (x.extent .logits).stop
    rw [hlstart, hlstop]
    simp only [regionBytes]
    omega

section
variable {rows ctx : Nat} (hrows : rows ≤ o.prefillChunkTokens) (hctx : ctx ≤ o.maxSeqLen)
include hrows hctx

/-- one call for each KV head, or one for each query head -/
theorem Carved.prefillAttentionCalls_confined (layer : Nat) (mode : PrefillGemmMode) :
    ∀ p ∈ x.prefillAttentionCalls rows ctx mode, x.Confined layer p.1 p.2 := by
  obtain ⟨_, _, _, _, _, _, hgroup⟩ := hx.sizes
  have hheads : x.config.numKvHeads.toNat = 2 ∧ x.config.numQHeads.toNat = 12 := by
    rw [hx.config]
    exact ⟨rfl, rfl⟩
  have hperHead : ∀ {which : Gemm} {call : Int → Int → Int → GemmCall},
      (∀ {k h g : Nat}, 0 < k → h + k ≤ 12 → g < 2 → x.Confined layer which (call k h g)) →
      ∀ c ∈ x.perHead call mode, x.Confined layer which c := by
    intro which call hcall c hc
    unfold perHead at hc
    cases mode with
    | kStridedBatched =>
      obtain ⟨g, hg, rfl⟩ := List.mem_map.mp hc
      rw [hheads.1, List.mem_range] at hg
      rw [hgroup]
      exact hcall (k := 6) (h := g * 6) (by decide) (by omega) hg
    | kPerHead =>
      obtain ⟨h, hh, rfl⟩ := List.mem_map.mp hc
      rw [hheads.2, List.mem_range] at hh
      rw [hgroup]
      have hdiv : (h : Int).tdiv (6 : Nat) = (h / 6 : Nat) :=
        Int.tdiv_eq_ediv_of_nonneg (Int.natCast_nonneg _)
      rw [hdiv]
      exact hcall (k := 1) (by decide) (by omega) (by omega)
  intro p hp
  unfold prefillAttentionCalls at hp
  rcases List.mem_append.mp hp with hp | hp
  · obtain ⟨c, hc, rfl⟩ := List.mem_map.mp hp
    exact hperHead (fun hk hh hg => ⟨hx.scores_inside hrows hctx hk hh hg,
      fun p hp => by cases hp⟩) c hc
  · obtain ⟨c, hc, rfl⟩ := List.mem_map.mp hp
    exact hperHead (fun hk hh hg => ⟨hx.pv_inside hrows hctx hk hh hg, fun p hp => by cases hp⟩) c hc

end

/-! ## the rest of the prefill attention -/

section
variable {K : Type*} {rows ctx : Nat} (hctx : ctx ≤ o.maxSeqLen)
include hctx

/-- the stores of the gather into one of its buffers -/
theorem Carved.gather_confined (region : ScratchRegion)
    (hregion : regionBytes o region = 512 * o.maxSeqLen)
    (khat vhat : GatherBuffer) {buffer : GatherBuffer} (hkv : buffer.kv < 2)
    (hhead : buffer.headStride = x.gatherPlaneStride) (hrow : buffer.rowStride = x.config.headDim)
    (pointersAligned : Bool) (pool : Int → K) (blockTableRow : Nat → Int) :
    ∀ w ∈ launchKvGather khat vhat buffer pointersAligned pool blockTableRow ctx x.config.numKvHeads.toNat
      x.config.headDim.toNat, (x.extent region).Holds (x.slabAt region + w.1 * 2) 2 := by
  obtain ⟨_, _, _, hdim, _, _, _⟩ := hx.sizes
  have hkvHeads : x.config.numKvHeads.toNat = 2 := by
    rw [hx.config]
    rfl
  have hplane : x.gatherPlaneStride = o.maxSeqLen * 128 := by
    unfold gatherPlaneStride
    rw [hdim, hx.options]
    rfl
  obtain ⟨hstart, hstop⟩ := hx.slabAt_stop region
  intro w hw
  obtain ⟨hp, hdvd, hstores⟩ :=
    launchKvGather_stores khat vhat buffer pointersAligned pool blockTableRow ctx
    x.config.numKvHeads.toNat x.config.headDim.toNat
  rw [hstores] at hw
  obtain ⟨h, hh, t, ht, d, hd, rfl⟩ := mem_gatherMoves.mp ((perm_gatherStores hdvd hkv).mem_iff.mp hw)
  rw [hkvHeads] at hh
  rw [hdim, Int.toNat_natCast] at hd
  have h0 : 0 ≤ (h : Int) * o.maxSeqLen := mul_nonneg (by omega) (by omega)
  have h1 : (h : Int) * o.maxSeqLen ≤ 1 * o.maxSeqLen :=
    mul_le_mul_of_nonneg_right (by omega) (by omega)
  unfold Extent.Holds
  rw [hstart, hstop, hregion, hhead, hrow, hplane, hdim, ← mul_assoc]
  push_cast
  omega

/-- the stores of the softmax, and the scores that it reads at the same indices -/
theorem Carved.softmax_confined [Field K] [LinearOrder K] (hrows : rows ≤ o.prefillChunkTokens)
    (math : DeviceMath K) (scores : Int → K) (chunkStart : Nat) :
    ∀ w ∈ launchPrefillSoftmax math scores x.config.numQHeads.toNat rows ctx chunkStart,
      (x.extent .probs).Holds (x.slabAt .probs + w.1 * 2) 2 ∧
        (x.extent .scores).Holds (x.slabAt .scores + w.1 * 4) 4 := by
  have hheads : x.config.numQHeads.toNat = 12 := by
    rw [hx.config]
    rfl
  obtain ⟨hpstart, hpstop⟩ := hx.slabAt_stop .probs
  obtain ⟨hsstart, hsstop⟩ := hx.slabAt_stop .scores
  intro w hw
  unfold launchPrefillSoftmax at hw
  obtain ⟨⟨head, row⟩, hblock, hw⟩ := List.mem_flatMap.mp hw
  obtain ⟨hhead, hrow⟩ := List.pair_mem_product.mp hblock
  rw [hheads, List.mem_range] at hhead
  rw [List.mem_range] at hrow
  obtain ⟨j, hj, rfl⟩ := (mem_prefillSoftmaxBlock math).mp hw
  have hindex : (((head * rows + row) * ctx + j : Nat) : Int) + 1
      ≤ 12 * (o.prefillChunkTokens * o.maxSeqLen) := by
    have hplane : (rows * ctx : Int) ≤ o.prefillChunkTokens * o.maxSeqLen :=
      mul_le_mul hrows hctx (by omega) (by omega)
    have hlast : (head * rows + row) * ctx + j < 12 * rows * ctx :=
      Stores.row_lt hj (Stores.row_lt hrow hhead)
    have hlast : (((head * rows + row) * ctx + j : Nat) : Int) + 1 ≤ 12 * rows * ctx := by
      exact_mod_cast hlast
    linarith
  unfold Extent.Holds
  rw [hpstart, hpstop, hsstart, hsstop]
  simp only [regionBytes]
  omega

end

/-! ## every forward -/

/-- the calls of a forward within the capacities: a decode forward, a prefill chunk or the layer-0 dump -/
inductive WithinCapacity (x : DeviceBuffers) (o : EngineOptions) (which : Gemm)
    (call : GemmCall) : Prop where
  | decode (rows : Nat) (hrows : rows ≤ o.maxBatch) (h : (which, call) ∈ x.decodeForwardCalls rows)
  | prefill (rows ctx : Nat) (hpos : 0 < rows) (hrows : rows ≤ o.prefillChunkTokens)
      (hctx : ctx ≤ o.maxSeqLen)
      (finalChunk : Bool) (mode : PrefillGemmMode)
        (h : (which, call) ∈ x.prefillForwardCalls rows ctx finalChunk mode)
  | dump (rows ctx : Nat) (hrows : rows ≤ o.prefillChunkTokens) (hctx : ctx ≤ o.maxSeqLen)
      (mode : PrefillGemmMode)
      (h : (which, call) ∈ x.dumpCalls rows ctx mode)

/-- **The operands of every product of a forward** are in their regions. -/
theorem Carved.forward_confined {which : Gemm} {call : GemmCall} (h : x.WithinCapacity o which call) :
    ∃ layer < 28, x.Confined layer which call := by
  have hmax := le_max_left o.prefillChunkTokens o.maxBatch
  have hmax' := le_max_right o.prefillChunkTokens o.maxBatch
  have hlayer : ∀ {layer : Nat}, layer ∈ List.range x.config.numLayers.toNat → layer < 28 := by
    intro layer h
    rw [show x.config.numLayers = 28 from hx.design.layers] at h
    exact List.mem_range.mp h
  rcases h with ⟨rows, hrows, h⟩ | ⟨rows, ctx, hpos, hrows, hctx, finalChunk, mode, h⟩ |
    ⟨rows, ctx, hrows, hctx, mode, h⟩
  · rcases List.mem_append.mp h with h | h
    · obtain ⟨layer, hrange, h⟩ := List.mem_flatMap.mp h
      exact ⟨layer, hlayer hrange, hx.layerCalls_confined (hrows.trans hmax') (List.forall_mem_nil _) _ h⟩
    · obtain ⟨rfl, rfl⟩ := Prod.mk.inj (List.mem_singleton.mp h)
      have hhead := hx.lmHeadCall_confined 0 rows 0 hrows (by omega)
      rw [Nat.cast_zero, zero_mul] at hhead
      exact ⟨0, by decide, hhead⟩
  · rcases List.mem_append.mp h with h | h
    · obtain ⟨layer, hrange, h⟩ := List.mem_flatMap.mp h
      exact ⟨layer, hlayer hrange,
        hx.layerCalls_confined (hrows.trans hmax)
          (hx.prefillAttentionCalls_confined hrows hctx layer mode) _ h⟩
    · cases finalChunk with
      | false => exact absurd h List.not_mem_nil
      | true =>
        obtain ⟨rfl, rfl⟩ := Prod.mk.inj (List.mem_singleton.mp h)
        have hhead := hx.lmHeadCall_confined 0 1 (rows - 1) hx.sized.maxBatch.1 (by omega)
        rw [Nat.cast_sub hpos, Nat.cast_one] at hhead
        exact ⟨0, by decide, hhead⟩
  · exact ⟨0, by decide,
      hx.layerCalls_confined (hrows.trans hmax)
        (hx.prefillAttentionCalls_confined hrows hctx 0 mode) _ h⟩

end

end DeviceBuffers
end Redline
