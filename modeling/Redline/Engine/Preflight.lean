import Redline.Core.Budget
import Redline.Engine.Ceiling
import Mathlib.Tactic.Linarith
import Mathlib.Tactic.NormNum

/-!
# Where the budget arithmetic is exact

For the pinned geometry two results can leave their type: the 32-bit round-up of `BlocksForTokens`,
from `max_seq_len = 2^31 - 15` on, and the 64-bit byte counts once the score buffers are large.

* `requiredTotal`        the total of the preflight as a formula of the options;
* `counts_exact_iff`     every count is exact exactly if the round-up and that total are in range;
* `wrapped_preflight`    a configuration of 83 million TB that the preflight lets through.
-/

namespace Redline
open Wrap

/-- the options are the `int32_t` that the source declares -/
structure EngineOptions.Fits32 (o : EngineOptions) : Prop where
  maxBatch : o.maxBatch < 2 ^ 31
  maxSeqLen : o.maxSeqLen < 2 ^ 31
  prefillChunkTokens : o.prefillChunkTokens < 2 ^ 31

/-- what the constructor and `ValidateGeometry` check -/
structure EngineOptions.Accepted (c : ModelConfig) (o : EngineOptions) : Prop where
  kvPoolGb : 0 < o.kvPoolGb ∧ o.kvPoolGb ≤ 1024
  geometry : validateGeometry c (makeExecutorOptions o) = .ok ()

/-- `bytes` rounded up to the alignment of a slab -/
def roundUp256 (bytes : Int) : Int := (bytes + 255) / 256 * 256

/-- the scratch slab: twelve kinds of regions, each rounded up -/
def scratchTotal (o : EngineOptions) : Int :=
  let rows := max o.prefillChunkTokens o.maxBatch
  let scores := o.prefillChunkTokens * o.maxSeqLen
  let tables := o.maxBatch * ((o.maxSeqLen + 15) / 16)
  4 * roundUp256 (3072 * rows) + roundUp256 (4096 * rows) + roundUp256 (35840 * rows) +
    roundUp256 (303872 * o.maxBatch) + roundUp256 (48 * scores) + roundUp256 (24 * scores) +
    2 * roundUp256 (512 * o.maxSeqLen) + 2 * roundUp256 (4 * rows) + 2 * roundUp256 (4 * o.maxBatch) +
    roundUp256 (4 * tables)

/-- the device bytes of a configuration: weights, KV pool, scratch, workspace, graphs and context -/
def requiredTotal (o : EngineOptions) (hasLmHead : Bool) : Int :=
  (if hasLmHead then 3554176000 else 3087428608) + ⌊o.kvPoolGb * 2 ^ 30⌋ / 458752 * 458752 + scratchTotal o +
    32 * 2 ^ 20 + (if o.enableCudaGraphs then ((makeDecodeBuckets o.maxBatch.toNat).length : Int) * (16 * 2 ^ 20)
      else 0) +
    512 * 2 ^ 20

/-- every count that the code computes has its mathematical value -/
structure CountsExact (c : ModelConfig) (o : EngineOptions) (hasLmHead : Bool) : Prop where
  blocks : (makeExecutorOptions o).maxBlocksPerSeq machine
    = (makeExecutorOptions o).maxBlocksPerSeq exact
  scratch : computeScratchLayout machine c (makeExecutorOptions o) = computeScratchLayout exact c
    (makeExecutorOptions o)
  pinned : computePinnedLayout machine c (makeExecutorOptions o) = computePinnedLayout exact c
    (makeExecutorOptions o)
  counts : budgetCounts machine c (makeExecutorOptions o) = budgetCounts exact c (makeExecutorOptions o)
  budget : memoryBudget machine c (makeExecutorOptions o) = memoryBudget exact c (makeExecutorOptions o)
  required : requiredBytes machine c o hasLmHead = requiredBytes exact c o hasLmHead

/-! ## the options -/

section
variable {c : ModelConfig} {o : EngineOptions}

/-- the bounds of accepted options -/
structure Sized (o : EngineOptions) : Prop where
  maxBatch : 1 ≤ o.maxBatch ∧ o.maxBatch < 2 ^ 31
  maxSeqLen : 1 ≤ o.maxSeqLen ∧ o.maxSeqLen < 2 ^ 31
  chunk : 1 ≤ o.prefillChunkTokens ∧ o.prefillChunkTokens < 2 ^ 31
  kvPool : 0 ≤ ⌊o.kvPoolGb * 2 ^ 30⌋ ∧ ⌊o.kvPoolGb * 2 ^ 30⌋ ≤ 2 ^ 40

theorem EngineOptions.Accepted.sized (h : o.Accepted c) (h32 : o.Fits32) : Sized o := by
  have hall := geometry_of_ok h.geometry
  have h1 : 1 ≤ o.maxBatch := of_decide_eq_true (hall (_, _)
    (by simp only [geometryChecks]; exact .tail _ (.tail _ (.tail _ (.head _)))))
  have h2 : 1 ≤ o.maxSeqLen := of_decide_eq_true (hall (_, _)
    (by simp only [geometryChecks]; exact .tail _ (.tail _ (.tail _ (.tail _ (.head _))))))
  have h3 : 1 ≤ o.prefillChunkTokens := of_decide_eq_true (hall (_, _)
    (by simp only [geometryChecks]; exact .tail _ (.tail _ (.tail _ (.tail _ (.tail _ (.head _)))))))
  have hfloor : ⌊o.kvPoolGb * 2 ^ 30⌋ ≤ 2 ^ 40 := by
    have hle : ((⌊o.kvPoolGb * 2 ^ 30⌋ : Int) : ℚ) ≤ ((2 ^ 40 : Int) : ℚ) := by
      refine (Int.floor_le _).trans ?_
      have := h.kvPoolGb.2
      push_cast
      linarith
    exact_mod_cast hle
  refine ⟨⟨h1, h32.maxBatch⟩, ⟨h2, h32.maxSeqLen⟩, ⟨h3, h32.prefillChunkTokens⟩, ?_, hfloor⟩
  have := h.kvPoolGb.1
  exact Int.floor_nonneg.mpr (by positivity)

end

/-! ## the round-up -/

theorem blocksForTokens32_exact {n : Int} (h : 1 ≤ n) : blocksForTokens32 exact n = (n + 15) / 16 := by
  unfold blocksForTokens32
  simp only [exact_int32]
  rw [Int.tdiv_eq_ediv_of_nonneg (by omega)]
  omega

theorem int32_eq (x : Int) : machine.int32 x
    = if x % 4294967296 < 2147483648 then x % 4294967296 else x % 4294967296 - 4294967296 := rfl

/-- the numerator wraps from `2^31 - 15` on -/
theorem roundUp_int32 {n : Int} (h1 : 1 ≤ n) (h : n < 2 ^ 31) :
    machine.int32 (machine.int32 (n + 16) - 1) = if n
      ≤ 2 ^ 31 - 16 then n + 15 else n + 15 - 2 ^ 32 := by
  rw [int32_eq, int32_eq]
  split <;> split <;> split <;> omega

theorem blocksForTokens32_iff {n : Int} (h1 : 1 ≤ n) (h : n < 2 ^ 31) :
    blocksForTokens32 machine n = blocksForTokens32 exact n ↔ n ≤ 2 ^ 31 - 16 := by
  rw [blocksForTokens32_exact h1]
  unfold blocksForTokens32
  rw [roundUp_int32 h1 h]
  by_cases hle : n ≤ 2 ^ 31 - 16
  · rw [if_pos hle, Int.tdiv_eq_ediv_of_nonneg (by omega)]
    exact iff_of_true rfl hle
  · rw [if_neg hle]
    refine iff_of_false (fun heq => ?_) hle
    have hneg : 0 ≤ (-(n + 15 - 2 ^ 32)).tdiv 16 := Int.tdiv_nonneg (by omega) (by omega)
    rw [Int.neg_tdiv] at hneg
    omega

/-! ## the regions -/

section
variable {o : EngineOptions} {eosTokenIds : List Int}

/-- the pinned geometry -/
def pinnedGeometry (eosTokenIds : List Int) : ModelConfig :=
  (CheckpointConfig.pinned eosTokenIds).toModelConfig

/-- the bytes of a region, for the pinned geometry -/
def regionBytes (o : EngineOptions) : ScratchRegion → Int
  | .x | .normed | .attnOut | .mlpOut => 3072 * max o.prefillChunkTokens o.maxBatch
  | .qkv => 4096 * max o.prefillChunkTokens o.maxBatch
  | .gateup => 35840 * max o.prefillChunkTokens o.maxBatch
  | .logits => 303872 * o.maxBatch
  | .scores => 48 * (o.prefillChunkTokens * o.maxSeqLen)
  | .probs => 24 * (o.prefillChunkTokens * o.maxSeqLen)
  | .khat | .vhat => 512 * o.maxSeqLen
  | .inputIds | .positions => 4 * max o.prefillChunkTokens o.maxBatch
  | .seqLens | .argmax => 4 * o.maxBatch
  | .blockTables => 4 * (o.maxBatch * ((o.maxSeqLen + 15) / 16))

theorem scratchBytes_exact (h : Sized o) (region : ScratchRegion) :
    scratchBytes exact (pinnedGeometry eosTokenIds) (makeExecutorOptions o) region
      = regionBytes o region := by
  have hblocks : (makeExecutorOptions o).maxBlocksPerSeq exact = (o.maxSeqLen + 15) / 16 :=
    blocksForTokens32_exact h.maxSeqLen.1
  unfold scratchBytes regionBytes pinnedGeometry CheckpointConfig.pinned
  rw [hblocks]
  cases region <;> simp only [exact_int64, exact_int32, makeExecutorOptions] <;> ring

/-- a product of three factors, two of them in front -/
theorem machine_mul {x k : Int} (h0 : 0 ≤ x) (hk : 1 ≤ k) (h : x * k < 2 ^ 63) :
    machine.int64 (machine.int64 x * k) = x * k := by
  have hx : x ≤ x * k := le_mul_of_one_le_right h0 hk
  rw [machine_int64 h0 (by omega), machine_int64 (by positivity) h]

theorem scratchBytes_machine (h : Sized o) (hseq : o.maxSeqLen ≤ 2 ^ 31 - 16)
    (hscores : 48 * (o.prefillChunkTokens * o.maxSeqLen) < 2 ^ 63) (region : ScratchRegion) :
    scratchBytes machine (pinnedGeometry eosTokenIds) (makeExecutorOptions o) region
      = regionBytes o region := by
  obtain ⟨hb1, hb2⟩ := h.maxBatch
  obtain ⟨hl1, hl2⟩ := h.maxSeqLen
  obtain ⟨hp1, hp2⟩ := h.chunk
  have hblocks : (makeExecutorOptions o).maxBlocksPerSeq machine = (o.maxSeqLen + 15) / 16 := by
    show blocksForTokens32 machine o.maxSeqLen = _
    rw [(blocksForTokens32_iff hl1 hl2).mpr hseq]
    exact blocksForTokens32_exact hl1
  have hqkv : machine.int64 (machine.int64 (12 + machine.int32 (2 * 2)) * 128) = 2048 := by
    decide
  have hgateup : machine.int64 (2 * 8960) = 17920 := by decide
  have hrows : 1 ≤ max o.prefillChunkTokens o.maxBatch ∧
    max o.prefillChunkTokens o.maxBatch < 2 ^ 31 := by omega
  have htables : 0 ≤ o.maxBatch * ((o.maxSeqLen + 15) / 16) ∧
      o.maxBatch * ((o.maxSeqLen + 15) / 16) < 2 ^ 58 := by
    have hw : (o.maxSeqLen + 15) / 16 < 2 ^ 27 := by omega
    have hw0 : 0 ≤ (o.maxSeqLen + 15) / 16 := by omega
    exact ⟨by positivity, by nlinarith⟩
  have hscore : machine.int64 (machine.int64 (12 * o.prefillChunkTokens) * o.maxSeqLen)
      = 12 * (o.prefillChunkTokens * o.maxSeqLen) := by
    rw [machine_mul (by omega) hl1 (by linarith), mul_assoc]
  have hscore0 : 0 ≤ o.prefillChunkTokens * o.maxSeqLen := by positivity
  have hgather : machine.int64 (machine.int64 (2 * o.maxSeqLen) * 128) = 256 * o.maxSeqLen := by
    rw [machine_mul (by omega) (by decide) (by omega)]
    ring
  unfold scratchBytes regionBytes pinnedGeometry CheckpointConfig.pinned
  simp only [hblocks, hqkv, hgateup]
  cases region <;> simp only [makeExecutorOptions, hscore, hgather]
  case x | normed | attnOut | mlpOut | qkv | gateup | logits | blockTables =>
    rw [machine_mul (by omega) (by decide) (by omega)]
    ring
  case scores | probs | khat | vhat | inputIds | positions | seqLens | argmax =>
    rw [machine_int64 (by omega) (by omega)]
    ring

theorem regionBytes_nonneg (h : Sized o) (region : ScratchRegion) : 0 ≤ regionBytes o region := by
  obtain ⟨hb1, _⟩ := h.maxBatch
  obtain ⟨hl1, _⟩ := h.maxSeqLen
  obtain ⟨hp1, _⟩ := h.chunk
  have hscores : 0 ≤ o.prefillChunkTokens * o.maxSeqLen := by positivity
  have htables : 0 ≤ o.maxBatch * ((o.maxSeqLen + 15) / 16) := mul_nonneg (by omega) (by omega)
  cases region <;> simp only [regionBytes] <;> omega

theorem alignUp_region (h : Sized o) (region : ScratchRegion) :
    alignUp exact (regionBytes o region) 256 = roundUp256 (regionBytes o region) := by
  rw [alignUp_exact (by decide) (regionBytes_nonneg h region)]
  unfold roundUp256
  rw [add_sub_assoc]
  rfl

variable (eosTokenIds) in
theorem scratch_exact (h : Sized o) :
    (computeScratchLayout exact (pinnedGeometry eosTokenIds) (makeExecutorOptions o)).2
      = scratchTotal o := by
  have hmap : scratchRegions.map
      (scratchBytes exact (pinnedGeometry eosTokenIds) (makeExecutorOptions o))
      = scratchRegions.map (regionBytes o) :=
        List.map_congr_left fun region _ => scratchBytes_exact h region
  unfold computeScratchLayout
  have hup : scratchRegions.map ((fun bytes => alignUp exact bytes 256) ∘ regionBytes o)
      = scratchRegions.map fun region => roundUp256 (regionBytes o region) :=
    List.map_congr_left fun region _ => alignUp_region h region
  rw [hmap, takeAll_end, List.map_map, hup]
  unfold scratchRegions scratchTotal
  simp only [List.map_cons, List.map_nil, List.sum_cons, List.sum_nil, regionBytes]
  ring

/-- a slab whose end is in range -/
theorem layout_machine (h : Sized o) (hseq : o.maxSeqLen ≤ 2 ^ 31 - 16)
    (hscores : 48 * (o.prefillChunkTokens * o.maxSeqLen) < 2 ^ 63) {regions : List ScratchRegion}
    (hend : (takeAll exact 256 0 (regions.map
      (scratchBytes exact (pinnedGeometry eosTokenIds) (makeExecutorOptions o)))).2 + 256 < 2 ^ 63) :
    takeAll machine 256 0 (regions.map (scratchBytes machine (pinnedGeometry eosTokenIds) (makeExecutorOptions o)))
      = takeAll exact 256 0
        (regions.map (scratchBytes exact (pinnedGeometry eosTokenIds) (makeExecutorOptions o))) := by
  have hmap : regions.map (scratchBytes machine (pinnedGeometry eosTokenIds) (makeExecutorOptions o))
      = regions.map (scratchBytes exact (pinnedGeometry eosTokenIds) (makeExecutorOptions o)) :=
    List.map_congr_left fun region _ => by
      rw [scratchBytes_machine h hseq hscores, scratchBytes_exact h]
  rw [hmap]
  refine takeAll_machine (by decide) _ (le_refl 0) ?_ hend
  intro bytes hbytes
  obtain ⟨region, _, rfl⟩ := List.mem_map.mp hbytes
  rw [scratchBytes_exact h]
  exact regionBytes_nonneg h region

/-! ## the total -/

theorem totalWeightBytes_pinned (hasLmHead : Bool) :
    totalWeightBytes (pinnedGeometry eosTokenIds) hasLmHead
      = if hasLmHead then 3554176000 else 3087428608 := by
  have hfree : totalWeightBytes (pinnedGeometry eosTokenIds) hasLmHead
      = totalWeightBytes (pinnedGeometry []) hasLmHead := rfl
  rw [hfree]
  clear hfree
  revert hasLmHead
  decide +kernel

variable (eosTokenIds) in
theorem blockBytes_pinned :
    machine.int64 (16 * (pinnedGeometry eosTokenIds).kvBytesPerToken64 machine) = 458752 ∧
      exact.int64 (16 * (pinnedGeometry eosTokenIds).kvBytesPerToken64 exact) = 458752 := by
  constructor
  · show machine.int64 (16 * machine.int64 (machine.int64 (machine.int64 (machine.int64 (2 * 28) * 2) * 128) * 2)) = _
    decide
  · rfl

theorem buckets_le (n : Nat) : (makeDecodeBuckets n).length ≤ 8 := List.length_filter_le _ _

theorem graphBytes_machine (o : EngineOptions) : graphBytes machine o = graphBytes exact o := by
  unfold graphBytes kGraphBudgetPerBucketBytes
  have := buckets_le o.maxBatch.toNat
  rw [machine_int64 (by omega) (by omega)]
  rfl

theorem graphBytes_nonneg (o : EngineOptions) : 0 ≤ graphBytes exact o := by
  unfold graphBytes kGraphBudgetPerBucketBytes
  rw [exact_int64]
  split
  · positivity
  · exact le_refl 0

theorem weightTotal_nonneg (hasLmHead : Bool) :
    (0 : Int) ≤ if hasLmHead then 3554176000 else 3087428608 := by
  split <;> decide

theorem roundUp256_bounds {bytes : Int} (h : 0 ≤ bytes) :
    bytes ≤ roundUp256 bytes ∧ 0 ≤ roundUp256 bytes ∧ roundUp256 bytes < bytes + 256 := by
  unfold roundUp256
  omega

theorem scratchTotal_bounds (h : Sized o) :
    48 * (o.prefillChunkTokens * o.maxSeqLen) ≤ scratchTotal o ∧ 0 ≤ scratchTotal o := by
  have hregion : ∀ region, regionBytes o region ≤ roundUp256 (regionBytes o region) ∧
      0 ≤ roundUp256 (regionBytes o region) := fun region =>
    ⟨(roundUp256_bounds (regionBytes_nonneg h region)).1,
      (roundUp256_bounds (regionBytes_nonneg h region)).2.1⟩
  have hx := hregion .x
  have hqkv := hregion .qkv
  have hgateup := hregion .gateup
  have hlogits := hregion .logits
  have hscores := hregion .scores
  have hprobs := hregion .probs
  have hkhat := hregion .khat
  have hids := hregion .inputIds
  have hlens := hregion .seqLens
  have htables := hregion .blockTables
  simp only [regionBytes] at hx hqkv hgateup hlogits hscores hprobs hkhat hids hlens htables
  unfold scratchTotal
  simp only
  omega

/-- what a total in range says about its parts -/
theorem parts_of_total (h : Sized o) {hasLmHead : Bool} (htotal : requiredTotal o hasLmHead < 2 ^ 63) :
    48 * (o.prefillChunkTokens * o.maxSeqLen) < 2 ^ 63 ∧ scratchTotal o + 2 ^ 29 < 2 ^ 63 := by
  obtain ⟨hscores, hscratch⟩ := scratchTotal_bounds h
  have hkv := h.kvPool.1
  unfold requiredTotal at htotal
  have hweights := weightTotal_nonneg hasLmHead
  have hgraphs : (0 : Int) ≤ if o.enableCudaGraphs then
      ((makeDecodeBuckets o.maxBatch.toNat).length : Int) * (16 * 2 ^ 20) else 0 := graphBytes_nonneg o
  omega

theorem pinned_end (h : Sized o) :
    (computePinnedLayout exact (pinnedGeometry eosTokenIds) (makeExecutorOptions o)).2 + 256
      < 2 ^ 63 := by
  have hmap : pinnedRegions.map (scratchBytes exact (pinnedGeometry eosTokenIds) (makeExecutorOptions o))
      = pinnedRegions.map (regionBytes o) :=
        List.map_congr_left fun region _ => scratchBytes_exact h region
  have hup : pinnedRegions.map ((fun bytes => alignUp exact bytes 256) ∘ regionBytes o)
      = pinnedRegions.map fun region => roundUp256 (regionBytes o region) :=
    List.map_congr_left fun region _ => alignUp_region h region
  obtain ⟨hb1, hb2⟩ := h.maxBatch
  obtain ⟨hl1, hl2⟩ := h.maxSeqLen
  obtain ⟨hp1, hp2⟩ := h.chunk
  have htables : o.maxBatch * ((o.maxSeqLen + 15) / 16) < 2 ^ 59 := by
    have hw : (o.maxSeqLen + 15) / 16 < 2 ^ 28 := by omega
    have hw0 : 0 ≤ (o.maxSeqLen + 15) / 16 := by omega
    nlinarith
  have hregion : ∀ region, roundUp256 (regionBytes o region) < regionBytes o region + 256 :=
    fun region =>
    (roundUp256_bounds (regionBytes_nonneg h region)).2.2
  have hids := hregion .inputIds
  have hlens := hregion .seqLens
  have hblocks := hregion .blockTables
  unfold computePinnedLayout
  rw [hmap, takeAll_end, List.map_map, hup]
  unfold pinnedRegions
  simp only [List.map_cons, List.map_nil, List.sum_cons, List.sum_nil,
    regionBytes] at hids hlens hblocks ⊢
  omega

/-! ## exactness -/

theorem requiredBytes_exact (h : Sized o) (hasLmHead : Bool) :
    requiredBytes exact (pinnedGeometry eosTokenIds) o hasLmHead = requiredTotal o hasLmHead := by
  have hblock := (blockBytes_pinned eosTokenIds).2
  have hkv : (makeExecutorOptions o).kvPoolBytes.tdiv 458752 = ⌊o.kvPoolGb * 2 ^ 30⌋ / 458752 :=
    Int.tdiv_eq_ediv_of_nonneg h.kvPool.1
  unfold requiredBytes budgetCounts requiredTotal
  simp only [hblock, hkv, totalWeightBytes_pinned, exact_int64, scratch_exact eosTokenIds h, graphBytes,
    kGraphBudgetPerBucketBytes, kContextSlackBytes, kDefaultWorkspaceBytes]
  ring

/-- the sums of the budget and of the preflight, for a total in range -/
theorem sums_machine {pool scratch weights graphs : Int} (hpool : 0 ≤ pool) (hscratch : 0 ≤ scratch)
    (hweights : 0 ≤ weights) (hgraphs : 0 ≤ graphs)
    (htotal : weights + pool + scratch + kDefaultWorkspaceBytes + graphs + kContextSlackBytes < 2 ^ 63) :
    machine.int64 pool = pool ∧
    machine.int64 (machine.int64 (pool + scratch) + kDefaultWorkspaceBytes)
        = pool + scratch + kDefaultWorkspaceBytes ∧
    machine.int64 (machine.int64 (machine.int64 (weights + (pool + scratch + kDefaultWorkspaceBytes)) + graphs)
          + kContextSlackBytes)
        = weights + (pool + scratch + kDefaultWorkspaceBytes) + graphs + kContextSlackBytes := by
  have hworkspace : 0 ≤ kDefaultWorkspaceBytes := by decide
  have hslack : 0 ≤ kContextSlackBytes := by decide
  refine ⟨machine_int64 hpool (by omega), ?_, ?_⟩
  · rw [machine_int64 (x := pool + scratch) (by omega) (by omega), machine_int64 (by omega) (by omega)]
  · rw [machine_int64 (x := weights + _) (by omega) (by omega),
      machine_int64 (x := weights + _ + graphs) (by omega)
      (by omega), machine_int64 (by omega) (by omega)]

/-- the blocks of the pool -/
theorem poolBlocks_machine {bytes : Int} (h0 : 0 ≤ bytes) (h : bytes ≤ 2 ^ 40) :
    machine.int32 (bytes / 458752) = bytes / 458752 :=
  machine_int32 (by omega) (by omega)

variable (eosTokenIds) in
/-- the totals add up in range -/
theorem counts_of_total (h : Sized o) (hseq : o.maxSeqLen ≤ 2 ^ 31 - 16) {hasLmHead : Bool}
    (htotal : requiredTotal o hasLmHead < 2 ^ 63) :
    computeScratchLayout machine (pinnedGeometry eosTokenIds) (makeExecutorOptions o)
        = computeScratchLayout exact (pinnedGeometry eosTokenIds) (makeExecutorOptions o) ∧
    computePinnedLayout machine (pinnedGeometry eosTokenIds) (makeExecutorOptions o)
        = computePinnedLayout exact (pinnedGeometry eosTokenIds) (makeExecutorOptions o) ∧
    budgetCounts machine (pinnedGeometry eosTokenIds) (makeExecutorOptions o)
      = budgetCounts exact (pinnedGeometry eosTokenIds) (makeExecutorOptions o) ∧
    requiredBytes machine (pinnedGeometry eosTokenIds) o hasLmHead
      = requiredBytes exact (pinnedGeometry eosTokenIds) o hasLmHead := by
  obtain ⟨hscores, hscratch⟩ := parts_of_total h htotal
  have hscratch0 := (scratchTotal_bounds h).2
  obtain ⟨hkv0, hkv1⟩ := h.kvPool
  have hslab : computeScratchLayout machine (pinnedGeometry eosTokenIds) (makeExecutorOptions o)
      = computeScratchLayout exact (pinnedGeometry eosTokenIds) (makeExecutorOptions o) := by
    refine layout_machine h hseq hscores ?_
    have := scratch_exact eosTokenIds h
    unfold computeScratchLayout at this
    rw [this]
    omega
  have hpinned : computePinnedLayout machine (pinnedGeometry eosTokenIds) (makeExecutorOptions o)
      = computePinnedLayout exact (pinnedGeometry eosTokenIds) (makeExecutorOptions o) :=
    layout_machine h hseq hscores (pinned_end h)
  obtain ⟨hblock, hblock'⟩ := blockBytes_pinned eosTokenIds
  have hpoolBytes : (makeExecutorOptions o).kvPoolBytes = ⌊o.kvPoolGb * 2 ^ 30⌋ := rfl
  have hgraphs : graphBytes exact o = if o.enableCudaGraphs then
      ((makeDecodeBuckets o.maxBatch.toNat).length : Int) * (16 * 2 ^ 20) else 0 := rfl
  have hgraphs0 := graphBytes_nonneg o
  have hweights0 := weightTotal_nonneg hasLmHead
  unfold requiredTotal at htotal
  rw [← hgraphs] at htotal
  rw [← hpoolBytes] at hkv0 hkv1 htotal
  generalize hpool : (makeExecutorOptions o).kvPoolBytes = pool at *
  have hdiv : pool.tdiv 458752 = pool / 458752 := Int.tdiv_eq_ediv_of_nonneg hkv0
  obtain ⟨hround, hdevice, hrequired⟩ :=
    sums_machine (show 0 ≤ pool / 458752 * 458752 by omega) hscratch0
    hweights0 hgraphs0 htotal
  have hcounts : budgetCounts machine (pinnedGeometry eosTokenIds) (makeExecutorOptions o)
      = budgetCounts exact (pinnedGeometry eosTokenIds) (makeExecutorOptions o) := by
    unfold budgetCounts
    simp only [hblock, hblock', hpool, hdiv, hslab, hpinned, scratch_exact eosTokenIds h,
      exact_int64, exact_int32, poolBlocks_machine hkv0 hkv1, hround, hdevice]
  have htotalDevice : (budgetCounts exact (pinnedGeometry eosTokenIds) (makeExecutorOptions o)).totalDeviceBytes
      = pool / 458752 * 458752 + scratchTotal o + kDefaultWorkspaceBytes := by
    unfold budgetCounts
    simp only [hblock', hpool, hdiv, scratch_exact eosTokenIds h, exact_int64]
  refine ⟨hslab, hpinned, hcounts, ?_⟩
  unfold requiredBytes
  rw [hcounts, htotalDevice, totalWeightBytes_pinned, graphBytes_machine]
  exact hrequired

end

/-- **Where the counts are exact.** -/
theorem counts_exact_iff {lib : JsonLibrary} {cfg : List (String × JsonText)} {eosTokenIds : List Int}
    {c : CheckpointConfig} (hc : CheckpointConfig.fromJsonText lib cfg eosTokenIds = .ok c)
    {o : EngineOptions} (h32 : o.Fits32) (ho : o.Accepted c.toModelConfig) (hasLmHead : Bool) :
    (CountsExact c.toModelConfig o hasLmHead ∧ ∀ freeBytes,
      preflightOk machine c.toModelConfig o hasLmHead freeBytes →
        requiredTotal o hasLmHead ≤ freeBytes) ↔
      o.maxSeqLen ≤ 2 ^ 31 - 16 ∧ requiredTotal o hasLmHead < 2 ^ 63 := by
  obtain rfl := CheckpointConfig.fromJsonText_pinned hc
  have h := ho.sized h32
  have hexact : requiredBytes exact (CheckpointConfig.pinned eosTokenIds).toModelConfig o hasLmHead
      = requiredTotal o hasLmHead := requiredBytes_exact h hasLmHead
  constructor
  · rintro ⟨hcounts, _⟩
    refine ⟨(blocksForTokens32_iff h.maxSeqLen.1 h.maxSeqLen.2).mp hcounts.blocks, ?_⟩
    rw [← hexact, ← hcounts.required]
    exact wrap_lt 63 _
  · rintro ⟨hseq, htotal⟩
    obtain ⟨hslab, hpinned, hcounts, hrequired⟩ := counts_of_total eosTokenIds h hseq htotal
    refine ⟨⟨(blocksForTokens32_iff h.maxSeqLen.1 h.maxSeqLen.2).mpr hseq, hslab, hpinned, hcounts,
      ?_, hrequired⟩, ?_⟩
    · obtain ⟨hblock, hblock'⟩ := blockBytes_pinned eosTokenIds
      unfold pinnedGeometry at hblock hblock' hcounts
      unfold memoryBudget
      simp only [hblock, hblock', hcounts]
    · intro freeBytes hok
      have hfree : ¬ freeBytes < requiredBytes machine
          (CheckpointConfig.pinned eosTokenIds).toModelConfig o hasLmHead :=
        of_decide_eq_false (Bool.not_eq_true' _ ▸ hok)
      have hmachine : requiredBytes machine
        (CheckpointConfig.pinned eosTokenIds).toModelConfig o hasLmHead
          = requiredTotal o hasLmHead := hrequired.trans hexact
      omega

/-! ## a configuration that fits, and one that wraps -/

theorem makeExecutorOptions_oneGb (seq chunk : Int) :
    makeExecutorOptions { maxSeqLen := seq, prefillChunkTokens := chunk }
      = ⟨1073741824, 8, seq, chunk, true, 0, ""⟩ := by
  unfold makeExecutorOptions
  congr 1
  norm_num

theorem accepted_oneGb {seq chunk : Int} (hseq : 1 ≤ seq) (hchunk : 1 ≤ chunk) :
    EngineOptions.Accepted ceilingConfig { maxSeqLen := seq, prefillChunkTokens := chunk } where
  kvPoolGb := by
    show (0 : ℚ) < 1 ∧ (1 : ℚ) ≤ 1024
    norm_num
  geometry := by
    have hall : ∀ p ∈ geometryChecks ceilingConfig ⟨1073741824, 8, seq, chunk, true, 0, ""⟩,
        p.1 = true := by
      simp only [geometryChecks, List.forall_mem_cons, decide_eq_true_eq]
      exact ⟨by decide, by decide, by decide, by decide, hseq, hchunk, by decide, by decide,
        fun _ hp => absurd hp List.not_mem_nil⟩
    rw [makeExecutorOptions_oneGb]
    unfold validateGeometry
    rw [List.find?_eq_none.mpr fun p hp => by rw [hall p hp]; decide]

theorem requiredTotal_oneGb {seq chunk : Int} (hseq : 1 ≤ seq) (hchunk : 1 ≤ chunk)
    (h32 : EngineOptions.Fits32
    { maxSeqLen := seq, prefillChunkTokens := chunk }) (hasLmHead : Bool) :
    requiredTotal { maxSeqLen := seq, prefillChunkTokens := chunk } hasLmHead
      = requiredBytes exact ceilingConfig { maxSeqLen := seq, prefillChunkTokens := chunk } hasLmHead :=
  (requiredBytes_exact ((accepted_oneGb hseq hchunk).sized h32) hasLmHead).symm

theorem requiredBytes_oneGb (A : Arith) (seq chunk : Int) (hasLmHead : Bool) :
    requiredBytes A ceilingConfig { maxSeqLen := seq, prefillChunkTokens := chunk } hasLmHead
      = A.int64 (A.int64 (A.int64 (totalWeightBytes ceilingConfig hasLmHead +
          (budgetCounts A ceilingConfig ⟨1073741824, 8, seq, chunk, true, 0, ""⟩).totalDeviceBytes)
        + A.int64 (4 * kGraphBudgetPerBucketBytes)) + kContextSlackBytes) := by
  unfold requiredBytes
  rw [makeExecutorOptions_oneGb]
  rfl

theorem counts_exact_defaults :
    (({} : EngineOptions).maxSeqLen ≤ 2 ^ 31 - 16 ∧ requiredTotal {} false < 2 ^ 63) ∧
    CountsExact ceilingConfig {} false := by
  have hvalues : ({} : EngineOptions).maxSeqLen ≤ 2 ^ 31 - 16 ∧ requiredTotal {} false < 2 ^ 63 := by
    refine ⟨by decide, ?_⟩
    rw [show ({} : EngineOptions) = { maxSeqLen := 2048, prefillChunkTokens := 1024 } from rfl,
      requiredTotal_oneGb (by decide) (by decide) ⟨by decide, by decide, by decide⟩,
        requiredBytes_oneGb]
    decide +kernel
  exact ⟨hvalues, ((counts_exact_iff (ceilingCfg_accepted noJson) ⟨by decide, by decide, by decide⟩
    (accepted_oneGb (by decide) (by decide)) false).mpr hvalues).1⟩

def wrappedOptions : EngineOptions := { maxSeqLen := 2 ^ 30, prefillChunkTokens := 2 ^ 30 }

/-- nothing bounds the sequence length or the chunk: the total wraps to a negative number, and is let through
when no byte is free -/
theorem wrapped_preflight :
    CheckpointConfig.fromJsonText noJson ceilingCfg [151645, 151643] = .ok (.pinned [151645, 151643]) ∧
    wrappedOptions.Fits32 ∧ wrappedOptions.Accepted
      (CheckpointConfig.pinned [151645, 151643]).toModelConfig ∧
    requiredTotal wrappedOptions false = 83010405521835918848 ∧
    requiredBytes machine ceilingConfig wrappedOptions false = -9223314846711838976 ∧
    preflightOk machine ceilingConfig wrappedOptions false 0 = true ∧
    ¬ CountsExact ceilingConfig wrappedOptions false := by
  have h32 : wrappedOptions.Fits32 := ⟨by decide, by decide, by decide⟩
  have hexact : requiredBytes exact ceilingConfig wrappedOptions false = 83010405521835918848 := by
    unfold wrappedOptions
    rw [requiredBytes_oneGb]
    decide +kernel
  have hmachine : requiredBytes machine ceilingConfig wrappedOptions false = -9223314846711838976 := by
    unfold wrappedOptions
    rw [requiredBytes_oneGb]
    decide +kernel
  refine ⟨ceilingCfg_accepted noJson, h32, accepted_oneGb (by decide) (by decide), ?_, hmachine, ?_,
    fun h => ?_⟩
  · exact (requiredTotal_oneGb (by decide) (by decide) h32 false).trans hexact
  · unfold preflightOk
    rw [hmachine]
    rfl
  · have := h.required
    rw [hmachine, hexact] at this
    cases this

end Redline
