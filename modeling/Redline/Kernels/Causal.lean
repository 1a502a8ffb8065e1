import Redline.Kernels.Attention
import Mathlib.Analysis.Complex.Exponential
import Mathlib.Analysis.Real.Sqrt
import Mathlib.Tactic.Ring

/-!
# The composite is causal attention

Both forms of the products make the same stores to addresses that are told apart (`scoresStores_eq`,
`pvStores_eq`); the softmax kernel leaves the softmax of the live keys and exact zeros behind them
(`probs_at`).

`prefill_attention_causal`: together they are causal grouped-query attention over the cached keys and
values.
-/

namespace Redline
open Stores
variable {K : Type*}

/-! ## the geometry -/

/-- the fields of a valid geometry, as naturals -/
structure AttentionGeometry (x : AttentionFields K)
    (numKvHeads group headDim maxSeqLen : Nat) : Prop where
  kvHeads_eq : x.numKvHeads = numKvHeads
  qHeads_eq : x.numQHeads = (numKvHeads * group : Nat)
  hidden_eq : x.hiddenSize = (numKvHeads * group * headDim : Nat)
  perGroup_eq : x.headsPerGroup = group
  plane_eq : x.gatherPlaneStride = (maxSeqLen * headDim : Nat)
  headDim_eq : x.headDim = headDim
  group_pos : 0 < group
  headDim_pos : 0 < headDim

theorem attentionGeometry_of_valid {config : ModelConfig} {options : ExecutorOptions}
    (h : validateGeometry config options = .ok ()) (qkvWidth : Int) (attnScale : K) :
    ∃ numKvHeads group headDim, AttentionGeometry (attentionFields config options qkvWidth attnScale)
      numKvHeads group headDim options.maxSeqLen.toNat := by
  have hall := geometry_of_ok h
  unfold geometryChecks at hall
  simp only [List.forall_mem_cons, decide_eq_true_eq] at hall
  obtain ⟨⟨_, _, hq, hkv, hd, _, _⟩, hhidden, hgroup, _, hseq, _⟩ := hall
  obtain ⟨numKvHeads, hkv'⟩ := Int.eq_ofNat_of_zero_le hkv.le
  obtain ⟨headDim, hd'⟩ := Int.eq_ofNat_of_zero_le hd.le
  obtain ⟨group, hgroup'⟩ : ∃ group : Nat, config.numQHeads = numKvHeads * group := by
    have hdiv := Int.ediv_mul_cancel (Int.dvd_of_emod_eq_zero hgroup)
    have hnn : 0 ≤ config.numQHeads / config.numKvHeads := Int.ediv_nonneg hq.le hkv.le
    obtain ⟨group, hg⟩ := Int.eq_ofNat_of_zero_le hnn
    refine ⟨group, ?_⟩
    rw [← hdiv, hg, hkv', mul_comm]
  have hpos : 0 < group := by
    rcases Nat.eq_zero_or_pos group with rfl | hpos
    · rw [hgroup'] at hq
      simp at hq
    · exact hpos
  refine ⟨numKvHeads, group, headDim, hkv', ?_, ?_, ?_, ?_, hd', hpos, by omega⟩
  · show config.numQHeads = _
    rw [hgroup']
    push_cast
    rfl
  · show config.hiddenSize = _
    rw [← hhidden, hgroup', hd']
    push_cast
    rfl
  · show config.numQHeads.tdiv config.numKvHeads = _
    rw [hgroup', hkv', Int.mul_tdiv_cancel_left _ (by omega)]
  · show options.maxSeqLen * config.headDim = _
    rw [hd']
    push_cast
    rw [Int.toNat_of_nonneg (by omega)]

/-! ## the products -/

section
variable [Field K] (rows ctx headDim : Nat)

/-- two stores of weighted sums -/
theorem store_eq {a a' : Int} {alpha : K} {n : Nat} {f f' : Nat → K} (ha : a = a')
    (hf : ∀ c, f c = f' c) :
    (a, alpha * ∑ c ∈ Finset.range n, f c) = (a', alpha * ∑ c ∈ Finset.range n, f' c) := by
  rw [ha, funext hf]

/-- in a batch of one the strides do not matter -/
theorem stride_eq {z k : Nat} (hz : z < k) (n : Int) :
    (z : Int) * (if 1 < (k : Int) then n else 0) = z * n := by
  split
  · rfl
  · obtain rfl : z = 0 := by omega
    rw [Nat.cast_zero, Int.zero_mul, Int.zero_mul]

/-- one scores product over `k` heads -/
theorem prefillScores_stores (k : Nat) (qkvWidth a b d : Int) (khat qkv : Int → K) (alpha : K) :
    ((GemmConfig.prefillScores rows ctx headDim k qkvWidth).product a b d).stores khat qkv alpha =
      (List.range k ×ˢ List.range rows ×ˢ List.range ctx).map fun q =>
        (d + (q.1 * rows + q.2.1) * ctx + q.2.2, alpha * ∑ c ∈ Finset.range headDim,
          khat (a + q.2.2 * headDim + c) * qkv (b + q.2.1 * qkvWidth + q.1 * headDim + c)) := by
  refine List.map_congr_left fun q hq => ?_
  have hz : q.1 < k := List.mem_range.mp (List.mem_product.mp hq).1
  unfold StridedGemm.Product.value StridedGemm.Operand.index GemmConfig.product GemmConfig.prefillScores
  simp only [stride_eq hz, Int.toNat_natCast, decide_true, if_true, Bool.false_eq_true, if_false,
    reduceCtorEq, decide_false, Int.mul_zero, Int.add_zero]
  refine store_eq ?_ fun c => congrArg₂ (· * ·) (congrArg _ ?_) (congrArg _ ?_)
  all_goals ring

/-- one PV product over `k` heads -/
theorem prefillPv_stores (k : Nat) (hidden a b d : Int) (vhat probs : Int → K) (alpha : K) :
    ((GemmConfig.prefillPv rows ctx headDim k hidden).product a b d).stores vhat probs alpha =
      (List.range k ×ˢ List.range rows ×ˢ List.range headDim).map fun q =>
        (d + q.2.1 * hidden + q.1 * headDim + q.2.2, alpha * ∑ j ∈ Finset.range ctx,
          vhat (a + j * headDim + q.2.2) * probs (b + (q.1 * rows + q.2.1) * ctx + j)) := by
  refine List.map_congr_left fun q hq => ?_
  have hz : q.1 < k := List.mem_range.mp (List.mem_product.mp hq).1
  unfold StridedGemm.Product.value StridedGemm.Operand.index GemmConfig.product GemmConfig.prefillPv
  simp only [stride_eq hz, Int.toNat_natCast, Bool.false_eq_true, if_false, reduceCtorEq, decide_false,
    Int.mul_zero, Int.add_zero]
  refine store_eq ?_ fun c => congrArg₂ (· * ·) (congrArg _ ?_) (congrArg _ ?_)
  all_goals ring

end

section
variable {x : AttentionFields K} {numKvHeads group headDim maxSeqLen : Nat}
  (hx : AttentionGeometry x numKvHeads group headDim maxSeqLen) (rows ctx : Nat)
include hx

theorem group_div (g : Nat) {z : Nat} (hz : z < group) : (g * group + z) / group = g := by
  rw [Nat.mul_comm, Nat.mul_add_div hx.group_pos, Nat.div_eq_of_lt hz, Nat.add_zero]

variable [Field K]

/-- the stores of the scores, head after head, whatever the form of the products -/
theorem scoresStores_eq (mode : PrefillGemmMode) (khat qkv : Int → K) :
    scoresStores x rows ctx mode khat qkv =
      (List.range (numKvHeads * group) ×ˢ List.range rows ×ˢ List.range ctx).map fun q =>
        ((((q.1 * rows + q.2.1) * ctx + q.2.2 : Nat) : Int),
          x.attnScale * ∑ c ∈ Finset.range headDim,
            khat ((q.1 / group * (maxSeqLen * headDim) + q.2.2 * headDim + c : Nat))
              * qkv (q.2.1 * x.qkvWidth + q.1 * headDim + c)) := by
  have hone := prefillScores_stores (K := K) rows ctx headDim 1
  unfold scoresStores
  cases mode with
  | kStridedBatched =>
    simp only [hx.kvHeads_eq, hx.headDim_eq, hx.perGroup_eq, hx.plane_eq, Int.toNat_natCast,
      prefillScores_stores]
    refine flatMap_groups _ _ _ _ _ fun g z hz q _ => ?_
    rw [group_div hx g hz]
    refine store_eq ?_ fun c => congrArg₂ (· * ·) (congrArg _ ?_) (congrArg _ ?_)
    all_goals push_cast
    all_goals ring
  | kPerHead =>
    simp only [hx.qHeads_eq, hx.headDim_eq, hx.perGroup_eq, hx.plane_eq, Int.toNat_natCast,
      ← Int.ofNat_tdiv]
    rw [Nat.cast_one] at hone
    simp only [hone]
    refine (flatMap_groups _ 1 _ _ _ fun h z hz q _ => ?_).trans (by rw [Nat.mul_one])
    obtain rfl : z = 0 := by omega
    rw [Nat.mul_one, Nat.add_zero]
    refine store_eq ?_ fun c => congrArg₂ (· * ·) (congrArg _ ?_) (congrArg _ ?_)
    all_goals push_cast
    all_goals ring

/-- the stores of the output, head after head, whatever the form of the products -/
theorem pvStores_eq (mode : PrefillGemmMode) (vhat probs : Int → K) :
    pvStores x rows ctx mode vhat probs =
      (List.range (numKvHeads * group) ×ˢ List.range rows ×ˢ List.range headDim).map fun q =>
        ((((q.2.1 * (numKvHeads * group) + q.1) * headDim + q.2.2 : Nat) : Int),
          1 * ∑ j ∈ Finset.range ctx,
            vhat ((q.1 / group * (maxSeqLen * headDim) + j * headDim + q.2.2 : Nat))
              * probs (((q.1 * rows + q.2.1) * ctx + j : Nat))) := by
  have hone := prefillPv_stores (K := K) rows ctx headDim 1
  unfold pvStores
  cases mode with
  | kStridedBatched =>
    simp only [hx.kvHeads_eq, hx.headDim_eq, hx.perGroup_eq, hx.plane_eq, hx.hidden_eq,
      Int.toNat_natCast, prefillPv_stores]
    refine flatMap_groups _ _ _ _ _ fun g z hz q _ => ?_
    rw [group_div hx g hz]
    refine store_eq ?_ fun c => congrArg₂ (· * ·) (congrArg _ ?_) (congrArg _ ?_)
    all_goals push_cast
    all_goals ring
  | kPerHead =>
    simp only [hx.qHeads_eq, hx.headDim_eq, hx.perGroup_eq, hx.plane_eq, hx.hidden_eq,
      Int.toNat_natCast, ← Int.ofNat_tdiv]
    rw [Nat.cast_one] at hone
    simp only [hone]
    refine (flatMap_groups _ 1 _ _ _ fun h z hz q _ => ?_).trans (by rw [Nat.mul_one])
    obtain rfl : z = 0 := by omega
    rw [Nat.mul_one, Nat.add_zero]
    refine store_eq ?_ fun c => congrArg₂ (· * ·) (congrArg _ ?_) (congrArg _ ?_)
    all_goals push_cast
    all_goals ring

/-- **The scores are told apart.** -/
theorem nodup_scoresStores (mode : PrefillGemmMode) (khat qkv : Int → K) :
    ((scoresStores x rows ctx mode khat qkv).map Prod.fst).Nodup := by
  rw [scoresStores_eq hx]
  refine nodup_keys (List.nodup_range.product (List.nodup_range.product List.nodup_range)) ?_
  rintro ⟨h, i, j⟩ hq ⟨h', i', j'⟩ hq' heq
  simp only [List.mem_product, List.mem_range] at hq hq'
  obtain ⟨hrow, rfl⟩ := row_inj hq.2.2 hq'.2.2 (Int.ofNat_inj.mp heq)
  obtain ⟨rfl, rfl⟩ := row_inj hq.2.1 hq'.2.1 hrow
  rfl

/-- **The outputs are told apart.** -/
theorem nodup_pvStores (mode : PrefillGemmMode) (vhat probs : Int → K) :
    ((pvStores x rows ctx mode vhat probs).map Prod.fst).Nodup := by
  rw [pvStores_eq hx]
  refine nodup_keys (List.nodup_range.product (List.nodup_range.product List.nodup_range)) ?_
  rintro ⟨h, i, c⟩ hq ⟨h', i', c'⟩ hq' heq
  simp only [List.mem_product, List.mem_range] at hq hq'
  obtain ⟨hrow, rfl⟩ := row_inj hq.2.2 hq'.2.2 (Int.ofNat_inj.mp heq)
  obtain ⟨rfl, rfl⟩ := row_inj hq.1 hq'.1 hrow
  rfl

end

/-! ## the softmax -/

section
variable [Field K] (math : DeviceMath K)

theorem softmaxDenom_eq (s : Nat → K) (n : Nat) (m : K) :
    softmaxDenom math s n m = ∑ l ∈ Finset.range n, math.exp (s l - m) := by
  unfold softmaxDenom
  rw [BlockReduce.blockReduce_eq (add_zero 0)]
  induction n with
  | zero => rfl
  | succ n ih => rw [List.range_succ, List.foldl_concat, ih, Finset.sum_range_succ]

variable [LinearOrder K]

/-- the maximum a block subtracts: of the live scores and of `-FLT_MAX` -/
def liveMax (s : Nat → K) (n : Nat) : K := (List.range n).foldl (fun m j => max m (s j)) (-math.fltMax)

theorem softmaxRowMax_eq (s : Nat → K) (n : Nat) : softmaxRowMax math s n = liveMax math s n :=
  BlockReduce.blockReduce_eq (max_self _) 8 n s

theorem liveKeys_eq {kvLen chunkStart row : Nat} (h : chunkStart + row < kvLen) :
    liveKeys kvLen chunkStart row = chunkStart + row + 1 := by
  unfold liveKeys
  simp only []
  split <;> omega

/-- the prob of key `j` in a row of `n` live keys -/
def causalProb (s : Nat → K) (n j : Nat) : K :=
  if j < n then Softmax.weight math.exp s n (liveMax math s n) j else 0

theorem causalProb_congr {s s' : Nat → K} {n : Nat} (h : ∀ l < n, s l = s' l) (j : Nat) :
    causalProb math s n j = causalProb math s' n j := by
  have hmax : liveMax math s n = liveMax math s' n :=
    List.foldl_ext _ _ _ fun m l hl => congrArg (max m) (h l (List.mem_range.mp hl))
  unfold causalProb Softmax.weight
  by_cases hj : j < n
  · have hsum : ∑ l ∈ Finset.range n, math.exp (s l - liveMax math s' n)
        = ∑ l ∈ Finset.range n, math.exp (s' l - liveMax math s' n) :=
      Finset.sum_congr rfl fun l hl => by rw [h l (Finset.mem_range.mp hl)]
    rw [if_pos hj, if_pos hj, hmax, h j hj, hsum]
  · rw [if_neg hj, if_neg hj]

theorem mem_prefillSoftmaxBlock {scores : Int → K} {chunkLen kvLen chunkStart head row : Nat}
    {w : Int × K} : w ∈ prefillSoftmaxBlock math chunkLen kvLen chunkStart scores head row ↔
      ∃ j < kvLen, w = ((((head * chunkLen + row) * kvLen + j : Nat) : Int),
        causalProb math (fun l : Nat => scores ((head * chunkLen + row) * kvLen + l : Nat))
          (liveKeys kvLen chunkStart row) j) := by
  have hkeys := BlockReduce.perm_strided (T := 256) (by decide) kvLen
  unfold prefillSoftmaxBlock causalProb Softmax.weight
  simp only [softmaxRowMax_eq, softmaxDenom_eq, List.mem_flatMap, List.mem_map]
  constructor
  · rintro ⟨tid, htid, j, hj, rfl⟩
    exact ⟨j, List.mem_range.mp (hkeys.mem_iff.mp (List.mem_flatMap.mpr ⟨tid, htid, hj⟩)), rfl⟩
  · rintro ⟨j, hj, rfl⟩
    obtain ⟨tid, htid, hj⟩ := List.mem_flatMap.mp (hkeys.mem_iff.mpr (List.mem_range.mpr hj))
    exact ⟨tid, htid, j, hj, rfl⟩

/-- **The probs of a query row**: the softmax of its live keys, and exact zeros. -/
theorem probs_at (scores : Int → K) {numQHeads chunkLen kvLen chunkStart : Nat}
    (hlen : chunkStart + chunkLen ≤ kvLen) {h i j : Nat} (hh : h < numQHeads) (hi : i < chunkLen)
    (hj : j < kvLen) (m : Int → K) :
    store m (launchPrefillSoftmax math scores numQHeads chunkLen kvLen chunkStart)
        ((h * chunkLen + i) * kvLen + j : Nat)
      = causalProb math (fun l : Nat => scores ((h * chunkLen + i) * kvLen + l : Nat))
          (chunkStart + i + 1) j := by
  have hblock : (h, i) ∈ List.range numQHeads ×ˢ List.range chunkLen :=
    List.mem_product.mpr ⟨List.mem_range.mpr hh, List.mem_range.mpr hi⟩
  have hmem : (_, _) ∈ prefillSoftmaxBlock math chunkLen kvLen chunkStart scores h i :=
    (mem_prefillSoftmaxBlock math).mpr ⟨j, hj, rfl⟩
  have hin : (_, _) ∈ launchPrefillSoftmax math scores numQHeads chunkLen kvLen chunkStart :=
    List.mem_flatMap.mpr ⟨(h, i), hblock, hmem⟩
  rw [← liveKeys_eq (by omega : chunkStart + i < kvLen)]
  refine store_of_all (List.mem_map.mpr ⟨_, hin, rfl⟩) (fun v hv => ?_) m
  obtain ⟨⟨h', i'⟩, hblock', hw⟩ := List.mem_flatMap.mp hv
  obtain ⟨_, hi'⟩ := List.mem_product.mp hblock'
  obtain ⟨j', hj', hw'⟩ := (mem_prefillSoftmaxBlock math).mp hw
  obtain ⟨ha, rfl⟩ := Prod.mk.inj hw'
  obtain ⟨hrow, rfl⟩ := row_inj hj hj' (Int.ofNat_inj.mp ha)
  obtain ⟨rfl, rfl⟩ := row_inj hi (List.mem_range.mp hi') hrow
  rfl

end

/-! ## the composite -/

section
variable [Field K] [LinearOrder K] (math : DeviceMath K) (x : AttentionFields K)
  (m : AttentionMemory K)

/-- channel `c` of the query of row `i` in head `h` -/
def queryAt (h i c : Nat) : K := m.qkv (i * x.qkvWidth + h * x.headDim + c)

/-- channel `c` of the cached key of position `j`, in the KV head of head `h` -/
def keyAt (h j c : Nat) : K :=
  cachedAt 0 m.pool m.blockTable x.numKvHeads.toNat x.headDim.toNat (h / x.headsPerGroup.toNat) j c

def valueAt (h j c : Nat) : K :=
  cachedAt 1 m.pool m.blockTable x.numKvHeads.toNat x.headDim.toNat (h / x.headsPerGroup.toNat) j c

/-- the scaled dot product -/
def attentionScore (h i j : Nat) : K :=
  x.attnScale * ∑ c ∈ Finset.range x.headDim.toNat, keyAt x m h j c * queryAt x m h i c

/-- the composite over `rows` query rows at `chunkStart` is causal attention -/
structure CausalAttention (pointersAligned : Bool) (rows chunkStart ctx : Nat) : Prop where
  same_scores : scoresStores x rows ctx .kStridedBatched = scoresStores x rows ctx .kPerHead
  same_outputs : pvStores x rows ctx .kStridedBatched = pvStores x rows ctx .kPerHead
  scores_apart : ∀ mode khat qkv, ((scoresStores x rows ctx mode khat qkv).map Prod.fst).Nodup
  outputs_apart : ∀ mode vhat probs, ((pvStores x rows ctx mode vhat probs).map Prod.fst).Nodup
  masked : ∀ mode, ∀ h < x.numQHeads.toNat, ∀ i < rows, ∀ j < ctx, chunkStart + i < j →
    (enqueuePrefillAttention math x pointersAligned mode rows chunkStart ctx m).probs
      ((h * rows + i) * ctx + j : Nat) = 0
  normalized : ∀ h i, ∑ j ∈ Finset.range (chunkStart + i + 1),
    Softmax.weight math.exp (attentionScore x m h i) (chunkStart + i + 1)
      (liveMax math (attentionScore x m h i) (chunkStart + i + 1)) j = 1
  attends : ∀ mode, ∀ h < x.numQHeads.toNat, ∀ i < rows, ∀ c < x.headDim.toNat,
    (enqueuePrefillAttention math x pointersAligned mode rows chunkStart ctx m).attnOut
        (i * x.hiddenSize + h * x.headDim + c)
      = ∑ j ∈ Finset.range (chunkStart + i + 1),
          Softmax.weight math.exp (attentionScore x m h i) (chunkStart + i + 1)
            (liveMax math (attentionScore x m h i) (chunkStart + i + 1)) j * valueAt x m h j c
  /-- for an exponential proper the shift by the maximum cancels -/
  textbook : (∀ a b, math.exp (a + b) = math.exp a * math.exp b) →
    ∀ mode, ∀ h < x.numQHeads.toNat, ∀ i < rows, ∀ c < x.headDim.toNat,
      (enqueuePrefillAttention math x pointersAligned mode rows chunkStart ctx m).attnOut
          (i * x.hiddenSize + h * x.headDim + c)
        = ∑ j ∈ Finset.range (chunkStart + i + 1), math.exp (attentionScore x m h i j)
            / (∑ l ∈ Finset.range (chunkStart + i + 1), math.exp (attentionScore x m h i l))
            * valueAt x m h j c

variable {x} {numKvHeads group headDim maxSeqLen : Nat}
  (hx : AttentionGeometry x numKvHeads group headDim maxSeqLen)
include hx

omit [Field K] [LinearOrder K] in
theorem gathered (kv : Nat) (hkv : kv < 2) (pointersAligned : Bool) {ctx : Nat} (hctx : ctx ≤ maxSeqLen)
    (khat vhat : GatherBuffer) (buf : Int → K) {h j c : Nat} (hh : h < numKvHeads * group)
    (hj : j < ctx) (hc : c < headDim) :
    store buf (launchKvGather khat vhat ⟨kv, x.gatherPlaneStride, x.headDim⟩ pointersAligned m.pool
        m.blockTable ctx x.numKvHeads.toNat x.headDim.toNat)
        (h / group * (maxSeqLen * headDim) + j * headDim + c : Nat)
      = cachedAt kv m.pool m.blockTable x.numKvHeads.toNat x.headDim.toNat (h / x.headsPerGroup.toNat)
          j c := by
  have hhead : h / group < numKvHeads := Nat.div_lt_of_lt_mul (by rwa [Nat.mul_comm])
  rw [hx.kvHeads_eq, hx.headDim_eq, hx.plane_eq, hx.perGroup_eq]
  simp only [Int.toNat_natCast]
  exact kvGather_at hkv rfl rfl (le_refl _) (Nat.mul_le_mul_right _ hctx) hhead hj hc buf

/-- the scores the softmax finds -/
theorem scores_at (mode : PrefillGemmMode) (pointersAligned : Bool) {rows chunkStart ctx : Nat}
    (hctx : ctx ≤ maxSeqLen) {h i j : Nat} (hh : h < numKvHeads * group) (hi : i < rows)
    (hj : j < ctx) :
    (enqueuePrefillAttention math x pointersAligned mode rows chunkStart ctx m).scores
      ((h * rows + i) * ctx + j : Nat) = attentionScore x m h i j := by
  unfold enqueuePrefillAttention attentionScore
  dsimp only
  refine store_of_mem (nodup_scoresStores hx rows ctx mode _ _) ?_ _
  rw [scoresStores_eq hx]
  refine List.mem_map.mpr ⟨(h, i, j), ?_, Prod.ext rfl ?_⟩
  · simp only [List.mem_product, List.mem_range]
    exact ⟨hh, hi, hj⟩
  · have hrange : Finset.range headDim = Finset.range x.headDim.toNat := by
      rw [hx.headDim_eq, Int.toNat_natCast]
    refine congrArg (x.attnScale * ·) (Finset.sum_congr hrange fun c hc => congrArg₂ (· * ·) ?_ ?_)
    · rw [← hrange] at hc
      exact gathered m hx 0 (by decide) pointersAligned hctx _ _ m.khat hh hj (Finset.mem_range.mp hc)
    · unfold queryAt
      rw [hx.headDim_eq]

/-- the probs the PV products find -/
theorem causalProb_at (mode : PrefillGemmMode) (pointersAligned : Bool) {rows chunkStart ctx : Nat}
    (hrows : chunkStart + rows = ctx) (hctx : ctx ≤ maxSeqLen) {h i j : Nat}
    (hh : h < numKvHeads * group) (hi : i < rows) (hj : j < ctx) :
    (enqueuePrefillAttention math x pointersAligned mode rows chunkStart ctx m).probs
        ((h * rows + i) * ctx + j : Nat)
      = causalProb math (attentionScore x m h i) (chunkStart + i + 1) j := by
  have hscores : ∀ l < chunkStart + i + 1,
      (enqueuePrefillAttention math x pointersAligned mode rows chunkStart ctx m).scores
        ((h * rows + i) * ctx + l : Nat) = attentionScore x m h i l := fun l hl =>
    scores_at math m hx mode pointersAligned hctx hh hi (by omega)
  have hq : h < x.numQHeads.toNat := by
    rw [hx.qHeads_eq, Int.toNat_natCast]
    exact hh
  exact (probs_at math _ hrows.le hq hi hj m.probs).trans (causalProb_congr math hscores j)

/-- **The output** of a query row in a head, over the keys it may see. -/
theorem attnOut_at (mode : PrefillGemmMode) (pointersAligned : Bool) {rows chunkStart ctx : Nat}
    (hrows : chunkStart + rows = ctx) (hctx : ctx ≤ maxSeqLen) {h i c : Nat}
    (hh : h < numKvHeads * group) (hi : i < rows) (hc : c < headDim) :
    (enqueuePrefillAttention math x pointersAligned mode rows chunkStart ctx m).attnOut
        (i * x.hiddenSize + h * x.headDim + c)
      = ∑ j ∈ Finset.range (chunkStart + i + 1),
          Softmax.weight math.exp (attentionScore x m h i) (chunkStart + i + 1)
            (liveMax math (attentionScore x m h i) (chunkStart + i + 1)) j * valueAt x m h j c := by
  have haddr : (i * x.hiddenSize + h * x.headDim + c : Int)
      = ((i * (numKvHeads * group) + h) * headDim + c : Nat) := by
    rw [hx.hidden_eq, hx.headDim_eq]
    push_cast
    ring
  have hcell : ∀ j ∈ Finset.range ctx,
      causalProb math (attentionScore x m h i) (chunkStart + i + 1) j * valueAt x m h j c
        = if j < chunkStart + i + 1 then Softmax.weight math.exp (attentionScore x m h i)
            (chunkStart + i + 1) (liveMax math (attentionScore x m h i) (chunkStart + i + 1)) j
              * valueAt x m h j c else 0 := by
    intro j _
    unfold causalProb
    split
    · rfl
    · exact zero_mul _
  have hlive : (Finset.range ctx).filter (· < chunkStart + i + 1)
      = Finset.range (chunkStart + i + 1) := by
    ext j
    rw [Finset.mem_filter, Finset.mem_range, Finset.mem_range]
    omega
  rw [haddr, ← hlive, Finset.sum_filter, ← Finset.sum_congr rfl hcell]
  refine store_of_mem (nodup_pvStores hx rows ctx mode _ _) ?_ m.attnOut
  rw [pvStores_eq hx]
  refine List.mem_map.mpr ⟨(h, i, c), ?_, Prod.ext rfl ?_⟩
  · simp only [List.mem_product, List.mem_range]
    exact ⟨hh, hi, hc⟩
  · dsimp only
    rw [one_mul]
    refine Finset.sum_congr rfl fun j hj => ?_
    have hj := Finset.mem_range.mp hj
    rw [mul_comm]
    refine congrArg₂ (· * ·) (causalProb_at math m hx mode pointersAligned hrows hctx hh hi hj) ?_
    exact gathered m hx 1 (by decide) pointersAligned hctx _ _ m.vhat hh hj hc

end

/-- **Prefill attention is causal attention**, in both forms of its products, for every valid
geometry and every chunk that stays below `max_seq_len`. -/
theorem prefill_attention_causal [Field K] [LinearOrder K] [IsStrictOrderedRing K]
    (math : DeviceMath K) (hexp : ∀ a, 0 < math.exp a) (config : ModelConfig)
    (options : ExecutorOptions)
    (hvalid : validateGeometry config options = .ok ()) (qkvWidth : Int) (attnScale : K)
    (pointersAligned : Bool) (rows chunkStart ctx : Nat) (hrows : chunkStart + rows = ctx)
    (hctx : (ctx : Int) ≤ options.maxSeqLen) (m : AttentionMemory K) :
    CausalAttention math (attentionFields config options qkvWidth attnScale) m pointersAligned rows
      chunkStart ctx := by
  obtain ⟨numKvHeads, group, headDim, hx⟩ := attentionGeometry_of_valid hvalid qkvWidth attnScale
  have hctx' : ctx ≤ options.maxSeqLen.toNat := by omega
  generalize attentionFields config options qkvWidth attnScale = x at hx ⊢
  have hq : x.numQHeads.toNat = numKvHeads * group := by rw [hx.qHeads_eq, Int.toNat_natCast]
  have hd : x.headDim.toNat = headDim := by rw [hx.headDim_eq, Int.toNat_natCast]
  refine ⟨?_, ?_, nodup_scoresStores hx rows ctx, nodup_pvStores hx rows ctx, ?_, ?_, ?_, ?_⟩
  · funext khat qkv
    rw [scoresStores_eq hx, scoresStores_eq hx]
  · funext vhat probs
    rw [pvStores_eq hx, pvStores_eq hx]
  · intro mode h hh i hi j hj hmask
    rw [causalProb_at math m hx mode pointersAligned hrows hctx' (hq ▸ hh) hi hj]
    exact if_neg (by omega)
  · intro h i
    exact Softmax.sum_weight hexp _ (Nat.succ_pos _) _
  · intro mode h hh i hi c hc
    exact attnOut_at math m hx mode pointersAligned hrows hctx' (hq ▸ hh) hi (hd ▸ hc)
  · intro hadd mode h hh i hi c hc
    rw [attnOut_at math m hx mode pointersAligned hrows hctx' (hq ▸ hh) hi (hd ▸ hc)]
    refine Finset.sum_congr rfl fun j _ => ?_
    rw [Softmax.weight_shift hexp hadd]

/-! ## a second chunk over the reals -/

/-- FP32 range, and the exponential itself -/
noncomputable def realMath : DeviceMath ℝ where
  exp := Real.exp
  fltMax := ((2 - 1 / 2 ^ 23) * 2 ^ 127 : Rat)

def groupedConfig : ModelConfig where
  hiddenSize := 1536
  numLayers := 28
  numQHeads := 12
  numKvHeads := 2
  headDim := 128
  intermediateSize := 8960
  vocabSize := 151936
  eosTokenIds := [151645, 151643]

def chunkOptions : ExecutorOptions where
  kvPoolBytes := 4 * 2 ^ 30
  maxBatch := 8
  maxSeqLen := 4096
  prefillChunkTokens := 1024
  enableCudaGraphs := false
  padEagerToBucket := 0
  debugDumpDir := ""

/-- some memory, with another value in every cell of a buffer -/
noncomputable def someMemory : AttentionMemory ℝ where
  pool := fun a => a
  blockTable := fun b => b + 1
  qkv := fun a => 1 / (1 + a * a)
  khat := fun _ => 7
  vhat := fun _ => 7
  scores := fun _ => 7
  probs := fun _ => 7
  attnOut := fun _ => 7

theorem prefill_attention_causal_second_chunk :
    CausalAttention realMath (attentionFields groupedConfig chunkOptions 2048 (1 / Real.sqrt 128))
      someMemory true 700 1024 1724 :=
  prefill_attention_causal realMath Real.exp_pos groupedConfig chunkOptions rfl 2048 _ true 700 1024 1724
    rfl (by decide) someMemory

end Redline
