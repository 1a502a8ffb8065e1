import Redline.Kernels.DecodeRun
import Mathlib.Analysis.Complex.Exponential
import Mathlib.Analysis.Real.Sqrt

/-!
# The decode kernel and its oracle

* `oracleScoreAt_eq`     the butterfly over 32 lanes is the same dot product;
* `kernel_perm_oracle`   a CTA stores what the oracle stores for the heads of its group;
* `decode_eq_oracle`     so do the launches, each element once, and no denominator is below one.
-/

namespace Redline
open Extended Stores OnlineSoftmax
variable {K : Type*} [Field K] [LinearOrder K]

/-! ## the two passes -/

section
variable {a : DecodeArgs K} {seq qHead kvHead n lane : Nat}

/-- the dims of one lane -/
def oracleDims (lane : Nat) : List Nat := (List.range kDimsPerLane).map (oracleDim lane)

theorem perm_oracleDims : ((List.range kWarpSize).flatMap oracleDims).Perm
    (List.range kHeadDim) := by decide

theorem oracleScoreAt_eq (hlane : lane < kWarpSize) (pos : Nat) :
    oracleScoreAt a seq qHead kvHead pos lane = scoreAt a seq kvHead qHead pos := by
  have hlanes : (Multiset.range (2 ^ 5)).map (fun lane => (List.range kDimsPerLane).foldl (fun dot j =>
        fma (a.q (seq * a.qRowStride + qHead * kHeadDim + oracleDim (2 ^ 5 * 0 + lane) j) * real a.scale)
          (a.kvPoolLayer (oraclePoolRow a seq kvHead 0 pos + oracleDim (2 ^ 5 * 0 + lane) j)) dot) 0)
      = (Multiset.range kWarpSize).map fun lane => ((oracleDims lane).map fun d =>
          scaledQuery a seq qHead d * cachedCell a seq kvHead 0 pos d).sum := by
    refine Multiset.map_congr rfl fun lane _ => ?_
    rw [Nat.mul_zero, Nat.zero_add, foldl_fma, zero_add]
    unfold oracleDims
    rw [List.map_map]
    rfl
  have hgroup := Shuffle.butterfly_group (fun x y : Extended K => x + y) zero_add 5 (fun lane =>
    (List.range kDimsPerLane).foldl (fun dot j =>
      fma (a.q (seq * a.qRowStride + qHead * kHeadDim + oracleDim lane j) * real a.scale)
        (a.kvPoolLayer (oraclePoolRow a seq kvHead 0 pos + oracleDim lane j)) dot) 0) 0 (t := lane) hlane
  rw [hlanes, fold_lanes perm_oracleDims, Nat.mul_zero, Nat.zero_add] at hgroup
  exact hgroup

theorem oracleMax_eq (hlane : lane < kWarpSize) :
    oracleMax a seq qHead kvHead n lane = top (scoreAt a seq kvHead qHead) n := by
  unfold oracleMax
  simp only [oracleScoreAt_eq hlane]
  exact foldl_fmax _ n

variable {e : K → K} {num val : Nat → K} (hn : 0 < n)
    (hnum : ∀ pos < n, scoreAt a seq kvHead qHead pos = real (num pos))
include hn hnum

theorem oracleDenom_eq (hlane : lane < kWarpSize) : oracleDenom a seq qHead kvHead e n lane
    = real (shifted e (scoreAt a seq kvHead qHead) num (fun _ => 1) n) := by
  unfold oracleDenom
  simp only [oracleScoreAt_eq hlane, oracleMax_eq hlane]
  rw [foldl_add_range, ← sum_exp (e := e) (fun _ => 1) hn hnum]
  exact Finset.sum_congr rfl fun pos hpos => (exp_mul_one hnum (Finset.mem_range.mp hpos)).symm

theorem oracleAcc_eq (hlane : lane < kWarpSize) {j : Nat}
    (hval : ∀ pos < n, cachedCell a seq kvHead 1 pos (oracleDim lane j) = real (val pos)) :
    oracleAcc a seq qHead kvHead e n lane j
      = real (shifted e (scoreAt a seq kvHead qHead) num val n) := by
  unfold oracleAcc
  simp only [oracleScoreAt_eq hlane, oracleMax_eq hlane]
  rw [foldl_fma, zero_add, ← fold_add_range, fold_add_finset, ← sum_exp (e := e) val hn hnum]
  exact Finset.sum_congr rfl fun pos hpos => congrArg _ (hval pos (Finset.mem_range.mp hpos))

end

/-! ## one group of heads -/

section
variable (a : DecodeArgs K) (seq kvHead : Nat)

/-- element `i` of the output of a group -/
def groupCell (value : Nat → Nat → Extended K) (i : Nat) : Int × Extended K :=
  (seq * a.outRowStride + kvHead * kGroupSize * kHeadDim + i, value (i / kHeadDim) (i % kHeadDim))

variable {a seq kvHead} {e : K → K} {T : DecodeThreads} {cpAsync : Bool} {u : Unspecified K} {n : Nat}
  {s v : Nat → Nat → K}

/-- the softmax of a head, for one channel -/
def headValue (e : K → K) (a : DecodeArgs K) (seq kvHead n : Nat) (s v : Nat → Nat → K)
    (h d : Nat) : Extended K :=
  real (shifted e (headScore a seq kvHead h) (s h) (v d) n) /
    real (shifted e (headScore a seq kvHead h) (s h) (fun _ => 1) n)

/-- each thread owns every `T`-th element -/
theorem owned_strided {tid : Nat} (htid : tid < T.count) :
    (List.range T.headsPerThread).map (fun j => ownedHead T tid j * kHeadDim + tid % kHeadDim)
      = BlockReduce.strided T.count (kGroupSize * kHeadDim) tid := by
  have hcount : (kGroupSize * kHeadDim - tid + T.count - 1) / T.count = T.headsPerThread := by
    cases T
    · have htid : tid < 128 := htid
      show (768 - tid + 128 - 1) / 128 = 6
      omega
    · have htid : tid < 256 := htid
      show (768 - tid + 256 - 1) / 256 = 3
      omega
  unfold BlockReduce.strided
  rw [hcount]
  refine List.map_congr_left fun j _ => ?_
  unfold ownedHead
  cases T
  · show (tid / 128 + j * 1) * 128 + tid % 128 = tid + 128 * j
    omega
  · show (tid / 128 + j * 2) * 128 + tid % 128 = tid + 256 * j
    omega

theorem kernel_cells (hadd : ∀ x y, e (x + y) = e x * e y) (hlen : (n : Int) = a.seqLen seq)
    (hn : 0 < n)
    (hf : HeadFinite a seq kvHead n s v) : (pagedAttentionDecodeKernel e T cpAsync u a seq kvHead).Perm
      ((List.range (kGroupSize * kHeadDim)).map (groupCell a seq kvHead (headValue e a seq kvHead n s v))) := by
  have hinv := ctaFinal_inv T cpAsync u hadd hf
  have hlen' : (a.seqLen seq).toNat = n := by omega
  unfold pagedAttentionDecodeKernel
  rw [if_neg (by omega)]
  simp only [hlen']
  have hcell : ∀ tid < T.count, (List.range T.headsPerThread).map (fun j =>
        ((seq * a.outRowStride + kvHead * kGroupSize * kHeadDim + (ownedHead T tid j * kHeadDim + tid % kHeadDim : Nat) : Int),
          (ctaFinal e T cpAsync u a seq kvHead n).acc tid j /
            (ctaFinal e T cpAsync u a seq kvHead n).shared.l (ownedHead T tid j)))
      = (BlockReduce.strided T.count (kGroupSize * kHeadDim) tid).map
          (groupCell a seq kvHead (headValue e a seq kvHead n s v)) := by
    intro tid htid
    rw [← owned_strided htid, List.map_map]
    refine List.map_congr_left fun j hj => ?_
    have hj := List.mem_range.mp hj
    have hown : ownedHead T tid j < kGroupSize := by
      unfold ownedHead
      cases T
      · have htid : tid < 128 := htid
        have hj : j < 6 := hj
        show tid / 128 + j * 1 < 6
        omega
      · have htid : tid < 256 := htid
        have hj : j < 3 := hj
        show tid / 128 + j * 2 < 6
        omega
    have hd := Nat.mod_lt tid (show 0 < kHeadDim by decide)
    have hparts : (ownedHead T tid j * kHeadDim + tid % kHeadDim) / kHeadDim = ownedHead T tid j ∧
        (ownedHead T tid j * kHeadDim + tid % kHeadDim) % kHeadDim = tid % kHeadDim := by
      generalize ownedHead T tid j = h
      show (h * 128 + tid % 128) / 128 = h ∧ (h * 128 + tid % 128) % 128 = tid % 128
      omega
    have hacc := hinv.acc tid j hown
    have hl := hinv.l _ hown
    rw [tiles_cover] at hacc hl
    rw [hacc, hl]
    unfold Function.comp groupCell headValue
    rw [hparts.1, hparts.2]
  rw [List.flatMap_congr fun tid htid => hcell tid (List.mem_range.mp htid), ← List.map_flatMap]
  exact (BlockReduce.perm_strided T.count_pos _).map _

theorem oracle_cells (hlen : (n : Int) = a.seqLen seq) (hn : 0 < n)
    (hf : HeadFinite a seq kvHead n s v) {h : Nat} (hh : h < kGroupSize) :
    (pagedAttentionDecodeOracleKernel e a kGroupSize seq (kvHead * kGroupSize + h)).Perm
      ((List.range kHeadDim).map fun d =>
        groupCell a seq kvHead (headValue e a seq kvHead n s v) (h * kHeadDim + d)) := by
  have hlen' : (a.seqLen seq).toNat = n := by omega
  have hkv : (kvHead * kGroupSize + h) / kGroupSize = kvHead := by
    have hh : h < 6 := hh
    show (kvHead * 6 + h) / 6 = kvHead
    omega
  unfold pagedAttentionDecodeOracleKernel
  rw [if_neg (by omega)]
  simp only [hlen', hkv]
  have hcell : ∀ lane < kWarpSize, (List.range kDimsPerLane).map (fun j =>
        ((seq * a.outRowStride + (kvHead * kGroupSize + h : Nat) * kHeadDim + oracleDim lane j : Int),
          oracleAcc a seq (kvHead * kGroupSize + h) kvHead e n lane j /
            oracleDenom a seq (kvHead * kGroupSize + h) kvHead e n lane))
      = (oracleDims lane).map fun d =>
          groupCell a seq kvHead (headValue e a seq kvHead n s v) (h * kHeadDim + d) := by
    intro lane hlane
    unfold oracleDims
    rw [List.map_map]
    refine List.map_congr_left fun j hj => ?_
    have hd : oracleDim lane j < kHeadDim := by
      have hlane : lane < 32 := hlane
      have hj : j < 4 := List.mem_range.mp hj
      show lane + j * 32 < 128
      omega
    have hparts : (h * kHeadDim + oracleDim lane j) / kHeadDim = h ∧
        (h * kHeadDim + oracleDim lane j) % kHeadDim = oracleDim lane j := by
      generalize oracleDim lane j = d at hd ⊢
      have hd : d < 128 := hd
      show (h * 128 + d) / 128 = h ∧ (h * 128 + d) % 128 = d
      omega
    have hscore := hf.score h hh
    rw [oracleDenom_eq hn hscore hlane, oracleAcc_eq hn hscore hlane (hf.value _ hd)]
    unfold Function.comp groupCell headValue headScore
    simp only [hparts.1, hparts.2]
    refine Prod.ext ?_ rfl
    push_cast
    ring
  rw [List.flatMap_congr fun lane hlane => hcell lane (List.mem_range.mp hlane), ← List.map_flatMap]
  exact perm_oracleDims.map _

/-- **A CTA and the warps of its heads.** -/
theorem kernel_perm_oracle (hadd : ∀ x y, e (x + y) = e x * e y)
    (hfinite : 0 < a.seqLen seq → a.LiveFinite seq)
    (hkv : (kvHead : Int) < a.numKvHeads) : (pagedAttentionDecodeKernel e T cpAsync u a seq kvHead).Perm
      ((List.range kGroupSize).flatMap fun h =>
        pagedAttentionDecodeOracleKernel e a kGroupSize seq (kvHead * kGroupSize + h)) := by
  by_cases hpad : a.seqLen seq ≤ 0
  · unfold pagedAttentionDecodeKernel pagedAttentionDecodeOracleKernel
    simp only [if_pos hpad, List.flatMap_eq_nil_iff.mpr fun _ _ => rfl]
    exact List.Perm.refl _
  · have hlen : ((a.seqLen seq).toNat : Int) = a.seqLen seq := by omega
    obtain ⟨s, v, hf⟩ := (hfinite (by omega)).head hlen hkv
    refine (kernel_cells hadd hlen (by omega) hf).trans ?_
    rw [range_mul, List.map_flatMap]
    refine List.Perm.flatMap_left _ fun h hh => ?_
    rw [List.map_map]
    exact (oracle_cells hlen (by omega) hf (List.mem_range.mp hh)).symm

end

/-! ## the launches -/

section
variable {a : DecodeArgs K} {e : K → K} {T : DecodeThreads} {cpAsync : Bool}
    {u : Nat → Nat → Unspecified K}
  {numSeqs numQHeads : Int}

/-- the stores of one sequence -/
def decodeRow (e : K → K) (T : DecodeThreads) (cpAsync : Bool) (u : Nat → Nat → Unspecified K)
    (a : DecodeArgs K) (seq : Nat) : List (Int × Extended K) :=
  (List.range a.numKvHeads.toNat).flatMap fun kvHead =>
    pagedAttentionDecodeKernel e T cpAsync (u seq kvHead) a seq kvHead

variable (T cpAsync u) in
theorem decodeRow_perm (hadd : ∀ x y, e (x + y) = e x * e y) {seq : Nat}
    (hfinite : 0 < a.seqLen seq → a.LiveFinite seq) :
    (decodeRow e T cpAsync u a seq).Perm
    ((List.range (a.numKvHeads.toNat * kGroupSize)).flatMap fun qHead =>
      pagedAttentionDecodeOracleKernel e a kGroupSize seq qHead) := by
  unfold decodeRow
  rw [range_mul, List.flatMap_assoc]
  refine List.Perm.flatMap_left _ fun kvHead hkv => ?_
  rw [List.flatMap_map]
  have hkv := List.mem_range.mp hkv
  exact kernel_perm_oracle hadd hfinite (by omega)

variable (T cpAsync u) in
/-- the addresses of a row, one after the other -/
theorem decodeRow_addresses (hadd : ∀ x y, e (x + y) = e x * e y) {seq : Nat}
    (hfinite : a.LiveFinite seq)
    (hlen : 0 < a.seqLen seq) : ((decodeRow e T cpAsync u a seq).map Prod.fst).Perm
      ((List.range (a.numKvHeads.toNat * (kGroupSize * kHeadDim))).map fun (i : Nat) =>
        (seq * a.outRowStride + i : Int)) := by
  unfold decodeRow
  rw [range_mul, List.map_flatMap, List.map_flatMap]
  refine List.Perm.flatMap_left _ fun kvHead hkv => ?_
  have hkv := List.mem_range.mp hkv
  have hn : ((a.seqLen seq).toNat : Int) = a.seqLen seq := by omega
  obtain ⟨s, v, hf⟩ := hfinite.head hn (show (kvHead : Int) < a.numKvHeads by omega)
  refine ((kernel_cells hadd hn (by omega) hf).map Prod.fst).trans (List.Perm.of_eq ?_)
  rw [List.map_map, List.map_map]
  refine List.map_congr_left fun i _ => ?_
  show (seq * a.outRowStride + kvHead * kGroupSize * kHeadDim + i : Int) = _
  unfold Function.comp
  push_cast
  ring

theorem decodeRow_padded {seq : Nat} (hlen : a.seqLen seq ≤ 0) :
    decodeRow e T cpAsync u a seq = [] := by
  unfold decodeRow pagedAttentionDecodeKernel
  simp only [if_pos hlen]
  exact List.flatMap_eq_nil_iff.mpr fun _ _ => rfl

/-- rows that stay apart -/
theorem decodeRows_nodup (hadd : ∀ x y, e (x + y) = e x * e y) {m : Nat}
    (hfinite : ∀ seq < m, 0 < a.seqLen seq → a.LiveFinite seq)
    (hstride : (a.numKvHeads.toNat * (kGroupSize * kHeadDim) : Nat) ≤ a.outRowStride) :
    (((List.range m).flatMap (decodeRow e T cpAsync u a)).map Prod.fst).Nodup := by
  -- every address of a row is within one stride of its start
  have hrow : ∀ seq < m, ((decodeRow e T cpAsync u a seq).map Prod.fst).Nodup ∧
      ∀ x ∈ (decodeRow e T cpAsync u a seq).map Prod.fst, ∃ i : Nat, (i : Int) < a.outRowStride ∧
        x = seq * a.outRowStride + i := by
    intro seq hseq
    by_cases hlen : a.seqLen seq ≤ 0
    · rw [decodeRow_padded hlen]
      exact ⟨List.nodup_nil, nofun⟩
    · have hperm := decodeRow_addresses T cpAsync u hadd (hfinite seq hseq (by omega)) (by omega)
      refine ⟨hperm.nodup_iff.mpr (List.nodup_range.map fun i i' h => ?_), fun x hx => ?_⟩
      · have h : (seq * a.outRowStride + i : Int) = seq * a.outRowStride + i' := h
        omega
      · obtain ⟨i, hi, rfl⟩ := List.mem_map.mp (hperm.mem_iff.mp hx)
        have hi := List.mem_range.mp hi
        exact ⟨i, by omega, rfl⟩
  rw [List.map_flatMap]
  refine List.nodup_flatMap.mpr ⟨fun seq hseq => (hrow seq (List.mem_range.mp hseq)).1, ?_⟩
  refine List.Pairwise.imp_of_mem (fun {seq seq'} hseq hseq' hne => ?_) List.nodup_range
  intro x hx hx'
  obtain ⟨i, hi, rfl⟩ := (hrow seq (List.mem_range.mp hseq)).2 x hx
  obtain ⟨i', hi', heq⟩ := (hrow seq' (List.mem_range.mp hseq')).2 _ hx'
  have hpos : 0 < a.outRowStride := by omega
  have hdiv : ∀ (s j : Nat), (j : Int) < a.outRowStride →
      (s * a.outRowStride + j : Int) / a.outRowStride = s := by
    intro s j hj
    rw [Int.add_comm, Int.add_mul_ediv_right _ _ hpos.ne', Int.ediv_eq_zero_of_lt (by omega) hj,
      Int.zero_add]
  have hsame := congrArg (· / a.outRowStride) heq
  simp only [hdiv seq i hi, hdiv seq' i' hi'] at hsame
  exact hne (Int.ofNat_inj.mp hsame)

/-- what the launcher checked -/
theorem launch_some {ws : List (Int × Extended K)} (hseqs : 0 < numSeqs)
    (hws : launchPagedAttentionDecode e T cpAsync u a numSeqs numQHeads = some ws) :
    numQHeads = a.numKvHeads * kGroupSize ∧ 0 < a.numKvHeads ∧ numQHeads * kHeadDim ≤ a.outRowStride ∧
      checkCommonContract a numQHeads = true ∧
        ws = (List.range numSeqs.toNat).flatMap (decodeRow e T cpAsync u a) := by
  unfold launchPagedAttentionDecode at hws
  rw [if_neg (by omega)] at hws
  split at hws
  case isTrue h =>
    rw [Bool.and_eq_true, decide_eq_true_iff] at h
    obtain ⟨hcheck, hgroup⟩ := h
    have hparts := hcheck
    unfold checkCommonContract at hparts
    simp only [Bool.and_eq_true, decide_eq_true_eq] at hparts
    exact ⟨hgroup, by omega, hparts.2.2, hcheck, (Option.some.inj hws).symm⟩
  case isFalse => cases hws

end

/-- **The decode kernel equals its oracle.** -/
theorem decode_eq_oracle [IsStrictOrderedRing K] {e : K → K} (hadd : ∀ x y, e (x + y) = e x * e y)
    (hpos : ∀ x, 0 < e x)
    (T : DecodeThreads) (cpAsync : Bool) (u : Nat → Nat → Unspecified K) (a : DecodeArgs K)
    {numSeqs numQHeads : Int}
    (hfinite : ∀ seq : Nat, (seq : Int) < numSeqs → 0 < a.seqLen seq → a.LiveFinite seq)
    {ws : List (Int × Extended K)}
    (hws : launchPagedAttentionDecode e T cpAsync u a numSeqs numQHeads = some ws) :
    ∃ ws', launchPagedAttentionDecodeOracle e a numSeqs numQHeads = some ws' ∧ ws.Perm ws' ∧
      (ws.map Prod.fst).Nodup ∧ (∀ out, store out ws = store out ws') ∧
      ∀ seq : Nat, (seq : Int) < numSeqs → 0 < a.seqLen seq →
        (∀ qHead d : Nat, (qHead : Int) < numQHeads → d < kHeadDim →
          (seq * a.outRowStride + (qHead * kHeadDim + d : Nat) : Int) ∈ ws.map Prod.fst) ∧
        ∀ kvHead h : Nat, (kvHead : Int) < a.numKvHeads → h < kGroupSize → ∃ l, 1 ≤ l ∧
          (ctaFinal e T cpAsync (u seq kvHead) a seq kvHead (a.seqLen seq).toNat).shared.l h
            = real l := by
  by_cases hseqs : numSeqs ≤ 0
  · unfold launchPagedAttentionDecode at hws
    rw [if_pos hseqs] at hws
    obtain rfl := Option.some.inj hws
    refine ⟨[], if_pos hseqs, List.Perm.refl _, List.nodup_nil, fun _ => rfl, fun seq hseq => ?_⟩
    omega
  obtain ⟨hgroup, hkv0, hstride, hcheck, rfl⟩ := launch_some (by omega) hws
  have hrows : ∀ seq < numSeqs.toNat, 0 < a.seqLen seq → a.LiveFinite seq :=
    fun seq hseq => hfinite seq (by omega)
  have hheads : numQHeads.toNat = a.numKvHeads.toNat * kGroupSize := by
    rw [hgroup]
    show (a.numKvHeads * 6).toNat = a.numKvHeads.toNat * 6
    omega
  have hratio : (numQHeads.tdiv a.numKvHeads).toNat = kGroupSize := by
    rw [hgroup, Int.mul_tdiv_cancel_left _ hkv0.ne']
    rfl
  have horacle : launchPagedAttentionDecodeOracle e a numSeqs numQHeads
      = some ((List.range numSeqs.toNat).flatMap fun seq =>
      (List.range (a.numKvHeads.toNat * kGroupSize)).flatMap fun qHead =>
        pagedAttentionDecodeOracleKernel e a kGroupSize seq qHead) := by
    unfold launchPagedAttentionDecodeOracle
    rw [if_neg hseqs, if_pos hcheck, hratio, hheads]
  have hperm := List.Perm.flatMap_left (List.range numSeqs.toNat) fun seq hseq =>
    decodeRow_perm T cpAsync u hadd (hrows seq (List.mem_range.mp hseq))
  have hnodup : (((List.range numSeqs.toNat).flatMap (decodeRow e T cpAsync u a)).map Prod.fst).Nodup := by
    refine decodeRows_nodup hadd hrows ?_
    rw [hgroup] at hstride
    have hstride : a.numKvHeads * 6 * 128 ≤ a.outRowStride := hstride
    show ((a.numKvHeads.toNat * 768 : Nat) : Int) ≤ a.outRowStride
    omega
  refine ⟨_, horacle, hperm, hnodup, store_perm hnodup hperm, fun seq hseq hlen => ⟨?_, ?_⟩⟩
  · intro qHead d hq hd
    have haddr := decodeRow_addresses T cpAsync u hadd (hfinite seq hseq hlen) hlen
    have hin : (seq * a.outRowStride + (qHead * kHeadDim + d : Nat) : Int) ∈
        (decodeRow e T cpAsync u a seq).map Prod.fst := by
      refine haddr.mem_iff.mpr (List.mem_map.mpr ⟨qHead * kHeadDim + d, List.mem_range.mpr ?_, rfl⟩)
      have hq : (qHead : Int) < a.numKvHeads * 6 := hgroup ▸ hq
      have hd : d < 128 := hd
      show qHead * 128 + d < a.numKvHeads.toNat * 768
      omega
    rw [List.map_flatMap]
    exact List.mem_flatMap.mpr ⟨seq, List.mem_range.mpr (by omega), hin⟩
  · intro kvHead h hkv hh
    have hn : ((a.seqLen seq).toNat : Int) = a.seqLen seq := by omega
    obtain ⟨s, v, hf⟩ := (hfinite seq hseq hlen).head hn hkv
    have hl := (ctaFinal_inv T cpAsync (u seq kvHead) hadd hf).l h hh
    rw [tiles_cover] at hl
    exact ⟨_, one_le_shifted hadd hpos (by omega) (hf.score h hh), hl⟩

/-! ## a poisoned pool -/

/-- 20 positions in the blocks 1 and 2 and a padded slot; every other cell of the pool is NaN -/
noncomputable def poisonedArgs : DecodeArgs ℝ where
  outRowStride := 1536
  q := fun i => real i
  qRowStride := 2048
  kvPoolLayer :=
    fun i => if i / 8192 = 1 ∨ i / 8192 = 2 ∧ i / 128 % 16 < 4 then real (1 / (1 + i * i)) else nan
  blockTables := fun i => i + 1
  seqLens := fun seq => if seq = 0 then 20 else 0
  maxBlocksPerSeq := 2
  numKvHeads := 2
  scale := 1 / Real.sqrt 128

/-- shared memory starts as NaN, and nothing arrives early -/
def nanStart : Unspecified ℝ :=
  ⟨⟨fun _ => nan, fun _ => nan, fun _ => nan, fun _ => nan, fun _ => nan, fun _ => nan,
    fun _ => nan⟩, fun _ _ _ => false⟩

theorem poisonedArgs_live {seq : Nat} (hlen : 0 < poisonedArgs.seqLen seq) :
    poisonedArgs.LiveFinite seq := by
  have hseq : seq = 0 ∧ poisonedArgs.seqLen seq ≤ 20 := by
    unfold DecodeArgs.seqLen at hlen ⊢
    by_cases h : seq = 0
    · subst h
      exact ⟨rfl, min_le_left _ _⟩
    · have hpad : poisonedArgs.seqLens seq = 0 := if_neg h
      rw [hpad] at hlen
      omega
  obtain ⟨rfl, hlen⟩ := hseq
  refine ⟨fun qHead d _ _ => ⟨_, rfl⟩, fun side hside kvHead pos d hkv hpos hd => ?_⟩
  have hkv : (kvHead : Int) < 2 := hkv
  have hd : d < 128 := hd
  have haddr : poolRowOffset (poisonedArgs.tableRow 0 (pos / kKvBlockSize)) side kvHead poisonedArgs.numKvHeads
      (pos % kKvBlockSize : Nat) + d
        = ((((pos / 16 + 1) * 2 + side) * 2 + kvHead) * 16 + pos % 16 : Nat) * 128 + d := by
    have htable : poisonedArgs.tableRow 0 (pos / kKvBlockSize) = (pos / 16 : Nat) + 1 := by
      show ((0 : Nat) : Int) * 2 + (pos / 16 : Nat) + 1 = _
      omega
    unfold poolRowOffset
    rw [htable]
    push_cast
    rfl
  refine ⟨_, if_pos ?_⟩
  rw [haddr]
  omega

/-- the masked slots of the last tile are poisoned -/
theorem decode_eq_oracle_poisoned :
    ∃ ws ws', launchPagedAttentionDecode Real.exp .kThreadsAmpere true (fun _ _ => nanStart)
      poisonedArgs 2 12 = some ws ∧
    launchPagedAttentionDecodeOracle Real.exp poisonedArgs 2 12 = some ws' ∧ ws.Perm ws' ∧
      (ws.map Prod.fst).Nodup := by
  have hws : launchPagedAttentionDecode Real.exp .kThreadsAmpere true
    (fun _ _ => nanStart) poisonedArgs 2 12
      = some ((List.range 2).flatMap
        (decodeRow Real.exp .kThreadsAmpere true (fun _ _ => nanStart) poisonedArgs)) := rfl
  obtain ⟨ws', horacle, hperm, hnodup, _⟩ :=
    decode_eq_oracle Real.exp_add Real.exp_pos .kThreadsAmpere true
    (fun _ _ => nanStart) poisonedArgs (fun _ _ hlen => poisonedArgs_live hlen) hws
  exact ⟨_, ws', hws, horacle, hperm, hnodup⟩

end Redline
