import Redline.Kernels.PagedAttention
import Redline.Lib.OnlineSoftmax

/-!
# The phases of the decode kernel

What the shared memory holds after each phase, whatever the threads that stored it.

* `Holds.land_rest`, `Holds.land_other`   a tile that arrived, and copies into the other buffer;
* `scorePhase_scores`                     the masked scores: dot products over the 128 dims;
* `softmaxPhase_m` and the others         maximum, probabilities and sums of each head.
-/

namespace Redline
open Extended Stores
variable {K : Type*} [Field K]

/-! ## sums over lanes -/

/-- the sum over a list that is cut in parts -/
theorem sum_flatMap_map {ι κ : Type*} (l : List ι) (parts : ι → List κ) (f : κ → Extended K) :
    ((l.flatMap parts).map f).sum = (l.map fun x => ((parts x).map f).sum).sum := by
  induction l with
  | nil => rfl
  | cons x l ih =>
    rw [List.flatMap_cons, List.map_append, List.sum_append, List.map_cons, List.sum_cons, ih]

theorem fold_add_range (n : Nat) (f : Nat → Extended K) :
    ((Multiset.range n).map f).fold (fun x y : Extended K => x + y) 0 = ((List.range n).map f).sum := by
  show ((List.range n).map f : Multiset (Extended K)).fold (fun x y : Extended K => x + y) 0 = _
  rw [Multiset.coe_fold_r]
  rfl

theorem fold_add_finset (n : Nat) (f : Nat → Extended K) :
    ((Multiset.range n).map f).fold (fun x y : Extended K => x + y) 0 = ∑ i ∈ Finset.range n, f i := rfl

theorem foldl_add_range (n : Nat) (f : Nat → Extended K) :
    (List.range n).foldl (fun x i => x + f i) 0 = ∑ i ∈ Finset.range n, f i := by
  show (List.range n).foldl (fun x i => (fun x y : Extended K => x + y) x (f i)) 0 = _
  rw [BlockReduce.foldl_eq_fold]
  exact fold_add_finset n f

/-- lanes that own the parts of a range -/
theorem fold_lanes {n w : Nat} {dims : Nat → List Nat}
    (hdims : ((List.range w).flatMap dims).Perm (List.range n)) (f : Nat → Extended K) :
    ((Multiset.range w).map fun lane => ((dims lane).map f).sum).fold (fun x y : Extended K => x + y) 0
      = ((List.range n).map f).sum := by
  rw [fold_add_range, ← sum_flatMap_map]
  exact (hdims.map f).sum_eq

variable [LinearOrder K]

/-! ## staging -/

section
variable {T : DecodeThreads} {a : DecodeArgs K} {seq kvHead kv tile buf : Nat}
omit [Field K] [LinearOrder K]

theorem DecodeThreads.count_pos (T : DecodeThreads) : 0 < T.count := by cases T <;> decide

theorem mem_stageTile {key : Nat × Nat} {v : Extended K} :
    (key, v) ∈ stageTile T a seq kvHead kv tile buf ↔
    key.1 = buf ∧ key.2 < 2048 ∧
      v = a.kvPoolLayer (poolRowOffset (a.tableRow seq tile) kv kvHead a.numKvHeads 0 + (key.2 : Nat)) := by
  unfold stageTile
  simp only [List.mem_flatMap, List.mem_map, List.mem_range, Prod.mk.injEq]
  constructor
  · rintro ⟨tid, htid, i, hi, e, he, rfl, rfl⟩
    have hlt : i < 256 := BlockReduce.lt_of_mem_strided T.count_pos hi
    have he : e < 8 := he
    exact ⟨rfl, show i * 8 + e < 2048 by omega, rfl⟩
  · rintro ⟨rfl, hi, rfl⟩
    have hsplit : key.2 / 8 * 8 + key.2 % 8 = key.2 := Nat.div_add_mod' _ _
    refine ⟨key.2 / 8 % T.count, Nat.mod_lt _ T.count_pos, key.2 / 8,
      (BlockReduce.mem_strided (Nat.mod_lt _ T.count_pos)).mpr
        ⟨show key.2 / 8 < 256 by omega, rfl⟩, key.2 % 8,
      Nat.mod_lt _ (by decide), ?_⟩
    refine ⟨Prod.ext rfl hsplit, ?_⟩
    show a.kvPoolLayer (_ + ((key.2 / 8 * 8 + key.2 % 8 : Nat) : Int)) = _
    rw [hsplit]

/-- some of the copies of a tile: the other cells keep what they held -/
theorem store_stageTile (tiles : Nat × Nat → Extended K) (p : Nat × Nat → Bool) {i : Nat}
    (hi : i < 2048) :
    store tiles ((stageTile T a seq kvHead kv tile buf).filter fun w => p w.1) (buf, i)
      = if p (buf, i) then a.kvPoolLayer
        (poolRowOffset (a.tableRow seq tile) kv kvHead a.numKvHeads 0 + i)
        else tiles (buf, i) := by
  by_cases hp : p (buf, i)
  · rw [if_pos hp]
    have hmem : ((buf, i), a.kvPoolLayer (poolRowOffset (a.tableRow seq tile) kv kvHead a.numKvHeads 0 + i))
        ∈ stageTile T a seq kvHead kv tile buf := mem_stageTile.mpr ⟨rfl, hi, rfl⟩
    refine store_of_all (List.mem_map.mpr ⟨_, List.mem_filter.mpr ⟨hmem, hp⟩, rfl⟩)
      (fun v hv => ?_) tiles
    exact (mem_stageTile.mp (List.mem_of_mem_filter hv)).2.2
  · rw [if_neg hp]
    refine store_of_not_mem (fun hin => hp ?_) tiles
    obtain ⟨w, hmem, hkey⟩ := List.mem_map.mp hin
    exact hkey ▸ (List.mem_filter.mp hmem).2

theorem store_stageTile_other (tiles : Nat × Nat → Extended K) (p : Nat × Nat → Bool) {buf' i : Nat}
    (h : buf' ≠ buf) :
    store tiles ((stageTile T a seq kvHead kv tile buf).filter fun w => p w.1) (buf', i)
      = tiles (buf', i) := by
  refine store_of_not_mem (fun hin => ?_) tiles
  obtain ⟨⟨key, v⟩, hmem, hkey⟩ := List.mem_map.mp hin
  obtain rfl : key = (buf', i) := hkey
  exact h (mem_stageTile.mp (List.mem_of_mem_filter hmem)).1

/-- the elements of the tile that `p` selects are in the buffer -/
def SharedStorage.Holds (s : SharedStorage K) (a : DecodeArgs K) (seq kvHead tile buf : Nat)
    (p : Nat → Nat × Nat → Bool) : Prop :=
  ∀ i < 2048,
    (p 0 (buf, i) → s.kTile (buf, i)
      = a.kvPoolLayer (poolRowOffset (a.tableRow seq tile) (0 : Nat) kvHead a.numKvHeads 0 + i)) ∧
    (p 1 (buf, i) → s.vTile (buf, i)
      = a.kvPoolLayer (poolRowOffset (a.tableRow seq tile) (1 : Nat) kvHead a.numKvHeads 0 + i))

variable {s : SharedStorage K} {p : Nat → Nat × Nat → Bool}

theorem land_holds (s : SharedStorage K) (p : Nat → Nat × Nat → Bool) :
    (s.land ((tileCopies T a seq kvHead tile buf).filter p)).Holds a seq kvHead tile buf p := fun _ hi =>
  ⟨fun hp => (store_stageTile s.kTile (p 0) hi).trans (if_pos hp),
    fun hp => (store_stageTile s.vTile (p 1) hi).trans (if_pos hp)⟩

/-- the rest of a tile arrives -/
theorem SharedStorage.Holds.land_rest (h : s.Holds a seq kvHead tile buf p) :
    (s.land ((tileCopies T a seq kvHead tile buf).filter fun side key => !p side key)).Holds
      a seq kvHead tile buf
      fun _ _ => true := by
  intro i hi
  refine ⟨fun _ => ?_, fun _ => ?_⟩
  · refine (store_stageTile s.kTile (fun key => !p 0 key) hi).trans ?_
    cases hp : p 0 (buf, i) with
    | false => rfl
    | true => exact (h i hi).1 hp
  · refine (store_stageTile s.vTile (fun key => !p 1 key) hi).trans ?_
    cases hp : p 1 (buf, i) with
    | false => rfl
    | true => exact (h i hi).2 hp

/-- copies into the other buffer leave a tile alone -/
theorem SharedStorage.Holds.land_other (T : DecodeThreads) {buf' : Nat} (tile' : Nat)
    (p' : Nat → Nat × Nat → Bool) (h : s.Holds a seq kvHead tile buf p) (hbuf : buf ≠ buf') :
    (s.land ((tileCopies T a seq kvHead tile' buf').filter p')).Holds a seq kvHead tile buf p := fun i hi =>
  ⟨fun hp => (store_stageTile_other s.kTile (p' 0) hbuf).trans ((h i hi).1 hp),
    fun hp => (store_stageTile_other s.vTile (p' 1) hbuf).trans ((h i hi).2 hp)⟩

end

/-! ## the start -/

section
variable {T : DecodeThreads}
omit [Field K] [LinearOrder K]

theorem store_queries (m : Nat × Nat → Extended K) (f : Nat → Extended K) {h d : Nat} (hh : h < 6)
    (hd : d < 128) :
    store m ((List.range T.count).flatMap fun tid =>
      (BlockReduce.strided T.count (kGroupSize * kHeadDim) tid).map
      fun i => ((i / kHeadDim, i % kHeadDim), f i)) (h, d) = f (h * kHeadDim + d) := by
  have hmem : ∀ v, ((h, d), v) ∈ ((List.range T.count).flatMap fun tid =>
      (BlockReduce.strided T.count (kGroupSize * kHeadDim) tid).map fun i =>
        ((i / kHeadDim, i % kHeadDim), f i)) ↔
      v = f (h * kHeadDim + d) := by
    intro v
    simp only [List.mem_flatMap, List.mem_map, List.mem_range, Prod.mk.injEq]
    constructor
    · rintro ⟨tid, _, i, _, ⟨hhead, hdim⟩, rfl⟩
      have hhead : i / 128 = h := hhead
      have hdim : i % 128 = d := hdim
      exact congrArg f (show i = h * 128 + d by omega)
    · rintro rfl
      have hlt : h * kHeadDim + d < kGroupSize * kHeadDim := show h * 128 + d < 6 * 128 by omega
      have hmod := Nat.mod_lt (h * kHeadDim + d) T.count_pos
      exact ⟨_, hmod, h * kHeadDim + d, (BlockReduce.mem_strided hmod).mpr ⟨hlt, rfl⟩,
        ⟨show (h * 128 + d) / 128 = h by omega, show (h * 128 + d) % 128 = d by omega⟩, rfl⟩
  exact store_of_all (List.mem_map.mpr ⟨_, (hmem _).mpr rfl, rfl⟩) (fun v hv => (hmem v).mp hv) m

theorem store_heads (m : Nat → Extended K) (v : Extended K) {h : Nat} (hh : h < 6) :
    store m ((List.range T.count).flatMap fun tid =>
      if tid < kGroupSize then [(tid, v)] else []) h = v := by
  have hcount : 6 ≤ T.count := by cases T <;> decide
  refine store_of_all (List.mem_map.mpr ⟨(h, v),
    List.mem_flatMap.mpr ⟨h, List.mem_range.mpr (by omega), ?_⟩, rfl⟩)
    (fun v' hv => ?_) m
  · rw [if_pos (show h < kGroupSize from hh)]
    exact List.mem_singleton_self _
  · obtain ⟨tid, _, hmem⟩ := List.mem_flatMap.mp hv
    split at hmem
    · exact (Prod.mk.inj (List.mem_singleton.mp hmem)).2
    · cases hmem

end

/-! ## scores -/

section
variable (s : SharedStorage K) (T : DecodeThreads) (buf : Nat)

/-- the dot product of a head's query with a slot of the tile -/
def SharedStorage.dot (h t : Nat) : Extended K :=
  ((List.range kHeadDim).map fun d => s.qTile (h, d) * s.kTile (buf, t * kHeadDim + d)).sum

/-- the dims of one lane -/
def scoreDims (sub : Nat) : List Nat :=
  (List.range 2).flatMap fun c => (List.range 8).map fun e => 64 * c + 8 * sub + e

theorem perm_scoreDims : ((List.range kScoreLanes).flatMap scoreDims).Perm
    (List.range kHeadDim) := by decide

theorem partialDot_eq (pair sub : Nat) : s.partialDot buf pair sub
    = ((scoreDims sub).map fun d => s.qTile (pair / kKvBlockSize, d) *
        s.kTile (buf, pair % kKvBlockSize * kHeadDim + d)).sum := by
  have hflat : s.partialDot buf pair sub = (scoreDims sub).foldl (fun dot d =>
      fma (s.qTile (pair / kKvBlockSize, d))
        (s.kTile (buf, pair % kKvBlockSize * kHeadDim + d)) dot) 0 := by
    unfold scoreDims SharedStorage.partialDot
    simp only [List.foldl_flatMap, List.foldl_map]
  rw [hflat, foldl_fma, zero_add]

/-- the first of the eight lanes gets the whole dot product -/
theorem down_partialDot (pair : Nat) {wpair : Nat} (hw : wpair < 4) (hp : wpair ≤ pair) :
    Shuffle.down (fun x y => x + y) kWarpSize 3
        (fun lane => s.partialDot buf (pair - wpair + lane / kScoreLanes) (lane % kScoreLanes))
          (wpair * kScoreLanes)
      = s.dot buf (pair / kKvBlockSize) (pair % kKvBlockSize) := by
  have hlanes : (Multiset.range (2 ^ 3)).map (fun sub => s.partialDot buf
        (pair - wpair + (wpair * kScoreLanes + sub) / kScoreLanes)
          ((wpair * kScoreLanes + sub) % kScoreLanes))
      = (Multiset.range kScoreLanes).map fun sub => ((scoreDims sub).map fun d =>
          s.qTile (pair / kKvBlockSize, d) * s.kTile
            (buf, pair % kKvBlockSize * kHeadDim + d)).sum := by
    refine Multiset.map_congr rfl fun sub hsub => ?_
    have hsub : sub < 8 := Multiset.mem_range.mp hsub
    have hpair : pair - wpair + (wpair * kScoreLanes + sub) / kScoreLanes = pair := by
      show pair - wpair + (wpair * 8 + sub) / 8 = pair
      omega
    have hlane : (wpair * kScoreLanes + sub) % kScoreLanes = sub := by
      show (wpair * 8 + sub) % 8 = sub
      omega
    rw [hpair, hlane, partialDot_eq]
  have hwidth : wpair * kScoreLanes + 2 ^ 3 ≤ kWarpSize := show wpair * 8 + 8 ≤ 32 by omega
  rw [Shuffle.down_eq (fun x y : Extended K => x + y) zero_add kWarpSize 3 _ _ hwidth, hlanes,
    fold_lanes perm_scoreDims]
  rfl

variable {T} (tileStart seqLen : Nat)

/-- thread `tid` is lane `tid % 8` of the group that starts with pair `tid / 8` -/
theorem scoreThread_eq (tid : Nat) : s.scoreThread T buf tileStart seqLen tid
    = (BlockReduce.strided (T.count / 8) 96 (tid / 8)).flatMap fun pair => if tid % 8 = 0 then
        [((pair / kKvBlockSize, pair % kKvBlockSize), if tileStart + pair % kKvBlockSize < seqLen then
          s.dot buf (pair / kKvBlockSize) (pair % kKvBlockSize) else negInf)] else [] := by
  have hstep : T.count / kWarpSize * (kWarpSize / kScoreLanes) = T.count / 8 := by cases T <;> rfl
  have hstart : tid / kWarpSize * (kWarpSize / kScoreLanes) + tid % kWarpSize / kScoreLanes = tid / 8 :=
    show tid / 32 * 4 + tid % 32 / 8 = tid / 8 by omega
  have hsub : tid % kWarpSize % kScoreLanes = tid % 8 := show tid % 32 % 8 = tid % 8 by omega
  unfold SharedStorage.scoreThread
  simp only [hstep, hstart, hsub]
  refine List.flatMap_congr fun pair hpair => ?_
  obtain ⟨k, _, rfl⟩ := List.mem_map.mp hpair
  by_cases hlane : tid % 8 = 0
  · have hfirst : tid % kWarpSize = tid % kWarpSize / kScoreLanes * kScoreLanes :=
      show tid % 32 = tid % 32 / 8 * 8 by omega
    have hwpair : tid % kWarpSize / kScoreLanes < 4 := show tid % 32 / 8 < 4 by omega
    have hle : tid % kWarpSize / kScoreLanes ≤ tid / 8 + T.count / 8 * k :=
      Nat.le_add_right_of_le (show tid % 32 / 8 ≤ tid / 8 by omega)
    generalize tid % kWarpSize / kScoreLanes = wpair at *
    rw [if_pos hlane, if_pos hlane, hfirst, down_partialDot s buf _ hwpair hle]
  · rw [if_neg hlane, if_neg hlane]

theorem mem_scores {key : Nat × Nat} {v : Extended K} :
    (key, v) ∈ (List.range T.count).flatMap (s.scoreThread T buf tileStart seqLen) ↔
      ∃ pair < 96, key = (pair / kKvBlockSize, pair % kKvBlockSize) ∧
        v = if tileStart + pair % kKvBlockSize < seqLen then s.dot buf (pair / kKvBlockSize)
          (pair % kKvBlockSize)
          else negInf := by
  have hgroups : 0 < T.count / 8 ∧ T.count / 8 * 8 = T.count := by cases T <;> decide
  rw [List.mem_flatMap]
  constructor
  · rintro ⟨tid, _, hmem⟩
    rw [scoreThread_eq, List.mem_flatMap] at hmem
    obtain ⟨pair, hpair, hmem⟩ := hmem
    split at hmem
    · obtain ⟨rfl, rfl⟩ := Prod.mk.inj (List.mem_singleton.mp hmem)
      exact ⟨pair, BlockReduce.lt_of_mem_strided hgroups.1 hpair, rfl, rfl⟩
    · cases hmem
  · rintro ⟨pair, hpair, rfl, rfl⟩
    have hgroup := Nat.mod_lt pair hgroups.1
    have hdiv : pair % (T.count / 8) * 8 / 8 = pair % (T.count / 8) := Nat.mul_div_cancel _ (by decide)
    refine ⟨pair % (T.count / 8) * 8, List.mem_range.mpr (by omega), ?_⟩
    rw [scoreThread_eq, hdiv, List.mem_flatMap]
    refine ⟨pair, (BlockReduce.mem_strided hgroup).mpr ⟨hpair, rfl⟩, ?_⟩
    rw [if_pos (Nat.mul_mod_left _ _)]
    exact List.mem_singleton_self _

/-- **The masked scores.** -/
theorem scorePhase_scores {h t : Nat} (hh : h < 6) (ht : t < 16) :
    (s.scorePhase T buf tileStart seqLen).scores
    (h, t) = if tileStart + t < seqLen then s.dot buf h t else negInf := by
  have hparts : (h * 16 + t) / kKvBlockSize = h ∧ (h * 16 + t) % kKvBlockSize = t :=
    show (h * 16 + t) / 16 = h ∧ (h * 16 + t) % 16 = t by omega
  refine store_of_all (List.mem_map.mpr ⟨_, (mem_scores s buf tileStart seqLen).mpr
    ⟨h * 16 + t, by omega, Prod.ext hparts.1.symm hparts.2.symm, rfl⟩, rfl⟩) (fun v hv => ?_) s.scores
  obtain ⟨pair, _, hkey, rfl⟩ := (mem_scores s buf tileStart seqLen).mp hv
  obtain ⟨rfl, rfl⟩ := Prod.mk.inj hkey
  rfl

end

/-! ## probabilities -/

section
variable (s : SharedStorage K) {T : DecodeThreads} (e : K → K) (tileValid : Nat)

theorem mem_softmaxThreads {A : Type*} {stores : Nat → List A} {x : A} :
    x ∈ softmaxThreads T stores ↔ ∃ tid < 96, x ∈ stores tid := by
  have hcount : 96 ≤ T.count := by cases T <;> decide
  unfold softmaxThreads
  simp only [List.mem_flatMap, List.mem_range]
  constructor
  · rintro ⟨tid, _, hx⟩
    split at hx
    case isTrue h => exact ⟨tid, h, hx⟩
    case isFalse => cases hx
  · rintro ⟨tid, htid, hx⟩
    exact ⟨tid, by omega, (if_pos (show tid < kGroupSize * kKvBlockSize from htid)).symm ▸ hx⟩

omit [Field K] [LinearOrder K] in
/-- the state of a head, as its first lane stored it -/
theorem store_headStores (f value : Nat → Extended K) {h : Nat} (hh : h < 6) :
    store f (headStores T value) h = value (16 * h) := by
  have hmem : ∀ v, (h, v) ∈ headStores T value ↔ v = value (16 * h) := by
    intro v
    unfold headStores
    rw [mem_softmaxThreads]
    constructor
    · rintro ⟨tid, _, hx⟩
      split at hx
      case isTrue h0 =>
        obtain ⟨hhead, rfl⟩ := Prod.mk.inj (List.mem_singleton.mp hx)
        have hhead : h = tid / 16 := hhead
        have h0 : tid % 16 = 0 := h0
        exact congrArg value (by omega)
      case isFalse => cases hx
    · rintro rfl
      refine ⟨16 * h, by omega, ?_⟩
      rw [if_pos (show 16 * h % kKvBlockSize = 0 from Nat.mul_mod_right _ _)]
      have hhead : 16 * h / kKvBlockSize = h := show 16 * h / 16 = h by omega
      rw [hhead]
      exact List.mem_singleton_self _
  exact store_of_all (List.mem_map.mpr ⟨_, (hmem _).mpr rfl, rfl⟩) (fun v hv => (hmem v).mp hv) f

/-- the new maximum of a head -/
def SharedStorage.headMax (h : Nat) : Extended K :=
  fmax (s.m h) (((Multiset.range 16).map fun t => s.scores (h, t)).fold fmax nan)

/-- the probability of a slot of a head -/
def SharedStorage.headProb (h t : Nat) : Extended K :=
  if t < tileValid then exp e (s.scores (h, t) - s.headMax h) else 0

variable {e tileValid} {h t : Nat} (ht : t < 16)
include ht

theorem lane_parts : (16 * h + t) / kKvBlockSize = h ∧ (16 * h + t) % kKvBlockSize = t :=
  show (16 * h + t) / 16 = h ∧ (16 * h + t) % 16 = t by omega

omit [Field K] [LinearOrder K] in
theorem scoreOf_lane : s.scoreOf (16 * h + t) = s.scores (h, t) := by
  obtain ⟨hh, ht⟩ := lane_parts (h := h) ht
  unfold SharedStorage.scoreOf
  rw [hh, ht]

omit [Field K] in
theorem mNew_lane : s.mNew (16 * h + t) = s.headMax h := by
  have hscores : (Multiset.range (2 ^ 4)).map (fun t => s.scoreOf (2 ^ 4 * h + t))
      = (Multiset.range 16).map fun t => s.scores (h, t) :=
    Multiset.map_congr rfl fun t ht => scoreOf_lane s (Multiset.mem_range.mp ht)
  unfold SharedStorage.mNew SharedStorage.headMax
  rw [(lane_parts ht).1]
  have hgroup := Shuffle.butterfly_group fmax nan_fmax 4 s.scoreOf h (t := t) ht
  rw [hscores] at hgroup
  exact congrArg (fmax (s.m h)) hgroup

theorem prob_lane : s.prob e tileValid (16 * h + t) = s.headProb e tileValid h t := by
  unfold SharedStorage.prob SharedStorage.headProb
  rw [(lane_parts ht).2, scoreOf_lane s ht, mNew_lane s ht]

theorem tileSum_lane : s.tileSum e tileValid (16 * h + t) = ∑ t ∈ Finset.range 16,
    s.headProb e tileValid h t := by
  have hprobs : (Multiset.range (2 ^ 4)).map (fun t => s.prob e tileValid (2 ^ 4 * h + t))
      = (Multiset.range 16).map (s.headProb e tileValid h) :=
    Multiset.map_congr rfl fun t ht => prob_lane s (Multiset.mem_range.mp ht)
  have hgroup := Shuffle.butterfly_group (fun x y : Extended K => x + y) zero_add 4
    (s.prob e tileValid) h (t := t) ht
  rw [hprobs] at hgroup
  exact hgroup.trans (fold_add_finset 16 _)

theorem softmaxPhase_scores (hh : h < 6) :
    (s.softmaxPhase T e tileValid).scores (h, t) = s.headProb e tileValid h t := by
  have hmem : ∀ v, ((h, t), v) ∈ softmaxThreads T (fun tid =>
      [((tid / kKvBlockSize, tid % kKvBlockSize),
        s.prob e tileValid tid)]) ↔ v = s.headProb e tileValid h t := by
    intro v
    rw [mem_softmaxThreads]
    constructor
    · rintro ⟨tid, _, hx⟩
      obtain ⟨hkey, rfl⟩ := Prod.mk.inj (List.mem_singleton.mp hx)
      obtain ⟨hhead, hslot⟩ := Prod.mk.inj hkey
      obtain rfl : tid = 16 * h + t := by
        have hhead : h = tid / 16 := hhead
        have hslot : t = tid % 16 := hslot
        omega
      exact prob_lane s ht
    · rintro rfl
      obtain ⟨hhead, hslot⟩ := lane_parts (h := h) ht
      refine ⟨16 * h + t, by omega, ?_⟩
      rw [hhead, hslot, prob_lane s ht]
      exact List.mem_singleton_self _
  exact store_of_all (List.mem_map.mpr ⟨_, (hmem _).mpr rfl, rfl⟩) (fun v hv => (hmem v).mp hv) s.scores

omit ht

theorem softmaxPhase_m (hh : h < 6) : (s.softmaxPhase T e tileValid).m h = s.headMax h :=
  (store_headStores _ _ hh).trans (mNew_lane s (t := 0) (by decide))

theorem alphaNew_lane (h : Nat) : s.alphaNew e (16 * h) = exp e (s.m h - s.headMax h) := by
  have hm := mNew_lane s (h := h) (t := 0) (by decide)
  have hhead : 16 * h / kKvBlockSize = h := (lane_parts (h := h) (t := 0) (by decide)).1
  unfold SharedStorage.alphaNew
  rw [hhead]
  exact congrArg (fun m => exp e (s.m h - m)) hm

theorem softmaxPhase_alpha (hh : h < 6) :
    (s.softmaxPhase T e tileValid).alpha h = exp e (s.m h - s.headMax h) :=
  (store_headStores _ _ hh).trans (alphaNew_lane s h)

theorem softmaxPhase_l (hh : h < 6) : (s.softmaxPhase T e tileValid).l h
    = s.l h * exp e (s.m h - s.headMax h) + ∑ t ∈ Finset.range 16, s.headProb e tileValid h t := by
  have hhead : 16 * h / kKvBlockSize = h := (lane_parts (h := h) (t := 0) (by decide)).1
  refine (store_headStores _ _ hh).trans ?_
  rw [alphaNew_lane, hhead]
  exact congrArg _ (tileSum_lane s (t := 0) (by decide))

end
end Redline
