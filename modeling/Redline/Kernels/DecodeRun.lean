import Redline.Kernels.DecodePhases

/-!
# A CTA of the decode kernel, tile by tile

After `k` tiles the state of each head, and each accumulator, is the softmax sum over the positions of
these tiles, shifted by the largest score so far (`CtaInv`).  `ctaFinal_inv` carries it to the end.
-/

namespace Redline
open Extended Stores OnlineSoftmax
variable {K : Type*} [Field K] [LinearOrder K]

/-! ## scores and values of a sequence -/

section
variable (a : DecodeArgs K) (seq kvHead : Nat)

/-- the cached key (side 0) or value (side 1) of a position -/
def cachedCell (side pos d : Nat) : Extended K :=
  a.kvPoolLayer (poolRowOffset (a.tableRow seq (pos / kKvBlockSize)) side kvHead a.numKvHeads
    (pos % kKvBlockSize : Nat) + d)

/-- the scaled query of a head -/
def scaledQuery (qHead d : Nat) : Extended K :=
  a.q (seq * a.qRowStride + qHead * kHeadDim + d) * real a.scale

/-- the score of a position -/
def scoreAt (qHead pos : Nat) : Extended K :=
  ((List.range kHeadDim).map fun d => scaledQuery a seq qHead d * cachedCell a seq kvHead 0 pos d).sum

/-- the cells that the sequence is entitled to read are finite; the others are arbitrary -/
structure DecodeArgs.LiveFinite : Prop where
  query : ∀ qHead d : Nat, (qHead : Int) < a.numKvHeads * kGroupSize → d < kHeadDim →
    ∃ x, a.q (seq * a.qRowStride + qHead * kHeadDim + d) = real x
  cells : ∀ side < 2, ∀ kvHead pos d : Nat, (kvHead : Int) < a.numKvHeads →
    (pos : Int) < a.seqLen seq → d < kHeadDim →
    ∃ x, cachedCell a seq kvHead side pos d = real x

end

section
variable {a : DecodeArgs K} {seq kvHead n : Nat}

/-- the scores and the values of a head are numbers -/
structure HeadFinite (a : DecodeArgs K) (seq kvHead n : Nat) (s v : Nat → Nat → K) : Prop where
  score : ∀ h < kGroupSize, ∀ pos < n,
    scoreAt a seq kvHead (kvHead * kGroupSize + h) pos = real (s h pos)
  value : ∀ d < kHeadDim, ∀ pos < n, cachedCell a seq kvHead 1 pos d = real (v d pos)

theorem DecodeArgs.LiveFinite.head (hfinite : a.LiveFinite seq) (hn : (n : Int) = a.seqLen seq)
    (hkv : (kvHead : Int) < a.numKvHeads) : ∃ s v, HeadFinite a seq kvHead n s v := by
  have hcell : ∀ side < 2, ∀ d < kHeadDim, ∀ pos < n, ∃ x,
      cachedCell a seq kvHead side pos d = real x :=
    fun side hside d hd pos hpos => hfinite.cells side hside kvHead pos d hkv (by omega) hd
  have hscore : ∀ h < kGroupSize, ∀ pos < n, ∃ x,
      scoreAt a seq kvHead (kvHead * kGroupSize + h) pos = real x := by
    intro h hh pos hpos
    refine sum_finite fun d hd => ?_
    have hh : h < 6 := hh
    obtain ⟨x, hx⟩ := hfinite.query (kvHead * kGroupSize + h) d
      (show ((kvHead * 6 + h : Nat) : Int) < a.numKvHeads * 6 by omega) (List.mem_range.mp hd)
    obtain ⟨y, hy⟩ := hcell 0 (by decide) d (List.mem_range.mp hd) pos hpos
    refine ⟨x * a.scale * y, ?_⟩
    unfold scaledQuery
    rw [hx, hy]
    rfl
  exact ⟨fun h pos => (scoreAt a seq kvHead (kvHead * kGroupSize + h) pos).val,
    fun d pos => (cachedCell a seq kvHead 1 pos d).val, fun h hh pos hpos =>
      real_val (hscore h hh pos hpos),
    fun d hd pos hpos => real_val (hcell 1 (by decide) d hd pos hpos)⟩

/-! ## a tile in its buffer -/

/-- a slot of a tile is a position -/
theorem poolRow_slot (block kv head num : Int) (t d : Nat) :
    poolRowOffset block kv head num 0 + (t * kHeadDim + d : Nat)
      = poolRowOffset block kv head num t + d := by
  unfold poolRowOffset
  push_cast
  ring

variable {s : SharedStorage K} {tile buf t d : Nat}

omit [Field K] [LinearOrder K] in
theorem SharedStorage.Holds.slot (h : s.Holds a seq kvHead tile buf fun _ _ => true) (ht : t < 16)
    (hd : d < 128) :
    s.kTile (buf, t * kHeadDim + d) = cachedCell a seq kvHead 0 (tile * kKvBlockSize + t) d ∧
      s.vTile (buf, t * kHeadDim + d) = cachedCell a seq kvHead 1 (tile * kKvBlockSize + t) d := by
  have hslot : (tile * kKvBlockSize + t) / kKvBlockSize = tile ∧
      (tile * kKvBlockSize + t) % kKvBlockSize = t :=
    show (tile * 16 + t) / 16 = tile ∧ (tile * 16 + t) % 16 = t by omega
  obtain ⟨hk, hv⟩ := h (t * kHeadDim + d) (show t * 128 + d < 2048 by omega)
  unfold cachedCell
  rw [hk rfl, hv rfl, hslot.1, hslot.2, poolRow_slot, poolRow_slot]
  exact ⟨rfl, rfl⟩

theorem SharedStorage.Holds.dot (h : s.Holds a seq kvHead tile buf fun _ _ => true)
    (hq : ∀ h < kGroupSize, ∀ d < kHeadDim,
      s.qTile (h, d) = scaledQuery a seq (kvHead * kGroupSize + h) d) {head : Nat}
    (hhead : head < kGroupSize) (ht : t < 16) :
    s.dot buf head t = scoreAt a seq kvHead (kvHead * kGroupSize + head) (tile * kKvBlockSize + t) := by
  unfold SharedStorage.dot scoreAt
  refine congrArg List.sum (List.map_congr_left fun d hd => ?_)
  have hd := List.mem_range.mp hd
  rw [hq head hhead d hd, (h.slot ht hd).1]

end

/-! ## the invariant -/

/-- the scores of a head of the group -/
def headScore (a : DecodeArgs K) (seq kvHead h : Nat) : Nat → Extended K :=
  scoreAt a seq kvHead (kvHead * kGroupSize + h)

/-- the state of a CTA after `k` tiles of a sequence of `n` positions -/
structure CtaInv (e : K → K) (T : DecodeThreads) (cpAsync : Bool) (u : Unspecified K) (a : DecodeArgs K)
    (seq kvHead n : Nat) (s v : Nat → Nat → K) (k : Nat) (c : CtaState K) : Prop where
  query : ∀ h < kGroupSize, ∀ d < kHeadDim,
    c.shared.qTile (h, d) = scaledQuery a seq (kvHead * kGroupSize + h) d
  m : ∀ h < kGroupSize, c.shared.m h = top (headScore a seq kvHead h) (min (k * kKvBlockSize) n)
  l : ∀ h < kGroupSize, c.shared.l h
    = real (shifted e (headScore a seq kvHead h) (s h) (fun _ => 1) (min (k * kKvBlockSize) n))
  acc : ∀ tid j, ownedHead T tid j < kGroupSize → c.acc tid j
    = real (shifted e (headScore a seq kvHead (ownedHead T tid j)) (s (ownedHead T tid j)) (v (tid % kHeadDim))
      (min (k * kKvBlockSize) n))
  prefetched : cpAsync = true → k * kKvBlockSize < n →
    c.inFlight = [(tileCopies T a seq kvHead k (k % 2)).filter fun side key => !u.arrives k side key] ∧
      c.shared.Holds a seq kvHead k (k % 2) (u.arrives k)

section
variable {e : K → K} {T : DecodeThreads} {cpAsync : Bool} {u : Unspecified K} {a : DecodeArgs K}
  {seq kvHead n : Nat} {s v : Nat → Nat → K} {k : Nat} {c : CtaState K}

theorem ctaStart_inv : CtaInv e T cpAsync u a seq kvHead n s v 0
    (ctaStart T cpAsync u a seq kvHead) := by
  have hrow : ∀ h d : Nat, ((seq * a.qRowStride + kvHead * kGroupSize * kHeadDim : Int) + (h * kHeadDim + d : Nat))
      = seq * a.qRowStride + (kvHead * kGroupSize + h : Nat) * kHeadDim + d := by
    intro h d
    push_cast
    ring
  have hquery : ∀ h < kGroupSize, ∀ d < kHeadDim,
      (ctaStart T cpAsync u a seq kvHead).shared.qTile (h, d)
        = scaledQuery a seq (kvHead * kGroupSize + h) d := by
    intro h hh d hd
    have hstore := store_queries (T := T) u.shared.qTile (fun i =>
      a.q (seq * a.qRowStride + kvHead * kGroupSize * kHeadDim + i) * real a.scale) hh hd
    rw [hrow] at hstore
    cases cpAsync <;> exact hstore
  have hempty : ∀ score : Nat → Extended K, top score (min (0 * kKvBlockSize) n) = negInf := by
    intro score
    rw [Nat.zero_mul, Nat.zero_min]
    rfl
  have hzero : ∀ (score : Nat → Extended K) num f,
      real (shifted e score num f (min (0 * kKvBlockSize) n)) = 0 := by
    intro score num f
    rw [Nat.zero_mul, Nat.zero_min, shifted_zero]
    rfl
  refine ⟨hquery, fun h hh => ?_, fun h hh => ?_, fun tid j _ => ?_, fun hasync _ => ?_⟩
  · rw [hempty]
    cases cpAsync <;> exact store_heads u.shared.m negInf hh
  · rw [hzero]
    cases cpAsync <;> exact store_heads u.shared.l 0 hh
  · rw [hzero]
    cases cpAsync <;> rfl
  · subst hasync
    exact ⟨rfl, land_holds _ _⟩

/-- a staged tile -/
structure Staged (T : DecodeThreads) (cpAsync : Bool) (u : Unspecified K) (a : DecodeArgs K)
    (seq kvHead n k : Nat) (c c' : CtaState K) : Prop where
  holds : c'.shared.Holds a seq kvHead k (tileBuffer cpAsync k) fun _ _ => true
  qTile : c'.shared.qTile = c.shared.qTile
  m : c'.shared.m = c.shared.m
  l : c'.shared.l = c.shared.l
  acc : c'.acc = c.acc
  prefetched : cpAsync = true → (k + 1) * kKvBlockSize < n →
    c'.inFlight = [(tileCopies T a seq kvHead (k + 1) ((k + 1) % 2)).filter fun side key =>
      !u.arrives (k + 1) side key] ∧
      c'.shared.Holds a seq kvHead (k + 1) ((k + 1) % 2) (u.arrives (k + 1))

theorem stage_staged (h : CtaInv e T cpAsync u a seq kvHead n s v k c) (hk : k * kKvBlockSize < n) :
    Staged T cpAsync u a seq kvHead n k c
      (c.stage T cpAsync u a seq kvHead ((n + kKvBlockSize - 1) / kKvBlockSize) k) := by
  have hnext : k + 1 < (n + kKvBlockSize - 1) / kKvBlockSize ↔ (k + 1) * kKvBlockSize < n := by
    show k + 1 < (n + 16 - 1) / 16 ↔ (k + 1) * 16 < n
    omega
  unfold CtaState.stage
  cases cpAsync with
  | false =>
    have hall : (tileCopies T a seq kvHead k 0).filter (fun _ _ => true)
        = tileCopies T a seq kvHead k 0 := by
      unfold TileCopies.filter
      simp only [List.filter_true]
    refine ⟨?_, rfl, rfl, rfl, rfl, nofun⟩
    have hland : (c.shared.land ((tileCopies T a seq kvHead k 0).filter fun _ _ => true)).Holds
        a seq kvHead k 0
        fun _ _ => true := land_holds c.shared _
    rwa [hall] at hland
  | true =>
    obtain ⟨hflight, hbuf⟩ := h.prefetched rfl hk
    have hother : k % 2 ≠ (k + 1) % 2 := by omega
    rw [if_pos rfl]
    by_cases hmore : (k + 1) * kKvBlockSize < n
    · rw [if_pos (hnext.mpr hmore)]
      unfold CtaState.commit CtaState.waitPrior
      rw [hflight]
      have hrest := (hbuf.land_other T (k + 1) (u.arrives (k + 1)) hother).land_rest (T := T)
      refine ⟨hrest, rfl, rfl, rfl, rfl, fun _ _ => ⟨rfl, ?_⟩⟩
      exact (land_holds c.shared (u.arrives (k + 1))).land_other _ _ _ hother.symm
    · rw [if_neg fun hlt => hmore (hnext.mp hlt)]
      unfold CtaState.waitPrior
      rw [hflight]
      exact ⟨hbuf.land_rest, rfl, rfl, rfl, rfl, fun _ hlt => absurd hlt hmore⟩

/-! ### one tile -/

/-- the scores of a staged tile -/
theorem tile_scores {c' : CtaState K} (h : CtaInv e T cpAsync u a seq kvHead n s v k c)
    (hs : Staged T cpAsync u a seq kvHead n k c c') {head t : Nat} (hhead : head < kGroupSize)
    (ht : t < 16) :
    (c'.shared.scorePhase T (tileBuffer cpAsync k) (k * kKvBlockSize) n).scores (head, t)
      = if t < min kKvBlockSize (n - k * kKvBlockSize) then headScore a seq kvHead head
        (k * kKvBlockSize + t)
        else negInf := by
  have hvalid : t < min kKvBlockSize (n - k * kKvBlockSize) ↔ k * kKvBlockSize + t < n := by
    show t < min 16 (n - k * 16) ↔ k * 16 + t < n
    omega
  have hdot :=
    hs.holds.dot (fun h' hh d hd => (congrFun hs.qTile (h', d)).trans (h.query h' hh d hd)) hhead ht
  rw [scorePhase_scores _ _ _ _ hhead ht, hdot]
  simp only [hvalid]
  rfl

/-! a head of the shared memory `x` that holds a masked tile of scores -/

section
variable {x : SharedStorage K} {head p w : Nat} {score : Nat → Extended K}
    (hm : x.m head = top score p) (hw : w ≤ 16)
  (hx : ∀ t < 16, x.scores (head, t) = if t < w then score (p + t) else negInf)
include hm hw hx

omit [Field K] in
theorem headMax_tile : x.headMax head = top score (p + w) := by
  have hmap : (Multiset.range 16).map (fun t => x.scores (head, t))
      = (Multiset.range 16).map fun t => if t < w then score (p + t) else negInf :=
    Multiset.map_congr rfl fun t ht => hx t (Multiset.mem_range.mp ht)
  unfold SharedStorage.headMax
  rw [hm, hmap, top_tile score p hw]

theorem headProb_tile {t : Nat} (ht : t < 16) :
    x.headProb e w head t = if t < w then exp e (score (p + t) - top score (p + w)) else 0 := by
  unfold SharedStorage.headProb
  rw [headMax_tile hm hw hx, hx t ht]
  by_cases htw : t < w
  · simp only [if_pos htw]
  · simp only [if_neg htw]

variable {num : Nat → K} (hadd : ∀ x y, e (x + y) = e x * e y) (hw0 : 0 < w)
  (hnum : ∀ j < p + w, score j = real (num j))
include hadd hw0 hnum

/-- the denominator of the head -/
theorem softmaxPhase_l_tile (hhead : head < 6)
    (hl : x.l head = real (shifted e score num (fun _ => 1) p)) :
    (x.softmaxPhase T e w).l head = real (shifted e score num (fun _ => 1) (p + w)) := by
  have hsum : ∑ t ∈ Finset.range 16, x.headProb e w head t
      = ∑ t ∈ Finset.range w, exp e (score (p + t) - top score (p + w)) * real 1 := by
    rw [Finset.sum_congr rfl fun t ht => headProb_tile hm hw hx (Finset.mem_range.mp ht), sum_masked hw]
    refine Finset.sum_congr rfl fun t ht => (exp_mul_one hnum ?_).symm
    exact Nat.add_lt_add_left (Finset.mem_range.mp ht) p
  rw [softmaxPhase_l x hhead, hl, hm, headMax_tile hm hw hx, hsum, shifted_tile hadd _ hw0 hnum]

/-- an accumulator of the head -/
theorem foldTile_tile {acc : Nat → Nat → Extended K} {tid j buf : Nat} {val : Nat → K}
    (hown : ownedHead T tid j = head)
    (hhead : head < 6) (hacc : acc tid j = real (shifted e score num val p))
    (hv : ∀ t < w, x.vTile (buf, t * kHeadDim + tid % kHeadDim) = real (val (p + t))) :
    foldTile (x.softmaxPhase T e w) T buf w acc tid j = real (shifted e score num val (p + w)) := by
  have htokens : (if w = kKvBlockSize then List.range kKvBlockSize else List.range w)
      = List.range w := by
    split
    case isTrue h => rw [h]
    case isFalse => rfl
  have hsum : ((List.range w).map fun t => (x.softmaxPhase T e w).scores (head, t) *
        (x.softmaxPhase T e w).vTile (buf, t * kHeadDim + tid % kHeadDim)).sum
      = ∑ t ∈ Finset.range w, exp e (score (p + t) - top score (p + w)) * real (val (p + t)) := by
    rw [← fold_add_range, fold_add_finset]
    refine Finset.sum_congr rfl fun t ht => ?_
    have ht := Finset.mem_range.mp ht
    rw [softmaxPhase_scores x (ht.trans_le hw) hhead,
      headProb_tile hm hw hx (ht.trans_le hw), if_pos ht]
    exact congrArg _ (hv t ht)
  unfold foldTile
  simp only [hown, htokens]
  rw [foldl_fma, hsum, softmaxPhase_alpha x hhead, hacc, hm, headMax_tile hm hw hx,
    shifted_tile hadd _ hw0 hnum]

end

/-- **One tile.** -/
theorem tileStep_inv (hadd : ∀ x y, e (x + y) = e x * e y) (hf : HeadFinite a seq kvHead n s v)
    (h : CtaInv e T cpAsync u a seq kvHead n s v k c) (hk : k * kKvBlockSize < n) :
    CtaInv e T cpAsync u a seq kvHead n s v (k + 1)
      (tileStep e T cpAsync u a seq kvHead n ((n + kKvBlockSize - 1) / kKvBlockSize) c k) := by
  have hs := stage_staged h hk
  unfold tileStep
  generalize c.stage T cpAsync u a seq kvHead ((n + kKvBlockSize - 1) / kKvBlockSize) k = c' at hs ⊢
  obtain ⟨hp, hend, hw0, hw⟩ : min (k * kKvBlockSize) n = k * kKvBlockSize ∧
      min ((k + 1) * kKvBlockSize) n = k * kKvBlockSize + min kKvBlockSize (n - k * kKvBlockSize) ∧
      0 < min kKvBlockSize (n - k * kKvBlockSize) ∧ min kKvBlockSize (n - k * kKvBlockSize) ≤ 16 := by
    have hk : k * 16 < n := hk
    show min (k * 16) n = k * 16 ∧ min ((k + 1) * 16) n = k * 16 + min 16 (n - k * 16) ∧
      0 < min 16 (n - k * 16) ∧
      min 16 (n - k * 16) ≤ 16
    omega
  have hwn : k * kKvBlockSize + min kKvBlockSize (n - k * kKvBlockSize) ≤ n :=
    hend ▸ Nat.min_le_right _ _
  have hm : ∀ head < 6, (c'.shared.scorePhase T (tileBuffer cpAsync k) (k * kKvBlockSize) n).m head
      = top (headScore a seq kvHead head) (k * kKvBlockSize) := by
    intro head hhead
    show c'.shared.m head = _
    rw [hs.m, h.m head hhead, hp]
  have hnum : ∀ head < 6, ∀ j < k * kKvBlockSize + min kKvBlockSize (n - k * kKvBlockSize),
      headScore a seq kvHead head j = real (s head j) :=
        fun head hhead j hj => hf.score head hhead j (hj.trans_le hwn)
  refine ⟨fun head hhead d hd => ?_, fun head hhead => ?_, fun head hhead => ?_,
    fun tid j hhead => ?_, hs.prefetched⟩
  · exact (congrFun hs.qTile (head, d)).trans (h.query head hhead d hd)
  · rw [hend]
    exact (softmaxPhase_m _ hhead).trans
      (headMax_tile (hm head hhead) hw fun t ht => tile_scores h hs hhead ht)
  · have hl : c'.shared.l head = real
        (shifted e (headScore a seq kvHead head) (s head) (fun _ => 1) (k * kKvBlockSize)) := by
      rw [hs.l, h.l head hhead, hp]
    rw [hend]
    exact softmaxPhase_l_tile (hm head hhead) hw (fun t ht => tile_scores h hs hhead ht) hadd hw0
      (hnum head hhead) hhead hl
  · have hacc := h.acc tid j hhead
    rw [hp, ← hs.acc] at hacc
    rw [hend]
    refine foldTile_tile (hm _ hhead) hw (fun t ht => tile_scores h hs hhead ht) hadd hw0
      (hnum _ hhead) rfl hhead hacc
      fun t ht => ?_
    have hd := Nat.mod_lt tid (show 0 < kHeadDim by decide)
    exact (hs.holds.slot (ht.trans_le hw) hd).2.trans
      (hf.value _ hd _ ((Nat.add_lt_add_left ht _).trans_le hwn))

variable (T cpAsync u) in
/-- **The whole loop.** -/
theorem ctaFinal_inv (hadd : ∀ x y, e (x + y) = e x * e y) (hf : HeadFinite a seq kvHead n s v) :
    CtaInv e T cpAsync u a seq kvHead n s v ((n + kKvBlockSize - 1) / kKvBlockSize)
      (ctaFinal e T cpAsync u a seq kvHead n) := by
  have hrun : ∀ k ≤ (n + kKvBlockSize - 1) / kKvBlockSize, CtaInv e T cpAsync u a seq kvHead n s v k
      ((List.range k).foldl (tileStep e T cpAsync u a seq kvHead n ((n + kKvBlockSize - 1) / kKvBlockSize))
        (ctaStart T cpAsync u a seq kvHead)) := by
    intro k
    induction k with
    | zero => exact fun _ => ctaStart_inv
    | succ k ih =>
      intro hk
      have hlt : k * kKvBlockSize < n := by
        have hk : k + 1 ≤ (n + 16 - 1) / 16 := hk
        show k * 16 < n
        omega
      rw [List.range_succ, List.foldl_append]
      exact tileStep_inv hadd hf (ih (by omega)) hlt
  exact hrun _ (Nat.le_refl _)

/-- after the last tile every position was taken in -/
theorem tiles_cover (n : Nat) : min ((n + kKvBlockSize - 1) / kKvBlockSize * kKvBlockSize) n = n := by
  show min ((n + 16 - 1) / 16 * 16) n = n
  omega

end
end Redline
