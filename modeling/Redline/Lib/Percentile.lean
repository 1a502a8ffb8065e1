import Mathlib.Algebra.Order.Floor.Ring
import Mathlib.Data.List.GetD
import Mathlib.Data.List.Sort
import Mathlib.Tactic.FieldSimp
import Mathlib.Tactic.Linarith
import Mathlib.Tactic.Ring

/-!
# Percentiles by linear interpolation

The value at rank `p / 100 * (n - 1)` of the sorted samples.

* `percentile_perm`      the order of the samples does not matter;
* `percentile_mono`      a larger `p` gives no smaller value;
* `percentile_between`   the value lies between the smallest and the largest sample;
* `percentile_scale`     a common positive factor comes out;
* `abs_percentile_sub_le` samples that move by at most `δ` move no percentile by more.
-/

namespace Percentile
variable {K : Type*} [Field K] [LinearOrder K] [FloorRing K]

/-- sample `low` and a fraction of the step to the next one -/
def atRank (data : List K) (rank : K) : K :=
  let low := ⌊rank⌋.toNat
  let high := min (low + 1) (data.length - 1)
  data.getD low 0 + (rank - low) * (data.getD high 0 - data.getD low 0)

def rank (n : Nat) (p : K) : K := p / 100 * ((n - 1 : Nat) : K)

def percentile (values : List K) (p : K) : K :=
  atRank (values.insertionSort (· ≤ ·)) (rank values.length p)

/-! ## sorted samples -/

section
omit [FloorRing K] [Field K]
variable [Zero K]

theorem getD_mono {data : List K} (hs : data.Pairwise (· ≤ ·)) {i j : Nat} (hij : i ≤ j)
    (hj : j < data.length) :
    data.getD i 0 ≤ data.getD j 0 := by
  have hi := Nat.lt_of_le_of_lt hij hj
  rw [List.getD_eq_getElem data 0 hi, List.getD_eq_getElem data 0 hj]
  rcases Nat.eq_or_lt_of_le hij with rfl | hlt
  · exact le_refl _
  · exact List.pairwise_iff_getElem.mp hs i j hi hj hlt

omit [LinearOrder K] in
theorem getD_mem {data : List K} {i : Nat} (hi : i < data.length) : data.getD i 0 ∈ data := by
  rw [List.getD_eq_getElem data 0 hi]
  exact List.getElem_mem hi

end

section
variable [IsStrictOrderedRing K] {data : List K} {r : K}

/-- a rank of `n` samples -/
structure InRange (n : Nat) (r : K) : Prop where
  nonneg : 0 ≤ r
  le : r ≤ ((n - 1 : Nat) : K)

theorem InRange.low (hr : InRange data.length r) (hn : data ≠ []) :
    ((⌊r⌋.toNat : Nat) : K) ≤ r ∧ r < (⌊r⌋.toNat : Nat) + 1 ∧ ⌊r⌋.toNat < data.length := by
  have hfloor : ((⌊r⌋.toNat : Nat) : Int) = ⌊r⌋ := Int.toNat_of_nonneg (Int.floor_nonneg.mpr hr.nonneg)
  have hcast : ((⌊r⌋.toNat : Nat) : K) = (⌊r⌋ : K) := by
    rw [← hfloor]
    exact (Int.cast_natCast _).symm
  have hlast : ⌊r⌋ ≤ ((data.length - 1 : Nat) : Int) := by
    have h := (Int.floor_le r).trans hr.le
    exact_mod_cast h
  have hpos := List.length_pos_iff.mpr hn
  rw [hcast]
  exact ⟨Int.floor_le r, Int.lt_floor_add_one r, by omega⟩

/-- between the two samples around the rank -/
theorem atRank_bounds (hs : data.Pairwise (· ≤ ·)) (hn : data ≠ []) (hr : InRange data.length r) :
    data.getD ⌊r⌋.toNat 0 ≤ atRank data r ∧
      atRank data r ≤ data.getD (min (⌊r⌋.toNat + 1) (data.length - 1)) 0 := by
  obtain ⟨hle, hlt, hlow⟩ := hr.low hn
  have hstep : data.getD ⌊r⌋.toNat 0 ≤ data.getD (min (⌊r⌋.toNat + 1) (data.length - 1)) 0 :=
    getD_mono hs (by omega) (by omega)
  unfold atRank
  constructor
  · have : 0 ≤ (r - (⌊r⌋.toNat : Nat)) * (data.getD (min (⌊r⌋.toNat + 1) (data.length - 1)) 0 -
        data.getD ⌊r⌋.toNat 0) := mul_nonneg (by linarith) (by linarith)
    linarith
  · have : (r - (⌊r⌋.toNat : Nat)) * (data.getD (min (⌊r⌋.toNat + 1) (data.length - 1)) 0 -
        data.getD ⌊r⌋.toNat 0) ≤ 1 * (data.getD (min (⌊r⌋.toNat + 1) (data.length - 1)) 0 -
        data.getD ⌊r⌋.toNat 0) := mul_le_mul_of_nonneg_right (by linarith) (by linarith)
    linarith

theorem atRank_mono (hs : data.Pairwise (· ≤ ·)) (hn : data ≠ []) {r' : K} (hr : InRange data.length r)
    (hr' : InRange data.length r') (h : r ≤ r') : atRank data r ≤ atRank data r' := by
  have hfloor : ⌊r⌋.toNat ≤ ⌊r'⌋.toNat := Int.toNat_le_toNat (Int.floor_le_floor h)
  rcases Nat.eq_or_lt_of_le hfloor with heq | hlt
  · -- on one piece the slope is not negative
    obtain ⟨_, _, hlow⟩ := hr.low hn
    have hstep : data.getD ⌊r⌋.toNat 0 ≤ data.getD (min (⌊r⌋.toNat + 1) (data.length - 1)) 0 :=
      getD_mono hs (by omega) (by omega)
    unfold atRank
    rw [← heq]
    have : (r - (⌊r⌋.toNat : Nat)) * (data.getD (min (⌊r⌋.toNat + 1) (data.length - 1)) 0 -
        data.getD ⌊r⌋.toNat 0) ≤ (r' - (⌊r⌋.toNat : Nat)) * (data.getD (min (⌊r⌋.toNat + 1) (data.length - 1)) 0 -
        data.getD ⌊r⌋.toNat 0) := mul_le_mul_of_nonneg_right (by linarith) (by linarith)
    exact add_le_add (le_refl _) this
  · obtain ⟨_, _, hlow'⟩ := hr'.low hn
    calc atRank data r ≤ data.getD (min (⌊r⌋.toNat + 1) (data.length - 1)) 0 := (atRank_bounds hs hn hr).2
      _ ≤ data.getD ⌊r'⌋.toNat 0 := getD_mono hs (by omega) hlow'
      _ ≤ atRank data r' := (atRank_bounds hs hn hr').1

end

/-! ## percentiles -/

section
variable {values : List K}

/-- **The order of the samples does not matter.** -/
theorem percentile_perm {values' : List K} (h : values.Perm values') (p : K) :
    percentile values p = percentile values' p := by
  have hsort : values.insertionSort (· ≤ ·) = values'.insertionSort (· ≤ ·) :=
    List.Perm.eq_of_pairwise' (List.pairwise_insertionSort _ _) (List.pairwise_insertionSort _ _)
      ((List.perm_insertionSort _ _).trans (h.trans (List.perm_insertionSort _ _).symm))
  unfold percentile
  rw [hsort, h.length_eq]

variable [IsStrictOrderedRing K]

/-- one sample is all its percentiles -/
theorem percentile_single (h : (values.insertionSort (· ≤ ·)).length = 1) (p : K) :
    percentile values p = (values.insertionSort (· ≤ ·)).getD 0 0 := by
  have hlen : values.length = 1 := (List.length_insertionSort (· ≤ ·) values).symm.trans h
  have hrank : rank values.length p = 0 := by
    unfold rank
    rw [hlen, Nat.sub_self, Nat.cast_zero]
    exact mul_zero _
  unfold percentile atRank
  rw [hrank, h]
  simp

theorem rank_inRange (n : Nat) {p : K} (h0 : 0 ≤ p) (h : p ≤ 100) : InRange n (rank n p) := by
  have hn : (0 : K) ≤ ((n - 1 : Nat) : K) := Nat.cast_nonneg _
  refine ⟨mul_nonneg (div_nonneg h0 (by norm_num)) hn, ?_⟩
  have hp : p / 100 ≤ 1 := (div_le_one (by norm_num)).mpr h
  calc rank n p ≤ 1 * ((n - 1 : Nat) : K) := mul_le_mul_of_nonneg_right hp hn
    _ = _ := one_mul _

omit [Field K] [FloorRing K] [IsStrictOrderedRing K] in
theorem sorted_ne_nil (hn : values ≠ []) : values.insertionSort (· ≤ ·) ≠ [] := fun h =>
  hn ((List.perm_insertionSort _ values).symm.trans (List.Perm.of_eq h)).eq_nil

/-- **A larger `p` gives no smaller value.** -/
theorem percentile_mono (hn : values ≠ []) {p p' : K} (h0 : 0 ≤ p) (h : p ≤ p') (h1 : p' ≤ 100) :
    percentile values p ≤ percentile values p' := by
  have hlen := List.length_insertionSort (· ≤ ·) values
  have hrank : rank values.length p ≤ rank values.length p' :=
    mul_le_mul_of_nonneg_right (div_le_div_of_nonneg_right h (by norm_num)) (Nat.cast_nonneg _)
  refine atRank_mono (List.pairwise_insertionSort _ _) (sorted_ne_nil hn) ?_ ?_ hrank
  · exact hlen.symm ▸ rank_inRange _ h0 (h.trans h1)
  · exact hlen.symm ▸ rank_inRange _ (h0.trans h) h1

/-- **Between the smallest and the largest sample.** -/
theorem percentile_between (hn : values ≠ []) {p lo hi : K} (h0 : 0 ≤ p) (h : p ≤ 100)
    (hlo : ∀ x ∈ values, lo ≤ x)
    (hhi : ∀ x ∈ values, x ≤ hi) : lo ≤ percentile values p ∧ percentile values p ≤ hi := by
  have hlen := List.length_insertionSort (· ≤ ·) values
  have hr : InRange (values.insertionSort (· ≤ ·)).length (rank values.length p) :=
    hlen.symm ▸ rank_inRange _ h0 h
  obtain ⟨hlower, hupper⟩ := atRank_bounds (List.pairwise_insertionSort _ _) (sorted_ne_nil hn) hr
  obtain ⟨_, _, hlow⟩ := hr.low (sorted_ne_nil hn)
  have hmem : ∀ i < (values.insertionSort (· ≤ ·)).length,
      (values.insertionSort (· ≤ ·)).getD i 0 ∈ values :=
    fun i hi => (List.mem_insertionSort _).mp (getD_mem hi)
  exact ⟨(hlo _ (hmem _ hlow)).trans hlower, hupper.trans (hhi _ (hmem _ (by omega)))⟩

/-- **A common factor comes out.** -/
theorem percentile_scale {c : K} (hc : 0 < c) (p : K) :
    percentile (values.map fun x => x * c) p = percentile values p * c := by
  have hsort : (values.map fun x => x * c).insertionSort (· ≤ ·)
      = (values.insertionSort (· ≤ ·)).map fun x => x * c :=
    (List.map_insertionSort (r := (· ≤ ·)) (s := (· ≤ ·)) (fun x => x * c) values
      fun a _ b _ => (mul_le_mul_iff_of_pos_right hc).symm).symm
  have hget : ∀ (l : List K) i, (l.map fun x => x * c).getD i 0 = l.getD i 0 * c := by
    intro l i
    simp only [List.getD_eq_getElem?_getD, List.getElem?_map]
    cases l[i]? with
    | none => exact (zero_mul c).symm
    | some x => rfl
  unfold percentile atRank
  rw [hsort, List.length_map]
  simp only [hget, List.length_map]
  ring

end

/-! ## moving the samples -/

section
omit [FloorRing K] [Field K]
variable {R : K → K → Prop}

/-- a relation that sees only how low the one side is and how high the other -/
def Slack (R : K → K → Prop) : Prop := ∀ a' a b b', a' ≤ a → R a b → b ≤ b' → R a' b'

theorem orderedInsert_forall₂ (hR : Slack R) {l l' : List K} (h : List.Forall₂ R l l') :
    ∀ a b, R a b → l.Pairwise (· ≤ ·) → l'.Pairwise (· ≤ ·) →
      List.Forall₂ R (l.orderedInsert (· ≤ ·) a) (l'.orderedInsert (· ≤ ·) b) := by
  induction h with
  | nil => exact fun a b hab _ _ => List.Forall₂.cons hab List.Forall₂.nil
  | @cons x y l l' hxy hrest ih =>
    intro a b hab hs hs'
    have hl := List.Pairwise.of_cons hs
    have hl' := List.Pairwise.of_cons hs'
    -- a sorted list begins with what would be inserted in front of it
    have hself : ∀ (z : K) (m : List K), (z :: m).Pairwise (· ≤ ·) →
        m.orderedInsert (· ≤ ·) z = z :: m := by
      intro z m hz
      cases m with
      | nil => rfl
      | cons w m =>
        exact List.orderedInsert_cons_of_le _ m (List.rel_of_pairwise_cons hz List.mem_cons_self)
    rcases le_or_gt a x with hax | hxa <;> rcases le_or_gt b y with hby | hyb
    · rw [List.orderedInsert_cons_of_le _ l hax, List.orderedInsert_cons_of_le _ l' hby]
      exact List.Forall₂.cons hab (List.Forall₂.cons hxy hrest)
    · rw [List.orderedInsert_cons_of_le _ l hax, List.orderedInsert_of_not_le _ l' (not_le.mpr hyb)]
      have htail := ih x b (hR x x y b (le_refl x) hxy hyb.le) hl hl'
      rw [hself x l hs] at htail
      exact List.Forall₂.cons (hR a x y y hax hxy (le_refl y)) htail
    · rw [List.orderedInsert_of_not_le _ l (not_le.mpr hxa), List.orderedInsert_cons_of_le _ l' hby]
      have htail := ih a y (hR a a b y (le_refl a) hab hby) hl hl'
      rw [hself y l' hs'] at htail
      exact List.Forall₂.cons (hR x a b b hxa.le hab (le_refl b)) htail
    · rw [List.orderedInsert_of_not_le _ l (not_le.mpr hxa),
        List.orderedInsert_of_not_le _ l' (not_le.mpr hyb)]
      exact List.Forall₂.cons hxy (ih a b hab hl hl')

/-- **Sorting keeps the relation place by place.** -/
theorem insertionSort_forall₂ (hR : Slack R) {l l' : List K} (h : List.Forall₂ R l l') :
    List.Forall₂ R (l.insertionSort (· ≤ ·)) (l'.insertionSort (· ≤ ·)) := by
  induction h with
  | nil => exact List.Forall₂.nil
  | @cons x y l l' hxy _ ih =>
    rw [List.insertionSort_cons, List.insertionSort_cons]
    exact orderedInsert_forall₂ hR ih x y hxy (List.pairwise_insertionSort _ _)
      (List.pairwise_insertionSort _ _)

end

section
variable [IsStrictOrderedRing K] {values values' : List K} {δ : K}

theorem atRank_le_add {data data' : List K} (h : List.Forall₂ (fun a b => a ≤ b + δ) data data')
    (hn : data ≠ []) {r : K} (hr : InRange data.length r) : atRank data r ≤ atRank data' r + δ := by
  obtain ⟨hle, hlt, hlow⟩ := hr.low hn
  have hlen := h.length_eq
  have hget : ∀ i < data.length, data.getD i 0 ≤ data'.getD i 0 + δ := by
    intro i hi
    rw [List.getD_eq_getElem data 0 hi, List.getD_eq_getElem data' 0 (hlen ▸ hi)]
    exact (List.forall₂_iff_get.mp h).2 i hi (hlen ▸ hi)
  have hbottom := hget _ hlow
  have htop := hget (min (⌊r⌋.toNat + 1) (data.length - 1)) (by omega)
  unfold atRank
  rw [← hlen]
  have h1 : (1 - (r - (⌊r⌋.toNat : Nat))) * data.getD ⌊r⌋.toNat 0
      ≤ (1 - (r - (⌊r⌋.toNat : Nat))) * (data'.getD ⌊r⌋.toNat 0 + δ) :=
    mul_le_mul_of_nonneg_left hbottom (by linarith)
  have h2 : (r - (⌊r⌋.toNat : Nat)) * data.getD (min (⌊r⌋.toNat + 1) (data.length - 1)) 0
      ≤ (r - (⌊r⌋.toNat : Nat)) * (data'.getD (min (⌊r⌋.toNat + 1) (data.length - 1)) 0 + δ) :=
    mul_le_mul_of_nonneg_left htop (by linarith)
  show _ + _ * _ ≤ _ + _ * _ + δ
  linarith

theorem percentile_le_add (h : List.Forall₂ (fun a b => a ≤ b + δ) values values')
    (hn : values ≠ []) {p : K}
    (h0 : 0 ≤ p) (h1 : p ≤ 100) : percentile values p ≤ percentile values' p + δ := by
  have hslack : Slack fun a b : K => a ≤ b + δ := fun a' a b b' ha hab hb => by linarith
  have hlen := List.length_insertionSort (· ≤ ·) values
  have hr : InRange (values.insertionSort (· ≤ ·)).length (rank values.length p) :=
    hlen.symm ▸ rank_inRange _ h0 h1
  have hsorted := atRank_le_add (insertionSort_forall₂ hslack h) (sorted_ne_nil hn) hr
  unfold percentile
  rw [← h.length_eq]
  exact hsorted

/-- a relative bound on the samples bounds the percentiles -/
theorem mul_percentile_le {c : K} (hc : 0 < c)
    (h : List.Forall₂ (fun a b => a * c ≤ b) values values') (hn : values ≠ [])
    {p : K} (h0 : 0 ≤ p) (h1 : p ≤ 100) : percentile values p * c ≤ percentile values' p := by
  have hmap : List.Forall₂ (fun a b => a ≤ b + 0) (values.map fun x => x * c) values' :=
    List.forall₂_map_left_iff.mpr (h.imp fun a b hab => hab.trans (add_zero b).ge)
  have hle := percentile_le_add hmap (mt List.map_eq_nil_iff.mp hn) h0 h1
  rwa [percentile_scale hc, add_zero] at hle

/-- **A percentile moves by no more than the samples.** -/
theorem abs_percentile_sub_le (h : List.Forall₂ (fun a b => |a - b| ≤ δ) values values')
    (hn : values ≠ []) {p : K}
    (h0 : 0 ≤ p) (h1 : p ≤ 100) : |percentile values p - percentile values' p| ≤ δ := by
  have hn' : values' ≠ [] := fun hnil => hn (List.forall₂_nil_right_iff.mp (hnil ▸ h))
  have hle : List.Forall₂ (fun a b => a ≤ b + δ) values values' := h.imp fun a b hab => by
    linarith [(abs_le.mp hab).2]
  have hge : List.Forall₂ (fun a b => a ≤ b + δ) values' values := h.flip.imp fun a b hab => by
    linarith [(abs_le.mp hab).1]
  have hupper := percentile_le_add hle hn h0 h1
  have hlower := percentile_le_add hge hn' h0 h1
  exact abs_le.mpr ⟨by linarith, by linarith⟩

end
end Percentile
