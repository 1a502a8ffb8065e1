import Mathlib.Algebra.BigOperators.Ring.Finset
import Mathlib.Algebra.Order.BigOperators.Group.Finset
import Redline.Lib.BlockReduce
import Redline.Lib.Extended

/-!
# Softmax sums, tile by tile

The sums `∑ exp(s j - m) * f j` of a softmax over scores that come in tiles, with `m` the largest score so
far.  What was summed is rescaled by `exp(m - m')` when the largest score changes.

* `top_tile`        the largest score, when a masked tile of scores is taken in;
* `shifted_tile`    the rescaled sum and the sum of the tile are the sum over both;
* `sum_exp`         one pass with the largest of all the scores gives the same sum;
* `one_le_shifted`  the denominator, `f = 1`, is at least one.
-/

namespace OnlineSoftmax
open Finset Extended
variable {K : Type*}

/-! ## the largest score -/

section
variable [LinearOrder K]

/-- the largest of the first `n` scores -/
def top (score : Nat → Extended K) (n : Nat) : Extended K :=
  ((Multiset.range n).map score).fold fmax negInf

variable {score : Nat → Extended K}

theorem top_succ (score : Nat → Extended K) (n : Nat) : top score (n + 1) = fmax (score n)
    (top score n) := by
  unfold top
  rw [Multiset.range_succ, Multiset.map_cons, Multiset.fold_cons_left]

theorem foldl_fmax (score : Nat → Extended K) (n : Nat) :
    (List.range n).foldl (fun m j => fmax m (score j)) negInf = top score n :=
  BlockReduce.foldl_eq_fold score _ _

theorem negInf_fmax_top (score : Nat → Extended K) (n : Nat) :
    fmax negInf (top score n) = top score n :=
  BlockReduce.op_fold rfl _

/-- a tile of `w` slots, of which the first `n` hold scores -/
theorem top_tile (score : Nat → Extended K) (p : Nat) {n w : Nat} (hn : n ≤ w) :
    fmax (top score p) (((Multiset.range w).map fun t =>
      if t < n then score (p + t) else negInf).fold fmax nan)
      = top score (p + n) := by
  induction w, hn using Nat.le_induction with
  | base =>
    have hmap : (Multiset.range n).map (fun t => if t < n then score (p + t) else negInf)
        = (Multiset.range n).map fun t => score (p + t) :=
      Multiset.map_congr rfl fun t ht => if_pos (Multiset.mem_range.mp ht)
    have hadd := Multiset.fold_add fmax negInf nan ((Multiset.range p).map score)
      ((Multiset.range n).map fun t => score (p + t))
    unfold top
    rw [hmap, Multiset.range_add, Multiset.map_add, Multiset.map_map]
    exact hadd.symm
  | succ w hw ih =>
    rw [Multiset.range_succ, Multiset.map_cons, Multiset.fold_cons_left, if_neg (Nat.not_lt.mpr hw),
      ← BlockReduce.op_assoc fmax, BlockReduce.op_comm fmax _ negInf, negInf_fmax_top, ih]

/-- the largest of finite scores is one of them -/
theorem top_real {s : Nat → K} {n : Nat} (hn : 0 < n) (hs : ∀ j < n, score j = real (s j)) :
    ∃ m, top score n = real m ∧ (∃ j < n, s j = m) ∧ ∀ j < n, s j ≤ m := by
  induction n, hn using Nat.le_induction with
  | base =>
    refine ⟨s 0, ?_, ⟨0, Nat.one_pos, rfl⟩, fun j hj => ?_⟩
    · rw [top_succ, hs 0 Nat.one_pos]
      rfl
    · rw [Nat.lt_one_iff.mp hj]
  | succ n hn ih =>
    obtain ⟨m, hm, ⟨j, hj, hjm⟩, hle⟩ := ih fun j hj => hs j (Nat.lt_succ_of_lt hj)
    refine ⟨max (s n) m, ?_, ?_, fun i hi => ?_⟩
    · rw [top_succ, hs n (Nat.lt_succ_self n), hm]
      rfl
    · rcases le_total (s n) m with h | h
      · exact ⟨j, Nat.lt_succ_of_lt hj, hjm.trans (max_eq_right h).symm⟩
      · exact ⟨n, Nat.lt_succ_self n, (max_eq_left h).symm⟩
    · rcases Nat.lt_succ_iff_lt_or_eq.mp hi with hi | rfl
      · exact (hle i hi).trans (le_max_right _ _)
      · exact le_max_left _ _

end

/-! ## the sums -/

section
variable [Field K] [LinearOrder K]

/-- `exp(x - m)` -/
def factor (e : K → K) : Extended K → K → K
  | real m, x => e (x - m)
  | _, _ => 0

/-- the sum over the first `n` scores, shifted by the largest of them -/
def shifted (e : K → K) (score : Nat → Extended K) (s f : Nat → K) (n : Nat) : K :=
  ∑ j ∈ range n, factor e (top score n) (s j) * f j

variable {e : K → K} {score : Nat → Extended K} {s : Nat → K}

theorem shifted_zero (f : Nat → K) : shifted e score s f 0 = 0 := sum_range_zero _

/-- **A tile is taken in.** -/
theorem shifted_tile (hadd : ∀ x y, e (x + y) = e x * e y) (f : Nat → K) {p n : Nat} (hn : 0 < n)
    (hs : ∀ j < p + n, score j = real (s j)) :
    real (shifted e score s f p) * exp e (top score p - top score (p + n)) +
        ∑ t ∈ range n, exp e (score (p + t) - top score (p + n)) * real (f (p + t))
      = real (shifted e score s f (p + n)) := by
  obtain ⟨m', hm', _, _⟩ := top_real (Nat.add_pos_right p hn) hs
  have htile : ∑ t ∈ range n, exp e (score (p + t) - top score (p + n)) * real (f (p + t))
      = real (∑ t ∈ range n, factor e (top score (p + n)) (s (p + t)) * f (p + t)) := by
    rw [← sum_real]
    refine sum_congr rfl fun t ht => ?_
    rw [hs (p + t) (Nat.add_lt_add_left (mem_range.mp ht) p), hm', real_sub, exp_real, real_mul]
    rfl
  have hscaled : real (shifted e score s f p) * exp e (top score p - top score (p + n))
      = real (∑ j ∈ range p, factor e (top score (p + n)) (s j) * f j) := by
    rw [hm']
    rcases Nat.eq_zero_or_pos p with rfl | hp
    · -- nothing was summed yet, and the first maximum is `-inf`
      rw [shifted_zero, sum_range_zero]
      show real 0 * exp e (negInf - real m') = real 0
      rw [negInf_sub, exp_negInf, real_mul, mul_zero]
    · obtain ⟨m, hm, _, _⟩ := top_real hp fun j hj => hs j (Nat.lt_add_right n hj)
      unfold shifted
      rw [hm, real_sub, exp_real, real_mul, sum_mul]
      refine congrArg real (sum_congr rfl fun j _ => ?_)
      have hexp : e (s j - m') = e (s j - m) * e (m - m') := by
        rw [← hadd, sub_add_sub_cancel]
      show e (s j - m) * f j * e (m - m') = e (s j - m') * f j
      rw [hexp, mul_right_comm]
  rw [htile, hscaled, real_add, ← sum_range_add]
  rfl

/-- **In one pass**, with the largest of all the scores. -/
theorem sum_exp (f : Nat → K) {n : Nat} (hn : 0 < n) (hs : ∀ j < n, score j = real (s j)) :
    ∑ j ∈ range n, exp e (score j - top score n) * real (f j) = real (shifted e score s f n) := by
  obtain ⟨m, hm, _, _⟩ := top_real hn hs
  unfold shifted
  rw [← sum_real]
  refine sum_congr rfl fun j hj => ?_
  rw [hs j (mem_range.mp hj), hm, real_sub, exp_real, real_mul]
  rfl

/-- the factors of finite scores are finite -/
theorem exp_mul_one {n : Nat} (hs : ∀ j < n, score j = real (s j)) {j : Nat} (hj : j < n) :
    exp e (score j - top score n) * real 1 = exp e (score j - top score n) := by
  obtain ⟨m, hm, _, _⟩ := top_real (Nat.zero_lt_of_lt hj) hs
  rw [hs j hj, hm, real_sub, exp_real, real_mul, mul_one]

omit [LinearOrder K] in
/-- the sum of a masked tile -/
theorem sum_masked {n w : Nat} (hn : n ≤ w) (f : Nat → Extended K) :
    ∑ t ∈ range w, (if t < n then f t else 0) = ∑ t ∈ range n, f t := by
  rw [← sum_filter]
  refine sum_congr ?_ fun _ _ => rfl
  ext t
  rw [mem_filter, mem_range, mem_range]
  exact ⟨And.right, fun h => ⟨h.trans_le hn, h⟩⟩

/-- the largest score contributes one -/
theorem one_le_shifted [IsStrictOrderedRing K] (hadd : ∀ x y, e (x + y) = e x * e y)
    (hpos : ∀ x, 0 < e x) {n : Nat}
    (hn : 0 < n) (hs : ∀ j < n, score j = real (s j)) : 1 ≤ shifted e score s (fun _ => 1) n := by
  have hzero : e 0 = 1 := by
    have h := hadd 0 0
    rw [add_zero] at h
    exact mul_left_cancel₀ (hpos 0).ne' (h.symm.trans (mul_one _).symm)
  obtain ⟨m, hm, ⟨j, hj, hjm⟩, _⟩ := top_real hn hs
  have hone : factor e (top score n) (s j) * 1 = 1 := by
    rw [hm, mul_one]
    show e (s j - m) = 1
    rw [hjm, sub_self, hzero]
  unfold shifted
  refine hone.ge.trans (single_le_sum (f := fun j => factor e (top score n) (s j) * 1) (fun i _ => ?_)
    (mem_range.mpr hj))
  rw [hm]
  show 0 ≤ e (s i - m) * 1
  exact (mul_one (e (s i - m))).symm ▸ (hpos _).le

end
end OnlineSoftmax
