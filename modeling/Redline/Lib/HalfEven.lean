import Mathlib.Algebra.Order.Floor.Ring
import Mathlib.Tactic.FieldSimp
import Mathlib.Tactic.Linarith
import Mathlib.Tactic.Ring

/-!
# Rounding with ties to even

`halfEven x` is the integer next to `x`, `toUnit u x` the multiple of `u` next to `x`.

* `abs_sub_halfEven`   it is at most one half away;
* `halfEven_mono`      order is kept;
* `halfEven_intCast`   an integer stays;
* `abs_sub_toUnit`     a multiple is at most half a unit away, and order is kept (`toUnit_mono`).
-/

namespace HalfEven
variable {K : Type*} [Field K] [LinearOrder K] [FloorRing K]

def halfEven (x : K) : Int :=
  if x - ⌊x⌋ < 1 / 2 then ⌊x⌋
  else if 1 / 2 < x - ⌊x⌋ then ⌊x⌋ + 1
  else if ⌊x⌋ % 2 = 0 then ⌊x⌋ else ⌊x⌋ + 1

def toUnit (u x : K) : K := halfEven (x / u) * u

section
variable [IsStrictOrderedRing K]

omit [IsStrictOrderedRing K] in
/-- the ways to round -/
theorem halfEven_cases (x : K) : halfEven x = ⌊x⌋ ∧ x - ⌊x⌋ ≤ 1 / 2 ∨ halfEven x = ⌊x⌋ + 1 ∧
    1 / 2 ≤ x - ⌊x⌋ := by
  unfold halfEven
  by_cases hdown : x - ⌊x⌋ < 1 / 2
  · exact Or.inl ⟨if_pos hdown, hdown.le⟩
  rw [if_neg hdown]
  by_cases hup : 1 / 2 < x - ⌊x⌋
  · exact Or.inr ⟨if_pos hup, hup.le⟩
  rw [if_neg hup]
  by_cases heven : ⌊x⌋ % 2 = 0
  · exact Or.inl ⟨if_pos heven, not_lt.mp hup⟩
  · exact Or.inr ⟨if_neg heven, not_lt.mp hdown⟩

theorem abs_sub_halfEven (x : K) : |x - halfEven x| ≤ 1 / 2 := by
  have hlow := Int.floor_le x
  have hhigh := Int.lt_floor_add_one x
  rcases halfEven_cases x with ⟨h, hle⟩ | ⟨h, hle⟩ <;> rw [h, abs_le]
  · constructor <;> linarith
  · push_cast
    constructor <;> linarith

theorem halfEven_intCast (n : Int) : halfEven (n : K) = n := by
  unfold halfEven
  rw [Int.floor_intCast, sub_self]
  exact if_pos (by norm_num)

theorem halfEven_mono {x y : K} (h : x ≤ y) : halfEven x ≤ halfEven y := by
  rcases lt_or_eq_of_le (Int.floor_le_floor h) with hlt | heq
  · have hx : halfEven x ≤ ⌊x⌋ + 1 := by rcases halfEven_cases x with ⟨hx, _⟩ | ⟨hx, _⟩ <;> omega
    have hy : ⌊y⌋ ≤ halfEven y := by rcases halfEven_cases y with ⟨hy, _⟩ | ⟨hy, _⟩ <;> omega
    omega
  · -- in one interval a larger fraction is not rounded down where a smaller one is rounded up
    rcases h.eq_or_lt with rfl | hlt
    · exact le_refl _
    unfold halfEven
    rw [← heq]
    split_ifs <;> first | omega | (exfalso; linarith)

theorem abs_sub_toUnit {u : K} (hu : 0 < u) (x : K) : |x - toUnit u x| ≤ u / 2 := by
  have hround := abs_sub_halfEven (x / u)
  have hscale : x - toUnit u x = (x / u - halfEven (x / u)) * u := by
    unfold toUnit
    field_simp
  rw [hscale, abs_mul, abs_of_pos hu]
  calc |x / u - halfEven (x / u)| * u ≤ 1 / 2 * u := mul_le_mul_of_nonneg_right hround hu.le
    _ = u / 2 := by ring

theorem toUnit_mono {u x y : K} (hu : 0 < u) (h : x ≤ y) : toUnit u x ≤ toUnit u y := by
  have hdiv := halfEven_mono (div_le_div_of_nonneg_right h hu.le)
  exact mul_le_mul_of_nonneg_right (by exact_mod_cast hdiv) hu.le

end
end HalfEven
