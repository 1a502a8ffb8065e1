import Mathlib.Algebra.Order.BigOperators.Group.Finset
import Mathlib.Algebra.Order.Field.Basic
import Mathlib.Algebra.BigOperators.Field

/-!
# Softmax over an abstract exponential

`weight exp s n m j` is the weight of key `j` among `n` keys with scores `s`, computed with the scores
shifted by `m`.  The weights sum to one (`sum_weight`), and for an exponential that turns sums into
products the shift does not matter (`weight_shift`).
-/

namespace Softmax
open Finset
variable {K : Type*} [Field K] [LinearOrder K] [IsStrictOrderedRing K]

def weight (exp : K → K) (s : Nat → K) (n : Nat) (m : K) (j : Nat) : K :=
  exp (s j - m) / ∑ l ∈ range n, exp (s l - m)

section
variable {exp : K → K} (hpos : ∀ x, 0 < exp x)
include hpos

theorem denom_pos (s : Nat → K) {n : Nat} (hn : 0 < n) (m : K) :
    0 < ∑ l ∈ range n, exp (s l - m) :=
  sum_pos (fun _ _ => hpos _) ⟨0, mem_range.mpr hn⟩

theorem sum_weight (s : Nat → K) {n : Nat} (hn : 0 < n) (m : K) :
    ∑ j ∈ range n, weight exp s n m j = 1 := by
  unfold weight
  rw [← sum_div]
  exact div_self (denom_pos hpos s hn m).ne'

omit [IsStrictOrderedRing K] in
/-- **The shift cancels.** -/
theorem weight_shift (hadd : ∀ x y, exp (x + y) = exp x * exp y) (s : Nat → K) (n : Nat) (m : K)
    (j : Nat) : weight exp s n m j = exp (s j) / ∑ l ∈ range n, exp (s l) := by
  have hfactor : ∀ l, exp (s l - m) = exp (s l) * exp (-m) := by
    intro l
    rw [sub_eq_add_neg, hadd]
  unfold weight
  simp only [hfactor]
  rw [← sum_mul, mul_div_mul_right _ _ (hpos (-m)).ne']

end
end Softmax
