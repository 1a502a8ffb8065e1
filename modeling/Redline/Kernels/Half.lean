import Mathlib.Data.Nat.Basic
import Mathlib.Tactic.Common

/-!
# Halves

FP16 storage with FP32 arithmetic, and pairs of halves in one word (`half2`).  A pointer counts halves of
two bytes, so a word pointer is its half.
-/

namespace Redline

/-- FP16 storage with FP32 arithmetic -/
structure HalfFormat (H F : Type) where
  half2float : H → F
  float2halfRn : F → H

/-- `reinterpret_cast<std::uintptr_t>(p) % alignof(half2) == 0`; a pointer counts halves of two bytes -/
def isHalf2Aligned (p : Nat) : Bool := 2 * p % 4 = 0

theorem isHalf2Aligned_iff {p : Nat} : isHalf2Aligned p = true ↔ p % 2 = 0 := by
  unfold isHalf2Aligned
  rw [decide_eq_true_iff]
  omega

/-- the first half of a word of a row of words -/
theorem half2_address {base row words p : Nat} (hbase : base % 2 = 0) :
    2 * (base / 2 + row * words + p) = base + row * (2 * words) + 2 * p := by
  rw [Nat.mul_add, Nat.mul_add, Nat.mul_left_comm 2 row]
  omega

end Redline
