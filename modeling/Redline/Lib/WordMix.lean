import Mathlib.Data.Fintype.EquivFin
import Mathlib.Tactic.Common

/-!
# Mixing words

The steps that a mixer of machine words is made of lose nothing.

* `add_injective`, `mul_injective`     adding a constant, multiplying by one with an inverse;
* `xorShift_injective`                 a word against itself shifted down;
* `bijective_of_injective`             what loses nothing reaches every word.
-/

namespace WordMix
variable {w : Nat}

/-- `x ^ (x >> k)` -/
def xorShift (k : Nat) (x : BitVec w) : BitVec w := x ^^^ (x >>> k)

theorem add_injective (c : BitVec w) : Function.Injective (· + c) := fun x y h => by
  have hsub := congrArg (· - c) h
  simpa only [BitVec.add_sub_cancel] using hsub

theorem mul_injective {c inverse : BitVec w} (hc : c * inverse = 1#w) :
    Function.Injective (· * c) := fun x y h => by
  have hmul := congrArg (· * inverse) h
  simpa only [BitVec.mul_assoc, hc, BitVec.mul_one] using hmul

theorem xorShift_injective {k : Nat} (hk : 0 < k) :
    Function.Injective (xorShift k : BitVec w → BitVec w) := by
  intro x y h
  -- from the highest bit down: a bit is its image's bit against one higher up
  have hbits : ∀ n i, w ≤ i + n → x.getLsbD i = y.getLsbD i := by
    intro n
    induction n with
    | zero =>
      intro i hi
      rw [BitVec.getLsbD_of_ge x i hi, BitVec.getLsbD_of_ge y i hi]
    | succ n ih =>
      intro i hi
      have hhigh := ih (k + i) (by omega)
      have hbit := congrArg (fun z => BitVec.getLsbD z i) h
      simp only [xorShift, BitVec.getLsbD_xor, BitVec.getLsbD_ushiftRight, hhigh] at hbit
      exact Bool.xor_left_inj.mp hbit
  exact BitVec.eq_of_getLsbD_eq fun i _ => hbits w i (by omega)

theorem bijective_of_injective {f : BitVec w → BitVec w} (h : Function.Injective f) :
    Function.Bijective f := by
  have : Finite (BitVec w) :=
    Finite.of_injective (fun x => x.toFin) fun x y hxy => BitVec.toFin_inj.mp hxy
  exact Finite.injective_iff_bijective.mp h

end WordMix
