import Redline.Lib.BinaryFloat
import Redline.Loader.Convert
import Mathlib.Data.Nat.Bitwise

/-!
# FP32 to FP16, rounded

The integer code of `loader/convert.hpp` against the exact values of the patterns.

* `toNat_fp32BitsToFp16BitsRne`  the code on natural numbers: the sign bit, and `halfMagnitude`;
* `fp32ToFp16_rounds`            the result is the value of the input, rounded to nearest even;
* `fp16_conversion`              the same with the overflow test of the BF16 patterns.
-/

namespace Redline
open BinaryFloat

def binary16 : Format := ⟨5, 10, by decide, by decide⟩

def binary32 : Format := ⟨8, 23, by decide, by decide⟩

def bfloat16 : Format := ⟨8, 7, by decide, by decide⟩

/-- the magnitude pattern of the result -/
def halfMagnitude (a : Nat) : Nat :=
  if 0x7F800000 < a then 0x7E00
  else if 0x47800000 ≤ a then 0x7C00
  else if 113 ≤ a / 2 ^ 23 then roundShift 13 (a - 112 * 2 ^ 23)
  else if 102 ≤ a / 2 ^ 23 then roundShift (126 - a / 2 ^ 23) (2 ^ 23 + a % 2 ^ 23)
  else 0

/-! ## the code on natural numbers -/

theorem toNat_add_half {rebased : UInt32} (h : rebased.toNat < 2 ^ 31) :
    ((rebased + 0x0FFF + ((rebased >>> (13 : UInt32)) &&& 1)) >>> (13 : UInt32)).toNat
      = roundShift 13 rebased.toNat := by
  have hlsb : ((rebased >>> (13 : UInt32)) &&& 1).toNat = rebased.toNat / 2 ^ 13 % 2 := by
    rw [UInt32.toNat_and, UInt32.toNat_shiftRight, Nat.shiftRight_eq_div_pow]
    exact Nat.and_one_is_mod _
  rw [← add_half_shift (by decide), UInt32.toNat_shiftRight, UInt32.toNat_add, UInt32.toNat_add, hlsb,
    Nat.shiftRight_eq_div_pow]
  show ((rebased.toNat + 4095) % 2 ^ 32 + _) % 2 ^ 32 / 2 ^ 13 = _
  rw [Nat.mod_eq_of_lt (by omega), Nat.mod_eq_of_lt (by omega)]
  rfl

theorem toNat_one_shiftLeft {s : Nat} (hs : s < 32) {shift : UInt32} (hshift : shift.toNat = s) :
    ((1 : UInt32) <<< shift).toNat = 2 ^ s := by
  rw [UInt32.toNat_shiftLeft, hshift, Nat.mod_eq_of_lt hs, Nat.shiftLeft_eq]
  show 1 * 2 ^ s % 2 ^ 32 = _
  rw [Nat.one_mul, Nat.mod_eq_of_lt (Nat.pow_lt_pow_right (by decide) hs)]

theorem toNat_low (n : UInt32) {s : Nat} (hs : s < 32) {shift : UInt32} (hshift : shift.toNat = s) :
    (n &&& (((1 : UInt32) <<< shift) - 1)).toNat = n.toNat % 2 ^ s := by
  have hone := toNat_one_shiftLeft hs hshift
  have hle : (1 : UInt32) ≤ (1 : UInt32) <<< shift := by
    rw [UInt32.le_iff_toNat_le, hone]
    exact Nat.one_le_two_pow
  rw [UInt32.toNat_and, UInt32.toNat_sub_of_le _ _ hle, hone]
  exact Nat.and_two_pow_sub_one_eq_mod _ _

/-- the quotient and the remainder of a shift, with ties to even -/
theorem toNat_round_up {sig shift : UInt32} {s : Nat} (hs : 0 < s) (hs' : s < 32)
    (hshift : shift.toNat = s) :
    ((sig >>> shift) + if ((1 : UInt32) <<< (shift - 1) < sig &&& (((1 : UInt32) <<< shift) - 1) ∨
        sig &&& (((1 : UInt32) <<< shift) - 1) = (1 : UInt32) <<< (shift - 1) ∧
          (sig >>> shift) &&& 1 ≠ 0)
      then 1 else 0).toNat = roundShift s sig.toNat := by
  have hq : (sig >>> shift).toNat = sig.toNat / 2 ^ s := by
    rw [UInt32.toNat_shiftRight, hshift, Nat.mod_eq_of_lt hs', Nat.shiftRight_eq_div_pow]
  have hrem := toNat_low sig hs' hshift
  have hpred : (shift - 1).toNat = s - 1 := by
    rw [UInt32.toNat_sub_of_le _ _ (UInt32.le_iff_toNat_le.mpr ?_), hshift]
    · rfl
    · show 1 ≤ shift.toNat
      omega
  have hhalf := toNat_one_shiftLeft (by omega) hpred
  have hodd : (sig >>> shift) &&& 1 ≠ 0 ↔ sig.toNat / 2 ^ s % 2 = 1 := by
    have hbit : ((sig >>> shift) &&& 1).toNat = sig.toNat / 2 ^ s % 2 := by
      rw [UInt32.toNat_and, hq]
      exact Nat.and_one_is_mod _
    rw [ne_eq, ← UInt32.toNat_inj, hbit]
    show ¬ _ = 0 ↔ _
    omega
  have hlt : sig.toNat / 2 ^ s < 2 ^ 31 := by
    have : 2 ^ 1 ≤ 2 ^ s := Nat.pow_le_pow_right (by decide) hs
    have := sig.toNat_lt
    exact Nat.div_lt_of_lt_mul (by omega)
  have hup : ((1 : UInt32) <<< (shift - 1) < sig &&& (((1 : UInt32) <<< shift) - 1) ∨
      sig &&& (((1 : UInt32) <<< shift) - 1) = (1 : UInt32) <<< (shift - 1) ∧
        (sig >>> shift) &&& 1 ≠ 0) ↔
      2 ^ (s - 1) < sig.toNat % 2 ^ s ∨
        sig.toNat % 2 ^ s = 2 ^ (s - 1) ∧ sig.toNat / 2 ^ s % 2 = 1 := by
    rw [UInt32.lt_iff_toNat_lt, ← UInt32.toNat_inj, hodd, hrem, hhalf]
  unfold roundShift
  by_cases h : 2 ^ (s - 1) < sig.toNat % 2 ^ s ∨
      sig.toNat % 2 ^ s = 2 ^ (s - 1) ∧ sig.toNat / 2 ^ s % 2 = 1
  · rw [if_pos (hup.mpr h), if_pos h, UInt32.toNat_add, hq]
    exact Nat.mod_eq_of_lt (Nat.lt_of_le_of_lt (Nat.succ_le_of_lt hlt) (by decide))
  · rw [if_neg (fun h' => h (hup.mp h')), if_neg h, UInt32.toNat_add, hq]
    exact Nat.mod_eq_of_lt (Nat.lt_of_lt_of_le hlt (by decide))

/-- a magnitude under the sign bit -/
theorem toNat_or_sign {bits y : UInt32} (hy : y.toNat < 2 ^ 15) :
    ((((bits >>> (16 : UInt32)) &&& 0x8000) ||| y).toUInt16).toNat
      = bits.toNat / 2 ^ 31 * 2 ^ 15 + y.toNat := by
  have hbits := bits.toNat_lt
  have hsign : ((bits >>> (16 : UInt32)) &&& 0x8000).toNat = 2 ^ 15 * (bits.toNat / 2 ^ 31) := by
    rw [UInt32.toNat_and, UInt32.toNat_shiftRight]
    show bits.toNat >>> 16 &&& 2 ^ 15 = _
    rw [Nat.and_two_pow, Nat.testBit_shiftRight, Nat.testBit_eq_decide_div_mod_eq]
    have hcases : bits.toNat / 2 ^ 31 = 0 ∨ bits.toNat / 2 ^ 31 = 1 := by omega
    rcases hcases with h | h <;> rw [h] <;> rfl
  rw [UInt32.toNat_toUInt16, UInt32.toNat_or, hsign, ← Nat.two_pow_add_eq_or_of_lt hy]
  omega

theorem roundShift_le {s x : Nat} {n : Nat} (h : x < 2 ^ s * n) : roundShift s x ≤ n := by
  have hq : x / 2 ^ s < n := Nat.div_lt_of_lt_mul h
  unfold roundShift
  split <;> omega

theorem halfMagnitude_le {a : Nat} (h : a ≤ 0x7F800000) : halfMagnitude a ≤ 0x7C00 := by
  unfold halfMagnitude
  rw [if_neg (by omega)]
  split
  · exact Nat.le_refl _
  · split
    · exact roundShift_le (by omega)
    · split
      · next hexp =>
        have hpow : 2 ^ 14 ≤ 2 ^ (126 - a / 2 ^ 23) := Nat.pow_le_pow_right (by decide) (by omega)
        exact roundShift_le (by omega)
      · exact Nat.zero_le _

theorem halfMagnitude_lt (a : Nat) : halfMagnitude a < 2 ^ 15 := by
  by_cases h : a ≤ 0x7F800000
  · exact Nat.lt_of_le_of_lt (halfMagnitude_le h) (by decide)
  · unfold halfMagnitude
    rw [if_pos (Nat.lt_of_not_le h)]
    decide

/-- **The code on natural numbers.** -/
theorem toNat_fp32BitsToFp16BitsRne (bits : UInt32) : (fp32BitsToFp16BitsRne bits).toNat
    = bits.toNat / 2 ^ 31 * 2 ^ 15 + halfMagnitude (bits.toNat % 2 ^ 31) := by
  have habs : (bits &&& 0x7FFFFFFF).toNat = bits.toNat % 2 ^ 31 := by
    rw [UInt32.toNat_and]
    exact Nat.and_two_pow_sub_one_eq_mod _ 31
  have hexp : ((bits &&& 0x7FFFFFFF) >>> (23 : UInt32)).toNat = bits.toNat % 2 ^ 31 / 2 ^ 23 := by
    rw [UInt32.toNat_shiftRight, habs, Nat.shiftRight_eq_div_pow]
    rfl
  have hlt : ∀ c : UInt32, c < bits &&& 0x7FFFFFFF ↔ c.toNat < bits.toNat % 2 ^ 31 := by
    intro c
    rw [UInt32.lt_iff_toNat_lt, habs]
  have hle : ∀ c : UInt32, c ≤ bits &&& 0x7FFFFFFF ↔ c.toNat ≤ bits.toNat % 2 ^ 31 := by
    intro c
    rw [UInt32.le_iff_toNat_le, habs]
  have hle' : ∀ c : UInt32, c ≤ (bits &&& 0x7FFFFFFF) >>> (23 : UInt32) ↔
      c.toNat ≤ bits.toNat % 2 ^ 31 / 2 ^ 23 := by
    intro c
    rw [UInt32.le_iff_toNat_le, hexp]
  -- it is enough that each branch puts `halfMagnitude` under the sign
  have hunder : ∀ y : UInt32, y.toNat = halfMagnitude (bits.toNat % 2 ^ 31) →
      ((((bits >>> (16 : UInt32)) &&& 0x8000) ||| y).toUInt16).toNat
        = bits.toNat / 2 ^ 31 * 2 ^ 15 + halfMagnitude (bits.toNat % 2 ^ 31) := by
    intro y hy
    rw [toNat_or_sign (by rw [hy]; exact halfMagnitude_lt _), hy]
  unfold fp32BitsToFp16BitsRne
  dsimp only
  by_cases hnan : 0x7F800000 < bits.toNat % 2 ^ 31
  · rw [if_pos ((hlt 0x7F800000).mpr hnan)]
    refine hunder _ ?_
    unfold halfMagnitude
    rw [if_pos hnan]
    rfl
  rw [if_neg (mt (hlt 0x7F800000).mp hnan)]
  by_cases hbig : 0x47800000 ≤ bits.toNat % 2 ^ 31
  · rw [if_pos ((hle 0x47800000).mpr hbig)]
    refine hunder _ ?_
    unfold halfMagnitude
    rw [if_neg hnan, if_pos hbig]
    rfl
  rw [if_neg (mt (hle 0x47800000).mp hbig)]
  by_cases hnormal : 113 ≤ bits.toNat % 2 ^ 31 / 2 ^ 23
  · rw [if_pos ((hle' 113).mpr hnormal)]
    have hrebased : ((bits &&& 0x7FFFFFFF) - ((112 : UInt32) <<< (23 : UInt32))).toNat
        = bits.toNat % 2 ^ 31 - 112 * 2 ^ 23 := by
      rw [UInt32.toNat_sub_of_le _ _ (UInt32.le_iff_toNat_le.mpr ?_), habs]
      · rfl
      · rw [habs]
        show 112 * 2 ^ 23 ≤ _
        omega
    refine hunder _ ?_
    rw [toNat_add_half (by omega), hrebased]
    unfold halfMagnitude
    rw [if_neg hnan, if_neg hbig, if_pos hnormal]
  rw [if_neg (mt (hle' 113).mp hnormal)]
  by_cases hsub : 102 ≤ bits.toNat % 2 ^ 31 / 2 ^ 23
  · rw [if_pos ((hle' 102).mpr hsub)]
    have hshift : ((126 : UInt32) - ((bits &&& 0x7FFFFFFF) >>> (23 : UInt32))).toNat
        = 126 - bits.toNat % 2 ^ 31 / 2 ^ 23 := by
      rw [UInt32.toNat_sub_of_le _ _ (UInt32.le_iff_toNat_le.mpr ?_), hexp]
      · rfl
      · rw [hexp]
        show _ ≤ 126
        omega
    have hsig : (0x00800000 ||| ((bits &&& 0x7FFFFFFF) &&& 0x007FFFFF)).toNat
        = 2 ^ 23 + bits.toNat % 2 ^ 31 % 2 ^ 23 := by
      have hmant : ((bits &&& 0x7FFFFFFF) &&& 0x007FFFFF).toNat = bits.toNat % 2 ^ 31 % 2 ^ 23 := by
        rw [UInt32.toNat_and, habs]
        exact Nat.and_two_pow_sub_one_eq_mod _ 23
      rw [UInt32.toNat_or, hmant]
      have := Nat.two_pow_add_eq_or_of_lt (Nat.mod_lt (bits.toNat % 2 ^ 31) (Nat.two_pow_pos 23)) 1
      rw [Nat.mul_one] at this
      exact this.symm
    refine hunder _ ?_
    rw [toNat_round_up (by omega) (by omega) hshift, hsig]
    unfold halfMagnitude
    rw [if_neg hnan, if_neg hbig, if_neg hnormal, if_pos hsub]
  · rw [if_neg (mt (hle' 102).mp hsub)]
    have hzero : ((bits >>> (16 : UInt32)) &&& 0x8000) ||| 0 = (bits >>> (16 : UInt32)) &&& 0x8000 :=
      UInt32.or_zero
    rw [← hzero]
    refine hunder _ ?_
    unfold halfMagnitude
    rw [if_neg hnan, if_neg hbig, if_neg hnormal, if_neg hsub]
    rfl

/-! ## the values -/

theorem unit_binary32 : binary32.unit = binary16.unit / 2 ^ 125 := by
  unfold Format.unit Format.bias binary32 binary16
  norm_num

theorem magnitude_normal {f : Format} {a : Nat} (h : a / 2 ^ f.mantBits ≠ 0) : f.magnitude a
    = (2 ^ f.mantBits + (a % 2 ^ f.mantBits : Nat)) * 2 ^ (a / 2 ^ f.mantBits - 1) * f.unit := by
  unfold Format.magnitude Format.steps
  rw [if_neg h]
  push_cast
  rfl

theorem magnitude_subnormal {f : Format} {a : Nat} (h : a / 2 ^ f.mantBits = 0) :
    f.magnitude a = a * f.unit := by
  unfold Format.magnitude Format.steps
  rw [if_pos h]

/-- a normal result: the low 13 bits are the fraction of a unit in the last place -/
theorem normal_between {a : Nat} (h : 113 ≤ a / 2 ^ 23) :
    binary32.magnitude a = binary16.magnitude ((a - 112 * 2 ^ 23) / 2 ^ 13)
      + ((a - 112 * 2 ^ 23) % 2 ^ 13 : Nat) / 2 ^ 13
        * (binary16.magnitude ((a - 112 * 2 ^ 23) / 2 ^ 13 + 1)
          - binary16.magnitude ((a - 112 * 2 ^ 23) / 2 ^ 13)) := by
  have hexp : (a - 112 * 2 ^ 23) / 2 ^ 13 / 2 ^ 10 = a / 2 ^ 23 - 112 := by omega
  have hmant : (a - 112 * 2 ^ 23) / 2 ^ 13 % 2 ^ 10 = a % 2 ^ 23 / 2 ^ 13 := by omega
  have hlow : (a - 112 * 2 ^ 23) % 2 ^ 13 = a % 2 ^ 23 % 2 ^ 13 := by omega
  have hsplit : ((a % 2 ^ 23 : Nat) : ℚ)
      = 2 ^ 13 * (a % 2 ^ 23 / 2 ^ 13 : Nat) + (a % 2 ^ 23 % 2 ^ 13 : Nat) := by
    exact_mod_cast (Nat.div_add_mod (a % 2 ^ 23) (2 ^ 13)).symm
  obtain ⟨e, he⟩ : ∃ e, a / 2 ^ 23 = e + 113 := ⟨a / 2 ^ 23 - 113, by omega⟩
  have h32 : binary32.magnitude a
      = (2 ^ 23 + (a % 2 ^ 23 : Nat)) * 2 ^ (a / 2 ^ 23 - 1) * binary32.unit :=
    magnitude_normal (show a / 2 ^ 23 ≠ 0 by omega)
  have h16 : binary16.magnitude ((a - 112 * 2 ^ 23) / 2 ^ 13)
      = (2 ^ 10 + ((a - 112 * 2 ^ 23) / 2 ^ 13 % 2 ^ 10 : Nat))
        * 2 ^ ((a - 112 * 2 ^ 23) / 2 ^ 13 / 2 ^ 10 - 1) * binary16.unit :=
    magnitude_normal (show (a - 112 * 2 ^ 23) / 2 ^ 13 / 2 ^ 10 ≠ 0 by omega)
  have hgap : binary16.magnitude ((a - 112 * 2 ^ 23) / 2 ^ 13 + 1)
      - binary16.magnitude ((a - 112 * 2 ^ 23) / 2 ^ 13)
        = 2 ^ ((a - 112 * 2 ^ 23) / 2 ^ 13 / 2 ^ 10 - 1) * binary16.unit :=
    Format.magnitude_succ _
  have he32 : e + 113 - 1 = e + 112 := rfl
  have he16 : e + 113 - 112 - 1 = e := by omega
  rw [hgap, h16, h32, hexp, hmant, hlow, hsplit, unit_binary32, he, he32, he16, pow_add]
  ring

/-- a subnormal result is a multiple of the unit -/
theorem subnormal_between {a : Nat} (h : 102 ≤ a / 2 ^ 23) (h' : a / 2 ^ 23 ≤ 112) {s : Nat}
    (hs : s = 126 - a / 2 ^ 23) :
    binary32.magnitude a = binary16.magnitude ((2 ^ 23 + a % 2 ^ 23) / 2 ^ s)
      + ((2 ^ 23 + a % 2 ^ 23) % 2 ^ s : Nat) / 2 ^ s
        * (binary16.magnitude ((2 ^ 23 + a % 2 ^ 23) / 2 ^ s + 1)
          - binary16.magnitude ((2 ^ 23 + a % 2 ^ 23) / 2 ^ s)) := by
  have hpow : 2 ^ 14 ≤ 2 ^ s := Nat.pow_le_pow_right (by decide) (by omega)
  have hmod := Nat.mod_lt a (Nat.two_pow_pos 23)
  have hq : (2 ^ 23 + a % 2 ^ 23) / 2 ^ s < 2 ^ 10 := Nat.div_lt_of_lt_mul (by omega)
  have hsub : (2 ^ 23 + a % 2 ^ 23) / 2 ^ s / 2 ^ 10 = 0 := Nat.div_eq_of_lt hq
  have hsplit : ((2 ^ 23 + a % 2 ^ 23 : Nat) : ℚ)
      = 2 ^ s * ((2 ^ 23 + a % 2 ^ 23) / 2 ^ s : Nat) + ((2 ^ 23 + a % 2 ^ 23) % 2 ^ s : Nat) := by
    exact_mod_cast (Nat.div_add_mod (2 ^ 23 + a % 2 ^ 23) (2 ^ s)).symm
  have h32 : binary32.magnitude a
      = (2 ^ 23 + (a % 2 ^ 23 : Nat)) * 2 ^ (a / 2 ^ 23 - 1) * binary32.unit :=
    magnitude_normal (show a / 2 ^ 23 ≠ 0 by omega)
  have h16 : binary16.magnitude ((2 ^ 23 + a % 2 ^ 23) / 2 ^ s)
      = ((2 ^ 23 + a % 2 ^ 23) / 2 ^ s : Nat) * binary16.unit := magnitude_subnormal hsub
  have hgap : binary16.magnitude ((2 ^ 23 + a % 2 ^ 23) / 2 ^ s + 1)
      - binary16.magnitude ((2 ^ 23 + a % 2 ^ 23) / 2 ^ s) = 2 ^ (0 - 1) * binary16.unit := by
    rw [← hsub]
    exact Format.magnitude_succ _
  have hexp : (2 : ℚ) ^ (a / 2 ^ 23 - 1) = 2 ^ 125 / 2 ^ s := by
    rw [eq_div_iff (by positivity), ← pow_add]
    congr 1
    omega
  have hsum : (2 ^ 23 + (a % 2 ^ 23 : Nat) : ℚ) = (2 ^ 23 + a % 2 ^ 23 : Nat) := by push_cast; rfl
  rw [hgap, h16, h32, hexp, hsum, hsplit, unit_binary32]
  field_simp
  ring

/-- a magnitude below half of the least subnormal number -/
theorem tiny_between {a : Nat} (h : a < 102 * 2 ^ 23) :
    Nearest binary16.magnitude (binary32.magnitude a) 0 := by
  have hpos := binary16.unit_pos
  have hgap : binary16.magnitude (0 + 1) - binary16.magnitude 0 = 2 ^ (0 - 1) * binary16.unit :=
    Format.magnitude_succ 0
  have h0 : binary16.magnitude 0 = (0 : Nat) * binary16.unit := magnitude_subnormal rfl
  have hlt : binary32.steps a < 2 ^ 124 := Format.steps_strictMono h
  have hlt : (binary32.steps a : ℚ) < 2 ^ 124 := by exact_mod_cast hlt
  have hvalue : binary32.magnitude a = binary32.steps a / 2 ^ 125 * binary16.unit := by
    unfold Format.magnitude
    rw [unit_binary32]
    ring
  refine nearest_down Format.magnitude_strictMono (θ := binary32.steps a / 2 ^ 125)
    (by positivity) ?_ ?_
    (.inl ?_)
  · rw [div_lt_one (by positivity)]
    linarith
  · rw [hgap, h0, hvalue]
    norm_num
  · rw [div_lt_div_iff₀ (by positivity) (by positivity)]
    linarith

/-- **The magnitude is nearest.** -/
theorem nearest_halfMagnitude {a : Nat} (h : a < 0x47800000) :
    Nearest binary16.magnitude (binary32.magnitude a) (halfMagnitude a) := by
  unfold halfMagnitude
  rw [if_neg (by omega), if_neg (by omega)]
  by_cases hnormal : 113 ≤ a / 2 ^ 23
  · rw [if_pos hnormal]
    exact nearest_roundShift Format.magnitude_strictMono (by decide) (normal_between hnormal)
  · rw [if_neg hnormal]
    by_cases hsub : 102 ≤ a / 2 ^ 23
    · rw [if_pos hsub]
      exact nearest_roundShift Format.magnitude_strictMono (by omega)
        (subnormal_between hsub (by omega) rfl)
    · rw [if_neg hsub]
      exact tiny_between (by omega)

theorem threshold_binary16 : binary16.threshold = 65520 := by
  have hmax : binary16.magnitude (binary16.infPattern - 1)
    = (2047 * 2 ^ 29 : Nat) * binary16.unit := rfl
  have hinf : binary16.magnitude binary16.infPattern = (1024 * 2 ^ 30 : Nat) * binary16.unit := rfl
  unfold Format.threshold
  rw [hmax, hinf]
  unfold Format.unit Format.bias binary16
  norm_num

/-- from 2^16 on a number is past the threshold -/
theorem threshold_le_of_big {a : Nat} (h : 0x47800000 ≤ a) :
    binary16.threshold ≤ binary32.magnitude a := by
  have hbig : binary32.magnitude 0x47800000 = (2 ^ 23 * 2 ^ 142 : Nat) * binary32.unit := rfl
  refine le_trans ?_ (Format.magnitude_strictMono.monotone h)
  rw [hbig, threshold_binary16]
  unfold Format.unit Format.bias binary32
  norm_num

/-! ## the conversions -/

theorem decode_binary32 (n : Nat) : binary32.decode n =
    if 0x7F800000 < n % 2 ^ 31 then .nan (decide (n / 2 ^ 31 % 2 = 1))
    else if n % 2 ^ 31 = 0x7F800000 then .infinity (decide (n / 2 ^ 31 % 2 = 1))
    else .finite (decide (n / 2 ^ 31 % 2 = 1)) (binary32.magnitude (n % 2 ^ 31)) := rfl

theorem decode_bfloat16 (n : Nat) : bfloat16.decode n =
    if 0x7F80 < n % 2 ^ 15 then .nan (decide (n / 2 ^ 15 % 2 = 1))
    else if n % 2 ^ 15 = 0x7F80 then .infinity (decide (n / 2 ^ 15 % 2 = 1))
    else .finite (decide (n / 2 ^ 15 % 2 = 1)) (bfloat16.magnitude (n % 2 ^ 15)) := rfl

/-- **FP32 to FP16 is rounding to nearest even.** -/
theorem fp32ToFp16_rounds (bits : UInt32) :
    binary16.Rounds (binary32.decode bits.toNat) (fp32BitsToFp16BitsRne bits).toNat := by
  have hhalf := halfMagnitude_lt (bits.toNat % 2 ^ 31)
  have hresult := toNat_fp32BitsToFp16BitsRne bits
  have hmag : (fp32BitsToFp16BitsRne bits).toNat % 2 ^ (5 + 10)
      = halfMagnitude (bits.toNat % 2 ^ 31) := by
    rw [hresult]
    omega
  have hsign : (fp32BitsToFp16BitsRne bits).toNat / 2 ^ (5 + 10) % 2 = 1 ↔
      decide (bits.toNat / 2 ^ 31 % 2 = 1) = true := by
    rw [hresult, decide_eq_true_iff]
    omega
  have hdecode := Format.decode_eq (f := binary16) hsign hmag
  have h16 : binary16.infPattern = 0x7C00 := rfl
  rw [decode_binary32]
  rw [h16] at hdecode
  by_cases hnan : 0x7F800000 < bits.toNat % 2 ^ 31
  · have hvalue : halfMagnitude (bits.toNat % 2 ^ 31) = 0x7E00 := if_pos hnan
    rw [if_pos hnan]
    rw [hvalue, if_pos (by decide)] at hdecode
    exact hdecode
  rw [if_neg hnan]
  by_cases hinf : bits.toNat % 2 ^ 31 = 0x7F800000
  · have hvalue : halfMagnitude (bits.toNat % 2 ^ 31) = 0x7C00 := by
      rw [hinf]
      rfl
    rw [if_pos hinf]
    rw [hvalue, if_neg (by decide), if_pos rfl] at hdecode
    exact hdecode
  rw [if_neg hinf]
  by_cases hbig : 0x47800000 ≤ bits.toNat % 2 ^ 31
  · have hvalue : halfMagnitude (bits.toNat % 2 ^ 31) = 0x7C00 := by
      unfold halfMagnitude
      rw [if_neg hnan, if_pos hbig]
    rw [hvalue, if_neg (by decide), if_pos rfl] at hdecode
    exact ⟨fun _ => hdecode, fun hlt => absurd (threshold_le_of_big hbig) (not_le.mpr hlt)⟩
  · exact Format.rounds_of_nearest (f := binary16) hsign hmag
      (nearest_halfMagnitude (Nat.lt_of_not_le hbig)) (halfMagnitude_le (by omega))

/-- the magnitude is above a bound; that of a NaN is not -/
def Exceeds (bound : ℚ) : Value → Prop
  | .nan _ => False
  | .infinity _ => True
  | .finite _ x => bound < x

theorem steps_widen (a : Nat) : binary32.steps (a * 2 ^ 16) = bfloat16.steps a * 2 ^ 16 := by
  have hexp : a * 2 ^ 16 / 2 ^ 23 = a / 2 ^ 7 := by omega
  have hmant : a * 2 ^ 16 % 2 ^ 23 = a % 2 ^ 7 * 2 ^ 16 := by omega
  show (if a * 2 ^ 16 / 2 ^ 23 = 0 then _ else (2 ^ 23 + a * 2 ^ 16 % 2 ^ 23) * 2 ^ (a * 2 ^ 16 / 2 ^ 23 - 1))
    = (if a / 2 ^ 7 = 0 then a else (2 ^ 7 + a % 2 ^ 7) * 2 ^ (a / 2 ^ 7 - 1)) * 2 ^ 16
  rw [hexp, hmant]
  split
  · rfl
  · ring

/-- a BF16 pattern and its widening denote the same value -/
theorem decode_widen (b : UInt16) :
    binary32.decode (bf16BitsToFp32Bits b).toNat = bfloat16.decode b.toNat := by
  have hb := b.toNat_lt
  have hwide : (bf16BitsToFp32Bits b).toNat = b.toNat * 2 ^ 16 := by
    unfold bf16BitsToFp32Bits
    rw [UInt32.toNat_shiftLeft, UInt16.toNat_toUInt32, Nat.shiftLeft_eq]
    show b.toNat * 2 ^ 16 % 2 ^ 32 = _
    exact Nat.mod_eq_of_lt (by omega)
  have hmag : b.toNat * 2 ^ 16 % 2 ^ 31 = b.toNat % 2 ^ 15 * 2 ^ 16 := by omega
  have hsign : b.toNat * 2 ^ 16 / 2 ^ 31 = b.toNat / 2 ^ 15 := by omega
  have hunit : bfloat16.unit = binary32.unit * 2 ^ 16 := by
    unfold Format.unit Format.bias binary32 bfloat16
    norm_num
  have hvalue : binary32.magnitude (b.toNat % 2 ^ 15 * 2 ^ 16)
      = bfloat16.magnitude (b.toNat % 2 ^ 15) := by
    unfold Format.magnitude
    rw [steps_widen, hunit]
    push_cast
    ring
  have hlt : 0x7F800000 < b.toNat % 2 ^ 15 * 2 ^ 16 ↔ 0x7F80 < b.toNat % 2 ^ 15 := by omega
  have heq : b.toNat % 2 ^ 15 * 2 ^ 16 = 0x7F800000 ↔ b.toNat % 2 ^ 15 = 0x7F80 := by omega
  rw [hwide, decode_binary32, decode_bfloat16, hmag, hsign, hvalue]
  simp only [hlt, heq]

theorem overflows_iff (b : UInt16) : bf16OverflowsFp16 b = true ↔
    Exceeds 65504 (bfloat16.decode b.toNat) := by
  have habs : (b &&& 0x7FFF).toNat = b.toNat % 2 ^ 15 := by
    rw [UInt16.toNat_and]
    exact Nat.and_two_pow_sub_one_eq_mod _ 15
  have hcode : bf16OverflowsFp16 b = true ↔ 0x4780 ≤ b.toNat % 2 ^ 15 ∧ b.toNat % 2 ^ 15 ≤ 0x7F80 := by
    unfold bf16OverflowsFp16
    rw [decide_eq_true_iff, UInt16.le_iff_toNat_le, UInt16.le_iff_toNat_le, habs]
    rfl
  have hvalue : ∀ a, 65504 < bfloat16.magnitude a ↔ 0x4780 ≤ a := by
    intro a
    have hin : bfloat16.magnitude 0x477F = (255 * 2 ^ 141 : Nat) * bfloat16.unit := rfl
    have hout : bfloat16.magnitude 0x4780 = (128 * 2 ^ 142 : Nat) * bfloat16.unit := rfl
    have hunit : bfloat16.unit = 2 ^ (-133 : ℤ) := by
      unfold Format.unit Format.bias bfloat16
      norm_num
    rw [hunit] at hin hout
    constructor
    · intro h
      by_contra hlt
      have hle : bfloat16.magnitude a ≤ bfloat16.magnitude 0x477F :=
        Format.magnitude_strictMono.monotone (by omega)
      rw [hin] at hle
      norm_num at hle
      linarith
    · intro h
      have hle : bfloat16.magnitude 0x4780 ≤ bfloat16.magnitude a :=
        Format.magnitude_strictMono.monotone h
      rw [hout] at hle
      norm_num at hle
      linarith
  rw [hcode, decode_bfloat16]
  by_cases hnan : 0x7F80 < b.toNat % 2 ^ 15
  · rw [if_pos hnan]
    exact iff_of_false (fun h => absurd h.2 (Nat.not_le.mpr hnan)) id
  · rw [if_neg hnan]
    by_cases hinf : b.toNat % 2 ^ 15 = 0x7F80
    · rw [if_pos hinf]
      exact iff_of_true ⟨by omega, by omega⟩ trivial
    · rw [if_neg hinf]
      show _ ↔ 65504 < bfloat16.magnitude (b.toNat % 2 ^ 15)
      rw [hvalue]
      exact and_iff_left (by omega)

/-- **The conversions of the loader.** -/
theorem fp16_conversion : binary16.threshold = 65520 ∧
    (∀ bits : UInt32, binary16.Rounds (binary32.decode bits.toNat) (fp32BitsToFp16BitsRne bits).toNat) ∧
    (∀ b : UInt16, binary16.Rounds (bfloat16.decode b.toNat) (bf16BitsToFp16BitsRne b).toNat) ∧
    (∀ b : UInt16, bf16OverflowsFp16 b = true ↔ Exceeds 65504 (bfloat16.decode b.toNat)) ∧
    ∀ b : UInt16, bf16OverflowsFp16 b = false → ∃ negative,
      binary16.decode (bf16BitsToFp16BitsRne b).toNat = .nan negative ∨
      ∃ y, binary16.decode (bf16BitsToFp16BitsRne b).toNat = .finite negative y := by
  have hbf16 : ∀ b : UInt16,
      binary16.Rounds (bfloat16.decode b.toNat) (bf16BitsToFp16BitsRne b).toNat := by
    intro b
    rw [← decode_widen]
    exact fp32ToFp16_rounds _
  refine ⟨threshold_binary16, fp32ToFp16_rounds, hbf16, overflows_iff, fun b hfits => ?_⟩
  have hrounds := hbf16 b
  have hnot : ¬ Exceeds 65504 (bfloat16.decode b.toNat) := by
    rw [← overflows_iff, hfits]
    decide
  cases hvalue : bfloat16.decode b.toNat with
  | nan negative =>
    rw [hvalue] at hrounds
    exact ⟨negative, .inl hrounds⟩
  | infinity negative =>
    rw [hvalue] at hnot
    exact absurd trivial hnot
  | finite negative x =>
    rw [hvalue] at hnot hrounds
    have hx : x ≤ 65504 := not_lt.mp hnot
    obtain ⟨y, hy, _⟩ := hrounds.2 (by rw [threshold_binary16]; linarith)
    exact ⟨negative, .inr ⟨y, hy⟩⟩

end Redline
