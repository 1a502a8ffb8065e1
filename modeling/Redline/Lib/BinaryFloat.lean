import Mathlib.Algebra.Order.AbsoluteValue.Basic
import Mathlib.Algebra.Order.Field.Basic
import Mathlib.Algebra.Order.Field.Power
import Mathlib.Algebra.Order.Ring.Unbundled.Rat
import Mathlib.Data.Nat.ModEq
import Mathlib.Tactic.FieldSimp
import Mathlib.Tactic.Linarith
import Mathlib.Tactic.NormNum
import Mathlib.Tactic.Ring

/-!
# Binary interchange formats

`Format` gives the widths of the exponent field and of the significand field of a binary floating-point
format.  A pattern without its sign bit is a magnitude pattern; its value is an exact rational number.

* `steps_succ`             the next pattern is one unit in the last place away, so values increase with
                           their patterns;
* `Rounds`                 IEEE rounding to nearest, ties to even, with overflow to infinity;
* `nearest_roundShift`     a pattern shifted right with ties to even is the nearest one, when the value
                           lies between two patterns by the fraction that is shifted out;
* `Nearest.rounds`         the nearest magnitude pattern, with its sign, is the rounded value.
-/

namespace BinaryFloat

/-! ## shifts that round -/

/-- `x / 2^s` to nearest, ties to even -/
def roundShift (s x : Nat) : Nat :=
  x / 2 ^ s + if 2 ^ (s - 1) < x % 2 ^ s ∨ x % 2 ^ s = 2 ^ (s - 1) ∧ x / 2 ^ s % 2 = 1 then 1 else 0

/-- add half, less one unless the quotient is odd, and truncate -/
theorem add_half_shift {s : Nat} (hs : 0 < s) (x : Nat) :
    (x + (2 ^ (s - 1) - 1) + x / 2 ^ s % 2) / 2 ^ s = roundShift s x := by
  have hpow : 2 ^ s = 2 * 2 ^ (s - 1) := by
    rw [← Nat.pow_succ']
    congr 1
    omega
  have hhalf := Nat.two_pow_pos (s - 1)
  have hdiv := Nat.div_add_mod x (2 ^ s)
  have hmod := Nat.mod_lt x (Nat.two_pow_pos s)
  unfold roundShift
  generalize 2 ^ (s - 1) = half at *
  generalize x / 2 ^ s = q at *
  generalize x % 2 ^ s = r at *
  generalize 2 ^ s = unit at *
  have hodd : q % 2 < 2 := Nat.mod_lt q (by decide)
  have hcarry : (r + (half - 1) + q % 2) / unit
      = if half < r ∨ r = half ∧ q % 2 = 1 then 1 else 0 := by
    by_cases hup : half < r ∨ r = half ∧ q % 2 = 1
    · rw [if_pos hup]
      exact Nat.div_eq_of_lt_le (by omega) (by omega)
    · rw [if_neg hup]
      exact Nat.div_eq_of_lt (by omega)
  calc (x + (half - 1) + q % 2) / unit
      = (unit * q + (r + (half - 1) + q % 2)) / unit := by rw [← hdiv, Nat.add_assoc, Nat.add_assoc,
        Nat.add_assoc]
    _ = _ := by rw [Nat.mul_add_div (by omega), hcarry]

/-! ## nearest values -/

/-- `v n` is the value nearest to `x`, and `n` is even when another one is as near -/
structure Nearest (v : Nat → ℚ) (x : ℚ) (n : Nat) : Prop where
  le : ∀ k, |x - v n| ≤ |x - v k|
  even : ∀ k, k ≠ n → |x - v n| = |x - v k| → n % 2 = 0

section
variable {v : Nat → ℚ} (hv : StrictMono v) {x θ : ℚ} {q : Nat} (h0 : 0 ≤ θ) (h1 : θ < 1)
  (hx : x = v q + θ * (v (q + 1) - v q))
include hv h0 h1 hx

omit h1 in
theorem below_dist {k : Nat} (hk : k ≤ q) : |x - v k| = θ * (v (q + 1) - v q) + (v q - v k) := by
  have hgap : 0 < v (q + 1) - v q := sub_pos.mpr (hv (Nat.lt_succ_self q))
  have hle : v k ≤ v q := hv.monotone hk
  have hpos : 0 ≤ θ * (v (q + 1) - v q) := mul_nonneg h0 hgap.le
  rw [abs_of_nonneg (by linarith)]
  linarith

omit h0 in
theorem above_dist {k : Nat} (hk : q < k) :
    |x - v k| = (1 - θ) * (v (q + 1) - v q) + (v k - v (q + 1)) := by
  have hgap : 0 < v (q + 1) - v q := sub_pos.mpr (hv (Nat.lt_succ_self q))
  have hle : v (q + 1) ≤ v k := hv.monotone hk
  have hlt : θ * (v (q + 1) - v q) < 1 * (v (q + 1) - v q) := mul_lt_mul_of_pos_right h1 hgap
  rw [abs_of_nonpos (by linarith)]
  linarith

theorem nearest_down (hθ : θ < 1 / 2 ∨ θ = 1 / 2 ∧ q % 2 = 0) : Nearest v x q := by
  have hgap : 0 < v (q + 1) - v q := sub_pos.mpr (hv (Nat.lt_succ_self q))
  have hhalf : θ ≤ 1 - θ := by rcases hθ with hθ | ⟨hθ, _⟩ <;> linarith
  have hmul : θ * (v (q + 1) - v q) ≤ (1 - θ) * (v (q + 1) - v q) :=
    mul_le_mul_of_nonneg_right hhalf hgap.le
  have hq := below_dist hv h0 hx (Nat.le_refl q)
  refine ⟨fun k => ?_, fun k hne heq => ?_⟩
  · rcases Nat.lt_or_ge q k with hk | hk
    · have hle : v (q + 1) ≤ v k := hv.monotone hk
      rw [hq, above_dist hv h1 hx hk]
      linarith
    · have hle : v k ≤ v q := hv.monotone hk
      rw [hq, below_dist hv h0 hx hk]
      linarith
  · rcases Nat.lt_or_ge q k with hk | hk
    · rcases hθ with hθ | ⟨_, heven⟩
      · have hle : v (q + 1) ≤ v k := hv.monotone hk
        have hlt : θ * (v (q + 1) - v q) < (1 - θ) * (v (q + 1) - v q) :=
          mul_lt_mul_of_pos_right (by linarith) hgap
        rw [hq, above_dist hv h1 hx hk] at heq
        linarith
      · exact heven
    · have hlt : v k < v q := hv (Nat.lt_of_le_of_ne hk hne)
      rw [hq, below_dist hv h0 hx hk] at heq
      linarith

theorem nearest_up (hθ : 1 / 2 < θ ∨ θ = 1 / 2 ∧ q % 2 = 1) : Nearest v x (q + 1) := by
  have hgap : 0 < v (q + 1) - v q := sub_pos.mpr (hv (Nat.lt_succ_self q))
  have hhalf : 1 - θ ≤ θ := by rcases hθ with hθ | ⟨hθ, _⟩ <;> linarith
  have hmul : (1 - θ) * (v (q + 1) - v q) ≤ θ * (v (q + 1) - v q) :=
    mul_le_mul_of_nonneg_right hhalf hgap.le
  have hq := above_dist hv h1 hx (Nat.lt_succ_self q)
  refine ⟨fun k => ?_, fun k hne heq => ?_⟩
  · rcases Nat.lt_or_ge q k with hk | hk
    · have hle : v (q + 1) ≤ v k := hv.monotone hk
      rw [hq, above_dist hv h1 hx hk]
      linarith
    · have hle : v k ≤ v q := hv.monotone hk
      rw [hq, below_dist hv h0 hx hk]
      linarith
  · rcases Nat.lt_or_ge q k with hk | hk
    · have hlt : v (q + 1) < v k := hv (Nat.lt_of_le_of_ne hk (Ne.symm hne))
      rw [hq, above_dist hv h1 hx hk] at heq
      linarith
    · rcases hθ with hθ | ⟨_, hodd⟩
      · have hle : v k ≤ v q := hv.monotone hk
        have hlt : (1 - θ) * (v (q + 1) - v q) < θ * (v (q + 1) - v q) :=
          mul_lt_mul_of_pos_right (by linarith) hgap
        rw [hq, below_dist hv h0 hx hk] at heq
        linarith
      · omega

end

/-- **A shift that rounds is nearest**, when the value lies past pattern `N / 2^s` by the fraction that
is shifted out. -/
theorem nearest_roundShift {v : Nat → ℚ} (hv : StrictMono v) {x : ℚ} {s N : Nat} (hs : 0 < s)
    (hx : x = v (N / 2 ^ s) + (N % 2 ^ s : Nat) / 2 ^ s * (v (N / 2 ^ s + 1) - v (N / 2 ^ s))) :
    Nearest v x (roundShift s N) := by
  have hpow : (2 : ℚ) ^ s = 2 * 2 ^ (s - 1) := by
    rw [← pow_succ']
    congr 1
    omega
  have hpos : (0 : ℚ) < 2 ^ s := by positivity
  have hmod : ((N % 2 ^ s : Nat) : ℚ) < 2 ^ s := by
    exact_mod_cast Nat.mod_lt N (Nat.two_pow_pos s)
  have h0 : (0 : ℚ) ≤ (N % 2 ^ s : Nat) / 2 ^ s := by positivity
  have h1 : ((N % 2 ^ s : Nat) : ℚ) / 2 ^ s < 1 := (div_lt_one hpos).mpr hmod
  have hodd := Nat.mod_two_eq_zero_or_one (N / 2 ^ s)
  unfold roundShift
  by_cases hup : 2 ^ (s - 1) < N % 2 ^ s ∨ N % 2 ^ s = 2 ^ (s - 1) ∧ N / 2 ^ s % 2 = 1
  · rw [if_pos hup]
    refine nearest_up hv h0 h1 hx ?_
    rcases hup with hlt | ⟨heq, hodd⟩
    · have hlt : ((2 ^ (s - 1) : Nat) : ℚ) < (N % 2 ^ s : Nat) := Nat.cast_lt.mpr hlt
      rw [Nat.cast_pow, Nat.cast_ofNat] at hlt
      refine .inl ((lt_div_iff₀ hpos).mpr ?_)
      rw [hpow]
      linarith
    · refine .inr ⟨?_, hodd⟩
      rw [heq, Nat.cast_pow, Nat.cast_ofNat, div_eq_iff hpos.ne', hpow]
      ring
  · rw [if_neg hup, Nat.add_zero]
    refine nearest_down hv h0 h1 hx ?_
    rcases Nat.lt_trichotomy (N % 2 ^ s) (2 ^ (s - 1)) with hlt | heq | hgt
    · have hlt : ((N % 2 ^ s : Nat) : ℚ) < (2 ^ (s - 1) : Nat) := Nat.cast_lt.mpr hlt
      rw [Nat.cast_pow, Nat.cast_ofNat] at hlt
      refine .inl ((div_lt_iff₀ hpos).mpr ?_)
      rw [hpow]
      linarith
    · refine .inr ⟨?_, by omega⟩
      rw [heq, Nat.cast_pow, Nat.cast_ofNat, div_eq_iff hpos.ne', hpow]
      ring
    · exact absurd (.inl hgt) hup

/-! ## formats -/

structure Format where
  expBits : Nat
  mantBits : Nat
  exp_pos : 0 < expBits
  mant_pos : 0 < mantBits

/-- what a pattern denotes; a NaN keeps its sign and loses its payload -/
inductive Value where
  | nan (negative : Bool)
  | infinity (negative : Bool)
  | finite (negative : Bool) (magnitude : ℚ)

namespace Format
variable (f : Format)

def bias : Int := 2 ^ (f.expBits - 1) - 1

/-- the magnitude pattern of infinity -/
def infPattern : Nat := (2 ^ f.expBits - 1) * 2 ^ f.mantBits

/-- a magnitude in units of the least subnormal number -/
def steps (a : Nat) : Nat :=
  if a / 2 ^ f.mantBits = 0 then a
  else (2 ^ f.mantBits + a % 2 ^ f.mantBits) * 2 ^ (a / 2 ^ f.mantBits - 1)

def unit : ℚ := 2 ^ (1 - f.bias - f.mantBits)

/-- the value of a magnitude pattern -/
def magnitude (a : Nat) : ℚ := f.steps a * f.unit

def decode (bits : Nat) : Value :=
  let negative := decide (bits / 2 ^ (f.expBits + f.mantBits) % 2 = 1)
  let a := bits % 2 ^ (f.expBits + f.mantBits)
  if f.infPattern < a then .nan negative
  else if a = f.infPattern then .infinity negative
  else .finite negative (f.magnitude a)

/-- halfway between the greatest finite number and the number one step above it -/
def threshold : ℚ := (f.magnitude (f.infPattern - 1) + f.magnitude f.infPattern) / 2

/-- `bits` is the value rounded to nearest, ties to even -/
def Rounds : Value → Nat → Prop
  | .nan negative, bits => f.decode bits = .nan negative
  | .infinity negative, bits => f.decode bits = .infinity negative
  | .finite negative x, bits =>
    (f.threshold ≤ x → f.decode bits = .infinity negative) ∧
    (x < f.threshold → ∃ y, f.decode bits = .finite negative y ∧
      ∀ bits' z, f.decode bits' = .finite negative z → |x - y| ≤ |x - z| ∧
        (z ≠ y → |x - y| = |x - z| → bits % 2 = 0))

variable {f}

theorem unit_pos : 0 < f.unit := by
  unfold unit
  exact zpow_pos two_pos _

theorem steps_succ (a : Nat) : f.steps (a + 1) = f.steps a + 2 ^ (a / 2 ^ f.mantBits - 1) := by
  have hpos := Nat.two_pow_pos f.mantBits
  have hdiv := Nat.div_add_mod a (2 ^ f.mantBits)
  have hmod := Nat.mod_lt a hpos
  unfold steps
  generalize 2 ^ f.mantBits = w at *
  by_cases hcarry : a % w + 1 < w
  · -- the next pattern has the same exponent field
    have hfields : a + 1 = w * (a / w) + (a % w + 1) := by omega
    have hexp : (a + 1) / w = a / w := by
      rw [hfields, Nat.mul_add_div hpos, Nat.div_eq_of_lt hcarry, Nat.add_zero]
    have hmant : (a + 1) % w = a % w + 1 := by
      rw [hfields, Nat.mul_add_mod, Nat.mod_eq_of_lt hcarry]
    rw [hexp, hmant]
    by_cases h0 : a / w = 0
    · rw [if_pos h0, if_pos h0, h0]
      rfl
    · rw [if_neg h0, if_neg h0, ← Nat.add_assoc, Nat.add_mul, Nat.one_mul]
  · have hfields : a + 1 = w * (a / w + 1) := by
      rw [Nat.mul_add, Nat.mul_one]
      omega
    have hexp : (a + 1) / w = a / w + 1 := by rw [hfields, Nat.mul_div_cancel_left _ hpos]
    have hmant : (a + 1) % w = 0 := by rw [hfields, Nat.mul_mod_right]
    rw [hexp, hmant, if_neg (Nat.succ_ne_zero _), Nat.add_zero, Nat.add_sub_cancel]
    by_cases h0 : a / w = 0
    · rw [h0, Nat.mul_zero] at hdiv
      rw [if_pos h0, h0, Nat.pow_zero, Nat.mul_one]
      show w = a + 1
      omega
    · obtain ⟨e, he⟩ := Nat.exists_eq_succ_of_ne_zero h0
      have hfull : w + a % w + 1 = 2 * w := by omega
      rw [if_neg h0, he, Nat.succ_sub_one, Nat.pow_succ]
      calc w * (2 ^ e * 2) = (2 * w) * 2 ^ e := by ring
        _ = (w + a % w) * 2 ^ e + 2 ^ e := by rw [← hfull, Nat.add_mul _ 1, Nat.one_mul]

theorem steps_strictMono : StrictMono f.steps := by
  refine strictMono_nat_of_lt_succ fun a => ?_
  rw [steps_succ]
  exact Nat.lt_add_of_pos_right (Nat.two_pow_pos _)

theorem magnitude_strictMono : StrictMono f.magnitude := by
  intro a b hab
  exact mul_lt_mul_of_pos_right (Nat.cast_lt.mpr (steps_strictMono hab)) unit_pos

/-- one unit in the last place -/
theorem magnitude_succ (a : Nat) :
    f.magnitude (a + 1) - f.magnitude a = 2 ^ (a / 2 ^ f.mantBits - 1) * f.unit := by
  unfold magnitude
  rw [steps_succ]
  push_cast
  ring

/-! ## the nearest pattern is the rounded value -/

theorem infPattern_pos : 0 < f.infPattern := by
  have : 1 < 2 ^ f.expBits := Nat.one_lt_two_pow f.exp_pos.ne'
  exact Nat.mul_pos (by omega) (Nat.two_pow_pos _)

theorem infPattern_even : f.infPattern % 2 = 0 := by
  obtain ⟨m, hm⟩ := Nat.exists_eq_succ_of_ne_zero f.mant_pos.ne'
  unfold infPattern
  rw [hm, Nat.pow_succ, ← Nat.mul_assoc]
  exact Nat.mul_mod_left _ 2

theorem decode_finite {bits : Nat} {negative : Bool} {z : ℚ} (h : f.decode bits = .finite negative z) :
    z = f.magnitude (bits % 2 ^ (f.expBits + f.mantBits)) := by
  unfold decode at h
  dsimp only at h
  split at h
  · cases h
  · split at h
    · cases h
    · exact (Value.finite.inj h).2.symm

variable {bits a : Nat} {negative : Bool} {x : ℚ}
  (hsign : bits / 2 ^ (f.expBits + f.mantBits) % 2 = 1 ↔ negative = true)
  (hbits : bits % 2 ^ (f.expBits + f.mantBits) = a)
include hsign hbits

theorem decode_eq : f.decode bits = if f.infPattern < a then .nan negative
    else if a = f.infPattern then .infinity negative else .finite negative (f.magnitude a) := by
  have hneg : decide (bits / 2 ^ (f.expBits + f.mantBits) % 2 = 1) = negative := by
    rw [Bool.eq_iff_iff, decide_eq_true_iff, hsign]
  unfold decode
  rw [hneg, hbits]

/-- **The nearest magnitude pattern, with the sign.** -/
theorem rounds_of_nearest (h : Nearest f.magnitude x a) (ha : a ≤ f.infPattern) :
    f.Rounds (.finite negative x) bits := by
  have hpos := f.infPattern_pos
  have heven := f.infPattern_even
  have hdecode := decode_eq hsign hbits
  rw [if_neg (Nat.not_lt.mpr ha)] at hdecode
  have hgap : f.magnitude (f.infPattern - 1) < f.magnitude f.infPattern :=
    magnitude_strictMono (Nat.sub_lt hpos Nat.one_pos)
  constructor
  · -- past the threshold the pattern of infinity is nearer than any other
    intro hx
    suffices hinf : a = f.infPattern by rw [hdecode, if_pos hinf]
    by_contra hne
    have hle : f.magnitude a ≤ f.magnitude (f.infPattern - 1) :=
      magnitude_strictMono.monotone (by omega)
    unfold threshold at hx
    have hfar := h.le f.infPattern
    rw [abs_of_nonneg (by linarith)] at hfar
    rcases lt_or_ge x (f.magnitude f.infPattern) with hlt | hge
    · have hdist := abs_of_neg (sub_neg_of_lt hlt)
      have htie : f.magnitude a = f.magnitude (f.infPattern - 1) := by linarith
      have hlast := magnitude_strictMono.injective htie
      have hsame := h.even f.infPattern (Ne.symm hne)
      rw [abs_of_nonneg (by linarith), hdist] at hsame
      have := hsame (by linarith)
      omega
    · rw [abs_of_nonneg (by linarith)] at hfar
      linarith
  · intro hx
    have hne : a ≠ f.infPattern := by
      rintro rfl
      have hnear := h.le (f.infPattern - 1)
      unfold threshold at hx
      rw [abs_of_neg (by linarith)] at hnear
      rcases le_total (f.magnitude (f.infPattern - 1)) x with hle | hle
      · rw [abs_of_nonneg (sub_nonneg.mpr hle)] at hnear
        linarith
      · rw [abs_of_nonpos (sub_nonpos.mpr hle)] at hnear
        linarith
    rw [if_neg hne] at hdecode
    refine ⟨_, hdecode, fun bits' z hz => ?_⟩
    obtain rfl := decode_finite hz
    refine ⟨h.le _, fun hz htie => ?_⟩
    have hlow := h.even _ (fun heq => hz (by rw [heq])) htie
    have hdvd : 2 ∣ 2 ^ (f.expBits + f.mantBits) := dvd_pow_self 2 (by have := f.exp_pos; omega)
    rw [← Nat.mod_mod_of_dvd bits hdvd, hbits]
    exact hlow

end Format
end BinaryFloat
