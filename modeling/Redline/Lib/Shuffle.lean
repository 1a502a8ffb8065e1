import Mathlib.Data.Multiset.Fold
import Mathlib.Data.Multiset.Range
import Mathlib.Data.Nat.Bitwise
import Mathlib.Tactic.Ring

/-!
# Reductions by lane shuffles

The lanes of a warp exchange their values in steps with offsets `2^(k-1), …, 2, 1`.

* `butterfly op k p`    `p = op(p, shfl_xor(p, off))`, in every lane at once;
* `down op k p`         `p = op(p, shfl_down(p, off))`; a lane without a partner keeps its own value.

`butterfly_group`: after the first every lane of an aligned group of `2^k` holds the value of the whole
group, and the groups together that of the block (`groups_fold`); `down_eq`: after the second the first
lane of a group does.  `butterfly_rel`: what relates the values of the lanes, and is kept by the
operation, relates the results.
-/

namespace Shuffle

section
variable {α β : Type*} (op : α → α → α)

def butterfly : Nat → (Nat → α) → Nat → α
  | 0, p => p
  | k+1, p => butterfly k fun l => op (p l) (p (l ^^^ 2 ^ k))

/-- `width` is the number of lanes -/
def down (width : Nat) : Nat → (Nat → α) → Nat → α
  | 0, p => p
  | k+1, p => down width k fun l => op (p l) (p (if l + 2 ^ k < width then l + 2 ^ k else l))

variable {op} {op' : β → β → β} {R : α → β → Prop}

theorem butterfly_rel (hop : ∀ a b a' b', R a b → R a' b' → R (op a a') (op' b b')) :
    ∀ (k : Nat) {p : Nat → α} {q : Nat → β}, (∀ l, R (p l) (q l)) →
      ∀ l, R (butterfly op k p l) (butterfly op' k q l)
  | 0, _, _, h => h
  | k+1, _, _, h => butterfly_rel hop k fun l => hop _ _ _ _ (h l) (h (l ^^^ 2 ^ k))

end

/-! ## lane numbers -/

theorem xor_two_pow_of_lt {k m : Nat} (hm : m < 2 ^ k) : m ^^^ 2 ^ k = m + 2 ^ k := by
  apply Nat.eq_of_testBit_eq
  intro i
  have hadd : (m + 2 ^ k).testBit i = if i < k then m.testBit i else (1 : Nat).testBit (i - k) := by
    have := Nat.testBit_two_pow_mul_add 1 hm i
    rwa [Nat.mul_one, Nat.add_comm] at this
  rw [hadd, Nat.testBit_xor, Nat.testBit_two_pow]
  by_cases hi : i < k
  · rw [if_pos hi, decide_eq_false (by omega), Bool.xor_false]
  · have hbit : m.testBit i = false :=
      Nat.testBit_lt_two_pow (Nat.lt_of_lt_of_le hm (Nat.pow_le_pow_right (by decide) (by omega)))
    rw [if_neg hi, hbit, Bool.false_xor]
    by_cases hk : k = i
    · rw [hk, decide_eq_true rfl, Nat.sub_self]
      rfl
    · obtain ⟨j, hj⟩ : ∃ j, i - k = j + 1 := ⟨i - k - 1, by omega⟩
      rw [decide_eq_false hk, hj, Nat.testBit_succ]
      exact (Nat.zero_testBit j).symm

/-- a lane of an aligned group stays in it -/
theorem group_xor {k g t m : Nat} (ht : t < 2 ^ k) (hm : m < 2 ^ k) :
    (2 ^ k * g + t) ^^^ m = 2 ^ k * g + (t ^^^ m) := by
  apply Nat.eq_of_testBit_eq
  intro i
  rw [Nat.testBit_xor, Nat.testBit_two_pow_mul_add g ht i,
    Nat.testBit_two_pow_mul_add g (Nat.xor_lt_two_pow ht hm) i]
  by_cases hi : i < k
  · rw [if_pos hi, if_pos hi, Nat.testBit_xor]
  · have hbit : m.testBit i = false :=
      Nat.testBit_lt_two_pow (Nat.lt_of_lt_of_le hm (Nat.pow_le_pow_right (by decide) (by omega)))
    rw [if_neg hi, if_neg hi, hbit, Bool.xor_false]

/-- the partners of one lane are all the lanes of its group -/
theorem map_xor_range {k t : Nat} (ht : t < 2 ^ k) :
    (Multiset.range (2 ^ k)).map (fun m => t ^^^ m) = Multiset.range (2 ^ k) := by
  have hinj : Function.Injective fun m => t ^^^ m := fun m m' h => Nat.xor_right_injective h
  refine (Multiset.Nodup.ext ((Multiset.nodup_range _).map hinj) (Multiset.nodup_range _)).mpr ?_
  intro x
  rw [Multiset.mem_map, Multiset.mem_range]
  constructor
  · rintro ⟨m, hm, rfl⟩
    exact Nat.xor_lt_two_pow ht (Multiset.mem_range.mp hm)
  · intro hx
    refine ⟨t ^^^ x, Multiset.mem_range.mpr (Nat.xor_lt_two_pow ht hx), ?_⟩
    rw [← Nat.xor_assoc, Nat.xor_self, Nat.zero_xor]

/-! ## the value of a group -/

section
variable {α : Type*} {op : α → α → α} [Std.Commutative op] [Std.Associative op] {b : α}

theorem fold_range_double (hb : ∀ x, op b x = x) (n : Nat) (f : Nat → α) :
    ((Multiset.range n).map fun m => op (f m) (f (m + n))).fold op b
      = ((Multiset.range (2 * n)).map f).fold op b := by
  have hsplit : (Multiset.range (2 * n)).map f
      = (Multiset.range n).map f + (Multiset.range n).map fun m => f (m + n) := by
    rw [Nat.two_mul, Multiset.range_add, Multiset.map_add, Multiset.map_map]
    refine congrArg _ (Multiset.map_congr rfl fun m _ => ?_)
    exact congrArg f (Nat.add_comm _ _)
  have hdistrib := Multiset.fold_distrib op (f := f) (g := fun m => f (m + n)) b b (Multiset.range n)
  have hadd := Multiset.fold_add op b b ((Multiset.range n).map f)
    ((Multiset.range n).map fun m => f (m + n))
  rw [hb] at hdistrib hadd
  rw [hdistrib, hsplit, hadd]

theorem fold_one (hb : ∀ x, op b x = x) (f : Nat → α) :
    ((Multiset.range 1).map f).fold op b = f 0 := by
  rw [Multiset.range_succ, Multiset.range_zero, Multiset.map_cons, Multiset.fold_cons'_left,
    Multiset.map_zero, Multiset.fold_zero]
  exact (Std.Commutative.comm _ _).trans (hb _)

theorem butterfly_eq (hb : ∀ x, op b x = x) : ∀ (k : Nat) (p : Nat → α) (l : Nat),
    butterfly op k p l = ((Multiset.range (2 ^ k)).map fun m => p (l ^^^ m)).fold op b := by
  intro k
  induction k with
  | zero =>
    intro p l
    rw [Nat.pow_zero, fold_one hb, Nat.xor_zero]
    rfl
  | succ k ih =>
    intro p l
    show butterfly op k _ l = _
    rw [ih, Nat.pow_succ', ← fold_range_double hb]
    refine congrArg _ (Multiset.map_congr rfl fun m hm => ?_)
    have hx : l ^^^ m ^^^ 2 ^ k = l ^^^ (m + 2 ^ k) := by
      rw [Nat.xor_assoc, xor_two_pow_of_lt (Multiset.mem_range.mp hm)]
    exact congrArg (op (p (l ^^^ m))) (congrArg p hx)

variable (op) in
/-- **Every lane of a group holds the value of the group.** -/
theorem butterfly_group (hb : ∀ x, op b x = x) (k : Nat) (p : Nat → α) (g : Nat) {t : Nat}
    (ht : t < 2 ^ k) : butterfly op k p (2 ^ k * g + t)
      = ((Multiset.range (2 ^ k)).map fun m => p (2 ^ k * g + m)).fold op b := by
  rw [butterfly_eq hb]
  have hlane : (Multiset.range (2 ^ k)).map (fun m => p ((2 ^ k * g + t) ^^^ m))
      = ((Multiset.range (2 ^ k)).map fun m => t ^^^ m).map fun m => p (2 ^ k * g + m) := by
    rw [Multiset.map_map]
    refine Multiset.map_congr rfl fun m hm => ?_
    exact congrArg p (group_xor ht (Multiset.mem_range.mp hm))
  rw [hlane, map_xor_range ht]

variable (op) in
/-- the values of the groups of a block, collected -/
theorem groups_fold (hb : ∀ x, op b x = x) (j k : Nat) (p : Nat → α) :
    ((Multiset.range k).map fun g => butterfly op j p (2 ^ j * g)).fold op b
      = ((Multiset.range (2 ^ j * k)).map p).fold op b := by
  induction k with
  | zero => rfl
  | succ k ih =>
    have hgroup := butterfly_group op hb j p k (Nat.two_pow_pos j)
    have hadd := Multiset.fold_add op b b ((Multiset.range (2 ^ j * k)).map p)
      ((Multiset.range (2 ^ j)).map fun m => p (2 ^ j * k + m))
    rw [hb] at hadd
    rw [Nat.add_zero] at hgroup
    rw [Multiset.range_succ, Multiset.map_cons, Multiset.fold_cons_left, ih, hgroup, Nat.mul_succ,
      Multiset.range_add, Multiset.map_add, Multiset.map_map]
    exact (Std.Commutative.comm _ _).trans hadd.symm

variable (op) in
/-- **The first lane of a group holds the value of the group.** -/
theorem down_eq (hb : ∀ x, op b x = x) (width : Nat) : ∀ (k : Nat) (p : Nat → α) (l : Nat),
    l + 2 ^ k ≤ width →
    down op width k p l = ((Multiset.range (2 ^ k)).map fun m => p (l + m)).fold op b := by
  intro k
  induction k with
  | zero =>
    intro p l _
    rw [Nat.pow_zero, fold_one hb]
    rfl
  | succ k ih =>
    intro p l hl
    have hpow : 2 ^ (k + 1) = 2 ^ k + 2 ^ k := by ring
    have hgroup : l + 2 ^ k ≤ width := by
      have := Nat.two_pow_pos k
      omega
    show down op width k _ l = _
    rw [ih _ _ hgroup, Nat.pow_succ', ← fold_range_double hb]
    refine congrArg _ (Multiset.map_congr rfl fun m hm => ?_)
    have hpartner : l + m + 2 ^ k < width := by
      have := Multiset.mem_range.mp hm
      omega
    rw [if_pos hpartner, Nat.add_assoc]

end
end Shuffle
