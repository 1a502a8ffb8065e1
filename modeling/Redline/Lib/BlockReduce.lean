import Mathlib.Data.List.Nodup
import Mathlib.Data.Multiset.Fold
import Mathlib.Data.Multiset.Range
import Mathlib.Tactic.Ring

/-!
# Reductions by a block of threads

* `strided T n t`   the indices `t, t + T, t + 2T, …` below `n`, which thread `t` of `T` visits;
                    together the threads visit each index below `n` once (`perm_strided`);
* `tree op k p`     the partials of `2^k` threads collapsed pairwise, half the block at a time;
* `blockReduce`     the two together: each thread folds its indices, then the tree.
                    `blockReduce_eq`: for a commutative and associative operation it is the fold
                    over all indices, one after the other.
-/

namespace BlockReduce

/-! ## the indices of a thread -/

/-- `for (j = t; j < n; j += T)` -/
def strided (T n t : Nat) : List Nat := (List.range ((n - t + T - 1) / T)).map fun k => t + T * k

theorem lt_count {T n t k : Nat} (hT : 0 < T) : k < (n - t + T - 1) / T ↔ t + T * k < n := by
  rw [Nat.lt_iff_add_one_le, Nat.le_div_iff_mul_le hT, Nat.add_mul, Nat.one_mul, Nat.mul_comm k T]
  omega

theorem lt_of_mem_strided {T n t j : Nat} (hT : 0 < T) (h : j ∈ strided T n t) : j < n := by
  obtain ⟨k, hk, rfl⟩ := List.mem_map.mp h
  exact (lt_count hT).mp (List.mem_range.mp hk)

theorem mem_strided {T n t j : Nat} (ht : t < T) : j ∈ strided T n t ↔ j < n ∧ j % T = t := by
  have hT : 0 < T := Nat.zero_lt_of_lt ht
  constructor
  · intro h
    refine ⟨lt_of_mem_strided hT h, ?_⟩
    obtain ⟨k, _, rfl⟩ := List.mem_map.mp h
    rw [Nat.add_mul_mod_self_left, Nat.mod_eq_of_lt ht]
  · rintro ⟨hj, rfl⟩
    have hdiv := Nat.mod_add_div j T
    exact List.mem_map.mpr ⟨j / T, List.mem_range.mpr ((lt_count hT).mpr (by omega)), hdiv⟩

theorem nodup_strided {T : Nat} (hT : 0 < T) (n t : Nat) : (strided T n t).Nodup := by
  refine List.nodup_range.map fun k k' h => ?_
  exact Nat.eq_of_mul_eq_mul_left hT (Nat.add_left_cancel h)

/-- **Every index has one thread.** -/
theorem perm_strided {T : Nat} (hT : 0 < T) (n : Nat) :
    ((List.range T).flatMap (strided T n)).Perm (List.range n) := by
  refine (List.perm_ext_iff_of_nodup ?_ List.nodup_range).mpr fun j => ?_
  · refine List.nodup_flatMap.mpr ⟨fun t _ => nodup_strided hT n t, ?_⟩
    refine List.Pairwise.imp_of_mem (fun {t t'} ht ht' hne => ?_) List.nodup_range
    intro j hj hj'
    have h := (mem_strided (List.mem_range.mp ht)).mp hj
    have h' := (mem_strided (List.mem_range.mp ht')).mp hj'
    exact hne (h.2.symm.trans h'.2)
  · rw [List.mem_flatMap, List.mem_range]
    constructor
    · rintro ⟨t, ht, hj⟩
      exact ((mem_strided (List.mem_range.mp ht)).mp hj).1
    · intro hj
      have ht := Nat.mod_lt j hT
      exact ⟨j % T, List.mem_range.mpr ht, (mem_strided ht).mpr ⟨hj, rfl⟩⟩

/-- the threads together do what one loop over the indices does -/
theorem perm_flatMap_strided {β : Type*} {T : Nat} (hT : 0 < T) (n : Nat) (f : Nat → List β) :
    ((List.range T).flatMap fun t => (strided T n t).flatMap f).Perm ((List.range n).flatMap f) := by
  rw [← List.flatMap_assoc]
  exact (perm_strided hT n).flatMap_right f

/-! ## the tree -/

section
variable {α : Type*} (op : α → α → α)

/-- `if (t < h) p[t] = op(p[t], p[t + h])` -/
def halve (p : Nat → α) (h : Nat) : Nat → α := fun t => if t < h then op (p t) (p (t + h)) else p t

/-- halving steps with offsets `2^(k-1), …, 2, 1`; the result is in slot 0 -/
def tree : Nat → (Nat → α) → α
  | 0, p => p 0
  | k+1, p => tree k (halve op p (2 ^ k))

/-- each of `2^k` threads folds its indices, then the tree -/
def blockReduce (k : Nat) (b : α) (n : Nat) (f : Nat → α) : α :=
  tree op k fun t => (strided (2 ^ k) n t).foldl (fun acc j => op acc (f j)) b

theorem op_assoc (op : α → α → α) [Std.Associative op] (x y z : α) :
    op (op x y) z = op x (op y z) := Std.Associative.assoc x y z

theorem op_comm (op : α → α → α) [Std.Commutative op] (x y : α) : op x y = op y x :=
  Std.Commutative.comm x y

variable [Std.Commutative op] [Std.Associative op] {op} {b : α}

theorem foldl_eq_fold (f : Nat → α) (l : List Nat) (b : α) :
    l.foldl (fun acc j => op acc (f j)) b = Multiset.fold op b (Multiset.map f l) := by
  rw [Multiset.map_coe, Multiset.coe_fold_l, List.foldl_map]

/-- a fold from `b` takes `b` in for nothing -/
theorem op_fold (hb : op b b = b) (s : Multiset α) : op b (s.fold op b) = s.fold op b := by
  induction s using Multiset.induction with
  | empty => exact hb
  | cons a s ih =>
    rw [Multiset.fold_cons_left, ← op_assoc op, op_comm op b a, op_assoc op, ih]

theorem tree_eq (hb : op b b = b) : ∀ (k : Nat) (p : Nat → α), (∀ t, op b (p t) = p t) →
    tree op k p = Multiset.fold op b ((Multiset.range (2 ^ k)).map p) := by
  intro k
  induction k with
  | zero =>
    intro p hp
    show p 0 = _
    rw [Nat.pow_zero, Multiset.range_succ, Multiset.range_zero, Multiset.map_cons,
      Multiset.fold_cons_left, Multiset.map_zero, Multiset.fold_zero, op_comm op, hp]
  | succ k ih =>
    intro p hp
    have hhalf : ∀ t, op b (halve op p (2 ^ k) t) = halve op p (2 ^ k) t := by
      intro t
      unfold halve
      split
      · rw [← op_assoc op, hp]
      · exact hp t
    have hmap : (Multiset.range (2 ^ k)).map (halve op p (2 ^ k))
        = (Multiset.range (2 ^ k)).map fun t => op (p t) (p (t + 2 ^ k)) :=
      Multiset.map_congr rfl fun t ht => if_pos (Multiset.mem_range.mp ht)
    show tree op k (halve op p (2 ^ k)) = _
    have hsplit : (Multiset.range (2 ^ (k + 1))).map p
        = (Multiset.range (2 ^ k)).map p + (Multiset.range (2 ^ k)).map fun t => p (t + 2 ^ k) := by
      rw [Nat.pow_succ, Nat.mul_two, Multiset.range_add, Multiset.map_add, Multiset.map_map]
      refine congrArg _ (Multiset.map_congr rfl fun t _ => ?_)
      exact congrArg p (Nat.add_comm _ _)
    have hdistrib := Multiset.fold_distrib op (f := p) (g := fun t => p (t + 2 ^ k)) b b
      (Multiset.range (2 ^ k))
    have hadd := Multiset.fold_add op b b ((Multiset.range (2 ^ k)).map p)
      ((Multiset.range (2 ^ k)).map fun t => p (t + 2 ^ k))
    rw [hb] at hdistrib hadd
    rw [ih _ hhalf, hmap, hdistrib, hsplit, hadd]

/-- folds of parts, folded -/
theorem fold_flatMap (hb : op b b = b) (f : Nat → α) (g : Nat → List Nat) (l : List Nat) :
    Multiset.fold op b (Multiset.map f (l.flatMap g : Multiset Nat))
      = Multiset.fold op b (Multiset.map (fun t => Multiset.fold op b (Multiset.map f (g t))) l) := by
  induction l with
  | nil => rfl
  | cons t l ih =>
    have hadd := Multiset.fold_add op b b (Multiset.map f (g t : Multiset Nat))
      (Multiset.map f (l.flatMap g : Multiset Nat))
    rw [hb] at hadd
    rw [List.flatMap_cons, ← Multiset.coe_add, Multiset.map_add, hadd, ih, ← Multiset.cons_coe,
      Multiset.map_cons, Multiset.fold_cons_left]

/-- **A block reduction is a fold**, for an operation whose order does not matter. -/
theorem blockReduce_eq (hb : op b b = b) (k n : Nat) (f : Nat → α) :
    blockReduce op k b n f = (List.range n).foldl (fun acc j => op acc (f j)) b := by
  unfold blockReduce
  rw [tree_eq hb]
  · simp only [foldl_eq_fold]
    have hperm : ((List.range (2 ^ k)).flatMap (strided (2 ^ k) n) : Multiset Nat) = List.range n :=
      Multiset.coe_eq_coe.mpr (perm_strided (Nat.two_pow_pos k) n)
    rw [← hperm, fold_flatMap hb]
    rfl
  · intro t
    rw [foldl_eq_fold]
    exact op_fold hb _

end
end BlockReduce
