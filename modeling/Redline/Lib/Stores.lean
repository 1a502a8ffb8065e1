import Mathlib.Data.List.Nodup
import Mathlib.Data.List.ProdSigma
import Mathlib.Logic.Function.Basic
import Mathlib.Tactic.Common

/-!
# Stores of single cells

`store m ws` is the memory `m` after the stores `ws`, each an address with a value.  Stores to
different addresses may come in any order (`store_perm`), and each cell then holds what was stored
to it (`store_of_mem`); the other cells keep theirs (`store_of_not_mem`).
-/

namespace Stores
variable {A K ι : Type*}

/-- stores indexed by a list without repetition, to different addresses -/
theorem nodup_keys {l : List ι} (hl : l.Nodup) {f : ι → A × K}
    (hf : ∀ x ∈ l, ∀ y ∈ l, (f x).1 = (f y).1 → x = y) : ((l.map f).map Prod.fst).Nodup := by
  rw [List.map_map]
  exact List.Nodup.map_on hf hl

/-- lists of stores, each to cells of its own -/
theorem nodup_flatMap_keys {l : List ι} {f : ι → List (A × K)} (foot : ι → A → Prop)
    (hfoot : ∀ i ∈ l, ∀ w ∈ f i, foot i w.1) (hapart : l.Pairwise fun i j => ∀ a, foot i a → ¬ foot j a)
    (hn : ∀ i ∈ l, ((f i).map Prod.fst).Nodup) : ((l.flatMap f).map Prod.fst).Nodup := by
  rw [List.map_flatMap, List.nodup_flatMap]
  refine ⟨hn, hapart.imp_of_mem fun {i j} hi hj hij a ha ha' => ?_⟩
  obtain ⟨w, hw, rfl⟩ := List.mem_map.mp ha
  obtain ⟨w', hw', heq⟩ := List.mem_map.mp ha'
  exact hij w.1 (hfoot i hi w hw) (heq ▸ hfoot j hj w' hw')

/-- the row and the column of an address in rows of `n` -/
theorem row_inj {n a b a' b' : Nat} (hb : b < n) (hb' : b' < n) (h : a * n + b = a' * n + b') :
    a = a' ∧ b = b' := by
  have hdiv := congrArg (· / n) h
  have hmod := congrArg (· % n) h
  simp only [Nat.mul_comm _ n, Nat.mul_add_div (Nat.zero_lt_of_lt hb), Nat.mul_add_mod,
    Nat.div_eq_of_lt hb, Nat.div_eq_of_lt hb', Nat.mod_eq_of_lt hb, Nat.mod_eq_of_lt hb'] at hdiv hmod
  exact ⟨hdiv, hmod⟩

/-- the last cell of a row still belongs to it -/
theorem row_lt {n a b m : Nat} (hb : b < n) (ha : a < m) : a * n + b < m * n :=
  calc a * n + b < a * n + n := Nat.add_lt_add_left hb _
    _ = (a + 1) * n := (Nat.succ_mul _ _).symm
    _ ≤ m * n := Nat.mul_le_mul_right n ha

/-! ## grids of stores -/

theorem range_mul (n k : Nat) :
    List.range (n * k) = (List.range n).flatMap fun g => (List.range k).map fun z => g * k + z := by
  induction n with
  | zero => rw [Nat.zero_mul, List.range_zero, List.flatMap_nil]
  | succ n ih =>
    rw [Nat.succ_mul, List.range_add, ih, List.range_succ, List.flatMap_append, List.flatMap_singleton]

/-- groups of `k`, one group after the other, are one grid -/
theorem flatMap_groups {β γ : Type*} (n k : Nat) (l : List β) (f : Nat → Nat × β → γ)
    (f' : Nat × β → γ) (h : ∀ g, ∀ z < k, ∀ x ∈ l, f g (z, x) = f' (g * k + z, x)) :
    (List.range n).flatMap (fun g => (List.range k ×ˢ l).map (f g))
      = (List.range (n * k) ×ˢ l).map f' := by
  have hprod : ∀ (r : List Nat) (F : Nat × β → γ),
      (r ×ˢ l).map F = r.flatMap fun z => l.map fun x => F (z, x) := by
    intro r F
    induction r with
    | nil => rfl
    | cons z r ih =>
      rw [List.product_cons, List.map_append, ih, List.map_map, List.flatMap_cons]
      rfl
  rw [hprod, range_mul, List.flatMap_assoc]
  refine List.flatMap_congr fun g _ => ?_
  rw [hprod, List.flatMap_map]
  refine List.flatMap_congr fun z hz => List.map_congr_left fun x hx => ?_
  exact h g z (List.mem_range.mp hz) x hx

/-- the side, the row and the place in its row of a word of two sides of `n` rows of `m` -/
theorem word_parts {n m side row w : Nat} (hside : side < 2) (hrow : row < n) (hw : w < m) :
    (if side * (n * m) + (row * m + w) < n * m then 0 else 1) = side ∧
    side * (n * m) + (row * m + w) - side * (n * m) = row * m + w ∧
    (row * m + w) / m = row ∧ row * m + w - row * m = w := by
  have hr : row * m + w < n * m := row_lt hw hrow
  refine ⟨?_, Nat.add_sub_cancel_left _ _, ?_, Nat.add_sub_cancel_left _ _⟩
  · rcases Nat.lt_succ_iff_lt_or_eq.mp hside with h0 | rfl
    · obtain rfl : side = 0 := by omega
      rw [Nat.zero_mul, Nat.zero_add, if_pos hr]
    · rw [Nat.one_mul, if_neg (by omega)]
  · rw [Nat.mul_comm, Nat.mul_add_div (by omega), Nat.div_eq_of_lt hw, Nat.add_zero]

/-- a copy in words of `hp`: two sides of `n` rows of `m` words are two sides of `n` rows of `m * hp`
elements -/
theorem flatMap_words {β : Type*} {n m hp : Nat} {word : Nat → List β} {f : Nat → Nat → Nat → List β}
    (hword : ∀ side < 2, ∀ row < n, ∀ w < m, word (side * (n * m) + (row * m + w))
      = (List.range hp).flatMap fun e => f side row (w * hp + e)) :
    (List.range (2 * (n * m))).flatMap word = (List.range 2).flatMap fun side =>
      (List.range n).flatMap fun row => (List.range (m * hp)).flatMap (f side row) := by
  rw [range_mul, List.flatMap_assoc]
  refine List.flatMap_congr fun side hside => ?_
  rw [range_mul n m, List.map_flatMap, List.flatMap_assoc]
  refine List.flatMap_congr fun row hrow => ?_
  rw [List.map_map, List.flatMap_map, range_mul, List.flatMap_assoc]
  refine List.flatMap_congr fun w hw => ?_
  rw [List.flatMap_map]
  exact hword side (List.mem_range.mp hside) row (List.mem_range.mp hrow) w (List.mem_range.mp hw)

variable [DecidableEq A]

def store (m : A → K) (ws : List (A × K)) : A → K :=
  ws.foldl (fun m w => Function.update m w.1 w.2) m

theorem store_cons (m : A → K) (w : A × K) (ws : List (A × K)) :
    store m (w :: ws) = store (Function.update m w.1 w.2) ws := rfl

theorem store_append (m : A → K) (ws ws' : List (A × K)) :
    store m (ws ++ ws') = store (store m ws) ws' :=
  List.foldl_append

/-- a cell at the end depends on the same cell before only -/
theorem store_congr {a : A} {m m' : A → K} (h : m a = m' a) (ws : List (A × K)) :
    store m ws a = store m' ws a := by
  induction ws generalizing m m' with
  | nil => exact h
  | cons w ws ih =>
    refine ih (show Function.update m w.1 w.2 a = Function.update m' w.1 w.2 a from ?_)
    by_cases hw : a = w.1
    · rw [hw, Function.update_self, Function.update_self]
    · rw [Function.update_of_ne hw, Function.update_of_ne hw, h]

theorem store_of_not_mem {a : A} {ws : List (A × K)} (h : a ∉ ws.map Prod.fst) (m : A → K) :
    store m ws a = m a := by
  induction ws generalizing m with
  | nil => rfl
  | cons w ws ih =>
    rw [List.map_cons, List.mem_cons, not_or] at h
    rw [store_cons, ih h.2]
    exact Function.update_of_ne h.1 _ _

/-- a cell that is stored to, always with one value -/
theorem store_of_all {a : A} {v : K} {ws : List (A × K)} (h : a ∈ ws.map Prod.fst)
    (hv : ∀ v', (a, v') ∈ ws → v' = v) (m : A → K) : store m ws a = v := by
  induction ws generalizing m with
  | nil => cases h
  | cons w ws ih =>
    obtain ⟨a', v'⟩ := w
    rw [store_cons]
    by_cases hin : a ∈ ws.map Prod.fst
    · exact ih hin (fun v'' h'' => hv v'' (List.mem_cons_of_mem _ h'')) _
    · rw [store_of_not_mem hin]
      rcases List.mem_cons.mp h with rfl | h
      · exact (Function.update_self _ _ _).trans (hv v' List.mem_cons_self)
      · exact absurd h hin

theorem store_of_mem {a : A} {v : K} {ws : List (A × K)} (hn : (ws.map Prod.fst).Nodup)
    (h : (a, v) ∈ ws) (m : A → K) : store m ws a = v := by
  refine store_of_all (List.mem_map.mpr ⟨_, h, rfl⟩) (fun v' h' => ?_) m
  have hinj := List.inj_on_of_nodup_map hn h' h rfl
  exact congrArg Prod.snd hinj

/-- **The order of the stores does not matter.** -/
theorem store_perm {ws ws' : List (A × K)} (hn : (ws.map Prod.fst).Nodup) (hp : ws.Perm ws')
    (m : A → K) : store m ws = store m ws' := by
  funext a
  have hn' : (ws'.map Prod.fst).Nodup := (hp.map Prod.fst).nodup_iff.mp hn
  by_cases h : a ∈ ws.map Prod.fst
  · obtain ⟨w, hw, rfl⟩ := List.mem_map.mp h
    rw [store_of_mem hn hw, store_of_mem hn' (hp.mem_iff.mp hw)]
  · have h' : a ∉ ws'.map Prod.fst := fun hin => h ((hp.map Prod.fst).mem_iff.mpr hin)
    rw [store_of_not_mem h, store_of_not_mem h']

end Stores
