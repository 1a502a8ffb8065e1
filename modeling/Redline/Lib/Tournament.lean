import Mathlib.Data.Multiset.Fold
import Mathlib.Data.Set.Lattice

/-!
# Tournaments

A champion is replaced by a challenger that beats it.  `Best beats s i`: `i` is in `s` and nothing in
`s` beats it.

* `Best.take`    a champion of `s` and one challenger: the best of both;
* `Best.foldl`   a champion and a list of challengers;
* `Best.merge`   two champions, each of its own set, which one beats the other unless they are equal:
                 the best of both sets.
-/

namespace Tournament

section
variable {ι : Type*} (beats : ι → ι → Prop)

def Best (s : Set ι) (i : ι) : Prop := i ∈ s ∧ ∀ j ∈ s, ¬ beats j i

/-- `if (beats(j, i)) i = j` -/
def take [DecidableRel beats] (i j : ι) : ι := if beats j i then j else i

variable {beats} [DecidableRel beats] (htrans : ∀ i j k, beats k j → beats j i → beats k i)
include htrans

theorem Best.take (hirr : ∀ i, ¬ beats i i) {s : Set ι} {i : ι} (h : Best beats s i) (j : ι) :
    Best beats (insert j s) (take beats i j) := by
  unfold Tournament.take
  by_cases hb : beats j i
  · rw [if_pos hb]
    refine ⟨Set.mem_insert j s, fun k hk hkj => ?_⟩
    rcases Set.mem_insert_iff.mp hk with rfl | hk
    · exact hirr k hkj
    · exact h.2 k hk (htrans i j k hkj hb)
  · rw [if_neg hb]
    refine ⟨Set.mem_insert_of_mem j h.1, fun k hk hki => ?_⟩
    rcases Set.mem_insert_iff.mp hk with rfl | hk
    · exact hb hki
    · exact h.2 k hk hki

theorem Best.foldl (hirr : ∀ i, ¬ beats i i) {l : List ι} : ∀ {s : Set ι} {i : ι}, Best beats s i →
    Best beats (s ∪ {j | j ∈ l}) (l.foldl (Tournament.take beats) i) := by
  induction l with
  | nil =>
    intro s i h
    have hnone : {j | j ∈ ([] : List ι)} = ∅ := by simp
    rw [hnone, Set.union_empty]
    exact h
  | cons x l ih =>
    intro s i h
    have hset : s ∪ {j | j ∈ x :: l} = insert x s ∪ {j | j ∈ l} := by
      ext j
      simp only [Set.mem_union, Set.mem_insert_iff, Set.mem_ofPred_eq, List.mem_cons]
      constructor
      · rintro (hj | rfl | hj)
        · exact .inl (.inr hj)
        · exact .inl (.inl rfl)
        · exact .inr hj
      · rintro ((rfl | hj) | hj)
        · exact .inr (.inl rfl)
        · exact .inl hj
        · exact .inr (.inr hj)
    rw [hset]
    exact ih (h.take htrans hirr x)

/-- **Two champions.** -/
theorem Best.merge {s s' : Set ι} {i j : ι} (h : Best beats s i) (h' : Best beats s' j)
    (hsplit : i = j ∨ beats i j ∨ beats j i) : Best beats (s ∪ s') (Tournament.take beats i j) := by
  unfold Tournament.take
  by_cases hb : beats j i
  · rw [if_pos hb]
    refine ⟨Or.inr h'.1, fun k hk hkj => ?_⟩
    rcases hk with hk | hk
    · exact h.2 k hk (htrans i j k hkj hb)
    · exact h'.2 k hk hkj
  · rw [if_neg hb]
    refine ⟨Or.inl h.1, fun k hk hki => ?_⟩
    rcases hk with hk | hk
    · exact h.2 k hk hki
    · rcases hsplit with rfl | hij | hji
      · exact h'.2 k hk hki
      · exact h'.2 k hk (htrans j i k hki hij)
      · exact hb hji

omit htrans in
/-- what a challenger that beats something has, a champion keeps -/
theorem foldl_keeps {P : ι → Prop} (hP : ∀ i j, beats j i → P j) (l : List ι) :
    ∀ {i : ι}, P i → P (l.foldl (Tournament.take beats) i) := by
  induction l with
  | nil => exact fun h => h
  | cons x l ih =>
    intro i h
    refine ih ?_
    unfold Tournament.take
    by_cases hb : beats x i
    · rw [if_pos hb]
      exact hP i x hb
    · rw [if_neg hb]
      exact h

end

theorem mem_fold_union {γ ι : Type*} {s : Multiset γ} {f : γ → Set ι} {x : ι} :
    x ∈ (s.map f).fold (fun a b : Set ι => a ∪ b) ∅ ↔ ∃ a ∈ s, x ∈ f a := by
  induction s using Multiset.induction with
  | empty => simp
  | cons a s ih =>
    rw [Multiset.map_cons, Multiset.fold_cons_left, Set.mem_union, ih]
    simp

end Tournament
