import Mathlib.Data.List.Nodup
import Mathlib.Logic.Function.Basic
import Mathlib.Tactic.Common

/-!
# A list with an index by key

`Indexes index keys`: the map `index` gives the place of every key of the list, and of nothing else.

* `Indexes.push`    a new key goes to the end of both;
* `Indexes.nodup`   no key comes twice;
* `Indexes.none_iff`   what is not found is not in the list.
-/

variable {κ : Type*}

def Indexes (index : κ → Option Nat) (keys : List κ) : Prop :=
  ∀ k i, index k = some i ↔ keys[i]? = some k

namespace Indexes
variable {index : κ → Option Nat} {keys : List κ}

theorem empty : Indexes (fun _ : κ => none) [] := fun k i => by simp

theorem none_iff (h : Indexes index keys) {k : κ} : index k = none ↔ k ∉ keys := by
  constructor
  · intro hnone hmem
    obtain ⟨i, hi⟩ := List.getElem?_of_mem hmem
    rw [(h k i).mpr hi] at hnone
    cases hnone
  · intro hmem
    cases hk : index k with
    | none => rfl
    | some i => exact absurd (List.mem_of_getElem? ((h k i).mp hk)) hmem

theorem nodup (h : Indexes index keys) : keys.Nodup := by
  refine List.nodup_iff_getElem?_ne_getElem?.mpr fun i j hij hj heq => ?_
  have hi : i < keys.length := Nat.lt_trans hij hj
  have hfirst := (h keys[i] i).mpr (List.getElem?_eq_getElem hi)
  have hsecond := (h keys[i] j).mpr (heq ▸ List.getElem?_eq_getElem hi)
  exact Nat.ne_of_lt hij (Option.some.inj (hfirst.symm.trans hsecond))

theorem push [DecidableEq κ] (h : Indexes index keys) {k : κ} (hk : index k = none) :
    Indexes (Function.update index k (some keys.length)) (keys ++ [k]) := by
  have hnot := h.none_iff.mp hk
  intro k' i
  by_cases hkk : k' = k
  · rw [hkk, Function.update_self, Option.some.injEq]
    constructor
    · rintro rfl
      exact List.getElem?_concat_length
    · intro hi
      rcases Nat.lt_or_ge i keys.length with hlt | hge
      · rw [List.getElem?_append_left hlt] at hi
        exact absurd (List.mem_of_getElem? hi) hnot
      · have hlt := (List.getElem?_eq_some_iff.mp hi).1
        rw [List.length_append, List.length_singleton] at hlt
        omega
  · rw [Function.update_of_ne hkk, h k']
    rcases Nat.lt_or_ge i keys.length with hlt | hge
    · rw [List.getElem?_append_left hlt]
    · rw [List.getElem?_append_right hge, List.getElem?_eq_none hge]
      constructor
      · intro hi
        cases hi
      · intro hi
        exact absurd (List.mem_singleton.mp (List.mem_of_getElem? hi)) hkk

end Indexes
