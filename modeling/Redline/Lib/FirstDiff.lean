import Mathlib.Data.List.Basic

/-!
# The first difference of two lists

`firstDiff l r` is the first index below both lengths where the two differ.

* `firstDiff_eq_some`   the index is the least such;
* `firstDiff_eq_none`   without one the lists agree as far as both reach;
* `eq_iff`              two lists are the same when there is none and they are of one length.
-/

namespace FirstDiff
variable {α : Type*} {l r : List α}

def firstDiff [DecidableEq α] (l r : List α) : Option Nat := (l.zip r).findIdx? fun p => p.1 != p.2

/-- `i` is the least index below both lengths where the lists differ -/
structure IsFirst (l r : List α) (i : Nat) : Prop where
  left : i < l.length
  right : i < r.length
  differ : l[i]? ≠ r[i]?
  least : ∀ j < i, l[j]? = r[j]?

/-- the lists are the same up to the index -/
theorem IsFirst.take_eq {i : Nat} (h : IsFirst l r i) : l.take i = r.take i := by
  refine List.ext_getElem? fun j => ?_
  rw [List.getElem?_take, List.getElem?_take]
  split
  · exact h.least j ‹_›
  · rfl

section
variable [DecidableEq α]

theorem firstDiff_eq_some {i : Nat} : firstDiff l r = some i ↔ IsFirst l r i := by
  unfold firstDiff
  rw [List.findIdx?_eq_some_iff_getElem]
  constructor
  · rintro ⟨hi, hne, hleast⟩
    have hlr : i < l.length ∧ i < r.length := Nat.lt_min.mp (List.length_zip ▸ hi)
    rw [List.getElem_zip, bne_iff_ne] at hne
    refine ⟨hlr.1, hlr.2, ?_, fun j hj => ?_⟩
    · rw [List.getElem?_eq_getElem hlr.1, List.getElem?_eq_getElem hlr.2]
      exact fun h => hne (Option.some.inj h)
    · have hsame := hleast j hj
      rw [List.getElem_zip, bne_iff_ne, not_not] at hsame
      rw [List.getElem?_eq_getElem (Nat.lt_trans hj hlr.1),
        List.getElem?_eq_getElem (Nat.lt_trans hj hlr.2)]
      exact congrArg some hsame
  · intro h
    have hi : i < (l.zip r).length := by
      rw [List.length_zip]
      exact Nat.lt_min.mpr ⟨h.left, h.right⟩
    refine ⟨hi, ?_, fun j hj => ?_⟩
    · have hne := h.differ
      rw [List.getElem?_eq_getElem h.left, List.getElem?_eq_getElem h.right] at hne
      rw [List.getElem_zip, bne_iff_ne]
      exact fun heq => hne (congrArg some heq)
    · have hsame := h.least j hj
      rw [List.getElem?_eq_getElem (Nat.lt_trans hj h.left),
        List.getElem?_eq_getElem (Nat.lt_trans hj h.right)] at hsame
      rw [List.getElem_zip, bne_iff_ne, not_not]
      exact Option.some.inj hsame

theorem firstDiff_eq_none : firstDiff l r = none ↔ ∀ j, j < l.length → j < r.length →
    l[j]? = r[j]? := by
  constructor
  · intro hnone j hl hr
    have hj : j < (l.zip r).length := by
      rw [List.length_zip]
      exact Nat.lt_min.mpr ⟨hl, hr⟩
    have hsame := List.findIdx?_eq_none_iff.mp hnone _ (List.getElem_mem hj)
    rw [List.getElem_zip, bne_eq_false_iff_eq] at hsame
    rw [List.getElem?_eq_getElem hl, List.getElem?_eq_getElem hr]
    exact congrArg some hsame
  · intro h
    cases hfirst : firstDiff l r with
    | none => rfl
    | some i =>
      have hi := firstDiff_eq_some.mp hfirst
      exact absurd (h i hi.left hi.right) hi.differ

theorem eq_iff : l = r ↔ firstDiff l r = none ∧ l.length = r.length := by
  constructor
  · rintro rfl
    exact ⟨firstDiff_eq_none.mpr fun _ _ _ => rfl, rfl⟩
  · rintro ⟨hnone, hlength⟩
    refine List.ext_getElem hlength fun j hl hr => ?_
    have hsame := firstDiff_eq_none.mp hnone j hl hr
    rw [List.getElem?_eq_getElem hl, List.getElem?_eq_getElem hr] at hsame
    exact Option.some.inj hsame

end
end FirstDiff
