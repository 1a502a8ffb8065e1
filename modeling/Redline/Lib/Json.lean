import Mathlib.Data.List.Basic
import Mathlib.Tactic.Common

/-!
# JSON texts

`Json ν` is a JSON text with numbers in `ν`, in the order it is written: an object keeps its pairs
as they stand, repeated names included.

* `keyEvents d v`  the names in `v`, in order, each with its depth, where the containers around
                   `v` count for `d`: what an observer of a parse is told;
* `le_keyEvents`   nothing in `v` is above `d`;
* `keyEvents_obj`  the names at the depth of an object are its own.
-/

inductive Json (ν : Type) where
  | null
  | bool (b : Bool)
  | num (n : ν)
  | str (s : String)
  | arr (elements : List (Json ν))
  | obj (pairs : List (String × Json ν))

namespace Json

variable {ν : Type}

mutual

/-- the names of a text, each at the depth of its object -/
def keyEvents (d : Nat) : Json ν → List (Nat × String)
  | .arr elements => elementEvents (d + 1) elements
  | .obj pairs => pairEvents d pairs
  | _ => []

def elementEvents (d : Nat) : List (Json ν) → List (Nat × String)
  | [] => []
  | v :: vs => keyEvents d v ++ elementEvents d vs

def pairEvents (d : Nat) : List (String × Json ν) → List (Nat × String)
  | [] => []
  | (k, v) :: ps => (d, k) :: keyEvents (d + 1) v ++ pairEvents d ps

end

mutual

theorem le_keyEvents (d : Nat) : ∀ (v : Json ν), ∀ e ∈ keyEvents d v, d ≤ e.1
  | .null, e, h => by cases h
  | .bool _, e, h => by cases h
  | .num _, e, h => by cases h
  | .str _, e, h => by cases h
  | .arr vs, e, h => Nat.le_of_succ_le (le_elementEvents (d + 1) vs e h)
  | .obj ps, e, h => le_pairEvents d ps e h

theorem le_elementEvents (d : Nat) : ∀ (vs : List (Json ν)), ∀ e ∈ elementEvents d vs, d ≤ e.1
  | [], e, h => by cases h
  | v :: vs, e, h => by
    rcases List.mem_append.mp h with h | h
    · exact le_keyEvents d v e h
    · exact le_elementEvents d vs e h

theorem le_pairEvents (d : Nat) : ∀ (ps : List (String × Json ν)), ∀ e ∈ pairEvents d ps, d ≤ e.1
  | [], e, h => by cases h
  | (k, v) :: ps, e, h => by
    rcases List.mem_append.mp h with h | h
    · rcases List.mem_cons.mp h with rfl | h
      · exact Nat.le_refl d
      · exact Nat.le_of_succ_le (le_keyEvents (d + 1) v e h)
    · exact le_pairEvents d ps e h

end

/-- the names that are met at depth `d` -/
def namesAt (d : Nat) (events : List (Nat × String)) : List String :=
  (events.filter fun e => decide (e.1 = d)).map Prod.snd

theorem namesAt_append (d : Nat) (a b : List (Nat × String)) :
    namesAt d (a ++ b) = namesAt d a ++ namesAt d b := by
  unfold namesAt
  rw [List.filter_append, List.map_append]

theorem namesAt_below {d : Nat} {events : List (Nat × String)} (h : ∀ e ∈ events, d < e.1) :
    namesAt d events = [] := by
  unfold namesAt
  rw [List.map_eq_nil_iff, List.filter_eq_nil_iff]
  intro e he
  simpa using Nat.ne_of_gt (h e he)

/-- **The names of an object** are the ones met at its own depth. -/
theorem keyEvents_obj (d : Nat) (ps : List (String × Json ν)) :
    namesAt d (keyEvents d (.obj ps)) = ps.map Prod.fst := by
  show namesAt d (pairEvents d ps) = _
  induction ps with
  | nil => rfl
  | cons p ps ih =>
    obtain ⟨k, v⟩ := p
    have hbelow : namesAt d (keyEvents (d + 1) v) = [] := namesAt_below (le_keyEvents (d + 1) v)
    have hhead : namesAt d ((d, k) :: keyEvents (d + 1) v) = [k] := by
      have := namesAt_append d [(d, k)] (keyEvents (d + 1) v)
      rw [hbelow] at this
      simpa [namesAt] using this
    show namesAt d ((d, k) :: keyEvents (d + 1) v ++ pairEvents d ps) = _
    rw [namesAt_append, hhead, ih]
    rfl

/-- the depth of the first name, which an observer takes for the top level -/
def firstDepth (events : List (Nat × String)) : Option Nat := events.head?.map Prod.fst

theorem firstDepth_obj (d : Nat) {ps : List (String × Json ν)} (h : ps ≠ []) :
    firstDepth (keyEvents d (.obj ps)) = some d := by
  match ps, h with
  | (k, v) :: ps, _ => rfl

end Json
