import Mathlib.Data.List.Induction
import Mathlib.Tactic.Common

/-!
# Decoding over a cache

`F t p cells` is one row: from a token, its position and the cells of the earlier positions, it
gives the cell of this position and a next token.  `feed` adds the rows of a list of tokens to a
cache, one after another, and keeps the next token of the last one.

* `entry F ts p`       the row of position `p` in the sequence `ts`;
* `cache_get`          the cache of `ts` holds the cells of its entries;
* `entry_append`       an entry does not change as the sequence grows;
* `entry_last`         the last row of a sequence is the one whose next token `feed` keeps.
-/

namespace Decoding
variable {κ τ : Type}

/-- one row after the others -/
def feed (F : τ → Nat → List κ → κ × τ) (c : List κ × τ) (t : τ) : List κ × τ :=
  (c.1 ++ [(F t c.1.length c.1).1], (F t c.1.length c.1).2)

/-- the cells of a sequence; `out` stands for the next token of the empty one -/
def cells (F : τ → Nat → List κ → κ × τ) (out : τ) (ts : List τ) : List κ :=
  (ts.foldl (feed F) ([], out)).1

/-- the row of position `p` -/
def entry (F : τ → Nat → List κ → κ × τ) (out : τ) (ts : List τ) (p : Nat) : Option (κ × τ) :=
  (ts[p]?).map fun t => F t p (cells F out (ts.take p))

section
variable (F : τ → Nat → List κ → κ × τ) (out : τ) (ts : List τ)

theorem length_cells : (cells F out ts).length = ts.length := by
  unfold cells
  induction ts using List.reverseRecOn with
  | nil => rfl
  | append_singleton ts t ih =>
    rw [List.foldl_append]
    show (_ ++ [_]).length = _
    rw [List.length_append, ih, List.length_append]
    rfl

theorem cells_append (t : τ) :
    cells F out (ts ++ [t]) = cells F out ts ++ [(F t ts.length (cells F out ts)).1] := by
  rw [← length_cells F out ts]
  unfold cells
  rw [List.foldl_append]
  rfl

/-- **The last row** gives the next token. -/
theorem entry_last (t : τ) : entry F out (ts ++ [t]) ts.length
    = some ((F t ts.length (cells F out ts)).1, ((ts ++ [t]).foldl (feed F) ([], out)).2) := by
  unfold entry
  rw [List.getElem?_append_right (Nat.le_refl _), Nat.sub_self, List.take_left, List.foldl_append]
  show some (F t ts.length (cells F out ts)) = some (_, (F t (cells F out ts).length _).2)
  rw [length_cells]
  rfl

/-- an entry depends on the tokens up to it only -/
theorem entry_take {p n : Nat} (hp : p < n) : entry F out (ts.take n) p = entry F out ts p := by
  unfold entry
  rw [List.getElem?_take_of_lt hp, List.take_take, Nat.min_eq_left (Nat.le_of_lt hp)]

theorem entry_append (us : List τ) {p : Nat} (hp : p < ts.length) :
    entry F out (ts ++ us) p = entry F out ts p := by
  unfold entry
  rw [List.getElem?_append_left hp, List.take_append_of_le_length (Nat.le_of_lt hp)]

/-- **The cache of a sequence** holds the cells of its entries. -/
theorem cells_get {p : Nat} : p < ts.length →
    (cells F out ts)[p]? = (entry F out ts p).map Prod.fst := by
  induction ts using List.reverseRecOn with
  | nil => intro hp; exact absurd hp (Nat.not_lt_zero p)
  | append_singleton ts t ih =>
    intro hp
    rw [List.length_append, List.length_singleton] at hp
    rw [cells_append]
    rcases Nat.lt_succ_iff_lt_or_eq.mp hp with hp | rfl
    · rw [List.getElem?_append_left (by rw [length_cells]; exact hp), ih hp, entry_append _ _ _ _ hp]
    · rw [entry_last, List.getElem?_append_right (Nat.le_of_eq (length_cells F out ts)), length_cells,
        Nat.sub_self]
      rfl

/-- a list that holds the cells of the first `n` entries is their cache -/
theorem eq_cells {n : Nat} (hn : n ≤ ts.length) (cs : List κ) (hlen : cs.length = n)
    (h : ∀ p < n, cs[p]? = (entry F out ts p).map Prod.fst) : cs = cells F out (ts.take n) := by
  refine List.ext_getElem? fun p => ?_
  have htake : (ts.take n).length = n := by rw [List.length_take]; omega
  by_cases hp : p < n
  · rw [h p hp, cells_get F out _ (by rw [htake]; exact hp), entry_take _ _ _ hp]
  · rw [List.getElem?_eq_none (by omega), List.getElem?_eq_none (by rw [length_cells]; omega)]

end
end Decoding
