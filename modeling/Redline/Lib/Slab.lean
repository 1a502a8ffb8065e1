import Mathlib.Algebra.GroupWithZero.Nat
import Mathlib.Data.List.Basic
import Mathlib.Tactic.Common

/-!
# Writes into a memory slab

A memory is a function of the address.  A `Span` is a range of addresses; a `Write` puts a list of
cells on one.

* `coverCount spans a`  how many of the spans cover the address `a`; spans laid end to end cover
                        their union once (`coverCount_endToEnd`), and so do zones of one size
                        (`coverCount_zones`);
* `written m ws`        the memory after the writes `ws`.  `written_of_once`: an address that is
                        covered once holds what its write put there, whatever was there before and
                        in whatever order the writes came.
-/

namespace Slab

variable {β : Type*}

structure Span where
  start : Nat
  length : Nat
  deriving DecidableEq

def Span.stop (s : Span) : Nat := s.start + s.length

def Span.covers (s : Span) (a : Nat) : Prop := s.start ≤ a ∧ a < s.stop

instance (s : Span) (a : Nat) : Decidable (s.covers a) :=
  inferInstanceAs (Decidable (s.start ≤ a ∧ a < s.stop))

/-- one inside the other -/
def Span.within (s t : Span) : Prop := t.start ≤ s.start ∧ s.stop ≤ t.stop

def coverCount (spans : List Span) (a : Nat) : Nat := spans.countP fun s => decide (s.covers a)

theorem coverCount_nil (a : Nat) : coverCount [] a = 0 := rfl

theorem coverCount_cons (s : Span) (spans : List Span) (a : Nat) :
    coverCount (s :: spans) a = (if s.covers a then 1 else 0) + coverCount spans a := by
  unfold coverCount
  rw [List.countP_cons, Nat.add_comm]
  simp only [decide_eq_true_eq]

theorem coverCount_append (l l' : List Span) (a : Nat) :
    coverCount (l ++ l') a = coverCount l a + coverCount l' a := List.countP_append

/-- spans laid end to end -/
def endToEnd : Nat → List Nat → List Span
  | _, [] => []
  | start, length :: lengths => ⟨start, length⟩ :: endToEnd (start + length) lengths

/-- **Spans laid end to end** cover their union once. -/
theorem coverCount_endToEnd (a : Nat) : ∀ (lengths : List Nat) (start : Nat),
    coverCount (endToEnd start lengths) a
      = if start ≤ a ∧ a < start + lengths.sum then 1 else 0 := by
  intro lengths
  induction lengths with
  | nil =>
    intro start
    rw [List.sum_nil, if_neg (by omega)]
    rfl
  | cons length lengths ih =>
    intro start
    have hspan : (⟨start, length⟩ : Span).covers a ↔ start ≤ a ∧ a < start + length := Iff.rfl
    unfold endToEnd
    rw [coverCount_cons, ih, List.sum_cons]
    simp only [hspan]
    split <;> split <;> split <;> omega

/-- **Consecutive zones**, each covered once, cover their union once. -/
theorem coverCount_zones (f : Nat → List Span) (base size a : Nat) (n : Nat)
    (hf : ∀ l < n, coverCount (f l) a
      = if base + l * size ≤ a ∧ a < base + l * size + size then 1 else 0) :
    coverCount ((List.range n).flatMap f) a
      = if base ≤ a ∧ a < base + n * size then 1 else 0 := by
  induction n with
  | zero =>
    rw [List.range_zero, List.flatMap_nil, coverCount_nil, if_neg]
    omega
  | succ n ih =>
    have hmul : (n + 1) * size = n * size + size := Nat.succ_mul n size
    rw [List.range_succ, List.flatMap_append, coverCount_append,
      ih fun l hl => hf l (Nat.lt_succ_of_lt hl), List.flatMap_singleton, hf n (Nat.lt_succ_self n)]
    split <;> split <;> split <;> omega

/-! ## writes -/

structure Write (β : Type*) where
  start : Nat
  data : List β

def Write.span (w : Write β) : Span := ⟨w.start, w.data.length⟩

def Write.apply (m : Nat → β) (w : Write β) : Nat → β := fun a =>
  if w.span.covers a then w.data.getD (a - w.start) (m a) else m a

def written (m : Nat → β) (ws : List (Write β)) : Nat → β := ws.foldl Write.apply m

/-- an address that is not covered keeps its cell -/
theorem written_of_uncovered {ws : List (Write β)} {a : Nat}
    (h : coverCount (ws.map Write.span) a = 0) (m : Nat → β) : written m ws a = m a := by
  induction ws generalizing m with
  | nil => rfl
  | cons w ws ih =>
    rw [List.map_cons, coverCount_cons, Nat.add_eq_zero_iff] at h
    have hw : ¬ w.span.covers a := by
      intro hc
      rw [if_pos hc] at h
      exact absurd h.1 (by decide)
    show written (Write.apply m w) ws a = m a
    rw [ih h.2]
    exact if_neg hw

/-- **Covered once**: the cell is the one its write put there. -/
theorem written_of_once {ws : List (Write β)} {a : Nat} (h : coverCount (ws.map Write.span) a = 1)
    {w : Write β} (hw : w ∈ ws) (hc : w.span.covers a) (m : Nat → β) :
    w.data[a - w.start]? = some (written m ws a) := by
  induction ws generalizing m with
  | nil => cases hw
  | cons w' ws ih =>
    rw [List.map_cons, coverCount_cons] at h
    rcases List.mem_cons.mp hw with rfl | hw
    · rw [if_pos hc] at h
      have hlt : a - w.start < w.data.length := by
        have h1 : w.start ≤ a := hc.1
        have h2 : a < w.start + w.data.length := hc.2
        omega
      show _ = some (written (Write.apply m w) ws a)
      rw [written_of_uncovered (by omega)]
      unfold Write.apply
      rw [if_pos hc, List.getD_eq_getElem?_getD, List.getElem?_eq_getElem hlt]
      rfl
    · have hpos : 0 < coverCount (ws.map Write.span) a := by
        unfold coverCount
        exact List.countP_pos_iff.mpr ⟨w.span, List.mem_map_of_mem hw, decide_eq_true hc⟩
      refine ih ?_ hw (Write.apply m w')
      split at h <;> omega

end Slab
