import Mathlib.Data.List.DropRight
import Mathlib.Data.List.Infix
import Mathlib.Tactic.Common

/-!
# Cutting text at markers

`find`, `partition` and `rstrip` of Python's strings, over lists, and the line ends of its text files.

* `find_eq_some`, `find_eq_none`   the first occurrence;
* `partition_append`               a text is cut where its first marker stands;
* `solid_first`                    a marker whose first letter does not come again is found right after a
                                   text without it;
* `readText_append`                reading line ends, piece by piece.
-/

namespace PyText

/-! ## occurrences -/

section
variable {α : Type*} {sep l : List α}

/-- `sep` stands at position `i` and nowhere before it -/
def FirstAt (sep l : List α) (i : Nat) : Prop := sep <+: l.drop i ∧ ∀ j < i, ¬ sep <+: l.drop j

/-- a marker whose first element does not come again in it -/
def Solid (sep : List α) : Prop := ∃ c rest, sep = c :: rest ∧ c ∉ rest

theorem infix_of_prefix_drop {i : Nat} (h : sep <+: l.drop i) : sep <:+: l :=
  h.isInfix.trans (List.drop_suffix i l).isInfix

theorem prefix_drop_append (h t : List α) : sep <+: (h ++ sep ++ t).drop h.length := by
  rw [List.append_assoc, List.drop_left]
  exact List.prefix_append sep t

theorem FirstAt.free {h t : List α} (hsep : sep ≠ [])
    (hfirst : FirstAt sep (h ++ sep ++ t) h.length) : ¬ sep <:+: h := by
  rintro ⟨a, b, rfl⟩
  have hpos : 0 < sep.length := List.length_pos_iff.mpr hsep
  refine hfirst.2 a.length ?_ ?_
  · rw [List.length_append, List.length_append]
    omega
  · rw [List.append_assoc, List.append_assoc, List.append_assoc, List.drop_left]
    exact List.prefix_append sep _

/-- a solid marker after a text without it stands there first -/
theorem solid_first (hsolid : Solid sep) {h : List α} (hfree : ¬ sep <:+: h) (t : List α) :
    FirstAt sep (h ++ sep ++ t) h.length := by
  refine ⟨prefix_drop_append h t, fun j hj hstarts => ?_⟩
  rw [List.append_assoc, List.drop_append_of_le_length hj.le] at hstarts
  have hleft : h.drop j <+: h.drop j ++ (sep ++ t) := List.prefix_append _ _
  rcases le_total sep.length (h.drop j).length with hle | hle
  · exact hfree (infix_of_prefix_drop (List.prefix_of_prefix_length_le hstarts hleft hle))
  · -- the marker would reach into itself, and its first letter would come twice
    obtain ⟨v, hv⟩ := List.prefix_of_prefix_length_le hleft hstarts hle
    obtain ⟨c, rest, hsep, hc⟩ := hsolid
    rw [← hv, List.prefix_append_right_inj] at hstarts
    cases hu : h.drop j with
    | nil => exact absurd (List.drop_eq_nil_iff.mp hu) (by omega)
    | cons a u =>
      rw [hu, hsep, List.cons_append] at hv
      obtain ⟨rfl, hrest⟩ := List.cons.inj hv
      cases v with
      | nil =>
        rw [List.append_nil] at hrest
        exact hfree (infix_of_prefix_drop (show sep <+: h.drop j by rw [hu, hsep, hrest]))
      | cons d v =>
        rw [hu, List.cons_append, List.cons_append] at hstarts
        obtain rfl := (List.cons_prefix_cons.mp hstarts).1
        exact hc (hrest ▸ List.mem_append_right u List.mem_cons_self)

theorem infix_cons_of_ne {c : α} (hsep : sep ≠ []) (hc : c ∉ sep) : sep <:+: c :: l ↔ sep <:+: l := by
  rw [List.infix_cons_iff]
  refine or_iff_right fun hstarts => ?_
  obtain ⟨a, rest, rfl⟩ := List.exists_cons_of_ne_nil hsep
  exact hc ((List.cons_prefix_cons.mp hstarts).1 ▸ List.mem_cons_self)

theorem infix_concat_of_ne {c : α} (hsep : sep ≠ []) (hc : c ∉ sep) : sep <:+: l ++ [c] ↔
    sep <:+: l := by
  rw [List.infix_concat_iff]
  refine or_iff_right fun hsuffix => ?_
  obtain ⟨s, hs⟩ := hsuffix
  have hlast := congrArg List.getLast? hs
  rw [List.getLast?_append_of_ne_nil _ hsep, List.getLast?_concat] at hlast
  exact hc (List.mem_of_getLast? hlast)

end

/-! ## cutting -/

section
variable {α : Type*} [DecidableEq α] {sep l : List α}

/-- `l.find(sep)` -/
def find (sep l : List α) : Option Nat :=
  (List.range (l.length + 1)).find? fun i => sep.isPrefixOf (l.drop i)

/-- `sep in l` -/
def contains (sep l : List α) : Bool := (find sep l).isSome

/-- `l.partition(sep)` -/
def partition (sep l : List α) : List α × List α × List α :=
  match find sep l with
  | none => (l, [], [])
  | some i => (l.take i, sep, l.drop (i + sep.length))

theorem find_eq_some {i : Nat} : find sep l = some i ↔ i ≤ l.length ∧ FirstAt sep l i := by
  unfold find FirstAt
  rw [List.find?_range_eq_some, List.isPrefixOf_iff_prefix, List.mem_range, Nat.lt_succ_iff]
  constructor
  · rintro ⟨hstarts, hi, hleast⟩
    exact ⟨hi, hstarts, fun j hj hj' => by simpa [List.isPrefixOf_iff_prefix.mpr hj'] using hleast j hj⟩
  · rintro ⟨hi, hstarts, hleast⟩
    exact ⟨hstarts, hi, fun j hj => by simpa [← List.isPrefixOf_iff_prefix] using hleast j hj⟩

theorem find_eq_none : find sep l = none ↔ ¬ sep <:+: l := by
  unfold find
  rw [List.find?_eq_none]
  constructor
  · rintro hnone ⟨a, b, rfl⟩
    refine hnone a.length ?_ (List.isPrefixOf_iff_prefix.mpr (prefix_drop_append a b))
    rw [List.mem_range, List.length_append, List.length_append]
    omega
  · intro h i _ hstarts
    exact h (infix_of_prefix_drop (List.isPrefixOf_iff_prefix.mp hstarts))

theorem contains_iff : contains sep l = true ↔ sep <:+: l := by
  unfold contains
  rw [Option.isSome_iff_ne_none, ne_eq, find_eq_none, not_not]

theorem partition_append {h t : List α} (hfirst : FirstAt sep (h ++ sep ++ t) h.length) :
    partition sep (h ++ sep ++ t) = (h, sep, t) := by
  have hfind : find sep (h ++ sep ++ t) = some h.length := by
    refine find_eq_some.mpr ⟨?_, hfirst⟩
    rw [List.length_append, List.length_append]
    omega
  unfold partition
  rw [hfind]
  simp only []
  rw [← List.length_append, List.drop_left, List.append_assoc, List.take_left]

theorem exists_first (h : sep <:+: l) : ∃ a b, l = a ++ sep ++ b ∧ FirstAt sep l a.length := by
  cases hfind : find sep l with
  | none => exact absurd h (find_eq_none.mp hfind)
  | some i =>
    obtain ⟨hi, hfirst⟩ := find_eq_some.mp hfind
    obtain ⟨b, hb⟩ := hfirst.1
    have hlength : (l.take i).length = i := List.length_take_of_le hi
    refine ⟨l.take i, b, ?_, hlength.symm ▸ hfirst⟩
    rw [List.append_assoc, hb, List.take_append_drop]

end

/-! ## text files -/

/-- the letters that `str.isspace` accepts -/
def isSpace (c : Char) : Bool :=
  let n := c.toNat
  (9 ≤ n && n ≤ 13) || (28 ≤ n && n ≤ 32) || n == 0x85 || n == 0xA0 || n == 0x1680 ||
    (0x2000 ≤ n && n ≤ 0x200A) ||
    n == 0x2028 || n == 0x2029 || n == 0x202F || n == 0x205F || n == 0x3000

/-- `text.rstrip()` -/
def rstrip (text : List Char) : List Char := text.rdropWhile isSpace

/-- `read_text` ends each line with one newline -/
def readText : List Char → List Char
  | [] => []
  | '\r' :: '\n' :: text => '\n' :: readText text
  | c :: text => (if c = '\r' then '\n' else c) :: readText text

theorem infix_of_rstrip {sep text : List Char} (h : sep <:+: rstrip text) : sep <:+: text :=
  h.trans (List.rdropWhile_prefix isSpace text).isInfix

theorem rstrip_no_return (text : List Char) : (rstrip text).getLast? ≠ some '\r' := by
  intro h
  have hne : rstrip text ≠ [] := fun hnil => by
    rw [hnil] at h
    cases h
  have hlast := List.rdropWhile_last_not isSpace text hne
  rw [List.getLast?_eq_some_getLast hne] at h
  unfold rstrip at h
  rw [Option.some.inj h] at hlast
  exact hlast (by decide)

theorem readText_cons {c : Char} (hc : c ≠ '\r') (text : List Char) :
    readText (c :: text) = c :: readText text := by
  rw [readText]
  · rw [if_neg hc]
  · rintro rest rfl
    exact absurd rfl hc

/-- text without a return is read as it is -/
theorem readText_append_plain {a : List Char} (ha : '\r' ∉ a) (b : List Char) :
    readText (a ++ b) = a ++ readText b := by
  induction a with
  | nil => rfl
  | cons c a ih =>
    rw [List.mem_cons, not_or] at ha
    rw [List.cons_append, readText_cons (Ne.symm ha.1), ih ha.2, List.cons_append]

theorem readText_plain {text : List Char} (h : '\r' ∉ text) : readText text = text := by
  have happend := readText_append_plain h []
  rwa [List.append_nil, show readText [] = [] from rfl, List.append_nil] at happend

theorem readText_no_return (text : List Char) : '\r' ∉ readText text := by
  fun_induction readText text with
  | case1 => exact List.not_mem_nil
  | case2 text ih => exact fun h => (List.mem_cons.mp h).elim (by decide) ih
  | case3 c text _ ih =>
    intro h
    rcases List.mem_cons.mp h with h | h
    · split at h
      · exact absurd h (by decide)
      · exact absurd h.symm ‹_›
    · exact ih h

/-- the pieces of a text can be read apart, when no line end is cut in two -/
theorem readText_append {a : List Char} (ha : a.getLast? ≠ some '\r') (b : List Char) :
    readText (a ++ b) = readText a ++ readText b := by
  fun_induction readText a with
  | case1 => rfl
  | case2 text ih =>
    have htext : text.getLast? ≠ some '\r' := by
      cases text with
      | nil => exact fun h => nomatch h
      | cons d text => rwa [List.getLast?_cons_cons, List.getLast?_cons_cons] at ha
    rw [List.cons_append, List.cons_append, readText, ih htext, List.cons_append]
  | case3 c text hnot ih =>
    have htext : text.getLast? ≠ some '\r' := by
      cases text with
      | nil => exact fun h => nomatch h
      | cons d text => rwa [List.getLast?_cons_cons] at ha
    rw [List.cons_append, readText, ih htext, List.cons_append]
    rintro rest rfl heq
    cases text with
    | nil => exact ha rfl
    | cons d text =>
      obtain ⟨rfl, _⟩ := List.cons.inj heq
      exact hnot text rfl rfl

/-- a marker without line ends that a text starts with as it is read, it starts with -/
theorem prefix_of_readText {sep text : List Char} (hline : '\n' ∉ sep) (h : sep <+: readText text) :
    sep <+: text := by
  fun_induction readText text generalizing sep with
  | case1 => exact h
  | case2 text ih =>
    cases sep with
    | nil => exact List.nil_prefix
    | cons d sep => exact absurd ((List.cons_prefix_cons.mp h).1 ▸ List.mem_cons_self) hline
  | case3 c text _ ih =>
    cases sep with
    | nil => exact List.nil_prefix
    | cons d sep =>
      obtain ⟨hd, hrest⟩ := List.cons_prefix_cons.mp h
      rw [List.mem_cons, not_or] at hline
      split at hd
      · exact absurd hd.symm hline.1
      · exact List.cons_prefix_cons.mpr ⟨hd, ih hline.2 hrest⟩

/-- and one that stands in it as it is read stands in it -/
theorem infix_of_readText {sep text : List Char} (hline : '\n' ∉ sep) (h : sep <:+: readText text) :
    sep <:+: text := by
  fun_induction readText text with
  | case1 => exact h
  | case2 text ih =>
    rcases List.infix_cons_iff.mp h with hstarts | hrest
    · have hstart : sep <+: '\r' :: '\n' :: text := prefix_of_readText hline hstarts
      exact hstart.isInfix
    · exact (ih hrest).trans (List.suffix_append ['\r', '\n'] text).isInfix
  | case3 c text hnot ih =>
    rcases List.infix_cons_iff.mp h with hstarts | hrest
    · have hread : readText (c :: text) = (if c = '\r' then '\n' else c) :: readText text := by
        rw [readText]
        exact hnot
      exact (prefix_of_readText hline (hread ▸ hstarts)).isInfix
    · exact (ih hrest).trans (List.suffix_cons c text).isInfix

end PyText
