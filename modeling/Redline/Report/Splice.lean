import Redline.Lib.PyText

/-!
# The generated block of the README

`splice_readme` of `bench/report.py`, from what the file holds to what is written back.

* `splice_block`          a text whose end marker comes after its begin marker keeps everything around them,
                          and splicing the block again changes nothing;
* `splice_iff`            no other text does;
* `splice_loses_text`     with the markers the other way round the rest of the file is lost.
-/

namespace Redline
namespace Report
open PyText

def readmeBegin : List Char := "<!-- BENCH_RESULTS:BEGIN (generated by bench/report.py) -->".toList

def readmeEnd : List Char := "<!-- BENCH_RESULTS:END -->".toList

def missingMarkers (readmePath : List Char) : List Char :=
  readmePath ++ ": missing generated-results markers; add\n".toList ++ readmeBegin ++ "\n".toList ++ readmeEnd ++
    "\nwhere the table belongs".toList

/-- what is written back to the file, or the text of a `ReportError` -/
def spliceReadme (readmePath file block : List Char) : Except (List Char) (List Char) :=
  let text := readText file
  if !contains readmeBegin text || !contains readmeEnd text then .error (missingMarkers readmePath)
  else
    let (head, _, rest) := partition readmeBegin text
    let (_, _, tail) := partition readmeEnd rest
    .ok (head ++ readmeBegin ++ "\n".toList ++ rstrip block ++ "\n".toList ++ readmeEnd ++ tail)

/-! ## the markers -/

theorem begin_solid : Solid readmeBegin := ⟨'<', readmeBegin.tail, by decide, by decide⟩

theorem end_solid : Solid readmeEnd := ⟨'<', readmeEnd.tail, by decide, by decide⟩

theorem begin_no_return : '\r' ∉ readmeBegin := by decide

theorem end_one_line : '\n' ∉ readmeEnd ∧ '\r' ∉ readmeEnd := by decide

/-! ## a text with its markers in order -/

section
variable {path file text head middle tail block new : List Char}

/-- somewhere an end marker comes after a begin marker -/
def InOrder (text : List Char) : Prop := ∃ a m b, text = a ++ readmeBegin ++ m ++ readmeEnd ++ b

def spliced (head block tail : List Char) : List Char :=
  head ++ readmeBegin ++ "\n".toList ++ rstrip block ++ "\n".toList ++ readmeEnd ++ tail

/-- a text cut at its first begin marker and at the first end marker after it -/
structure Cut (text head middle tail : List Char) : Prop where
  eq : text = head ++ readmeBegin ++ (middle ++ readmeEnd ++ tail)
  first : FirstAt readmeBegin text head.length
  next : FirstAt readmeEnd (middle ++ readmeEnd ++ tail) middle.length

theorem Cut.of_free (hhead : ¬ readmeBegin <:+: head) (hmiddle : ¬ readmeEnd <:+: middle)
    (tail : List Char) :
    Cut (head ++ readmeBegin ++ (middle ++ readmeEnd ++ tail)) head middle tail where
  eq := rfl
  first := solid_first begin_solid hhead _
  next := solid_first end_solid hmiddle tail

theorem Cut.free (h : Cut text head middle tail) : ¬ readmeBegin <:+: head ∧ ¬ readmeEnd <:+: middle :=
  ⟨FirstAt.free (by decide) (h.eq ▸ h.first), FirstAt.free (by decide) h.next⟩

theorem exists_cut (h : InOrder text) : ∃ head middle tail, Cut text head middle tail := by
  obtain ⟨a, m, b, htext⟩ := h
  have hbegin : readmeBegin <:+: text :=
    ⟨a, m ++ readmeEnd ++ b, by rw [htext]; simp only [List.append_assoc]⟩
  obtain ⟨head, rest, heq, hfirst⟩ := exists_first hbegin
  -- the first begin marker comes no later than that one, so the end marker is in its rest
  have hle : head.length ≤ a.length := by
    by_contra hlt
    refine hfirst.2 a.length (not_le.mp hlt) ?_
    rw [htext, List.append_assoc, List.append_assoc]
    exact List.append_assoc m readmeEnd b ▸ prefix_drop_append a _
  have hsuffix : m ++ readmeEnd ++ b <:+ rest := by
    have hlong : m ++ readmeEnd ++ b <:+ text :=
      ⟨a ++ readmeBegin, by rw [htext]; simp only [List.append_assoc]⟩
    have hrest : rest <:+ text := ⟨head ++ readmeBegin, heq.symm⟩
    refine List.suffix_of_suffix_length_le hlong hrest ?_
    have hlength := congrArg List.length (htext.symm.trans heq)
    simp only [List.length_append] at hlength ⊢
    omega
  have hend : readmeEnd <:+: rest := (List.infix_append m readmeEnd b).trans hsuffix.isInfix
  obtain ⟨middle, tail, hrest, hnext⟩ := exists_first hend
  exact ⟨head, middle, tail, heq.trans (hrest ▸ rfl), hfirst, hrest ▸ hnext⟩

theorem Cut.partition_eq (h : Cut text head middle tail) :
    partition readmeBegin text = (head, readmeBegin, middle ++ readmeEnd ++ tail) := by
  have hcut := partition_append (h.eq ▸ h.first)
  rwa [← h.eq] at hcut

/-- after the first begin marker there is an end marker -/
theorem inOrder_iff : InOrder text ↔ contains readmeEnd (partition readmeBegin text).2.2 = true := by
  rw [contains_iff]
  constructor
  · intro h
    obtain ⟨head, middle, tail, hcut⟩ := exists_cut h
    rw [hcut.partition_eq]
    exact List.infix_append middle readmeEnd tail
  · intro h
    by_cases hbegin : readmeBegin <:+: text
    · obtain ⟨a, rest, heq, hfirst⟩ := exists_first hbegin
      have hcut := partition_append (heq ▸ hfirst)
      rw [heq, hcut] at h
      obtain ⟨m, b, hrest⟩ : readmeEnd <:+: rest := h
      refine ⟨a, m, b, ?_⟩
      rw [heq, ← hrest]
      simp only [List.append_assoc]
    · have hnone : partition readmeBegin text = (text, [], []) := by
        unfold partition
        rw [find_eq_none.mpr hbegin]
      rw [hnone, List.infix_nil] at h
      exact absurd h (by decide)

instance (text : List Char) : Decidable (InOrder text) := decidable_of_iff' _ inOrder_iff

theorem splice_of_cut (h : Cut (readText file) head middle tail) (path block : List Char) :
    spliceReadme path file block = .ok (spliced head block tail) := by
  have hbegin : contains readmeBegin (readText file) = true :=
    contains_iff.mpr (h.eq ▸ List.infix_append head _ _)
  have hend : contains readmeEnd (readText file) = true := by
    refine contains_iff.mpr ?_
    rw [h.eq]
    exact (List.infix_append middle readmeEnd tail).trans (List.suffix_append _ _).isInfix
  unfold spliceReadme
  simp only [hbegin, hend, h.partition_eq, partition_append h.next]
  rfl

/-! ## splicing again -/

theorem read_spliced (hhead : '\r' ∉ head) (htail : '\r' ∉ tail) (block : List Char) :
    readText (spliced head block tail) =
      head ++ readmeBegin ++ ("\n".toList ++ readText (rstrip block) ++ "\n".toList ++ readmeEnd ++ tail) := by
  have hfront : '\r' ∉ head ++ readmeBegin ++ "\n".toList := by
    simp only [List.mem_append, not_or]
    exact ⟨⟨hhead, begin_no_return⟩, by decide⟩
  have hback : '\r' ∉ "\n".toList ++ readmeEnd ++ tail := by
    simp only [List.mem_append, not_or]
    exact ⟨⟨by decide, end_one_line.2⟩, htail⟩
  have hpieces : spliced head block tail =
      (head ++ readmeBegin ++ "\n".toList) ++ (rstrip block ++ ("\n".toList ++ readmeEnd ++ tail)) := by
    unfold spliced
    simp only [List.append_assoc]
  rw [hpieces, readText_append_plain hfront, readText_append (rstrip_no_return block),
    readText_plain hback]
  simp only [List.append_assoc]

theorem middle_free (hblock : ¬ readmeEnd <:+: block) :
    ¬ readmeEnd <:+: "\n".toList ++ readText (rstrip block) ++ "\n".toList := by
  have hne : readmeEnd ≠ [] := by decide
  have hline : "\n".toList = ['\n'] := by decide
  rw [hline, infix_concat_of_ne hne end_one_line.1, List.singleton_append,
    infix_cons_of_ne hne end_one_line.1]
  exact fun h => hblock (infix_of_rstrip (infix_of_readText end_one_line.1 h))

/-- the old text is kept around its markers, with the block between them -/
def Replaces (text block new : List Char) : Prop :=
  ∃ head middle tail, text = head ++ readmeBegin ++ middle ++ readmeEnd ++ tail ∧
    ¬ readmeBegin <:+: head ∧
    ¬ readmeEnd <:+: middle ∧ new = spliced head block tail

theorem splice_block (horder : InOrder (readText file)) (hblock : ¬ readmeEnd <:+: block)
    (path : List Char) :
    ∃ new, spliceReadme path file block = .ok new ∧ Replaces (readText file) block new ∧
      spliceReadme path new block = .ok new := by
  obtain ⟨head, middle, tail, hcut⟩ := exists_cut horder
  obtain ⟨hhead, hmiddle⟩ := hcut.free
  have hreturn := readText_no_return file
  rw [hcut.eq] at hreturn
  simp only [List.mem_append, not_or] at hreturn
  have hread := read_spliced hreturn.1.1 hreturn.2.2 block
  have hagain : Cut (readText (spliced head block tail)) head
      ("\n".toList ++ readText (rstrip block) ++ "\n".toList) tail := by
    rw [hread]
    exact Cut.of_free hhead (middle_free hblock) tail
  refine ⟨_, splice_of_cut hcut path block, ⟨head, middle, tail, ?_, hhead, hmiddle, rfl⟩,
    splice_of_cut hagain path block⟩
  rw [hcut.eq]
  simp only [List.append_assoc]

theorem fresh_block : ¬ readmeBegin <:+: "fresh\n".toList ∧ ¬ readmeEnd <:+: "fresh\n".toList :=
  ⟨(not_congr contains_iff).mp (by decide +kernel), (not_congr contains_iff).mp (by decide +kernel)⟩

/-- **What `splice_readme` keeps.** It replaces the marked block and nothing else, and once, exactly when an
end marker comes after a begin marker. -/
theorem splice_iff (path file block new : List Char) (hsplice : spliceReadme path file block = .ok new)
    (hblock : ¬ readmeBegin <:+: block ∧ ¬ readmeEnd <:+: block) :
    Replaces (readText file) block new ∧ spliceReadme path new block = .ok new ↔
      InOrder (readText file) := by
  constructor
  · rintro ⟨⟨head, middle, tail, htext, _⟩, _⟩
    exact ⟨head, middle, tail, htext⟩
  · intro horder
    obtain ⟨new', hnew, hreplaces, hagain⟩ := splice_block horder hblock.2 path
    obtain rfl : new = new' := Except.ok.inj (hsplice.symm.trans hnew)
    exact ⟨hreplaces, hagain⟩

theorem splice_iff_stale : Replaces
    (readText ("intro\n".toList ++ readmeBegin ++ "\nstale\n".toList ++ readmeEnd ++ "\ntail\n".toList))
    "fresh\n".toList ("intro\n".toList ++ readmeBegin ++ "\nfresh\n".toList ++ readmeEnd ++ "\ntail\n".toList) := by
  have hsplice : spliceReadme "README.md".toList
      ("intro\n".toList ++ readmeBegin ++ "\nstale\n".toList ++ readmeEnd ++ "\ntail\n".toList) "fresh\n".toList =
      .ok ("intro\n".toList ++ readmeBegin ++ "\nfresh\n".toList ++ readmeEnd ++ "\ntail\n".toList) := by
    decide +kernel
  exact ((splice_iff _ _ _ _ hsplice fresh_block).mpr (by decide +kernel)).1

/-- with the end marker first, everything after the begin marker is lost -/
theorem splice_loses_text :
    spliceReadme "README.md".toList
      (readmeEnd ++ "\n".toList ++ readmeBegin ++ "\ntail\n".toList) "fresh\n".toList
        = .ok (readmeEnd ++ "\n".toList ++ readmeBegin ++ "\nfresh\n".toList ++ readmeEnd) ∧
    ¬ readmeBegin <:+: "fresh\n".toList ∧ ¬ readmeEnd <:+: "fresh\n".toList ∧
    ¬ Replaces (readText (readmeEnd ++ "\n".toList ++ readmeBegin ++ "\ntail\n".toList)) "fresh\n".toList
        (readmeEnd ++ "\n".toList ++ readmeBegin ++ "\nfresh\n".toList ++ readmeEnd) := by
  have hreversed : ¬ InOrder (readText (readmeEnd ++ "\n".toList ++ readmeBegin ++ "\ntail\n".toList)) := by decide
  refine ⟨by decide, fresh_block.1, fresh_block.2, ?_⟩
  rintro ⟨head, middle, tail, htext, _⟩
  exact hreversed ⟨head, middle, tail, htext⟩

end
end Report
end Redline
