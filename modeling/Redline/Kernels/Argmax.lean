import Redline.Lib.BlockReduce
import Redline.Lib.Shuffle
import Redline.Lib.Tournament
import Mathlib.Order.BoundedOrder.Basic

/-!
# Greedy argmax

`kernels/argmax.cu`: one block for each row of logits.  The threads stride over the row, each with a
champion, and the champions of the threads are collapsed by shuffles in each warp and a scan of the warps.

A logit is a value of a total preorder whose least element is `-inf`, or `none` for NaN, which compares
false with everything.  Indices are unbounded.

* `argmax_exact`   both kernels write the lowest index of a maximal logit, and 0 for a row of NaN.
-/

namespace Redline
variable {α : Type*} [Preorder α]

/-! ## the ordering predicate -/

/-- `v > w` -/
def logitGt : Option α → Option α → Prop
  | some v, some w => w < v
  | _, _ => False

/-- `v == w` -/
def logitEq : Option α → Option α → Prop
  | some v, some w => v ≤ w ∧ w ≤ v
  | _, _ => False

/-- a value with its column -/
structure Candidate (α : Type*) where
  value : Option α
  index : Nat

def better (c best : Candidate α) : Prop :=
  logitGt c.value best.value ∨ logitEq c.value best.value ∧ c.index < best.index

/-- the value `-inf`, and an index that no column has -/
def initCandidate [OrderBot α] (vocabSize : Nat) : Candidate α := ⟨some ⊥, vocabSize⟩

section
variable [DecidableLE α] [DecidableLT α]

instance : DecidableRel (logitGt (α := α)) := fun v w =>
  match v, w with
  | some v, some w => inferInstanceAs (Decidable (w < v))
  | none, _ => inferInstanceAs (Decidable False)
  | some _, none => inferInstanceAs (Decidable False)

instance : DecidableRel (logitEq (α := α)) := fun v w =>
  match v, w with
  | some v, some w => inferInstanceAs (Decidable (v ≤ w ∧ w ≤ v))
  | none, _ => inferInstanceAs (Decidable False)
  | some _, none => inferInstanceAs (Decidable False)

instance : DecidableRel (better (α := α)) := fun c best =>
  inferInstanceAs (Decidable
    (logitGt c.value best.value ∨ logitEq c.value best.value ∧ c.index < best.index))

/-! ## the kernels -/

variable [OrderBot α]

/-- the champion of thread 0, from the champions of the threads of a block -/
def blockReduceArgmax (block : Nat) (best : Nat → Candidate α) : Candidate α :=
  let warp := fun w => Shuffle.butterfly (Tournament.take better) 5 best (32 * w)
  (List.range' 1 (block / 32 - 1)).foldl (fun b w => Tournament.take better b (warp w)) (warp 0)

/-- the token of a row; the index of no column means a row of NaN -/
def writtenToken (vocabSize : Nat) (best : Candidate α) : Nat :=
  if vocabSize ≤ best.index then 0 else best.index

/-- half `l` of word `w` of a row -/
def vecCandidate (row : Nat → Option α) (w l : Nat) : Candidate α := ⟨row (w * 8 + l), w <<< 3 + l⟩

def greedyArgmaxVecThread (block vocabSize : Nat) (row : Nat → Option α) (tid : Nat) : Candidate α :=
  let words := vocabSize >>> 3
  (BlockReduce.strided block words tid).foldl
    (fun best w => (List.range 8).foldl
      (fun best l => Tournament.take better best (vecCandidate row w l)) best)
    (initCandidate vocabSize)

def greedyArgmaxThread (block vocabSize : Nat) (row : Nat → Option α) (tid : Nat) : Candidate α :=
  (BlockReduce.strided block vocabSize tid).foldl
    (fun best c => Tournament.take better best ⟨row c, c⟩) (initCandidate vocabSize)

/-- one block of either kernel: the stores to `out_tokens` -/
def argmaxBlock (thread : (Nat → Option α) → Nat → Candidate α) (block : Nat) (logits : Nat → Option α)
    (numSeqs vocabSize row : Nat) : List (Nat × Nat) :=
  if numSeqs ≤ row then []
  else
    let logitsRow := fun c => logits (row * vocabSize + c)
    [(row, writtenToken vocabSize (blockReduceArgmax block (thread logitsRow)))]

def greedyArgmaxVecKernel (block : Nat) (logits : Nat → Option α) (numSeqs vocabSize row : Nat) :
    List (Nat × Nat) :=
  argmaxBlock (greedyArgmaxVecThread block vocabSize) block logits numSeqs vocabSize row

def greedyArgmaxKernel (block : Nat) (logits : Nat → Option α) (numSeqs vocabSize row : Nat) :
    List (Nat × Nat) :=
  argmaxBlock (greedyArgmaxThread block vocabSize) block logits numSeqs vocabSize row

end

/-- what greedy decoding asks of a row -/
structure GreedyToken (row : Nat → Option α) (vocabSize token : Nat) : Prop where
  lt : token < vocabSize
  nan : (∀ c < vocabSize, row c = none) → token = 0
  max : (∃ c < vocabSize, row c ≠ none) → ∃ v, row token = some v ∧
    ∀ c < vocabSize, ∀ w, row c = some w → w ≤ v ∧ (v ≤ w → token ≤ c)

/-! ## the order of the candidates -/

theorem better_some {v w : α} {i j : Nat} :
    better ⟨some v, i⟩ ⟨some w, j⟩ ↔ w < v ∨ (v ≤ w ∧ w ≤ v) ∧ i < j := Iff.rfl

theorem better_value {c d : Candidate α} (h : better c d) :
    ∃ v w, c.value = some v ∧ d.value = some w := by
  obtain ⟨cv, i⟩ := c
  obtain ⟨dv, j⟩ := d
  cases cv with
  | none => rcases h with h | ⟨h, _⟩ <;> cases h
  | some v =>
    cases dv with
    | none => rcases h with h | ⟨h, _⟩ <;> cases h
    | some w => exact ⟨v, w, rfl, rfl⟩

theorem better_irrefl (c : Candidate α) : ¬ better c c := by
  intro h
  obtain ⟨v, _, hv, _⟩ := better_value h
  obtain ⟨cv, i⟩ := c
  obtain rfl : cv = some v := hv
  rcases better_some.mp h with h | ⟨_, h⟩
  · exact lt_irrefl v h
  · exact Nat.lt_irrefl i h

theorem better_trans (c d e : Candidate α) (hed : better e d) (hdc : better d c) : better e c := by
  obtain ⟨u, v, hu, hv⟩ := better_value hed
  obtain ⟨_, w, _, hw⟩ := better_value hdc
  obtain ⟨ev, k⟩ := e
  obtain ⟨dv, j⟩ := d
  obtain ⟨cv, i⟩ := c
  obtain rfl : ev = some u := hu
  obtain rfl : dv = some v := hv
  obtain rfl : cv = some w := hw
  rw [better_some] at hed hdc ⊢
  rcases hed with hvu | ⟨⟨huv, hvu⟩, hkj⟩
  · rcases hdc with hwv | ⟨⟨_, hwv⟩, _⟩
    · exact .inl (hwv.trans hvu)
    · exact .inl (hwv.trans_lt hvu)
  · rcases hdc with hwv | ⟨⟨hvw, hwv⟩, hji⟩
    · exact .inl (hwv.trans_le hvu)
    · exact .inr ⟨⟨huv.trans hvw, hwv.trans hvu⟩, Nat.lt_trans hkj hji⟩

theorem better_total [Std.Total (α := α) (· ≤ ·)] {c d : Candidate α} (hc : c.value ≠ none)
    (hd : d.value ≠ none) (hi : c.index ≠ d.index) : better c d ∨ better d c := by
  obtain ⟨v, hv⟩ := Option.ne_none_iff_exists'.mp hc
  obtain ⟨w, hw⟩ := Option.ne_none_iff_exists'.mp hd
  obtain ⟨cv, i⟩ := c
  obtain ⟨dv, j⟩ := d
  obtain rfl : cv = some v := hv
  obtain rfl : dv = some w := hw
  rw [better_some, better_some]
  by_cases hvw : v ≤ w
  · by_cases hwv : w ≤ v
    · rcases Nat.lt_or_gt_of_ne hi with hij | hji
      · exact .inl (.inr ⟨⟨hvw, hwv⟩, hij⟩)
      · exact .inr (.inr ⟨⟨hwv, hvw⟩, hji⟩)
    · exact .inr (.inl (lt_of_le_not_ge hvw hwv))
  · have hwv : w ≤ v := (Std.Total.total v w).resolve_left hvw
    exact .inl (.inl (lt_of_le_not_ge hwv hvw))

/-! ## the champions of the threads -/

section
variable [OrderBot α]

/-- the columns of a row -/
def columns (row : Nat → Option α) (vocabSize : Nat) : Set (Candidate α) :=
  {c | ∃ j < vocabSize, c = ⟨row j, j⟩}

/-- a champion of a set of columns, and of the initial candidate -/
structure Leads (row : Nat → Option α) (vocabSize : Nat) (c : Candidate α)
    (s : Set (Candidate α)) : Prop where
  best : Tournament.Best better s c
  sub : s ⊆ insert (initCandidate vocabSize) (columns row vocabSize)
  value : c.value ≠ none

variable {row : Nat → Option α} {vocabSize : Nat}

/-- the columns have one candidate each -/
theorem eq_of_index {c d : Candidate α}
    (hc : c ∈ insert (initCandidate vocabSize) (columns row vocabSize))
    (hd : d ∈ insert (initCandidate vocabSize) (columns row vocabSize)) (hi : c.index = d.index) :
    c = d := by
  rcases Set.mem_insert_iff.mp hc with rfl | ⟨i, hlt, rfl⟩
  · rcases Set.mem_insert_iff.mp hd with rfl | ⟨j, hlt', rfl⟩
    · rfl
    · exact absurd hi (Nat.ne_of_gt hlt')
  · rcases Set.mem_insert_iff.mp hd with rfl | ⟨j, hlt', rfl⟩
    · exact absurd hi (Nat.ne_of_lt hlt)
    · obtain rfl : i = j := hi
      rfl

variable [DecidableLE α] [DecidableLT α]

theorem Leads.merge [Std.Total (α := α) (· ≤ ·)] (c : Candidate α) (s : Set (Candidate α))
    (d : Candidate α) (t : Set (Candidate α)) (h : Leads row vocabSize c s)
    (h' : Leads row vocabSize d t) :
    Leads row vocabSize (Tournament.take better c d) (s ∪ t) := by
  refine ⟨?_, Set.union_subset h.sub h'.sub, ?_⟩
  · refine h.best.merge better_trans h'.best ?_
    by_cases hi : c.index = d.index
    · exact .inl (eq_of_index (h.sub h.best.1) (h'.sub h'.best.1) hi)
    · exact .inr (better_total h.value h'.value hi)
  · unfold Tournament.take
    split
    · exact h'.value
    · exact h.value

theorem leads_foldl {l : List (Candidate α)} (hl : ∀ c ∈ l, c ∈ columns row vocabSize) :
    Leads row vocabSize (l.foldl (Tournament.take better) (initCandidate vocabSize))
      ({initCandidate vocabSize} ∪ {c | c ∈ l}) := by
  refine ⟨?_, ?_, ?_⟩
  · refine Tournament.Best.foldl better_trans better_irrefl ⟨rfl, fun c hc => ?_⟩
    rw [Set.mem_singleton_iff.mp hc]
    exact better_irrefl _
  · rintro c (hc | hc)
    · exact .inl hc
    · exact .inr (hl c hc)
  · have hinit : (initCandidate (α := α) vocabSize).value ≠ none := Option.some_ne_none ⊥
    have hkeep : ∀ c d : Candidate α, better d c → d.value ≠ none := by
      intro c d h
      obtain ⟨v, _, hv, _⟩ := better_value h
      rw [hv]
      exact Option.some_ne_none v
    exact Tournament.foldl_keeps hkeep l hinit

/-! ## the reduction -/

theorem leads_scan [Std.Total (α := α) (· ≤ ·)] {p : Nat → Candidate α} {s : Nat → Set (Candidate α)}
    {l : List Nat} (hl : ∀ w ∈ l, Leads row vocabSize (p w) (s w)) : ∀ {c : Candidate α}
    {t : Set (Candidate α)}, Leads row vocabSize c t →
    ∃ u, (∀ x, x ∈ u ↔ x ∈ t ∨ ∃ w ∈ l, x ∈ s w) ∧
      Leads row vocabSize (l.foldl (fun b w => Tournament.take better b (p w)) c) u := by
  induction l with
  | nil =>
    intro c t h
    exact ⟨t, fun x => by simp, h⟩
  | cons w l ih =>
    intro c t h
    obtain ⟨u, hu, hlead⟩ := ih (fun w' hw' => hl w' (List.mem_cons_of_mem w hw'))
      (Leads.merge _ _ _ _ h (hl w List.mem_cons_self))
    refine ⟨u, fun x => ?_, hlead⟩
    rw [hu, Set.mem_union, List.exists_mem_cons_iff, or_assoc]

/-- **The block reduction** leaves the champion of all the threads. -/
theorem leads_block [Std.Total (α := α) (· ≤ ·)] {block : Nat} (hblock : 0 < block) (hwarp : 32 ∣ block)
    {p : Nat → Candidate α} {s : Nat → Set (Candidate α)}
    (h : ∀ tid, Leads row vocabSize (p tid) (s tid)) :
    ∃ u, (∀ x, x ∈ u ↔ ∃ tid < block, x ∈ s tid) ∧
      Leads row vocabSize (blockReduceArgmax block p) u := by
  obtain ⟨warps, rfl⟩ := hwarp
  have hlane := Shuffle.butterfly_rel (R := Leads row vocabSize) Leads.merge 5 h
  obtain ⟨u, hu, hlead⟩ := leads_scan (l := List.range' 1 (warps - 1))
    (fun w _ => hlane (32 * w)) (hlane (32 * 0))
  have hcount : 32 * warps / 32 = warps := Nat.mul_div_cancel_left warps (by decide)
  refine ⟨u, fun x => ?_, ?_⟩
  · -- a thread is a lane of a warp
    have hgroup : ∀ w, x ∈ Shuffle.butterfly (fun a b : Set (Candidate α) => a ∪ b) 5 s (32 * w) ↔
        ∃ m < 32, x ∈ s (32 * w + m) := by
      intro w
      have := Shuffle.butterfly_group (fun a b : Set (Candidate α) => a ∪ b) (b := ∅)
        Set.empty_union 5 s w (t := 0) (by decide)
      rw [Nat.add_zero] at this
      rw [show (32 : Nat) = 2 ^ 5 from rfl, this, Tournament.mem_fold_union]
      simp only [Multiset.mem_range]
    rw [hu, hgroup]
    simp only [hgroup, List.mem_range'_1]
    constructor
    · rintro (⟨m, hm, hx⟩ | ⟨w, hw, m, hm, hx⟩)
      · exact ⟨_, by omega, hx⟩
      · exact ⟨_, by omega, hx⟩
    · rintro ⟨tid, htid, hx⟩
      have hdiv := Nat.div_add_mod tid 32
      have hmod := Nat.mod_lt tid (show 0 < 32 by decide)
      rw [← hdiv] at hx
      by_cases hw : tid / 32 = 0
      · rw [hw] at hx
        exact .inl ⟨_, hmod, hx⟩
      · exact .inr ⟨tid / 32, by omega, tid % 32, hmod, hx⟩
  · unfold blockReduceArgmax
    rw [hcount]
    exact hlead

omit [DecidableLT α] in
/-- the champion of all columns is the token -/
theorem greedyToken_of_leads [Std.Total (α := α) (· ≤ ·)] (hvocab : 0 < vocabSize) {c : Candidate α}
    {s : Set (Candidate α)} (hs : ∀ x, x ∈ s ↔ x = initCandidate vocabSize ∨ x ∈ columns row vocabSize)
    (h : Leads row vocabSize c s) : GreedyToken row vocabSize (writtenToken vocabSize c) := by
  have hcolumn : ∀ j < vocabSize, ¬ better ⟨row j, j⟩ c := fun j hj =>
    h.best.2 _ ((hs _).mpr (.inr ⟨j, hj, rfl⟩))
  unfold writtenToken
  rcases (hs c).mp h.best.1 with rfl | ⟨i, hi, rfl⟩
  · -- no column was adopted: each would beat the initial candidate
    have hnan : ∀ j < vocabSize, row j = none := by
      intro j hj
      cases hv : row j with
      | none => rfl
      | some v =>
        refine absurd ?_ (hcolumn j hj)
        rw [hv]
        by_cases hle : v ≤ ⊥
        · exact .inr ⟨⟨hle, bot_le⟩, hj⟩
        · exact .inl (lt_of_le_not_ge bot_le hle)
    rw [if_pos (show vocabSize ≤ (initCandidate (α := α) vocabSize).index from Nat.le_refl _)]
    refine ⟨hvocab, fun _ => rfl, ?_⟩
    rintro ⟨j, hj, hne⟩
    exact absurd (hnan j hj) hne
  · obtain ⟨v, hv⟩ := Option.ne_none_iff_exists'.mp h.value
    replace hv : row i = some v := hv
    rw [if_neg (Nat.not_le_of_lt hi)]
    refine ⟨hi, fun hnan => ?_, fun _ => ⟨v, hv, fun j hj w hw => ?_⟩⟩
    · rw [hnan i hi] at hv
      cases hv
    · have hnot := hcolumn j hj
      rw [hw, hv, better_some] at hnot
      refine ⟨?_, fun hvw => ?_⟩
      · by_cases hle : w ≤ v
        · exact hle
        · exact absurd (.inl (lt_of_le_not_ge ((Std.Total.total v w).resolve_right hle) hle)) hnot
      · by_contra hlt
        by_cases hle : w ≤ v
        · exact hnot (.inr ⟨⟨hle, hvw⟩, Nat.lt_of_not_le hlt⟩)
        · exact hnot (.inl (lt_of_le_not_ge hvw hle))

/-! ## the two kernels -/

/-- a kernel whose threads see each column -/
theorem argmaxBlock_exact [Std.Total (α := α) (· ≤ ·)] {thread : (Nat → Option α) → Nat → Candidate α}
    {block : Nat} (hblock : 0 < block) (hwarp : 32 ∣ block) (hvocab : 0 < vocabSize)
    {logits : Nat → Option α} {numSeqs r : Nat} (hr : r < numSeqs)
    (seen : (Nat → Option α) → Nat → List (Candidate α))
    (hthread : ∀ row tid, thread row tid
      = (seen row tid).foldl (Tournament.take better) (initCandidate vocabSize))
    (hsub : ∀ row tid, ∀ c ∈ seen row tid, c ∈ columns row vocabSize)
    (hall : ∀ row, ∀ c ∈ columns row vocabSize, ∃ tid < block, c ∈ seen row tid) :
    ∃ token, argmaxBlock thread block logits numSeqs vocabSize r = [(r, token)] ∧
      GreedyToken (fun c => logits (r * vocabSize + c)) vocabSize token := by
  refine ⟨_, if_neg (Nat.not_le_of_lt hr), ?_⟩
  have hlead : ∀ tid, Leads (fun c => logits (r * vocabSize + c)) vocabSize
      (thread (fun c => logits (r * vocabSize + c)) tid)
      ({initCandidate vocabSize} ∪ {c | c ∈ seen (fun c => logits (r * vocabSize + c)) tid}) := by
    intro tid
    rw [hthread]
    exact leads_foldl (hsub _ tid)
  obtain ⟨u, hu, hbest⟩ := leads_block hblock hwarp hlead
  refine greedyToken_of_leads hvocab (fun x => ?_) hbest
  rw [hu]
  constructor
  · rintro ⟨tid, _, hx | hx⟩
    · exact .inl hx
    · exact .inr (hsub _ tid x hx)
  · rintro (rfl | hx)
    · exact ⟨0, hblock, .inl rfl⟩
    · obtain ⟨tid, htid, hin⟩ := hall _ x hx
      exact ⟨tid, htid, .inr hin⟩

/-- **Greedy argmax is exact.** -/
theorem argmax_exact [Std.Total (α := α) (· ≤ ·)] {block : Nat} (hblock : 0 < block)
    (hwarp : 32 ∣ block)
    (hvocab : 1 ≤ vocabSize) (logits : Nat → Option α) {numSeqs r : Nat} (hr : r < numSeqs) :
    (vocabSize % 8 = 0 → ∃ token, greedyArgmaxVecKernel block logits numSeqs vocabSize r = [(r, token)] ∧
      GreedyToken (fun c => logits (r * vocabSize + c)) vocabSize token) ∧
    ∃ token, greedyArgmaxKernel block logits numSeqs vocabSize r = [(r, token)] ∧
      GreedyToken (fun c => logits (r * vocabSize + c)) vocabSize token := by
  have hshift : vocabSize >>> 3 = vocabSize / 8 := Nat.shiftRight_eq_div_pow vocabSize 3
  constructor
  · intro h8
    refine argmaxBlock_exact hblock hwarp hvocab hr
      (fun row tid => (BlockReduce.strided block (vocabSize >>> 3) tid).flatMap fun w =>
        (List.range 8).map (vecCandidate row w)) ?_ ?_ ?_
    · intro row tid
      rw [List.foldl_flatMap]
      simp only [List.foldl_map]
      rfl
    · intro row tid c hc
      obtain ⟨w, hw, hc⟩ := List.mem_flatMap.mp hc
      obtain ⟨l, hl, rfl⟩ := List.mem_map.mp hc
      have hword := BlockReduce.lt_of_mem_strided hblock hw
      have hl := List.mem_range.mp hl
      have hcolumn : w <<< 3 + l = w * 8 + l := by rw [Nat.shiftLeft_eq]
      unfold vecCandidate
      rw [hcolumn]
      exact ⟨w * 8 + l, by omega, rfl⟩
    · rintro row c ⟨j, hj, rfl⟩
      have htid := Nat.mod_lt (j / 8) hblock
      refine ⟨j / 8 % block, htid, List.mem_flatMap.mpr ⟨j / 8, ?_, ?_⟩⟩
      · exact (BlockReduce.mem_strided htid).mpr ⟨by omega, rfl⟩
      · refine List.mem_map.mpr ⟨j % 8, List.mem_range.mpr (Nat.mod_lt j (by decide)), ?_⟩
        unfold vecCandidate
        rw [Nat.shiftLeft_eq, Nat.div_add_mod' j 8]
  · refine argmaxBlock_exact hblock hwarp hvocab hr
      (fun row tid => (BlockReduce.strided block vocabSize tid).map fun c => ⟨row c, c⟩) ?_ ?_ ?_
    · intro row tid
      rw [List.foldl_map]
      rfl
    · intro row tid c hc
      obtain ⟨j, hj, rfl⟩ := List.mem_map.mp hc
      exact ⟨j, BlockReduce.lt_of_mem_strided hblock hj, rfl⟩
    · rintro row c ⟨j, hj, rfl⟩
      have htid := Nat.mod_lt j hblock
      exact ⟨j % block, htid, List.mem_map.mpr ⟨j, (BlockReduce.mem_strided htid).mpr ⟨hj, rfl⟩, rfl⟩⟩

/-- a row with a NaN and a tie -/
def tiedRow (c : Nat) : Option Nat := if c = 0 then none else some (c / 4)

theorem argmax_exact_tied : (∃ token, greedyArgmaxVecKernel 32 tiedRow 1 8 0 = [(0, token)] ∧
      GreedyToken (fun c => tiedRow (0 * 8 + c)) 8 token) ∧
    ∃ token, greedyArgmaxKernel 64 tiedRow 1 7 0 = [(0, token)] ∧
      GreedyToken (fun c => tiedRow (0 * 7 + c)) 7 token :=
  ⟨(argmax_exact (by decide) (by decide) (by decide) tiedRow (by decide)).1 (by decide),
    (argmax_exact (by decide) (by decide) (by decide) tiedRow (by decide)).2⟩

end
end Redline
