import Mathlib.Data.List.Induction
import Mathlib.Data.List.Nodup
import Mathlib.Order.Lattice
import Mathlib.Tactic.Common

/-!
# Maps as association lists in key order

`OrderedMap κ α` is a finite map whose entries stand in increasing key order, which is the order
in which they are visited.

* `assign k v m`  `m[k] = v`; `mem_assign` says which entries it leaves;
* `ofPairs ps`    the pairs assigned one after the other, so that the last value of a key stays:
                  `keys_ofPairs`, `ofPairs_of_nodup`;
* `find k m`      the value at a key; `find_eq_some`.
-/

variable {κ α : Type*} [LinearOrder κ]

structure OrderedMap (κ : Type*) (α : Type*) [LinearOrder κ] where
  entries : List (κ × α)
  sorted : entries.Pairwise fun p q => p.1 < q.1

namespace OrderedMap

def empty : OrderedMap κ α := ⟨[], .nil⟩

def keys (m : OrderedMap κ α) : List κ := m.entries.map Prod.fst

theorem nodup_keys (m : OrderedMap κ α) : m.keys.Nodup := by
  unfold keys
  apply List.pairwise_map.mpr
  exact m.sorted.imp fun h => h.ne

/-- an entry in its place, or over the one of its key -/
def assignList (k : κ) (v : α) : List (κ × α) → List (κ × α)
  | [] => [(k, v)]
  | p :: l => if k < p.1 then (k, v) :: p :: l
    else if k = p.1 then (k, v) :: l
    else p :: assignList k v l

theorem mem_assignList {k : κ} {v : α} {l : List (κ × α)} (hl : l.Pairwise fun p q => p.1 < q.1)
    {p : κ × α} : p ∈ assignList k v l ↔ p = (k, v) ∨ p ∈ l ∧ p.1 ≠ k := by
  induction l with
  | nil => simp [assignList]
  | cons q l ih =>
    obtain ⟨hq, hl'⟩ := List.pairwise_cons.mp hl
    unfold assignList
    by_cases hlt : k < q.1
    · rw [if_pos hlt]
      have hne : ∀ p ∈ q :: l, p.1 ≠ k := by
        intro p hp
        rcases List.mem_cons.mp hp with rfl | hp
        · exact hlt.ne'
        · exact (hlt.trans (hq p hp)).ne'
      constructor
      · intro hp
        rcases List.mem_cons.mp hp with rfl | hp
        · exact Or.inl rfl
        · exact Or.inr ⟨hp, hne p hp⟩
      · rintro (rfl | ⟨hp, _⟩)
        · exact List.mem_cons_self
        · exact List.mem_cons_of_mem _ hp
    · rw [if_neg hlt]
      by_cases heq : k = q.1
      · rw [if_pos heq]
        constructor
        · intro hp
          rcases List.mem_cons.mp hp with rfl | hp
          · exact Or.inl rfl
          · exact Or.inr ⟨List.mem_cons_of_mem _ hp, heq ▸ (hq p hp).ne'⟩
        · rintro (rfl | ⟨hp, hne⟩)
          · exact List.mem_cons_self
          · rcases List.mem_cons.mp hp with rfl | hp
            · exact absurd heq.symm hne
            · exact List.mem_cons_of_mem _ hp
      · rw [if_neg heq]
        constructor
        · intro hp
          rcases List.mem_cons.mp hp with rfl | hp
          · exact Or.inr ⟨List.mem_cons_self, fun h => heq h.symm⟩
          · rcases (ih hl').mp hp with h | ⟨h, hne⟩
            · exact Or.inl h
            · exact Or.inr ⟨List.mem_cons_of_mem _ h, hne⟩
        · rintro (rfl | ⟨hp, hne⟩)
          · exact List.mem_cons_of_mem _ ((ih hl').mpr (Or.inl rfl))
          · rcases List.mem_cons.mp hp with rfl | hp
            · exact List.mem_cons_self
            · exact List.mem_cons_of_mem _ ((ih hl').mpr (Or.inr ⟨hp, hne⟩))

theorem sorted_assignList {k : κ} {v : α} {l : List (κ × α)}
    (hl : l.Pairwise fun p q => p.1 < q.1) : (assignList k v l).Pairwise fun p q => p.1 < q.1 := by
  induction l with
  | nil => exact List.pairwise_singleton _ _
  | cons q l ih =>
    obtain ⟨hq, hl'⟩ := List.pairwise_cons.mp hl
    unfold assignList
    by_cases hlt : k < q.1
    · rw [if_pos hlt]
      refine List.pairwise_cons.mpr ⟨fun p hp => ?_, hl⟩
      rcases List.mem_cons.mp hp with rfl | hp
      · exact hlt
      · exact hlt.trans (hq p hp)
    · rw [if_neg hlt]
      by_cases heq : k = q.1
      · rw [if_pos heq]
        exact List.pairwise_cons.mpr ⟨fun p hp => heq ▸ hq p hp, hl'⟩
      · rw [if_neg heq]
        refine List.pairwise_cons.mpr ⟨fun p hp => ?_, ih hl'⟩
        rcases (mem_assignList hl').mp hp with rfl | ⟨hp, _⟩
        · exact lt_of_le_of_ne (not_lt.mp hlt) fun h => heq h.symm
        · exact hq p hp

def assign (k : κ) (v : α) (m : OrderedMap κ α) : OrderedMap κ α :=
  ⟨assignList k v m.entries, sorted_assignList m.sorted⟩

theorem mem_assign {k : κ} {v : α} {m : OrderedMap κ α} {p : κ × α} :
    p ∈ (assign k v m).entries ↔ p = (k, v) ∨ p ∈ m.entries ∧ p.1 ≠ k := mem_assignList m.sorted

/-- the pairs, assigned one after the other -/
def ofPairs (ps : List (κ × α)) : OrderedMap κ α := ps.foldl (fun m p => assign p.1 p.2 m) empty

theorem ofPairs_concat (ps : List (κ × α)) (p : κ × α) :
    ofPairs (ps ++ [p]) = assign p.1 p.2 (ofPairs ps) := by
  unfold ofPairs
  rw [List.foldl_append]
  rfl

/-- nothing is invented -/
theorem mem_of_mem_ofPairs {ps : List (κ × α)} {p : κ × α} (h : p ∈ (ofPairs ps).entries) : p ∈ ps := by
  induction ps using List.reverseRecOn with
  | nil => cases h
  | append_singleton ps q ih =>
    rw [ofPairs_concat] at h
    rcases mem_assign.mp h with rfl | ⟨h, _⟩
    · exact List.mem_append_right _ (List.mem_singleton_self _)
    · exact List.mem_append_left _ (ih h)

/-- **The keys** are the keys of the pairs. -/
theorem keys_ofPairs {ps : List (κ × α)} {k : κ} :
    k ∈ (ofPairs ps).keys ↔ k ∈ ps.map Prod.fst := by
  induction ps using List.reverseRecOn with
  | nil => exact Iff.rfl
  | append_singleton ps q ih =>
    rw [ofPairs_concat, List.map_append, List.mem_append, ← ih]
    unfold keys
    simp only [List.mem_map, mem_assign, List.map_cons, List.map_nil, List.mem_singleton]
    constructor
    · rintro ⟨p, rfl | ⟨hp, _⟩, rfl⟩
      · exact Or.inr rfl
      · exact Or.inl ⟨p, hp, rfl⟩
    · rintro (⟨p, hp, rfl⟩ | rfl)
      · by_cases hk : p.1 = q.1
        · exact ⟨q, Or.inl rfl, hk.symm⟩
        · exact ⟨p, Or.inr ⟨hp, hk⟩, rfl⟩
      · exact ⟨q, Or.inl rfl, rfl⟩

/-- with distinct keys the entries are the pairs -/
theorem ofPairs_of_nodup {ps : List (κ × α)} (h : (ps.map Prod.fst).Nodup) {p : κ × α} :
    p ∈ (ofPairs ps).entries ↔ p ∈ ps := by
  induction ps using List.reverseRecOn with
  | nil => exact Iff.rfl
  | append_singleton ps q ih =>
    rw [List.map_append, List.nodup_append] at h
    obtain ⟨hps, _, hdis⟩ := h
    rw [ofPairs_concat, mem_assign, ih hps, List.mem_append, List.mem_singleton]
    constructor
    · rintro (rfl | ⟨hp, _⟩)
      · exact Or.inr rfl
      · exact Or.inl hp
    · rintro (hp | rfl)
      · exact Or.inr ⟨hp, hdis _ (List.mem_map_of_mem hp) _ (List.mem_singleton_self _)⟩
      · exact Or.inl rfl

/-- `m.find(k)` -/
def find (k : κ) (m : OrderedMap κ α) : Option α :=
  (m.entries.find? fun p => decide (p.1 = k)).map Prod.snd

theorem find_eq_some {k : κ} {v : α} {m : OrderedMap κ α} :
    m.find k = some v ↔ (k, v) ∈ m.entries := by
  unfold find
  constructor
  · intro h
    obtain ⟨p, hp, rfl⟩ := Option.map_eq_some_iff.mp h
    have hk : p.1 = k := by simpa using List.find?_some hp
    have hm := List.mem_of_find?_eq_some hp
    rwa [← hk]
  · intro h
    cases hf : m.entries.find? fun p => decide (p.1 = k) with
    | none => exact absurd (List.find?_eq_none.mp hf (k, v) h) (by simp)
    | some p =>
      have hk : p.1 = k := by simpa using List.find?_some hf
      have hm := List.mem_of_find?_eq_some hf
      have : p = (k, v) := List.inj_on_of_nodup_map m.nodup_keys hm h hk
      rw [this]
      rfl

end OrderedMap
