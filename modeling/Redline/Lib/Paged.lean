import Mathlib.Data.List.Nodup
import Mathlib.Logic.Function.Basic
import Mathlib.Tactic.Common

/-!
# Paged stores

Owners keep growing sequences in one pool of pages of `n` slots.  A page table lists the pages of
an owner; position `p` of its sequence lives in the cell `cell n d table p`.

* `Owned live table`   no page stands twice in a table, or in two tables: cells are told apart
                       (`Owned.cell_inj`);
* `Holds … len content pool`   the pool holds the first `len r` positions of each owner `r`.

A store at the end of a sequence extends it (`Holds.put`); a store past the end, or into a page
that nobody owns, spoils nothing (`Holds.put_past`, `Holds.put_spare`); tables may grow and owners
may leave or join with nothing stored (`Holds.regrant`).
-/

namespace Paged
variable {ρ β ι : Type}

/-- the page and the slot of position `p`; `d` stands for a page the table does not have -/
def cell (n : Nat) (d : β) (table : List β) (p : Nat) : β × Nat := (table.getD (p / n) d, p % n)

section
variable {n : Nat} {d : β} {table : List β} {p q : Nat}

theorem page_lt (hp : p < table.length * n) : p / n < table.length :=
  Nat.div_lt_of_lt_mul (by rwa [Nat.mul_comm])

theorem cell_eq (hp : p < table.length * n) :
    cell n d table p = (table.get ⟨p / n, page_lt hp⟩, p % n) := by
  unfold cell
  rw [List.getD_eq_getElem?_getD, List.getElem?_eq_getElem (page_lt hp)]
  rfl

theorem cell_page (hp : p < table.length * n) : (cell n d table p).1 ∈ table := by
  rw [cell_eq hp]
  exact List.get_mem table _

/-- growing a table keeps its cells -/
theorem cell_append (hp : p < table.length * n) (pages : List β) :
    cell n d (table ++ pages) p = cell n d table p := by
  unfold cell
  rw [List.getD_eq_getElem?_getD, List.getElem?_append_left (page_lt hp),
    ← List.getD_eq_getElem?_getD]

theorem cell_inj (hn : table.Nodup) (hp : p < table.length * n) (hq : q < table.length * n)
    (h : cell n d table p = cell n d table q) : p = q := by
  rw [cell_eq hp, cell_eq hq, Prod.mk.injEq] at h
  have hpage : p / n = q / n := congrArg Fin.val (hn.get_inj_iff.mp h.1)
  rw [← Nat.div_add_mod p n, ← Nat.div_add_mod q n, hpage, h.2]

end

/-- no page stands twice in a table, and none in the tables of two owners -/
structure Owned (live : ρ → Prop) (table : ρ → List β) : Prop where
  nodup : ∀ r, live r → (table r).Nodup
  apart : ∀ r r', live r → live r' → ∀ b, b ∈ table r → b ∈ table r' → r = r'

/-- the pool holds the first `len r` positions of each owner -/
structure Holds (n : Nat) (d : β) (live : ρ → Prop) (table : ρ → List β) (len : ρ → Nat)
    (content : ρ → Nat → Option ι) (pool : β × Nat → ι) : Prop where
  fits : ∀ r, live r → len r ≤ (table r).length * n
  content : ∀ r, live r → ∀ p < len r, content r p = some (pool (cell n d (table r) p))

section
variable {n : Nat} {d : β} {live live' : ρ → Prop} {table table' : ρ → List β} {len len' : ρ → Nat}
  {content content' : ρ → Nat → Option ι} {pool pool' : β × Nat → ι}

/-- **Cells are told apart.** -/
theorem Owned.cell_inj (h : Owned live table) {r r' : ρ} (hr : live r) (hr' : live r') {p p' : Nat}
    (hp : p < (table r).length * n) (hp' : p' < (table r').length * n)
    (he : cell n d (table r) p = cell n d (table r') p') : r = r' ∧ p = p' := by
  have hpage := cell_page (d := d) hp
  rw [he] at hpage
  obtain rfl := h.apart r r' hr hr' _ hpage (cell_page hp')
  exact ⟨rfl, Paged.cell_inj (h.nodup r hr) hp hp' he⟩

/-- a store into a cell that holds nothing spoils nothing -/
theorem Holds.put_other [DecidableEq β] (h : Holds n d live table len content pool) {c : β × Nat}
    (hc : ∀ r, live r → ∀ p < len r, cell n d (table r) p ≠ c) (v : ι) :
    Holds n d live table len content (Function.update pool c v) := by
  refine ⟨h.fits, fun r hr p hp => ?_⟩
  rw [Function.update_of_ne (hc r hr p hp)]
  exact h.content r hr p hp

/-- a page that nobody owns -/
theorem Holds.put_spare [DecidableEq β] (h : Holds n d live table len content pool) {c : β × Nat}
    (hc : ∀ r, live r → c.1 ∉ table r) (v : ι) :
    Holds n d live table len content (Function.update pool c v) := by
  refine h.put_other (fun r hr p hp he => hc r hr ?_) v
  rw [← he]
  exact cell_page (Nat.lt_of_lt_of_le hp (h.fits r hr))

/-- past the end of a sequence -/
theorem Holds.put_past [DecidableEq β] (h : Holds n d live table len content pool)
    (hO : Owned live table) {r : ρ} (hr : live r) {p : Nat} (hp : len r ≤ p)
    (hcap : p < (table r).length * n) (v : ι) :
    Holds n d live table len content (Function.update pool (cell n d (table r) p) v) := by
  refine h.put_other (fun r' hr' q hq he => ?_) v
  obtain ⟨rfl, rfl⟩ := hO.cell_inj hr' hr (Nat.lt_of_lt_of_le hq (h.fits r' hr')) hcap he
  omega

/-- **The next position of a sequence.** -/
theorem Holds.put [DecidableEq β] [DecidableEq ρ] (h : Holds n d live table len content pool)
    (hO : Owned live table) {r : ρ} (hr : live r) (hcap : len r < (table r).length * n) {v : ι}
    (hv : content r (len r) = some v) :
    Holds n d live table (Function.update len r (len r + 1)) content
      (Function.update pool (cell n d (table r) (len r)) v) := by
  have hpast := h.put_past hO hr (Nat.le_refl _) hcap v
  refine ⟨fun r' hr' => ?_, fun r' hr' p hp => ?_⟩
  · by_cases hrr : r' = r
    · subst hrr
      rw [Function.update_self]
      exact hcap
    · rw [Function.update_of_ne hrr]
      exact h.fits r' hr'
  · by_cases hrr : r' = r
    · subst hrr
      rw [Function.update_self] at hp
      rcases Nat.lt_succ_iff_lt_or_eq.mp hp with hp | rfl
      · exact hpast.content r' hr' p hp
      · rw [Function.update_self]
        exact hv
    · rw [Function.update_of_ne hrr] at hp
      exact hpast.content r' hr' p hp

/-- **Tables grow, owners leave, and owners join with nothing stored.** -/
theorem Holds.regrant (h : Holds n d live table len content pool)
    (hfits : ∀ r, live' r → len' r ≤ (table' r).length * n)
    (hold : ∀ r, live' r → 0 < len' r → live r ∧ len' r = len r ∧
      (∃ pages, table' r = table r ++ pages) ∧ (∀ p < len r, content' r p = content r p) ∧
      ∀ b ∈ table r, ∀ slot, pool' (b, slot) = pool (b, slot)) :
    Holds n d live' table' len' content' pool' := by
  refine ⟨hfits, fun r hr p hp => ?_⟩
  obtain ⟨hl, hlen, ⟨pages, htable⟩, hc, hpool⟩ := hold r hr (Nat.lt_of_le_of_lt (Nat.zero_le p) hp)
  rw [hlen] at hp
  have hcap := Nat.lt_of_lt_of_le hp (h.fits r hl)
  rw [hc p hp, h.content r hl p hp, htable, cell_append hcap]
  exact congrArg some (hpool _ (cell_page hcap) _).symm

end
end Paged
