import Redline.Core.Types
import Redline.Lib.Ledger

/-!
# The reservation allocator

`core/block_allocator.cpp`.  The stack `free_list_` is the list `freeList`, its top first.
The debug assertions are `check`s: `none` is an assertion that fails.

`Inv a out` is the class invariant together with the ids that are outstanding: the free list and
`out` make up `1 .. total_blocks - 1`, and no more blocks are promised than are free.  Every
operation, called as its contract asks, returns and keeps it.
-/

namespace Redline
open Prog

structure BlockAllocator where
  totalBlocks : Nat
  /-- promised to admitted sequences, not yet allocated -/
  reserved : Int
  freeList : List Int
  /-- shadow map, consulted by the assertions only -/
  outstanding : Int → Bool

/-- the ids of a pool: block 0 never enters the free list -/
def poolIds (totalBlocks : Nat) : List Int := (List.range' 1 (totalBlocks - 1)).map Int.ofNat

theorem mem_poolIds {n : Nat} {b : Int} : b ∈ poolIds n ↔ 1 ≤ b ∧ b < n := by
  unfold poolIds
  rw [List.mem_map]
  constructor
  · rintro ⟨k, hk, rfl⟩
    rw [List.mem_range'_1] at hk
    simp only [Int.ofNat_eq_natCast]
    omega
  · rintro ⟨h1, h2⟩
    refine ⟨b.toNat, ?_, by simp only [Int.ofNat_eq_natCast]; omega⟩
    rw [List.mem_range'_1]
    omega

theorem nodup_poolIds (n : Nat) : (poolIds n).Nodup := by
  unfold poolIds
  exact (List.nodup_range' ..).map (fun a b h => Int.ofNat.inj h)

theorem length_poolIds (n : Nat) : (poolIds n).length = n - 1 := by simp [poolIds]

namespace BlockAllocator

def usableBlocks (a : BlockAllocator) : Nat := if 0 < a.totalBlocks then a.totalBlocks - 1 else 0
def freeBlocks (a : BlockAllocator) : Nat := a.freeList.length

/-- `DebugCheckInvariant`, run on the allocator a mutation leaves behind -/
def debugCheckInvariant (a : BlockAllocator) : Option BlockAllocator := do
  check (0 ≤ a.reserved)
  check (a.reserved ≤ a.freeBlocks)
  check (a.freeBlocks ≤ a.usableBlocks)
  return a

/-- the constructor; `pop_back` of the fresh stack hands out ascending ids from 1 -/
def make (totalBlocks : Nat) : BlockAllocator :=
  { totalBlocks, reserved := 0, freeList := poolIds totalBlocks, outstanding := fun _ => false }

def canReserve (a : BlockAllocator) (count : Int) : Bool :=
  decide (count ≤ a.freeBlocks - a.reserved)

def reserve (a : BlockAllocator) (count : Int) : Option BlockAllocator := do
  check (0 ≤ count)
  check (a.canReserve count)
  debugCheckInvariant { a with reserved := a.reserved + count }

def unreserve (a : BlockAllocator) (count : Int) : Option BlockAllocator := do
  check (0 ≤ count)
  check (count ≤ a.reserved)
  debugCheckInvariant { a with reserved := a.reserved - count }

def allocReserved (a : BlockAllocator) : Option (Int × BlockAllocator) := do
  check (0 < a.reserved)
  match a.freeList with
  | [] => none
  | block :: rest =>
    check (block ≠ kDummyBlockId ∧ block ≠ kInvalidBlockId)
    check (1 ≤ block ∧ block < a.totalBlocks)
    check (a.outstanding block = false)
    let a' ← debugCheckInvariant
      { a with
        freeList := rest
        reserved := a.reserved - 1
        outstanding := Function.update a.outstanding block true }
    return (block, a')

def freeBlock (a : BlockAllocator) (block : Int) : Option BlockAllocator := do
  check (block ≠ kInvalidBlockId)
  check (block ≠ kDummyBlockId)
  check (1 ≤ block ∧ block < a.totalBlocks)
  check (a.outstanding block = true)
  debugCheckInvariant
    { a with
      freeList := block :: a.freeList
      outstanding := Function.update a.outstanding block false }

/-! ## the invariant -/

/-- the allocator is sound when exactly the ids `out` are outstanding -/
structure Inv (a : BlockAllocator) (out : Multiset Int) : Prop where
  parts : (a.freeList : Multiset Int) + out = poolIds a.totalBlocks
  reserved_nonneg : 0 ≤ a.reserved
  reserved_le : a.reserved ≤ a.freeBlocks
  shadow : ∀ b, a.outstanding b = true ↔ b ∈ out

theorem Inv.bounds {a : BlockAllocator} {out : Multiset Int} (h : a.Inv out) {b : Int}
    (hb : b ∈ a.freeList ∨ b ∈ out) : 1 ≤ b ∧ b < a.totalBlocks := by
  have hm : b ∈ (a.freeList : Multiset Int) + out := by
    rw [Multiset.mem_add, Multiset.mem_coe]; exact hb
  rw [h.parts, Multiset.mem_coe] at hm
  exact mem_poolIds.mp hm

theorem Inv.nodup {a : BlockAllocator} {out : Multiset Int} (h : a.Inv out) :
    ((a.freeList : Multiset Int) + out).Nodup := by
  rw [h.parts]
  exact Multiset.coe_nodup.mpr (nodup_poolIds _)

theorem Inv.card {a : BlockAllocator} {out : Multiset Int} (h : a.Inv out) :
    a.freeBlocks + out.card = a.usableBlocks := by
  have hc := congrArg Multiset.card h.parts
  rw [Multiset.card_add, Multiset.coe_card, Multiset.coe_card, length_poolIds] at hc
  unfold freeBlocks usableBlocks
  split <;> omega

theorem Inv.debug {a : BlockAllocator} {out : Multiset Int} (h : a.Inv out) :
    a.debugCheckInvariant = some a := by
  have hc := h.card
  simp [debugCheckInvariant, check_pos h.reserved_nonneg, check_pos h.reserved_le,
    check_pos (show a.freeBlocks ≤ a.usableBlocks by omega)]

theorem make_inv (n : Nat) : (make n).Inv 0 where
  parts := add_zero _
  reserved_nonneg := le_refl _
  reserved_le := by simp [make]
  shadow := by simp [make]

/-! ## what each operation does -/

section
variable {a : BlockAllocator} {out : Multiset Int} (h : a.Inv out)
include h

theorem reserve_spec {count : Int} (h0 : 0 ≤ count) (hc : count ≤ a.freeBlocks - a.reserved) :
    a.reserve count = some { a with reserved := a.reserved + count } ∧
      ({ a with reserved := a.reserved + count } : BlockAllocator).Inv out := by
  have hr := h.reserved_nonneg
  have hi : ({ a with reserved := a.reserved + count } : BlockAllocator).Inv out :=
    ⟨h.parts, by show 0 ≤ a.reserved + count; omega,
      by show a.reserved + count ≤ a.freeBlocks; omega, h.shadow⟩
  refine ⟨?_, hi⟩
  simp [reserve, check_pos h0, check_pos (show a.canReserve count = true by simpa [canReserve] using hc),
    hi.debug]

theorem unreserve_spec {count : Int} (h0 : 0 ≤ count) (hc : count ≤ a.reserved) :
    a.unreserve count = some { a with reserved := a.reserved - count } ∧
      ({ a with reserved := a.reserved - count } : BlockAllocator).Inv out := by
  have hr := h.reserved_le
  have hi : ({ a with reserved := a.reserved - count } : BlockAllocator).Inv out :=
    ⟨h.parts, by show 0 ≤ a.reserved - count; omega,
      by show a.reserved - count ≤ a.freeBlocks; omega, h.shadow⟩
  refine ⟨?_, hi⟩
  simp [unreserve, check_pos h0, check_pos hc, hi.debug]

/-- a live reservation is served with the top of the stack -/
theorem allocReserved_spec (hr : 0 < a.reserved) :
    ∃ b rest a', a.freeList = b :: rest ∧ a.allocReserved = some (b, a') ∧
      a'.freeList = rest ∧ a'.reserved = a.reserved - 1 ∧ a'.totalBlocks = a.totalBlocks ∧
      a'.Inv (b ::ₘ out) := by
  have hle := h.reserved_le
  unfold freeBlocks at hle
  cases hf : a.freeList with
  | nil => rw [hf] at hle; simp at hle; omega
  | cons b rest =>
    have hb := h.bounds (b := b) (Or.inl (by rw [hf]; exact List.mem_cons_self))
    have hout : b ∉ out := by
      have hn := h.nodup
      rw [hf, ← Multiset.cons_coe, Multiset.cons_add, Multiset.nodup_cons] at hn
      exact fun hm => hn.1 (Multiset.mem_add.mpr (Or.inr hm))
    have hsh : a.outstanding b = false := by
      rw [← Bool.not_eq_true, h.shadow]; exact hout
    rw [hf] at hle
    let a' : BlockAllocator :=
      { a with
        freeList := rest
        reserved := a.reserved - 1
        outstanding := Function.update a.outstanding b true }
    have hi : a'.Inv (b ::ₘ out) := by
      refine ⟨?_, ?_, ?_, ?_⟩
      · show (rest : Multiset Int) + b ::ₘ out = _
        rw [Multiset.add_cons, ← Multiset.cons_add, Multiset.cons_coe, ← hf]
        exact h.parts
      · show 0 ≤ a.reserved - 1; omega
      · show a.reserved - 1 ≤ (rest.length : Int)
        rw [List.length_cons] at hle; push_cast at hle; omega
      · intro c
        show Function.update a.outstanding b true c = true ↔ _
        by_cases e : c = b
        · subst e; simp
        · rw [Function.update_of_ne e, h.shadow]; simp [e]
    refine ⟨b, rest, a', rfl, ?_, rfl, rfl, rfl, hi⟩
    have h1 : b ≠ kDummyBlockId ∧ b ≠ kInvalidBlockId := by
      unfold kDummyBlockId kInvalidBlockId; omega
    simp only [allocReserved, hf, check_pos hr, check_pos h1, check_pos hb, check_pos hsh,
      Option.bind_eq_bind, Option.bind_some, Option.pure_def]
    show (a'.debugCheckInvariant.bind fun x => some (b, x)) = some (b, a')
    rw [hi.debug]
    rfl

end

/-- an outstanding id goes back on top of the stack -/
theorem freeBlock_spec {a : BlockAllocator} {b : Int} {out : Multiset Int}
    (h : a.Inv (b ::ₘ out)) :
    ∃ a', a.freeBlock b = some a' ∧ a'.freeList = b :: a.freeList ∧ a'.reserved = a.reserved ∧
      a'.totalBlocks = a.totalBlocks ∧ a'.Inv out := by
  have hm : b ∈ b ::ₘ out := Multiset.mem_cons_self _ _
  have hb := h.bounds (Or.inr hm)
  have hout : b ∉ out := by
    have hn := h.nodup
    rw [Multiset.add_cons, Multiset.nodup_cons] at hn
    exact fun hm => hn.1 (Multiset.mem_add.mpr (Or.inr hm))
  have hsh : a.outstanding b = true := (h.shadow b).mpr hm
  have hle := h.reserved_le
  let a' : BlockAllocator :=
    { a with
      freeList := b :: a.freeList
      outstanding := Function.update a.outstanding b false }
  have hi : a'.Inv out := by
    refine ⟨?_, h.reserved_nonneg, ?_, ?_⟩
    · show ((b :: a.freeList : List Int) : Multiset Int) + out = _
      rw [← Multiset.cons_coe, Multiset.cons_add, ← Multiset.add_cons]
      exact h.parts
    · show a.reserved ≤ ((b :: a.freeList).length : Int)
      unfold freeBlocks at hle
      rw [List.length_cons]; push_cast; omega
    · intro c
      show Function.update a.outstanding b false c = true ↔ _
      by_cases e : c = b
      · subst e; simp [hout]
      · rw [Function.update_of_ne e, h.shadow]; simp [e]
  refine ⟨a', ?_, rfl, rfl, rfl, hi⟩
  have h1 : b ≠ kInvalidBlockId := by unfold kInvalidBlockId; omega
  have h2 : b ≠ kDummyBlockId := by unfold kDummyBlockId; omega
  simp only [freeBlock, check_pos h1, check_pos h2, check_pos hb, check_pos hsh,
    Option.bind_eq_bind, Option.bind_some]
  exact hi.debug

end BlockAllocator
end Redline
