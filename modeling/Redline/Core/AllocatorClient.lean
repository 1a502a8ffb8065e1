import Redline.Core.BlockAllocator

/-!
# The allocator under any client

A client makes calls on a fresh pool in any order, as long as each honours what the assertions ask
of the caller.

* `step_sound`             such a call returns and keeps the invariant;
* `run_sound`              and so does a sequence of them;
* `popMany_isSome`         how many blocks a release build can pop;
* `allocator_contract`     what holds after any sequence.
-/

namespace Redline
namespace BlockAllocator

/-- the mutating calls -/
inductive Call where
  | reserve (count : Int)
  | unreserve (count : Int)
  | allocReserved
  | freeBlock (block : Int)
  deriving DecidableEq, Repr

/-- the allocator, with the ids that its client was handed and has not returned -/
structure Client where
  allocator : BlockAllocator
  held : List Int

namespace Client

/-- what the assertions ask of the caller -/
def Legal (s : Client) : Call → Prop
  | .reserve count => 0 ≤ count ∧ s.allocator.canReserve count = true
  | .unreserve count => 0 ≤ count ∧ count ≤ s.allocator.reserved
  | .allocReserved => 0 < s.allocator.reserved
  | .freeBlock block => block ∈ s.held

def step (s : Client) : Call → Option Client
  | .reserve count => do return { s with allocator := ← s.allocator.reserve count }
  | .unreserve count => do return { s with allocator := ← s.allocator.unreserve count }
  | .allocReserved => do
    let (block, allocator) ← s.allocator.allocReserved
    return ⟨allocator, block :: s.held⟩
  | .freeBlock block => do return ⟨← s.allocator.freeBlock block, s.held.erase block⟩

def run : Client → List Call → Option Client
  | s, [] => some s
  | s, c :: calls => do run (← s.step c) calls

/-- each call is legal where it is made -/
def Honours : Client → List Call → Prop
  | _, [] => True
  | s, c :: calls => s.Legal c ∧ ∀ s', s.step c = some s' → Honours s' calls

theorem honours_cons {s s' : Client} {c : Call} {calls : List Call} (hc : s.Legal c)
    (hstep : s.step c = some s') (h : s'.Honours calls) : s.Honours (c :: calls) :=
  ⟨hc, fun _ h1 => Option.some.inj (hstep.symm.trans h1) ▸ h⟩

/-- a client of a fresh pool -/
def fresh (totalBlocks : Nat) : Client := ⟨make totalBlocks, []⟩

/-- the invariant, of a pool of this size -/
structure Consistent (totalBlocks : Nat) (s : Client) : Prop where
  total : s.allocator.totalBlocks = totalBlocks
  inv : s.allocator.Inv (s.held : Multiset Int)

theorem fresh_consistent (totalBlocks : Nat) : (fresh totalBlocks).Consistent totalBlocks :=
  ⟨rfl, make_inv totalBlocks⟩

section
variable {totalBlocks : Nat} {s : Client} (h : s.Consistent totalBlocks)

include h

/-- **A legal call returns and keeps the invariant.** -/
theorem step_sound {c : Call} (hc : s.Legal c) : ∃ s', s.step c = some s' ∧
    s'.Consistent totalBlocks := by
  cases c with
  | reserve count =>
    obtain ⟨hcall, hinv⟩ := reserve_spec h.inv hc.1 (of_decide_eq_true hc.2)
    refine ⟨⟨{ s.allocator with reserved := s.allocator.reserved + count }, s.held⟩, ?_, h.total, hinv⟩
    rw [step, hcall]
    rfl
  | unreserve count =>
    obtain ⟨hcall, hinv⟩ := unreserve_spec h.inv hc.1 hc.2
    refine ⟨⟨{ s.allocator with reserved := s.allocator.reserved - count }, s.held⟩, ?_, h.total, hinv⟩
    rw [step, hcall]
    rfl
  | allocReserved =>
    obtain ⟨b, rest, a, _, hcall, _, _, htotal, hinv⟩ := allocReserved_spec h.inv hc
    refine ⟨⟨a, b :: s.held⟩, ?_, htotal.trans h.total, hinv⟩
    rw [step, hcall]
    rfl
  | freeBlock block =>
    have hheld : (s.held : Multiset Int) = block ::ₘ (s.held.erase block : List Int) := by
      rw [← Multiset.coe_erase, Multiset.cons_erase (Multiset.mem_coe.mpr hc)]
    obtain ⟨a, hcall, _, _, htotal, hinv⟩ := freeBlock_spec (hheld ▸ h.inv)
    refine ⟨⟨a, s.held.erase block⟩, ?_, htotal.trans h.total, hinv⟩
    rw [step, hcall]
    rfl

end

theorem run_sound {totalBlocks : Nat} {calls : List Call} : ∀ {s : Client}, s.Consistent totalBlocks →
    s.Honours calls → ∃ s', s.run calls = some s' ∧ s'.Consistent totalBlocks := by
  induction calls with
  | nil => exact fun h _ => ⟨_, rfl, h⟩
  | cons c calls ih =>
    intro s h hcalls
    obtain ⟨s1, hstep, h1⟩ := step_sound h hcalls.1
    obtain ⟨s', hrun, h'⟩ := ih h1 (hcalls.2 s1 hstep)
    exact ⟨s', by rw [run, hstep]; exact hrun, h'⟩

end Client

/-! ## a release build -/

/-- `AllocReserved` without its assertions; `none` is the pop of an empty vector -/
def popReserved (a : BlockAllocator) : Option (Int × BlockAllocator) :=
  match a.freeList with
  | [] => none
  | block :: rest =>
    some (block, { a with
      freeList := rest
      reserved := a.reserved - 1
      outstanding := Function.update a.outstanding block true })

/-- as many calls in a row -/
def popMany : Nat → BlockAllocator → Option (List Int × BlockAllocator)
  | 0, a => some ([], a)
  | count + 1, a => do
    let (block, a) ← a.popReserved
    let (blocks, a) ← popMany count a
    return (block :: blocks, a)

theorem popMany_isSome {count : Nat} : ∀ {a : BlockAllocator},
    (∃ r, popMany count a = some r) ↔ count ≤ a.freeList.length := by
  induction count with
  | zero => exact fun {a} => ⟨fun _ => Nat.zero_le _, fun _ => ⟨_, rfl⟩⟩
  | succ count ih =>
    intro a
    rw [popMany]
    cases hlist : a.freeList with
    | nil =>
      unfold popReserved
      rw [hlist]
      exact ⟨fun ⟨r, hr⟩ => (by cases hr), fun hle => absurd hle (Nat.not_succ_le_zero count)⟩
    | cons block rest =>
      let a' : BlockAllocator := { a with
        freeList := rest
        reserved := a.reserved - 1
        outstanding := Function.update a.outstanding block true }
      have hpop : a.popReserved = some (block, a') := by
        unfold popReserved
        rw [hlist]
      rw [hpop, List.length_cons, Nat.add_le_add_iff_right,
        ← show a'.freeList.length = rest.length from rfl, ← ih]
      constructor
      · rintro ⟨r, hr⟩
        obtain ⟨p, hp, hr⟩ := Option.bind_eq_some_iff.mp hr
        obtain rfl := Option.some.inj hp
        obtain ⟨q, hq, _⟩ := Option.bind_eq_some_iff.mp hr
        exact ⟨q, hq⟩
      · rintro ⟨q, hq⟩
        exact ⟨_, Option.bind_eq_some_iff.mpr ⟨_, rfl, Option.bind_eq_some_iff.mpr ⟨q, hq, rfl⟩⟩⟩

theorem of_debugCheckInvariant {a a' : BlockAllocator} (h : a.debugCheckInvariant = some a') :
    a = a' := by
  unfold debugCheckInvariant at h
  obtain ⟨_, _, h⟩ := Option.bind_eq_some_iff.mp h
  obtain ⟨_, _, h⟩ := Option.bind_eq_some_iff.mp h
  obtain ⟨_, _, h⟩ := Option.bind_eq_some_iff.mp h
  exact Option.some.inj h

/-- with the assertions a call does what it does without them -/
theorem popReserved_of_allocReserved {a : BlockAllocator} {r : Int × BlockAllocator}
    (h : a.allocReserved = some r) :
    a.popReserved = some r := by
  unfold allocReserved at h
  obtain ⟨_, _, h⟩ := Option.bind_eq_some_iff.mp h
  unfold popReserved
  cases hlist : a.freeList with
  | nil =>
    rw [hlist] at h
    cases h
  | cons block rest =>
    rw [hlist] at h
    obtain ⟨_, _, h⟩ := Option.bind_eq_some_iff.mp h
    obtain ⟨_, _, h⟩ := Option.bind_eq_some_iff.mp h
    obtain ⟨_, _, h⟩ := Option.bind_eq_some_iff.mp h
    obtain ⟨a', hdebug, h⟩ := Option.bind_eq_some_iff.mp h
    rw [← Option.some.inj h, ← of_debugCheckInvariant hdebug]

/-! ## the contract -/

namespace Client

/-- the pool as its client sees it -/
structure Sound (totalBlocks : Nat) (s : Client) : Prop where
  nodup : s.allocator.freeList.Nodup
  held_nodup : s.held.Nodup
  disjoint : ∀ b ∈ s.allocator.freeList, b ∉ s.held
  cover : ∀ b, b ∈ s.allocator.freeList ∨ b ∈ s.held ↔ 1 ≤ b ∧ b < totalBlocks
  dummy : kDummyBlockId ∉ s.held
  invalid : kInvalidBlockId ∉ s.held
  reserved_nonneg : 0 ≤ s.allocator.reserved
  reserved_le : s.allocator.reserved ≤ s.allocator.freeBlocks

theorem Consistent.sound {totalBlocks : Nat} {s : Client} (h : s.Consistent totalBlocks) :
    s.Sound totalBlocks := by
  have hcover : ∀ b, b ∈ s.allocator.freeList ∨ b ∈ s.held ↔ 1 ≤ b ∧ b < totalBlocks := by
    intro b
    have hmem : b ∈ (s.allocator.freeList : Multiset Int) + (s.held : Multiset Int) ↔
        b ∈ s.allocator.freeList ∨ b ∈ s.held := by
      rw [Multiset.mem_add, Multiset.mem_coe, Multiset.mem_coe]
    rw [← hmem, h.inv.parts, Multiset.mem_coe, mem_poolIds, h.total]
  have hnodup : (s.allocator.freeList ++ s.held).Nodup := by
    have hn := h.inv.nodup
    rwa [Multiset.coe_add, Multiset.coe_nodup] at hn
  obtain ⟨hfree, hheld, hdisjoint⟩ := List.nodup_append.mp hnodup
  refine ⟨hfree, hheld, fun b hb hb' => hdisjoint b hb b hb' rfl, hcover, fun hb => ?_, fun hb => ?_,
    h.inv.reserved_nonneg, h.inv.reserved_le⟩
  · have hbound := (hcover _).mp (Or.inr hb)
    unfold kDummyBlockId at hbound
    omega
  · have hbound := (hcover _).mp (Or.inr hb)
    unfold kInvalidBlockId at hbound
    omega

/-- **After any sequence of legal calls** the pool is sound, a live reservation is served with a fresh id, and
`CanReserve` tells how many blocks could still be promised and allocated beside the ones promised. -/
theorem allocator_contract {totalBlocks : Nat} {calls : List Call}
    (h : (fresh totalBlocks).Honours calls) :
    ∃ s, (fresh totalBlocks).run calls = some s ∧ s.Sound totalBlocks ∧
      (0 < s.allocator.reserved → s.allocator.freeList ≠ [] ∧
        ∃ b a, s.allocator.allocReserved = some (b, a) ∧ s.allocator.popReserved = some (b, a) ∧
          b ∉ s.held ∧ b ≠ kDummyBlockId ∧ b ≠ kInvalidBlockId) ∧
      ∀ count, 0 ≤ count → (s.allocator.canReserve count = true ↔
        ∃ r, popMany (count + s.allocator.reserved).toNat
          { s.allocator with reserved := s.allocator.reserved + count } = some r) := by
  obtain ⟨s, hrun, hs⟩ := run_sound (fresh_consistent totalBlocks) h
  have hsound := hs.sound
  refine ⟨s, hrun, hsound, fun hr => ?_, fun count hcount => ?_⟩
  · obtain ⟨b, rest, a, hlist, hcall, _⟩ := allocReserved_spec hs.inv hr
    have hb : b ∈ s.allocator.freeList := by
      rw [hlist]
      exact List.mem_cons_self
    have hbound := (hsound.cover b).mp (Or.inl hb)
    refine ⟨hlist ▸ List.cons_ne_nil b rest, b, a, hcall, popReserved_of_allocReserved hcall,
      hsound.disjoint b hb, ?_, ?_⟩
    · unfold kDummyBlockId
      omega
    · unfold kInvalidBlockId
      omega
  · rw [popMany_isSome]
    have hnonneg := hsound.reserved_nonneg
    unfold canReserve freeBlocks
    rw [decide_eq_true_iff]
    show _ ↔ (count + s.allocator.reserved).toNat ≤ s.allocator.freeList.length
    omega

/-- reserve two blocks of a pool of four, allocate one and return it -/
theorem allocator_contract_four :
    ∃ s, (fresh 4).run [.reserve 2, .allocReserved, .freeBlock 1] = some s ∧ s.Sound 4 := by
  have h : (fresh 4).Honours [.reserve 2, .allocReserved, .freeBlock 1] :=
    honours_cons ⟨by decide, rfl⟩ rfl
      (honours_cons (show (0 : Int) < 2 by decide) rfl (honours_cons List.mem_cons_self rfl trivial))
  obtain ⟨s, hrun, hsound, _⟩ := allocator_contract h
  exact ⟨s, hrun, hsound⟩

end Client
end BlockAllocator
end Redline
