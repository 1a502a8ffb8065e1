import Mathlib.Algebra.BigOperators.Group.Multiset.Basic
import Mathlib.Algebra.Order.BigOperators.Group.List
import Mathlib.Algebra.Order.Monoid.Unbundled.Basic
import Mathlib.Logic.Function.Basic
import Mathlib.Tactic.Common

/-!
# Ledgers: what a list of holders holds together

`held f h l` adds up `f (h i)` over the holders `i` of `l`, in any commutative monoid: numbers
for counters, multisets for resources.  One record changes at a time (`Function.update`), and
`held_update_mid` says what that does to the sum.  `held_coe`, `held_single` read a sum of
multisets back as one list, so that a conservation law stated with `held` is a `List.Perm`.
-/

namespace Ledger
variable {ι α β M : Type*} [AddCommMonoid M]

/-- what the holders `l` hold together -/
def held (f : α → M) (h : ι → α) (l : List ι) : M := (l.map fun i => f (h i)).sum

section
variable (f : α → M) (h h' : ι → α)

@[simp] theorem held_nil : held f h [] = 0 := rfl

@[simp] theorem held_cons (i : ι) (l : List ι) : held f h (i :: l) = f (h i) + held f h l := by
  simp [held]

@[simp] theorem held_append (l l' : List ι) :
    held f h (l ++ l') = held f h l + held f h l' := by
  simp [held]

variable {f h h'}

theorem held_congr {l : List ι} (e : ∀ i ∈ l, f (h i) = f (h' i)) : held f h l = held f h' l := by
  unfold held
  rw [List.map_congr_left e]

theorem held_zero {l : List ι} (e : ∀ i ∈ l, f (h i) = 0) : held f h l = 0 := by
  induction l with
  | nil => rfl
  | cons i l ih =>
    rw [held_cons, e i List.mem_cons_self, ih fun j hj => e j (List.mem_cons_of_mem _ hj), add_zero]

/-- what the holders hold is counted by a homomorphism one by one -/
theorem held_hom {N : Type*} [AddCommMonoid N] (φ : M →+ N) (f : α → M) (h : ι → α) (l : List ι) :
    φ (held f h l) = held (fun x => φ (f x)) h l := by
  induction l with
  | nil => exact map_zero φ
  | cons i l ih => rw [held_cons, held_cons, map_add, ih]

theorem held_add (f g : α → M) (h : ι → α) (l : List ι) :
    held (fun x => f x + g x) h l = held f h l + held g h l := by
  induction l with
  | nil => exact (add_zero _).symm
  | cons i l ih => rw [held_cons, held_cons, held_cons, ih, add_add_add_comm]

theorem held_le_held {g : α → M} [Preorder M] [AddLeftMono M] [AddRightMono M] {l : List ι}
    (e : ∀ i ∈ l, f (h i) ≤ g (h' i)) : held f h l ≤ held g h' l := List.sum_le_sum e

theorem held_lt_held [Preorder M] [AddLeftMono M] [AddRightMono M] [AddLeftStrictMono M]
    [AddRightStrictMono M] {l : List ι} (e : ∀ i ∈ l, f (h i) ≤ f (h' i))
    (e' : ∃ i ∈ l, f (h i) < f (h' i)) : held f h l < held f h' l := List.sum_lt_sum _ _ e e'

theorem held_nonneg [Preorder M] [AddLeftMono M] {l : List ι} (e : ∀ i ∈ l, 0 ≤ f (h i)) :
    0 ≤ held f h l := by
  induction l with
  | nil => exact le_refl _
  | cons i l ih =>
    rw [held_cons]
    exact add_nonneg (e i List.mem_cons_self) (ih fun j hj => e j (List.mem_cons_of_mem _ hj))

end

section
variable [DecidableEq ι] (f : α → M) (h : ι → α)

/-- a record outside the list does not count -/
theorem held_update_out {i : ι} (x : α) {l : List ι} (hi : i ∉ l) :
    held f (Function.update h i x) l = held f h l := by
  apply held_congr
  intro j hj
  have hne : j ≠ i := fun e => hi (e ▸ hj)
  rw [Function.update_of_ne hne]

/-- a record of the list is exchanged -/
theorem held_update_mid {i : ι} (x : α) {a b : List ι} (ha : i ∉ a) (hb : i ∉ b) :
    held f (Function.update h i x) (a ++ i :: b) = f x + held f h (a ++ b) := by
  rw [held_append, held_cons, held_append, Function.update_self, held_update_out f h x ha,
    held_update_out f h x hb]
  exact add_left_comm _ _ _

omit [DecidableEq ι] in
theorem held_mid (i : ι) (a b : List ι) :
    held f h (a ++ i :: b) = f (h i) + held f h (a ++ b) := by
  rw [held_append, held_cons, held_append]
  exact add_left_comm _ _ _

omit [DecidableEq ι] in
/-- one record of a list without repetitions changes -/
theorem held_change {f : α → M} {h h' : ι → α} {i : ι} {l : List ι} (hn : l.Nodup) (hi : i ∈ l)
    (e : ∀ j ∈ l, j ≠ i → f (h' j) = f (h j)) : held f h' l + f (h i) = held f h l + f (h' i) := by
  obtain ⟨a, b, rfl⟩ := List.append_of_mem hi
  have hout := (List.nodup_cons.mp (List.perm_middle.nodup_iff.mp hn)).1
  have hrest : held f h' (a ++ b) = held f h (a ++ b) := by
    refine held_congr fun j hj => e j ?_ fun hji => hout (hji ▸ hj)
    exact List.perm_middle.mem_iff.mpr (List.mem_cons_of_mem _ hj)
  rw [held_mid, held_mid, hrest, add_comm (f (h' i)), add_comm (f (h i)), add_right_comm]

end

/-! ## sums of multisets, read as lists -/

theorem held_coe (g : α → List β) (h : ι → α) (l : List ι) :
    held (fun x => (g x : Multiset β)) h l = ((l.flatMap fun i => g (h i) : List β) : Multiset β) := by
  induction l with
  | nil => rfl
  | cons i l ih => rw [held_cons, ih, List.flatMap_cons, Multiset.coe_add]

theorem held_single (g : α → β) (h : ι → α) (l : List ι) :
    held (fun x => ({g x} : Multiset β)) h l = ((l.map fun i => g (h i) : List β) : Multiset β) := by
  induction l with
  | nil => rfl
  | cons i l ih => rw [held_cons, ih, List.map_cons, Multiset.singleton_add, Multiset.cons_coe]

theorem mem_held {g : α → List β} {h : ι → α} {l : List ι} {b : β} :
    b ∈ held (fun x => (g x : Multiset β)) h l ↔ ∃ i ∈ l, b ∈ g (h i) := by
  rw [held_coe, Multiset.mem_coe, List.mem_flatMap]

end Ledger
