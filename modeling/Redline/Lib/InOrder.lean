import Mathlib.Logic.Function.Basic
import Mathlib.Tactic.Common

/-!
# Items that read a memory and write one cell each

`run cell f items m` takes the items in order: `f i m` is what item `i` writes, at `cell i`, and
what it yields.

* `run_frame`   a cell that no item writes keeps what it holds;
* `run_final`   an item that nothing later disturbs is explained by the memory of the end: it wrote,
                and yielded, what it would write and yield there.

So the outcome of a run is a fixed point that does not mention the order, and anything that solves
the same equations agrees with it (another order of the same work, or the work cut into layers).
-/

namespace InOrder
variable {ι A K O : Type*} [DecidableEq A]

def run (cell : ι → A) (f : ι → (A → K) → K × O) : List ι → (A → K) → List O × (A → K)
  | [], m => ([], m)
  | i :: items, m =>
    let v := f i m
    let rest := run cell f items (Function.update m (cell i) v.1)
    (v.2 :: rest.1, rest.2)

variable {cell : ι → A} {f : ι → (A → K) → K × O}

theorem run_append (as bs : List ι) : ∀ m, run cell f (as ++ bs) m =
    ((run cell f as m).1 ++ (run cell f bs (run cell f as m).2).1,
      (run cell f bs (run cell f as m).2).2) := by
  induction as with
  | nil => exact fun m => rfl
  | cons i as ih =>
    intro m
    show (_ :: (run cell f (as ++ bs) _).1, (run cell f (as ++ bs) _).2) = _
    rw [ih]
    rfl

theorem length_run (items : List ι) : ∀ m, (run cell f items m).1.length = items.length := by
  induction items with
  | nil => exact fun m => rfl
  | cons i items ih => exact fun m => congrArg Nat.succ (ih _)

/-- **A cell that no item writes** keeps what it holds. -/
theorem run_frame {a : A} : ∀ {items : List ι} (m : A → K), (∀ i ∈ items, cell i ≠ a) →
    (run cell f items m).2 a = m a := by
  intro items
  induction items with
  | nil => exact fun m _ => rfl
  | cons i items ih =>
    intro m h
    have hi : a ≠ cell i := (h i List.mem_cons_self).symm
    refine (ih _ fun j hj => h j (List.mem_cons_of_mem _ hj)).trans ?_
    rw [Function.update_of_ne hi]

/-- item `i` looks at the memory in `reads` only -/
def Looks (f : ι → (A → K) → K × O) (i : ι) (reads : A → Prop) : Prop :=
  ∀ m m', (∀ a, reads a → m a = m' a) → f i m = f i m'

/-- **An undisturbed item** is explained by the memory of the end. -/
theorem run_final (pre post : List ι) {i : ι} {reads : A → Prop} (hf : Looks f i reads)
    (hown : ¬ reads (cell i)) (hpost : ∀ j ∈ post, cell j ≠ cell i ∧ ¬ reads (cell j)) (m : A → K) :
    (run cell f (pre ++ i :: post) m).2 (cell i) = (f i (run cell f (pre ++ i :: post) m).2).1 ∧
      (run cell f (pre ++ i :: post) m).1[pre.length]?
        = some (f i (run cell f (pre ++ i :: post) m).2).2 := by
  rw [run_append]
  -- what the item finds, and what is left of it
  generalize hd : (run cell f pre m).2 = d
  have hsame : f i (run cell f (i :: post) d).2 = f i d := by
    refine hf _ _ fun a ha => ?_
    have hne : a ≠ cell i := fun e => hown (e ▸ ha)
    have hlater : ∀ j ∈ post, cell j ≠ a := fun j hj e => (hpost j hj).2 (e ▸ ha)
    refine (run_frame _ hlater).trans ?_
    rw [Function.update_of_ne hne]
  refine ⟨?_, ?_⟩
  · rw [hsame]
    refine (run_frame _ fun j hj => (hpost j hj).1).trans ?_
    rw [Function.update_self]
  · rw [hsame, List.getElem?_append_right (Nat.le_of_eq (length_run pre m)), length_run,
      Nat.sub_self]
    rfl

end InOrder
