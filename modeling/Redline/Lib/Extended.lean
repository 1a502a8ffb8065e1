import Mathlib.Algebra.BigOperators.Group.Finset.Basic
import Mathlib.Algebra.Order.Field.Basic
import Mathlib.Data.Sign.Defs
import Mathlib.Data.Multiset.Fold

/-!
# Exact numbers with infinities and NaN

`Extended K` is a field with `-inf`, `inf` and an absorbing NaN.

* the sums are a commutative monoid: their order and grouping do not matter, NaN or not;
* `fmax` ignores a NaN, as the device's `fmaxf` does, and is commutative and associative;
* `exp e` takes the exponential `e` of the finite numbers as a parameter.
-/

inductive Extended (K : Type*) where
  | nan
  | negInf
  | posInf
  | real (x : K)
  deriving DecidableEq, Repr

namespace Extended
variable {K : Type*}

/-! ## sums and exponentials -/

section
variable [Field K]

def add : Extended K → Extended K → Extended K
  | nan, _ | _, nan => nan
  | real x, real y => real (x + y)
  | negInf, posInf | posInf, negInf => nan
  | negInf, _ | _, negInf => negInf
  | posInf, _ | _, posInf => posInf

def neg : Extended K → Extended K
  | nan => nan
  | negInf => posInf
  | posInf => negInf
  | real x => real (-x)

def exp (e : K → K) : Extended K → Extended K
  | nan => nan
  | negInf => real 0
  | posInf => posInf
  | real x => real (e x)

instance : Zero (Extended K) := ⟨real 0⟩
instance : Add (Extended K) := ⟨add⟩
instance : Sub (Extended K) := ⟨fun x y => add x (neg y)⟩

/-- the number, where there is one -/
def val : Extended K → K
  | real x => x
  | _ => 0

theorem real_val {x : Extended K} (h : ∃ y, x = real y) : x = real x.val := by
  obtain ⟨y, rfl⟩ := h
  rfl

theorem real_add (x y : K) : real x + real y = real (x + y) := rfl

theorem real_sub (x y : K) : real x - real y = real (x - y) :=
  congrArg real (sub_eq_add_neg x y).symm

theorem negInf_sub (y : K) : negInf - real y = negInf := rfl

@[simp] theorem exp_real (e : K → K) (x : K) : exp e (real x) = real (e x) := rfl

@[simp] theorem exp_negInf (e : K → K) : exp e negInf = real 0 := rfl

instance : AddCommMonoid (Extended K) where
  add_assoc x y z := by
    show add (add x y) z = add x (add y z)
    cases x <;> cases y <;> cases z <;> simp only [add, add_assoc]
  zero_add x := by
    show add (real 0) x = x
    cases x <;> simp only [add, zero_add]
  add_zero x := by
    show add x (real 0) = x
    cases x <;> simp only [add, add_zero]
  add_comm x y := by
    show add x y = add y x
    cases x <;> cases y <;> simp only [add, add_comm]
  nsmul := nsmulRec

def realHom : K →+ Extended K where
  toFun := real
  map_zero' := rfl
  map_add' _ _ := rfl

theorem sum_real {ι : Type*} (s : Finset ι) (f : ι → K) : ∑ i ∈ s, real (f i) = real (∑ i ∈ s, f i) :=
  (map_sum realHom f s).symm

theorem sum_finite {ι : Type*} {l : List ι} {f : ι → Extended K} (h : ∀ i ∈ l, ∃ x, f i = real x) :
    ∃ x, (l.map f).sum = real x := by
  induction l with
  | nil => exact ⟨0, rfl⟩
  | cons i l ih =>
    rw [List.forall_mem_cons] at h
    obtain ⟨⟨x, hx⟩, hl⟩ := h
    obtain ⟨y, hy⟩ := ih hl
    refine ⟨x + y, ?_⟩
    rw [List.map_cons, List.sum_cons, hx, hy]
    rfl

end

/-! ## products -/

section
variable [Field K] [LinearOrder K]

def sign : Extended K → SignType
  | nan => 0
  | negInf => -1
  | posInf => 1
  | real x => SignType.sign x

/-- the infinity of a sign; there is none for zero -/
def infinite : SignType → Extended K
  | .zero => nan
  | .neg => negInf
  | .pos => posInf

def mul : Extended K → Extended K → Extended K
  | nan, _ | _, nan => nan
  | real x, real y => real (x * y)
  | x, y => infinite (x.sign * y.sign)

def div : Extended K → Extended K → Extended K
  | nan, _ | _, nan => nan
  | real x, real y => if y = 0 then infinite (SignType.sign x) else real (x / y)
  | real _, _ => real 0
  | x, real y => infinite (x.sign * if y = 0 then 1 else SignType.sign y)
  | _, _ => nan

instance : Mul (Extended K) := ⟨mul⟩
instance : Div (Extended K) := ⟨div⟩

def fma (x y z : Extended K) : Extended K := x * y + z

theorem real_mul (x y : K) : real x * real y = real (x * y) := rfl

/-- a chain of `fma` is a sum of products -/
theorem foldl_fma {ι : Type*} (l : List ι) (f g : ι → Extended K) (z : Extended K) :
    l.foldl (fun acc i => fma (f i) (g i) acc) z = z + (l.map fun i => f i * g i).sum := by
  induction l generalizing z with
  | nil => exact (add_zero z).symm
  | cons i l ih =>
    rw [List.foldl_cons, ih, List.map_cons, List.sum_cons, ← add_assoc]
    unfold fma
    rw [add_comm (f i * g i) z]

end

/-! ## the larger one -/

section
variable [LinearOrder K]

/-- a NaN is ignored -/
def fmax : Extended K → Extended K → Extended K
  | nan, y => y
  | x, nan => x
  | negInf, y => y
  | x, negInf => x
  | real x, real y => real (max x y)
  | _, _ => posInf

theorem nan_fmax (y : Extended K) : fmax nan y = y := by cases y <;> rfl

instance : Std.Commutative (fmax (K := K)) where
  comm x y := by cases x <;> cases y <;> simp only [fmax, max_comm]

instance : Std.Associative (fmax (K := K)) where
  assoc x y z := by cases x <;> cases y <;> cases z <;> simp only [fmax, max_assoc]

/-- `x < y`; a NaN is below nothing and nothing is below it -/
def below : Extended K → Extended K → Bool
  | nan, _ | _, nan => false
  | real x, real y => decide (x < y)
  | _, negInf | posInf, _ => false
  | negInf, _ | _, posInf => true

theorem nan_below (y : Extended K) : below nan y = false := by cases y <;> rfl

end
end Extended
