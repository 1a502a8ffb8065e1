import Redline.Lib.Stores
import Mathlib.Algebra.BigOperators.Group.Finset.Basic
import Mathlib.Algebra.Ring.Defs

/-!
# Strided-batched matrix products in column-major storage

An operand is a matrix in a memory: element `(r, c)` of it as stored is at `r + c * ld`, batch `z` of
it `z * stride` further, and a transposed operand swaps `r` and `c`.

`Product.stores` are the stores of `D = alpha * op(A) * op(B)`, for every batch.
-/

namespace StridedGemm
variable {K : Type*} [CommSemiring K]

structure Operand where
  base : Int
  ld : Int
  transposed : Bool
  stride : Int

/-- the address of element `(r, c)` of the operand, in batch `z` -/
def Operand.index (x : Operand) (z r c : Nat) : Int :=
  x.base + z * x.stride + if x.transposed then (c : Int) + r * x.ld else (r : Int) + c * x.ld

/-- `D` is `m × n`, and `k` is summed over -/
structure Product where
  m : Nat
  n : Nat
  k : Nat
  batch : Nat
  a : Operand
  b : Operand
  d : Operand

def Product.value (p : Product) (memA memB : Int → K) (alpha : K) (z i j : Nat) : K :=
  alpha * ∑ l ∈ Finset.range p.k, memA (p.a.index z i l) * memB (p.b.index z l j)

def Product.cells (p : Product) : List (Nat × Nat × Nat) :=
  List.range p.batch ×ˢ List.range p.n ×ˢ List.range p.m

/-- the stores of the product, column after column -/
def Product.stores (p : Product) (memA memB : Int → K) (alpha : K) : List (Int × K) :=
  p.cells.map fun q => (p.d.index q.1 q.2.2 q.2.1, p.value memA memB alpha q.1 q.2.2 q.2.1)

end StridedGemm
