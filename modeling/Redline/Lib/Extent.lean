import Redline.Lib.Gemm
import Redline.Lib.Wrap
import Mathlib.Tactic.Linarith

/-!
# Extents of memory

An `Extent` is a range of addresses.  Regions that are packed one after the other are extents that are
apart from each other, and a strided operand lies in an extent once its first and its last element do.

* `offsetOf_within`, `offsetOf_apart`   the regions of a packing, by their keys;
* `Operand.inside`                      the elements of a strided operand.
-/

namespace Wrap

structure Extent where
  start : Int
  bytes : Int
  deriving DecidableEq, Repr

namespace Extent

def stop (e : Extent) : Int := e.start + e.bytes

/-- a cell of `bytes` bytes is inside -/
def Holds (e : Extent) (address bytes : Int) : Prop := e.start ≤ address ∧ address + bytes ≤ e.stop

def Within (e f : Extent) : Prop := f.Holds e.start e.bytes

def Apart (e f : Extent) : Prop := e.stop ≤ f.start ∨ f.stop ≤ e.start

end Extent

/-! ## packed regions -/

section
variable {align : Int}

theorem takeAll_length (A : Arith) (sizes : List Int) : ∀ (offset : Int),
    (takeAll A align offset sizes).1.length = sizes.length := by
  induction sizes with
  | nil => exact fun _ => rfl
  | cons bytes sizes ih => exact fun offset => congrArg (· + 1) (ih _)

variable (halign : 0 < align)
include halign

/-- the regions are between the start and the end, one behind the other -/
theorem takeAll_packed (sizes : List Int) : ∀ (offset : Int), (∀ bytes ∈ sizes, 0 ≤ bytes) →
    (∀ p ∈ (takeAll exact align offset sizes).1.zip sizes,
      offset ≤ p.1 ∧ p.1 + p.2 ≤ (takeAll exact align offset sizes).2) ∧
    ((takeAll exact align offset sizes).1.zip sizes).Pairwise fun p q => p.1 + p.2 ≤ q.1 := by
  induction sizes with
  | nil => exact fun _ _ => ⟨List.forall_mem_nil _, .nil⟩
  | cons bytes sizes ih =>
    intro offset hsizes
    have hend := (le_takeAll halign (bytes :: sizes) offset hsizes).2 bytes List.mem_cons_self
    rw [List.forall_mem_cons] at hsizes
    obtain ⟨hrest, hpairs⟩ := ih (offset + alignUp exact bytes align) hsizes.2
    have hup := (le_alignUp halign hsizes.1).1
    have hzip : (takeAll exact align offset (bytes :: sizes)).1.zip (bytes :: sizes)
        = (offset, bytes) :: (takeAll exact align (offset + alignUp exact bytes align) sizes).1.zip sizes := rfl
    have hstop : (takeAll exact align offset (bytes :: sizes)).2
        = (takeAll exact align (offset + alignUp exact bytes align) sizes).2 := rfl
    have hbytes := hsizes.1
    rw [hzip, List.forall_mem_cons, List.pairwise_cons]
    refine ⟨⟨⟨le_refl _, hend⟩, fun p hp => ?_⟩, fun p hp => ?_, hpairs⟩
    · rw [hstop]
      exact ⟨by linarith [(hrest p hp).1], (hrest p hp).2⟩
    · show offset + bytes ≤ p.1
      linarith [(hrest p hp).1]

omit halign
variable {κ : Type*} [BEq κ] [LawfulBEq κ] {keys : List κ} {bytes : κ → Int}

/-- the offset of a region in the packing of all -/
def offsetOf (A : Arith) (align : Int) (keys : List κ) (bytes : κ → Int) (key : κ) : Int :=
  (takeAll A align 0 (keys.map bytes)).1.getD (keys.idxOf key) 0

/-- a region with its bytes, at its place in the packing -/
theorem offsetOf_at (align : Int) (bytes : κ → Int) {key : κ} (hkey : key ∈ keys) :
    ((takeAll exact align 0 (keys.map bytes)).1.zip (keys.map bytes))[keys.idxOf key]?
      = some (offsetOf exact align keys bytes key, bytes key) := by
  have hlt : keys.idxOf key < keys.length := List.idxOf_lt_length_of_mem hkey
  have hoffset : keys.idxOf key < (takeAll exact align 0 (keys.map bytes)).1.length := by
    rw [takeAll_length exact, List.length_map]
    exact hlt
  rw [List.getElem?_zip_eq_some]
  constructor
  · unfold offsetOf
    rw [List.getD_eq_getElem?_getD, List.getElem?_eq_getElem hoffset]
    rfl
  · rw [List.getElem?_map, List.getElem?_eq_getElem hlt, List.getElem_idxOf]
    rfl

include halign

variable (hbytes : ∀ key ∈ keys, 0 ≤ bytes key)
include hbytes

theorem offsetOf_within {key : κ} (hkey : key ∈ keys) :
    0 ≤ offsetOf exact align keys bytes key ∧
      offsetOf exact align keys bytes key + bytes key ≤ (takeAll exact align 0 (keys.map bytes)).2 :=
  (takeAll_packed halign (keys.map bytes) 0 (List.forall_mem_map.mpr hbytes)).1 _
    (List.mem_of_getElem? (offsetOf_at align bytes hkey))

/-- **Two regions of a packing** are apart. -/
theorem offsetOf_apart {key key' : κ} (hkey : key ∈ keys) (hkey' : key' ∈ keys) (hne : key ≠ key') :
    (Extent.mk (offsetOf exact align keys bytes key) (bytes key)).Apart
      ⟨offsetOf exact align keys bytes key', bytes key'⟩ := by
  have hpairs := (takeAll_packed halign (keys.map bytes) 0 (List.forall_mem_map.mpr hbytes)).2
  obtain ⟨hi, hget⟩ := List.getElem?_eq_some_iff.mp (offsetOf_at align bytes hkey)
  obtain ⟨hj, hget'⟩ := List.getElem?_eq_some_iff.mp (offsetOf_at align bytes hkey')
  have hidx : keys.idxOf key ≠ keys.idxOf key' := fun heq => hne (List.idxOf_inj hkey |>.mp heq)
  rcases Nat.lt_or_gt_of_ne hidx with hlt | hlt
  · have hle := List.pairwise_iff_getElem.mp hpairs _ _ hi hj hlt
    rw [hget, hget'] at hle
    exact .inl hle
  · have hle := List.pairwise_iff_getElem.mp hpairs _ _ hj hi hlt
    rw [hget, hget'] at hle
    exact .inr hle

end
end Wrap

/-! ## strided operands -/

namespace StridedGemm
open Wrap

/-- the elements of an operand, of `size` bytes each from `pointer` on, are inside an extent -/
def Operand.Inside (x : Operand) (batch rows cols : Nat) (pointer size : Int) (e : Extent) : Prop :=
  ∀ z < batch, ∀ r < rows, ∀ c < cols, e.Holds (pointer + x.index z r c * size) size

/-- the index of the last element -/
def Operand.last (x : Operand) (batch rows cols : Nat) : Int :=
  (batch - 1 : Int) * x.stride + if x.transposed then (cols - 1 : Int) + (rows - 1 : Int) * x.ld
    else (rows - 1 : Int) + (cols - 1 : Int) * x.ld

theorem Operand.last_normal {x : Operand} (h : x.transposed = false) (batch rows cols : Nat) :
    x.last batch rows cols = (batch - 1 : Int) * x.stride +
      ((rows - 1 : Int) + (cols - 1 : Int) * x.ld) := by
  unfold last
  rw [if_neg (by rw [h]; decide)]

theorem Operand.last_transposed {x : Operand} (h : x.transposed = true) (batch rows cols : Nat) :
    x.last batch rows cols = (batch - 1 : Int) * x.stride +
      ((cols - 1 : Int) + (rows - 1 : Int) * x.ld) := by
  unfold last
  rw [if_pos h]

section
variable {x : Operand} {batch rows cols : Nat} (hbase : x.base = 0) (hld : 0 ≤ x.ld)
    (hstride : 0 ≤ x.stride)
include hbase hld hstride

theorem Operand.index_bounds {z r c : Nat} (hz : z < batch) (hr : r < rows) (hc : c < cols) :
    0 ≤ x.index z r c ∧ x.index z r c ≤ x.last batch rows cols := by
  have hbatch : (z : Int) * x.stride ≤ (batch - 1 : Int) * x.stride :=
    mul_le_mul_of_nonneg_right (by omega) hstride
  have hrow : (r : Int) * x.ld ≤ (rows - 1 : Int) * x.ld := mul_le_mul_of_nonneg_right (by omega) hld
  have hcol : (c : Int) * x.ld ≤ (cols - 1 : Int) * x.ld := mul_le_mul_of_nonneg_right (by omega) hld
  have hz0 : 0 ≤ (z : Int) * x.stride := by positivity
  have hr0 : 0 ≤ (r : Int) * x.ld := by positivity
  have hc0 : 0 ≤ (c : Int) * x.ld := by positivity
  unfold index last
  rw [hbase]
  split <;> omega

/-- the first element and the last one are inside -/
theorem Operand.inside {pointer size : Int} {e : Extent} (hsize : 0 ≤ size) (hstart : e.start ≤ pointer)
    (hlast : pointer + (x.last batch rows cols + 1) * size ≤ e.stop) :
    x.Inside batch rows cols pointer size e := by
  intro z hz r hr c hc
  obtain ⟨h0, hle⟩ := Operand.index_bounds hbase hld hstride hz hr hc
  have hfirst : 0 ≤ x.index z r c * size := mul_nonneg h0 hsize
  have hindex : (x.index z r c + 1) * size ≤ (x.last batch rows cols + 1) * size :=
    mul_le_mul_of_nonneg_right (by omega) hsize
  rw [add_mul, one_mul] at hindex
  exact ⟨by omega, by omega⟩

end
end StridedGemm
