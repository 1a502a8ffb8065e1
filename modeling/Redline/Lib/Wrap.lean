import Mathlib.Tactic.Common
import Mathlib.Algebra.BigOperators.Group.List.Basic
import Mathlib.Tactic.Ring

/-!
# Machine integers

A computation over 32-bit and 64-bit integers, written once: `Arith.machine` lets every result wrap,
`Arith.exact` keeps it.

* `wrap_of_lt`, `wrap_lt`     a result in range is kept, and only such a result can be exact;
* `alignUp`, `takeAll`        rounding up to an alignment, and regions packed one after the other;
* `takeAll_machine`           a packing whose exact end is in range is exact.
-/

namespace Wrap

/-- two's complement -/
def wrap (bits : Nat) (x : Int) : Int := x.bmod (2 ^ (bits + 1))

theorem wrap_lt (bits : Nat) (x : Int) : wrap bits x < 2 ^ bits := by
  have h := Int.bmod_lt (x := x) (m := 2 ^ (bits + 1)) (Nat.two_pow_pos _)
  have hhalf : ((2 ^ (bits + 1) + 1 : Nat) : Int) / 2 = 2 ^ bits := by
    rw [pow_succ]
    push_cast
    omega
  unfold wrap
  calc x.bmod (2 ^ (bits + 1)) < ((2 ^ (bits + 1) : Nat) + 1 : Int) / 2 := h
    _ = 2 ^ bits := hhalf

theorem wrap_of_lt {bits : Nat} {x : Int} (h0 : 0 ≤ x) (h : x < 2 ^ bits) : wrap bits x = x := by
  have hpow : ((2 ^ (bits + 1) : Nat) : Int) = 2 * 2 ^ bits := by
    push_cast
    ring
  have hmod : x % ((2 ^ (bits + 1) : Nat) : Int) = x := Int.emod_eq_of_lt h0 (by omega)
  unfold wrap
  rw [Int.bmod_eq_emod_of_lt, hmod]
  rw [hmod, hpow]
  omega

/-- the results of a computation, by their type -/
structure Arith where
  int32 : Int → Int
  int64 : Int → Int

def machine : Arith := ⟨wrap 31, wrap 63⟩

def exact : Arith := ⟨id, id⟩

theorem machine_int64 {x : Int} (h0 : 0 ≤ x) (h : x < 2 ^ 63) : machine.int64 x = x := wrap_of_lt h0 h

theorem machine_int32 {x : Int} (h0 : 0 ≤ x) (h : x < 2 ^ 31) : machine.int32 x = x := wrap_of_lt h0 h

@[simp] theorem exact_int64 (x : Int) : exact.int64 x = x := rfl

@[simp] theorem exact_int32 (x : Int) : exact.int32 x = x := rfl

/-! ## packing -/

/-- `(bytes + align - 1) / align * align` -/
def alignUp (A : Arith) (bytes align : Int) : Int :=
  A.int64 ((A.int64 (A.int64 (bytes + align) - 1)).tdiv align * align)

/-- regions at an alignment, one after the other: their offsets, and the end -/
def takeAll (A : Arith) (align : Int) : Int → List Int → List Int × Int
  | offset, [] => ([], offset)
  | offset, bytes :: rest =>
    let after := takeAll A align (A.int64 (offset + alignUp A bytes align)) rest
    (offset :: after.1, after.2)

section
variable {align : Int} (halign : 0 < align)
include halign

theorem alignUp_exact {bytes : Int} (h0 : 0 ≤ bytes) :
    alignUp exact bytes align = (bytes + align - 1) / align * align :=
  congrArg (· * align) (Int.tdiv_eq_ediv_of_nonneg (by simp only [exact_int64]; omega))

theorem le_alignUp {bytes : Int} (h0 : 0 ≤ bytes) :
    bytes ≤ alignUp exact bytes align ∧ alignUp exact bytes align < bytes + align := by
  rw [alignUp_exact halign h0]
  have hdiv := Int.ediv_mul_add_emod (bytes + align - 1) align
  have hlo := Int.emod_nonneg (bytes + align - 1) (Int.ne_of_gt halign)
  have hhi := Int.emod_lt_of_pos (bytes + align - 1) halign
  omega

theorem alignUp_machine {bytes : Int} (h0 : 0 ≤ bytes) (h : bytes + align < 2 ^ 63) :
    alignUp machine bytes align = alignUp exact bytes align := by
  have hlt := le_alignUp halign h0
  have hstep : machine.int64 (machine.int64 (bytes + align) - 1) = bytes + align - 1 := by
    rw [machine_int64 (by omega) h, machine_int64 (by omega) (by omega)]
  have hexact : alignUp exact bytes align = (bytes + align - 1).tdiv align * align := rfl
  unfold alignUp
  rw [hstep, ← hexact, machine_int64 (by omega) (by omega)]
  rfl

omit halign in
theorem takeAll_end (sizes : List Int) : ∀ {offset : Int}, (takeAll exact align offset sizes).2
    = offset + (sizes.map fun bytes => alignUp exact bytes align).sum := by
  induction sizes with
  | nil => exact fun {offset} => (add_zero offset).symm
  | cons bytes sizes ih =>
    intro offset
    rw [List.map_cons, List.sum_cons, ← add_assoc]
    exact ih

/-- the end of a packing is past its start and past every region -/
theorem le_takeAll (sizes : List Int) : ∀ (offset : Int), (∀ bytes ∈ sizes, 0 ≤ bytes) →
    offset ≤ (takeAll exact align offset sizes).2 ∧
      ∀ bytes ∈ sizes, offset + bytes ≤ (takeAll exact align offset sizes).2 := by
  induction sizes with
  | nil => exact fun _ _ => ⟨le_refl _, nofun⟩
  | cons bytes sizes ih =>
    intro offset hsizes
    rw [List.forall_mem_cons] at hsizes
    have hup := (le_alignUp halign hsizes.1).1
    obtain ⟨hend, hrest⟩ := ih (offset + alignUp exact bytes align) hsizes.2
    have hoffset : (takeAll exact align offset (bytes :: sizes)).2
        = (takeAll exact align (offset + alignUp exact bytes align) sizes).2 := rfl
    have hbytes := hsizes.1
    rw [hoffset, List.forall_mem_cons]
    refine ⟨by omega, by omega, fun bytes' hbytes' => ?_⟩
    have := hrest bytes' hbytes'
    omega

/-- **A packing whose end is in range is exact.** -/
theorem takeAll_machine (sizes : List Int) : ∀ {offset : Int}, 0 ≤ offset →
    (∀ bytes ∈ sizes, 0 ≤ bytes) →
    (takeAll exact align offset sizes).2 + align < 2 ^ 63 →
    takeAll machine align offset sizes = takeAll exact align offset sizes := by
  induction sizes with
  | nil => exact fun _ _ _ => rfl
  | cons bytes sizes ih =>
    intro offset hoffset hsizes hend
    have hhead := (le_takeAll halign (bytes :: sizes) offset hsizes).2 bytes List.mem_cons_self
    rw [List.forall_mem_cons] at hsizes
    have hup := le_alignUp halign hsizes.1
    have hnext : (takeAll exact align offset (bytes :: sizes)).2
        = (takeAll exact align (offset + alignUp exact bytes align) sizes).2 := rfl
    have hafter := (le_takeAll halign sizes (offset + alignUp exact bytes align) hsizes.2).1
    have hbytes := hsizes.1
    have hstep : machine.int64 (offset + alignUp machine bytes align)
        = offset + alignUp exact bytes align := by
      rw [alignUp_machine halign hsizes.1 (by omega), machine_int64 (by omega) (by omega)]
    unfold takeAll
    simp only [hstep, exact_int64]
    rw [ih (by omega) hsizes.2 (by omega)]

end
end Wrap
