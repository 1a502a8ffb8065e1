import Mathlib.Tactic.Common

/-!
# BF16 to FP16

The scalar core of `loader/convert.hpp`: widen to FP32, then round to nearest even.
-/

namespace Redline

def bf16BitsToFp32Bits (bf16Bits : UInt16) : UInt32 := bf16Bits.toUInt32 <<< 16

def fp32BitsToFp16BitsRne (fp32Bits : UInt32) : UInt16 :=
  let sign := (fp32Bits >>> 16) &&& 0x8000
  let abs := fp32Bits &&& 0x7FFFFFFF
  if 0x7F800000 < abs then (sign ||| 0x7E00).toUInt16
  else if 0x47800000 ≤ abs then (sign ||| 0x7C00).toUInt16
  else
    let exp32 := abs >>> 23
    if 113 ≤ exp32 then
      -- a normal result: rebias, then add half and truncate, ties to even
      let rebased := abs - ((112 : UInt32) <<< 23)
      let lsb := (rebased >>> 13) &&& 1
      let rounded := rebased + 0x0FFF + lsb
      (sign ||| (rounded >>> 13)).toUInt16
    else if 102 ≤ exp32 then
      -- a subnormal result, on the grid of 2^-24
      let sig := 0x00800000 ||| (abs &&& 0x007FFFFF)
      let shift := 126 - exp32
      let q := sig >>> shift
      let rem := sig &&& (((1 : UInt32) <<< shift) - 1)
      let halfway := (1 : UInt32) <<< (shift - 1)
      let roundUp := halfway < rem ∨ rem = halfway ∧ q &&& 1 ≠ 0
      (sign ||| (q + if roundUp then 1 else 0)).toUInt16
    else sign.toUInt16

def bf16BitsToFp16BitsRne (bf16Bits : UInt16) : UInt16 :=
  fp32BitsToFp16BitsRne (bf16BitsToFp32Bits bf16Bits)

/-- above the FP16 maximum, infinities included -/
def bf16OverflowsFp16 (bf16Bits : UInt16) : Bool :=
  let abs := bf16Bits &&& 0x7FFF
  decide (0x4780 ≤ abs ∧ abs ≤ 0x7F80)

end Redline
