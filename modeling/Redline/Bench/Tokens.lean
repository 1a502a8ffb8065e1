import Redline.Bench.Workload
import Redline.Lib.WordMix

/-!
# Two generators of one workload

`src/bench_main.cpp` draws its token ids with wrapping 64-bit words, `bench/workload.py` with masks
on integers without a bound.

* `splitMix64_bijective`    the mixer loses nothing;
* `splitmix64_word`         the mixer of the harness, on a word;
* `prompts_agree`           the prompts of a workload;
* `generators_agree`        the two draw the same ids, from the same word exactly when their keys are
                            the same modulo 2^64, and build the same prompts.
-/

namespace Redline
namespace BenchMain
open WordMix

def splitMix64 (x : BitVec 64) : BitVec 64 :=
  let x := x + 0x9E3779B97F4A7C15#64
  let x := (x ^^^ (x >>> 30)) * 0xBF58476D1CE4E5B9#64
  let x := (x ^^^ (x >>> 27)) * 0x94D049BB133111EB#64
  x ^^^ (x >>> 31)

/-- the word that is mixed -/
def packedKey (seed requestId position : BitVec 64) : BitVec 64 :=
  (seed <<< 40) ^^^ (requestId <<< 20) ^^^ position

def workloadTokenId (seed requestId position : BitVec 64) : BitVec 32 :=
  (1000#64 + splitMix64 (packedKey seed requestId position) % 99000#64).setWidth 32

def buildPrompt (seed requestIndex : BitVec 64) (promptLen : Nat) : List (BitVec 32) :=
  (List.range promptLen).map fun p => workloadTokenId seed requestIndex (BitVec.ofNat 64 p)

/-! ## the mixer -/

theorem splitMix64_bijective : Function.Bijective splitMix64 := by
  have h1 : Function.Injective fun x : BitVec 64 => x * 0xBF58476D1CE4E5B9#64 :=
    mul_injective (show 0xBF58476D1CE4E5B9#64 * 0x96de1b173f119089#64 = 1#64 by decide)
  have h2 : Function.Injective fun x : BitVec 64 => x * 0x94D049BB133111EB#64 :=
    mul_injective (show 0x94D049BB133111EB#64 * 0x319642b2d24d8ec3#64 = 1#64 by decide)
  have hsteps : splitMix64 = xorShift 31 ∘ (· * 0x94D049BB133111EB#64) ∘ xorShift 27 ∘
      (· * 0xBF58476D1CE4E5B9#64) ∘ xorShift 30 ∘ (· + 0x9E3779B97F4A7C15#64) := rfl
  refine bijective_of_injective ?_
  rw [hsteps]
  exact (xorShift_injective (by decide)).comp (h2.comp ((xorShift_injective (by decide)).comp
    (h1.comp ((xorShift_injective (by decide)).comp (add_injective _)))))

/-! ## integers as words -/

theorem land_mask64 (n : Nat) : Int.land n RunBench.mask64 = ((n % 2 ^ 64 : Nat) : Int) := by
  show (((n &&& (2 ^ 64 - 1) : Nat)) : Int) = _
  rw [Nat.and_two_pow_sub_one_eq_mod]

theorem xorShift_toNat (k : Nat) (x : BitVec 64) :
    Int.xor (x.toNat : Int) ((x.toNat : Int) >>> k) = ((x ^^^ (x >>> k)).toNat : Int) := by
  rw [BitVec.toNat_xor, BitVec.toNat_ushiftRight]
  rfl

theorem land_add_mask64 (x : BitVec 64) (c : Nat) :
    Int.land ((x.toNat : Int) + (c : Int)) RunBench.mask64 = ((x + BitVec.ofNat 64 c).toNat : Int) := by
  rw [← Nat.cast_add, land_mask64, BitVec.toNat_add, BitVec.toNat_ofNat, Nat.add_mod_mod]

theorem land_mul_mask64 (x : BitVec 64) (c : Nat) :
    Int.land ((x.toNat : Int) * (c : Int)) RunBench.mask64 = ((x * BitVec.ofNat 64 c).toNat : Int) := by
  rw [← Nat.cast_mul, land_mask64, BitVec.toNat_mul, BitVec.toNat_ofNat, Nat.mul_mod_mod]

/-- the mixer of the harness is the mixer of words -/
theorem splitmix64_word (x : BitVec 64) : RunBench.splitmix64 (x.toNat : Int)
    = ((splitMix64 x).toNat : Int) := by
  have hadd : Int.land ((x.toNat : Int) + 0x9E3779B97F4A7C15) RunBench.mask64
      = ((x + 0x9E3779B97F4A7C15#64).toNat : Int) := land_add_mask64 x 0x9E3779B97F4A7C15
  have hmul1 : ∀ y : BitVec 64, Int.land ((y.toNat : Int) * 0xBF58476D1CE4E5B9) RunBench.mask64
      = ((y * 0xBF58476D1CE4E5B9#64).toNat : Int) := fun y => land_mul_mask64 y 0xBF58476D1CE4E5B9
  have hmul2 : ∀ y : BitVec 64, Int.land ((y.toNat : Int) * 0x94D049BB133111EB) RunBench.mask64
      = ((y * 0x94D049BB133111EB#64).toNat : Int) := fun y => land_mul_mask64 y 0x94D049BB133111EB
  simp only [RunBench.splitmix64, hadd, xorShift_toNat, hmul1, hmul2]
  rfl

/-! ## keys -/

/-- `(seed << 40) ^ (request << 20) ^ position`, without a bound -/
def wideKey (seed requestId position : Nat) : Nat := (seed <<< 40) ^^^ (requestId <<< 20) ^^^ position

theorem packedKey_toNat (s r p : BitVec 64) :
    (packedKey s r p).toNat = wideKey s.toNat r.toNat p.toNat % 2 ^ 64 := by
  unfold packedKey wideKey
  rw [BitVec.toNat_xor, BitVec.toNat_xor, BitVec.toNat_shiftLeft, BitVec.toNat_shiftLeft,
    Nat.xor_mod_two_pow, Nat.xor_mod_two_pow, Nat.mod_eq_of_lt p.isLt]

/-- a key has no more of its parts than their words -/
theorem packedKey_ofNat (s r p : Nat) :
    (packedKey (BitVec.ofNat 64 s) (BitVec.ofNat 64 r) (BitVec.ofNat 64 p)).toNat
      = wideKey s r p % 2 ^ 64 := by
  rw [packedKey_toNat]
  simp only [wideKey, BitVec.toNat_ofNat, Nat.xor_mod_two_pow, Nat.shiftLeft_eq, Nat.mod_mul_mod,
    Nat.mod_mod]

/-- the key of the harness is the key of words -/
theorem land_wideKey (s r p : Nat) :
    Int.land (Int.xor (Int.xor ((s : Int) <<< (40 : Nat)) ((r : Int) <<< (20 : Nat))) (p : Int)) RunBench.mask64 =
      ((packedKey (BitVec.ofNat 64 s) (BitVec.ofNat 64 r) (BitVec.ofNat 64 p)).toNat : Int) := by
  rw [packedKey_ofNat]
  exact land_mask64 (wideKey s r p)

/-! ## drawn ids -/

theorem workloadTokenId_toNat (s r p : BitVec 64) :
    (workloadTokenId s r p).toNat = 1000 + (splitMix64 (packedKey s r p)).toNat % 99000 := by
  have hlt : (splitMix64 (packedKey s r p)).toNat % 99000 < 99000 := Nat.mod_lt _ (by decide)
  unfold workloadTokenId
  rw [BitVec.toNat_setWidth, BitVec.toNat_add, BitVec.toNat_umod]
  show (1000 + (splitMix64 (packedKey s r p)).toNat % 99000) % 2 ^ 64 % 2 ^ 32 = _
  omega

theorem workloadTokenId_toInt (s r p : BitVec 64) :
    (workloadTokenId s r p).toInt = 1000 + ((splitMix64 (packedKey s r p)).toNat % 99000 : Nat) := by
  have hnat := workloadTokenId_toNat s r p
  have hlt : (splitMix64 (packedKey s r p)).toNat % 99000 < 99000 := Nat.mod_lt _ (by decide)
  rw [BitVec.toInt_eq_toNat_of_lt (by omega), hnat]
  rfl

theorem tokenId_word (s r p : Nat) : RunBench.tokenId s r p =
    (workloadTokenId (BitVec.ofNat 64 s) (BitVec.ofNat 64 r) (BitVec.ofNat 64 p)).toInt := by
  unfold RunBench.tokenId
  rw [workloadTokenId_toInt]
  simp only [land_wideKey, splitmix64_word]
  rfl

/-- the prompts of a synthetic workload are the ones the harness of the engine builds -/
theorem prompts_agree (name : String) (shape : RunBench.Shape) (seed : BitVec 64) :
    (RunBench.syntheticWorkload name shape seed.toNat).requests.map (·.promptTokenIds) =
      (List.range shape.numRequests).map fun r =>
        (buildPrompt seed (BitVec.ofNat 64 r) shape.inputLen).map BitVec.toInt := by
  unfold RunBench.syntheticWorkload buildPrompt
  simp only [List.map_map]
  refine List.map_congr_left fun r _ => ?_
  simp only [Function.comp_apply]
  refine List.map_congr_left fun p _ => ?_
  rw [Function.comp_apply, tokenId_word, BitVec.ofNat_toNat, BitVec.setWidth_eq]

/-- the two sides draw the same id, within the range, and the same word exactly when the keys are the same;
so they build the same prompts -/
theorem generators_agree :
    (∀ seed requestId position : BitVec 64,
      RunBench.tokenId seed.toNat requestId.toNat position.toNat
        = (workloadTokenId seed requestId position).toInt ∧
        1000 ≤ (workloadTokenId seed requestId position).toInt ∧
        (workloadTokenId seed requestId position).toInt < 100000) ∧
    Function.Bijective splitMix64 ∧
    (∀ x : BitVec 64, RunBench.splitmix64 x.toNat = ((splitMix64 x).toNat : Int)) ∧
    (∀ s r p s' r' p' : BitVec 64, splitMix64 (packedKey s r p) = splitMix64 (packedKey s' r' p') ↔
      wideKey s.toNat r.toNat p.toNat % 2 ^ 64 = wideKey s'.toNat r'.toNat p'.toNat % 2 ^ 64) ∧
    ∀ (name : String) (shape : RunBench.Shape) (seed : BitVec 64),
      (RunBench.syntheticWorkload name shape seed.toNat).requests.map (·.promptTokenIds) =
        (List.range shape.numRequests).map fun r =>
          (buildPrompt seed (BitVec.ofNat 64 r) shape.inputLen).map BitVec.toInt := by
  refine ⟨fun s r p => ⟨?_, ?_, ?_⟩, splitMix64_bijective, splitmix64_word, ?_, prompts_agree⟩
  · rw [tokenId_word]
    simp only [BitVec.ofNat_toNat, BitVec.setWidth_eq]
  · rw [workloadTokenId_toInt]
    omega
  · rw [workloadTokenId_toInt]
    omega
  · intro s r p s' r' p'
    rw [splitMix64_bijective.injective.eq_iff, ← BitVec.toNat_inj, packedKey_toNat, packedKey_toNat]

end BenchMain
end Redline
