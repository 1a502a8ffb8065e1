import Mathlib.Data.Int.Bitwise
import Redline.Bench.Trial

/-!
# The fixed workloads

`bench/workload.py`: the token ids, `synthetic_workload` and the measured cases.

* `case_distinct`, `case_forced`   the requests of a case have distinct ids and one forced length.
-/

namespace Redline
namespace RunBench

/-! ## token ids -/

/-- `_MASK64` -/
def mask64 : Int := 2 ^ 64 - 1

/-- `_splitmix64`, over integers without a bound -/
def splitmix64 (x : Int) : Int :=
  let x := Int.land (x + 0x9E3779B97F4A7C15) mask64
  let x := Int.land (Int.xor x (x >>> (30 : Nat)) * 0xBF58476D1CE4E5B9) mask64
  let x := Int.land (Int.xor x (x >>> (27 : Nat)) * 0x94D049BB133111EB) mask64
  Int.xor x (x >>> (31 : Nat))

def tokenIdLow : Int := 1000

def tokenIdRange : Int := 99000

def tokenId (seed requestId position : Int) : Int :=
  let x := Int.land (Int.xor (Int.xor (seed <<< (40 : Nat)) (requestId <<< (20 : Nat))) position) mask64
  tokenIdLow + splitmix64 x % tokenIdRange

/-! ## cases -/

/-- the sizes of a synthetic workload -/
structure Shape where
  numRequests : Nat
  inputLen : Nat
  outputLen : Nat
  arrivalStaggerS : Rat := 0
  deriving DecidableEq, Repr

def syntheticWorkload (name : String) (shape : Shape) (seed : Int) : Workload where
  name := name
  requests := (List.range shape.numRequests).map fun (r : Nat) =>
    { requestId := r
      promptTokenIds := (List.range shape.inputLen).map fun (p : Nat) => tokenId seed r p
      maxNewTokens := shape.outputLen
      arrivalTimeS := r * shape.arrivalStaggerS }

inductive Case where
  | primary
  | arrival
  | longout
  | batch1
  deriving DecidableEq, Repr

namespace Case

def name : Case → String
  | primary => "primary"
  | arrival => "arrival"
  | longout => "longout"
  | batch1 => "batch1"

def shape : Case → Shape
  | primary => ⟨64, 1024, 256, 0⟩
  | arrival => ⟨64, 1024, 256, 1 / 10⟩
  | longout => ⟨64, 1024, 1024, 0⟩
  | batch1 => ⟨1, 1024, 256, 0⟩

/-- `CASES[name](seed)` -/
def workload (case : Case) (seed : Int) : Workload := syntheticWorkload case.name case.shape seed

end Case

section
variable (case : Case) (seed : Int)

theorem case_sizes : 1 ≤ case.shape.numRequests ∧ 2 ≤ case.shape.outputLen := by
  cases case <;> decide

theorem case_length : (case.workload seed).requests.length = case.shape.numRequests :=
  (List.length_map _).trans List.length_range

theorem synthetic_distinct (name : String) (shape : Shape) :
    (syntheticWorkload name shape seed).Distinct := by
  unfold Workload.Distinct syntheticWorkload
  rw [List.map_map]
  exact List.nodup_range.map fun a b h => Int.ofNat.inj h

theorem case_distinct : (case.workload seed).Distinct := synthetic_distinct seed _ _

theorem case_forced : ∀ r ∈ (case.workload seed).requests, r.maxNewTokens = case.shape.outputLen := by
  intro r hr
  obtain ⟨_, _, rfl⟩ := List.mem_map.mp hr
  rfl

end
end RunBench
end Redline
