import Mathlib.Algebra.BigOperators.Fin
import Mathlib.Algebra.Field.Basic
import Redline.Kernels.Half
import Redline.Lib.BlockReduce
import Redline.Lib.Launch
import Redline.Lib.Shuffle
import Redline.Lib.TwoPass

/-!
# fused_add_rmsnorm

`kernels/rmsnorm.cu` adds a block output to the residual, rounds it, and normalises the rounded row, one
block a row: two halves a word with the row in registers, or one half after the other.  The reduction is
exact, the roundings are those of the code, and the columns are counted without a bound.

* `blockReduceSum_eq`      the shuffles and the warp partials add up the values of all threads;
* `RmsRounds`              what the rounds of a thread do to the columns it owns;
* `rmsNormResidual_tiers_agree`   either kernel stores each residual and output element once, with the value
                                  of the row-at-a-time definition.
-/

namespace Redline
open Threads BlockReduce
variable {H F : Type}

/-- the arguments of a launch -/
structure RmsArgs (F : Type) where
  out : Nat
  residual : Nat
  input : Nat
  weight : Nat
  numTokens : Nat
  hiddenSize : Nat
  eps : F

def kBlockPre80 : Nat := 256

def kMaxWordsPerThread : Nat := 4

/-! ## the kernels -/

section
variable [Field F] (fmt : HalfFormat H F) (rsqrtf : F → F)

/-- what every thread of a block of `T` computes from the values of its threads -/
def blockTotal {T : Nat} (given : Fin T → F) : F :=
  let kWarps := T / 32
  let v := Shuffle.butterfly (fun x y => x + y) 5 fun t => if h : t < T then given ⟨t, h⟩ else 0
  let warpSums := fun w => v (32 * w)
  (List.range' 1 (kWarps - 1)).foldl (fun total w => total + warpSums w) (warpSums 0)

def blockReduceSum {T : Nat} (v : F) : Prog Nat H F (Fin T) F := do
  let given ← barrier v
  return blockTotal given

def invRms (sumSq : F) (hiddenSize : Nat) (eps : F) : F := rsqrtf (sumSq / hiddenSize + eps)

def normalizeAndWeight (h32 invRms : F) (w : H) : H :=
  let normed := fmt.float2halfRn (h32 * invRms)
  fmt.float2halfRn (fmt.half2float normed * fmt.half2float w)

/-- both lanes -/
def normalizeAndWeightTwo (h32 : F × F) (invRms : F) (w : H × H) : H × H :=
  (normalizeAndWeight fmt h32.1 invRms w.1, normalizeAndWeight fmt h32.2 invRms w.2)

variable {S τ : Type}

/-- word `w` of two halves -/
def loadHalf2 (w : Nat) : Prog Nat H S τ (H × H) := do
  let x ← get (2 * w)
  let y ← get (2 * w + 1)
  return (x, y)

def storeHalf2 (w : Nat) (v : H × H) : Prog Nat H S τ Unit := do
  put (2 * w) v.1
  put (2 * w + 1) v.2

def half22float2 (v : H × H) : F × F := (fmt.half2float v.1, fmt.half2float v.2)

/-- round `i` of pass 1 of the vector kernel, for the words at these addresses; the state is `cache` and `sum_sq` -/
def rmsVecFirst (res inp : Nat) (s : (Nat → F × F) × F) (i : Nat) :
    Prog Nat H S τ ((Nat → F × F) × F) := do
  let r := half22float2 fmt (← loadHalf2 res)
  let x := half22float2 fmt (← loadHalf2 inp)
  let h := (fmt.float2halfRn (r.1 + x.1), fmt.float2halfRn (r.2 + x.2))
  storeHalf2 res h
  let h32 := half22float2 fmt h
  return (Function.update s.1 i h32, s.2 + h32.1 * h32.1 + h32.2 * h32.2)

/-- round `i` of pass 2 of the vector kernel -/
def rmsVecSecond (out weight : Nat) (cache : Nat → F × F) (invRms : F) (i : Nat) :
    Prog Nat H S τ Unit := do
  let w ← loadHalf2 weight
  storeHalf2 out (normalizeAndWeightTwo fmt (cache i) invRms w)

/-- pointers are in words -/
def rmsNormResidualVecThread {T : Nat}
    (wpt out residual input weight numTokens words hiddenSize : Nat) (eps : F)
    (row tid : Nat) : Prog Nat H F (Fin T) Unit := do
  if row ≥ numTokens then
    return
  let resRow := residual + row * words
  let inRow := input + row * words
  let outRow := out + row * words
  let (cache, sumSq) ← (List.range wpt).foldlM (fun s i =>
    let w := tid + i * T
    if w < words then rmsVecFirst fmt (resRow + w) (inRow + w) s i else pure s) (fun _ => (0, 0), 0)
  let inv := invRms rsqrtf (← blockReduceSum sumSq) hiddenSize eps
  (List.range wpt).forM fun i =>
    let w := tid + i * T
    if w < words then rmsVecSecond fmt (outRow + w) (weight + w) cache inv i else pure ()

/-- a round of pass 1 of the scalar kernel -/
def rmsScalarFirst (res inp : Nat) (sumSq : F) : Prog Nat H S τ F := do
  let r ← get res
  let x ← get inp
  let h := fmt.float2halfRn (fmt.half2float r + fmt.half2float x)
  put res h
  let h32 := fmt.half2float h
  return sumSq + h32 * h32

/-- a round of pass 2 of the scalar kernel reads the residual again -/
def rmsScalarSecond (out res weight : Nat) (invRms : F) : Prog Nat H S τ Unit := do
  let h ← get res
  let w ← get weight
  put out (normalizeAndWeight fmt (fmt.half2float h) invRms w)

def rmsNormResidualThread {T : Nat} (out residual input weight numTokens hiddenSize : Nat) (eps : F)
    (row tid : Nat) :
    Prog Nat H F (Fin T) Unit := do
  if row ≥ numTokens then
    return
  let resRow := residual + row * hiddenSize
  let inRow := input + row * hiddenSize
  let outRow := out + row * hiddenSize
  let sumSq ← (strided T hiddenSize tid).foldlM
    (fun sumSq c => rmsScalarFirst fmt (resRow + c) (inRow + c) sumSq) 0
  let inv := invRms rsqrtf (← blockReduceSum sumSq) hiddenSize eps
  (strided T hiddenSize tid).forM fun c => rmsScalarSecond fmt (outRow + c) (resRow + c)
    (weight + c) inv

/-! ## the launcher -/

/-- one block for each row -/
def rmsNormResidualVecKernel (kBlock wpt out residual input weight numTokens words hiddenSize : Nat) (eps : F) :
    Grid Nat H F where
  gridX := numTokens
  gridY := 1
  blockDim := kBlock
  thread row _ tid :=
    rmsNormResidualVecThread fmt rsqrtf wpt out residual input weight numTokens words hiddenSize eps row tid

def rmsNormResidualKernel (kBlock out residual input weight numTokens hiddenSize : Nat) (eps : F) :
    Grid Nat H F where
  gridX := numTokens
  gridY := 1
  blockDim := kBlock
  thread row _ tid :=
    rmsNormResidualThread fmt rsqrtf out residual input weight numTokens hiddenSize eps row tid

def launchRmsNormResidualImpl (kBlock : Nat) (a : RmsArgs F) : Grid Nat H F :=
  let words := a.hiddenSize / 2
  let wpt := (words + kBlock - 1) / kBlock
  if a.hiddenSize % 2 = 0 ∧ wpt ≤ kMaxWordsPerThread ∧ isHalf2Aligned a.out ∧
    isHalf2Aligned a.residual ∧
      isHalf2Aligned a.input ∧ isHalf2Aligned a.weight then
    let launch := fun wpt => rmsNormResidualVecKernel fmt rsqrtf kBlock wpt (a.out / 2)
      (a.residual / 2) (a.input / 2)
      (a.weight / 2) a.numTokens words a.hiddenSize a.eps
    match wpt with
    | 1 => launch 1
    | 2 => launch 2
    | 3 => launch 3
    | _ => launch kMaxWordsPerThread
  else rmsNormResidualKernel fmt rsqrtf kBlock a.out a.residual a.input a.weight a.numTokens a.hiddenSize a.eps

/-- `kBlockSm80` is a build constant -/
def launchRmsNormResidual (kBlockSm80 : Nat) (computeMajor : Int) (out residual input weight : Nat)
    (numTokens hiddenSize : Int) (eps : F) : Option (Grid Nat H F) :=
  if numTokens ≤ 0 ∨ hiddenSize ≤ 0 then none
  else
    let a : RmsArgs F := ⟨out, residual, input, weight, numTokens.toNat, hiddenSize.toNat, eps⟩
    if computeMajor ≥ 8 then some (launchRmsNormResidualImpl fmt rsqrtf kBlockSm80 a)
    else some (launchRmsNormResidualImpl fmt rsqrtf kBlockPre80 a)

end

/-! ## the row at a time -/

section
variable (a : RmsArgs F)

def RmsArgs.resAt (row c : Nat) : Nat := a.residual + row * a.hiddenSize + c

def RmsArgs.inAt (row c : Nat) : Nat := a.input + row * a.hiddenSize + c

def RmsArgs.outAt (row c : Nat) : Nat := a.out + row * a.hiddenSize + c

/-- the cells that belong to a column of a row -/
def InColumn (row c x : Nat) : Prop := x = a.resAt row c ∨ x = a.outAt row c

/-- the cells that no thread may store to -/
def OnlyRead (x : Nat) : Prop := ∀ row < a.numTokens, ∀ c < a.hiddenSize, ¬ InColumn a row c x

/-- the columns of a row that a thread owns -/
def OwnColumns (own : Nat → Nat) (row t x : Nat) : Prop :=
  ∃ c < a.hiddenSize, own c = t ∧ InColumn a row c x

/-- besides cells that nobody stores to, each thread loads and stores in columns of its own -/
def KeepsToColumns {S : Type} (g : Grid Nat H S) : Prop :=
  ∃ own : Nat → Nat, (∀ c, own c < g.blockDim) ∧
  (∀ b (t : Fin g.blockDim), Within (OnlyRead a) (OwnColumns a own b.1 t) (g.threads b t)) ∧
  ∀ (b b' : Fin g.gridX × Fin g.gridY) (t t' : Fin g.blockDim) x,
    OwnColumns a own b.1 t x → OwnColumns a own b'.1 t' x → b = b' ∧ t = t'

variable [Field F] (fmt : HalfFormat H F) (rsqrtf : F → F) (m : Nat → H)

/-- the rounded sum, the new residual -/
def newResidual (row c : Nat) : H :=
  fmt.float2halfRn (fmt.half2float (m (a.resAt row c)) + fmt.half2float (m (a.inAt row c)))

def square (row c : Nat) : F :=
  fmt.half2float (newResidual a fmt m row c) * fmt.half2float (newResidual a fmt m row c)

def rowInvRms (row : Nat) : F :=
  invRms rsqrtf (∑ c ∈ Finset.range a.hiddenSize, square a fmt m row c) a.hiddenSize a.eps

def normed (row c : Nat) : H :=
  normalizeAndWeight fmt (fmt.half2float (newResidual a fmt m row c)) (rowInvRms a fmt rsqrtf m row)
    (m (a.weight + c))

/-- the stores of a launch -/
def RmsStore (w : Nat × H) : Prop := ∃ row < a.numTokens, ∃ c < a.hiddenSize,
  w = (a.resAt row c, newResidual a fmt m row c) ∨ w = (a.outAt row c, normed a fmt rsqrtf m row c)

/-- what the columns of a thread add to the sum of squares -/
def partialSum (own : Nat → Nat) (row t : Nat) : F :=
  ∑ c ∈ Finset.range a.hiddenSize with own c = t, square a fmt m row c

end

/-! ## the block reduction -/

section
variable [Field F]

theorem foldl_add {ι : Type} (f : ι → F) (l : List ι) (x : F) : l.foldl (fun x i => x + f i) x = x +
    (l.map f).sum := by
  induction l generalizing x with
  | nil => exact (add_zero x).symm
  | cons i l ih => rw [List.foldl_cons, ih, List.map_cons, List.sum_cons, add_assoc]

/-- **The total of a block is the sum over its threads**, each once. -/
theorem blockTotal_eq {T : Nat} (hT : 0 < T) (h32 : T % 32 = 0) (given : Fin T → F) :
    blockTotal given = ∑ t, given t := by
  obtain ⟨k, rfl⟩ : ∃ k, T = 32 * (k + 1) := ⟨T / 32 - 1, by omega⟩
  let p : Nat → F := fun t => if h : t < 32 * (k + 1) then given ⟨t, h⟩ else 0
  have hwarps : 32 * (k + 1) / 32 - 1 = k := by omega
  have hgroups : ∑ w ∈ Finset.range (k + 1), Shuffle.butterfly (fun x y : F => x + y) 5 p (32 * w) =
      ∑ t ∈ Finset.range (32 * (k + 1)), p t :=
        Shuffle.groups_fold (fun x y : F => x + y) zero_add 5 (k + 1) p
  have hthreads : ∑ t ∈ Finset.range (32 * (k + 1)), p t = ∑ t, given t := by
    rw [Finset.sum_range]
    exact Finset.sum_congr rfl fun t _ => dif_pos t.isLt
  rw [← hthreads, ← hgroups]
  unfold blockTotal
  dsimp only
  rw [hwarps, foldl_add, Finset.sum_range_succ', add_comm, List.range'_eq_map_range, List.map_map]
  have hlanes : ∀ w, Shuffle.butterfly (fun x y : F => x + y) 5 p (32 * (1 + w)) =
      Shuffle.butterfly (fun x y : F => x + y) 5 p (32 * (w + 1)) := fun w => by rw [Nat.add_comm 1 w]
  exact congrArg (· + _) (congrArg List.sum (List.map_congr_left fun w _ => hlanes w))

end

/-! ## cells -/

section
variable {a : RmsArgs F}

/-- `out` and `residual` lie apart from each other and from what is loaded -/
structure RmsLayout (a : RmsArgs F) : Prop where
  res_out : ∀ row < a.numTokens, ∀ c < a.hiddenSize, ∀ row' < a.numTokens, ∀ c' < a.hiddenSize,
    a.resAt row c ≠ a.outAt row' c'
  column_in : ∀ row < a.numTokens, ∀ c < a.hiddenSize, ∀ x, InColumn a row c x →
    ∀ row' < a.numTokens, ∀ c' < a.hiddenSize, x ≠ a.inAt row' c'
  column_weight : ∀ row < a.numTokens, ∀ c < a.hiddenSize, ∀ x, InColumn a row c x →
    ∀ c' < a.hiddenSize, x ≠ a.weight + c'

/-- two buffers share no cell -/
def Apart (p len q len' : Nat) : Prop := p + len ≤ q ∨ q + len' ≤ p

/-- the contract of the kernel: `out` and `residual` alias neither each other nor what is loaded -/
structure RmsApart (a : RmsArgs F) : Prop where
  out_residual : Apart a.out (a.numTokens * a.hiddenSize) a.residual (a.numTokens * a.hiddenSize)
  out_input : Apart a.out (a.numTokens * a.hiddenSize) a.input (a.numTokens * a.hiddenSize)
  out_weight : Apart a.out (a.numTokens * a.hiddenSize) a.weight a.hiddenSize
  residual_input : Apart a.residual (a.numTokens * a.hiddenSize) a.input (a.numTokens * a.hiddenSize)
  residual_weight : Apart a.residual (a.numTokens * a.hiddenSize) a.weight a.hiddenSize

theorem Apart.ne {p len q len' x y : Nat} (h : Apart p len q len') (hx : x < len) (hy : y < len') :
    p + x ≠ q + y := by
  rcases h with h | h <;> omega

theorem RmsApart.layout (h : RmsApart a) : RmsLayout a := by
  have hcell : ∀ row < a.numTokens, ∀ c < a.hiddenSize,
      row * a.hiddenSize + c < a.numTokens * a.hiddenSize :=
    fun row hr c hc => Stores.row_lt hc hr
  refine ⟨fun row hr c hc row' hr' c' hc' heq => ?_, fun row hr c hc x hx row' hr' c' hc' heq => ?_,
    fun row hr c hc x hx c' hc' heq => ?_⟩
  all_goals unfold InColumn RmsArgs.resAt RmsArgs.outAt at *
  · exact h.out_residual.ne (hcell row' hr' c' hc') (hcell row hr c hc) (by omega)
  · unfold RmsArgs.inAt at heq
    rcases hx with rfl | rfl
    · exact h.residual_input.ne (hcell row hr c hc) (hcell row' hr' c' hc') (by omega)
    · exact h.out_input.ne (hcell row hr c hc) (hcell row' hr' c' hc') (by omega)
  · rcases hx with rfl | rfl
    · exact h.residual_weight.ne (hcell row hr c hc) hc' (by omega)
    · exact h.out_weight.ne (hcell row hr c hc) hc' (by omega)

theorem RmsLayout.column (h : RmsLayout a) {row c row' c' x : Nat} (hr : row < a.numTokens)
    (hc : c < a.hiddenSize)
    (hr' : row' < a.numTokens) (hc' : c' < a.hiddenSize) (hx : InColumn a row c x)
    (hx' : InColumn a row' c' x) :
    row = row' ∧ c = c' := by
  rcases hx with rfl | rfl <;> rcases hx' with heq | heq
  · exact Stores.row_inj hc hc' (show row * a.hiddenSize + c = row' * a.hiddenSize + c' by unfold RmsArgs.resAt at heq; omega)
  · exact absurd heq (h.res_out row hr c hc row' hr' c' hc')
  · exact absurd heq.symm (h.res_out row' hr' c' hc' row hr c hc)
  · exact Stores.row_inj hc hc' (show row * a.hiddenSize + c = row' * a.hiddenSize + c' by unfold RmsArgs.outAt at heq; omega)

/-- a word of a row is two of its columns -/
theorem row_word {words base row : Nat} (hwords : a.hiddenSize = 2 * words)
    (heven : base % 2 = 0) (w : Nat) :
    2 * (base / 2 + row * words + w) = base + row * a.hiddenSize + 2 * w := by
  rw [half2_address heven, ← hwords]

theorem RmsLayout.in_onlyRead (h : RmsLayout a) {row c : Nat} (hr : row < a.numTokens)
    (hc : c < a.hiddenSize) :
    OnlyRead a (a.inAt row c) :=
      fun row' hr' c' hc' hx => h.column_in row' hr' c' hc' _ hx row hr c hc rfl

theorem RmsLayout.weight_onlyRead (h : RmsLayout a) {c : Nat} (hc : c < a.hiddenSize) :
    OnlyRead a (a.weight + c) :=
  fun row' hr' c' hc' hx => h.column_weight row' hr' c' hc' _ hx c hc rfl

end

/-! ## the rounds of a thread -/

section
variable [Field F] {σ τ ι : Type} (a : RmsArgs F) (fmt : HalfFormat H F) (m : Nat → H)

def residualStores (row : Nat) (cols : List Nat) : List (Nat × H) :=
  cols.map fun c => (a.resAt row c, newResidual a fmt m row c)

def outStores (inv : F) (row : Nat) (cols : List Nat) : List (Nat × H) :=
  cols.map fun c => (a.outAt row c,
    normalizeAndWeight fmt (fmt.half2float (newResidual a fmt m row c)) inv (m (a.weight + c)))

/-- two passes over rounds that hold the columns a thread owns -/
structure RmsRounds (own : Nat → Nat) (row t : Nat) (l : List ι) (cols : ι → List Nat)
    (first : σ → ι → Prog Nat H F τ σ)
    (s₀ : σ) (give : σ → F) (g : σ → ι → σ) (second : σ → (τ → F) → ι → Prog Nat H F τ Unit)
    (inv : (τ → F) → F) : Prop where
  nodup : (l.flatMap cols).Nodup
  mem_iff : ∀ c, c ∈ l.flatMap cols ↔ c < a.hiddenSize ∧ own c = t
  first_within : ∀ s, ∀ i ∈ l, Within (OnlyRead a) (fun x => ∃ c ∈ cols i,
    InColumn a row c x) (first s i)
  second_within : ∀ s given, ∀ i ∈ l,
    Within (OnlyRead a) (fun x => ∃ c ∈ cols i, InColumn a row c x) (second s given i)
  first_run : ∀ exchanged s, ∀ i ∈ l, run exchanged (first s i) 0 m =
    ⟨g s i, 0, Stores.store m (residualStores a fmt m row (cols i)),
      residualStores a fmt m row (cols i)⟩
  second_log : ∀ exchanged given, ∀ i ∈ l,
    (run exchanged (second (l.foldl g s₀) given i) 1 (Stores.store m (residualStores a fmt m row (cols i)))).log =
      outStores a fmt m (inv given) row (cols i)
  second_phase : ∀ exchanged s given m', ∀ i ∈ l, (run exchanged (second s given i) 1 m').phase = 1
  first_gives : ∀ exchanged t' s, ∀ i ∈ l, ∀ p m', Gives exchanged t' (first s i) p m'
  second_gives : ∀ exchanged t' s given, ∀ i ∈ l, ∀ p m', Gives exchanged t' (second s given i) p m'
  zero : give s₀ = 0
  step : ∀ s, ∀ i ∈ l, give (g s i) = give s + ((cols i).map (square a fmt m row)).sum

variable {a fmt m} {own : Nat → Nat} {row t : Nat} {l : List ι} {cols : ι → List Nat}
    {first : σ → ι → Prog Nat H F τ σ}
  {s₀ : σ} {give : σ → F} {g : σ → ι → σ} {second : σ → (τ → F) → ι →
    Prog Nat H F τ Unit} {inv : (τ → F) → F}

theorem RmsRounds.mem_cols (h : RmsRounds a fmt m own row t l cols first s₀ give g second inv)
    {i : ι} (hi : i ∈ l) {c : Nat} (hc : c ∈ cols i) : c < a.hiddenSize ∧ own c = t :=
    (h.mem_iff c).mp (List.mem_flatMap.mpr ⟨i, hi, hc⟩)

theorem RmsRounds.passesWithin (h : RmsRounds a fmt m own row t l cols first s₀ give g second inv)
    (hlayout : RmsLayout a) (hrow : row < a.numTokens) :
    PassesWithin l first second (OnlyRead a) (fun i x => ∃ c ∈ cols i, InColumn a row c x) where
  first := h.first_within
  second := h.second_within
  fixed i hi x := by
    rintro ⟨c, hc, hx⟩ honly
    exact honly row hrow c (h.mem_cols hi hc).1 hx
  apart := by
    refine (List.nodup_flatMap.mp h.nodup).2.imp_of_mem fun {i j} hi hj hij x ⟨c,
      hc, hx⟩ ⟨c', hc', hx'⟩ => ?_
    obtain ⟨_, rfl⟩ := hlayout.column hrow (h.mem_cols hi hc).1 hrow (h.mem_cols hj hc').1 hx hx'
    exact hij hc hc'

/-- a thread gives the sum of the squares of its columns, each once -/
theorem RmsRounds.give_eq (h : RmsRounds a fmt m own row t l cols first s₀ give g second inv) :
    give (l.foldl g s₀) = partialSum a fmt m own row t := by
  have hfold : ∀ (l' : List ι), (∀ i ∈ l', i ∈ l) → ∀ s, give (l'.foldl g s) =
      give s + ((l'.flatMap cols).map (square a fmt m row)).sum := by
    intro l'
    induction l' with
    | nil => exact fun _ s => (add_zero _).symm
    | cons i l' ih =>
      intro hl' s
      rw [List.foldl_cons, ih fun j hj => hl' j (List.mem_cons_of_mem _ hj),
        h.step s i (hl' i List.mem_cons_self),
        List.flatMap_cons, List.map_append, List.sum_append, add_assoc]
  rw [hfold l (fun _ hi => hi), h.zero, zero_add, ← List.sum_toFinset _ h.nodup]
  refine Finset.sum_congr (Finset.ext fun c => ?_) fun _ _ => rfl
  rw [List.mem_toFinset, Finset.mem_filter, Finset.mem_range]
  exact h.mem_iff c

end

/-! ## the threads of a launch -/

section
variable [Field F] {σ ι : Type} {T : Nat} (a : RmsArgs F) (fmt : HalfFormat H F) (rsqrtf : F → F)
    (m : Nat → H) (own : Nat → Nat)

/-- a thread stores the new residual and the output of each column it owns, once -/
structure RmsThread (row : Nat) (t : Fin T) (x : Prog Nat H F (Fin T) Unit) : Prop where
  within : Within (OnlyRead a) (OwnColumns a own row t) x
  gives : Gives (fun _ (t' : Fin T) => partialSum a fmt m own row t') t x 0 m
  phase : (run (fun _ (t' : Fin T) => partialSum a fmt m own row t') x 0 m).phase = 1
  nodup : ((run (fun _ (t' : Fin T) => partialSum a fmt m own row t') x 0 m).log.map Prod.fst).Nodup
  log_iff : ∀ w, w ∈ (run (fun _ (t' : Fin T) => partialSum a fmt m own row t') x 0 m).log ↔
    ∃ c < a.hiddenSize, own c = t ∧
    (w = (a.resAt row c, newResidual a fmt m row c) ∨ w = (a.outAt row c, normed a fmt rsqrtf m row c))

variable {a fmt rsqrtf m own} {row : Nat} {t : Fin T} {l : List ι} {cols : ι → List Nat}
  {first : σ → ι → Prog Nat H F (Fin T) σ} {s₀ : σ} {give : σ → F} {g : σ → ι → σ}
  {second : σ → (Fin T → F) → ι → Prog Nat H F (Fin T) Unit} {inv : (Fin T → F) → F}

theorem RmsRounds.thread (h : RmsRounds a fmt m own row t l cols first s₀ give g second inv)
    (hlayout : RmsLayout a) (hrow : row < a.numTokens)
    (hinv : inv (fun t' => partialSum a fmt m own row t') = rowInvRms a fmt rsqrtf m row) :
    RmsThread a fmt rsqrtf m own row t (twoPass l first s₀ give second) := by
  have hpasses := h.passesWithin hlayout hrow
  obtain ⟨hphase, hlog⟩ : (run (fun _ (t' : Fin T) => partialSum a fmt m own row t')
      (twoPass l first s₀ give second) 0 m).phase = 1 ∧ _ :=
    run_twoPass hpasses (h.first_run _) (h.second_phase _)
  have hstores : (run (fun _ (t' : Fin T) => partialSum a fmt m own row t')
      (twoPass l first s₀ give second) 0 m).log =
      residualStores a fmt m row (l.flatMap cols) ++ outStores a fmt m
        (rowInvRms a fmt rsqrtf m row) row (l.flatMap cols) := by
    rw [hlog, List.flatMap_congr fun i hi => h.second_log _ _ i hi, hinv]
    unfold residualStores outStores
    rw [List.map_flatMap, List.map_flatMap]
  refine ⟨hpasses.within.mono ?_, ?_, hphase, ?_, fun w => ?_⟩
  · rintro x ⟨i, hi, c, hc, hx⟩
    exact ⟨c, (h.mem_cols hi hc).1, (h.mem_cols hi hc).2, hx⟩
  · exact gives_twoPass hpasses (h.first_run _) (h.first_gives _ t) (h.second_gives _ t) h.give_eq
  · rw [hstores, List.map_append, List.nodup_append]
    refine ⟨Stores.nodup_keys h.nodup fun c hc c' hc' heq => ?_,
      Stores.nodup_keys h.nodup fun c hc c' hc' heq => ?_, ?_⟩
    · exact (hlayout.column hrow ((h.mem_iff c).mp hc).1 hrow ((h.mem_iff c').mp hc').1 (.inl rfl) (.inl heq)).2
    · exact (hlayout.column hrow ((h.mem_iff c).mp hc).1 hrow ((h.mem_iff c').mp hc').1 (.inr rfl) (.inr heq)).2
    · intro x hx y hy heq
      obtain ⟨_, hw, rfl⟩ := List.mem_map.mp hx
      obtain ⟨c, hc, rfl⟩ := List.mem_map.mp hw
      obtain ⟨_, hw', rfl⟩ := List.mem_map.mp hy
      obtain ⟨c', hc', rfl⟩ := List.mem_map.mp hw'
      exact hlayout.res_out row hrow c ((h.mem_iff c).mp hc).1 row hrow c' ((h.mem_iff c').mp hc').1 heq
  · rw [hstores, List.mem_append]
    unfold residualStores outStores
    rw [List.mem_map, List.mem_map]
    constructor
    · rintro (⟨c, hc, rfl⟩ | ⟨c, hc, rfl⟩)
      · exact ⟨c, ((h.mem_iff c).mp hc).1, ((h.mem_iff c).mp hc).2, .inl rfl⟩
      · exact ⟨c, ((h.mem_iff c).mp hc).1, ((h.mem_iff c).mp hc).2, .inr rfl⟩
    · rintro ⟨c, hc, howner, rfl | rfl⟩
      · exact .inl ⟨c, (h.mem_iff c).mpr ⟨hc, howner⟩, rfl⟩
      · exact .inr ⟨c, (h.mem_iff c).mpr ⟨hc, howner⟩, rfl⟩

end

/-! ## the scalar kernel -/

section
variable [Field F] {T : Nat} {a : RmsArgs F} {fmt : HalfFormat H F} {rsqrtf : F → F}
    {m : Nat → H} {row : Nat}

theorem scalarThread_eq (hrow : row < a.numTokens) (tid : Nat) :
    (rmsNormResidualThread fmt rsqrtf a.out a.residual a.input
    a.weight a.numTokens a.hiddenSize a.eps row tid : Prog Nat H F (Fin T) Unit) =
      twoPass (strided T a.hiddenSize tid)
        (fun sumSq c => rmsScalarFirst fmt (a.resAt row c) (a.inAt row c) sumSq) 0 id
        fun _ given c => rmsScalarSecond fmt (a.outAt row c) (a.resAt row c) (a.weight + c)
          (invRms rsqrtf (blockTotal given) a.hiddenSize a.eps) :=
  if_neg (Nat.not_le.mpr hrow)

/-- column `c` belongs to thread `c % T` -/
theorem scalarThread_rounds (hlayout : RmsLayout a) (hrow : row < a.numTokens) (t : Fin T) :
    RmsRounds a fmt m (· % T) row t (strided T a.hiddenSize t) (fun c => [c])
      (fun sumSq c => rmsScalarFirst fmt (a.resAt row c) (a.inAt row c) sumSq) 0 id
      (fun sumSq c => sumSq + square a fmt m row c)
      (fun _ (given : Fin T → F) c => rmsScalarSecond fmt (a.outAt row c) (a.resAt row c) (a.weight + c)
        (invRms rsqrtf (blockTotal given) a.hiddenSize a.eps))
      fun given => invRms rsqrtf (blockTotal given) a.hiddenSize a.eps where
  nodup := by
    rw [List.flatMap_singleton']
    exact nodup_strided (Nat.zero_lt_of_lt t.isLt) _ _
  mem_iff c := by
    rw [List.flatMap_singleton']
    exact mem_strided t.isLt
  first_within _ c hc := by
    have hlt := lt_of_mem_strided (Nat.zero_lt_of_lt t.isLt) hc
    have hres : ∃ c' ∈ [c], InColumn a row c' (a.resAt row c) :=
      ⟨c, List.mem_singleton_self c, .inl rfl⟩
    exact ⟨.inr hres, fun _ => ⟨.inl (hlayout.in_onlyRead hrow hlt), fun _ => ⟨hres, trivial⟩⟩⟩
  second_within _ given c hc := by
    have hlt := lt_of_mem_strided (Nat.zero_lt_of_lt t.isLt) hc
    exact ⟨.inr ⟨c, List.mem_singleton_self c, .inl rfl⟩, fun _ => ⟨.inl (hlayout.weight_onlyRead hlt),
      fun _ => ⟨⟨c, List.mem_singleton_self c, .inr rfl⟩, trivial⟩⟩⟩
  first_run _ _ _ _ := rfl
  second_log exchanged given c hc := by
    have hlt := lt_of_mem_strided (Nat.zero_lt_of_lt t.isLt) hc
    have hweight : a.weight + c ≠ a.resAt row c :=
      (hlayout.column_weight row hrow c hlt _ (.inl rfl) c hlt).symm
    show [(a.outAt row c, normalizeAndWeight fmt (fmt.half2float (Function.update m _ _ _)) _ (Function.update m _ _ _))] = _
    rw [Function.update_self, Function.update_of_ne hweight]
    rfl
  second_phase _ _ _ _ _ _ := rfl
  first_gives _ _ _ _ _ _ _ := trivial
  second_gives _ _ _ _ _ _ _ _ := trivial
  zero := rfl
  step sumSq c _ := congrArg (sumSq + ·) (List.sum_singleton).symm

end

/-! ## the vector kernel -/

section
variable [Field F] {T : Nat} {a : RmsArgs F} {fmt : HalfFormat H F} {rsqrtf : F → F}
    {m : Nat → H} {row : Nat}

/-- the rounds in which a thread has a word -/
def vecRounds (T wpt words tid : Nat) : List Nat := (List.range wpt).filter fun i => tid + i * T < words

theorem vecThread_eq {wpt out residual input weight words : Nat} (hrow : row < a.numTokens)
    (tid : Nat) :
    (rmsNormResidualVecThread fmt rsqrtf wpt out residual input weight a.numTokens words a.hiddenSize a.eps row tid :
      Prog Nat H F (Fin T) Unit) =
      twoPass (vecRounds T wpt words tid)
        (fun s i => rmsVecFirst fmt (residual + row * words + (tid + i * T)) (input + row * words + (tid + i * T)) s i)
        (fun _ => (0, 0), 0) Prod.snd
        fun s given i => rmsVecSecond fmt (out + row * words + (tid + i * T))
          (weight + (tid + i * T)) s.1
          (invRms rsqrtf (blockTotal given) a.hiddenSize a.eps) i := by
  unfold vecRounds twoPass
  simp only [← foldlM_guarded, ← forM_guarded]
  exact if_neg (Nat.not_le.mpr hrow)

/-- the two columns of the word of a round -/
def vecColumns (T tid i : Nat) : List Nat := [2 * (tid + i * T), 2 * (tid + i * T) + 1]

theorem mem_vecColumns {tid i c : Nat} : c ∈ vecColumns T tid i ↔ c / 2 = tid + i * T := by
  unfold vecColumns
  rw [List.mem_cons, List.mem_singleton]
  omega

theorem mem_vecRounds {wpt words tid i : Nat} : i ∈ vecRounds T wpt words tid ↔ i < wpt ∧
    tid + i * T < words := by
  unfold vecRounds
  rw [List.mem_filter, List.mem_range, decide_eq_true_iff]

theorem vecColumns_nodup {wpt words tid : Nat} (hT : 0 < T) :
    ((vecRounds T wpt words tid).flatMap (vecColumns T tid)).Nodup := by
  refine List.nodup_flatMap.mpr ⟨fun i _ => ?_,
    (List.nodup_range.filter _).imp fun {i j} hne c hc hc' => hne ?_⟩
  · exact List.nodup_cons.mpr ⟨fun hin => by have := List.mem_singleton.mp hin; omega, List.nodup_singleton _⟩
  · have hword := (mem_vecColumns.mp hc).symm.trans (mem_vecColumns.mp hc')
    exact Nat.eq_of_mul_eq_mul_right hT (Nat.add_left_cancel hword)

/-- **Enough words per thread leave no column out.** -/
theorem vecColumns_cover {wpt words tid c : Nat} (htid : tid < T) (hwpt : words ≤ wpt * T) :
    c ∈ (vecRounds T wpt words tid).flatMap (vecColumns T tid) ↔ c < 2 * words ∧ c / 2 % T = tid := by
  rw [List.mem_flatMap]
  constructor
  · rintro ⟨i, hi, hc⟩
    obtain ⟨_, hlt⟩ := mem_vecRounds.mp hi
    have hword := mem_vecColumns.mp hc
    refine ⟨by omega, ?_⟩
    rw [hword, Nat.add_mul_mod_self_right, Nat.mod_eq_of_lt htid]
  · rintro ⟨hlt, howner⟩
    have hword : c / 2 = tid + c / 2 / T * T := by
      have hparts := Nat.mod_add_div' (c / 2) T
      omega
    have hround : c / 2 / T < wpt := Nat.div_lt_of_lt_mul (by rw [Nat.mul_comm]; omega)
    exact ⟨c / 2 / T, mem_vecRounds.mpr ⟨hround, by omega⟩, mem_vecColumns.mpr hword⟩

/-- both lanes of the word of a round, of the new residual -/
def vecLanes (T : Nat) (a : RmsArgs F) (fmt : HalfFormat H F) (m : Nat → H) (row tid i : Nat) : F × F :=
  let w := tid + i * T
  (fmt.half2float (newResidual a fmt m row (2 * w)),
    fmt.half2float (newResidual a fmt m row (2 * w + 1)))

/-- the registers of a thread after a round -/
def vecGather (T : Nat) (a : RmsArgs F) (fmt : HalfFormat H F) (m : Nat → H) (row tid : Nat)
    (s : (Nat → F × F) × F) (i : Nat) :
    (Nat → F × F) × F :=
  let w := tid + i * T
  (Function.update s.1 i (vecLanes T a fmt m row tid i),
    s.2 + square a fmt m row (2 * w) + square a fmt m row (2 * w + 1))

/-- the register cache holds what the rounds put there -/
theorem vecGather_cache {tid i : Nat} (l : List Nat) (s : (Nat → F × F) × F)
    (h : i ∈ l ∨ s.1 i = vecLanes T a fmt m row tid i) :
    (l.foldl (vecGather T a fmt m row tid) s).1 i = vecLanes T a fmt m row tid i := by
  induction l generalizing s with
  | nil => exact h.resolve_left List.not_mem_nil
  | cons j l ih =>
    refine ih _ ?_
    show i ∈ l ∨ Function.update s.1 j (vecLanes T a fmt m row tid j) i = _
    by_cases hij : i = j
    · subst hij
      exact .inr (Function.update_self _ _ _)
    · rw [Function.update_of_ne hij]
      exact h.imp_left fun hin => (List.mem_cons.mp hin).resolve_left hij

theorem weight_word {base w : Nat} (heven : base % 2 = 0) : 2 * (base / 2 + w) = base + 2 * w := by
  omega

/-- a round of pass 1, lane by lane -/
theorem rmsVecFirst_eq {S τ : Type} {p q x y : Nat} (hp : 2 * p = x) (hq : 2 * q = y)
    (s : (Nat → F × F) × F) (i : Nat) :
    (rmsVecFirst fmt p q s i : Prog Nat H S τ _) = (do
      let r ← get x
      let r' ← get (x + 1)
      let u ← get y
      let u' ← get (y + 1)
      let h :=
        (fmt.float2halfRn (fmt.half2float r + fmt.half2float u),
          fmt.float2halfRn (fmt.half2float r' + fmt.half2float u'))
      put x h.1
      put (x + 1) h.2
      let h32 := half22float2 fmt h
      return (Function.update s.1 i h32, s.2 + h32.1 * h32.1 + h32.2 * h32.2)) := by
  subst hp hq
  rfl

/-- a round of pass 2, lane by lane -/
theorem rmsVecSecond_eq {S τ : Type} {p q x y : Nat} (hp : 2 * p = x) (hq : 2 * q = y)
    (cache : Nat → F × F) (inv : F) (i : Nat) :
    (rmsVecSecond fmt p q cache inv i : Prog Nat H S τ _) = (do
      let w ← get y
      let w' ← get (y + 1)
      put x (normalizeAndWeight fmt (cache i).1 inv w)
      put (x + 1) (normalizeAndWeight fmt (cache i).2 inv w')) := by
  subst hp hq
  rfl

/-- column `c` belongs to thread `c / 2 % T` -/
theorem vecThread_rounds {wpt words : Nat} (hlayout : RmsLayout a)
    (hrow : row < a.numTokens) (t : Fin T)
    (hwords : a.hiddenSize = 2 * words) (hout : a.out % 2 = 0) (hres : a.residual % 2 = 0)
    (hin : a.input % 2 = 0) (hweight : a.weight % 2 = 0) (hwpt : words ≤ wpt * T) :
    RmsRounds a fmt m (· / 2 % T) row t (vecRounds T wpt words t) (vecColumns T t)
      (fun s i => rmsVecFirst fmt (a.residual / 2 + row * words + (t + i * T)) (a.input / 2 + row * words + (t + i * T)) s i)
      (fun _ => (0, 0), 0) Prod.snd (vecGather T a fmt m row t)
      (fun s (given : Fin T → F) i =>
        rmsVecSecond fmt (a.out / 2 + row * words + (t + i * T)) (a.weight / 2 + (t + i * T)) s.1
        (invRms rsqrtf (blockTotal given) a.hiddenSize a.eps) i)
      fun given => invRms rsqrtf (blockTotal given) a.hiddenSize a.eps where
  nodup := vecColumns_nodup (Nat.zero_lt_of_lt t.isLt)
  mem_iff c := by
    rw [hwords]
    exact vecColumns_cover t.isLt hwpt
  first_within s i hi := by
    obtain ⟨_, hlt⟩ := mem_vecRounds.mp hi
    have hlow : ∃ c ∈ vecColumns T t i, InColumn a row c (a.resAt row (2 * (t + i * T))) :=
      ⟨_, mem_vecColumns.mpr (by omega), .inl rfl⟩
    have hhigh : ∃ c ∈ vecColumns T t i, InColumn a row c (a.resAt row (2 * (t + i * T) + 1)) :=
      ⟨_, mem_vecColumns.mpr (by omega), .inl rfl⟩
    have hinLow : OnlyRead a (a.inAt row (2 * (t + i * T))) := hlayout.in_onlyRead hrow (by omega)
    have hinHigh : OnlyRead a (a.inAt row (2 * (t + i * T) + 1)) := hlayout.in_onlyRead hrow (by omega)
    rw [rmsVecFirst_eq (row_word hwords hres _) (row_word hwords hin _)]
    exact ⟨.inr hlow, fun _ => ⟨.inr hhigh, fun _ => ⟨.inl hinLow, fun _ => ⟨.inl hinHigh, fun _ =>
      ⟨hlow, hhigh, trivial⟩⟩⟩⟩⟩
  second_within s given i hi := by
    obtain ⟨_, hlt⟩ := mem_vecRounds.mp hi
    have hlow : ∃ c ∈ vecColumns T t i, InColumn a row c (a.outAt row (2 * (t + i * T))) :=
      ⟨_, mem_vecColumns.mpr (by omega), .inr rfl⟩
    have hhigh : ∃ c ∈ vecColumns T t i, InColumn a row c (a.outAt row (2 * (t + i * T) + 1)) :=
      ⟨_, mem_vecColumns.mpr (by omega), .inr rfl⟩
    have hweightLow : OnlyRead a (a.weight + 2 * (t + i * T)) := hlayout.weight_onlyRead (by omega)
    have hweightHigh : OnlyRead a (a.weight + (2 * (t + i * T) + 1)) :=
      hlayout.weight_onlyRead (by omega)
    rw [rmsVecSecond_eq (row_word hwords hout _) (weight_word hweight)]
    exact ⟨.inl hweightLow, fun _ => ⟨.inl hweightHigh, fun _ => ⟨hlow, hhigh, trivial⟩⟩⟩
  first_run exchanged s i hi := by
    rw [rmsVecFirst_eq (row_word hwords hres _) (row_word hwords hin _)]
    rfl
  second_log exchanged given i hi := by
    obtain ⟨_, hlt⟩ := mem_vecRounds.mp hi
    have hcache : ((vecRounds T wpt words t).foldl (vecGather T a fmt m row t)
        (fun _ => (0, 0), 0)).1 i = vecLanes T a fmt m row t i := vecGather_cache _ _ (.inl hi)
    have hload : ∀ c < a.hiddenSize, Stores.store m (residualStores a fmt m row (vecColumns T t i))
        (a.weight + c) = m (a.weight + c) := by
      intro c hc
      refine Stores.store_of_not_mem (fun hstored => ?_) m
      obtain ⟨_, hw, heq⟩ := List.mem_map.mp hstored
      obtain ⟨c', hc', rfl⟩ := List.mem_map.mp hw
      have hword := mem_vecColumns.mp hc'
      exact hlayout.column_weight row hrow c' (by omega) _ (.inl rfl) c hc heq
    rw [rmsVecSecond_eq (row_word hwords hout _) (weight_word hweight), hcache]
    show [(a.outAt row (2 * (t + i * T)),
      normalizeAndWeight fmt _ _ (Stores.store m _ (a.weight + 2 * (t + i * T)))),
      (a.outAt row (2 * (t + i * T) + 1),
        normalizeAndWeight fmt _ _ (Stores.store m _ (a.weight + (2 * (t + i * T) + 1))))] = _
    rw [hload _ (by omega), hload _ (by omega)]
    rfl
  second_phase _ _ _ _ _ _ := rfl
  first_gives _ _ _ _ _ _ _ := trivial
  second_gives _ _ _ _ _ _ _ _ := trivial
  zero := rfl
  step s i _ := by
    unfold vecColumns
    rw [List.map_cons, List.map_singleton, List.sum_cons, List.sum_singleton]
    exact add_assoc _ _ _

end

/-! ## the launch -/

section
variable [Field F] {T : Nat} {a : RmsArgs F} {fmt : HalfFormat H F} {rsqrtf : F → F}
    {m m' : Nat → H} {log : List (Nat × H)}
  {own : Nat → Nat} {x : Nat → Nat → Prog Nat H F (Fin T) Unit}

/-- the sums that the threads of a block give add up to the sum of the row -/
theorem blockTotal_partials (hT : 0 < T) (h32 : T % 32 = 0) (hown : ∀ c < a.hiddenSize, own c < T)
    (row : Nat) :
    invRms rsqrtf (blockTotal fun t : Fin T => partialSum a fmt m own row t) a.hiddenSize a.eps =
      rowInvRms a fmt rsqrtf m row := by
  have hsum : ∑ t ∈ Finset.range T, partialSum a fmt m own row t = ∑ c ∈ Finset.range a.hiddenSize,
      square a fmt m row c :=
    Finset.sum_fiberwise_of_maps_to
      (fun c hc => Finset.mem_range.mpr (hown c (Finset.mem_range.mp hc))) _
  unfold rowInvRms
  rw [blockTotal_eq hT h32, ← hsum, Finset.sum_range]

theorem rms_independent (hlayout : RmsLayout a)
    (hthread : ∀ row < a.numTokens, ∀ t : Fin T, RmsThread a fmt rsqrtf m own row t (x row t)) :
    Independent (fun (b : Fin a.numTokens × Fin 1) (t : Fin T) => x b.1 t)
      (fun b _ t => partialSum a fmt m own b.1 t) m
      (OnlyRead a) (fun b t => OwnColumns a own b.1 t) fun _ => 1 where
  within b t := (hthread b.1 b.1.isLt t).within
  apart b t b' t' y := by
    rintro ⟨c, hc, howner, hy⟩ ⟨c', hc', howner', hy'⟩
    obtain ⟨hrow, rfl⟩ := hlayout.column b.1.isLt hc b'.1.isLt hc' hy hy'
    exact ⟨Prod.ext (Fin.ext hrow) (Subsingleton.elim _ _), Fin.ext (howner.symm.trans howner')⟩
  fixed b t y := by
    rintro ⟨c, hc, _, hy⟩ honly
    exact honly b.1 b.1.isLt c hc hy
  gives b t := (hthread b.1 b.1.isLt t).gives
  phase b t := (hthread b.1 b.1.isLt t).phase

theorem rms_written (hlayout : RmsLayout a) (hown : ∀ c < a.hiddenSize, own c < T)
    (hthread : ∀ row < a.numTokens, ∀ t : Fin T, RmsThread a fmt rsqrtf m own row t (x row t))
    (hends : Grid.Ends ⟨a.numTokens, 1, T, fun row _ tid => x row tid⟩ m m' log) :
    Written (RmsStore a fmt rsqrtf m) m m' log := by
  refine (Grid.written (rms_independent hlayout hthread)
    (fun b t => (hthread b.1 b.1.isLt t).nodup) hends).congr fun w => ?_
  constructor
  · rintro ⟨b, t, hw⟩
    obtain ⟨c, hc, _, hstore⟩ := ((hthread b.1 b.1.isLt t).log_iff w).mp hw
    exact ⟨b.1, b.1.isLt, c, hc, hstore⟩
  · rintro ⟨row, hrow, c, hc, hstore⟩
    exact ⟨(⟨row, hrow⟩, 0), ⟨own c, hown c hc⟩,
      ((hthread row hrow _).log_iff w).mpr ⟨c, hc, rfl, hstore⟩⟩

/-! ## whichever tier -/

variable (fmt rsqrtf) in
theorem scalar_threads (hT : 0 < T) (h32 : T % 32 = 0) (hlayout : RmsLayout a) (m : Nat → H) {row : Nat}
    (hrow : row < a.numTokens) (t : Fin T) : RmsThread a fmt rsqrtf m (· % T) row t
      (rmsNormResidualThread fmt rsqrtf a.out a.residual a.input a.weight a.numTokens a.hiddenSize a.eps row t) := by
  rw [scalarThread_eq hrow]
  exact (scalarThread_rounds hlayout hrow t).thread hlayout hrow
    (blockTotal_partials hT h32 (fun c _ => Nat.mod_lt c hT) row)

variable (fmt rsqrtf) in
theorem vec_threads (hT : 0 < T) (h32 : T % 32 = 0) (hlayout : RmsLayout a) {wpt words : Nat}
    (hwords : a.hiddenSize = 2 * words) (hout : a.out % 2 = 0) (hres : a.residual % 2 = 0)
    (hin : a.input % 2 = 0)
    (hweight : a.weight % 2 = 0) (hwpt : words ≤ wpt * T) (m : Nat → H) {row : Nat}
    (hrow : row < a.numTokens) (t : Fin T) :
    RmsThread a fmt rsqrtf m (· / 2 % T) row t
      (rmsNormResidualVecThread fmt rsqrtf wpt (a.out / 2) (a.residual / 2)
      (a.input / 2) (a.weight / 2) a.numTokens words a.hiddenSize a.eps row t) := by
  rw [vecThread_eq hrow]
  exact (vecThread_rounds hlayout hrow t hwords hout hres hin hweight hwpt).thread hlayout hrow
    (blockTotal_partials hT h32 (fun c _ => Nat.mod_lt _ hT) row)

theorem le_ceil_mul (hT : 0 < T) (words : Nat) : words ≤ (words + T - 1) / T * T := by
  have hparts := Nat.div_add_mod' (words + T - 1) T
  have hlast := Nat.mod_lt (words + T - 1) hT
  omega

variable (fmt rsqrtf) in
/-- the tier that the launcher selects -/
theorem launchImpl_threads (hT : 0 < T) (h32 : T % 32 = 0) (hlayout : RmsLayout a) :
    ∃ (own : Nat → Nat) (x : Nat → Nat → Prog Nat H F (Fin T) Unit),
      launchRmsNormResidualImpl fmt rsqrtf T a = ⟨a.numTokens, 1, T, fun row _ tid => x row tid⟩ ∧
        (∀ c, own c < T) ∧
      ∀ m, ∀ row < a.numTokens, ∀ t : Fin T, RmsThread a fmt rsqrtf m own row t (x row t) := by
  have hceil := le_ceil_mul hT (a.hiddenSize / 2)
  unfold launchRmsNormResidualImpl
  dsimp only
  split
  · rename_i hvec
    obtain ⟨heven, hwpt, hout, hres, hin, hweight⟩ := hvec
    rw [isHalf2Aligned_iff] at hout hres hin hweight
    have hwords : a.hiddenSize = 2 * (a.hiddenSize / 2) := by omega
    have htier : ∀ wpt, a.hiddenSize / 2 ≤ wpt * T →
        ∃ (own : Nat → Nat) (x : Nat → Nat → Prog Nat H F (Fin T) Unit),
        rmsNormResidualVecKernel fmt rsqrtf T wpt (a.out / 2) (a.residual / 2) (a.input / 2)
          (a.weight / 2) a.numTokens
          (a.hiddenSize / 2) a.hiddenSize a.eps = ⟨a.numTokens, 1, T, fun row _ tid => x row tid⟩ ∧
            (∀ c, own c < T) ∧
        ∀ m, ∀ row < a.numTokens, ∀ t : Fin T, RmsThread a fmt rsqrtf m own row t (x row t) :=
          fun wpt hcover =>
      ⟨(· / 2 % T), _, rfl, fun _ => Nat.mod_lt _ hT, fun m _ hrow t =>
        vec_threads fmt rsqrtf hT h32 hlayout hwords hout hres hin hweight hcover m hrow t⟩
    split
    · rename_i hone
      rw [hone] at hceil
      exact htier 1 hceil
    · rename_i htwo
      rw [htwo] at hceil
      exact htier 2 hceil
    · rename_i hthree
      rw [hthree] at hceil
      exact htier 3 hceil
    · exact htier kMaxWordsPerThread (hceil.trans (Nat.mul_le_mul_right T hwpt))
  · exact ⟨(· % T), _, rfl, fun _ => Nat.mod_lt _ hT,
      fun m _ hrow t => scalar_threads fmt rsqrtf hT h32 hlayout m hrow t⟩

variable (fmt rsqrtf) in
theorem launch_select {kBlockSm80 : Nat} (hpos : 0 < kBlockSm80) (h32 : kBlockSm80 % 32 = 0)
    (computeMajor : Int) (a : RmsArgs F) :
    let launch :=
      launchRmsNormResidual fmt rsqrtf kBlockSm80 computeMajor a.out a.residual a.input a.weight a.numTokens
      a.hiddenSize a.eps
    (launch = none ↔ a.numTokens = 0 ∨ a.hiddenSize = 0) ∧
    ∀ g, launch = some g → ∃ T, 0 < T ∧ T % 32 = 0 ∧ launchRmsNormResidualImpl fmt rsqrtf T a = g := by
  unfold launchRmsNormResidual
  dsimp only
  rw [Int.toNat_natCast, Int.toNat_natCast]
  split
  · exact ⟨iff_of_true rfl (by omega), fun g hg => by cases hg⟩
  · split
    · refine ⟨iff_of_false (Option.some_ne_none _) (by omega), fun g hg => ?_⟩
      exact ⟨kBlockSm80, hpos, h32, Option.some.inj hg⟩
    · refine ⟨iff_of_false (Option.some_ne_none _) (by omega), fun g hg => ?_⟩
      exact ⟨kBlockPre80, by decide, by decide, Option.some.inj hg⟩

/-- **The tiers agree with the row at a time**, in any order of the threads. -/
theorem rmsNormResidual_tiers_agree (fmt : HalfFormat H F) (rsqrtf : F → F) {kBlockSm80 : Nat}
    (hpos : 0 < kBlockSm80)
    (h32 : kBlockSm80 % 32 = 0) (computeMajor : Int) (a : RmsArgs F) (hapart : RmsApart a)
    (m : Nat → H) :
    let launch :=
      launchRmsNormResidual fmt rsqrtf kBlockSm80 computeMajor a.out a.residual a.input a.weight a.numTokens
      a.hiddenSize a.eps
    (launch = none ↔ a.numTokens = 0 ∨ a.hiddenSize = 0) ∧
    ∀ g, launch = some g →
      KeepsToColumns a g ∧ (∃ m' log, g.Ends m m' log) ∧
      ∀ m' log, g.Ends m m' log →
        (log.map Prod.fst).Nodup ∧ (∀ w, w ∈ log ↔ RmsStore a fmt rsqrtf m w) ∧
        (∀ row < a.numTokens, ∀ c < a.hiddenSize, m' (a.resAt row c) = newResidual a fmt m row c ∧
          m' (a.outAt row c) = normed a fmt rsqrtf m row c) ∧
        ∀ x, OnlyRead a x → m' x = m x := by
  intro launch
  have hlayout := hapart.layout
  have htier : ∀ T, 0 < T → T % 32 = 0 → ∀ g, launchRmsNormResidualImpl fmt rsqrtf T a = g →
      KeepsToColumns a g ∧
      (∃ m' log, g.Ends m m' log) ∧ ∀ m' log, g.Ends m m' log →
        Written (RmsStore a fmt rsqrtf m) m m' log := by
    rintro T hT hmod g rfl
    obtain ⟨own, x, heq, hown, hthread⟩ := launchImpl_threads fmt rsqrtf hT hmod hlayout
    rw [heq]
    exact ⟨⟨own, hown, (rms_independent hlayout (hthread m)).within, fun b b' t t' =>
        (rms_independent hlayout (hthread m)).apart b t b' t'⟩,
      Grid.exists_ends (rms_independent hlayout (hthread m)),
      fun m' log hends => rms_written hlayout (fun c _ => hown c) (hthread m) hends⟩
  obtain ⟨hnone, hselect⟩ := launch_select fmt rsqrtf hpos h32 computeMajor a
  refine ⟨hnone, fun g hg => ?_⟩
  obtain ⟨T, hT, hmod, hg⟩ := hselect g hg
  obtain ⟨hwithin, hexists, hends⟩ := htier T hT hmod g hg
  refine ⟨hwithin, hexists, fun m' log h => ?_⟩
  have hwritten := hends m' log h
  refine ⟨hwritten.nodup, hwritten.log_iff, fun row hrow c hc => ⟨?_, ?_⟩,
    fun x hx => hwritten.frame ?_⟩
  · exact hwritten.at ⟨row, hrow, c, hc, .inl rfl⟩
  · exact hwritten.at ⟨row, hrow, c, hc, .inr rfl⟩
  · rintro v ⟨row, hrow, c, hc, heq | heq⟩
    · exact hx row hrow c hc (.inl (congrArg Prod.fst heq))
    · exact hx row hrow c hc (.inr (congrArg Prod.fst heq))

/-- rows of five, which only the scalar kernel takes -/
theorem rmsNormResidual_tiers_agree_odd : ∃ g m' log,
    launchRmsNormResidual (⟨id, id⟩ : HalfFormat Rat Rat) (1 / ·) 64 8 0 40 80 120 2 5 1 = some g ∧
    g.Ends (fun x => x) m' log ∧ m' (40 + 1 * 5 + 2) = 47 + 87 := by
  let a : RmsArgs Rat := ⟨0, 40, 80, 120, 2, 5, 1⟩
  have hapart : RmsApart a :=
    ⟨.inl (by decide), .inl (by decide), .inl (by decide), .inl (by decide), .inl (by decide)⟩
  obtain ⟨hnone, hsome⟩ :=
    rmsNormResidual_tiers_agree (⟨id, id⟩ : HalfFormat Rat Rat) (1 / ·) (show 0 < 64 by decide)
    (by decide) 8 a hapart fun x => x
  obtain ⟨g, hg⟩ := Option.ne_none_iff_exists'.mp fun h => absurd (hnone.mp h) (by decide)
  obtain ⟨_, ⟨m', log, hends⟩, hstores⟩ := hsome g hg
  refine ⟨g, m', log, hg, hends, ((hstores m' log hends).2.2.1 1 (by decide) 2 (by decide)).1.trans ?_⟩
  show ((40 + 1 * 5 + 2 : Nat) : Rat) + ((80 + 1 * 5 + 2 : Nat) : Rat) = 47 + 87
  rfl

end
end Redline
