import Mathlib.Tactic.Ring
import Redline.Kernels.Half
import Redline.Lib.Launch

/-!
# rope

`kernels/rope.cu` rotates the pairs of the Q and K heads of the fused QKV rows in place, with a block for
several heads of a row or a block for each head.  The threads take their steps in any order; indices and
the grid are unbounded.

* `RopeMapping`                 each pair has one thread, and no two threads share an element;
* `sharedLaunch_assignment`, `perHeadLaunch_assignment`   the pairs of the threads of the two kernels;
* `rope_mappings_agree`         both leave each pair rotated once from the values before, and nothing else
                                changed.
-/

namespace Redline
open Threads
variable {H F : Type}

/-- the float functions of the kernel; `sincosf` gives the sine first -/
structure RopeMath (F : Type) where
  ofInt : Int → F
  pow : F → F → F
  sincosf : F → F × F

/-- the arguments of a kernel, and the constant table `g_inv_freq` -/
structure RopeArgs (F : Type) where
  q : Nat
  k : Nat
  qRowStride : Nat
  kRowStride : Nat
  positions : Nat → Int
  numQHeads : Nat
  totalHeads : Nat
  headDim : Nat
  invFreq : Nat → F

def kMaxRotaryPairs : Nat := 64

def RopeArgs.halfDim (a : RopeArgs F) : Nat := a.headDim / 2

def headBase (a : RopeArgs F) (row head : Nat) : Nat :=
  if head < a.numQHeads then a.q + row * a.qRowStride + head * a.headDim
  else a.k + row * a.kRowStride + (head - a.numQHeads) * a.headDim

/-! ## the kernels -/

section
variable [Add F] [Mul F] [Neg F] (fmt : HalfFormat H F) (math : RopeMath F)

def rotatePair {S τ : Type} (headBase d halfDim : Nat) (cosH sinH : F) : Prog Nat H S τ Unit := do
  let iLo := d
  let iHi := d + halfDim
  let x1 := fmt.half2float (← get (headBase + iLo))
  let x2 := fmt.half2float (← get (headBase + iHi))
  let loCosTerm := fmt.float2halfRn (x1 * cosH)
  let loSinTerm := fmt.float2halfRn (-x2 * sinH)
  let hiCosTerm := fmt.float2halfRn (x2 * cosH)
  let hiSinTerm := fmt.float2halfRn (x1 * sinH)
  put (headBase + iLo) (fmt.float2halfRn (fmt.half2float loCosTerm + fmt.half2float loSinTerm))
  put (headBase + iHi) (fmt.float2halfRn (fmt.half2float hiCosTerm + fmt.half2float hiSinTerm))

/-- the rounded cosine and sine of pair `d` of a row -/
def rotEntry (a : RopeArgs F) (row d : Nat) : F × F :=
  let pos := math.ofInt (a.positions row)
  let angle := pos * a.invFreq d
  let sinCos := math.sincosf angle
  (fmt.half2float (fmt.float2halfRn sinCos.2), fmt.half2float (fmt.float2halfRn sinCos.1))

/-- `rot[d]` in shared memory after the barrier, when `rot` was there before and the threads stored `given` -/
def sharedRot {T : Nat} (rot : Nat → F × F) (given : Fin T → Option (F × F)) (d : Nat) : F × F :=
  if h : d < T ∧ d < kMaxRotaryPairs then (given ⟨d, h.1⟩).getD (rot d) else rot d

def ropeInplaceSharedThread {T : Nat} (hpb : Nat) (rot : Nat → Nat → Nat → F × F) (a : RopeArgs F)
    (row group tid : Nat) :
    Prog Nat H (Option (F × F)) (Fin T) Unit := do
  let halfDim := a.halfDim
  let given ← barrier (if tid < halfDim then some (rotEntry fmt math a row tid) else none)
  let head := group * hpb + tid / halfDim
  if head ≥ a.totalHeads then
    return
  let d := tid % halfDim
  let cs := sharedRot (rot row group) given d
  rotatePair fmt (headBase a row head) d halfDim cs.1 cs.2

def ropeInplaceThread {S τ : Type} (a : RopeArgs F) (row head d : Nat) : Prog Nat H S τ Unit := do
  let halfDim := a.halfDim
  let cs := rotEntry fmt math a row d
  rotatePair fmt (headBase a row head) d halfDim cs.1 cs.2

def ropeInplaceSharedKernel (gridX gridY blockDim hpb : Nat) (rot : Nat → Nat → Nat → F × F)
    (a : RopeArgs F) :
    Grid Nat H (Option (F × F)) where
  gridX := gridX
  gridY := gridY
  blockDim := blockDim
  thread := ropeInplaceSharedThread fmt math hpb rot a

def ropeInplaceKernel (gridX gridY blockDim : Nat) (a : RopeArgs F) : Grid Nat H (Option (F × F)) where
  gridX := gridX
  gridY := gridY
  blockDim := blockDim
  thread := ropeInplaceThread fmt math a

/-! ## the launcher -/

/-- `hpb` heads for each block -/
def sharedLaunch (hpb : Nat) (rot : Nat → Nat → Nat → F × F) (a : RopeArgs F) (numTokens : Nat) :
    Grid Nat H (Option (F × F)) :=
  let headGroups := (a.totalHeads + hpb - 1) / hpb
  ropeInplaceSharedKernel fmt math numTokens headGroups (hpb * a.halfDim) hpb rot a

def perHeadLaunch (a : RopeArgs F) (numTokens : Nat) : Grid Nat H (Option (F × F)) :=
  ropeInplaceKernel fmt math numTokens a.totalHeads a.halfDim a

/-- what the table on the device holds, and for which arguments it was made -/
structure InvFreqCacheState (F : Type) where
  theta : F
  numPairs : Nat
  table : Nat → F

section
variable [Zero F] [One F] [Div F] [LE F] [DecidableLE F] [DecidableEq F]

def invFreqTable (ropeTheta : F) (headDim d : Nat) : F :=
  let exponent := math.ofInt (2 * d) / math.ofInt headDim
  1 / math.pow ropeTheta exponent

/-- `none` where a call to the device fails -/
def ensureInvFreqTable (uploads : Bool) (s : InvFreqCacheState F) (ropeTheta : F) (headDim : Nat) :
    Option (InvFreqCacheState F) :=
  let numPairs := headDim / 2
  if s.theta = ropeTheta ∧ s.numPairs = numPairs then some s
  else if uploads then
    some ⟨ropeTheta, numPairs, fun d =>
      if d < numPairs then invFreqTable math ropeTheta headDim d else s.table d⟩
  else none

def launchRopeInplace (hpb : Nat) (computeMajor : Int) (uploads : Bool) (rot : Nat → Nat → Nat → F × F)
    (s : InvFreqCacheState F) (q k qRowStride kRowStride : Nat) (positions : Nat → Int)
    (numTokens numQHeads numKvHeads headDim : Int) (ropeTheta : F) :
    InvFreqCacheState F × Option (Grid Nat H (Option (F × F))) :=
  let totalHeads := numQHeads + numKvHeads
  if numTokens ≤ 0 ∨ totalHeads ≤ 0 then (s, none)
  else if numQHeads < 0 ∨ numKvHeads < 0 ∨ headDim ≤ 0 ∨ headDim % 2 ≠ 0 ∨
    headDim / 2 > kMaxRotaryPairs ∨ ropeTheta ≤ 0 then
    (s, none)
  else
    match ensureInvFreqTable math uploads s ropeTheta headDim.toNat with
    | none => (s, none)
    | some s =>
      let a : RopeArgs F :=
        ⟨q, k, qRowStride, kRowStride, positions, numQHeads.toNat, totalHeads.toNat,
          headDim.toNat, s.table⟩
      if computeMajor ≥ 8 ∧ hpb > 1 then (s, some (sharedLaunch fmt math hpb rot a numTokens.toNat))
      else (s, some (perHeadLaunch fmt math a numTokens.toNat))

/-- `EnqueueDecodeForward`: the Q and K views of the fused buffer -/
def enqueueRope (hpb : Nat) (computeMajor : Int) (uploads : Bool) (rot : Nat → Nat → Nat → F × F)
    (s : InvFreqCacheState F)
    (qkv : Nat) (positions : Nat → Int) (rows numQHeads numKvHeads headDim : Nat) (ropeTheta : F) :
    InvFreqCacheState F × Option (Grid Nat H (Option (F × F))) :=
  let qkvWidth := (numQHeads + 2 * numKvHeads) * headDim
  let kViewOffset := numQHeads * headDim
  launchRopeInplace fmt math hpb computeMajor uploads rot s qkv
    (qkv + kViewOffset) qkvWidth qkvWidth positions rows numQHeads
    numKvHeads headDim ropeTheta

end
end

/-! ## pairs -/

section
variable (a : RopeArgs F)

/-- the cells of pair `d` of a head -/
def InPair (row head d x : Nat) : Prop :=
  x = headBase a row head + d ∨ x = headBase a row head + (d + a.halfDim)

/-- alone, the thread stores to both elements of the pair and to no other cell -/
def Visits {S τ : Type} (x : Prog Nat H S τ Unit) (row head d : Nat) : Prop := ∀ exchanged m,
  (run exchanged x 0 m).log.map Prod.fst
    = [headBase a row head + d, headBase a row head + (d + a.halfDim)]

/-- each pair has one thread; a thread touches its pair only, and no other thread touches that -/
structure RopeMapping {S : Type} (n : Nat) (g : Grid Nat H S) : Prop where
  once : ∀ row < n, ∀ head < a.totalHeads, ∀ d < a.halfDim,
    ∃! i : (Fin g.gridX × Fin g.gridY) × Fin g.blockDim, Visits a (g.threads i.1 i.2) row head d
  touches : ∀ b t, Within (fun _ => False) (fun _ => False) (g.threads b t) ∨
    ∃ row < n, ∃ head < a.totalHeads, ∃ d < a.halfDim,
      Visits a (g.threads b t) row head d ∧
        Within (fun _ => False) (InPair a row head d) (g.threads b t)
  apart : ∀ b t b' t' row head d row' head' d', Visits a (g.threads b t) row head d →
    Visits a (g.threads b' t') row' head' d' → (b, t) ≠ (b', t') → ∀ x, InPair a row head d x →
      ¬ InPair a row' head' d' x

/-- the elements of the Q and K heads lie apart -/
def RopeLayout (n : Nat) : Prop := ∀ row < n, ∀ head < a.totalHeads, ∀ c < 2 * a.halfDim,
  ∀ row' < n, ∀ head' < a.totalHeads, ∀ c' < 2 * a.halfDim,
    headBase a row head + c = headBase a row' head' + c' → row = row' ∧ head = head' ∧ c = c'

variable {a} {n : Nat}

theorem RopeLayout.pair (h : RopeLayout a n) {row head d row' head' d' x : Nat} (hrow : row < n)
    (hhead : head < a.totalHeads)
    (hd : d < a.halfDim) (hrow' : row' < n) (hhead' : head' < a.totalHeads) (hd' : d' < a.halfDim)
    (hx : InPair a row head d x) (hx' : InPair a row' head' d' x) :
    (row, head, d) = (row', head', d') := by
  have hsame : ∀ c < 2 * a.halfDim, ∀ c' < 2 * a.halfDim,
      headBase a row head + c = headBase a row' head' + c' →
      row = row' ∧ head = head' ∧ c = c' :=
        fun c hc c' hc' => h row hrow head hhead c hc row' hrow' head' hhead' c' hc'
  rcases hx with rfl | rfl <;> rcases hx' with hx' | hx'
  all_goals
    obtain ⟨rfl, rfl, hc⟩ := hsame _ (by omega) _ (by omega) hx'
    rw [show d = d' by omega]

end

section
variable [Add F] [Mul F] [Neg F] (fmt : HalfFormat H F) (math : RopeMath F) (a : RopeArgs F)

/-- a pair times its rotation: each product rounds to FP16, and so does each sum -/
def rotated (cs : F × F) (x : H × H) : H × H :=
  let prod := fun x c : F => fmt.half2float (fmt.float2halfRn (x * c))
  (fmt.float2halfRn (prod (fmt.half2float x.1) cs.1 + prod (-fmt.half2float x.2) cs.2),
    fmt.float2halfRn (prod (fmt.half2float x.2) cs.1 + prod (fmt.half2float x.1) cs.2))

/-- **Each pair rotated once from the values before**, and nothing else changed. -/
structure RotatedOnce (n : Nat) (m m' : Nat → H) : Prop where
  pair : ∀ row < n, ∀ head < a.totalHeads, ∀ d < a.halfDim,
    let base := headBase a row head
    (m' (base + d), m' (base + (d + a.halfDim))) =
      rotated fmt (rotEntry fmt math a row d) (m (base + d), m (base + (d + a.halfDim)))
  frame : ∀ x, (∀ row < n, ∀ head < a.totalHeads, ∀ d < a.halfDim, ¬ InPair a row head d x) → m' x = m x

/-- the stores that rotate a pair -/
def pairStores (cs : F × F) (m : Nat → H) (row head d : Nat) : List (Nat × H) :=
  let base := headBase a row head
  let y := rotated fmt cs (m (base + d), m (base + (d + a.halfDim)))
  [(base + d, y.1), (base + (d + a.halfDim), y.2)]

variable {S τ : Type} {row head d : Nat} {cs : F × F}

theorem rotatePair_within : Within (fun _ => False) (InPair a row head d)
    (rotatePair fmt (headBase a row head) d a.halfDim cs.1 cs.2 : Prog Nat H S τ Unit) :=
  ⟨.inr (.inl rfl), fun _ => ⟨.inr (.inr rfl), fun _ => ⟨.inl rfl, .inr rfl, trivial⟩⟩⟩

/-! ## the pairs of the threads -/

/-- which pair each thread of a launch rotates -/
structure RopeAssignment (n : Nat) (g : Grid Nat H S)
    (exchanged : Fin g.gridX × Fin g.gridY → Nat → Fin g.blockDim → S)
    (phases : Nat) (visit : Fin g.gridX × Fin g.gridY → Fin g.blockDim →
      Option (Nat × Nat × Nat)) : Prop where
  total : ∀ row < n, ∀ head < a.totalHeads, ∀ d < a.halfDim, ∃ b t, visit b t = some (row, head, d)
  inj : ∀ b t b' t' v, visit b t = some v → visit b' t' = some v → b = b' ∧ t = t'
  bound : ∀ b t row head d, visit b t = some (row, head, d) → row < n ∧ head < a.totalHeads ∧
    d < a.halfDim
  idle : ∀ b t, visit b t = none → Within (fun _ => False) (fun _ => False) (g.threads b t)
  within : ∀ b t row head d, visit b t = some (row, head, d) →
    Within (fun _ => False) (InPair a row head d) (g.threads b t)
  visits : ∀ b t row head d, visit b t = some (row, head, d) → Visits a (g.threads b t) row head d
  log : ∀ b t row head d, visit b t = some (row, head, d) → ∀ m,
    (run (exchanged b) (g.threads b t) 0 m).log = pairStores fmt a
    (rotEntry fmt math a row d) m row head d
  gives : ∀ b t m, Gives (exchanged b) t (g.threads b t) 0 m
  phase : ∀ b t m, (run (exchanged b) (g.threads b t) 0 m).phase = phases

end

/-! ## the shared table -/

section
variable {a : RopeArgs F}

/-- the pair of a thread, and none for a thread past the last head -/
def sharedVisit (a : RopeArgs F) (hpb row group tid : Nat) : Option (Nat × Nat × Nat) :=
  if group * hpb + tid / a.halfDim ≥ a.totalHeads then none
  else some (row, group * hpb + tid / a.halfDim, tid % a.halfDim)

/-- what the threads of a block store in shared memory -/
def sharedTable [Mul F] (fmt : HalfFormat H F) (math : RopeMath F) (a : RopeArgs F) (row : Nat)
    {T : Nat} (t : Fin T) :
    Option (F × F) := if t < a.halfDim then some (rotEntry fmt math a row t) else none

theorem sharedVisit_eq_some {hpb row group tid row' head d : Nat} :
    sharedVisit a hpb row group tid = some (row', head, d) ↔
      row = row' ∧ group * hpb + tid / a.halfDim = head ∧ tid % a.halfDim = d ∧
        head < a.totalHeads := by
  unfold sharedVisit
  split
  · rename_i hlast
    refine iff_of_false (by exact fun h => by cases h) ?_
    rintro ⟨_, rfl, _, hlt⟩
    exact absurd hlast (Nat.not_le.mpr hlt)
  · rename_i hlast
    rw [Option.some_inj, Prod.mk.injEq, Prod.mk.injEq]
    refine ⟨?_, fun ⟨hrow, hhead, hd, _⟩ => ⟨hrow, hhead, hd⟩⟩
    rintro ⟨rfl, rfl, rfl⟩
    exact ⟨rfl, rfl, rfl, Nat.not_le.mp hlast⟩

/-- the table holds the rotation of each pair -/
theorem sharedRot_table [Mul F] {fmt : HalfFormat H F} {math : RopeMath F} {hpb row d : Nat}
    (rot : Nat → F × F) (hhpb : 1 ≤ hpb) (hhalf : a.halfDim ≤ kMaxRotaryPairs)
    (hd : d < a.halfDim) : sharedRot rot (sharedTable fmt math a row : Fin (hpb * a.halfDim) → _) d =
      rotEntry fmt math a row d := by
  have hblock : d < hpb * a.halfDim := hd.trans_le (Nat.le_mul_of_pos_left _ hhpb)
  unfold sharedRot
  rw [dif_pos ⟨hblock, hd.trans_le hhalf⟩]
  show (if d < a.halfDim then _ else _ : Option (F × F)).getD (rot d) = _
  rw [if_pos hd]
  rfl

end

section
variable [Add F] [Mul F] [Neg F] {fmt : HalfFormat H F} {math : RopeMath F} {a : RopeArgs F}
    {S : Type} {n phases : Nat}
  {g : Grid Nat H S} {exchanged : Fin g.gridX × Fin g.gridY → Nat → Fin g.blockDim → S}
  {visit : Fin g.gridX × Fin g.gridY → Fin g.blockDim → Option (Nat × Nat × Nat)} {m m' : Nat →
    H} {log : List (Nat × H)}

theorem RopeAssignment.idle_log (h : RopeAssignment fmt math a n g exchanged phases visit) {b t}
    (hv : visit b t = none)
    (ex : Nat → Fin g.blockDim → S) (m : Nat → H) : (run ex (g.threads b t) 0 m).log = [] := by
  refine List.eq_nil_iff_forall_not_mem.mpr fun w hw => ?_
  exact log_within (h.idle b t hv) 0 m w hw

/-- a thread that stores to a pair has one, of the same cells -/
theorem RopeAssignment.visit_some (h : RopeAssignment fmt math a n g exchanged phases visit)
    (m : Nat → H) {b t}
    {row head d : Nat} (hvisits : Visits a (g.threads b t) row head d) : ∃ row' head' d',
    visit b t = some (row', head', d') ∧ ∀ x, InPair a row head d x → InPair a row' head' d' x := by
  have hkeys := hvisits (exchanged b) m
  cases hv : visit b t with
  | none =>
    rw [h.idle_log hv] at hkeys
    exact absurd hkeys (List.cons_ne_nil _ _).symm
  | some v =>
    obtain ⟨row', head', d'⟩ := v
    rw [h.visits b t row' head' d' hv] at hkeys
    obtain ⟨hlo, hhi⟩ := List.cons.inj hkeys
    refine ⟨row', head', d', rfl, fun x hx => ?_⟩
    unfold InPair at hx ⊢
    rwa [hlo, (List.cons.inj hhi).1]

theorem RopeAssignment.mapping (h : RopeAssignment fmt math a n g exchanged phases visit)
    (hlayout : RopeLayout a n) (m : Nat → H) : RopeMapping a n g where
  once row hrow head hhead d hd := by
    obtain ⟨b, t, hv⟩ := h.total row hrow head hhead d hd
    refine ⟨(b, t), h.visits b t row head d hv, fun i hi => ?_⟩
    obtain ⟨row', head', d', hv', hcells⟩ := h.visit_some m hi
    obtain ⟨hrow', hhead', hd'⟩ := h.bound _ _ _ _ _ hv'
    have hpair := hlayout.pair hrow hhead hd hrow' hhead' hd' (.inl rfl) (hcells _ (.inl rfl))
    obtain ⟨hb, ht⟩ := h.inj _ _ _ _ _ hv' (hpair ▸ hv)
    exact Prod.ext hb ht
  touches b t := by
    cases hv : visit b t with
    | none => exact .inl (h.idle b t hv)
    | some v =>
      obtain ⟨row, head, d⟩ := v
      obtain ⟨hrow, hhead, hd⟩ := h.bound b t row head d hv
      exact .inr ⟨row, hrow, head, hhead, d, hd, h.visits b t row head d hv, h.within b t row head d hv⟩
  apart b t b' t' row head d row' head' d' hvisits hvisits' hne x hx hx' := by
    obtain ⟨r, h₁, d₁, hv, hcells⟩ := h.visit_some m hvisits
    obtain ⟨r', h₂, d₂, hv', hcells'⟩ := h.visit_some m hvisits'
    obtain ⟨hr, hh, hd⟩ := h.bound _ _ _ _ _ hv
    obtain ⟨hr', hh', hd'⟩ := h.bound _ _ _ _ _ hv'
    have hpair := hlayout.pair hr hh hd hr' hh' hd' (hcells x hx) (hcells' x hx')
    obtain ⟨hb, ht⟩ := h.inj _ _ _ _ _ hv (hpair ▸ hv')
    exact hne (Prod.ext hb ht)

theorem RopeAssignment.independent (h : RopeAssignment fmt math a n g exchanged phases visit)
    (hlayout : RopeLayout a n) (m : Nat → H) : Independent g.threads exchanged m (fun _ => False)
      (fun b t x => ∃ row head d, visit b t = some (row, head, d) ∧ InPair a row head d x) fun _ =>
        phases where
  within b t := by
    cases hv : visit b t with
    | none => exact (h.idle b t hv).mono fun _ => False.elim
    | some v => exact (h.within b t _ _ _ hv).mono fun x hx => ⟨_, _, _, rfl, hx⟩
  apart b t b' t' x := by
    rintro ⟨row, head, d, hv, hx⟩ ⟨row', head', d', hv', hx'⟩
    obtain ⟨hrow, hhead, hd⟩ := h.bound b t row head d hv
    obtain ⟨hrow', hhead', hd'⟩ := h.bound b' t' row' head' d' hv'
    have hpair := hlayout.pair hrow hhead hd hrow' hhead' hd' hx hx'
    exact h.inj b t b' t' _ hv (hpair ▸ hv')
  fixed _ _ _ _ := id
  gives b t := h.gives b t m
  phase b t := h.phase b t m

/-- the stores of a launch are those that rotate its pairs -/
theorem RopeAssignment.written (h : RopeAssignment fmt math a n g exchanged phases visit)
    (hlayout : RopeLayout a n)
    (hends : g.Ends m m' log) : Written (fun w => ∃ row < n, ∃ head < a.totalHeads, ∃ d < a.halfDim,
      w ∈ pairStores fmt a (rotEntry fmt math a row d) m row head d) m m' log := by
  refine (Grid.written (h.independent hlayout m) (fun b t => ?_) hends).congr fun w => ⟨?_, ?_⟩
  · cases hv : visit b t with
    | none =>
      rw [h.idle_log hv]
      exact List.nodup_nil
    | some v =>
      obtain ⟨row, head, d⟩ := v
      obtain ⟨_, _, hd⟩ := h.bound b t row head d hv
      rw [h.visits b t row head d hv]
      refine List.nodup_cons.mpr ⟨fun hin => ?_, List.nodup_singleton _⟩
      have heq := List.mem_singleton.mp hin
      omega
  · rintro ⟨b, t, hw⟩
    cases hv : visit b t with
    | none =>
      rw [h.idle_log hv] at hw
      exact absurd hw List.not_mem_nil
    | some v =>
      obtain ⟨row, head, d⟩ := v
      obtain ⟨hrow, hhead, hd⟩ := h.bound b t row head d hv
      rw [h.log b t row head d hv] at hw
      exact ⟨row, hrow, head, hhead, d, hd, hw⟩
  · rintro ⟨row, hrow, head, hhead, d, hd, hw⟩
    obtain ⟨b, t, hv⟩ := h.total row hrow head hhead d hd
    refine ⟨b, t, ?_⟩
    rw [h.log b t row head d hv]
    exact hw

theorem RopeAssignment.rotatedOnce (h : RopeAssignment fmt math a n g exchanged phases visit)
    (hlayout : RopeLayout a n) (hends : g.Ends m m' log) : RotatedOnce fmt math a n m m' := by
  have hwritten := h.written hlayout hends
  constructor
  · intro row hrow head hhead d hd base
    have hlo := hwritten.at ⟨row, hrow, head, hhead, d, hd, List.mem_cons_self⟩
    have hhi :=
      hwritten.at ⟨row, hrow, head, hhead, d, hd,
        List.mem_cons_of_mem _ (List.mem_singleton_self _)⟩
    exact Prod.ext hlo hhi
  · intro x hx
    refine hwritten.frame ?_
    rintro v ⟨row, hrow, head, hhead, d, hd, hw⟩
    refine hx row hrow head hhead d hd ?_
    rcases List.mem_cons.mp hw with heq | hw
    · exact .inl (congrArg Prod.fst heq)
    · exact .inr (congrArg Prod.fst (List.mem_singleton.mp hw))

/-! ## the two kernels -/

theorem perHeadLaunch_assignment (fmt : HalfFormat H F) (math : RopeMath F) (a : RopeArgs F) (n : Nat) :
    RopeAssignment fmt math a n (perHeadLaunch fmt math a n) (fun _ _ _ => none) 0
      fun b t => some (b.1, b.2, t) where
  total row hrow head hhead d hd := ⟨(⟨row, hrow⟩, ⟨head, hhead⟩), ⟨d, hd⟩, rfl⟩
  inj b t b' t' v hv hv' := by
    have heq := Option.some.inj (hv.trans hv'.symm)
    simp only [Prod.mk.injEq] at heq
    exact ⟨Prod.ext (Fin.ext heq.1) (Fin.ext heq.2.1), Fin.ext heq.2.2⟩
  bound b t row head d hv := by
    obtain ⟨rfl, rfl, rfl⟩ := hv
    exact ⟨b.1.isLt, b.2.isLt, t.isLt⟩
  idle b t hv := by cases hv
  within b t row head d hv := by
    obtain ⟨rfl, rfl, rfl⟩ := hv
    exact rotatePair_within fmt a
  visits b t row head d hv := by
    obtain ⟨rfl, rfl, rfl⟩ := hv
    exact fun _ _ => rfl
  log b t row head d hv := by
    obtain ⟨rfl, rfl, rfl⟩ := hv
    exact fun _ => rfl
  gives _ _ _ := trivial
  phase _ _ _ := rfl

section
variable {T hpb row group tid head d : Nat} {rot : Nat → Nat → Nat → F × F}

/-- a thread past the last head leaves after the barrier -/
theorem sharedThread_idle (fmt : HalfFormat H F) (math : RopeMath F)
    (hv : sharedVisit a hpb row group tid = none) :
    (ropeInplaceSharedThread fmt math hpb rot a row group tid : Prog Nat H (Option (F × F)) (Fin T) Unit) =
      .exchange (if tid < a.halfDim then some (rotEntry fmt math a row tid) else none) fun _ =>
        .ret () := by
  have hlast : group * hpb + tid / a.halfDim ≥ a.totalHeads := by
    by_contra hlt
    unfold sharedVisit at hv
    rw [if_neg hlt] at hv
    cases hv
  show Prog.exchange _ _ = Prog.exchange _ _
  congr 1
  funext given
  exact if_pos hlast

/-- the others rotate their pair -/
theorem sharedThread_busy (fmt : HalfFormat H F) (math : RopeMath F) {row' : Nat}
    (hv : sharedVisit a hpb row group tid = some (row', head, d)) :
    (ropeInplaceSharedThread fmt math hpb rot a row group tid : Prog Nat H (Option (F × F)) (Fin T) Unit) =
      .exchange (if tid < a.halfDim then some (rotEntry fmt math a row tid) else none) fun given =>
        rotatePair fmt (headBase a row' head) d a.halfDim (sharedRot (rot row group) given d).1
          (sharedRot (rot row group) given d).2 := by
  obtain ⟨rfl, rfl, rfl, hhead⟩ := sharedVisit_eq_some.mp hv
  show Prog.exchange _ _ = Prog.exchange _ _
  congr 1
  funext given
  exact if_neg (Nat.not_le.mpr hhead)

end

theorem sharedLaunch_assignment (fmt : HalfFormat H F) (math : RopeMath F) (a : RopeArgs F)
    (n : Nat) {hpb : Nat}
    (rot : Nat → Nat → Nat → F × F) (hhpb : 1 ≤ hpb) (hhalf : a.halfDim ≤ kMaxRotaryPairs) :
    RopeAssignment fmt math a n (sharedLaunch fmt math hpb rot a n)
      (fun b _ => sharedTable fmt math a b.1) 1
      fun b t => sharedVisit a hpb b.1 b.2 t where
  total row hrow head hhead d hd := by
    have hgroup : head / hpb < (a.totalHeads + hpb - 1) / hpb := by
      rw [Nat.lt_iff_add_one_le, Nat.le_div_iff_mul_le hhpb, Nat.add_mul, Nat.one_mul]
      have := Nat.div_mul_le_self head hpb
      omega
    have hlane := Nat.mod_lt head hhpb
    have htid : head % hpb * a.halfDim + d < hpb * a.halfDim := Stores.row_lt hd hlane
    refine ⟨(⟨row, hrow⟩, ⟨head / hpb, hgroup⟩), ⟨head % hpb * a.halfDim + d, htid⟩,
      sharedVisit_eq_some.mpr ?_⟩
    show row = row ∧ head / hpb * hpb + (head % hpb * a.halfDim + d) / a.halfDim = head ∧
      (head % hpb * a.halfDim + d) % a.halfDim = d ∧ head < a.totalHeads
    have hdiv : (head % hpb * a.halfDim + d) / a.halfDim = head % hpb := by
      rw [Nat.mul_comm, Nat.mul_add_div (by omega), Nat.div_eq_of_lt hd, Nat.add_zero]
    have hmod : (head % hpb * a.halfDim + d) % a.halfDim = d := by
      rw [Nat.mul_comm, Nat.mul_add_mod, Nat.mod_eq_of_lt hd]
    rw [hdiv, hmod]
    exact ⟨rfl, Nat.div_add_mod' head hpb, rfl, hhead⟩
  inj b t b' t' v hv hv' := by
    obtain ⟨row, head, d⟩ := v
    obtain ⟨hrow, hhead, hd, _⟩ := sharedVisit_eq_some.mp hv
    obtain ⟨hrow', hhead', hd', _⟩ := sharedVisit_eq_some.mp hv'
    have hhalf : 0 < a.halfDim := Nat.pos_of_mul_pos_left (Nat.zero_lt_of_lt t.isLt)
    have hlt : (t : Nat) / a.halfDim < hpb := (Nat.div_lt_iff_lt_mul hhalf).mpr t.isLt
    have hlt' : (t' : Nat) / a.halfDim < hpb := (Nat.div_lt_iff_lt_mul hhalf).mpr t'.isLt
    obtain ⟨hgroup, hlane⟩ := Stores.row_inj hlt hlt' (hhead.trans hhead'.symm)
    have htid : (t : Nat) = t' := by
      rw [← Nat.div_add_mod t a.halfDim, ← Nat.div_add_mod t' a.halfDim, hlane, hd, hd']
    exact ⟨Prod.ext (Fin.ext (hrow.trans hrow'.symm)) (Fin.ext hgroup), Fin.ext htid⟩
  bound b t row head d hv := by
    obtain ⟨rfl, _, rfl, hhead⟩ := sharedVisit_eq_some.mp hv
    have hhalf : 0 < a.halfDim := Nat.pos_of_mul_pos_left (Nat.zero_lt_of_lt t.isLt)
    exact ⟨b.1.isLt, hhead, Nat.mod_lt _ hhalf⟩
  idle b t hv := by
    show Within _ _ (ropeInplaceSharedThread fmt math hpb rot a b.1 b.2 t)
    rw [sharedThread_idle fmt math hv]
    exact fun _ => trivial
  within b t row head d hv := by
    show Within _ _ (ropeInplaceSharedThread fmt math hpb rot a b.1 b.2 t)
    rw [sharedThread_busy fmt math hv]
    exact fun _ => rotatePair_within fmt a
  visits b t row head d hv exchanged m := by
    show (run exchanged (ropeInplaceSharedThread fmt math hpb rot a b.1 b.2 t) 0 m).log.map Prod.fst = _
    rw [sharedThread_busy fmt math hv]
    rfl
  log b t row head d hv m := by
    obtain ⟨hrow, _, hd, _⟩ := sharedVisit_eq_some.mp hv
    have hhalf' : 0 < a.halfDim := Nat.pos_of_mul_pos_left (Nat.zero_lt_of_lt t.isLt)
    have hdlt : d < a.halfDim := hd ▸ Nat.mod_lt _ hhalf'
    show (run _ (ropeInplaceSharedThread fmt math hpb rot a b.1 b.2 t) 0 m).log = _
    rw [sharedThread_busy fmt math hv, ← hrow, ← sharedRot_table (rot b.1 b.2) hhpb hhalf hdlt]
    rfl
  gives b t m := by
    show Gives _ t (ropeInplaceSharedThread fmt math hpb rot a b.1 b.2 t) 0 m
    cases hv : sharedVisit a hpb b.1 b.2 t with
    | none =>
      rw [sharedThread_idle fmt math hv]
      exact ⟨rfl, trivial⟩
    | some v =>
      rw [sharedThread_busy fmt math hv]
      exact ⟨rfl, trivial⟩
  phase b t m := by
    show (run _ (ropeInplaceSharedThread fmt math hpb rot a b.1 b.2 t) 0 m).phase = 1
    cases hv : sharedVisit a hpb b.1 b.2 t with
    | none =>
      rw [sharedThread_idle fmt math hv]
      rfl
    | some v =>
      rw [sharedThread_busy fmt math hv]
      rfl

end

/-! ## the fused rows -/

/-- the Q and K views of rows of Q, then K, then V heads -/
def fusedArgs (qkv : Nat) (positions : Nat → Int) (numQHeads numKvHeads headDim : Nat)
    (invFreq : Nat → F) : RopeArgs F where
  q := qkv
  k := qkv + numQHeads * headDim
  qRowStride := (numQHeads + 2 * numKvHeads) * headDim
  kRowStride := (numQHeads + 2 * numKvHeads) * headDim
  positions := positions
  numQHeads := numQHeads
  totalHeads := numQHeads + numKvHeads
  headDim := headDim
  invFreq := invFreq

/-- element `c` of V head `kvHead` of a row -/
def fusedV (qkv numQHeads numKvHeads headDim row kvHead c : Nat) : Nat :=
  let vViewOffset := numQHeads * headDim + numKvHeads * headDim
  qkv + vViewOffset + row * ((numQHeads + 2 * numKvHeads) * headDim) + kvHead * headDim + c

section
variable {qkv numQ numKv headDim row head : Nat} {positions : Nat → Int} {invFreq : Nat → F}

theorem fused_headBase : headBase (fusedArgs qkv positions numQ numKv headDim invFreq) row head =
    qkv + (row * (numQ + 2 * numKv) + head) * headDim := by
  show (if head < numQ then qkv + row * ((numQ + 2 * numKv) * headDim) + head * headDim
    else qkv + numQ * headDim + row * ((numQ + 2 * numKv) * headDim) + (head - numQ) * headDim) = _
  split
  · ring
  · obtain ⟨k, rfl⟩ : ∃ k, head = numQ + k := ⟨head - numQ, by omega⟩
    rw [Nat.add_sub_cancel_left]
    ring

theorem fusedV_eq {kvHead c : Nat} : fusedV qkv numQ numKv headDim row kvHead c =
    qkv + (row * (numQ + 2 * numKv) + (numQ + numKv + kvHead)) * headDim + c := by
  show qkv + (numQ * headDim + numKv * headDim) + row *
    ((numQ + 2 * numKv) * headDim) + kvHead * headDim + c = _
  ring

/-- the row, the head and the channel of an element of the fused rows -/
theorem fused_inj {row' head' c c' : Nat} (hhead : head < numQ + 2 * numKv)
    (hhead' : head' < numQ + 2 * numKv) (hc : c < headDim) (hc' : c' < headDim)
    (heq : qkv + (row * (numQ + 2 * numKv) + head) * headDim + c =
      qkv + (row' * (numQ + 2 * numKv) + head') * headDim + c') : row = row' ∧ head = head' ∧ c = c' := by
  obtain ⟨hslot, rfl⟩ := Stores.row_inj hc hc' (show (row * (numQ + 2 * numKv) + head) * headDim + c =
    (row' * (numQ + 2 * numKv) + head') * headDim + c' by omega)
  obtain ⟨rfl, rfl⟩ := Stores.row_inj hhead hhead' hslot
  exact ⟨rfl, rfl, rfl⟩

theorem fused_layout (n : Nat) : RopeLayout (fusedArgs qkv positions numQ numKv headDim invFreq) n := by
  intro row _ head hhead c hc row' _ head' hhead' c' hc' heq
  have hwide : 2 * (fusedArgs qkv positions numQ numKv headDim invFreq).halfDim ≤ headDim :=
    Nat.mul_div_le headDim 2
  have hheads : (fusedArgs qkv positions numQ numKv headDim invFreq).totalHeads = numQ + numKv := rfl
  rw [fused_headBase, fused_headBase] at heq
  exact fused_inj (by omega) (by omega) (hc.trans_le hwide) (hc'.trans_le hwide) heq

/-- a pair holds no element of a V head -/
theorem fused_pair_ne_v {d x row' kvHead c : Nat} (hhead : head < numQ + numKv) (hd : d < headDim / 2)
    (hx : InPair (fusedArgs qkv positions numQ numKv headDim invFreq) row head d x)
    (hkv : kvHead < numKv) (hc : c < headDim) :
    x ≠ fusedV qkv numQ numKv headDim row' kvHead c := by
  have hhalf : (fusedArgs qkv positions numQ numKv headDim invFreq).halfDim = headDim / 2 := rfl
  have hne : ∀ c₁ < headDim, qkv + (row * (numQ + 2 * numKv) + head) * headDim + c₁ ≠
      qkv + (row' * (numQ + 2 * numKv) + (numQ + numKv + kvHead)) * headDim + c := by
    intro c₁ hc₁ heq
    obtain ⟨_, hsame, _⟩ := fused_inj (by omega) (by omega) hc₁ hc heq
    omega
  rw [fusedV_eq]
  rcases hx with rfl | rfl
  · rw [fused_headBase]
    exact hne d (by omega)
  · rw [fused_headBase, hhalf]
    exact hne (d + headDim / 2) (by omega)

end

/-! ## the launch -/

section
variable [One F] [Div F]

/-- the table on the device belongs to the arguments it was made for -/
def InvFreqCacheState.Current (math : RopeMath F) (s : InvFreqCacheState F) : Prop :=
  ∀ d < s.numPairs, s.table d = invFreqTable math s.theta (2 * s.numPairs) d


theorem ensure_current [DecidableEq F] {math : RopeMath F} {uploads : Bool}
    {s s' : InvFreqCacheState F} {theta : F} {headDim : Nat}
    (heven : headDim % 2 = 0) (hs : s.Current math)
    (h : ensureInvFreqTable math uploads s theta headDim = some s') :
    s'.Current math ∧ ∀ d < headDim / 2, s'.table d = invFreqTable math theta headDim d := by
  have hdim : 2 * (headDim / 2) = headDim := by omega
  unfold ensureInvFreqTable at h
  dsimp only at h
  split at h
  · rename_i hsame
    obtain rfl := Option.some.inj h
    refine ⟨hs, fun d hd => ?_⟩
    rw [hs d (hsame.2 ▸ hd), hsame.1, hsame.2, hdim]
  · split at h
    · obtain rfl := Option.some.inj h
      have htable : ∀ d < headDim / 2,
        (if d < headDim / 2 then invFreqTable math theta headDim d else s.table d) =
          invFreqTable math theta headDim d := fun d hd => if_pos hd
      refine ⟨fun d hd => (htable d hd).trans ?_, htable⟩
      show _ = invFreqTable math theta (2 * (headDim / 2)) d
      rw [hdim]
    · cases h

end

section
variable [Add F] [Mul F] [Neg F] [Zero F] [One F] [Div F] [LE F] [DecidableLE F] [DecidableEq F]
  (fmt : HalfFormat H F) (math : RopeMath F) {hpb headDim : Nat} (rot : Nat → Nat → Nat → F × F)

/-- the launch is one of the two kernels, over the views of the fused rows -/
theorem enqueueRope_eq {computeMajor : Int} {uploads : Bool} {s s' : InvFreqCacheState F}
    {qkv : Nat} {positions : Nat → Int}
    {n numQ numKv : Nat} {theta : F} {g : Grid Nat H (Option (F × F))}
    (h : enqueueRope fmt math hpb computeMajor uploads rot s qkv positions n numQ numKv headDim theta = (s', some g)) :
    (headDim % 2 = 0 ∧ headDim / 2 ≤ kMaxRotaryPairs) ∧
      ensureInvFreqTable math uploads s theta headDim = some s' ∧
    (g = sharedLaunch fmt math hpb rot (fusedArgs qkv positions numQ numKv headDim s'.table) n ∧ 1 < hpb ∨
      g = perHeadLaunch fmt math (fusedArgs qkv positions numQ numKv headDim s'.table) n) := by
  unfold enqueueRope launchRopeInplace at h
  dsimp only at h
  split at h
  · cases h
  split at h
  · cases h
  rename_i hguard
  simp only [not_or] at hguard
  obtain ⟨_, _, _, heven, hdim, _⟩ := hguard
  have hheads : ((numQ : Int) + numKv).toNat = numQ + numKv := by omega
  rw [Int.toNat_natCast] at h
  split at h
  · cases h
  rename_i s₁ hensure
  simp only [Int.toNat_natCast, hheads] at h
  split at h
  · obtain ⟨rfl, hg⟩ := Prod.mk.inj h
    exact ⟨⟨by omega, by omega⟩, hensure, .inl ⟨(Option.some.inj hg).symm, by omega⟩⟩
  · obtain ⟨rfl, hg⟩ := Prod.mk.inj h
    exact ⟨⟨by omega, by omega⟩, hensure, .inr (Option.some.inj hg).symm⟩

/-- the launch rotates by the angles of its own `ropeTheta`, whatever the table held before -/
theorem enqueueRope_rotates {computeMajor : Int} {uploads : Bool}
    {s s' : InvFreqCacheState F} {qkv : Nat}
    {positions : Nat → Int} {n numQ numKv : Nat} {theta : F} {g : Grid Nat H (Option (F × F))}
    (hs : s.Current math)
    (h : enqueueRope fmt math hpb computeMajor uploads rot s qkv positions n numQ numKv headDim theta = (s', some g))
    (m : Nat → H) : s'.Current math ∧ (∃ m' log, g.Ends m m' log) ∧ ∀ m' log, g.Ends m m' log →
      RotatedOnce fmt math (fusedArgs qkv positions numQ numKv headDim (invFreqTable math theta headDim)) n m m' := by
  obtain ⟨⟨heven, hhalf⟩, hensure, hg⟩ := enqueueRope_eq fmt math rot h
  obtain ⟨hcurrent, htable⟩ := ensure_current heven hs hensure
  have hlayout : RopeLayout (fusedArgs qkv positions numQ numKv headDim s'.table) n := fused_layout n
  have hangles : ∀ m', RotatedOnce fmt math
      (fusedArgs qkv positions numQ numKv headDim s'.table) n m m' →
      RotatedOnce fmt math (fusedArgs qkv positions numQ numKv headDim (invFreqTable math theta headDim)) n m m' := by
    refine fun m' h => ⟨fun row hrow head hhead d hd =>
      (h.pair row hrow head hhead d hd).trans ?_, h.frame⟩
    have hentry : rotEntry fmt math (fusedArgs qkv positions numQ numKv headDim s'.table) row d =
        rotEntry fmt math (fusedArgs qkv positions numQ numKv headDim (invFreqTable math theta headDim)) row d := by
      show (_, _) = (_, _)
      rw [show (fusedArgs qkv positions numQ numKv headDim s'.table).invFreq d = _ from htable d hd]
      rfl
    rw [hentry]
    rfl
  refine ⟨hcurrent, ?_⟩
  rcases hg with ⟨rfl, hhpb⟩ | rfl
  · have hassign :=
      sharedLaunch_assignment fmt math (fusedArgs qkv positions numQ numKv headDim s'.table) n rot
      (Nat.le_of_lt hhpb) hhalf
    exact ⟨Grid.exists_ends (hassign.independent hlayout m),
      fun m' log hends => hangles m' (hassign.rotatedOnce hlayout hends)⟩
  · have hassign :=
      perHeadLaunch_assignment fmt math (fusedArgs qkv positions numQ numKv headDim s'.table) n
    exact ⟨Grid.exists_ends (hassign.independent hlayout m),
      fun m' log hends => hangles m' (hassign.rotatedOnce hlayout hends)⟩

/-- **The mappings of the fused rows agree**, in any order of their threads, and a launch is one of them, with
the angles of its own `ropeTheta`. -/
theorem rope_mappings_agree (hhpb : 1 ≤ hpb) (hdim : headDim ≤ 128) (qkv : Nat)
    (positions : Nat → Int) (n numQ numKv : Nat) (m : Nat → H) :
    (∀ invFreq : Nat → F,
      let a := fusedArgs qkv positions numQ numKv headDim invFreq
      let shared := sharedLaunch fmt math hpb rot a n
      let perHead := perHeadLaunch fmt math a n
      RopeMapping a n shared ∧ RopeMapping a n perHead ∧
      (∀ row < n, ∀ head < numQ + numKv, ∀ d < headDim / 2, ∀ x, InPair a row head d x →
        ∀ row', ∀ kvHead < numKv, ∀ c < headDim, x ≠ fusedV qkv numQ numKv headDim row' kvHead c) ∧
      ((∃ m₁ log₁, shared.Ends m m₁ log₁) ∧ ∃ m₂ log₂, perHead.Ends m m₂ log₂) ∧
      ∀ m₁ log₁ m₂ log₂, shared.Ends m m₁ log₁ → perHead.Ends m m₂ log₂ →
        RotatedOnce fmt math a n m m₁ ∧ m₁ = m₂ ∧ (log₁.map Prod.fst).Nodup ∧ log₁.Perm log₂) ∧
    ∀ computeMajor uploads s theta s' g,
      enqueueRope fmt math hpb computeMajor uploads rot s qkv positions n numQ numKv headDim theta
        = (s', some g) →
        (g = sharedLaunch fmt math hpb rot (fusedArgs qkv positions numQ numKv headDim s'.table) n ∨
          g = perHeadLaunch fmt math (fusedArgs qkv positions numQ numKv headDim s'.table) n) ∧
        (s.Current math → s'.Current math ∧ ∀ m' log, g.Ends m m' log →
          RotatedOnce fmt math (fusedArgs qkv positions numQ numKv headDim (invFreqTable math theta headDim)) n m m') := by
  refine ⟨fun invFreq => ?_, fun computeMajor uploads s theta s' g h => ?_⟩
  · intro a shared perHead
    have hhalf : a.halfDim ≤ kMaxRotaryPairs := Nat.div_le_div_right hdim
    have hlayout : RopeLayout a n := fused_layout n
    have hshared := sharedLaunch_assignment fmt math a n rot hhpb hhalf
    have hperHead := perHeadLaunch_assignment fmt math a n
    refine ⟨hshared.mapping hlayout m, hperHead.mapping hlayout m, ?_, ?_, ?_⟩
    · intro row _ head hhead d hd x hx row' kvHead hkv c hc
      exact fused_pair_ne_v hhead hd hx hkv hc
    · exact ⟨Grid.exists_ends (hshared.independent hlayout m),
        Grid.exists_ends (hperHead.independent hlayout m)⟩
    · intro m₁ log₁ m₂ log₂ h₁ h₂
      have hwritten := hshared.written hlayout h₁
      obtain ⟨hmem, hperm⟩ := hwritten.unique (hperHead.written hlayout h₂)
      exact ⟨hshared.rotatedOnce hlayout h₁, hmem, hwritten.nodup, hperm⟩
  · obtain ⟨_, _, hg⟩ := enqueueRope_eq fmt math rot h
    refine ⟨hg.imp_left And.left, fun hs => ?_⟩
    obtain ⟨hcurrent, _, hrotated⟩ := enqueueRope_rotates fmt math rot hs h m
    exact ⟨hcurrent, hrotated⟩

/-- five Q heads and one K head in groups of four: the second group holds the K head and two heads too few -/
theorem rope_mappings_agree_straddling : ∃ m' : Nat → Rat, ∃ log₁ log₂,
    let a := fusedArgs 3 (fun row => row) 5 1 6 fun d => 1 / (d + 1 : Rat)
    let math : RopeMath Rat := ⟨fun n => n, fun x _ => x, fun x => (x, 1 - x)⟩
    (sharedLaunch ⟨id, id⟩ math 4 (fun _ _ _ => (0, 0)) a 2).Ends (fun x => x) m' log₁ ∧
    (perHeadLaunch ⟨id, id⟩ math a 2).Ends (fun x => x) m' log₂ := by
  obtain ⟨hagree, _⟩ := rope_mappings_agree (⟨id, id⟩ : HalfFormat Rat Rat) ⟨fun n => n,
    fun x _ => x, fun x => (x, 1 - x)⟩
    (fun _ _ _ => (0, 0)) (show 1 ≤ 4 by decide) (show 6 ≤ 128 by decide) 3
    (fun row => row) 2 5 1 fun x => x
  obtain ⟨_, _, _, ⟨⟨m₁, log₁, h₁⟩, m₂, log₂, h₂⟩, hends⟩ := hagree fun d => 1 / (d + 1 : Rat)
  obtain ⟨_, rfl, _⟩ := hends m₁ log₁ m₂ log₂ h₁ h₂
  exact ⟨m₁, log₁, log₂, h₁, h₂⟩

end
end Redline
