import Redline.Kernels.Half
import Redline.Lib.GridStride

/-!
# silu_mul

`kernels/silu_mul.cu` multiplies the SiLU of the gate half of each row with its up half, into a dense
buffer or in place over the gate half.  The threads take their steps in any order; their counters are
unbounded.

* `scalar_ends`, `half2_ends`   both kernels store each output element once, with the same value;
* `siluMul_in_place`            in place gives what a separate buffer gets, and keeps the up half.
-/

namespace Redline
open Threads
variable {H F : Type}

/-- a grid of blocks of 256 threads over a memory of halves -/
structure KernelLaunch (H : Type) where
  gridX : Nat
  gridY : Nat
  thread : Nat → Nat → Nat → Prog Nat H Unit (Fin 256) Unit

/-- some order of the threads of a launch ends with this memory, after these stores -/
def Ends (launch : Option (KernelLaunch H)) (m m' : Nat → H) (log : List (Nat × H)) : Prop :=
  match launch with
  | none => m' = m ∧ log = []
  | some l => ∃ c, Relation.ReflTransGen Step
      (start m fun (b : Fin l.gridX × Fin l.gridY) (t : Fin 256) => l.thread b.1 b.2 t) c ∧ Done c ∧
        c.mem = m' ∧ c.log = log

/-! ## the kernels -/

section
variable [Add F] [Mul F] [Neg F] [Div F] [One F] (fmt : HalfFormat H F) (expf : F → F)

def kBlockThreads : Nat := 256

def kMaxGridY : Nat := 65535

def siluF32 (x : F) : F := x / (1 + expf (-x))

def siluMulOne (gate up : H) : H :=
  fmt.float2halfRn (siluF32 expf (fmt.half2float gate) * fmt.half2float up)

/-- both lanes -/
def siluMulTwo (gate up : H × H) : H × H :=
  let g := (fmt.half2float gate.1, fmt.half2float gate.2)
  let u := (fmt.half2float up.1, fmt.half2float up.2)
  (fmt.float2halfRn (siluF32 expf g.1 * u.1), fmt.float2halfRn (siluF32 expf g.2 * u.2))

/-- one round of `SiluMulScalarKernel` -/
def siluMulScalarRound (out gateUp outRowStride intermediateSize row c : Nat) :
    Prog Nat H Unit (Fin 256) Unit := do
  let inRowStride := 2 * intermediateSize
  let gateRow := gateUp + row * inRowStride
  let upRow := gateRow + intermediateSize
  let outRow := out + row * outRowStride
  let gate ← get (gateRow + c)
  let up ← get (upRow + c)
  put (outRow + c) (siluMulOne fmt expf gate up)

/-- word `w` of two halves -/
def getHalf2 (w : Nat) : Prog Nat H Unit (Fin 256) (H × H) := do
  let x ← get (2 * w)
  let y ← get (2 * w + 1)
  return (x, y)

def putHalf2 (w : Nat) (v : H × H) : Prog Nat H Unit (Fin 256) Unit := do
  put (2 * w) v.1
  put (2 * w + 1) v.2

/-- one round of `SiluMulHalf2Kernel`; pointers and strides are in words -/
def siluMulHalf2Round (out gateUp outRowStride pairs row p : Nat) : Prog Nat H Unit (Fin 256) Unit := do
  let inRowStride := 2 * pairs
  let gateRow := gateUp + row * inRowStride
  let upRow := gateRow + pairs
  let outRow := out + row * outRowStride
  let gate ← getHalf2 (gateRow + p)
  let up ← getHalf2 (upRow + p)
  putHalf2 (outRow + p) (siluMulTwo fmt expf gate up)

def siluMulScalarKernel (gridX gridY out gateUp outRowStride numTokens intermediateSize : Nat) :
    KernelLaunch H where
  gridX := gridX
  gridY := gridY
  thread := gridStride gridX gridY kBlockThreads numTokens intermediateSize
    (siluMulScalarRound fmt expf out gateUp outRowStride intermediateSize)

def siluMulHalf2Kernel (gridX gridY out gateUp outRowStride numTokens pairs : Nat) :
    KernelLaunch H where
  gridX := gridX
  gridY := gridY
  thread :=
    gridStride gridX gridY kBlockThreads numTokens pairs
      (siluMulHalf2Round fmt expf out gateUp outRowStride pairs)

/-! ## the launcher -/

def siluVectorize (out gateUp intermediateSize : Nat) : Bool :=
  intermediateSize % 2 = 0 && isHalf2Aligned out && isHalf2Aligned gateUp

def siluGridY (numTokens : Nat) : Nat := if numTokens > kMaxGridY then kMaxGridY else numTokens

def siluGridX (cols : Nat) : Nat := (cols + kBlockThreads - 1) / kBlockThreads

def launchSiluMulHalf2 (out gateUp numTokens intermediateSize : Nat) : KernelLaunch H :=
  let aliased := out = gateUp
  let pairs := intermediateSize / 2
  let outRowStride := if aliased then 2 * pairs else pairs
  siluMulHalf2Kernel fmt expf (siluGridX pairs) (siluGridY numTokens) (out / 2)
    (gateUp / 2) outRowStride numTokens pairs

def launchSiluMulScalar (out gateUp numTokens intermediateSize : Nat) : KernelLaunch H :=
  let aliased := out = gateUp
  let outRowStride := if aliased then 2 * intermediateSize else intermediateSize
  siluMulScalarKernel fmt expf (siluGridX intermediateSize)
    (siluGridY numTokens) out gateUp outRowStride numTokens
    intermediateSize

def launchSiluMul (out gateUp numTokens intermediateSize : Nat) : Option (KernelLaunch H) :=
  if numTokens = 0 ∨ intermediateSize = 0 then none
  else if siluVectorize out gateUp intermediateSize then
    some (launchSiluMulHalf2 fmt expf out gateUp numTokens intermediateSize)
  else some (launchSiluMulScalar fmt expf out gateUp numTokens intermediateSize)

/-- `EnqueueDecodeForward`: in place over the gate half of the fused buffer -/
def enqueueSiluMul (gateup rows intermediateSize : Nat) : Option (KernelLaunch H) :=
  launchSiluMul fmt expf gateup gateup rows intermediateSize

/-! ## the cells of a launch -/

/-- what belongs into output element `(row, c)` -/
def siluCell (m : Nat → H) (gateUp intermediateSize row c : Nat) : H :=
  siluMulOne fmt expf (m (gateUp + row * (2 * intermediateSize) + c))
    (m (gateUp + row * (2 * intermediateSize) + intermediateSize + c))

end

section
variable {out gateUp stride n size : Nat}

/-- an output element lies over no up element, and over no gate element but its own -/
structure SiluLayout (out gateUp stride n size : Nat) : Prop where
  wide : size ≤ stride
  up : ∀ row < n, ∀ c < size, ∀ row' < n, ∀ c' < size,
    out + row * stride + c ≠ gateUp + row' * (2 * size) + size + c'
  gate : ∀ row < n, ∀ c < size, ∀ row' < n, ∀ c' < size,
    out + row * stride + c = gateUp + row' * (2 * size) + c' → row = row' ∧ c = c'

theorem layout_aliased (gateUp n size : Nat) : SiluLayout gateUp gateUp (2 * size) n size where
  wide := by omega
  up row hr c hc row' hr' c' hc' heq := by
    have hparts := Stores.row_inj (show c < 2 * size by omega) (show size + c' < 2 * size by omega)
      (show row * (2 * size) + c = row' * (2 * size) + (size + c') by omega)
    omega
  gate row hr c hc row' hr' c' hc' heq :=
    Stores.row_inj (show c < 2 * size by omega) (show c' < 2 * size by omega)
      (show row * (2 * size) + c = row' * (2 * size) + c' by omega)

/-- a dense buffer apart from the fused one -/
theorem layout_separate (h : out + n * size ≤ gateUp ∨ gateUp + n * (2 * size) ≤ out) :
    SiluLayout out gateUp size n size where
  wide := le_rfl
  up row hr c hc row' hr' c' hc' heq := by
    have hout : row * size + c < n * size := Stores.row_lt hc hr
    have hup : row' * (2 * size) + (size + c') < n * (2 * size) := Stores.row_lt (by omega) hr'
    omega
  gate row hr c hc row' hr' c' hc' heq := by
    have hout : row * size + c < n * size := Stores.row_lt hc hr
    have hgate : row' * (2 * size) + c' < n * (2 * size) := Stores.row_lt (by omega) hr'
    omega

def IsOutput (out stride n size a : Nat) : Prop := ∃ row < n, ∃ c < size, a = out + row * stride + c

/-- the elements that are loaded and not stored to -/
def OnlyLoaded (out gateUp stride n size a : Nat) : Prop :=
  (∃ row < n, ∃ c < size, a = gateUp + row * (2 * size) + c ∨
    a = gateUp + row * (2 * size) + size + c) ∧
    ¬ IsOutput out stride n size a

/-- the loads of output element `(row, c)` -/
theorem SiluLayout.loads (h : SiluLayout out gateUp stride n size) {row c : Nat} (hr : row < n)
    (hc : c < size) :
    (OnlyLoaded out gateUp stride n size (gateUp + row * (2 * size) + c) ∨
      gateUp + row * (2 * size) + c = out + row * stride + c) ∧
    OnlyLoaded out gateUp stride n size (gateUp + row * (2 * size) + size + c) := by
  constructor
  · by_cases hout : IsOutput out stride n size (gateUp + row * (2 * size) + c)
    · obtain ⟨row', hr', c', hc', heq⟩ := hout
      obtain ⟨rfl, rfl⟩ := h.gate row' hr' c' hc' row hr c hc heq.symm
      exact .inr heq
    · exact .inl ⟨⟨row, hr, c, hc, .inl rfl⟩, hout⟩
  · refine ⟨⟨row, hr, c, hc, .inr rfl⟩, ?_⟩
    rintro ⟨row', hr', c', hc', heq⟩
    exact h.up row' hr' c' hc' row hr c hc heq.symm

theorem SiluLayout.apart (h : SiluLayout out gateUp stride n size) {row c row' c' : Nat}
    (hc : c < size) (hc' : c' < size)
    (heq : out + row * stride + c = out + row' * stride + c') : row = row' ∧ c = c' :=
  Stores.row_inj (hc.trans_le h.wide) (hc'.trans_le h.wide) (by omega)

end

/-! ## the two kernels -/

section
variable [Add F] [Mul F] [Neg F] [Div F] [One F] {fmt : HalfFormat H F} {expf : F → F}
  {out gateUp stride n size : Nat} {m m' : Nat → H} {log : List (Nat × H)}

/-- each output element is stored once, with its value -/
structure SiluStores (fmt : HalfFormat H F) (expf : F → F) (out gateUp stride n size : Nat)
    (m m' : Nat → H) (log : List (Nat × H)) : Prop where
  mem : m' = Stores.store m log
  nodup : (log.map Prod.fst).Nodup
  log_iff : ∀ w, w ∈ log ↔ ∃ row < n, ∃ c < size,
    w = (out + row * stride + c, siluCell fmt expf m gateUp size row c)

theorem scalar_rounds (fmt : HalfFormat H F) (expf : F → F)
    (h : SiluLayout out gateUp stride n size) : Rounds n size (fun _ _ => ())
    (siluMulScalarRound fmt expf out gateUp stride size) m (OnlyLoaded out gateUp stride n size)
    fun row c a => a = out + row * stride + c where
  within _ hr _ hc := ⟨(h.loads hr hc).1, fun _ => ⟨.inl (h.loads hr hc).2, fun _ => ⟨rfl, trivial⟩⟩⟩
  apart _ _ _ hc _ _ _ hc' _ ha ha' := h.apart hc hc' (ha.symm.trans ha')
  fixed row hr c hc _ ha hload := hload.2 ⟨row, hr, c, hc, ha⟩
  phase _ _ _ _ := rfl

theorem siluGrid_pos {n size : Nat} (hn : 0 < n) (hsize : 0 < size) : 0 < siluGridY n ∧
    0 < siluGridX size * 256 := by
  unfold siluGridY siluGridX kMaxGridY kBlockThreads
  constructor
  · split <;> omega
  · omega

theorem scalar_ends (h : SiluLayout out gateUp stride n size) (hn : 0 < n) (hsize : 0 < size)
    (hends : Ends (some (siluMulScalarKernel fmt expf (siluGridX size) (siluGridY n) out gateUp stride n size)) m m' log) :
    SiluStores fmt expf out gateUp stride n size m m' log := by
  obtain ⟨c, hrun, hdone, rfl, rfl⟩ := hends
  obtain ⟨hgy, hgx⟩ := siluGrid_pos hn hsize
  obtain ⟨hmem, hnodup, hlog⟩ :=
    (scalar_rounds fmt expf h).stored hgy hgx (fun row _ col _ => List.nodup_singleton _) hrun hdone
  refine ⟨hmem, hnodup, fun w => (hlog w).trans ?_⟩
  have hround : ∀ row c,
      (run (fun _ _ => ()) (siluMulScalarRound fmt expf out gateUp stride size row c) 0 m).log =
      [(out + row * stride + c, siluCell fmt expf m gateUp size row c)] := fun _ _ => rfl
  simp only [hround, List.mem_singleton]

theorem half2_up_address {row pairs p : Nat} (hgate : gateUp % 2 = 0) :
    2 * (gateUp / 2 + row * (2 * pairs) + pairs + p)
      = gateUp + row * (2 * (2 * pairs)) + 2 * pairs + 2 * p := by
  have hword : 2 * (gateUp / 2 + row * (2 * pairs) + (pairs + p))
      = gateUp + row * (2 * (2 * pairs)) + 2 * (pairs + p) :=
    half2_address hgate
  omega

theorem half2_round {words pairs : Nat} (hout : out % 2 = 0) (hgate : gateUp % 2 = 0) (row p : Nat) :
    siluMulHalf2Round fmt expf (out / 2) (gateUp / 2) words pairs row p = (do
      let gate ← get (gateUp + row * (2 * (2 * pairs)) + 2 * p)
      let gate' ← get (gateUp + row * (2 * (2 * pairs)) + (2 * p + 1))
      let up ← get (gateUp + row * (2 * (2 * pairs)) + 2 * pairs + 2 * p)
      let up' ← get (gateUp + row * (2 * (2 * pairs)) + 2 * pairs + (2 * p + 1))
      put (out + row * (2 * words) + 2 * p) (siluMulOne fmt expf gate up)
      put (out + row * (2 * words) + (2 * p + 1)) (siluMulOne fmt expf gate' up')) := by
  unfold siluMulHalf2Round getHalf2 putHalf2
  simp only [half2_address hout, half2_address hgate, half2_up_address hgate]
  rfl

theorem half2_rounds (fmt : HalfFormat H F) (expf : F → F) {words pairs : Nat} (hout : out % 2 = 0)
    (hgate : gateUp % 2 = 0)
    (h : SiluLayout out gateUp (2 * words) n (2 * pairs)) : Rounds n pairs (fun _ _ => ())
    (siluMulHalf2Round fmt expf (out / 2) (gateUp / 2) words pairs) m
    (OnlyLoaded out gateUp (2 * words) n (2 * pairs))
    fun row p a => a = out + row * (2 * words) + 2 * p ∨ a = out + row * (2 * words) + (2 * p + 1) where
  within row hr p hp := by
    obtain ⟨hlow, hlowUp⟩ := h.loads hr (show 2 * p < 2 * pairs by omega)
    obtain ⟨hhigh, hhighUp⟩ := h.loads hr (show 2 * p + 1 < 2 * pairs by omega)
    rw [half2_round hout hgate]
    exact ⟨hlow.imp_right .inl, fun _ =>
      ⟨hhigh.imp_right .inr, fun _ => ⟨.inl hlowUp, fun _ => ⟨.inl hhighUp,
      fun _ => ⟨.inl rfl, .inr rfl, trivial⟩⟩⟩⟩⟩
  apart row hr p hp row' hr' p' hp' a ha ha' := by
    rcases ha with rfl | rfl <;> rcases ha' with ha' | ha'
    all_goals
      obtain ⟨hrow, hcol⟩ := h.apart (by omega) (by omega) ha'
      exact ⟨hrow, by omega⟩
  fixed row hr p hp a ha hload := by
    rcases ha with rfl | rfl
    · exact hload.2 ⟨row, hr, 2 * p, by omega, rfl⟩
    · exact hload.2 ⟨row, hr, 2 * p + 1, by omega, rfl⟩
  phase row _ p _ := by
    rw [half2_round hout hgate]
    rfl

theorem half2_ends {words pairs : Nat} (hout : out % 2 = 0) (hgate : gateUp % 2 = 0)
    (h : SiluLayout out gateUp (2 * words) n (2 * pairs)) (hn : 0 < n) (hpairs : 0 < pairs)
    (hends : Ends (some (siluMulHalf2Kernel fmt expf (siluGridX pairs) (siluGridY n) (out / 2) (gateUp / 2) words n pairs))
      m m' log) : SiluStores fmt expf out gateUp (2 * words) n (2 * pairs) m m' log := by
  obtain ⟨c, hrun, hdone, rfl, rfl⟩ := hends
  obtain ⟨hgy, hgx⟩ := siluGrid_pos hn hpairs
  have hround : ∀ row p, (run (fun _ _ => ())
      (siluMulHalf2Round fmt expf (out / 2) (gateUp / 2) words pairs row p) 0 m).log =
      [(out + row * (2 * words) + 2 * p, siluCell fmt expf m gateUp (2 * pairs) row (2 * p)),
        (out + row * (2 * words) + (2 * p + 1),
          siluCell fmt expf m gateUp (2 * pairs) row (2 * p + 1))] := by
    intro row p
    rw [half2_round hout hgate]
    rfl
  obtain ⟨hmem, hnodup, hlog⟩ :=
    (half2_rounds fmt expf hout hgate h).stored hgy hgx (fun row _ p _ => by
    rw [hround]
    exact List.nodup_cons.mpr ⟨fun hin =>
      absurd (List.mem_singleton.mp hin) (by show ¬ (_ + 2 * p = _ + (2 * p + 1)); omega),
      List.nodup_singleton _⟩) hrun hdone
  refine ⟨hmem, hnodup, fun w => (hlog w).trans ?_⟩
  simp only [hround, List.mem_cons, List.not_mem_nil, or_false]
  constructor
  · rintro ⟨row, hr, p, hp, rfl | rfl⟩
    · exact ⟨row, hr, 2 * p, by omega, rfl⟩
    · exact ⟨row, hr, 2 * p + 1, by omega, rfl⟩
  · rintro ⟨row, hr, c, hc, rfl⟩
    rcases Nat.mod_two_eq_zero_or_one c with hmod | hmod
    · exact ⟨row, hr, c / 2, by omega, .inl (by rw [show 2 * (c / 2) = c by omega])⟩
    · exact ⟨row, hr, c / 2, by omega, .inr (by rw [show 2 * (c / 2) + 1 = c by omega])⟩

/-! ## the launch -/

/-- the output is the gate half itself, or a dense buffer apart from the fused one -/
def Placed (out gateUp n size : Nat) : Prop :=
  out = gateUp ∨ out + n * size ≤ gateUp ∨ gateUp + n * (2 * size) ≤ out

/-- the output row stride, by pointer identity -/
def siluStride (out gateUp size : Nat) : Nat := if out = gateUp then 2 * size else size

theorem Placed.layout (h : Placed out gateUp n size) :
    SiluLayout out gateUp (siluStride out gateUp size) n size := by
  unfold siluStride
  split
  · subst out
    exact layout_aliased gateUp n size
  · exact layout_separate (h.resolve_left ‹_›)

theorem siluVectorize_iff : siluVectorize out gateUp size = true ↔ size % 2 = 0 ∧ out % 2 = 0 ∧
    gateUp % 2 = 0 := by
  unfold siluVectorize
  rw [Bool.and_eq_true, Bool.and_eq_true, decide_eq_true_iff, isHalf2Aligned_iff,
    isHalf2Aligned_iff, and_assoc]

/-- the kernel of two-wide words, where the launcher may choose it -/
theorem launch_half2 (hv : siluVectorize out gateUp size = true) (h : Placed out gateUp n size)
    (hn : 0 < n) (hsize : 0 < size)
    (hends : Ends (some (launchSiluMulHalf2 fmt expf out gateUp n size)) m m' log) :
    SiluStores fmt expf out gateUp (siluStride out gateUp size) n size m m' log := by
  obtain ⟨heven, hout, hgate⟩ := siluVectorize_iff.mp hv
  obtain ⟨pairs, rfl⟩ : ∃ pairs, size = 2 * pairs := ⟨size / 2, by omega⟩
  have hhalf : 2 * pairs / 2 = pairs := by omega
  have hstride : siluStride out gateUp (2 * pairs)
      = 2 * (if out = gateUp then 2 * pairs else pairs) := by
    unfold siluStride
    split <;> rfl
  have hlayout := h.layout
  rw [hstride] at hlayout ⊢
  unfold launchSiluMulHalf2 at hends
  simp only [hhalf] at hends
  exact half2_ends hout hgate hlayout hn (by omega) hends

theorem launch_scalar (h : Placed out gateUp n size) (hn : 0 < n) (hsize : 0 < size)
    (hends : Ends (some (launchSiluMulScalar fmt expf out gateUp n size)) m m' log) :
    SiluStores fmt expf out gateUp (siluStride out gateUp size) n size m m' log :=
  scalar_ends h.layout hn hsize hends

theorem launch_stores (h : Placed out gateUp n size)
    (hends : Ends (launchSiluMul fmt expf out gateUp n size) m m' log) :
    SiluStores fmt expf out gateUp (siluStride out gateUp size) n size m m' log := by
  unfold launchSiluMul at hends
  split at hends
  · rename_i hempty
    obtain ⟨rfl, rfl⟩ := hends
    refine ⟨rfl, List.nodup_nil, fun w => iff_of_false List.not_mem_nil ?_⟩
    rintro ⟨row, hr, c, hc, _⟩
    omega
  · split at hends
    · exact launch_half2 ‹_› h (by omega) (by omega) hends
    · exact launch_scalar h (by omega) (by omega) hends

/-- the launch can be run to its end -/
theorem exists_ends (h : Placed out gateUp n size) (m : Nat → H) :
    ∃ m' log, Ends (launchSiluMul fmt expf out gateUp n size) m m' log := by
  unfold launchSiluMul
  split
  · exact ⟨m, [], rfl, rfl⟩
  · have hlayout := h.layout
    split
    · obtain ⟨heven, hout, hgate⟩ := siluVectorize_iff.mp ‹_›
      obtain ⟨pairs, rfl⟩ : ∃ pairs, size = 2 * pairs := ⟨size / 2, by omega⟩
      have hhalf : 2 * pairs / 2 = pairs := by omega
      have hstride : siluStride out gateUp (2 * pairs)
          = 2 * (if out = gateUp then 2 * pairs else pairs) := by
        unfold siluStride
        split <;> rfl
      rw [hstride] at hlayout
      obtain ⟨hgy, hgx⟩ := siluGrid_pos (show 0 < n by omega) (show 0 < pairs by omega)
      obtain ⟨c, hrun, hdone⟩ :=
        ((half2_rounds fmt expf hout hgate hlayout).independent (m := m) hgy hgx).exists_done .refl
      unfold launchSiluMulHalf2
      simp only [hhalf]
      exact ⟨c.mem, c.log, c, hrun, hdone, rfl, rfl⟩
    · obtain ⟨hgy, hgx⟩ := siluGrid_pos (show 0 < n by omega) (show 0 < size by omega)
      obtain ⟨c, hrun, hdone⟩ :=
        ((scalar_rounds fmt expf hlayout).independent (m := m) hgy hgx).exists_done .refl
      exact ⟨c.mem, c.log, c, hrun, hdone, rfl, rfl⟩

theorem SiluStores.at (h : SiluStores fmt expf out gateUp stride n size m m' log) {row c : Nat}
    (hr : row < n) (hc : c < size) :
    m' (out + row * stride + c) = siluCell fmt expf m gateUp size row c := by
  rw [h.mem]
  exact Stores.store_of_mem h.nodup ((h.log_iff _).mpr ⟨row, hr, c, hc, rfl⟩) m

theorem SiluStores.stored_iff (h : SiluStores fmt expf out gateUp stride n size m m' log) (a : Nat) :
    a ∈ log.map Prod.fst ↔ IsOutput out stride n size a := by
  rw [List.mem_map]
  constructor
  · rintro ⟨w, hw, rfl⟩
    obtain ⟨row, hr, c, hc, rfl⟩ := (h.log_iff w).mp hw
    exact ⟨row, hr, c, hc, rfl⟩
  · rintro ⟨row, hr, c, hc, rfl⟩
    exact ⟨_, (h.log_iff _).mpr ⟨row, hr, c, hc, rfl⟩, rfl⟩

theorem SiluStores.frame (h : SiluStores fmt expf out gateUp stride n size m m' log) {a : Nat}
    (ha : ¬ IsOutput out stride n size a) : m' a = m a := by
  rw [h.mem]
  exact Stores.store_of_not_mem (fun hin => ha ((h.stored_iff a).mp hin)) m

theorem SiluStores.unique {m₁ m₂ : Nat → H} {log₁ log₂ : List (Nat × H)}
    (h₁ : SiluStores fmt expf out gateUp stride n size m m₁ log₁)
    (h₂ : SiluStores fmt expf out gateUp stride n size m m₂ log₂) :
    m₁ = m₂ ∧ log₁.Perm log₂ := by
  have hperm : log₁.Perm log₂ := (List.perm_ext_iff_of_nodup (List.Nodup.of_map _ h₁.nodup)
    (List.Nodup.of_map _ h₂.nodup)).mpr fun w => (h₁.log_iff w).trans (h₂.log_iff w).symm
  rw [h₁.mem, h₂.mem]
  exact ⟨Stores.store_perm h₁.nodup hperm m, hperm⟩

/-- **In place or apart, two-wide or scalar**, in any order of the threads. -/
theorem siluMul_in_place (fmt : HalfFormat H F) (expf : F → F) (gateUp n size : Nat) (m : Nat → H) :
    (∃ m₁ log₁, Ends (enqueueSiluMul fmt expf gateUp n size) m m₁ log₁) ∧
    (∀ m₁ log₁, Ends (enqueueSiluMul fmt expf gateUp n size) m m₁ log₁ →
      (log₁.map Prod.fst).Nodup ∧ (∀ a, a ∈ log₁.map Prod.fst ↔ IsOutput gateUp (2 * size) n size a) ∧
      (∀ row < n, ∀ c < size, m₁ (gateUp + row * (2 * size) + size + c) = m (gateUp + row * (2 * size) + size + c)) ∧
      (∀ a, ¬ IsOutput gateUp (2 * size) n size a → m₁ a = m a) ∧
      ∀ out, (out + n * size ≤ gateUp ∨ gateUp + n * (2 * size) ≤ out) →
        (∃ m₂ log₂, Ends (launchSiluMul fmt expf out gateUp n size) m m₂ log₂) ∧
        ∀ m₂ log₂, Ends (launchSiluMul fmt expf out gateUp n size) m m₂ log₂ →
          (∀ row < n, ∀ c < size, m₁ (gateUp + row * (2 * size) + c) = m₂ (out + row * size + c)) ∧
          (log₂.map Prod.fst).Nodup ∧ ∀ a, a ∈ log₂.map Prod.fst ↔ IsOutput out size n size a) ∧
    ∀ out, Placed out gateUp n size → 0 < n → 0 < size → siluVectorize out gateUp size = true →
      ∀ m₁ log₁ m₂ log₂, Ends (some (launchSiluMulHalf2 fmt expf out gateUp n size)) m m₁ log₁ →
      Ends (some (launchSiluMulScalar fmt expf out gateUp n size)) m m₂ log₂ → m₁ = m₂ ∧
        log₁.Perm log₂ := by
  have hself : Placed gateUp gateUp n size := .inl rfl
  have hstride : siluStride gateUp gateUp size = 2 * size := if_pos rfl
  refine ⟨exists_ends hself m, fun m₁ log₁ h₁ => ?_, fun out h hn hsize hv m₁ log₁ m₂ log₂ h₁ h₂ => ?_⟩
  · have hstores := launch_stores hself h₁
    rw [hstride] at hstores
    refine ⟨hstores.nodup, hstores.stored_iff, fun row hr c hc => hstores.frame ?_,
      fun a ha => hstores.frame ha, ?_⟩
    · rintro ⟨row', hr', c', hc', heq⟩
      exact (layout_aliased gateUp n size).up row' hr' c' hc' row hr c hc heq.symm
    · intro out hapart
      refine ⟨exists_ends (.inr hapart) m, fun m₂ log₂ h₂ => ?_⟩
      have hstores₂ := launch_stores (.inr hapart) h₂
      have hdense : 0 < n → 0 < size → siluStride out gateUp size = size := by
        intro hn hsize
        have hpos := Nat.mul_pos hn hsize
        have hpos' := Nat.mul_pos hn (show 0 < 2 * size by omega)
        exact if_neg fun heq => by omega
      refine ⟨fun row hr c hc => ?_, hstores₂.nodup, fun a => (hstores₂.stored_iff a).trans ?_⟩
      · rw [hdense (by omega) (by omega)] at hstores₂
        rw [hstores.at hr hc, hstores₂.at hr hc]
      · refine exists_congr fun row => and_congr_right fun hr => exists_congr fun c =>
          and_congr_right fun hc => ?_
        rw [hdense (by omega) (by omega)]
  · exact (launch_half2 hv h hn hsize h₁).unique (launch_scalar h hn hsize h₂)

theorem siluMul_in_place_odd : ∃ m₁ log₁ m₂ log₂,
    Ends (enqueueSiluMul (⟨id, id⟩ : HalfFormat Rat Rat) (1 + ·) 0 3 5) (fun a => a) m₁ log₁ ∧
    Ends (launchSiluMul (⟨id, id⟩ : HalfFormat Rat Rat) (1 + ·) 30 0 3 5) (fun a => a) m₂ log₂ ∧
    ∀ row < 3, ∀ c < 5, m₁ (0 + row * (2 * 5) + c) = m₂ (30 + row * 5 + c) := by
  obtain ⟨⟨m₁, log₁, h₁⟩, hplace, _⟩ :=
    siluMul_in_place (⟨id, id⟩ : HalfFormat Rat Rat) (1 + ·) 0 3 5 fun a => a
  obtain ⟨_, _, _, _, hseparate⟩ := hplace m₁ log₁ h₁
  obtain ⟨⟨m₂, log₂, h₂⟩, hsame⟩ := hseparate 30 (.inr (by decide))
  exact ⟨m₁, log₁, m₂, log₂, h₁, h₂, (hsame m₂ log₂ h₂).1⟩

end
end Redline
