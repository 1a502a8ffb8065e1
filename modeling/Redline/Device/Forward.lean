import Redline.Device.Refine
import Redline.Kernels.Attention
import Redline.Lib.InOrder
import Redline.Lib.Stores

/-!
# The forward pass, layer by layer

`EnqueueDecodeForward` and `EnqueuePrefillForward` work on all rows of a step at once, layer after
layer: every kernel reads and writes whole activation buffers, and the keys and values of all rows of
a layer are in the pool before any of them attends.  `ForwardOp` is one launch with its buffers and
weights, `exec` what it does to the buffers and to the pool, row by row.

What a kernel computes of one row is a parameter, `RowMath`; the kernels themselves are elsewhere.
`RowMath.numerics` is the same transformer for one token at a time, over the cells of the earlier
positions.

* `decodeForward_kernels`, `prefillForward_kernels`   the launches are those of the executor.
-/

namespace Redline
open Decoding

/-! ## buffers and weights -/

/-- the activation buffers, rows of the scratch slab -/
inductive Buffer where
  | x
  | normed
  | qkv
  | attnOut
  | mlpOut
  | gateup
  | logits
  deriving DecidableEq, Repr

inductive NormWeight where
  | inputNorm (layer : Nat)
  | postAttnNorm (layer : Nat)
  | finalNorm
  deriving DecidableEq, Repr

/-- the weight matrices; `wQkv` comes with its bias -/
inductive Projection where
  | wQkv (layer : Nat)
  | wO (layer : Nat)
  | wGateup (layer : Nat)
  | wDown (layer : Nat)
  | lmHead
  deriving DecidableEq, Repr

namespace Projection

/-- the activation it reads -/
def act : Projection → Buffer
  | wQkv _ => .normed
  | wO _ => .attnOut
  | wGateup _ => .normed
  | wDown _ => .gateup
  | lmHead => .normed

def out : Projection → Buffer
  | wQkv _ => .qkv
  | wO _ => .mlpOut
  | wGateup _ => .gateup
  | wDown _ => .mlpOut
  | lmHead => .logits

def kernel : Projection → Gemm
  | wQkv _ => .qkvBias
  | wO _ => .o
  | wGateup _ => .gateup
  | wDown _ => .down
  | lmHead => .lmHead

end Projection

/-- what the kernels compute of one row: `V` is a row of a buffer, `C` the keys and values of one
position in one layer -/
structure RowMath (V C : Type) where
  embed : Int → V
  rmsNorm : NormWeight → V → V
  /-- the residual sum, as it is stored -/
  add : V → V → V
  gemm : Projection → V → V
  rope : Nat → V → V
  /-- the K and V views of a fused row -/
  keyValue : V → C
  /-- the Q view of a fused row over the keys and values of the positions up to its own -/
  attend : V → List C → V
  siluMul : V → V
  argmax : V → Int

/-! ## the launches -/

inductive ForwardOp where
  | embedGather (rows : Nat)
  | rmsNorm (weight : NormWeight) (rows : Nat)
  /-- on the rows from `first` on -/
  | rmsNormResidual (weight : NormWeight) (first rows : Nat)
  /-- on the activation rows from `first` on, into the output rows from 0 on -/
  | gemm (which : Projection) (first rows : Nat)
  | ropeInplace (rows : Nat)
  | kvScatter (layer rowStride rows : Nat)
  | pagedAttentionDecode (layer maxBlocks rows : Nat)
  /-- gather, scores products, causal softmax, PV products -/
  | prefillAttention (layer rows chunkStart ctx : Nat) (mode : PrefillGemmMode)
  | siluMul (rows : Nat)
  | greedyArgmax (rows : Nat)
  deriving DecidableEq, Repr

/-- the kernels of a launch, as the executor enqueues them -/
def ForwardOp.kernels (x : Executor) : ForwardOp → List Kernel
  | .embedGather rows => [.embedGather rows]
  | .rmsNorm _ rows => [.rmsNorm rows]
  | .rmsNormResidual _ _ rows => [.rmsNormResidual rows]
  | .gemm which _ rows => [.gemm which.kernel rows]
  | .ropeInplace rows => [.ropeInplace rows]
  | .kvScatter layer rowStride rows => [.kvScatter layer rowStride rows]
  | .pagedAttentionDecode layer maxBlocks rows => [.pagedAttentionDecode layer maxBlocks rows]
  | .prefillAttention layer rows chunkStart ctx mode =>
    x.enqueuePrefillAttention layer rows chunkStart ctx mode
  | .siluMul rows => [.siluMul rows]
  | .greedyArgmax rows => [.greedyArgmax rows]

/-- one layer around its attention -/
def layerForward (layer rowStride rows : Nat) (attention : ForwardOp) : List ForwardOp :=
  [if layer = 0 then .rmsNorm (.inputNorm 0) rows else .rmsNormResidual (.inputNorm layer) 0 rows,
    .gemm (.wQkv layer) 0 rows, .ropeInplace rows, .kvScatter layer rowStride rows, attention,
    .gemm (.wO layer) 0 rows, .rmsNormResidual (.postAttnNorm layer) 0 rows,
    .gemm (.wGateup layer) 0 rows, .siluMul rows, .gemm (.wDown layer) 0 rows]

/-- the layers up to `n` -/
def layersForward (rowStride rows : Nat) (attention : Nat → ForwardOp) (n : Nat) : List ForwardOp :=
  (List.range n).flatMap fun layer => layerForward layer rowStride rows (attention layer)

def decodeForward (x : Executor) (rows : Nat) : List ForwardOp :=
  .embedGather rows ::
    layersForward x.maxBlocksPerSeq rows
      (fun layer => .pagedAttentionDecode layer x.maxBlocksPerSeq rows)
      x.config.numLayers.toNat ++
    [.rmsNormResidual .finalNorm 0 rows, .gemm .lmHead 0 rows]

def prefillForward (x : Executor) (rows chunkStart ctx : Nat) (finalChunk : Bool)
    (mode : PrefillGemmMode) : List ForwardOp :=
  .embedGather rows ::
    layersForward 0 rows (fun layer => .prefillAttention layer rows chunkStart ctx mode)
      x.config.numLayers.toNat ++
    if finalChunk then [.rmsNormResidual .finalNorm (rows - 1) 1, .gemm .lmHead (rows - 1) 1] else []

theorem layerForward_kernels (x : Executor) (layer rowStride rows : Nat) (attention : ForwardOp) :
    (layerForward layer rowStride rows attention).flatMap (ForwardOp.kernels x)
      = Executor.inputNorm layer rows :: .gemm .qkvBias rows :: .ropeInplace rows ::
        .kvScatter layer rowStride rows ::
          (attention.kernels x ++ .gemm .o rows :: Executor.mlpKernels rows) := by
  unfold layerForward Executor.inputNorm
  split <;> rfl

/-- **The launches of a decode step** are those of the executor. -/
theorem decodeForward_kernels (x : Executor) (rows : Nat) :
    (decodeForward x rows).flatMap (ForwardOp.kernels x) = x.enqueueDecodeForward rows := by
  unfold decodeForward Executor.enqueueDecodeForward layersForward
  simp only [List.flatMap_append, List.flatMap_cons, List.flatMap_assoc, layerForward_kernels]
  rfl

/-- **The launches of a prefill chunk** are those of the executor. -/
theorem prefillForward_kernels (x : Executor) (rows chunkStart ctx : Nat) (finalChunk : Bool)
    (mode : PrefillGemmMode) :
    (prefillForward x rows chunkStart ctx finalChunk mode).flatMap (ForwardOp.kernels x)
      = x.enqueuePrefillForward rows chunkStart ctx finalChunk mode := by
  unfold prefillForward Executor.enqueuePrefillForward layersForward
  simp only [List.flatMap_append, List.flatMap_cons, List.flatMap_assoc, layerForward_kernels]
  cases finalChunk <;> rfl

/-! ## what a launch does -/

/-- the cell a row writes -/
abbrev DeviceRow.cell (row : DeviceRow) : Int × Nat := cellOf row.table row.position

/-- the device memory of the forward pass; the scratch of a composite is not kept -/
structure Slab (V C : Type) where
  buf : Buffer → Nat → V
  argmax : Nat → Int
  /-- the layer slices of the KV pool -/
  pool : Nat → Pool C

section
variable {V C : Type}

namespace Slab
variable (s : Slab V C)

/-- the rows `[first, first + rows)` of a buffer -/
def setRows (b : Buffer) (first rows : Nat) (f : Nat → V) : Slab V C :=
  { s with
    buf := Function.update s.buf b fun t =>
      if first ≤ t ∧ t < first + rows then f t else s.buf b t }

/-- one cell of a layer slice for each row -/
def scatter (layer rows : Nat) (cell : Nat → Int × Nat) (f : Nat → C) : Slab V C :=
  { s with
    pool := Function.update s.pool layer
      (Stores.store (s.pool layer) ((List.range rows).map fun t => (cell t, f t))) }

variable {s} {b b' : Buffer} {first rows t : Nat} {f : Nat → V}

theorem setRows_in (h : first ≤ t ∧ t < first + rows) :
    (s.setRows b first rows f).buf b t = f t := by
  show Function.update s.buf b _ b t = _
  rw [Function.update_self, if_pos h]

theorem setRows_all (h : t < rows) : (s.setRows b 0 rows f).buf b t = f t :=
  setRows_in ⟨Nat.zero_le _, by omega⟩

@[simp] theorem setRows_other (h : b' ≠ b) : (s.setRows b first rows f).buf b' = s.buf b' :=
  Function.update_of_ne h _ _

@[simp] theorem setRows_pool : (s.setRows b first rows f).pool = s.pool := rfl

@[simp] theorem setRows_argmax : (s.setRows b first rows f).argmax = s.argmax := rfl

@[simp] theorem scatter_buf {layer : Nat} {cell : Nat → Int × Nat} {f : Nat → C} :
    (s.scatter layer rows cell f).buf = s.buf := rfl

end Slab

/-- the block and slot of position `p`, for the table row at `base` of the block-table buffer -/
def cellAt (tables : Nat → Int) (base p : Nat) : Int × Nat :=
  (tables (base + p / kKvBlockSize), p % kKvBlockSize)

/-- one launch on the inputs `inp` and the block-table buffer; each kernel finds the table row of a row
with its own stride -/
def ForwardOp.exec (M : RowMath V C) (inp : Nat → DeviceRow) (tables : Nat → Int) (s : Slab V C) :
    ForwardOp → Slab V C
  | .embedGather rows => s.setRows .x 0 rows fun t => M.embed (inp t).inputId
  | .rmsNorm weight rows => s.setRows .normed 0 rows fun t => M.rmsNorm weight (s.buf .x t)
  | .rmsNormResidual weight first rows =>
    let s1 := s.setRows .x first rows fun t => M.add (s.buf .x t) (s.buf .mlpOut t)
    s1.setRows .normed first rows fun t => M.rmsNorm weight (s1.buf .x t)
  | .gemm which first rows =>
    s.setRows which.out 0 rows fun t => M.gemm which (s.buf which.act (first + t))
  | .ropeInplace rows => s.setRows .qkv 0 rows fun t => M.rope (inp t).position (s.buf .qkv t)
  | .kvScatter layer rowStride rows => s.scatter layer rows
    (fun t => cellAt tables (t * rowStride) (inp t).position) fun t => M.keyValue (s.buf .qkv t)
  | .pagedAttentionDecode layer maxBlocks rows => s.setRows .attnOut 0 rows fun t =>
    let seqLen := min (inp t).extent (maxBlocks * kKvBlockSize)
    -- a row without a sequence leaves what the buffer holds
    if seqLen = 0 then s.buf .attnOut t
    else M.attend (s.buf .qkv t)
      ((List.range seqLen).map fun p => s.pool layer (cellAt tables (t * maxBlocks) p))
  | .prefillAttention layer rows chunkStart ctx _ => s.setRows .attnOut 0 rows fun t =>
    M.attend (s.buf .qkv t)
      ((List.range (liveKeys ctx chunkStart t)).map fun p => s.pool layer (cellAt tables 0 p))
  | .siluMul rows => s.setRows .gateup 0 rows fun t => M.siluMul (s.buf .gateup t)
  | .greedyArgmax rows =>
    { s with argmax := fun t => if t < rows then M.argmax (s.buf .logits t) else s.argmax t }

section
variable {M : RowMath V C} {inp : Nat → DeviceRow} {tables : Nat → Int} {s : Slab V C}
    {first rows t : Nat} {b : Buffer}

theorem exec_rmsNormResidual (w : NormWeight) (ht : first ≤ t ∧ t < first + rows) :
    ((ForwardOp.rmsNormResidual w first rows).exec M inp tables s).buf .x t
        = M.add (s.buf .x t) (s.buf .mlpOut t) ∧
      ((ForwardOp.rmsNormResidual w first rows).exec M inp tables s).buf .normed t
        = M.rmsNorm w (M.add (s.buf .x t) (s.buf .mlpOut t)) := by
  have hsum : (s.setRows .x first rows fun t => M.add (s.buf .x t) (s.buf .mlpOut t)).buf .x t = _ :=
    Slab.setRows_in ht
  refine ⟨?_, (Slab.setRows_in ht).trans (congrArg (M.rmsNorm w) hsum)⟩
  exact (congrFun (Slab.setRows_other (by decide)) t).trans hsum

theorem exec_gemm (which : Projection) (ht : t < rows) :
    ((ForwardOp.gemm which first rows).exec M inp tables s).buf which.out t
      = M.gemm which (s.buf which.act (first + t)) :=
  Slab.setRows_all ht

theorem exec_gemm_other (which : Projection) (hb : b ≠ which.out) :
    ((ForwardOp.gemm which first rows).exec M inp tables s).buf b = s.buf b :=
  Slab.setRows_other hb

end

/-- the launches in stream order -/
def execAll (M : RowMath V C) (inp : Nat → DeviceRow) (tables : Nat → Int) (ops : List ForwardOp)
    (s : Slab V C) : Slab V C :=
  ops.foldl (ForwardOp.exec M inp tables) s

/-! ## the transformer, one token at a time -/

namespace RowMath
variable (M : RowMath V C)

/-- the residual a layer starts from: the output of the block before it is folded in.  `h` is the
residual and the block output -/
def residual (layer : Nat) (h : V × V) : V := if layer = 0 then h.1 else M.add h.1 h.2

def fused (layer p : Nat) (h : V × V) : V :=
  M.rope p (M.gemm (.wQkv layer) (M.rmsNorm (.inputNorm layer) (M.residual layer h)))

/-- the keys and values of the position -/
def cell (layer p : Nat) (h : V × V) : C := M.keyValue (M.fused layer p h)

/-- one layer, over the cells of the positions up to its own -/
def block (layer p : Nat) (h : V × V) (cells : List C) : V × V :=
  let x := M.add (M.residual layer h) (M.gemm (.wO layer) (M.attend (M.fused layer p h) cells))
  (x, M.gemm (.wDown layer)
    (M.siluMul (M.gemm (.wGateup layer) (M.rmsNorm (.postAttnNorm layer) x))))

/-- after `n` layers; `past` are the cells of the earlier positions, by layer -/
def hidden (token : Int) (p : Nat) (past : List (Nat → C)) : Nat → V × V
  | 0 => (M.embed token, M.embed token)
  | n + 1 =>
    let h := hidden token p past n
    M.block n p h (past.map (· n) ++ [M.cell n p h])

def logits (h : V × V) : V := M.gemm .lmHead (M.rmsNorm .finalNorm (M.add h.1 h.2))

/-- the transformer of `numLayers` layers; further layers of a cell are never read -/
def numerics (numLayers : Nat) : Numerics (Nat → C) := fun token p past =>
  (fun layer => M.cell layer p (M.hidden token p past layer),
    M.argmax (M.logits (M.hidden token p past numLayers)))

end RowMath

end
end Redline
