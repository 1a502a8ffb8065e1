import Mathlib.Algebra.GroupWithZero.Nat
import Redline.Core.Scheduler
import Redline.Lib.Script

/-!
# The model executor, host side

`core/model_executor.cpp`.  A call of the executor is a `Script`: it fills the pinned mirrors
element by element, with the checks of the source between the stores, and enqueues copies and
kernels on the stream.  What the device computes is not in here; the script of a call says what it
was asked to do, and `Launch` which inputs its kernels find in the uploaded mirrors.

`ExecutorError.device` stands for every failure of CUDA or cuBLASLt.
-/

namespace Redline
open Script

/-! ## configuration -/

structure ModelConfig where
  hiddenSize : Int
  numLayers : Int
  numQHeads : Int
  numKvHeads : Int
  headDim : Int
  intermediateSize : Int
  vocabSize : Int
  eosTokenIds : List Int
  deriving DecidableEq, Repr

def ModelConfig.kvBytesPerToken (c : ModelConfig) : Int :=
  2 * c.numLayers * c.numKvHeads * c.headDim * 2

structure ExecutorOptions where
  kvPoolBytes : Int
  maxBatch : Int
  maxSeqLen : Int
  prefillChunkTokens : Int
  enableCudaGraphs : Bool
  padEagerToBucket : Int
  debugDumpDir : String

/-! ## errors -/

/-- why a decode row is refused -/
inductive RowFault where
  | noToken
  | seqLen (seqLen : Nat) (maxSeqLen : Int)
  | token (token : Int)
  | uncovered (blocks position needed : Nat)
  | tooWide (maxBlocksPerSeq : Nat)
  | badBlock (entry : Nat) (block : Int)
  deriving DecidableEq, Repr

/-- why a prefill chunk is refused -/
inductive ChunkFault where
  | slice (chunkBegin chunkEnd promptLen : Nat)
  | tooLong (rows : Nat) (prefillChunkTokens : Int)
  | seqLen (chunkEnd : Nat) (maxSeqLen : Int)
  | uncovered (blocks chunkEnd needed : Nat)
  | tooWide (maxBlocksPerSeq : Nat)
  | token (position : Nat) (token : Int)
  | badBlock (entry : Nat) (block : Int)
  deriving DecidableEq, Repr

inductive ExecutorError where
  | invalidConfiguration (what : String)
  | poolTooSmall (kvPoolBytes blockBytes : Int)
  | batchTooLarge (size : Nat) (maxBatch : Int)
  | noGraphs
  | noBucket (size : Nat)
  | decodeRow (row id : Nat) (fault : RowFault)
  | prefillChunk (id : Nat) (fault : ChunkFault)
  | noPrefillAlgorithm (rows ctx : Nat)
  | device (what : String)
  deriving DecidableEq, Repr

def badBlockText (entry : Nat) (block : Int) : String :=
  "block table entry " ++ toString entry ++ " holds invalid block id " ++ toString block

def tooWideText (maxBlocksPerSeq : Nat) : String :=
  "block table exceeds max_blocks_per_seq " ++ toString maxBlocksPerSeq

def RowFault.message : RowFault → String
  | .noToken => "decode scheduled before the first generated token exists"
  | .seqLen n maxSeqLen =>
    "seq_len " ++ toString n ++ " outside [1, max_seq_len " ++ toString maxSeqLen ++ "]"
  | .token t => "input token " ++ toString t ++ " outside the vocab"
  | .uncovered blocks position needed =>
    "block table holds " ++ toString blocks ++ " blocks but position " ++ toString position ++
      " needs " ++ toString needed
  | .tooWide w => tooWideText w
  | .badBlock entry block => badBlockText entry block

def ChunkFault.message : ChunkFault → String
  | .slice b e promptLen =>
    "chunk [" ++ toString b ++ ", " ++ toString e ++ ") is not a non-empty slice of the " ++
      toString promptLen ++ "-token prompt"
  | .tooLong rows cap =>
    "chunk of " ++ toString rows ++ " tokens exceeds prefill_chunk_tokens " ++ toString cap ++
      " (the per-step input and scores-scratch row capacity)"
  | .seqLen e maxSeqLen =>
    "chunk end " ++ toString e ++ " exceeds max_seq_len " ++ toString maxSeqLen ++
      " (the scores/khat kv-extent capacity)"
  | .uncovered blocks e needed =>
    "block table holds " ++ toString blocks ++ " blocks but the chunk's context end " ++
      toString e ++ " needs " ++ toString needed
  | .tooWide w => tooWideText w
  | .token position t =>
    "prompt token at position " ++ toString position ++ " (" ++ toString t ++ ") outside the vocab"
  | .badBlock entry block => badBlockText entry block

def ExecutorError.message : ExecutorError → String
  | .invalidConfiguration what => "model_executor: invalid configuration: " ++ what
  | .poolTooSmall bytes block =>
    "model_executor: kv_pool_bytes " ++ toString bytes ++
      " holds fewer than 2 KV blocks (block = " ++ toString block ++
      " B); block 0 is the reserved dummy block, so at least 2 are required"
  | .batchTooLarge size maxBatch =>
    "model_executor: decode batch of " ++ toString size ++ " exceeds max_batch " ++
      toString maxBatch
  | .noGraphs =>
    "model_executor: DecodeGraph called with no captured decode graphs " ++
      "(enable_cuda_graphs off, or capture degraded to eager at init)"
  | .noBucket size =>
    "model_executor: no decode bucket covers a batch of " ++ toString size ++
      "; the engine must run this step eagerly (docs/DESIGN.md section 9)"
  | .decodeRow row id fault =>
    "model_executor: decode row " ++ toString row ++ " (request " ++ toString id ++ "): " ++
      fault.message
  | .prefillChunk id fault =>
    "model_executor: prefill chunk (request " ++ toString id ++ "): " ++ fault.message
  | .noPrefillAlgorithm rows ctx =>
    "model_executor: cuBLASLt offers no algorithm for the prefill attention GEMMs at chunk " ++
      "shape T=" ++ toString rows ++ ", ctx=" ++ toString ctx ++
      " in either the strided-batched or the per-head form; the third fallback stage of " ++
      "docs/DESIGN.md section 16 (explicit repack kernels) is not implemented in v1"
  | .device what => "model_executor: " ++ what

/-! ## geometry -/

/-- the checks of `ValidateGeometry`, in order, with their texts -/
def geometryChecks (c : ModelConfig) (o : ExecutorOptions) : List (Bool × String) :=
  [(decide (0 < c.hiddenSize ∧ 0 < c.numLayers ∧ 0 < c.numQHeads ∧ 0 < c.numKvHeads ∧
      0 < c.headDim ∧ 0 < c.intermediateSize ∧ 0 < c.vocabSize),
    "every ModelConfig dimension must be positive"),
   (decide (c.numQHeads * c.headDim = c.hiddenSize),
    "num_q_heads * head_dim must equal hidden_size"),
   (decide (c.numQHeads % c.numKvHeads = 0),
    "num_q_heads must be a multiple of num_kv_heads (grouped-query attention)"),
   (decide (1 ≤ o.maxBatch), "max_batch must be >= 1"),
   (decide (1 ≤ o.maxSeqLen), "max_seq_len must be >= 1"),
   (decide (1 ≤ o.prefillChunkTokens), "prefill_chunk_tokens must be >= 1"),
   (decide (0 ≤ o.padEagerToBucket), "pad_eager_to_bucket must be >= 0"),
   (decide (0 < o.kvPoolBytes), "kv_pool_bytes must be positive")]

def validateGeometry (c : ModelConfig) (o : ExecutorOptions) : Except ExecutorError Unit :=
  match (geometryChecks c o).find? fun p => !p.1 with
  | some p => .error (.invalidConfiguration p.2)
  | none => .ok ()

/-- an accepted geometry passes every check -/
theorem geometry_of_ok {c : ModelConfig} {o : ExecutorOptions} (h : validateGeometry c o = .ok ()) :
    ∀ p ∈ geometryChecks c o, p.1 = true := by
  intro p hp
  unfold validateGeometry at h
  cases hf : (geometryChecks c o).find? fun p => !p.1 with
  | some q =>
    rw [hf] at h
    cases h
  | none => simpa using List.find?_eq_none.mp hf p hp

/-- `ComputeBudget`: the number of KV blocks -/
def computeBudget (c : ModelConfig) (o : ExecutorOptions) : Except ExecutorError Int := do
  validateGeometry c o
  let blockBytes := kKvBlockSize * c.kvBytesPerToken
  let numBlocks := o.kvPoolBytes / blockBytes
  if numBlocks < 2 then .error (.poolTooSmall o.kvPoolBytes blockBytes) else .ok numBlocks

/-! ## mirrors and the work on the stream -/

/-- the pinned mirrors of the per-step inputs -/
inductive Mirror where
  | inputIds
  | positions
  | seqLens
  | blockTables
  deriving DecidableEq, Repr

abbrev Mirrors := Mirror → Nat → Int

/-- one host store into a mirror -/
structure Store where
  mirror : Mirror
  index : Nat
  value : Int
  deriving DecidableEq, Repr

def Mirrors.store (m : Mirrors) (w : Store) : Mirrors :=
  Function.update m w.mirror (Function.update (m w.mirror) w.index w.value)

inductive PrefillGemmMode where
  | kStridedBatched
  | kPerHead
  deriving DecidableEq, Repr

inductive Gemm where
  | qkvBias
  | o
  | gateup
  | down
  | lmHead
  | scores
  | pv
  deriving DecidableEq, Repr

inductive Kernel where
  | embedGather (rows : Nat)
  | rmsNorm (rows : Nat)
  | rmsNormResidual (rows : Nat)
  | gemm (which : Gemm) (rows : Nat)
  | ropeInplace (rows : Nat)
  | kvScatter (layer rowStride rows : Nat)
  | pagedAttentionDecode (layer maxBlocks rows : Nat)
  | kvGather (layer ctx : Nat)
  | prefillSoftmax (rows ctx chunkStart : Nat)
  | siluMul (rows : Nat)
  | greedyArgmax (rows : Nat)
  deriving DecidableEq, Repr

/-- what a call does, step by step -/
inductive Action where
  | store (w : Store)
  /-- host-only plan resolution -/
  | resolve
  /-- asynchronous host-to-device copy of the first `count` elements of a mirror -/
  | upload (mirror : Mirror) (count : Nat)
  /-- one enqueue: a kernel, or a graph of them -/
  | launch (kernels : List Kernel)
  | download (count : Nat)
  | sync
  /-- `cudaGetLastError` -/
  | poll
  /-- file output of the debug dump -/
  | writeFile
  deriving DecidableEq, Repr

structure Executor where
  config : ModelConfig
  options : ExecutorOptions
  buckets : List Nat
  maxBlocksPerSeq : Nat
  numKvBlocks : Int
  /-- the graphs of all buckets were captured -/
  hasDecodeGraphs : Bool
  /-- what the GEMM probes of a chunk shape `rows`, `ctx` say -/
  probe : Nat → Nat → Option PrefillGemmMode
  mirrors : Mirrors

abbrev ExecutorCall := Script Action ExecutorError

/-- a decode call as reported to the engine, but for the tokens -/
structure DecodeShape where
  rows : Nat := 0
  bucket : Option Nat := none
  deriving DecidableEq, Repr

/-- a prefill call as reported to the engine, but for the token -/
structure PrefillShape where
  rows : Nat
  finalChunk : Bool
  deriving DecidableEq, Repr

namespace Executor

/-- the constructor; `captured` and `probe` are outcomes of CUDA and cuBLASLt calls -/
def make (config : ModelConfig) (options : ExecutorOptions) (captured : Bool)
    (probe : Nat → Nat → Option PrefillGemmMode) : Except ExecutorError Executor := do
  let numKvBlocks ← computeBudget config options
  let buckets := makeDecodeBuckets options.maxBatch.toNat
  return {
    config, options, buckets, numKvBlocks, probe
    maxBlocksPerSeq := blocksForTokens options.maxSeqLen.toNat
    hasDecodeGraphs := options.enableCudaGraphs && captured && !buckets.isEmpty
    mirrors := fun _ _ => 0 }

/-! ## filling the mirrors -/

def put (mirror : Mirror) (index : Nat) (value : Int) : ExecutorCall Unit :=
  emit (.store ⟨mirror, index, value⟩)

/-- `std::fill` -/
def fillDummy (start stop : Nat) : ExecutorCall Unit :=
  emitAll ((List.range' start (stop - start)).map fun i => .store ⟨.blockTables, i, kDummyBlockId⟩)

/-- one block-table row at `base`, padded with the dummy block -/
def fillTableRow (x : Executor) (base : Nat) (blocks : List Int)
    (bad : Nat → Int → ExecutorError) : ExecutorCall Unit := do
  each (fun i block => do
    assert (block ≠ kInvalidBlockId)
    failIf (block ≤ kDummyBlockId ∨ x.numKvBlocks ≤ block) (bad i block)
    put .blockTables (base + i) block) 0 blocks
  fillDummy (base + blocks.length) (base + x.maxBlocksPerSeq)

def inVocabulary (x : Executor) (token : Int) : Prop := 0 ≤ token ∧ token < x.config.vocabSize

instance (x : Executor) (token : Int) : Decidable (x.inVocabulary token) :=
  inferInstanceAs (Decidable (0 ≤ token ∧ token < x.config.vocabSize))

/-- the rows a decode step executes at -/
def executedRows (x : Executor) (live padToRows : Nat) : Nat :=
  if 0 < padToRows then padToRows
  else if 0 < x.options.padEagerToBucket ∧ x.buckets ≠ [] then
    let want := max live (min x.options.padEagerToBucket.toNat (x.buckets.getLastD 0))
    match selectBucket want x.buckets with
    | some bucket => if 0 < bucket then bucket else live
    | none => live
  else live

def fillDecodeRow (x : Executor) (r : Nat) (q : Request) : ExecutorCall Unit := do
  let fail (fault : RowFault) : ExecutorError := .decodeRow r q.id fault
  let token := q.outputTokens.getLastD 0
  let blocks := q.blockTable.blocks
  let needed := blocksForTokens q.seqLen
  failIf (q.outputTokens = []) (fail .noToken)
  failIf (q.seqLen < 1 ∨ x.options.maxSeqLen < q.seqLen) (fail (.seqLen q.seqLen x.options.maxSeqLen))
  failIf (¬ x.inVocabulary token) (fail (.token token))
  failIf (blocks.length < needed) (fail (.uncovered blocks.length (q.seqLen - 1) needed))
  failIf (x.maxBlocksPerSeq < blocks.length) (fail (.tooWide x.maxBlocksPerSeq))
  put .inputIds r token
  put .positions r (q.seqLen - 1)
  put .seqLens r q.seqLen
  x.fillTableRow (r * x.maxBlocksPerSeq) blocks fun i block => fail (.badBlock i block)

/-- a padded row: token 0, position 0, no context, dummy blocks -/
def fillPaddedRow (x : Executor) (r : Nat) : ExecutorCall Unit := do
  put .inputIds r 0
  put .positions r 0
  put .seqLens r 0
  fillDummy (r * x.maxBlocksPerSeq) (r * x.maxBlocksPerSeq + x.maxBlocksPerSeq)

def fillDecodeMirrors (x : Executor) (batch : List Request) (padToRows : Nat) : ExecutorCall Nat := do
  let live := batch.length
  assert (0 < padToRows → live ≤ padToRows ∧ (padToRows : Int) ≤ x.options.maxBatch)
  let rows := x.executedRows live padToRows
  each x.fillDecodeRow 0 batch
  each (fun _ r => x.fillPaddedRow r) live (List.range' live (rows - live))
  return rows

def fillPrefillMirrors (x : Executor) (q : Request) (chunkBegin chunkEnd : Nat) : ExecutorCall Nat := do
  let fail (fault : ChunkFault) : ExecutorError := .prefillChunk q.id fault
  let promptLen := q.numPromptTokens
  let rows := chunkEnd - chunkBegin
  let blocks := q.blockTable.blocks
  let needed := blocksForTokens chunkEnd
  failIf (chunkEnd ≤ chunkBegin ∨ promptLen < chunkEnd) (fail (.slice chunkBegin chunkEnd promptLen))
  failIf (x.options.prefillChunkTokens < rows) (fail (.tooLong rows x.options.prefillChunkTokens))
  failIf (x.options.maxSeqLen < chunkEnd) (fail (.seqLen chunkEnd x.options.maxSeqLen))
  failIf (blocks.length < needed) (fail (.uncovered blocks.length chunkEnd needed))
  failIf (x.maxBlocksPerSeq < blocks.length) (fail (.tooWide x.maxBlocksPerSeq))
  each (fun i token => do
    failIf (¬ x.inVocabulary token) (fail (.token (chunkBegin + i) token))
    put .inputIds i token
    put .positions i (chunkBegin + i)) 0 ((q.promptTokens.drop chunkBegin).take rows)
  x.fillTableRow 0 blocks fun i block => fail (.badBlock i block)
  return rows

/-! ## enqueueing -/

def launch (k : Kernel) : Action := .launch [k]

def uploadDecodeInputs (x : Executor) (rows : Nat) : List Action :=
  [.upload .inputIds rows, .upload .positions rows, .upload .seqLens rows,
    .upload .blockTables (rows * x.maxBlocksPerSeq)]

def uploadPrefillInputs (x : Executor) (rows : Nat) : List Action :=
  [.upload .inputIds rows, .upload .positions rows, .upload .blockTables x.maxBlocksPerSeq]

/-- the MLP half of a layer, the same in both forwards -/
def mlpKernels (rows : Nat) : List Kernel :=
  [.rmsNormResidual rows, .gemm .gateup rows, .siluMul rows, .gemm .down rows]

def inputNorm (layer rows : Nat) : Kernel :=
  if layer = 0 then .rmsNorm rows else .rmsNormResidual rows

def enqueueDecodeForward (x : Executor) (rows : Nat) : List Kernel :=
  .embedGather rows ::
    ((List.range x.config.numLayers.toNat).flatMap fun layer =>
      inputNorm layer rows :: .gemm .qkvBias rows :: .ropeInplace rows ::
        .kvScatter layer x.maxBlocksPerSeq rows :: .pagedAttentionDecode layer x.maxBlocksPerSeq rows ::
        .gemm .o rows :: mlpKernels rows) ++
    [.rmsNormResidual rows, .gemm .lmHead rows]

/-- the scores and PV products of one layer: a call per KV head, or one per query head -/
def enqueuePrefillAttention (x : Executor) (layer rows chunkStart ctx : Nat)
    (mode : PrefillGemmMode) : List Kernel :=
  let calls := match mode with
    | .kStridedBatched => x.config.numKvHeads.toNat
    | .kPerHead => x.config.numQHeads.toNat
  .kvGather layer ctx :: List.replicate calls (.gemm .scores rows) ++
    .prefillSoftmax rows ctx chunkStart :: List.replicate calls (.gemm .pv rows)

def prefillLayerKernels (x : Executor) (layer rows chunkStart ctx : Nat) (mode : PrefillGemmMode) :
    List Kernel :=
  inputNorm layer rows :: .gemm .qkvBias rows :: .ropeInplace rows :: .kvScatter layer 0 rows ::
    (x.enqueuePrefillAttention layer rows chunkStart ctx mode ++ .gemm .o rows :: mlpKernels rows)

def enqueuePrefillForward (x : Executor) (rows chunkStart ctx : Nat) (finalChunk : Bool)
    (mode : PrefillGemmMode) : List Kernel :=
  .embedGather rows ::
    ((List.range x.config.numLayers.toNat).flatMap fun layer =>
      x.prefillLayerKernels layer rows chunkStart ctx mode) ++
    if finalChunk then [.rmsNormResidual 1, .gemm .lmHead 1] else []

/-- the kernels of a decode step, as the stream runs them -/
def decodeKernels (x : Executor) (rows : Nat) : List Kernel :=
  x.enqueueDecodeForward rows ++ [.greedyArgmax rows]

/-- the kernels of a chunk; the last one has a token to find -/
def prefillKernels (x : Executor) (rows chunkStart ctx : Nat) (finalChunk : Bool)
    (mode : PrefillGemmMode) :
    List Kernel :=
  x.enqueuePrefillForward rows chunkStart ctx finalChunk mode ++ if finalChunk then [.greedyArgmax 1] else []

/-- the stages of the layer-0 dump, each drained before it is written out -/
def dumpLayer0Activations (x : Executor) (rows chunkStart ctx : Nat) (mode : PrefillGemmMode) :
    List Action :=
  let stage (kernels : List Kernel) : List Action :=
    kernels.map launch ++ [.sync, .poll, .writeFile]
  .writeFile :: stage [.embedGather rows, .rmsNorm rows] ++ stage [.gemm .qkvBias rows] ++
    stage (.ropeInplace rows :: .kvScatter 0 0 rows ::
      (x.enqueuePrefillAttention 0 rows chunkStart ctx mode ++ [.gemm .o rows])) ++
    stage (mlpKernels rows) ++ [.writeFile, .writeFile]

def bucketForRows (x : Executor) (rows : Nat) : Option Nat := x.buckets.find? (· == rows)

/-! ## the calls -/

/-- the end of a decode step: tokens to the host, and the step boundary -/
def finishDecode (rows : Nat) : List Action := [.download rows, .sync, .poll]

/-- everything an eager decode step does after its fill -/
def decodeEagerWork (x : Executor) (rows : Nat) : List Action :=
  x.uploadDecodeInputs rows ++
    (x.enqueueDecodeForward rows ++ [Kernel.greedyArgmax rows]).map launch ++ finishDecode rows

/-- the same with one launch of the captured graph -/
def decodeGraphWork (x : Executor) (rows : Nat) : List Action :=
  x.uploadDecodeInputs rows ++
    .launch (x.enqueueDecodeForward rows ++ [Kernel.greedyArgmax rows]) :: finishDecode rows

/-- the end of a chunk: the last one has a token to fetch -/
def finishPrefill (finalChunk : Bool) : List Action :=
  if finalChunk then [launch (.greedyArgmax 1), .download 1, .sync, .poll] else [.sync, .poll]

/-- everything a prefill chunk does after its fill; `dump`: the debug dump is pending -/
def prefillWork (x : Executor) (dump : Bool) (rows chunkBegin chunkEnd : Nat) (finalChunk : Bool)
    (mode : PrefillGemmMode) : List Action :=
  x.uploadPrefillInputs rows ++
    (x.enqueuePrefillForward rows chunkBegin chunkEnd finalChunk mode).map launch ++
    finishPrefill finalChunk ++
    if dump then x.dumpLayer0Activations rows chunkBegin chunkEnd mode else []

def decodeEager (x : Executor) (batch : List Request) : ExecutorCall DecodeShape :=
  if batch = [] then pure {}
  else do
    failIf (x.options.maxBatch < batch.length) (.batchTooLarge batch.length x.options.maxBatch)
    let rows ← x.fillDecodeMirrors batch 0
    emitAll (x.decodeEagerWork rows)
    return { rows, bucket := x.bucketForRows rows }

def decodeGraph (x : Executor) (batch : List Request) : ExecutorCall DecodeShape :=
  if batch = [] then pure {}
  else do
    failIf (x.hasDecodeGraphs = false) .noGraphs
    failIf (x.options.maxBatch < batch.length) (.batchTooLarge batch.length x.options.maxBatch)
    match selectBucket batch.length x.buckets with
    | none => raise (.noBucket batch.length)
    | some bucket =>
      let rows ← x.fillDecodeMirrors batch bucket
      assert (rows = bucket)
      emitAll (x.decodeGraphWork rows)
      return { rows, bucket := some bucket }

def prefillChunk (x : Executor) (dump : Bool) (q : Request) (chunkBegin chunkEnd : Nat) :
    ExecutorCall PrefillShape := do
  let rows ← x.fillPrefillMirrors q chunkBegin chunkEnd
  let finalChunk := chunkEnd == q.numPromptTokens
  emit .resolve
  match x.probe rows chunkEnd with
  | none => raise (.noPrefillAlgorithm rows chunkEnd)
  | some mode =>
    emitAll (x.prefillWork dump rows chunkBegin chunkEnd finalChunk mode)
    return { rows, finalChunk }

/-! ## what the kernels find on the device -/

def Action.apply (m : Mirrors) : Action → Mirrors
  | .store w => m.store w
  | _ => m

/-- the mirrors after the stores of a log -/
def afterLog (log : List Action) (m : Mirrors) : Mirrors := log.foldl Action.apply m

/-- the mirrors and the input buffers on the device: a copy takes what its mirror holds then -/
def Action.stage (m : Mirrors × Mirrors) : Action → Mirrors × Mirrors
  | .store w => (m.1.store w, m.2)
  | .upload mirror count => (m.1, Function.update m.2 mirror fun i =>
      if i < count then m.1 mirror i else m.2 mirror i)
  | _ => m

/-- the input buffers once the copies of a log are made; what it does not upload counts as 0 -/
def inputsAfter (log : List Action) (m : Mirrors) : Mirrors :=
  (log.foldl Action.stage (m, fun _ _ => 0)).2

end Executor

/-- the kernels an action enqueues -/
def Action.kernels : Action → List Kernel
  | .launch kernels => kernels
  | _ => []

/-- the number of tokens an action brings to the host -/
def Action.downloaded : Action → Nat
  | .download count => count
  | _ => 0

/-- the row stride and the rows of a K/V scatter -/
def Kernel.scattered : Kernel → Option (Nat × Nat)
  | .kvScatter _ rowStride rows => some (rowStride, rows)
  | _ => none

/-- the positions a K/V gather reads -/
def Kernel.gathered : Kernel → Option Nat
  | .kvGather _ ctx => some ctx
  | _ => none

/-- one row of the uploaded inputs -/
structure DeviceRow where
  inputId : Int
  position : Nat
  /-- the positions `[0, extent)` are read through the table -/
  extent : Nat
  table : List Int
  deriving DecidableEq, Repr

/-- row `t` as a kernel finds it, with the row stride of its block-table argument -/
def Mirrors.row (m : Mirrors) (width rowStride extent t : Nat) : DeviceRow :=
  { inputId := m .inputIds t
    position := (m .positions t).toNat
    extent
    table := (List.range width).map fun i => m .blockTables (t * rowStride + i) }

/-- the kernels of one call and their inputs -/
structure Launch where
  /-- a prefill chunk, whose rows attend causally, or a decode batch -/
  prefill : Bool
  /-- the requests of the live rows; the device never sees them -/
  batch : List Nat
  rows : List DeviceRow
  /-- the number of tokens the host reads back -/
  tokens : Nat
  /-- in stream order -/
  kernels : List Kernel
  /-- the block-table buffer -/
  blockTables : Nat → Int

/-- what a call launched, read off its log: the kernels say how many rows there are, how they find
their tables and how far they read; only a chunk gathers -/
def Executor.launchOf (x : Executor) (batch : List Nat) (log : List Action) : Launch :=
  let kernels := log.flatMap Action.kernels
  let inputs := inputsAfter log x.mirrors
  let scatter := (kernels.findSome? Kernel.scattered).getD (0, 0)
  let gather := kernels.findSome? Kernel.gathered
  { prefill := gather.isSome
    batch
    rows := (List.range scatter.2).map fun t =>
      inputs.row x.maxBlocksPerSeq scatter.1 (gather.getD (inputs .seqLens t).toNat) t
    tokens := min (log.map Action.downloaded).sum batch.length
    kernels
    blockTables := inputs .blockTables }

/-- the block and slot of position `p` in a block-table row: `p >> 4`, `p & 15` -/
def cellOf (table : List Int) (p : Nat) : Int × Nat :=
  (table.getD (p / kKvBlockSize) kInvalidBlockId, p % kKvBlockSize)

end Redline
