import Redline.Core.Executor
import Redline.Lib.Slab
import Redline.Loader.Convert
import Redline.Loader.Index

/-!
# The weight store

The tensor map, the slab layout and the load loop of `loader/weights.cpp`.  Loading logs its
uploads; the uploader writes exactly the converted elements.
-/

namespace Redline
open Script

/-- the fields of the configuration that only the loader reads -/
structure LoaderConfig extends ModelConfig where
  qkvBias : Bool
  tieWordEmbeddings : Bool

inductive LoadError where
  /-- `WeightsError` -/
  | weights (message : String)
  /-- `Fp16OverflowError` -/
  | overflow (tensor : String) (element : Nat) (bits : UInt16)
  /-- `std::runtime_error` of the uploader -/
  | runtime (message : String)

abbrev LoadCall := Script (Slab.Write UInt8) LoadError

/-! ## the checkpoint -/

/-- a view, with the mapped file that it is in -/
structure SourceTensor where
  file : MappedFile
  view : TensorView

namespace SourceTensor

def dtype (t : SourceTensor) : Dtype := t.view.dtype

def shape (t : SourceTensor) : List Int := t.view.shape.map Int64.toInt

/-- the bytes from `data` on -/
def bytes (t : SourceTensor) : List UInt8 := (t.file.bytes.drop t.view.data).take t.view.nbytes.toNat

/-- the 16-bit element at an index, little-endian -/
def element (t : SourceTensor) (i : Nat) : UInt16 :=
  (t.bytes.getD (2 * i) 0).toUInt16 ||| (t.bytes.getD (2 * i + 1) 0).toUInt16 <<< 8

end SourceTensor

/-- the merged view of all shards; what `openIndex` accepts is one (`Resolved.sound`) -/
structure SafetensorsModel extends ShardedModel where
  sound : toShardedModel.Sound

namespace SafetensorsModel

def contains (model : SafetensorsModel) (name : String) : Bool :=
  (model.merged.find? fun p => p.1 = name).isSome

def tensors (model : SafetensorsModel) (name : String) : Option SourceTensor :=
  match model.tensor name with
  | .error _ => none
  | .ok v => model.shards[v.shard]?.map fun shard => ⟨shard.file, v.view⟩

/-- `OpenSingle`: the views of one file -/
def single (file : SafetensorsFile) (h : ∀ v ∈ file.tensors, SoundView file.file v.2) :
    SafetensorsModel where
  shards := [file]
  merged := file.tensors.map fun v => (v.1, ⟨0, v.2⟩)
  sound := by
    intro name v hmem
    obtain ⟨view, hview, heq⟩ := List.mem_map.mp hmem
    obtain ⟨rfl, rfl⟩ := Prod.mk.inj heq
    exact ⟨file, rfl, h view hview⟩

theorem find_of_tensor {model : ShardedModel} {name : String} {v : ShardView}
    (h : model.tensor name = .ok v) :
    (name, v) ∈ model.merged := by
  unfold ShardedModel.tensor at h
  cases hfind : model.merged.find? fun p => p.1 = name with
  | none =>
    rw [hfind] at h
    cases h
  | some p =>
    rw [hfind] at h
    obtain rfl := Except.ok.inj h
    have hname : p.1 = name := by simpa using List.find?_some hfind
    exact hname ▸ List.mem_of_find?_eq_some hfind

theorem sound_of_tensors {model : SafetensorsModel} {name : String} {t : SourceTensor}
    (h : model.tensors name = some t) : SoundView t.file t.view := by
  unfold tensors at h
  cases htensor : model.tensor name with
  | error e =>
    rw [htensor] at h
    cases h
  | ok v =>
    rw [htensor] at h
    obtain ⟨shard, hshard, rfl⟩ := Option.map_eq_some_iff.mp h
    obtain ⟨shard', hshard', hsound⟩ := model.sound name v (find_of_tensor htensor)
    obtain rfl := Option.some.inj (hshard.symm.trans hshard')
    exact hsound

end SafetensorsModel

/-- a sound view has the bytes of its shape -/
theorem SourceTensor.length_bytes {t : SourceTensor} (h : SoundView t.file t.view) :
    (t.bytes.length : Int) = t.shape.prod * (dtypeSize t.dtype).toNat := by
  have hinside := h.inside
  have hlength : t.bytes.length = t.view.nbytes.toNat := by
    unfold bytes
    rw [List.length_take, List.length_drop]
    omega
  rw [hlength]
  exact h.exact_size

/-! ## the design geometry -/

namespace WeightLayout

def kHiddenSize : Int := 1536
def kNumLayers : Int := 28
def kVocabSize : Int := 151936
def kIntermediateSize : Int := 8960
def kQRows : Int := 1536
def kKvRows : Int := 256
def kQRowBegin : Int := 0
def kKRowBegin : Int := 1536
def kVRowBegin : Int := 1792
def kQkvRows : Int := 2048
def kGateRowBegin : Int := 0
def kUpRowBegin : Int := 8960
def kGateUpRows : Int := 17920

end WeightLayout

open WeightLayout

def checkGeometry (actual expected : Int) (what : String) : LoadCall Unit :=
  failIf (actual ≠ expected) (.weights ("weights: " ++ what ++ " = " ++ toString actual ++
    " does not match the docs/DESIGN.md section 4 fusion constant " ++ toString expected ++
    "; the fused device layout is defined for Qwen2.5-1.5B-Instruct only"))

def requireDesignGeometry (config : LoaderConfig) : LoadCall Unit := do
  checkGeometry config.hiddenSize kHiddenSize "hidden_size"
  checkGeometry config.numLayers kNumLayers "num_hidden_layers"
  checkGeometry config.vocabSize kVocabSize "vocab_size"
  checkGeometry config.intermediateSize kIntermediateSize "intermediate_size"
  checkGeometry (config.numQHeads * config.headDim) kQRows
    "num_attention_heads * head_dim (fused Q rows)"
  checkGeometry (config.numKvHeads * config.headDim) kKvRows
    "num_key_value_heads * head_dim (fused K/V rows)"
  failIf (config.qkvBias = false) (.weights ("weights: qkv_bias = false, but the fused layout " ++
    "carries b_qkv [2048] (Qwen2 hardcodes Q/K/V projection bias -- docs/MODEL_SPEC.md section 2)"))

/-! ## the tensor map -/

inductive DeviceTensorKind where
  | kEmbed
  | kWqkv
  | kBqkv
  | kWo
  | kWgateup
  | kWdown
  | kInputNorm
  | kPostAttnNorm
  | kFinalNorm
  | kLmHead
  deriving DecidableEq, Repr

structure WeightMapEntry where
  hfName : String
  dest : DeviceTensorKind
  layer : Int
  destRowBegin : Int
  expectedShape : List Int
  deriving DecidableEq, Repr

def WeightMapEntry.numElements (entry : WeightMapEntry) : Int :=
  entry.expectedShape.foldl (fun n dim => n * dim) 1

def destRowWidth (kind : DeviceTensorKind) (config : LoaderConfig) : Int :=
  match kind with
  | .kEmbed | .kLmHead | .kWqkv | .kWo | .kWgateup => config.hiddenSize
  | .kWdown => config.intermediateSize
  | .kBqkv | .kInputNorm | .kPostAttnNorm | .kFinalNorm => 1

def layerTensorName (layer : Nat) (suffix : String) : String :=
  "model.layers." ++ toString layer ++ suffix

/-- the entries of one layer -/
def layerEntries (config : LoaderConfig) (l : Nat) : List WeightMapEntry :=
  let hidden := config.hiddenSize
  let inter := config.intermediateSize
  let qRows := config.numQHeads * config.headDim
  let kvRows := config.numKvHeads * config.headDim
  [ ⟨layerTensorName l ".input_layernorm.weight", .kInputNorm, l, 0, [hidden]⟩,
    ⟨layerTensorName l ".self_attn.q_proj.weight", .kWqkv, l, kQRowBegin, [qRows, hidden]⟩,
    ⟨layerTensorName l ".self_attn.q_proj.bias", .kBqkv, l, kQRowBegin, [qRows]⟩,
    ⟨layerTensorName l ".self_attn.k_proj.weight", .kWqkv, l, kKRowBegin, [kvRows, hidden]⟩,
    ⟨layerTensorName l ".self_attn.k_proj.bias", .kBqkv, l, kKRowBegin, [kvRows]⟩,
    ⟨layerTensorName l ".self_attn.v_proj.weight", .kWqkv, l, kVRowBegin, [kvRows, hidden]⟩,
    ⟨layerTensorName l ".self_attn.v_proj.bias", .kBqkv, l, kVRowBegin, [kvRows]⟩,
    ⟨layerTensorName l ".self_attn.o_proj.weight", .kWo, l, 0, [hidden, hidden]⟩,
    ⟨layerTensorName l ".post_attention_layernorm.weight", .kPostAttnNorm, l, 0, [hidden]⟩,
    ⟨layerTensorName l ".mlp.gate_proj.weight", .kWgateup, l, kGateRowBegin, [inter, hidden]⟩,
    ⟨layerTensorName l ".mlp.up_proj.weight", .kWgateup, l, kUpRowBegin, [inter, hidden]⟩,
    ⟨layerTensorName l ".mlp.down_proj.weight", .kWdown, l, 0, [hidden, inter]⟩ ]

def weightMap (config : LoaderConfig) (hasLmHead : Bool) : List WeightMapEntry :=
  ⟨"model.embed_tokens.weight", .kEmbed, -1, 0, [config.vocabSize, config.hiddenSize]⟩ ::
    (List.range config.numLayers.toNat).flatMap (layerEntries config) ++
    [⟨"model.norm.weight", .kFinalNorm, -1, 0, [config.hiddenSize]⟩] ++
    if hasLmHead then
      [⟨"lm_head.weight", .kLmHead, -1, 0, [config.vocabSize, config.hiddenSize]⟩]
    else []

def buildWeightMap (config : LoaderConfig) (hasLmHead : Bool) : LoadCall (List WeightMapEntry) := do
  requireDesignGeometry config
  return weightMap config hasLmHead

/-! ## the slab layout -/

structure LayerOffsets where
  wQkv : Int
  bQkv : Int
  wO : Int
  wGateup : Int
  wDown : Int
  inputNorm : Int
  postAttnNorm : Int
  deriving DecidableEq, Repr, Inhabited

structure WeightsLayout where
  embed : Int
  layers : List LayerOffsets
  finalNorm : Int
  lmHead : Int
  lmHeadAliasesEmbed : Bool
  totalBytes : Int
  deriving DecidableEq, Repr

/-- the offset after a region of `bytes` at `at`, a multiple of 256 -/
def placeAfter (start bytes : Int) : Int := (start + bytes + 256 - 1).tdiv 256 * 256

/-- the regions of a layer from `offset` on, and the offset after them -/
def placeLayer (config : LoaderConfig) (offset : Int) : LayerOffsets × Int :=
  let hidden := config.hiddenSize
  let inter := config.intermediateSize
  let wQkv := offset
  let bQkv := placeAfter wQkv (kQkvRows * hidden * 2)
  let wO := placeAfter bQkv (kQkvRows * 2)
  let wGateup := placeAfter wO (hidden * hidden * 2)
  let wDown := placeAfter wGateup (kGateUpRows * hidden * 2)
  let inputNorm := placeAfter wDown (hidden * inter * 2)
  let postAttnNorm := placeAfter inputNorm (hidden * 2)
  ({ wQkv, bQkv, wO, wGateup, wDown, inputNorm, postAttnNorm }, placeAfter postAttnNorm (hidden * 2))

def placeLayers (config : LoaderConfig) : Nat → Int → List LayerOffsets × Int
  | 0, offset => ([], offset)
  | n+1, offset =>
    let (layer, offset) := placeLayer config offset
    let (layers, offset) := placeLayers config n offset
    (layer :: layers, offset)

def weightsLayout (config : LoaderConfig) (hasLmHead : Bool) : WeightsLayout :=
  let hidden := config.hiddenSize
  let vocab := config.vocabSize
  let embed := 0
  let (layers, finalNorm) :=
    placeLayers config config.numLayers.toNat (placeAfter embed (vocab * hidden * 2))
  let offset := placeAfter finalNorm (hidden * 2)
  if hasLmHead then
    { embed, layers, finalNorm
      lmHead := offset
      lmHeadAliasesEmbed := false
      totalBytes := placeAfter offset (vocab * hidden * 2) }
  else
    { embed, layers, finalNorm
      lmHead := embed
      lmHeadAliasesEmbed := true
      totalBytes := offset }

def computeWeightsLayout (config : LoaderConfig) (hasLmHead : Bool) : LoadCall WeightsLayout := do
  requireDesignGeometry config
  return weightsLayout config hasLmHead

def WeightsLayout.offsetFor (layout : WeightsLayout) (kind : DeviceTensorKind) (layer : Int) :
    LoadCall Int :=
  match kind with
  | .kEmbed => return layout.embed
  | .kLmHead => return layout.lmHead
  | .kFinalNorm => return layout.finalNorm
  | kind => do
    assert (0 ≤ layer ∧ layer < layout.layers.length)
    let offsets := layout.layers.getD layer.toNat default
    match kind with
    | .kWqkv => return offsets.wQkv
    | .kBqkv => return offsets.bQkv
    | .kWo => return offsets.wO
    | .kWgateup => return offsets.wGateup
    | .kWdown => return offsets.wDown
    | .kInputNorm => return offsets.inputNorm
    | .kPostAttnNorm => return offsets.postAttnNorm
    | _ => abort

def entryByteOffset (layout : WeightsLayout) (entry : WeightMapEntry) (config : LoaderConfig) :
    LoadCall Int := do
  let base ← layout.offsetFor entry.dest entry.layer
  return base + entry.destRowBegin * destRowWidth entry.dest config * 2

/-! ## loading -/

def shapeToString (shape : List Int) : String :=
  "[" ++ ", ".intercalate (shape.map toString) ++ "]"

def validateEntry (model : SafetensorsModel) (entry : WeightMapEntry) : LoadCall Unit :=
  match model.tensors entry.hfName with
  | none => raise (.weights ("weights: required tensor '" ++ entry.hfName ++
      "' is missing from the checkpoint -- wrong or corrupt model directory? (expected shape " ++
      shapeToString entry.expectedShape ++ ")"))
  | some view => do
    failIf (view.shape ≠ entry.expectedShape) (.weights ("weights: tensor '" ++ entry.hfName ++
      "' has shape " ++ shapeToString view.shape ++ ", expected " ++
      shapeToString entry.expectedShape ++ " (docs/MODEL_SPEC.md section 8)"))
    failIf (view.dtype ≠ .kBF16 ∧ view.dtype ≠ .kF16) (.weights ("weights: tensor '" ++
      entry.hfName ++ "' has an unsupported dtype; expected BF16 (this checkpoint) or F16 " ++
      "(docs/MODEL_SPEC.md section 8)"))

/-- the elements from index `i` on, converted; FP16 passes through -/
def convertElements (dtype : Dtype) (name : String) : Nat → List UInt16 → LoadCall (List UInt16)
  | _, [] => return []
  | i, bits :: rest => do
    failIf (dtype = .kBF16 ∧ bf16OverflowsFp16 bits) (.overflow name i bits)
    let converted ← convertElements dtype name (i + 1) rest
    return (if dtype = .kBF16 then bf16BitsToFp16BitsRne bits else bits) :: converted

/-- a half in device memory, little-endian -/
def halfBytes (h : UInt16) : List UInt8 := [h.toUInt8, (h >>> 8).toUInt8]

/-- `StagedUploader::Upload`, all chunks of it -/
def upload (dst : Int) (t : SourceTensor) (count : Int) (name : String) : LoadCall Unit := do
  failIf (t.dtype ≠ .kBF16 ∧ t.dtype ≠ .kF16) (.runtime ("convert: tensor '" ++ name ++
    "' has unsupported source dtype (expected BF16 or F16); the checkpoint is expected to be " ++
    "all-BF16 (docs/MODEL_SPEC.md section 8)"))
  let halves ← convertElements t.dtype name 0 ((List.range count.toNat).map t.element)
  emit ⟨dst.toNat, halves.flatMap halfBytes⟩

def uploadEntry (model : SafetensorsModel) (layout : WeightsLayout) (config : LoaderConfig)
    (entry : WeightMapEntry) : LoadCall Unit :=
  match model.tensors entry.hfName with
  | none => raise (.runtime ("safetensors: model: missing tensor: " ++ entry.hfName))
  | some view => do
    let dst ← entryByteOffset layout entry config
    upload dst view entry.numElements entry.hfName

/-- `DeviceWeights::DeviceWeights`; `malloc` is the error text of the slab allocation, if it fails -/
def loadWeights (model : SafetensorsModel) (config : LoaderConfig) (malloc : Option String) :
    LoadCall WeightsLayout := do
  let hasLmHead := model.contains "lm_head.weight"
  failIf (hasLmHead = false ∧ config.tieWordEmbeddings = false)
    (.weights ("weights: tie_word_embeddings is false but the checkpoint has no " ++
      "'lm_head.weight' tensor to load"))
  let layout ← computeWeightsLayout config hasLmHead
  let map ← buildWeightMap config hasLmHead
  each (fun _ entry => validateEntry model entry) 0 map
  failIf (malloc ≠ none) (.weights (malloc.getD ""))
  each (fun _ entry => uploadEntry model layout config entry) 0 map
  return layout

/-! ## what is read back -/

/-- the half at a byte address of the slab -/
def halfAt (slab : Nat → UInt8) (a : Nat) : UInt16 :=
  (slab a).toUInt16 ||| (slab (a + 1)).toUInt16 <<< 8

/-- the conversion of one element -/
def fp16Of (dtype : Dtype) (bits : UInt16) : UInt16 :=
  if dtype = .kBF16 then bf16BitsToFp16BitsRne bits else bits

end Redline
