import Redline.Loader.Weights

/-!
# The uploads of an accepted load

`loadWeights_returns`: a load returns when the geometry is the one of the design and every entry of
the map gets past its checks; its log is then one write for each entry, in the order of the map, of
the converted elements at the place of the entry (`UploadOf`).
-/

namespace Redline
open Script WeightLayout

/-! ## the checks -/

/-- the one geometry that the fused layout is for -/
structure Design (config : LoaderConfig) : Prop where
  hidden : config.hiddenSize = 1536
  layers : config.numLayers = 28
  vocab : config.vocabSize = 151936
  inter : config.intermediateSize = 8960
  qRows : config.numQHeads * config.headDim = 1536
  kvRows : config.numKvHeads * config.headDim = 256
  bias : config.qkvBias = true

theorem requireDesignGeometry_returns {config : LoaderConfig} {l : List (Slab.Write UInt8)} {u : Unit} :
    Returns (requireDesignGeometry config) l u ↔ l = [] ∧ Design config := by
  unfold requireDesignGeometry checkGeometry
  simp only [returns_failIf_bind, returns_failIf_iff, ne_eq, not_not, Bool.not_eq_false]
  constructor
  · rintro ⟨hidden, layers, vocab, inter, qRows, kvRows, hl, bias⟩
    exact ⟨hl, ⟨hidden, layers, vocab, inter, qRows, kvRows, bias⟩⟩
  · rintro ⟨hl, h⟩
    exact ⟨h.hidden, h.layers, h.vocab, h.inter, h.qRows, h.kvRows, hl, h.bias⟩

/-- a check of the geometry in front of a pure result -/
theorem returns_geometry {α : Type} {config : LoaderConfig} {a b : α} {l : List (Slab.Write UInt8)} :
    Returns (requireDesignGeometry config >>= fun _ => (pure a : LoadCall α)) l b
      ↔ l = [] ∧ Design config ∧ a = b := by
  rw [returns_bind_iff]
  constructor
  · rintro ⟨l1, l2, _, rfl, hx, hf⟩
    obtain ⟨rfl, hd⟩ := requireDesignGeometry_returns.mp hx
    obtain ⟨rfl, hab⟩ := returns_pure_iff.mp hf
    exact ⟨rfl, hd, hab⟩
  · rintro ⟨rfl, hd, rfl⟩
    exact ⟨[], [], (), rfl, requireDesignGeometry_returns.mpr ⟨rfl, hd⟩, returns_pure a⟩

/-- the tensor of an entry that got past its checks -/
structure Accepts (model : SafetensorsModel) (entry : WeightMapEntry) (t : SourceTensor) : Prop where
  present : model.tensors entry.hfName = some t
  shape : t.shape = entry.expectedShape
  dtype : t.dtype = .kBF16 ∨ t.dtype = .kF16

theorem validateEntry_returns {model : SafetensorsModel} {entry : WeightMapEntry}
    {l : List (Slab.Write UInt8)} {u : Unit} : Returns (validateEntry model entry) l u
      ↔ l = [] ∧ ∃ t, Accepts model entry t := by
  unfold validateEntry
  cases ht : model.tensors entry.hfName with
  | none =>
    refine ⟨fun h => (by cases h), fun ⟨_, t, h⟩ => ?_⟩
    rw [h.present] at ht
    cases ht
  | some view =>
    dsimp only
    rw [returns_failIf_bind, returns_failIf_iff]
    constructor
    · rintro ⟨hshape, hl, hdtype⟩
      refine ⟨hl, view, ht, not_not.mp hshape, ?_⟩
      by_contra hno
      exact hdtype (not_or.mp hno)
    · rintro ⟨hl, t, h⟩
      obtain rfl : view = t := Option.some.inj (ht.symm.trans h.present)
      refine ⟨not_not.mpr h.shape, hl, ?_⟩
      rcases h.dtype with hd | hd <;> simp [hd]

/-! ## the uploads -/

/-- what the conversion lets through -/
def Converts (dtype : Dtype) (bits : UInt16) : Prop :=
  ¬ (dtype = .kBF16 ∧ bf16OverflowsFp16 bits)

theorem convertElements_returns {dtype : Dtype} {name : String} : ∀ (bits : List UInt16) (i : Nat)
    (l : List (Slab.Write UInt8)) (halves : List UInt16),
    Returns (convertElements dtype name i bits) l halves
      ↔ l = [] ∧ (∀ b ∈ bits, Converts dtype b) ∧ halves = bits.map (fp16Of dtype) := by
  intro bits
  induction bits with
  | nil =>
    intro i l halves
    unfold convertElements
    rw [returns_pure_iff]
    exact ⟨fun ⟨hl, h⟩ => ⟨hl, nofun, h.symm⟩, fun ⟨hl, _, h⟩ => ⟨hl, h.symm⟩⟩
  | cons b bits ih =>
    intro i l halves
    unfold convertElements
    rw [returns_failIf_bind, returns_bind_iff, List.forall_mem_cons]
    constructor
    · rintro ⟨hb, l1, l2, rest, rfl, hrest, hf⟩
      obtain ⟨rfl, hall, rfl⟩ := (ih (i + 1) l1 rest).mp hrest
      obtain ⟨rfl, rfl⟩ := returns_pure_iff.mp hf
      exact ⟨rfl, ⟨hb, hall⟩, rfl⟩
    · rintro ⟨rfl, ⟨hb, hall⟩, rfl⟩
      exact ⟨hb, [], [], _, rfl, (ih (i + 1) [] _).mpr ⟨rfl, hall, rfl⟩, returns_pure _⟩

/-- the bytes of the first elements of a tensor, converted -/
def convertedBytes (t : SourceTensor) (count : Nat) : List UInt8 :=
  ((List.range count).map fun i => fp16Of t.dtype (t.element i)).flatMap halfBytes

theorem upload_returns {dst : Int} {t : SourceTensor} {count : Int} {name : String}
    {l : List (Slab.Write UInt8)} {u : Unit} : Returns (upload dst t count name) l u ↔
      l = [⟨dst.toNat, convertedBytes t count.toNat⟩] ∧ (t.dtype = .kBF16 ∨ t.dtype = .kF16) ∧
        ∀ i < count.toNat, Converts t.dtype (t.element i) := by
  unfold upload
  rw [returns_failIf_bind, returns_bind_iff]
  constructor
  · rintro ⟨hd, l1, l2, halves, rfl, hconv, hemit⟩
    obtain ⟨rfl, hall, rfl⟩ := (convertElements_returns _ 0 l1 halves).mp hconv
    obtain rfl := returns_emit_iff.mp hemit
    refine ⟨?_, ?_, fun i hi => hall _ (List.mem_map_of_mem (List.mem_range.mpr hi))⟩
    · unfold convertedBytes
      rw [List.map_map]
      rfl
    · by_contra hno
      exact hd (not_or.mp hno)
  · rintro ⟨rfl, hd, hall⟩
    refine ⟨?_, [], _, _, rfl, (convertElements_returns _ 0 [] _).mpr ⟨rfl, ?_, rfl⟩, ?_⟩
    · rcases hd with hd | hd <;> simp [hd]
    · intro b hb
      obtain ⟨i, hi, rfl⟩ := List.mem_map.mp hb
      exact hall i (List.mem_range.mp hi)
    · rw [List.map_map]
      exact returns_emit _

theorem length_convertedBytes (t : SourceTensor) (count : Nat) :
    (convertedBytes t count).length = 2 * count := by
  unfold convertedBytes
  induction count with
  | zero => rfl
  | succ n ih =>
    rw [List.range_succ, List.map_append, List.flatMap_append, List.length_append, ih]
    show 2 * n + 2 = _
    omega

/-- the two bytes of a converted element -/
theorem convertedBytes_get {t : SourceTensor} {count i : Nat} (hi : i < count) :
    (convertedBytes t count)[2 * i]? = some (fp16Of t.dtype (t.element i)).toUInt8 ∧
      (convertedBytes t count)[2 * i + 1]? = some (fp16Of t.dtype (t.element i) >>> 8).toUInt8 := by
  induction count with
  | zero => omega
  | succ n ih =>
    have hsplit : convertedBytes t (n + 1)
        = convertedBytes t n ++ halfBytes (fp16Of t.dtype (t.element n)) := by
      unfold convertedBytes
      rw [List.range_succ, List.map_append, List.flatMap_append]
      rfl
    have hlen := length_convertedBytes t n
    rw [hsplit]
    rcases Nat.lt_or_eq_of_le (Nat.le_of_lt_succ hi) with h | rfl
    · rw [List.getElem?_append_left (by omega), List.getElem?_append_left (by omega)]
      exact ih h
    · rw [List.getElem?_append_right (by omega), List.getElem?_append_right (by omega), hlen,
        Nat.sub_self, Nat.add_sub_cancel_left]
      exact ⟨rfl, rfl⟩

theorem halfBytes_join (h : UInt16) : h.toUInt8.toUInt16 ||| (h >>> 8).toUInt8.toUInt16 <<< 8 = h := by
  apply UInt16.eq_of_toBitVec_eq
  ext i hi
  simp only [UInt16.toBitVec_or, UInt8.toBitVec_toUInt16, UInt16.toBitVec_toUInt8,
    UInt16.toBitVec_shiftLeft, UInt16.toBitVec_shiftRight, BitVec.getElem_or,
    BitVec.getElem_setWidth, BitVec.getLsbD_setWidth]
  by_cases h8 : i < 8
  · simp [h8, BitVec.getLsbD_eq_getElem hi]
  · have hlt : i - 8 < 8 := by omega
    have hadd : 8 + (i - 8) = i := by omega
    simp [h8, hlt, hadd, hi]

section
variable {model : SafetensorsModel} {config : LoaderConfig} {layout : WeightsLayout}

/-- the start of a region -/
def WeightsLayout.start (layout : WeightsLayout) (kind : DeviceTensorKind) (layer : Int) : Int :=
  let offsets := layout.layers.getD layer.toNat default
  match kind with
  | .kEmbed => layout.embed
  | .kWqkv => offsets.wQkv
  | .kBqkv => offsets.bQkv
  | .kWo => offsets.wO
  | .kWgateup => offsets.wGateup
  | .kWdown => offsets.wDown
  | .kInputNorm => offsets.inputNorm
  | .kPostAttnNorm => offsets.postAttnNorm
  | .kFinalNorm => layout.finalNorm
  | .kLmHead => layout.lmHead

/-- the regions that every layer has -/
def DeviceTensorKind.perLayer (kind : DeviceTensorKind) : Prop :=
  kind ≠ .kEmbed ∧ kind ≠ .kLmHead ∧ kind ≠ .kFinalNorm

instance (kind : DeviceTensorKind) : Decidable kind.perLayer :=
  inferInstanceAs (Decidable (kind ≠ .kEmbed ∧ kind ≠ .kLmHead ∧ kind ≠ .kFinalNorm))

theorem offsetFor_returns {kind : DeviceTensorKind} {layer : Int} {l : List (Slab.Write UInt8)}
    {off : Int} : Returns (layout.offsetFor kind layer) l off ↔
      l = [] ∧ (kind.perLayer → 0 ≤ layer ∧ layer < layout.layers.length) ∧
        layout.start kind layer = off := by
  unfold WeightsLayout.offsetFor WeightsLayout.start DeviceTensorKind.perLayer
  cases kind <;> simp [returns_assert_bind, returns_pure_iff, and_left_comm]

/-- where an entry goes -/
def WeightMapEntry.place (entry : WeightMapEntry) (config : LoaderConfig)
    (layout : WeightsLayout) : Int :=
  layout.start entry.dest entry.layer + entry.destRowBegin * destRowWidth entry.dest config * 2

theorem entryByteOffset_returns {entry : WeightMapEntry} {l : List (Slab.Write UInt8)} {off : Int} :
    Returns (entryByteOffset layout entry config) l off ↔ l = [] ∧
      (entry.dest.perLayer → 0 ≤ entry.layer ∧ entry.layer < layout.layers.length) ∧
        entry.place config layout = off := by
  unfold entryByteOffset
  simp only [returns_bind_iff, offsetFor_returns, returns_pure_iff]
  constructor
  · rintro ⟨_, _, _, rfl, ⟨rfl, hlayer, rfl⟩, rfl, rfl⟩
    exact ⟨rfl, hlayer, rfl⟩
  · rintro ⟨rfl, hlayer, rfl⟩
    exact ⟨[], [], _, rfl, ⟨rfl, hlayer, rfl⟩, rfl, rfl⟩

/-- the upload of an entry -/
structure UploadOf (model : SafetensorsModel) (config : LoaderConfig) (layout : WeightsLayout)
    (entry : WeightMapEntry) (t : SourceTensor) (w : Slab.Write UInt8) : Prop where
  present : model.tensors entry.hfName = some t
  dtype : t.dtype = .kBF16 ∨ t.dtype = .kF16
  converts : ∀ i < entry.numElements.toNat, Converts t.dtype (t.element i)
  layer : entry.dest.perLayer → 0 ≤ entry.layer ∧ entry.layer < layout.layers.length
  start : w.start = (entry.place config layout).toNat
  data : w.data = convertedBytes t entry.numElements.toNat

theorem uploadEntry_returns {entry : WeightMapEntry} {l : List (Slab.Write UInt8)} {u : Unit} :
    Returns (uploadEntry model layout config entry) l u
      ↔ ∃ w, l = [w] ∧ ∃ t, UploadOf model config layout entry t w := by
  unfold uploadEntry
  cases ht : model.tensors entry.hfName with
  | none =>
    refine ⟨fun h => (by cases h), fun ⟨w, _, t, h⟩ => ?_⟩
    rw [h.present] at ht
    cases ht
  | some view =>
    dsimp only
    rw [returns_bind_iff]
    constructor
    · rintro ⟨l1, l2, dst, rfl, hoff, hup⟩
      obtain ⟨rfl, hlayer, rfl⟩ := entryByteOffset_returns.mp hoff
      obtain ⟨rfl, hd, hall⟩ := upload_returns.mp hup
      exact ⟨_, rfl, view, ht, hd, hall, hlayer, rfl, rfl⟩
    · rintro ⟨w, rfl, t, h⟩
      obtain rfl : view = t := Option.some.inj (ht.symm.trans h.present)
      refine ⟨[], _, _, rfl, entryByteOffset_returns.mpr ⟨rfl, h.layer, rfl⟩,
        upload_returns.mpr ⟨?_, h.dtype, h.converts⟩⟩
      rw [← h.start, ← h.data]

/-- **The accepted loads**: what they have checked, and their uploads in the order of the map. -/
theorem loadWeights_returns {malloc : Option String} {log : List (Slab.Write UInt8)} :
    Returns (loadWeights model config malloc) log layout ↔
      Design config ∧ (model.contains "lm_head.weight" = false → config.tieWordEmbeddings = true) ∧
        malloc = none ∧ layout = weightsLayout config (model.contains "lm_head.weight") ∧
        (∀ entry ∈ weightMap config (model.contains "lm_head.weight"),
          ∃ t, Accepts model entry t) ∧
        List.Forall₂ (fun entry w => ∃ t, UploadOf model config layout entry t w)
          (weightMap config (model.contains "lm_head.weight")) log := by
  unfold loadWeights computeWeightsLayout buildWeightMap
  simp only [returns_failIf_bind]
  rw [returns_bind_iff]
  constructor
  · rintro ⟨htie, l1, l2, layout', rfl, hlayout, hload⟩
    obtain ⟨rfl, hd, rfl⟩ := returns_geometry.mp hlayout
    obtain ⟨l3, l4, map, rfl, hmap, hentries⟩ := returns_bind_iff.mp hload
    obtain ⟨rfl, _, rfl⟩ := returns_geometry.mp hmap
    obtain ⟨l5, l6, _, rfl, hchecks, hslab⟩ := returns_bind_iff.mp hentries
    obtain ⟨rfl, hall⟩ := (returns_each_checks (fun _ _ _ => validateEntry_returns) _ 0 l5 _).mp hchecks
    obtain ⟨hmalloc, hbytes⟩ := returns_failIf_bind.mp hslab
    obtain ⟨l7, l8, _, rfl, huploads, hend⟩ := returns_bind_iff.mp hbytes
    obtain ⟨rfl, rfl⟩ := returns_pure_iff.mp hend
    refine ⟨hd, fun hno => ?_, not_not.mp hmalloc, rfl, hall, ?_⟩
    · by_contra hfalse
      exact htie ⟨hno, Bool.not_eq_true _ ▸ hfalse⟩
    · simp only [List.nil_append, List.append_nil]
      exact (returns_each_emits (fun _ _ _ => uploadEntry_returns) _ 0 l7 _).mp huploads
  · rintro ⟨hd, htie, rfl, rfl, hall, huploads⟩
    refine ⟨fun ⟨hno, hfalse⟩ => ?_, [], log, _, rfl, returns_geometry.mpr ⟨rfl, hd, rfl⟩, ?_⟩
    · rw [htie hno] at hfalse
      cases hfalse
    · refine (returns_geometry.mpr ⟨rfl, hd, rfl⟩).then ?_
      refine Returns.then (a := ()) ((returns_each_checks (fun _ _ _ => validateEntry_returns)
        _ 0 [] ()).mpr ⟨rfl, hall⟩) ?_
      refine returns_failIf_bind.mpr ⟨not_not.mpr rfl, ?_⟩
      rw [← List.append_nil log]
      exact Returns.bind (a := ()) ((returns_each_emits (fun _ _ _ => uploadEntry_returns)
        _ 0 log ()).mpr huploads) (returns_pure _)

end
end Redline
