import Redline.Loader.Layout
import Mathlib.Data.List.Forall2

/-!
# The weights on the device

`weights_exact`: whatever the slab held, after an accepted load every cell of every region holds the
conversion of the element that the fusion of docs/DESIGN.md section 4 names (`sourceRow`), every byte
is written once, each upload stays in its region and reads inside its tensor.
-/

namespace Redline
open Script WeightLayout

/-! ## the fusion -/

/-- the output features of a region -/
def DeviceTensorKind.rows : DeviceTensorKind → Nat
  | .kEmbed | .kLmHead => 151936
  | .kWqkv | .kBqkv => 2048
  | .kWgateup => 17920
  | .kWo | .kWdown | .kInputNorm | .kPostAttnNorm | .kFinalNorm => 1536

def DeviceTensorKind.width : DeviceTensorKind → Nat
  | .kEmbed | .kLmHead | .kWqkv | .kWo | .kWgateup => 1536
  | .kWdown => 8960
  | .kBqkv | .kInputNorm | .kPostAttnNorm | .kFinalNorm => 1

/-- the tensor that a row of a region comes from, and the row in it -/
def sourceRow (hasLmHead : Bool) (layer : Nat) (kind : DeviceTensorKind) (row : Nat) : String × Nat :=
  match kind with
  | .kEmbed => ("model.embed_tokens.weight", row)
  | .kLmHead => (if hasLmHead then "lm_head.weight" else "model.embed_tokens.weight", row)
  | .kFinalNorm => ("model.norm.weight", row)
  | .kInputNorm => (layerTensorName layer ".input_layernorm.weight", row)
  | .kPostAttnNorm => (layerTensorName layer ".post_attention_layernorm.weight", row)
  | .kWqkv =>
    if row < 1536 then (layerTensorName layer ".self_attn.q_proj.weight", row)
    else if row < 1792 then (layerTensorName layer ".self_attn.k_proj.weight", row - 1536)
    else (layerTensorName layer ".self_attn.v_proj.weight", row - 1792)
  | .kBqkv =>
    if row < 1536 then (layerTensorName layer ".self_attn.q_proj.bias", row)
    else if row < 1792 then (layerTensorName layer ".self_attn.k_proj.bias", row - 1536)
    else (layerTensorName layer ".self_attn.v_proj.bias", row - 1792)
  | .kWo => (layerTensorName layer ".self_attn.o_proj.weight", row)
  | .kWgateup =>
    if row < 8960 then (layerTensorName layer ".mlp.gate_proj.weight", row)
    else (layerTensorName layer ".mlp.up_proj.weight", row - 8960)
  | .kWdown => (layerTensorName layer ".mlp.down_proj.weight", row)

/-- the bytes of a region -/
def DeviceTensorKind.region (kind : DeviceTensorKind) (off : Int) : Slab.Span :=
  ⟨off.toNat, 2 * (kind.rows * kind.width)⟩

/-! ## one upload -/

section
variable {model : SafetensorsModel} {config : LoaderConfig} {layout : WeightsLayout}
  {log : List (Slab.Write UInt8)}

theorem UploadOf.span_eq {entry : WeightMapEntry} {t : SourceTensor} {w : Slab.Write UInt8}
    (h : UploadOf model config layout entry t w) : w.span = entry.span config layout := by
  unfold Slab.Write.span WeightMapEntry.span
  rw [h.start, h.data, length_convertedBytes]

/-- the spans of the log are those of the entries -/
theorem spans_of_uploads {entries : List WeightMapEntry}
    (h : List.Forall₂ (fun entry w => ∃ t, UploadOf model config layout entry t w) entries log) :
    log.map Slab.Write.span = entries.map (WeightMapEntry.span config layout) := by
  induction h with
  | nil => rfl
  | cons hw _ ih =>
    obtain ⟨t, ht⟩ := hw
    rw [List.map_cons, List.map_cons, ih, ht.span_eq]

theorem upload_of_entry {entries : List WeightMapEntry} {entry : WeightMapEntry}
    (h : List.Forall₂ (fun entry w => ∃ t, UploadOf model config layout entry t w) entries log)
    (he : entry ∈ entries) : ∃ w ∈ log, ∃ t, UploadOf model config layout entry t w := by
  induction h with
  | nil => cases he
  | cons hw _ ih =>
    rcases List.mem_cons.mp he with rfl | he
    · exact ⟨_, List.mem_cons_self, hw⟩
    · obtain ⟨w, hw, ht⟩ := ih he
      exact ⟨w, List.mem_cons_of_mem _ hw, ht⟩

/-- a converted element in the slab -/
theorem halfAt_written {entry : WeightMapEntry} {t : SourceTensor} {w : Slab.Write UInt8}
    (honce : ∀ a, Slab.coverCount (log.map Slab.Write.span) a ≤ 1) (hw : w ∈ log)
    (h : UploadOf model config layout entry t w) {i : Nat} (hi : i < entry.numElements.toNat)
    (slab : Nat → UInt8) :
    halfAt (Slab.written slab log) ((entry.place config layout).toNat + 2 * i)
      = fp16Of t.dtype (t.element i) := by
  have hcell : ∀ k < 2, w.data[2 * i + k]?
      = some (Slab.written slab log ((entry.place config layout).toNat + 2 * i + k)) := by
    intro k hk
    have hcovers : w.span.covers (w.start + 2 * i + k) := by
      have hlen : w.span.stop = w.start + 2 * entry.numElements.toNat := by
        unfold Slab.Span.stop Slab.Write.span
        rw [h.data, length_convertedBytes]
      refine ⟨by show w.start ≤ _; omega, by omega⟩
    have hpos : 0 < Slab.coverCount (log.map Slab.Write.span) (w.start + 2 * i + k) :=
      List.countP_pos_iff.mpr ⟨w.span, List.mem_map_of_mem hw, decide_eq_true hcovers⟩
    have hone := Slab.written_of_once (le_antisymm (honce _) hpos) hw hcovers slab
    rw [← h.start, ← hone]
    congr 1
    omega
  obtain ⟨hlow, hhigh⟩ := convertedBytes_get (t := t) hi
  have h0 := hcell 0 (by decide)
  have h1 := hcell 1 (by decide)
  rw [h.data, Nat.add_zero, Nat.add_zero] at h0
  rw [h.data] at h1
  unfold halfAt
  rw [← Option.some.inj (hlow.symm.trans h0), ← Option.some.inj (hhigh.symm.trans h1)]
  exact halfBytes_join _

/-! ## the entry of a row -/

/-- the entry that fills a row of a region -/
structure RowEntry (config : LoaderConfig) (hasLmHead : Bool) (kind : DeviceTensorKind)
    (layer row : Nat) (entry : WeightMapEntry) : Prop where
  mem : entry ∈ weightMap config hasLmHead
  name : entry.hfName = (sourceRow hasLmHead layer kind row).1
  start : (weightsLayout config hasLmHead).start entry.dest entry.layer
    = (weightsLayout config hasLmHead).start kind layer
  width : destRowWidth entry.dest config = kind.width
  place : entry.destRowBegin + (sourceRow hasLmHead layer kind row).2 = row
  inside : ((sourceRow hasLmHead layer kind row).2 + 1 : Int) * kind.width ≤ entry.numElements

theorem mem_weightMap_of_layer {config : LoaderConfig} (hd : Design config) {hasLmHead : Bool}
    {layer : Nat} (hl : layer < 28) {entry : WeightMapEntry} (h : entry ∈ layerEntries config layer) :
    entry ∈ weightMap config hasLmHead := by
  have hlayers : config.numLayers.toNat = 28 := by
    rw [hd.layers]
    rfl
  unfold weightMap
  refine List.mem_append_left _ (List.mem_append_left _ (List.mem_cons_of_mem _ ?_))
  rw [hlayers]
  exact List.mem_flatMap.mpr ⟨layer, List.mem_range.mpr hl, h⟩

/-- the entry of a layer that fills a row -/
theorem rowEntry_of_layer (hd : Design config) {hasLmHead : Bool} {kind : DeviceTensorKind}
    {layer row : Nat} (hl : layer < 28) (k : Nat) {entry : WeightMapEntry}
    (hget : (layerEntries config layer)[k]? = some entry)
    (hname : entry.hfName = (sourceRow hasLmHead layer kind row).1) (hkind : entry.dest = kind)
    (hlayer : entry.layer = layer) (hwidth : destRowWidth kind config = kind.width)
    (hplace : entry.destRowBegin + (sourceRow hasLmHead layer kind row).2 = row)
    (hinside : ((sourceRow hasLmHead layer kind row).2 + 1 : Int) * kind.width ≤ entry.numElements) :
    ∃ entry, RowEntry config hasLmHead kind layer row entry :=
  ⟨entry, mem_weightMap_of_layer hd hl (List.mem_of_getElem? hget), hname, by rw [hkind, hlayer],
    by rw [hkind, hwidth], hplace, hinside⟩

/-- the rows of the fused projection: q, then k, then v -/
theorem exists_rowEntry_qkv (hd : Design config) (hasLmHead : Bool) {layer row : Nat}
    (hl : layer < 28) (hr : row < 2048) :
    (∃ entry, RowEntry config hasLmHead .kWqkv layer row entry) ∧
      ∃ entry, RowEntry config hasLmHead .kBqkv layer row entry := by
  have hh := hd.hidden
  have hq := hd.qRows
  have hkv := hd.kvRows
  by_cases h1 : row < 1536
  · have hw : sourceRow hasLmHead layer .kWqkv row
        = (layerTensorName layer ".self_attn.q_proj.weight", row) := if_pos h1
    have hb : sourceRow hasLmHead layer .kBqkv row
        = (layerTensorName layer ".self_attn.q_proj.bias", row) := if_pos h1
    refine ⟨rowEntry_of_layer hd hl 1 rfl ?_ rfl rfl hh ?_ ?_,
      rowEntry_of_layer hd hl 2 rfl ?_ rfl rfl rfl ?_ ?_⟩
    all_goals first | rw [hw] | rw [hb]
    all_goals dsimp only [WeightMapEntry.numElements, DeviceTensorKind.width, List.foldl, kQRowBegin]
    all_goals try simp only [hh, hq]
    all_goals omega
  · by_cases h2 : row < 1792
    · have hw : sourceRow hasLmHead layer .kWqkv row
          = (layerTensorName layer ".self_attn.k_proj.weight", row - 1536) :=
        (if_neg h1).trans (if_pos h2)
      have hb : sourceRow hasLmHead layer .kBqkv row
          = (layerTensorName layer ".self_attn.k_proj.bias", row - 1536) :=
        (if_neg h1).trans (if_pos h2)
      refine ⟨rowEntry_of_layer hd hl 3 rfl ?_ rfl rfl hh ?_ ?_,
        rowEntry_of_layer hd hl 4 rfl ?_ rfl rfl rfl ?_ ?_⟩
      all_goals first | rw [hw] | rw [hb]
      all_goals dsimp only [WeightMapEntry.numElements, DeviceTensorKind.width, List.foldl, kKRowBegin]
      all_goals try simp only [hh, hkv]
      all_goals omega
    · have hw : sourceRow hasLmHead layer .kWqkv row
          = (layerTensorName layer ".self_attn.v_proj.weight", row - 1792) :=
        (if_neg h1).trans (if_neg h2)
      have hb : sourceRow hasLmHead layer .kBqkv row
          = (layerTensorName layer ".self_attn.v_proj.bias", row - 1792) :=
        (if_neg h1).trans (if_neg h2)
      refine ⟨rowEntry_of_layer hd hl 5 rfl ?_ rfl rfl hh ?_ ?_,
        rowEntry_of_layer hd hl 6 rfl ?_ rfl rfl rfl ?_ ?_⟩
      all_goals first | rw [hw] | rw [hb]
      all_goals dsimp only [WeightMapEntry.numElements, DeviceTensorKind.width, List.foldl, kVRowBegin]
      all_goals try simp only [hh, hkv]
      all_goals omega

/-- the rows of the fused MLP: gate, then up -/
theorem exists_rowEntry_gateup (hd : Design config) (hasLmHead : Bool) {layer row : Nat}
    (hl : layer < 28) (hr : row < 17920) :
    ∃ entry, RowEntry config hasLmHead .kWgateup layer row entry := by
  have hh := hd.hidden
  have hi := hd.inter
  by_cases h1 : row < 8960
  · have hs : sourceRow hasLmHead layer .kWgateup row
        = (layerTensorName layer ".mlp.gate_proj.weight", row) := if_pos h1
    refine rowEntry_of_layer hd hl 9 rfl ?_ rfl rfl hh ?_ ?_
    all_goals rw [hs]
    all_goals dsimp only [WeightMapEntry.numElements, DeviceTensorKind.width, List.foldl, kGateRowBegin]
    all_goals try simp only [hh, hi]
    all_goals omega
  · have hs : sourceRow hasLmHead layer .kWgateup row
        = (layerTensorName layer ".mlp.up_proj.weight", row - 8960) := if_neg h1
    refine rowEntry_of_layer hd hl 10 rfl ?_ rfl rfl hh ?_ ?_
    all_goals rw [hs]
    all_goals dsimp only [WeightMapEntry.numElements, DeviceTensorKind.width, List.foldl, kUpRowBegin]
    all_goals try simp only [hh, hi]
    all_goals omega

theorem exists_rowEntry (hd : Design config) (hasLmHead : Bool) (kind : DeviceTensorKind)
    {layer row : Nat} (hl : kind.perLayer → layer < 28) (hr : row < kind.rows) :
    ∃ entry, RowEntry config hasLmHead kind layer row entry := by
  have hh := hd.hidden
  have hi := hd.inter
  have hv := hd.vocab
  have hrow : ∀ n : Nat, row < n → (row + 1 : Int) ≤ n := fun n hn => by omega
  cases kind with
  | kEmbed =>
    refine ⟨_, List.mem_append_left _ (List.mem_append_left _ List.mem_cons_self), rfl, rfl, hh,
      Int.zero_add _, ?_⟩
    have := hrow 151936 hr
    dsimp only [sourceRow, WeightMapEntry.numElements, DeviceTensorKind.width, List.foldl]
    rw [hv, hh]
    omega
  | kFinalNorm =>
    refine ⟨_, List.mem_append_left _ (List.mem_append_right _ List.mem_cons_self), rfl, rfl, rfl,
      Int.zero_add _, ?_⟩
    have := hrow 1536 hr
    dsimp only [sourceRow, WeightMapEntry.numElements, DeviceTensorKind.width, List.foldl]
    rw [hh]
    omega
  | kLmHead =>
    have := hrow 151936 hr
    cases hasLmHead with
    | true =>
      refine ⟨_, List.mem_append_right _ List.mem_cons_self, rfl, rfl, hh, Int.zero_add _, ?_⟩
      dsimp only [sourceRow, WeightMapEntry.numElements, DeviceTensorKind.width, List.foldl]
      rw [hv, hh]
      omega
    | false =>
      -- the head aliases the embedding
      refine ⟨_, List.mem_append_left _ (List.mem_append_left _ List.mem_cons_self), rfl, rfl, hh,
        Int.zero_add _, ?_⟩
      dsimp only [sourceRow, WeightMapEntry.numElements, DeviceTensorKind.width, List.foldl]
      rw [hv, hh]
      omega
  | kWqkv => exact (exists_rowEntry_qkv hd hasLmHead (hl (by decide)) hr).1
  | kBqkv => exact (exists_rowEntry_qkv hd hasLmHead (hl (by decide)) hr).2
  | kWgateup => exact exists_rowEntry_gateup hd hasLmHead (hl (by decide)) hr
  | kWo =>
    have := hrow 1536 hr
    refine rowEntry_of_layer hd (hl (by decide)) 7 rfl rfl rfl rfl hh (Int.zero_add _) ?_
    dsimp only [sourceRow, WeightMapEntry.numElements, DeviceTensorKind.width, List.foldl]
    rw [hh]
    omega
  | kWdown =>
    have := hrow 1536 hr
    refine rowEntry_of_layer hd (hl (by decide)) 11 rfl rfl rfl rfl hi (Int.zero_add _) ?_
    dsimp only [sourceRow, WeightMapEntry.numElements, DeviceTensorKind.width, List.foldl]
    rw [hh, hi]
    omega
  | kInputNorm =>
    have := hrow 1536 hr
    refine rowEntry_of_layer hd (hl (by decide)) 0 rfl rfl rfl rfl rfl (Int.zero_add _) ?_
    dsimp only [sourceRow, WeightMapEntry.numElements, DeviceTensorKind.width, List.foldl]
    rw [hh]
    omega
  | kPostAttnNorm =>
    have := hrow 1536 hr
    refine rowEntry_of_layer hd (hl (by decide)) 8 rfl rfl rfl rfl rfl (Int.zero_add _) ?_
    dsimp only [sourceRow, WeightMapEntry.numElements, DeviceTensorKind.width, List.foldl]
    rw [hh]
    omega

/-! ## the whole load -/

theorem length_layers (hd : Design config) (hasLmHead : Bool) :
    (weightsLayout config hasLmHead).layers.length = 28 := by
  rw [weightsLayout_eq hd, List.length_map, List.length_range]

theorem start_nonneg (hd : Design config) (hasLmHead : Bool) (kind : DeviceTensorKind) {layer : Int}
    (hl : kind.perLayer → 0 ≤ layer ∧ layer < 28) :
    0 ≤ (weightsLayout config hasLmHead).start kind layer := by
  unfold WeightsLayout.start
  cases kind with
  | kEmbed =>
    rw [weightsLayout_eq hd]
  | kFinalNorm =>
    rw [weightsLayout_eq hd]
    exact Int.add_nonneg (Int.natCast_nonneg _) (Int.natCast_nonneg _)
  | kLmHead =>
    rw [weightsLayout_eq hd]
    cases hasLmHead with
    | false => exact le_refl _
    | true =>
      show 0 ≤ (embedBytes : Int) + (layerBytes * 28 : Nat) + normBytes
      omega
  | _ =>
    have hlt : layer.toNat < 28 := by
      have := hl (by decide)
      omega
    have hlayer := layers_getD hd hasLmHead hlt
    simp only [hlayer, layerAt]
    omega

/-- an entry stays in its region -/
theorem entry_inside (hd : Design config) {hasLmHead : Bool} {entry : WeightMapEntry}
    (he : entry ∈ weightMap config hasLmHead) :
    0 ≤ entry.destRowBegin * destRowWidth entry.dest config ∧ 0 ≤ entry.numElements ∧
      entry.destRowBegin * destRowWidth entry.dest config + entry.numElements
        ≤ ((entry.dest.rows * entry.dest.width : Nat) : Int) := by
  have hh := hd.hidden
  have hi := hd.inter
  have hv := hd.vocab
  have hq := hd.qRows
  have hkv := hd.kvRows
  unfold weightMap at he
  rcases List.mem_append.mp he with he | he
  · rcases List.mem_append.mp he with he | he
    · rcases List.mem_cons.mp he with rfl | he
      · dsimp only [WeightMapEntry.numElements, destRowWidth, List.foldl, DeviceTensorKind.rows,
          DeviceTensorKind.width]
        rw [hv, hh]
        omega
      · obtain ⟨l, _, hentry⟩ := List.mem_flatMap.mp he
        unfold layerEntries at hentry
        simp only [List.mem_cons, List.not_mem_nil, or_false] at hentry
        rcases hentry with rfl | rfl | rfl | rfl | rfl | rfl | rfl | rfl | rfl | rfl | rfl | rfl
        all_goals dsimp only [WeightMapEntry.numElements, destRowWidth, List.foldl,
          DeviceTensorKind.rows, DeviceTensorKind.width, kQRowBegin, kKRowBegin, kVRowBegin,
          kGateRowBegin, kUpRowBegin]
        all_goals simp only [hh, hi, hq, hkv]
        all_goals omega
    · obtain rfl := List.mem_singleton.mp he
      dsimp only [WeightMapEntry.numElements, destRowWidth, List.foldl, DeviceTensorKind.rows,
        DeviceTensorKind.width]
      omega
  · cases hasLmHead with
    | false => cases he
    | true =>
      obtain rfl := List.mem_singleton.mp he
      dsimp only [WeightMapEntry.numElements, destRowWidth, List.foldl, DeviceTensorKind.rows,
        DeviceTensorKind.width]
      rw [hv, hh]
      omega

/-- a tensor that is accepted holds every element of its entry -/
theorem Accepts.bytes {entry : WeightMapEntry} {t : SourceTensor} (h : Accepts model entry t) :
    2 * entry.numElements ≤ t.bytes.length := by
  have hsize : ((dtypeSize t.dtype).toNat : Int) = 2 := by
    rcases h.dtype with hd | hd <;> rw [hd] <;> rfl
  have hprod : entry.numElements = entry.expectedShape.prod := by
    unfold WeightMapEntry.numElements
    rw [List.prod_eq_foldl]
  rw [SourceTensor.length_bytes (SafetensorsModel.sound_of_tensors h.present), h.shape, hsize, hprod]
  omega

/-- the element of a cell is one of the entry -/
theorem RowEntry.index_lt {hasLmHead : Bool} {kind : DeviceTensorKind} {layer row : Nat}
    {entry : WeightMapEntry} (h : RowEntry config hasLmHead kind layer row entry) {col : Nat}
    (hc : col < kind.width) :
    (sourceRow hasLmHead layer kind row).2 * kind.width + col < entry.numElements.toNat := by
  have hinside := h.inside
  rw [Int.add_mul, Int.one_mul] at hinside
  omega

/-- the address of a cell is the one of its element in the upload -/
theorem RowEntry.address (hd : Design config) {hasLmHead : Bool} {kind : DeviceTensorKind}
    {layer row : Nat} {entry : WeightMapEntry} (h : RowEntry config hasLmHead kind layer row entry)
    (hstart : 0 ≤ (weightsLayout config hasLmHead).start kind layer) (col : Nat) :
    (entry.place config (weightsLayout config hasLmHead)).toNat
        + 2 * ((sourceRow hasLmHead layer kind row).2 * kind.width + col)
      = ((weightsLayout config hasLmHead).start kind layer).toNat + 2 * (row * kind.width + col) := by
  have hrow : (row * kind.width : Int) = entry.destRowBegin * kind.width
      + (sourceRow hasLmHead layer kind row).2 * kind.width := by
    rw [← h.place, Int.add_mul]
  have hbegin := (entry_inside hd h.mem).1
  rw [h.width] at hbegin
  unfold WeightMapEntry.place
  rw [h.start, h.width]
  omega

/-- what a load leaves -/
structure WeightsExact (model : SafetensorsModel) (config : LoaderConfig) (layout : WeightsLayout)
    (log : List (Slab.Write UInt8)) : Prop where
  /-- each cell of each region, over any garbage -/
  cells : ∀ (slab : Nat → UInt8) (kind : DeviceTensorKind) (layer : Nat),
    (kind.perLayer → (layer : Int) < config.numLayers) → ∀ row < kind.rows, ∀ col < kind.width,
      let source := sourceRow (model.contains "lm_head.weight") layer kind row
      ∃ off t, Returns (layout.offsetFor kind layer) [] off ∧ model.tensors source.1 = some t ∧
        halfAt (Slab.written slab log) (off.toNat + 2 * (row * kind.width + col))
          = fp16Of t.dtype (t.element (source.2 * kind.width + col))
  once : ∀ a : Nat, Slab.coverCount (log.map Slab.Write.span) a
    = if (a : Int) < layout.totalBytes then 1 else 0
  within : List.Forall₂ (fun entry w => ∃ off,
    Returns (layout.offsetFor entry.dest entry.layer) [] off ∧
      Slab.Span.within (Slab.Write.span w) (entry.dest.region off))
    (weightMap config (model.contains "lm_head.weight")) log
  reads : ∀ entry ∈ weightMap config (model.contains "lm_head.weight"), ∃ t,
    model.tensors entry.hfName = some t ∧ 2 * entry.numElements ≤ t.bytes.length

theorem upload_within (hd : Design config) {hasLmHead : Bool} {entry : WeightMapEntry}
    (he : entry ∈ weightMap config hasLmHead) {t : SourceTensor} {w : Slab.Write UInt8}
    (h : UploadOf model config (weightsLayout config hasLmHead) entry t w) :
    ∃ off, Returns ((weightsLayout config hasLmHead).offsetFor entry.dest entry.layer) [] off ∧
      w.span.within (entry.dest.region off) := by
  obtain ⟨hbegin, hcount, hend⟩ := entry_inside hd he
  have hstart : 0 ≤ (weightsLayout config hasLmHead).start entry.dest entry.layer := by
    refine start_nonneg hd hasLmHead entry.dest fun hk => ?_
    have hlayer := h.layer hk
    rw [length_layers hd] at hlayer
    exact hlayer
  refine ⟨_, offsetFor_returns.mpr ⟨rfl, h.layer, rfl⟩, ?_⟩
  rw [h.span_eq]
  unfold Slab.Span.within Slab.Span.stop WeightMapEntry.span WeightMapEntry.place
    DeviceTensorKind.region
  dsimp only
  omega

/-- **A load that is accepted is exact.** -/
theorem weights_exact (model : SafetensorsModel) (config : LoaderConfig) (malloc : Option String)
    (log : List (Slab.Write UInt8)) (layout : WeightsLayout)
    (h : Returns (loadWeights model config malloc) log layout) :
    WeightsExact model config layout log := by
  obtain ⟨hd, _, _, rfl, hchecks, huploads⟩ := loadWeights_returns.mp h
  have hcount : ∀ a, Slab.coverCount (log.map Slab.Write.span) a
      = if (a : Int) < (weightsLayout config (model.contains "lm_head.weight")).totalBytes
        then 1 else 0 := by
    intro a
    rw [spans_of_uploads huploads]
    exact coverCount_entries hd _ a
  refine ⟨fun slab kind layer hl row hr col hc => ?_, hcount, ?_, fun entry he => ?_⟩
  · rw [hd.layers] at hl
    have hl' : kind.perLayer → layer < 28 := fun hk => by
      have := hl hk
      omega
    obtain ⟨entry, hentry⟩ := exists_rowEntry hd (model.contains "lm_head.weight") kind hl' hr
    obtain ⟨w, hw, t, ht⟩ := upload_of_entry huploads hentry.mem
    have hstart : 0 ≤ (weightsLayout config (model.contains "lm_head.weight")).start kind layer :=
      start_nonneg hd _ kind fun hk => ⟨Int.natCast_nonneg _, hl hk⟩
    refine ⟨_, t, offsetFor_returns.mpr ⟨rfl, fun hk => ?_, rfl⟩, hentry.name ▸ ht.present, ?_⟩
    · rw [length_layers hd]
      exact ⟨Int.natCast_nonneg _, hl hk⟩
    · rw [← hentry.address hd hstart col]
      exact halfAt_written (fun a => by rw [hcount]; split <;> omega) hw ht (hentry.index_lt hc) slab
  · refine ((List.forall₂_and_left _ _).mpr ⟨fun _ he => he, huploads⟩).imp ?_
    rintro entry w ⟨he, t, ht⟩
    exact upload_within hd he ht
  · obtain ⟨t, ht⟩ := hchecks entry he
    exact ⟨t, ht.present, ht.bytes⟩

/-! ## which checkpoints load -/

theorem layer_of_mem (hd : Design config) {hasLmHead : Bool} {entry : WeightMapEntry}
    (he : entry ∈ weightMap config hasLmHead) (hk : entry.dest.perLayer) :
    0 ≤ entry.layer ∧ entry.layer < 28 := by
  unfold weightMap at he
  have hlayers := hd.layers
  rcases List.mem_append.mp he with he | he
  · rcases List.mem_append.mp he with he | he
    · rcases List.mem_cons.mp he with rfl | he
      · exact absurd rfl hk.1
      · obtain ⟨l, hl, hentry⟩ := List.mem_flatMap.mp he
        have hlt := List.mem_range.mp hl
        have hlayer : entry.layer = l := by
          unfold layerEntries at hentry
          simp only [List.mem_cons, List.not_mem_nil, or_false] at hentry
          rcases hentry with rfl | rfl | rfl | rfl | rfl | rfl | rfl | rfl | rfl | rfl | rfl | rfl
          all_goals rfl
        omega
    · obtain rfl := List.mem_singleton.mp he
      exact absurd rfl hk.2.2
  · cases hasLmHead with
    | false => cases he
    | true =>
      obtain rfl := List.mem_singleton.mp he
      exact absurd rfl hk.2.1

/-- **A complete checkpoint loads**: every mapped tensor there, in its shape and convertible. -/
theorem loadWeights_of_complete (hd : Design config)
    (htie : model.contains "lm_head.weight" = false → config.tieWordEmbeddings = true)
    (h : ∀ entry ∈ weightMap config (model.contains "lm_head.weight"), ∃ t, Accepts model entry t ∧
      ∀ i < entry.numElements.toNat, Converts t.dtype (t.element i)) :
    ∃ log, Returns (loadWeights model config none) log
      (weightsLayout config (model.contains "lm_head.weight")) := by
  have hlog : ∀ entries : List WeightMapEntry,
      (∀ entry ∈ entries, entry ∈ weightMap config (model.contains "lm_head.weight")) →
      ∃ log, List.Forall₂ (fun entry w => ∃ t, UploadOf model config
        (weightsLayout config (model.contains "lm_head.weight")) entry t w) entries log := by
    intro entries
    induction entries with
    | nil => exact fun _ => ⟨[], .nil⟩
    | cons entry entries ih =>
      intro hmem
      have he := hmem entry List.mem_cons_self
      obtain ⟨log, hlog⟩ := ih fun e he' => hmem e (List.mem_cons_of_mem _ he')
      obtain ⟨t, ht, hconv⟩ := h entry he
      refine ⟨⟨_, convertedBytes t entry.numElements.toNat⟩ :: log,
        .cons ⟨t, ht.present, ht.dtype, hconv, fun hk => ?_, rfl, rfl⟩ hlog⟩
      rw [length_layers hd]
      exact layer_of_mem hd he hk
  obtain ⟨log, huploads⟩ := hlog _ fun _ he => he
  refine ⟨log, loadWeights_returns.mpr ⟨hd, htie, rfl, rfl, fun entry he => ?_, huploads⟩⟩
  obtain ⟨t, ht, _⟩ := h entry he
  exact ⟨t, ht⟩

end

/-! ## a checkpoint of zeros -/

/-- enough of a name to tell its shape -/
def nameEnd (name : String) : List Char := (name.toList.reverse.take 13).reverse

/-- the shapes of the checkpoint, by the ends of the names -/
def zeroShapes : List (List Char × List Nat) :=
  [ ("tokens.weight".toList, [151936, 1536]), ("el.norm.weight".toList.drop 1, [1536]),
    ("ernorm.weight".toList, [1536]), ("q_proj.weight".toList, [1536, 1536]),
    ("n.q_proj.bias".toList, [1536]), ("k_proj.weight".toList, [256, 1536]),
    ("n.k_proj.bias".toList, [256]), ("v_proj.weight".toList, [256, 1536]),
    ("n.v_proj.bias".toList, [256]), ("o_proj.weight".toList, [1536, 1536]),
    ("e_proj.weight".toList, [8960, 1536]), ("p_proj.weight".toList, [8960, 1536]),
    ("n_proj.weight".toList, [1536, 8960]) ]

/-- the dimensions of a tensor of the checkpoint -/
def zeroDims (name : String) : List Nat := (zeroShapes.lookup (nameEnd name)).getD []

def zeroView (dims : List Nat) : TensorView where
  dtype := .kF16
  shape := dims.map Int64.ofNat
  data := 8
  nbytes := UInt64.ofNat (dims.prod * 2)

/-- the geometry of Qwen2.5-1.5B-Instruct -/
def designConfig : LoaderConfig where
  hiddenSize := 1536
  numLayers := 28
  numQHeads := 12
  numKvHeads := 2
  headDim := 128
  intermediateSize := 8960
  vocabSize := 151936
  eosTokenIds := [151645, 151643]
  qkvBias := true
  tieWordEmbeddings := true

theorem designConfig_design : Design designConfig := ⟨rfl, rfl, rfl, rfl, rfl, rfl, rfl⟩

theorem nameEnd_append (pre suffix : String) (h : 13 ≤ suffix.toList.length) :
    nameEnd (pre ++ suffix) = nameEnd suffix := by
  unfold nameEnd
  rw [String.toList_append, List.reverse_append, List.take_append_of_le_length]
  rwa [List.length_reverse]

/-- every entry of the map has its shape from its name -/
theorem zero_lookup {entry : WeightMapEntry} (he : entry ∈ weightMap designConfig false) :
    ∃ dims, zeroShapes.lookup (nameEnd entry.hfName) = some dims ∧
      entry.expectedShape = dims.map fun d : Nat => (d : Int) := by
  have hfound : ∀ (pre suffix : String) (dims : List Nat) (kind : DeviceTensorKind) (layer begin : Int),
      13 ≤ suffix.toList.length → zeroShapes.lookup (nameEnd suffix) = some dims →
      let entry : WeightMapEntry :=
        ⟨pre ++ suffix, kind, layer, begin, dims.map fun d : Nat => (d : Int)⟩
      ∃ dims, zeroShapes.lookup (nameEnd entry.hfName) = some dims ∧
        entry.expectedShape = dims.map fun d : Nat => (d : Int) := by
    intro pre suffix dims kind layer begin hlen hlookup
    refine ⟨dims, ?_, rfl⟩
    show zeroShapes.lookup (nameEnd (pre ++ suffix)) = _
    rw [nameEnd_append pre suffix hlen]
    exact hlookup
  unfold weightMap at he
  rcases List.mem_append.mp he with he | he
  · rcases List.mem_append.mp he with he | he
    · rcases List.mem_cons.mp he with rfl | he
      · exact ⟨[151936, 1536], by decide, rfl⟩
      · obtain ⟨l, _, hentry⟩ := List.mem_flatMap.mp he
        unfold layerEntries layerTensorName at hentry
        simp only [List.mem_cons, List.not_mem_nil, or_false] at hentry
        rcases hentry with rfl | rfl | rfl | rfl | rfl | rfl | rfl | rfl | rfl | rfl | rfl | rfl
        · exact hfound _ _ [1536] _ _ _ (by decide) (by decide)
        · exact hfound _ _ [1536, 1536] _ _ _ (by decide) (by decide)
        · exact hfound _ _ [1536] _ _ _ (by decide) (by decide)
        · exact hfound _ _ [256, 1536] _ _ _ (by decide) (by decide)
        · exact hfound _ _ [256] _ _ _ (by decide) (by decide)
        · exact hfound _ _ [256, 1536] _ _ _ (by decide) (by decide)
        · exact hfound _ _ [256] _ _ _ (by decide) (by decide)
        · exact hfound _ _ [1536, 1536] _ _ _ (by decide) (by decide)
        · exact hfound _ _ [1536] _ _ _ (by decide) (by decide)
        · exact hfound _ _ [8960, 1536] _ _ _ (by decide) (by decide)
        · exact hfound _ _ [8960, 1536] _ _ _ (by decide) (by decide)
        · exact hfound _ _ [1536, 8960] _ _ _ (by decide) (by decide)
    · obtain rfl := List.mem_singleton.mp he
      exact ⟨[1536], by decide, rfl⟩
  · cases he

/-- the shapes are small enough for a view from byte 8 on -/
theorem zeroShapes_small : ∀ p ∈ zeroShapes, p.2.prod * 2 ≤ 466747392 ∧ ∀ d ∈ p.2, d < 2 ^ 63 := by
  decide

theorem zeroDims_small {entry : WeightMapEntry} (he : entry ∈ weightMap designConfig false) :
    (zeroDims entry.hfName).prod * 2 ≤ 466747392 ∧ (∀ d ∈ zeroDims entry.hfName, d < 2 ^ 63) ∧
      entry.expectedShape = (zeroDims entry.hfName).map fun d : Nat => (d : Int) := by
  obtain ⟨dims, hlookup, hshape⟩ := zero_lookup he
  have hdims : zeroDims entry.hfName = dims := by
    unfold zeroDims
    rw [hlookup]
    rfl
  rw [hdims]
  obtain ⟨l₁, l₂, hsplit, _⟩ := List.lookup_eq_some_iff.mp hlookup
  have hmem : (nameEnd entry.hfName, dims) ∈ zeroShapes :=
    hsplit ▸ List.mem_append_right _ List.mem_cons_self
  obtain ⟨hprod, hlt⟩ := zeroShapes_small _ hmem
  exact ⟨hprod, hlt, hshape⟩

/-- a header of no bytes, and zeros; all tensors share them -/
def zeroFile : SafetensorsFile where
  path := "model.safetensors"
  file := ⟨List.replicate 466747400 0, by rw [List.length_replicate]; decide⟩
  tensors :=
    (weightMap designConfig false).map fun entry => (entry.hfName, zeroView (zeroDims entry.hfName))

theorem zeroFile_headerSize : zeroFile.file.headerSize = 0 := by
  unfold MappedFile.headerSize readLeU64 zeroFile
  rw [List.take_replicate]
  rfl

theorem zeroView_shape {dims : List Nat} (h : ∀ d ∈ dims, d < 2 ^ 63) :
    (zeroView dims).shape.map Int64.toInt = dims.map fun d : Nat => (d : Int) := by
  unfold zeroView
  rw [List.map_map]
  exact List.map_congr_left fun d hd => Int64.toInt_ofNat_of_lt (h d hd)

theorem zeroFile_sound : ∀ v ∈ zeroFile.tensors, SoundView zeroFile.file v.2 := by
  intro v hv
  obtain ⟨entry, he, rfl⟩ := List.mem_map.mp hv
  obtain ⟨hprod, hlt, _⟩ := zeroDims_small he
  have hbytes : (zeroView (zeroDims entry.hfName)).nbytes.toNat = (zeroDims entry.hfName).prod * 2 := by
    unfold zeroView
    exact UInt64.toNat_ofNat_of_lt' (show (zeroDims entry.hfName).prod * 2 < 2 ^ 64 by omega)
  refine ⟨?_, ?_, ?_, ?_, nofun⟩
  · rw [zeroFile_headerSize]
    exact le_refl 8
  · show 8 + (zeroView (zeroDims entry.hfName)).nbytes.toNat
      ≤ (List.replicate 466747400 (0 : UInt8)).length
    rw [hbytes, List.length_replicate]
    omega
  · dsimp only
    rw [hbytes, zeroView_shape hlt, Nat.cast_mul, Nat.cast_list_prod]
    rfl
  · intro d hd
    obtain ⟨n, hn, rfl⟩ := List.mem_map.mp hd
    rw [Int64.toInt_ofNat_of_lt (hlt n hn)]
    exact Int.natCast_nonneg n

def zeroCheckpoint : SafetensorsModel := .single zeroFile zeroFile_sound

/-- what is found under a name is the view of the name -/
theorem zero_found {name : String} {p : String × ShardView}
    (h : (zeroCheckpoint.merged.find? fun p => p.1 = name) = some p) :
    p.2 = ⟨0, zeroView (zeroDims name)⟩ ∧ ∃ entry ∈ weightMap designConfig false,
      entry.hfName = name := by
  have hname : p.1 = name := by simpa using List.find?_some h
  obtain ⟨v, hv, rfl⟩ := List.mem_map.mp (List.mem_of_find?_eq_some h)
  obtain ⟨entry, he, rfl⟩ := List.mem_map.mp hv
  have hname : entry.hfName = name := hname
  exact ⟨hname ▸ rfl, entry, he, hname⟩

/-- every entry of the map finds its zeros -/
theorem zero_complete {entry : WeightMapEntry} (he : entry ∈ weightMap designConfig false) :
    ∃ t, Accepts zeroCheckpoint entry t ∧ t.dtype = .kF16 := by
  obtain ⟨_, hlt, hshape⟩ := zeroDims_small he
  refine ⟨⟨zeroFile.file, zeroView (zeroDims entry.hfName)⟩,
    ⟨?_, (zeroView_shape hlt).trans hshape.symm, .inr rfl⟩, rfl⟩
  unfold SafetensorsModel.tensors ShardedModel.tensor
  cases hfind : zeroCheckpoint.merged.find? fun p => p.1 = entry.hfName with
  | none =>
    have hmem : (entry.hfName, zeroView (zeroDims entry.hfName)) ∈ zeroFile.tensors :=
      List.mem_map_of_mem he
    have hmiss := List.find?_eq_none.mp hfind _ (List.mem_map_of_mem hmem)
    exact absurd (decide_eq_true rfl) hmiss
  | some p =>
    dsimp only
    rw [(zero_found hfind).1]
    rfl

theorem zeroCheckpoint_loads : ∃ log, Returns (loadWeights zeroCheckpoint designConfig none) log
    (weightsLayout designConfig false) := by
  have hhead : zeroCheckpoint.contains "lm_head.weight" = false := by
    unfold SafetensorsModel.contains
    cases hfind : zeroCheckpoint.merged.find? fun p => p.1 = "lm_head.weight" with
    | none => rfl
    | some p =>
      obtain ⟨_, entry, he, hname⟩ := zero_found hfind
      obtain ⟨dims, hlookup, _⟩ := zero_lookup he
      have hnone : zeroShapes.lookup (nameEnd "lm_head.weight") = none := by decide
      rw [hname, hnone] at hlookup
      cases hlookup
  have hload := @loadWeights_of_complete zeroCheckpoint designConfig designConfig_design
    (fun _ => rfl)
  rw [hhead] at hload
  refine hload fun entry he => ?_
  obtain ⟨t, ht, hd⟩ := zero_complete he
  refine ⟨t, ht, fun i _ h => ?_⟩
  rw [hd] at h
  cases h.1

theorem weights_exact_zero : ∃ log layout,
    Returns (loadWeights zeroCheckpoint designConfig none) log layout ∧
      WeightsExact zeroCheckpoint designConfig layout log := by
  obtain ⟨log, hlog⟩ := zeroCheckpoint_loads
  exact ⟨log, _, hlog, weights_exact _ _ _ _ _ hlog⟩

end Redline
