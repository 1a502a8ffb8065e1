import Redline.Loader.Upload
import Mathlib.Tactic.Ring

/-!
# The layout of the design

With the geometry of the design every region is a multiple of 256 bytes, so the regions lie end to
end: the embedding, 28 layers of `layerBytes` each, the final norm and, if the checkpoint has one,
its own head (`weightsLayout_eq`).

`coverCount_entries`: the destinations of the entries cover every byte of the slab once.
-/

namespace Redline
open Script WeightLayout

def embedBytes : Nat := 466747392

def layerBytes : Nat := 93595648

def normBytes : Nat := 3072

/-- the regions of a layer that starts at `base` -/
def layerAt (base : Int) : LayerOffsets where
  wQkv := base
  bQkv := base + 6291456
  wO := base + 6295552
  wGateup := base + 11014144
  wDown := base + 66064384
  inputNorm := base + 93589504
  postAttnNorm := base + 93592576

/-- no padding between multiples of 256 -/
theorem placeAfter_eq {start bytes : Int} (hs : 0 ≤ start) (hs' : 256 ∣ start) (hb : 0 ≤ bytes)
    (hb' : 256 ∣ bytes) : placeAfter start bytes = start + bytes := by
  unfold placeAfter
  rw [Int.tdiv_eq_ediv_of_nonneg (by omega)]
  omega

section
variable {config : LoaderConfig}

theorem placeLayer_eq (hd : Design config) {base : Int} (hs : 0 ≤ base) (hs' : 256 ∣ base) :
    placeLayer config base = (layerAt base, base + layerBytes) := by
  unfold placeLayer layerAt layerBytes kQkvRows kGateUpRows
  simp only [hd.hidden, hd.inter, Int.reduceMul]
  simp (disch := omega) only [placeAfter_eq]
  simp only [Int.add_assoc, Int.reduceAdd, Nat.cast_ofNat]

theorem placeLayers_eq (hd : Design config) : ∀ (n : Nat) (base : Int), 0 ≤ base → 256 ∣ base →
    placeLayers config n base
      = ((List.range n).map fun l => layerAt (base + (layerBytes * l : Nat)),
        base + (layerBytes * n : Nat)) := by
  intro n
  induction n with
  | zero =>
    intro base _ _
    unfold placeLayers
    simp
  | succ n ih =>
    intro base hs hs'
    have hdvd : (256 : Int) ∣ layerBytes := by decide
    unfold placeLayers
    rw [placeLayer_eq hd hs hs']
    dsimp only
    rw [ih _ (by omega) (by omega), List.range_succ_eq_map, List.map_cons, List.map_map]
    refine Prod.ext (List.cons_eq_cons.mpr ⟨by simp, List.map_congr_left fun l _ => ?_⟩) ?_
    · show layerAt _ = layerAt _
      congr 1
      push_cast
      ring
    · dsimp only
      push_cast
      ring

/-- **The regions**, end to end. -/
theorem weightsLayout_eq (hd : Design config) (hasLmHead : Bool) :
    weightsLayout config hasLmHead =
      { embed := 0
        layers := (List.range 28).map fun l => layerAt ((embedBytes : Int) + (layerBytes * l : Nat))
        finalNorm := (embedBytes : Int) + (layerBytes * 28 : Nat)
        lmHead := if hasLmHead then (embedBytes : Int) + (layerBytes * 28 : Nat) + normBytes else 0
        lmHeadAliasesEmbed := !hasLmHead
        totalBytes := (embedBytes : Int) + (layerBytes * 28 : Nat) + normBytes
          + if hasLmHead then (embedBytes : Int) else 0 } := by
  have hembed : placeAfter 0 (config.vocabSize * config.hiddenSize * 2) = embedBytes := by
    rw [hd.vocab, hd.hidden]
    decide
  have hlayers : config.numLayers.toNat = 28 := by
    rw [hd.layers]
    rfl
  have hnorm : placeAfter ((embedBytes : Int) + (layerBytes * 28 : Nat)) (config.hiddenSize * 2)
      = (embedBytes : Int) + (layerBytes * 28 : Nat) + normBytes := by
    rw [hd.hidden]
    decide
  have hhead : placeAfter ((embedBytes : Int) + (layerBytes * 28 : Nat) + normBytes)
        (config.vocabSize * config.hiddenSize * 2)
      = (embedBytes : Int) + (layerBytes * 28 : Nat) + normBytes + embedBytes := by
    rw [hd.vocab, hd.hidden]
    decide
  unfold weightsLayout
  simp only [hembed, hlayers, placeLayers_eq hd 28 embedBytes (by decide) (by decide), hnorm, hhead]
  cases hasLmHead <;> simp

/-! ## where the entries go -/

/-- the bytes an entry is uploaded to -/
def WeightMapEntry.span (config : LoaderConfig) (layout : WeightsLayout) (entry : WeightMapEntry) :
    Slab.Span := ⟨(entry.place config layout).toNat, 2 * entry.numElements.toNat⟩

theorem layers_getD (hd : Design config) (hasLmHead : Bool) {l : Nat} (hl : l < 28) :
    (weightsLayout config hasLmHead).layers.getD l default
      = layerAt ((embedBytes : Int) + (layerBytes * l : Nat)) := by
  rw [weightsLayout_eq hd]
  dsimp only
  rw [List.getD_eq_getElem?_getD, List.getElem?_map, List.getElem?_range hl]
  rfl

/-- the spans of a layer, in the order of its entries -/
theorem layer_spans (hd : Design config) (hasLmHead : Bool) {l : Nat} (hl : l < 28) :
    (layerEntries config l).map (WeightMapEntry.span config (weightsLayout config hasLmHead)) =
      let base := embedBytes + layerBytes * l
      [⟨base + 93589504, 3072⟩, ⟨base, 4718592⟩, ⟨base + 6291456, 3072⟩,
        ⟨base + 4718592, 786432⟩, ⟨base + 6294528, 512⟩, ⟨base + 5505024, 786432⟩,
        ⟨base + 6295040, 512⟩, ⟨base + 6295552, 4718592⟩, ⟨base + 93592576, 3072⟩,
        ⟨base + 11014144, 27525120⟩, ⟨base + 38539264, 27525120⟩, ⟨base + 66064384, 27525120⟩] := by
  have hlayer := layers_getD hd hasLmHead hl
  unfold layerEntries
  simp only [List.map_cons, List.map_nil, WeightMapEntry.span, WeightMapEntry.place,
    WeightsLayout.start, WeightMapEntry.numElements, destRowWidth, Int.toNat_natCast, hlayer, layerAt,
    hd.hidden, hd.inter, hd.qRows, hd.kvRows, kQRowBegin, kKRowBegin, kVRowBegin, kGateRowBegin,
    kUpRowBegin, List.foldl_cons, List.foldl_nil, Int.reduceMul]
  simp (disch := omega) only [Int.add_zero, Int.toNat_add, Int.toNat_natCast, Int.reduceToNat,
    Nat.reduceMul, Nat.add_assoc, Nat.reduceAdd]

/-- the entries of a layer cover it once -/
theorem coverCount_layer (hd : Design config) (hasLmHead : Bool) {l : Nat} (hl : l < 28) (a : Nat) :
    Slab.coverCount
        ((layerEntries config l).map (WeightMapEntry.span config (weightsLayout config hasLmHead))) a
      = if embedBytes + l * layerBytes ≤ a ∧ a < embedBytes + l * layerBytes + layerBytes
        then 1 else 0 := by
  have hends := Slab.coverCount_endToEnd a [4718592, 786432, 786432, 3072, 512, 512, 4718592,
    27525120, 27525120, 27525120, 3072, 3072] (embedBytes + layerBytes * l)
  rw [layer_spans hd hasLmHead hl, Nat.mul_comm l]
  refine Eq.trans ?_ hends
  simp only [Slab.endToEnd, Slab.coverCount_cons, Slab.coverCount_nil, Nat.add_assoc, Nat.reduceAdd]
  ring

theorem embed_span (hd : Design config) (hasLmHead : Bool) (name : String) :
    WeightMapEntry.span config (weightsLayout config hasLmHead)
      ⟨name, .kEmbed, -1, 0, [config.vocabSize, config.hiddenSize]⟩ = ⟨0, embedBytes⟩ := by
  rw [weightsLayout_eq hd, hd.vocab, hd.hidden]
  simp [WeightMapEntry.span, WeightMapEntry.place, WeightsLayout.start, WeightMapEntry.numElements,
    embedBytes]

theorem norm_span (hd : Design config) (hasLmHead : Bool) (name : String) :
    WeightMapEntry.span config (weightsLayout config hasLmHead)
      ⟨name, .kFinalNorm, -1, 0, [config.hiddenSize]⟩ = ⟨embedBytes + layerBytes * 28, normBytes⟩ := by
  rw [weightsLayout_eq hd, hd.hidden]
  simp [WeightMapEntry.span, WeightMapEntry.place, WeightsLayout.start, WeightMapEntry.numElements,
    embedBytes, layerBytes, normBytes]

theorem head_span (hd : Design config) (name : String) :
    WeightMapEntry.span config (weightsLayout config true)
      ⟨name, .kLmHead, -1, 0, [config.vocabSize, config.hiddenSize]⟩
        = ⟨embedBytes + layerBytes * 28 + normBytes, embedBytes⟩ := by
  rw [weightsLayout_eq hd, hd.vocab, hd.hidden]
  simp [WeightMapEntry.span, WeightMapEntry.place, WeightsLayout.start, WeightMapEntry.numElements,
    embedBytes, layerBytes, normBytes]

/-- **Every byte of the slab has one entry.** -/
theorem coverCount_entries (hd : Design config) (hasLmHead : Bool) (a : Nat) :
    Slab.coverCount ((weightMap config hasLmHead).map
        (WeightMapEntry.span config (weightsLayout config hasLmHead))) a
      = if (a : Int) < (weightsLayout config hasLmHead).totalBytes then 1 else 0 := by
  have hlayers : config.numLayers.toNat = 28 := by
    rw [hd.layers]
    rfl
  have hzones := Slab.coverCount_zones
    (fun l => (layerEntries config l).map (WeightMapEntry.span config (weightsLayout config hasLmHead)))
    embedBytes layerBytes a 28 fun l hl => coverCount_layer hd hasLmHead hl a
  have htotal : (weightsLayout config hasLmHead).totalBytes = (embedBytes : Int)
      + (layerBytes * 28 : Nat) + normBytes + if hasLmHead then (embedBytes : Int) else 0 := by
    rw [weightsLayout_eq hd]
  have hspan : ∀ start length, (⟨start, length⟩ : Slab.Span).covers a ↔
      start ≤ a ∧ a < start + length := fun _ _ => Iff.rfl
  unfold weightMap
  rw [hlayers, List.map_append, List.map_append, List.map_cons, List.map_flatMap,
    Slab.coverCount_append, Slab.coverCount_append, Slab.coverCount_cons, hzones, List.map_singleton,
    Slab.coverCount_cons, Slab.coverCount_nil, embed_span hd, norm_span hd, htotal]
  cases hasLmHead with
  | false =>
    simp only [hspan, Bool.false_eq_true, if_false, List.map_nil, Slab.coverCount_nil]
    split <;> split <;> split <;> split <;> omega
  | true =>
    simp only [hspan, if_true, List.map_singleton, Slab.coverCount_cons, Slab.coverCount_nil,
      head_span hd]
    split <;> split <;> split <;> split <;> split <;> omega

end
end Redline
