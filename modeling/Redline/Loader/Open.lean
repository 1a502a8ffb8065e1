import Redline.Loader.Parse
import Mathlib.Algebra.BigOperators.Ring.Finset

/-!
# What comes back from `Open`

`open_eq_ok` says which files are accepted: the header fits, it is an object, no name but the empty
one occurs twice in it, and its entries are legal.  `open_duplicate` says when the error is a
duplicate name.

`parse_sound`: what comes back is sound and a duplicate is one of the top level, exactly unless the
file is `Misread`: it repeats the empty name, which `duplicate.empty()` takes for no duplicate, or
its header is an array, whose first name is not one of the top level.  `parse_counterexample` is a
file of the first kind.
-/

namespace Redline

namespace MappedFile

/-- the length prefix -/
def headerSize (file : MappedFile) : Nat := (readLeU64 file.bytes).toNat

def headerText (file : MappedFile) : List UInt8 := (file.bytes.drop 8).take file.headerSize

def dataSize (file : MappedFile) : UInt64 := file.size - 8 - readLeU64 file.bytes

/-- the length prefix stays in the file -/
def HeaderFits (file : MappedFile) : Prop := 8 + file.headerSize ≤ file.bytes.length

theorem toNat_size (file : MappedFile) : file.size.toNat = file.bytes.length := by
  have := file.fits
  refine UInt64.toNat_ofNat_of_lt ?_
  unfold UInt64.size
  omega

theorem size_lt {file : MappedFile} : file.size < 8 ↔ file.bytes.length < 8 := by
  rw [UInt64.lt_iff_toNat_lt, toNat_size]
  exact Iff.rfl

theorem toNat_size_sub {file : MappedFile} (h : ¬ file.size < 8) :
    (file.size - 8).toNat = file.bytes.length - 8 := by
  rw [UInt64.toNat_sub_of_le _ _ (UInt64.not_lt.mp h), toNat_size]
  rfl

/-- the two tests of the sizes -/
theorem headerFits_iff {file : MappedFile} :
    file.HeaderFits ↔ ¬ file.size < 8 ∧ ¬ file.size - 8 < readLeU64 file.bytes := by
  unfold HeaderFits headerSize
  constructor
  · intro h
    have h8 : ¬ file.size < 8 := fun hlt => by
      have := size_lt.mp hlt
      omega
    refine ⟨h8, ?_⟩
    rw [UInt64.lt_iff_toNat_lt, toNat_size_sub h8]
    omega
  · rintro ⟨h8, hlt⟩
    rw [UInt64.lt_iff_toNat_lt, toNat_size_sub h8] at hlt
    rw [size_lt] at h8
    omega

/-- the data section is what follows the header -/
theorem toNat_dataSize {file : MappedFile} (h : file.HeaderFits) :
    file.dataSize.toNat = file.bytes.length - (8 + file.headerSize) := by
  obtain ⟨h8, hlt⟩ := headerFits_iff.mp h
  unfold dataSize
  rw [UInt64.toNat_sub_of_le _ _ (UInt64.not_lt.mp hlt), toNat_size_sub h8]
  exact (Nat.sub_add_eq _ _ _).symm

end MappedFile

/-! ## accepted files -/

section
variable {lib : JsonLibrary} {path : String} {file : MappedFile}

/-- the names of an accepted header -/
def NamesOk (pairs : List (String × JsonText)) : Prop :=
  ∀ k, k ≠ "" → (pairs.map Prod.fst).count k ≤ 1

/-- the entries of an accepted header: what the DOM keeps, without the metadata -/
def tensorEntries (pairs : List (String × JsonText)) : List (String × JsonText) :=
  (OrderedMap.ofPairs pairs).entries.filter fun p => decide (p.1 ≠ metadataName)

/-- a view and the entry it stands for -/
def ViewOf (file : MappedFile) (p : String × JsonText) (v : String × TensorView) : Prop :=
  v.1 = p.1 ∧ ∃ t, Reads p.2 t ∧ LegalEntry t file.dataSize ∧ v.2 = t.view (8 + file.headerSize)

theorem watch_obj (pairs : List (String × JsonText)) :
    Watched ((Json.keyEvents lib.keyDepth (.obj pairs)).foldl watchKeys {}) (pairs.map Prod.fst) := by
  have := watchKeys_spec (Json.keyEvents lib.keyDepth (.obj pairs))
  rwa [watchedNames_obj] at this

/-- **The accepted files.** -/
theorem open_eq_ok {f : SafetensorsFile} : SafetensorsFile.open lib path (.ok file) = .ok f ↔
    file.HeaderFits ∧ ∃ pairs, lib.parse file.headerText = .ok (.obj pairs) ∧ NamesOk pairs ∧
      List.Forall₂ (ViewOf file) (tensorEntries pairs) f.tensors ∧ f.path = path ∧ f.file = file := by
  unfold SafetensorsFile.open
  unfold fail
  simp only []
  rw [Throw.ite_error_eq_ok, MappedFile.headerFits_iff, and_assoc, Throw.bind_eq_ok]
  refine and_congr_right fun h8 => ?_
  unfold parseHeader fail
  simp only []
  constructor
  · rintro ⟨tensors, hheader, hf⟩
    obtain ⟨hfit, hheader⟩ := Throw.ite_error_eq_ok.mp hheader
    refine ⟨hfit, ?_⟩
    obtain rfl := (Except.ok.inj hf).symm
    cases hp : lib.parse ((file.bytes.drop 8).take (readLeU64 file.bytes).toNat) with
    | error what => simp only [hp] at hheader; cases hheader
    | ok header =>
      simp only [hp] at hheader
      obtain ⟨hsilent, hheader⟩ := Throw.ite_error_eq_ok.mp hheader
      cases header with
      | obj pairs =>
        refine ⟨pairs, hp, (watch_obj pairs).silent.mp (not_not.mp hsilent), ?_, rfl, rfl⟩
        exact parseEntries_eq_ok.mp hheader
      | _ => cases hheader
  · rintro ⟨hfit, pairs, hp, hnames, hviews, rfl, rfl⟩
    refine ⟨f.tensors, Throw.ite_error_eq_ok.mpr ⟨hfit, ?_⟩, rfl⟩
    have hp' : lib.parse ((f.file.bytes.drop 8).take (readLeU64 f.file.bytes).toNat)
      = .ok (.obj pairs) := hp
    simp only [hp']
    refine Throw.ite_error_eq_ok.mpr ⟨not_not.mpr ((watch_obj pairs).silent.mpr hnames), ?_⟩
    exact parseEntries_eq_ok.mpr hviews

/-- **The duplicates** are found at the depth of the first name. -/
theorem open_duplicate : (∃ e, SafetensorsFile.open lib path (.ok file) = .error e ∧
      e.kind = .kDuplicateName) ↔
    file.HeaderFits ∧ ∃ header, lib.parse file.headerText = .ok header ∧
      ∃ k, k ≠ "" ∧ 2 ≤ (watchedNames (header.keyEvents lib.keyDepth)).count k := by
  have hwatch : ∀ header : JsonText,
      ((header.keyEvents lib.keyDepth).foldl watchKeys {}).duplicate ≠ "" ↔
        ∃ k, k ≠ "" ∧ 2 ≤ (watchedNames (header.keyEvents lib.keyDepth)).count k := by
    intro header
    have hW := watchKeys_spec (header.keyEvents lib.keyDepth)
    refine ⟨fun h => ⟨_, h, hW.honest h⟩, fun ⟨k, hk, htwo⟩ h => ?_⟩
    have := hW.silent.mp h k hk
    omega
  unfold SafetensorsFile.open
  rw [MappedFile.headerFits_iff]
  simp only []
  by_cases h8 : file.size < 8
  · rw [if_pos h8]
    refine ⟨fun ⟨e, he, hk⟩ => ?_, fun h => absurd h8 h.1.1⟩
    cases he
    cases hk
  · rw [if_neg h8]
    unfold parseHeader
    simp only []
    by_cases hfit : file.size - 8 < readLeU64 file.bytes
    · rw [if_pos hfit]
      refine ⟨fun ⟨e, he, hk⟩ => ?_, fun h => absurd hfit h.1.2⟩
      cases he
      cases hk
    · rw [if_neg hfit, and_iff_right ⟨h8, hfit⟩]
      unfold MappedFile.headerText MappedFile.headerSize
      cases hp : lib.parse ((file.bytes.drop 8).take (readLeU64 file.bytes).toNat) with
      | error what =>
        refine ⟨fun ⟨e, he, hk⟩ => ?_, fun ⟨header, hh, _⟩ => by cases hh⟩
        cases he
        cases hk
      | ok header =>
        dsimp only
        by_cases hdup : ((header.keyEvents lib.keyDepth).foldl watchKeys {}).duplicate ≠ ""
        · rw [if_pos hdup]
          exact ⟨fun _ => ⟨header, rfl, (hwatch header).mp hdup⟩, fun _ => ⟨_, rfl, rfl⟩⟩
        · rw [if_neg hdup]
          refine ⟨fun ⟨e, he, hk⟩ => ?_, fun ⟨header', hh, hk⟩ => ?_⟩
          · cases header with
            | obj pairs =>
              have := Throw.Throws.bind (throws_parseEntries _) (fun _ => Throw.throws_ok _) e he
              exact absurd hk this
            | _ =>
              cases he
              cases hk
          · obtain rfl := Except.ok.inj hh
            exact absurd ((hwatch header).mpr hk) hdup

/-! ## soundness -/

/-- a view inside the data section of its file, of the exact size of its shape -/
structure SoundView (file : MappedFile) (v : TensorView) : Prop where
  after_header : 8 + file.headerSize ≤ v.data
  inside : v.data + v.nbytes.toNat ≤ file.bytes.length
  exact_size : (v.nbytes.toNat : Int) = (v.shape.map Int64.toInt).prod * (dtypeSize v.dtype).toNat
  dims_nonneg : ∀ d ∈ v.shape, 0 ≤ d.toInt
  known : v.dtype ≠ .kUnknown

/-- the view of a name is the one its entry in the text describes -/
structure Describes (file : MappedFile) (pairs : List (String × JsonText)) (name : String)
    (v : TensorView) : Prop where
  entry : ∃ json t, (name, json) ∈ pairs ∧ Reads json t ∧ v = t.view (8 + file.headerSize) ∧
    v.shape.map Int64.toInt = t.dims.map fun d => (d.toNat : Int)

/-- each view has its entry -/
theorem view_of_mem {entries : List (String × JsonText)} {tensors : List (String × TensorView)}
    (h : List.Forall₂ (ViewOf file) entries tensors) {v : String × TensorView} (hv : v ∈ tensors) :
    ∃ p ∈ entries, ViewOf file p v := by
  induction h with
  | nil => cases hv
  | cons hpv _ ih =>
    rcases List.mem_cons.mp hv with rfl | hv
    · exact ⟨_, List.mem_cons_self, hpv⟩
    · obtain ⟨p, hp, hpv⟩ := ih hv
      exact ⟨p, List.mem_cons_of_mem _ hp, hpv⟩

/-- each entry has its view -/
theorem view_of_entry {entries : List (String × JsonText)} {tensors : List (String × TensorView)}
    (h : List.Forall₂ (ViewOf file) entries tensors) {p : String × JsonText} (hp : p ∈ entries) :
    ∃ v ∈ tensors, ViewOf file p v := by
  induction h with
  | nil => cases hp
  | cons hpv _ ih =>
    rcases List.mem_cons.mp hp with rfl | hp
    · exact ⟨_, List.mem_cons_self, hpv⟩
    · obtain ⟨v, hv, hpv⟩ := ih hp
      exact ⟨v, List.mem_cons_of_mem _ hv, hpv⟩

/-- what `Open` promises -/
structure OpenSound (lib : JsonLibrary) (file : MappedFile)
    (out : Except SafetensorsError SafetensorsFile) : Prop where
  accepted : ∀ f, out = .ok f → ∃ pairs, file.HeaderFits ∧
    lib.parse file.headerText = .ok (.obj pairs) ∧
    (∀ v ∈ f.tensors, SoundView file v.2 ∧ Describes file pairs v.1 v.2) ∧
    (f.tensors.map Prod.fst).Nodup ∧
    (∀ name, name ∈ f.tensors.map Prod.fst ↔ name ∈ pairs.map Prod.fst ∧ name ≠ metadataName) ∧
    ∀ name ∈ f.tensors.map Prod.fst, (pairs.map Prod.fst).count name = 1
  duplicate : ∀ e, out = .error e → e.kind = .kDuplicateName → ∃ pairs,
    lib.parse file.headerText = .ok (.obj pairs) ∧ ∃ name, 2 ≤ (pairs.map Prod.fst).count name

/-- the files on which `Open` breaks its promise: an otherwise legal header that repeats the empty
name, or a header that is no object and repeats another name at the depth of its first -/
def Misread (lib : JsonLibrary) (file : MappedFile) : Prop :=
  file.HeaderFits ∧ ∃ header, lib.parse file.headerText = .ok header ∧
    ((∃ pairs, header = .obj pairs ∧ 2 ≤ (pairs.map Prod.fst).count "" ∧ NamesOk pairs ∧
      ∀ p ∈ tensorEntries pairs, ∃ t, Reads p.2 t ∧ LegalEntry t file.dataSize) ∨
    ((∀ pairs, header ≠ .obj pairs) ∧
      ∃ k, k ≠ "" ∧ 2 ≤ (watchedNames (header.keyEvents lib.keyDepth)).count k))

theorem toInt_toInt64 {d : UInt64} (h : d.toNat < 2 ^ 63) : d.toInt64.toInt = d.toNat := by
  show d.toBitVec.toInt = _
  rw [BitVec.toInt_eq_toNat_cond]
  show (if 2 * d.toNat < 2 ^ 64 then (d.toNat : Int) else _) = _
  rw [if_pos (by omega)]

theorem shape_toInt {ds : List UInt64} (h : ∀ d ∈ ds, d.toNat < 2 ^ 63) :
    (ds.map UInt64.toInt64).map Int64.toInt = ds.map fun d => (d.toNat : Int) := by
  rw [List.map_map]
  exact List.map_congr_left fun d hd => toInt_toInt64 (h d hd)

theorem cast_dimsProduct (ds : List UInt64) :
    ((dimsProduct ds : Nat) : Int) = (ds.map fun d => (d.toNat : Int)).prod := by
  unfold dimsProduct
  rw [Nat.cast_list_prod, List.map_map]
  rfl

/-- the view of a legal entry is sound -/
theorem LegalEntry.soundView {t : TensorSpec} (hfits : file.HeaderFits) (hknown : t.dtype ≠ .kUnknown)
    (h : LegalEntry t file.dataSize) : SoundView file (t.view (8 + file.headerSize)) := by
  obtain ⟨hb1, hb2⟩ := h.bounds
  have hsize := MappedFile.toNat_dataSize hfits
  have hlen : (t.last - t.first).toNat = t.last.toNat - t.first.toNat :=
    UInt64.toNat_sub_of_le _ _ (UInt64.le_iff_toNat_le.mpr hb1)
  have hfit : 8 + file.headerSize ≤ file.bytes.length := hfits
  refine ⟨Nat.le_add_right _ _, ?_, ?_, ?_, hknown⟩
  · show 8 + file.headerSize + t.first.toNat + (t.last - t.first).toNat ≤ _
    rw [hlen]
    omega
  · show (((t.last - t.first).toNat : Nat) : Int)
      = ((t.dims.map UInt64.toInt64).map Int64.toInt).prod * _
    rw [hlen, h.span, Nat.cast_mul, shape_toInt h.shape.dims_lt, cast_dimsProduct]
    rfl
  · intro d hd
    obtain ⟨d', hd', rfl⟩ := List.mem_map.mp hd
    rw [toInt_toInt64 (h.shape.dims_lt d' hd')]
    exact Int.natCast_nonneg _

/-- the views of an opened file are sound -/
theorem sound_of_open {mapped : Except String MappedFile} {f : SafetensorsFile}
    (h : SafetensorsFile.open lib path mapped = .ok f) {v : String × TensorView} (hv : v ∈ f.tensors) :
    SoundView f.file v.2 := by
  cases mapped with
  | error text => cases h
  | ok file =>
    obtain ⟨hfits, pairs, _, _, hviews, _, rfl⟩ := open_eq_ok.mp h
    obtain ⟨_, _, _, t, hr, hl, hview⟩ := view_of_mem hviews hv
    exact hview ▸ hl.soundView hfits hr.known

/-- legal entries have views -/
theorem exists_views {entries : List (String × JsonText)}
    (h : ∀ p ∈ entries, ∃ t, Reads p.2 t ∧ LegalEntry t file.dataSize) :
    ∃ tensors, List.Forall₂ (ViewOf file) entries tensors := by
  induction entries with
  | nil => exact ⟨[], .nil⟩
  | cons p entries ih =>
    obtain ⟨tensors, ht⟩ := ih fun q hq => h q (List.mem_cons_of_mem _ hq)
    obtain ⟨t, hr, hl⟩ := h p List.mem_cons_self
    exact ⟨(p.1, t.view (8 + file.headerSize)) :: tensors, .cons ⟨rfl, t, hr, hl, rfl⟩ ht⟩

/-- the names of the views are the names of the entries -/
theorem names_of_views {pairs : List (String × JsonText)} {tensors : List (String × TensorView)}
    (h : List.Forall₂ (ViewOf file) (tensorEntries pairs) tensors) :
    tensors.map Prod.fst = (tensorEntries pairs).map Prod.fst := by
  generalize tensorEntries pairs = entries at h ⊢
  induction h with
  | nil => rfl
  | cons hv _ ih => rw [List.map_cons, List.map_cons, ih, hv.1]

theorem mem_names {pairs : List (String × JsonText)} {name : String} :
    name ∈ (tensorEntries pairs).map Prod.fst ↔ name ∈ pairs.map Prod.fst ∧ name ≠ metadataName := by
  have hkeys : name ∈ (OrderedMap.ofPairs pairs).keys ↔ name ∈ pairs.map Prod.fst :=
    OrderedMap.keys_ofPairs
  rw [← hkeys]
  unfold tensorEntries OrderedMap.keys
  simp only [List.mem_map, List.mem_filter, decide_eq_true_eq]
  constructor
  · rintro ⟨p, ⟨hp, hm⟩, rfl⟩
    exact ⟨⟨p, hp, rfl⟩, hm⟩
  · rintro ⟨⟨p, hp, rfl⟩, hm⟩
    exact ⟨p, ⟨hp, hm⟩, rfl⟩

/-- **The parser is sound** exactly on the files that are not misread. -/
theorem parse_sound (lib : JsonLibrary) (path : String) (file : MappedFile) :
    OpenSound lib file (SafetensorsFile.open lib path (.ok file)) ↔ ¬ Misread lib file := by
  constructor
  · rintro h ⟨hfits, header, hp, ⟨pairs, rfl, htwo, hnames, hlegal⟩ | ⟨hobj, hdup⟩⟩
    · -- the empty name gets through, and stands for both entries
      obtain ⟨tensors, ht⟩ := exists_views hlegal
      have hopen := (@open_eq_ok lib path file ⟨path, file, tensors⟩).mpr
        ⟨hfits, pairs, hp, hnames, ht, rfl, rfl⟩
      obtain ⟨pairs', _, hp', _, _, hmem, hone⟩ := h.accepted _ hopen
      obtain rfl : pairs = pairs' := by
        have := hp.symm.trans hp'
        exact Json.obj.inj (Except.ok.inj this)
      have hin : "" ∈ tensors.map Prod.fst := (hmem "").mpr
        ⟨List.count_pos_iff.mp (by omega), by decide⟩
      have := hone "" hin
      omega
    · obtain ⟨e, he, hk⟩ := (@open_duplicate lib path file).mpr ⟨hfits, header, hp, hdup⟩
      obtain ⟨pairs, hp', _⟩ := h.duplicate e he hk
      exact hobj pairs (Except.ok.inj (hp.symm.trans hp'))
  · intro hmis
    refine ⟨fun f hf => ?_, fun e he hk => ?_⟩
    · obtain ⟨hfits, pairs, hp, hnames, hviews, _⟩ := open_eq_ok.mp hf
      have heq := names_of_views hviews
      refine ⟨pairs, hfits, hp, fun v hv => ?_, ?_, fun name => ?_, fun name hname => ?_⟩
      · obtain ⟨p, hpm, hname, t, hr, hl, hview⟩ := view_of_mem hviews hv
        obtain ⟨hent, _⟩ := List.mem_filter.mp hpm
        refine ⟨hview ▸ hl.soundView hfits hr.known, ⟨p.2, t, ?_, hr, hview, ?_⟩⟩
        · rw [hname]
          exact OrderedMap.mem_of_mem_ofPairs hent
        · rw [hview]
          exact shape_toInt hl.shape.dims_lt
      · rw [heq]
        exact ((OrderedMap.nodup_keys _).sublist (List.filter_sublist.map _))
      · rw [heq]
        exact mem_names
      · rw [heq] at hname
        have hin := (mem_names.mp hname).1
        have hpos : 0 < (pairs.map Prod.fst).count name := List.count_pos_iff.mpr hin
        by_cases hempty : name = ""
        · subst hempty
          by_contra hne
          refine hmis ⟨hfits, _, hp, Or.inl ⟨pairs, rfl, by omega, hnames, ?_⟩⟩
          intro p hpm
          obtain ⟨_, _, _, t, hr, hl, _⟩ := view_of_entry hviews hpm
          exact ⟨t, hr, hl⟩
        · have := hnames name hempty
          omega
    · obtain ⟨hfits, header, hp, k, hne, htwo⟩ := open_duplicate.mp ⟨e, he, hk⟩
      cases header with
      | obj pairs =>
        rw [watchedNames_obj] at htwo
        exact ⟨pairs, hp, k, htwo⟩
      | _ => exact absurd ⟨hfits, _, hp, Or.inr ⟨nofun, k, hne, htwo⟩⟩ hmis

end

/-! ## a header that names nothing twice -/

/-- the header `{"":T,"":T}` with `T` a tensor of no bytes -/
def emptyNameText : String :=
  "\x7b\"\":\x7b\"dtype\":\"U8\",\"shape\":[0],\"data_offsets\":[0,0]\x7d," ++
    "\"\":\x7b\"dtype\":\"U8\",\"shape\":[0],\"data_offsets\":[0,0]\x7d\x7d"

def emptyNameEntry : JsonText :=
  .obj [("dtype", .str "U8"), ("shape", .arr [unsignedNumber 0]),
    ("data_offsets", .arr [unsignedNumber 0, unsignedNumber 0])]

def emptyNamePairs : List (String × JsonText) := [("", emptyNameEntry), ("", emptyNameEntry)]

def asciiBytes (s : String) : List UInt8 := s.toList.map fun c => c.val.toUInt8

/-- a parser that knows this one text -/
def emptyNameJson : JsonLibrary where
  parse := fun text => if text = asciiBytes emptyNameText then .ok (.obj emptyNamePairs)
    else .error "parse error"
  dump := fun _ => ""
  keyDepth := 1

def emptyNameFile : MappedFile where
  bytes := [UInt8.ofNat emptyNameText.length, 0, 0, 0, 0, 0, 0, 0] ++ asciiBytes emptyNameText
  fits := by decide

theorem emptyName_parse :
    emptyNameJson.parse emptyNameFile.headerText = .ok (.obj emptyNamePairs) := by
  have htext : emptyNameFile.headerText = asciiBytes emptyNameText := by decide
  unfold emptyNameJson
  simp only [htext, if_true]

theorem emptyName_legal : LegalEntry ⟨.kU8, [0], 0, 0⟩ emptyNameFile.dataSize := by
  have hdims : ∀ d ∈ ([0] : List UInt64), d.toNat < 2 ^ 63 := by
    intro d hd
    rw [List.mem_singleton.mp hd]
    decide
  refine ⟨⟨hdims, fun n => ?_⟩, ⟨le_refl _, Nat.zero_le _⟩, by decide⟩
  cases n with
  | zero => decide
  | succ n =>
    show dimsProduct (0 :: [].take n) < 2 ^ 64
    rw [dimsProduct_cons]
    show 0 * _ < _
    rw [Nat.zero_mul]
    decide

/-- the one view that both entries get -/
theorem emptyName_views : List.Forall₂ (ViewOf emptyNameFile) (tensorEntries emptyNamePairs)
    [("", ⟨.kU8, [0], 8 + emptyNameFile.headerSize, 0⟩)] := by
  have hentries : tensorEntries emptyNamePairs = [("", emptyNameEntry)] := by rfl
  have hreads : Reads emptyNameEntry ⟨.kU8, [0], 0, 0⟩ :=
    ⟨by decide, _, "U8", rfl, by rfl, by rfl, by rfl, by rfl⟩
  rw [hentries]
  exact .cons ⟨rfl, _, hreads, emptyName_legal, rfl⟩ .nil

theorem parse_counterexample : ¬ OpenSound emptyNameJson emptyNameFile
    (SafetensorsFile.open emptyNameJson "model.safetensors" (.ok emptyNameFile)) := by
  intro h
  have hfits : emptyNameFile.HeaderFits := by
    show _ ≤ _
    decide
  have hnames : NamesOk emptyNamePairs := by
    intro k hk
    show List.count k ["", ""] ≤ 1
    rw [List.count_eq_zero.mpr (by simpa using hk)]
    exact Nat.zero_le 1
  have hopen := (@open_eq_ok emptyNameJson "model.safetensors" emptyNameFile
    ⟨"model.safetensors", emptyNameFile, _⟩).mpr
    ⟨hfits, emptyNamePairs, emptyName_parse, hnames, emptyName_views, rfl, rfl⟩
  obtain ⟨pairs, _, hp, _, _, _, hone⟩ := h.accepted _ hopen
  obtain rfl : emptyNamePairs = pairs := Json.obj.inj (Except.ok.inj (emptyName_parse.symm.trans hp))
  exact absurd (hone "" List.mem_cons_self) (by decide)

end Redline
