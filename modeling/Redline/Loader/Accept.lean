import Redline.Loader.Open

/-!
# Which exact headers `Open` accepts

`ExactHeader` is a header that a writer of the format would call correct: an object with distinct
names, supported dtypes, dimensions below `2^63`, spans inside the data section, and spans of
exactly the product of the dimensions times the size of the dtype.

The product is taken from the left with a test before each factor, so a zero helps only the factors
after it: `accept_iff` says that an exact header is accepted iff in each of its tensors the
dimensions in front of the first zero multiply to less than `2^64` and no number is written with a
sign.  `accept_counterexample` is a tensor without elements that is refused, and its permutation
that is accepted.
-/

namespace Redline

/-- the value of an integer of the text; `-0` is one that the library keeps as signed -/
def JsonNumber.natural : JsonNumber → Option Nat
  | .unsigned n => some n.toNat
  | .integer n => if 0 ≤ n.toInt then some n.toInt.toNat else none
  | .float => none

/-- an entry as it is written -/
structure WrittenSpec where
  dtype : Dtype
  dims : List JsonNumber
  first : JsonNumber
  last : JsonNumber

structure Writes (json : JsonText) (s : WrittenSpec) : Prop where
  known : s.dtype ≠ .kUnknown
  fields : ∃ pairs name, json = .obj pairs ∧ findField pairs "dtype" = some (.str name) ∧
    dtypeFromString name = s.dtype ∧
    findField pairs "shape" = some (.arr (s.dims.map .num)) ∧
    findField pairs "data_offsets" = some (.arr [.num s.first, .num s.last])

/-- the sizes of an entry, as exact numbers -/
structure ExactSpec (s : WrittenSpec) (dataSize : Nat) (dims : List Nat) (first last : Nat) :
    Prop where
  dims_eq : s.dims.map JsonNumber.natural = dims.map some
  first_eq : s.first.natural = some first
  last_eq : s.last.natural = some last
  dims_lt : ∀ d ∈ dims, d < 2 ^ 63
  bounds : first ≤ last ∧ last ≤ dataSize
  size : last - first = dims.prod * (dtypeSize s.dtype).toNat

/-- a well-formed header with distinct names and exact entries -/
structure ExactHeader (lib : JsonLibrary) (file : MappedFile) (pairs : List (String × JsonText)) :
    Prop where
  fits : file.HeaderFits
  parsed : lib.parse file.headerText = .ok (.obj pairs)
  distinct : (pairs.map Prod.fst).Nodup
  exact : ∀ p ∈ tensorEntries pairs, ∃ s dims first last, Writes p.2 s ∧
    ExactSpec s file.dataSize.toNat dims first last

/-- the entry is one the parser takes: no signs, and no overflow in front of a zero -/
def Plain (json : JsonText) : Prop :=
  ∀ s, Writes json s → (∀ n ∈ s.first :: s.last :: s.dims, ∃ u, n = .unsigned u) ∧
    ((s.dims.filterMap JsonNumber.natural).takeWhile (· ≠ 0)).prod < 2 ^ 64

/-- the partial products are bounded by the product in front of the first zero -/
theorem partial_lt_iff {B : Nat} (ds : List Nat) : ∀ a, 0 < a →
    ((∀ n, a * (ds.take n).prod < B) ↔ a * (ds.takeWhile (· ≠ 0)).prod < B) := by
  induction ds with
  | nil =>
    intro a _
    simp only [List.take_nil, List.takeWhile_nil, forall_const]
  | cons d ds ih =>
    intro a ha
    have hsplit : (∀ n, a * ((d :: ds).take n).prod < B) ↔
        a < B ∧ ∀ n, a * d * (ds.take n).prod < B := by
      constructor
      · intro h
        refine ⟨by simpa using h 0, fun n => ?_⟩
        have := h (n + 1)
        rwa [List.take_succ_cons, List.prod_cons, ← mul_assoc] at this
      · rintro ⟨h0, h⟩ n
        cases n with
        | zero => simpa using h0
        | succ n =>
          rw [List.take_succ_cons, List.prod_cons, ← mul_assoc]
          exact h n
    rw [hsplit]
    by_cases hd : d = 0
    · subst hd
      have hstop : (0 :: ds).takeWhile (fun n => decide (n ≠ 0)) = [] := rfl
      rw [hstop, List.prod_nil, mul_one, and_iff_left_iff_imp]
      intro h n
      rw [Nat.mul_zero, Nat.zero_mul]
      omega
    · have hpos : 0 < d := Nat.pos_of_ne_zero hd
      rw [List.takeWhile_cons_of_pos (by simpa using hd), List.prod_cons, ← mul_assoc,
        ih (a * d) (Nat.mul_pos ha hpos)]
      refine and_iff_right_of_imp fun h => ?_
      have hfirst := (ih (a * d) (Nat.mul_pos ha hpos)).mpr h 0
      rw [List.take_zero, List.prod_nil, mul_one] at hfirst
      exact lt_of_le_of_lt (Nat.le_mul_of_pos_right a hpos) hfirst

section
variable {lib : JsonLibrary} {path : String} {file : MappedFile}

theorem natural_unsigned (ds : List UInt64) :
    (ds.map JsonNumber.unsigned).map JsonNumber.natural = (ds.map UInt64.toNat).map some := by
  rw [List.map_map, List.map_map]
  rfl

theorem values_unsigned (ds : List UInt64) :
    (ds.map JsonNumber.unsigned).filterMap JsonNumber.natural = ds.map UInt64.toNat := by
  induction ds with
  | nil => rfl
  | cons d ds ih =>
    show d.toNat :: (ds.map JsonNumber.unsigned).filterMap JsonNumber.natural = _
    rw [ih, List.map_cons]

theorem exists_unsigned {l : List JsonNumber} (h : ∀ n ∈ l, ∃ u, n = JsonNumber.unsigned u) :
    ∃ ds : List UInt64, l = ds.map .unsigned := by
  induction l with
  | nil => exact ⟨[], rfl⟩
  | cons n l ih =>
    obtain ⟨u, rfl⟩ := h n List.mem_cons_self
    obtain ⟨ds, rfl⟩ := ih fun m hm => h m (List.mem_cons_of_mem _ hm)
    exact ⟨u :: ds, rfl⟩

/-- an entry is written in one way -/
theorem Writes.unique {json : JsonText} {s t : WrittenSpec} (hs : Writes json s)
    (ht : Writes json t) : s = t := by
  obtain ⟨_, pairs, name, rfl, hdtype, hname, hshape, hoffsets⟩ := hs
  obtain ⟨_, pairs', name', heq, hdtype', hname', hshape', hoffsets'⟩ := ht
  obtain rfl := Json.obj.inj heq
  have hstr := Json.str.inj (Option.some.inj (hdtype.symm.trans hdtype'))
  have hdims := Json.arr.inj (Option.some.inj (hshape.symm.trans hshape'))
  have hspan := Json.arr.inj (Option.some.inj (hoffsets.symm.trans hoffsets'))
  have hnum : Function.Injective (Json.num : JsonNumber → JsonText) := fun _ _ h => Json.num.inj h
  obtain ⟨hfirst, hrest⟩ := List.cons.inj hspan
  have hlast := (List.cons.inj hrest).1
  cases s
  cases t
  obtain rfl := hstr
  rw [WrittenSpec.mk.injEq]
  exact ⟨hname.symm.trans hname', (List.map_injective_iff.mpr hnum) hdims, Json.num.inj hfirst,
    Json.num.inj hlast⟩

/-- an entry that the parser reads, as it is written -/
theorem Reads.writes {json : JsonText} {t : TensorSpec} (h : Reads json t) :
    Writes json ⟨t.dtype, t.dims.map .unsigned, .unsigned t.first, .unsigned t.last⟩ := by
  obtain ⟨hknown, pairs, name, rfl, hdtype, hname, hshape, hoffsets⟩ := h
  refine ⟨hknown, pairs, name, rfl, hdtype, hname, ?_, hoffsets⟩
  rw [List.map_map]
  exact hshape

/-- **An exact entry** is legal iff it is plain. -/
theorem legal_iff_plain {json : JsonText} {s : WrittenSpec} {dims : List Nat} {first last : Nat}
    {dataSize : UInt64} (hw : Writes json s) (hx : ExactSpec s dataSize.toNat dims first last) :
    (∃ t, Reads json t ∧ LegalEntry t dataSize) ↔ Plain json := by
  constructor
  · rintro ⟨t, hr, hl⟩ s' hs'
    obtain rfl := hr.writes.unique hs'
    refine ⟨fun n hn => ?_, ?_⟩
    · rcases List.mem_cons.mp hn with rfl | hn
      · exact ⟨_, rfl⟩
      rcases List.mem_cons.mp hn with rfl | hn
      · exact ⟨_, rfl⟩
      obtain ⟨u, _, rfl⟩ := List.mem_map.mp hn
      exact ⟨u, rfl⟩
    · rw [values_unsigned]
      have hpartial := (partial_lt_iff (B := 2 ^ 64) (t.dims.map UInt64.toNat) 1 Nat.one_pos).mp
        fun n => by
          rw [Nat.one_mul, ← List.map_take]
          exact hl.shape.partial_lt n
      rwa [Nat.one_mul] at hpartial
  · intro hplain
    obtain ⟨hunsigned, hproduct⟩ := hplain s hw
    obtain ⟨hknown, pairs, name, rfl, hdtype, hname, hshape, hoffsets⟩ := hw
    obtain ⟨a, ha⟩ := hunsigned _ List.mem_cons_self
    obtain ⟨b, hb⟩ := hunsigned _ (List.mem_cons_of_mem _ List.mem_cons_self)
    obtain ⟨ds, hds⟩ := exists_unsigned fun n hn =>
      hunsigned n (List.mem_cons_of_mem _ (List.mem_cons_of_mem _ hn))
    obtain ⟨hdims, hfirst, hlast, hlt, hbounds, hsize⟩ := hx
    rw [hds, natural_unsigned] at hdims
    obtain rfl := (List.map_injective_iff.mpr (Option.some_injective Nat)) hdims
    rw [ha] at hfirst
    rw [hb] at hlast
    obtain rfl := Option.some.inj hfirst
    obtain rfl := Option.some.inj hlast
    refine ⟨⟨s.dtype, ds, a, b⟩, ⟨hknown, pairs, name, rfl, hdtype, hname, ?_, ?_⟩,
      ⟨⟨?_, ?_⟩, hbounds, hsize⟩⟩
    · rw [hshape, hds, List.map_map]
      rfl
    · rw [hoffsets, ha, hb]
      rfl
    · intro d hd
      exact hlt _ (List.mem_map_of_mem hd)
    · rw [hds, values_unsigned] at hproduct
      intro n
      have hpartial := (partial_lt_iff (B := 2 ^ 64) (ds.map UInt64.toNat) 1 Nat.one_pos).mpr
        (by rwa [Nat.one_mul]) n
      rwa [Nat.one_mul, ← List.map_take] at hpartial

/-- **The exact headers that are accepted.** -/
theorem accept_iff (lib : JsonLibrary) (path : String) (file : MappedFile)
    (pairs : List (String × JsonText)) (h : ExactHeader lib file pairs) :
    (∃ f, SafetensorsFile.open lib path (.ok file) = .ok f) ↔
      ∀ p ∈ tensorEntries pairs, Plain p.2 := by
  obtain ⟨hfits, hparsed, hdistinct, hexact⟩ := h
  constructor
  · rintro ⟨f, hf⟩ p hp
    obtain ⟨_, pairs', hparsed', _, hviews, _⟩ := open_eq_ok.mp hf
    obtain rfl := Json.obj.inj (Except.ok.inj (hparsed.symm.trans hparsed'))
    obtain ⟨_, _, _, t, hr, hl, _⟩ := view_of_entry hviews hp
    obtain ⟨s, dims, first, last, hw, hx⟩ := hexact p hp
    exact (legal_iff_plain hw hx).mp ⟨t, hr, hl⟩
  · intro hplain
    obtain ⟨tensors, hviews⟩ := exists_views fun p hp => by
      obtain ⟨s, dims, first, last, hw, hx⟩ := hexact p hp
      exact (legal_iff_plain hw hx).mpr (hplain p hp)
    refine ⟨⟨path, file, tensors⟩, open_eq_ok.mpr ⟨hfits, pairs, hparsed, ?_, hviews, rfl, rfl⟩⟩
    exact fun k _ => List.nodup_iff_count_le_one.mp hdistinct k

end

/-! ## a tensor without elements -/

/-- the header `{"w":{"dtype":"U8","shape":SHAPE,"data_offsets":[0,0]}}` -/
def emptyTensorText (shape : String) : String :=
  "\x7b\"w\":\x7b\"dtype\":\"U8\",\"shape\":" ++ shape ++ ",\"data_offsets\":[0,0]\x7d\x7d"

def emptyTensorEntry (dims : List UInt64) : JsonText :=
  .obj [("dtype", .str "U8"), ("shape", .arr (dims.map unsignedNumber)),
    ("data_offsets", .arr [unsignedNumber 0, unsignedNumber 0])]

def emptyTensorPairs (dims : List UInt64) : List (String × JsonText) := [("w", emptyTensorEntry dims)]

def emptyTensorSpec (dims : List UInt64) : WrittenSpec :=
  ⟨.kU8, dims.map .unsigned, .unsigned 0, .unsigned 0⟩

/-- a parser that knows the two texts -/
def emptyTensorJson : JsonLibrary where
  parse := fun text =>
    if text = asciiBytes (emptyTensorText "[4294967296,4294967296,0]") then
      .ok (.obj (emptyTensorPairs [4294967296, 4294967296, 0]))
    else if text = asciiBytes (emptyTensorText "[0,4294967296,4294967296]") then
      .ok (.obj (emptyTensorPairs [0, 4294967296, 4294967296]))
    else .error "parse error"
  dump := fun _ => ""
  keyDepth := 1

def zeroLastFile : MappedFile where
  bytes := [75, 0, 0, 0, 0, 0, 0, 0] ++ asciiBytes (emptyTensorText "[4294967296,4294967296,0]")
  fits := by decide

def zeroFirstFile : MappedFile where
  bytes := [75, 0, 0, 0, 0, 0, 0, 0] ++ asciiBytes (emptyTensorText "[0,4294967296,4294967296]")
  fits := by decide

theorem emptyTensor_exact {file : MappedFile} {dims : List UInt64} (hfits : file.HeaderFits)
    (hparsed : emptyTensorJson.parse file.headerText = .ok (.obj (emptyTensorPairs dims)))
    (hwrites : Writes (emptyTensorEntry dims) (emptyTensorSpec dims))
    (hlt : ∀ d ∈ dims, d.toNat < 2 ^ 63) (hzero : (dims.map UInt64.toNat).prod = 0) :
    ExactHeader emptyTensorJson file (emptyTensorPairs dims) := by
  refine ⟨hfits, hparsed, List.nodup_singleton "w", fun p hp => ?_⟩
  have hentries : tensorEntries (emptyTensorPairs dims) = emptyTensorPairs dims := by rfl
  rw [hentries] at hp
  obtain rfl := List.mem_singleton.mp hp
  refine ⟨emptyTensorSpec dims, dims.map UInt64.toNat, 0, 0, hwrites,
    ⟨natural_unsigned dims, by rfl, by rfl, ?_, ⟨le_refl 0, Nat.zero_le _⟩, ?_⟩⟩
  · intro d hd
    obtain ⟨u, hu, rfl⟩ := List.mem_map.mp hd
    exact hlt u hu
  · rw [hzero]
    rfl

theorem zeroLast_exact :
    ExactHeader emptyTensorJson zeroLastFile (emptyTensorPairs [4294967296, 4294967296, 0]) := by
  have htext : zeroLastFile.headerText = asciiBytes (emptyTensorText "[4294967296,4294967296,0]") := by
    decide
  refine emptyTensor_exact ?_ ?_ ⟨by decide, _, "U8", rfl, by rfl, by rfl, by rfl, by rfl⟩
    (List.forall_mem_cons.mpr ⟨by decide, List.forall_mem_cons.mpr ⟨by decide, List.forall_mem_singleton.mpr (by decide)⟩⟩)
    (by decide)
  · show _ ≤ _
    decide
  · unfold emptyTensorJson
    simp only [htext, if_true]

theorem zeroFirst_exact :
    ExactHeader emptyTensorJson zeroFirstFile (emptyTensorPairs [0, 4294967296, 4294967296]) := by
  have htext : zeroFirstFile.headerText = asciiBytes (emptyTensorText "[0,4294967296,4294967296]") := by
    decide
  have hne : zeroFirstFile.headerText ≠ asciiBytes (emptyTensorText "[4294967296,4294967296,0]") := by
    decide
  refine emptyTensor_exact ?_ ?_ ⟨by decide, _, "U8", rfl, by rfl, by rfl, by rfl, by rfl⟩
    (List.forall_mem_cons.mpr ⟨by decide, List.forall_mem_cons.mpr ⟨by decide, List.forall_mem_singleton.mpr (by decide)⟩⟩)
    (by decide)
  · show _ ≤ _
    decide
  · unfold emptyTensorJson
    simp only [if_neg hne]
    rw [htext, if_pos rfl]

theorem accept_iff_example :
    (∃ f, SafetensorsFile.open emptyTensorJson "model.safetensors" (.ok zeroFirstFile) = .ok f) ↔
      ∀ p ∈ tensorEntries (emptyTensorPairs [0, 4294967296, 4294967296]), Plain p.2 :=
  accept_iff emptyTensorJson "model.safetensors" zeroFirstFile _ zeroFirst_exact

/-- of two exact headers that differ in the order of the dimensions one is refused -/
theorem accept_counterexample :
    (∃ pairs, ExactHeader emptyTensorJson zeroLastFile pairs) ∧
    (∃ pairs, ExactHeader emptyTensorJson zeroFirstFile pairs) ∧
    (¬ ∃ f, SafetensorsFile.open emptyTensorJson "model.safetensors" (.ok zeroLastFile) = .ok f) ∧
    ∃ f, SafetensorsFile.open emptyTensorJson "model.safetensors" (.ok zeroFirstFile) = .ok f := by
  have hlast : (SafetensorsFile.open emptyTensorJson "model.safetensors" (.ok zeroLastFile)).isOk
      = false := by decide
  have hfirst : (SafetensorsFile.open emptyTensorJson "model.safetensors" (.ok zeroFirstFile)).isOk
      = true := by decide
  refine ⟨⟨_, zeroLast_exact⟩, ⟨_, zeroFirst_exact⟩, ?_, ?_⟩
  · rintro ⟨f, hf⟩
    rw [hf] at hlast
    cases hlast
  · cases h : SafetensorsFile.open emptyTensorJson "model.safetensors" (.ok zeroFirstFile) with
    | ok f => exact ⟨f, rfl⟩
    | error e =>
      rw [h] at hfirst
      cases hfirst

end Redline
