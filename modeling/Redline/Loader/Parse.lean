import Redline.Loader.Safetensors
import Mathlib.Algebra.BigOperators.Group.List.Basic
import Mathlib.Algebra.Order.BigOperators.Group.List
import Mathlib.Data.List.Forall2

/-!
# What the safetensors parser accepts

`TensorSpec` is what an entry of the header says; `Reads` finds it in the JSON, and `LegalEntry` is
what it has to satisfy.  `parseTensor_eq_ok`: an entry is accepted exactly when it reads as a legal
one, and its view is then the one it describes, with no wrap-around.

Names that occur twice are reported while they are watched (`watchKeys_spec`), all but the empty
one: `duplicate.empty()` also says that no duplicate was found.  And where the header is no object
the first name is not at the top level.  `parse_sound`: what comes back is sound, unless the header
repeats the empty name, or is an array that repeats another.
-/

namespace Redline

/-! ## the shape -/

/-- the product of dimensions, without wrap-around -/
def dimsProduct (dims : List UInt64) : Nat := (dims.map UInt64.toNat).prod

theorem dimsProduct_cons (d : UInt64) (dims : List UInt64) :
    dimsProduct (d :: dims) = d.toNat * dimsProduct dims := List.prod_cons

/-- dimensions that the parser takes: each fits in `int64`, and so does every partial product in
64 bits -/
structure ShapeLegal (dims : List UInt64) : Prop where
  dims_lt : ∀ d ∈ dims, d.toNat < 2 ^ 63
  partial_lt : ∀ n, dimsProduct (dims.take n) < 2 ^ 64

def unsignedNumber (n : UInt64) : JsonText := .num (.unsigned n)

section
variable {lib : JsonLibrary} {path : String}

theorem requireU64_eq_ok {v : JsonText} {tensor field : String} {n : UInt64} :
    requireU64 lib path v tensor field = .ok n ↔ v = unsignedNumber n := by
  unfold requireU64 unsignedNumber
  constructor
  · intro h
    split at h
    · cases h; rfl
    · cases h
  · rintro rfl
    rfl

/-- the overflow test, before the product is formed -/
theorem overflow_iff {elemCount dim : UInt64} :
    ¬ (dim ≠ 0 ∧ 18446744073709551615 / dim < elemCount) ↔ elemCount.toNat * dim.toNat < 2 ^ 64 := by
  have hmax : (18446744073709551615 / dim : UInt64).toNat = 18446744073709551615 / dim.toNat :=
    UInt64.toNat_div _ _
  by_cases h0 : dim = 0
  · subst h0
    simp
  · have hpos : 0 < dim.toNat := by
      apply Nat.pos_of_ne_zero
      intro h
      exact h0 (UInt64.toNat_inj.mp h)
    rw [UInt64.lt_iff_toNat_lt, hmax, not_and, not_lt]
    constructor
    · intro h
      have := (Nat.le_div_iff_mul_le hpos).mp (h h0)
      omega
    · intro h _
      apply (Nat.le_div_iff_mul_le hpos).mpr
      omega

theorem toNat_mul_of_lt {a b : UInt64} (h : a.toNat * b.toNat < 2 ^ 64) :
    (a * b).toNat = a.toNat * b.toNat := by
  rw [UInt64.toNat_mul]
  exact Nat.mod_eq_of_lt h

theorem readDim_eq_ok {name : String} {elemCount dim : UInt64} {v : JsonText} :
    readDim lib path name elemCount v = .ok dim ↔
      v = unsignedNumber dim ∧ dim.toNat < 2 ^ 63 ∧ elemCount.toNat * dim.toNat < 2 ^ 64 := by
  have hmax : ¬ 9223372036854775807 < dim ↔ dim.toNat < 2 ^ 63 := by
    have h63 : (9223372036854775807 : UInt64).toNat = 9223372036854775807 := rfl
    rw [UInt64.lt_iff_toNat_lt, h63]
    omega
  unfold readDim
  rw [Throw.bind_eq_ok]
  constructor
  · rintro ⟨d, hd, hcheck⟩
    obtain ⟨hgood, hok⟩ := Throw.ite_error_eq_ok.mp hcheck
    obtain rfl := Except.ok.inj hok
    rw [not_or, hmax, overflow_iff] at hgood
    exact ⟨requireU64_eq_ok.mp hd, hgood⟩
  · rintro ⟨hv, hgood⟩
    refine ⟨dim, requireU64_eq_ok.mpr hv, Throw.ite_error_eq_ok.mpr ⟨?_, rfl⟩⟩
    rw [not_or, hmax, overflow_iff]
    exact hgood

/-- **A shape is read** exactly when its numbers are legal, and its product is exact. -/
theorem readDims_eq_ok {name : String} : ∀ {dims : List JsonText} {elemCount : UInt64}
    {r : UInt64 × List Int64}, readDims lib path name elemCount dims = .ok r ↔
      ∃ ds : List UInt64, dims = ds.map unsignedNumber ∧ (∀ d ∈ ds, d.toNat < 2 ^ 63) ∧
        (∀ n, elemCount.toNat * dimsProduct (ds.take n) < 2 ^ 64) ∧
        r.1.toNat = elemCount.toNat * dimsProduct ds ∧ r.2 = ds.map UInt64.toInt64 := by
  intro dims
  induction dims with
  | nil =>
    intro elemCount r
    unfold readDims
    constructor
    · intro h
      cases h
      refine ⟨[], rfl, fun d hd => absurd hd List.not_mem_nil, fun n => ?_, ?_, rfl⟩
      · rw [List.take_nil]
        simpa [dimsProduct] using elemCount.toNat_lt
      · simp [dimsProduct]
    · rintro ⟨ds, hds, _, _, hprod, hshape⟩
      obtain rfl := List.map_eq_nil_iff.mp hds.symm
      have hcount : r.1 = elemCount := UInt64.toNat_inj.mp (by simpa [dimsProduct] using hprod)
      rw [← hcount]
      exact congrArg Except.ok (Prod.ext rfl hshape.symm)
  | cons v rest ih =>
    intro elemCount r
    unfold readDims
    rw [Throw.bind_eq_ok]
    constructor
    · rintro ⟨dim, hdim, hrest⟩
      obtain ⟨q, hq, hr⟩ := Throw.bind_eq_ok.mp hrest
      obtain ⟨rfl, hlt, hmul⟩ := readDim_eq_ok.mp hdim
      obtain ⟨ds, rfl, hdims, hpart, hprod, hshape⟩ := ih.mp hq
      rw [toNat_mul_of_lt hmul] at hpart hprod
      cases hr
      refine ⟨dim :: ds, rfl, List.forall_mem_cons.mpr ⟨hlt, hdims⟩, fun n => ?_, ?_, ?_⟩
      · cases n with
        | zero => simpa [dimsProduct] using elemCount.toNat_lt
        | succ n =>
          rw [List.take_succ_cons, dimsProduct_cons, ← Nat.mul_assoc]
          exact hpart n
      · rw [dimsProduct_cons, ← Nat.mul_assoc]
        exact hprod
      · rw [List.map_cons, ← hshape]
    · rintro ⟨ds, hds, hdims, hpart, hprod, hshape⟩
      cases ds with
      | nil => cases hds
      | cons dim ds =>
        obtain ⟨hv, hds⟩ := List.cons.inj hds
        obtain ⟨hlt, hdims⟩ := List.forall_mem_cons.mp hdims
        have hmul : elemCount.toNat * dim.toNat < 2 ^ 64 := by
          have := hpart 1
          rwa [List.take_succ_cons, List.take_zero, dimsProduct_cons, show dimsProduct [] = 1 from rfl,
            Nat.mul_one] at this
        rw [dimsProduct_cons, ← Nat.mul_assoc, ← toNat_mul_of_lt hmul] at hprod
        have hpart' : ∀ n, (elemCount * dim).toNat * dimsProduct (ds.take n) < 2 ^ 64 := by
          intro n
          have := hpart (n + 1)
          rwa [List.take_succ_cons, dimsProduct_cons, ← Nat.mul_assoc, ← toNat_mul_of_lt hmul] at this
        refine ⟨dim, readDim_eq_ok.mpr ⟨hv, hlt, hmul⟩, Throw.bind_eq_ok.mpr
          ⟨(r.1, ds.map UInt64.toInt64), ih.mpr ⟨ds, hds, hdims, hpart', hprod, rfl⟩, ?_⟩⟩
        exact congrArg Except.ok (Prod.ext rfl hshape.symm)

end

/-! ## one tensor -/

/-- what an entry of the header says -/
structure TensorSpec where
  dtype : Dtype
  dims : List UInt64
  first : UInt64
  last : UInt64

/-- the JSON of an entry; of a repeated field the last value counts -/
structure Reads (json : JsonText) (t : TensorSpec) : Prop where
  known : t.dtype ≠ .kUnknown
  fields : ∃ pairs name, json = .obj pairs ∧ findField pairs "dtype" = some (.str name) ∧
    dtypeFromString name = t.dtype ∧
    findField pairs "shape" = some (.arr (t.dims.map unsignedNumber)) ∧
    findField pairs "data_offsets" = some (.arr [unsignedNumber t.first, unsignedNumber t.last])

/-- an entry that fits a data section, with exact sizes -/
structure LegalEntry (t : TensorSpec) (dataSize : UInt64) : Prop where
  shape : ShapeLegal t.dims
  bounds : t.first.toNat ≤ t.last.toNat ∧ t.last.toNat ≤ dataSize.toNat
  span : t.last.toNat - t.first.toNat = dimsProduct t.dims * (dtypeSize t.dtype).toNat

/-- the view of an entry -/
def TensorSpec.view (t : TensorSpec) (dataSection : Nat) : TensorView :=
  { dtype := t.dtype
    shape := t.dims.map UInt64.toInt64
    data := dataSection + t.first.toNat
    nbytes := t.last - t.first }

section
variable {lib : JsonLibrary} {path name : String} {dataSection : Nat} {dataSize : UInt64}

theorem dtypeSize_pos {d : Dtype} (h : d ≠ .kUnknown) : 0 < (dtypeSize d).toNat := by
  cases d with
  | kUnknown => exact absurd rfl h
  | _ => decide

theorem entryFields_eq_ok {json dtype shape offsets : JsonText} :
    entryFields path name json = .ok (dtype, shape, offsets) ↔ ∃ pairs, json = .obj pairs ∧
      findField pairs "dtype" = some dtype ∧ findField pairs "shape" = some shape ∧
      findField pairs "data_offsets" = some offsets := by
  unfold entryFields
  constructor
  · intro h
    split at h
    next pairs =>
      split at h
      next d s o hd hs ho =>
        cases h
        exact ⟨pairs, rfl, hd, hs, ho⟩
      · cases h
    · cases h
  · rintro ⟨pairs, rfl, hd, hs, ho⟩
    simp only [hd, hs, ho]

theorem readDtype_eq_ok {json : JsonText} {dtype : Dtype} :
    readDtype path name json = .ok dtype ↔
      dtype ≠ .kUnknown ∧ ∃ s, json = .str s ∧ dtypeFromString s = dtype := by
  unfold readDtype
  constructor
  · intro h
    split at h
    next s =>
      obtain ⟨hknown, hok⟩ := Throw.ite_error_eq_ok.mp h
      cases hok
      exact ⟨hknown, s, rfl, rfl⟩
    · cases h
  · rintro ⟨hknown, s, rfl, rfl⟩
    exact Throw.ite_error_eq_ok.mpr ⟨hknown, rfl⟩

theorem readShape_eq_ok {json : JsonText} {r : UInt64 × List Int64} :
    readShape lib path name json = .ok r ↔ ∃ ds : List UInt64,
      json = .arr (ds.map unsignedNumber) ∧ ShapeLegal ds ∧ r.1.toNat = dimsProduct ds ∧
      r.2 = ds.map UInt64.toInt64 := by
  have hone : (1 : UInt64).toNat = 1 := rfl
  unfold readShape
  constructor
  · intro h
    split at h
    next dims =>
      obtain ⟨ds, rfl, hdims, hpart, hprod, hshape⟩ := readDims_eq_ok.mp h
      simp only [hone, Nat.one_mul] at hpart hprod
      exact ⟨ds, rfl, ⟨hdims, hpart⟩, hprod, hshape⟩
    · cases h
  · rintro ⟨ds, rfl, ⟨hdims, hpart⟩, hprod, hshape⟩
    refine readDims_eq_ok.mpr ⟨ds, rfl, hdims, fun n => ?_, ?_, hshape⟩
    · rw [hone, Nat.one_mul]
      exact hpart n
    · rw [hone, Nat.one_mul]
      exact hprod

theorem readOffsets_eq_ok {json : JsonText} {first last : UInt64} :
    readOffsets lib path name json = .ok (first, last) ↔
      json = .arr [unsignedNumber first, unsignedNumber last] := by
  unfold readOffsets
  constructor
  · intro h
    split at h
    next b c =>
      obtain ⟨first', hf, h⟩ := Throw.bind_eq_ok.mp h
      obtain ⟨last', hl, h⟩ := Throw.bind_eq_ok.mp h
      cases h
      rw [requireU64_eq_ok.mp hf, requireU64_eq_ok.mp hl]
    · cases h
  · rintro rfl
    exact Throw.bind_eq_ok.mpr ⟨first, rfl, Throw.bind_eq_ok.mpr ⟨last, rfl, rfl⟩⟩

/-- the span of an entry is checked without wrap-around -/
theorem checkSpan_eq_ok {dtype : Dtype} (hd : dtype ≠ .kUnknown) {count first last : UInt64}
    {u : Unit} :
    checkSpan path name dtype count dataSize first last = .ok u ↔
      (first.toNat ≤ last.toNat ∧ last.toNat ≤ dataSize.toNat) ∧
      last.toNat - first.toNat = count.toNat * (dtypeSize dtype).toNat := by
  have hne : dtypeSize dtype ≠ 0 := fun h => by
    have := dtypeSize_pos hd
    rw [h] at this
    exact absurd this (by decide)
  have hover : ¬ 18446744073709551615 / dtypeSize dtype < count ↔
      count.toNat * (dtypeSize dtype).toNat < 2 ^ 64 := by
    rw [← overflow_iff, not_and]
    exact ⟨fun h _ => h, fun h => h hne⟩
  have hsub : first.toNat ≤ last.toNat → (last - first).toNat = last.toNat - first.toNat := fun h =>
    UInt64.toNat_sub_of_le last first (UInt64.le_iff_toNat_le.mpr h)
  have hbounds : ¬ (last < first ∨ dataSize < last) ↔
      first.toNat ≤ last.toNat ∧ last.toNat ≤ dataSize.toNat := by
    rw [not_or, UInt64.not_lt, UInt64.not_lt, UInt64.le_iff_toNat_le, UInt64.le_iff_toNat_le]
  have hlast := last.toNat_lt
  unfold checkSpan
  unfold tensorError fail
  rw [Throw.ite_error_eq_ok, Throw.ite_error_eq_ok, Throw.ite_error_eq_ok, hbounds, hover, not_not]
  constructor
  · rintro ⟨hb, hfit, hspan, _⟩
    refine ⟨hb, ?_⟩
    rw [← hsub hb.1, ← toNat_mul_of_lt hfit, hspan]
  · rintro ⟨hb, hspan⟩
    have hfit : count.toNat * (dtypeSize dtype).toNat < 2 ^ 64 := by omega
    refine ⟨hb, hfit, UInt64.toNat_inj.mp ?_, rfl⟩
    rw [hsub hb.1, toNat_mul_of_lt hfit]
    exact hspan

/-- **An entry is accepted** exactly when it reads as a legal one; its view is then exact. -/
theorem parseTensor_eq_ok {json : JsonText} {view : TensorView} :
    parseTensor lib path dataSection dataSize name json = .ok view ↔
      ∃ t, Reads json t ∧ LegalEntry t dataSize ∧ view = t.view dataSection := by
  unfold parseTensor
  constructor
  · intro h
    obtain ⟨⟨d, s, o⟩, hfields, h1⟩ := Throw.bind_eq_ok.mp h
    obtain ⟨dtype, hdtype, h2⟩ := Throw.bind_eq_ok.mp h1
    obtain ⟨⟨count, shape⟩, hshape, h3⟩ := Throw.bind_eq_ok.mp h2
    obtain ⟨⟨first, last⟩, hoffsets, h4⟩ := Throw.bind_eq_ok.mp h3
    obtain ⟨u, hspan, hview⟩ := Throw.bind_eq_ok.mp h4
    obtain ⟨pairs, rfl, hd, hs, ho⟩ := entryFields_eq_ok.mp hfields
    obtain ⟨hknown, str, rfl, hstr⟩ := readDtype_eq_ok.mp hdtype
    obtain ⟨ds, rfl, hlegal, hcount, rfl⟩ := readShape_eq_ok.mp hshape
    obtain rfl := readOffsets_eq_ok.mp hoffsets
    obtain ⟨hbounds, hsize⟩ := (checkSpan_eq_ok hknown).mp hspan
    refine ⟨⟨dtype, ds, first, last⟩, ⟨hknown, pairs, str, rfl, hd, hstr, hs, ho⟩,
      ⟨hlegal, hbounds, ?_⟩, (Except.ok.inj hview).symm⟩
    rw [← hcount]
    exact hsize
  · rintro ⟨t, ⟨hknown, pairs, str, rfl, hd, hstr, hs, ho⟩, ⟨hlegal, hbounds, hspan⟩, rfl⟩
    have hfits : dimsProduct t.dims < 2 ^ 64 := by
      have := hlegal.partial_lt t.dims.length
      rwa [List.take_length] at this
    have hcount : (UInt64.ofNat (dimsProduct t.dims)).toNat = dimsProduct t.dims :=
      UInt64.toNat_ofNat_of_lt hfits
    refine Throw.bind_eq_ok.mpr ⟨_, entryFields_eq_ok.mpr ⟨pairs, rfl, hd, hs, ho⟩, ?_⟩
    refine Throw.bind_eq_ok.mpr ⟨t.dtype, readDtype_eq_ok.mpr ⟨hknown, str, rfl, hstr⟩, ?_⟩
    refine Throw.bind_eq_ok.mpr ⟨(UInt64.ofNat (dimsProduct t.dims), t.dims.map UInt64.toInt64),
      readShape_eq_ok.mpr ⟨t.dims, rfl, hlegal, hcount, rfl⟩, ?_⟩
    refine Throw.bind_eq_ok.mpr ⟨(t.first, t.last), readOffsets_eq_ok.mpr rfl, ?_⟩
    refine Throw.bind_eq_ok.mpr ⟨(), (checkSpan_eq_ok hknown).mpr ⟨hbounds, ?_⟩, rfl⟩
    rw [hcount]
    exact hspan

/-- **The entries** are accepted when each of them is; their views stand under their names. -/
theorem parseEntries_eq_ok {entries : List (String × JsonText)} :
    ∀ {views : List (String × TensorView)},
    parseEntries lib path dataSection dataSize entries = .ok views ↔
      List.Forall₂ (fun p v => v.1 = p.1 ∧ ∃ t, Reads p.2 t ∧ LegalEntry t dataSize ∧
        v.2 = t.view dataSection) (entries.filter fun p => decide (p.1 ≠ metadataName)) views := by
  induction entries with
  | nil =>
    intro views
    unfold parseEntries
    rw [List.filter_nil, List.forall₂_nil_left_iff]
    exact ⟨fun h => (Except.ok.inj h).symm, fun h => congrArg _ h.symm⟩
  | cons p entries ih =>
    intro views
    obtain ⟨name, json⟩ := p
    unfold parseEntries
    by_cases hm : name = metadataName
    · rw [if_pos hm, List.filter_cons_of_neg (by simpa using hm)]
      exact ih
    · rw [if_neg hm, List.filter_cons_of_pos (by simpa using hm), List.forall₂_cons_left_iff]
      rw [Throw.bind_eq_ok]
      constructor
      · rintro ⟨view, hp, h⟩
        obtain ⟨rest, hr, h⟩ := Throw.bind_eq_ok.mp h
        exact ⟨(name, view), rest, ⟨rfl, parseTensor_eq_ok.mp hp⟩, ih.mp hr, (Except.ok.inj h).symm⟩
      · rintro ⟨⟨name', view⟩, rest, ⟨hname, ht⟩, hrest, rfl⟩
        obtain rfl : name' = name := hname
        exact ⟨view, parseTensor_eq_ok.mpr ht, Throw.bind_eq_ok.mpr ⟨rest, ih.mpr hrest, rfl⟩⟩

end

/-! ## the watch -/

/-- the names that the watch compares: the ones at the depth of the first -/
def watchedNames (events : List (Nat × String)) : List String :=
  match Json.firstDepth events with
  | none => []
  | some d => Json.namesAt d events

theorem watchedNames_obj {ν : Type} (d : Nat) (pairs : List (String × Json ν)) :
    watchedNames (Json.keyEvents d (.obj pairs)) = pairs.map Prod.fst := by
  unfold watchedNames
  cases pairs with
  | nil => rfl
  | cons p ps =>
    rw [Json.firstDepth_obj d (List.cons_ne_nil _ _)]
    exact Json.keyEvents_obj d _

/-- what the watch knows after the names `names` -/
structure Watched (w : KeyWatch) (names : List String) : Prop where
  seen : ∀ k, k ∈ w.seen ↔ k ∈ names
  silent : w.duplicate = "" ↔ ∀ k, k ≠ "" → names.count k ≤ 1
  honest : w.duplicate ≠ "" → 2 ≤ names.count w.duplicate

theorem Watched.empty : Watched {} [] :=
  ⟨fun _ => Iff.rfl, ⟨fun _ _ _ => Nat.zero_le _, fun _ => rfl⟩, fun h => absurd rfl h⟩

/-- an event, once the depth is known -/
theorem watchKeys_of_depth {w : KeyWatch} {d : Nat} (hd : w.rootKeyDepth = d) (d' : Nat) (k : String) :
    watchKeys w (d', k) = if d' = d then
      (if k ∈ w.seen then (if w.duplicate = "" then { w with duplicate := k } else w)
        else { w with seen := k :: w.seen })
      else w := by
  have hnot : ¬ w.rootKeyDepth < 0 := by omega
  have hiff : ((d' : Int) = w.rootKeyDepth) = (d' = d) := by
    rw [hd]
    exact propext ⟨fun h => by omega, fun h => by omega⟩
  unfold watchKeys
  simp only [if_neg hnot, hiff]

/-- a name at the watched depth -/
theorem Watched.name {w : KeyWatch} {names : List String} (h : Watched w names) {d : Nat}
    (hd : w.rootKeyDepth = d) (k : String) :
    Watched (watchKeys w (d, k)) (names ++ [k]) ∧ (watchKeys w (d, k)).rootKeyDepth = d := by
  have hcount : ∀ k', (names ++ [k]).count k' = names.count k' + if k = k' then 1 else 0 := by
    intro k'
    rw [List.count_append, List.count_singleton]
    simp only [beq_iff_eq]
  have hmem : ∀ k', k' ∈ names ++ [k] ↔ k' = k ∨ k' ∈ names := by
    intro k'
    rw [List.mem_append, List.mem_singleton, or_comm]
  rw [watchKeys_of_depth hd, if_pos rfl]
  by_cases hs : k ∈ w.seen
  · have hin : k ∈ names := (h.seen k).mp hs
    have hpos : 1 ≤ names.count k := List.count_pos_iff.mpr hin
    have hseen : ∀ k', k' ∈ w.seen ↔ k' ∈ names ++ [k] := by
      intro k'
      rw [hmem, h.seen]
      exact ⟨Or.inr, fun h => h.elim (fun h => h ▸ hin) id⟩
    rw [if_pos hs]
    by_cases he : w.duplicate = ""
    · rw [if_pos he]
      refine ⟨⟨hseen, ?_, fun _ => ?_⟩, hd⟩
      · show k = "" ↔ _
        constructor
        · rintro rfl k' hk'
          rw [hcount, if_neg fun e => hk' e.symm]
          exact h.silent.mp he k' hk'
        · intro hall
          by_contra hk
          have := hall k hk
          rw [hcount, if_pos rfl] at this
          omega
      · show 2 ≤ (names ++ [k]).count k
        rw [hcount, if_pos rfl]
        omega
    · rw [if_neg he]
      have htwo := h.honest he
      refine ⟨⟨hseen, ⟨fun h0 => absurd h0 he, fun hall => ?_⟩, fun _ => ?_⟩, hd⟩
      · have := hall _ he
        rw [hcount] at this
        omega
      · rw [hcount]
        omega
  · have hnot : k ∉ names := fun hin => hs ((h.seen k).mpr hin)
    have hzero : names.count k = 0 := List.count_eq_zero.mpr hnot
    rw [if_neg hs]
    refine ⟨⟨fun k' => ?_, ?_, fun he => ?_⟩, hd⟩
    · show k' ∈ k :: w.seen ↔ _
      rw [List.mem_cons, hmem, h.seen]
    · show w.duplicate = "" ↔ _
      rw [h.silent]
      refine forall_congr' fun k' => forall_congr' fun _ => ?_
      rw [hcount]
      by_cases hk : k = k'
      · subst hk
        rw [hzero, if_pos rfl]
        omega
      · rw [if_neg hk]
        omega
    · show 2 ≤ (names ++ [k]).count w.duplicate
      have := h.honest he
      rw [hcount]
      omega

/-- the rest of the events, once the depth is known -/
theorem Watched.fold {d : Nat} (events : List (Nat × String)) : ∀ {w : KeyWatch} {names : List String},
    Watched w names → w.rootKeyDepth = d →
    Watched (events.foldl watchKeys w) (names ++ Json.namesAt d events) := by
  induction events with
  | nil =>
    intro w names h _
    rw [show Json.namesAt d [] = [] from rfl, List.append_nil]
    exact h
  | cons e events ih =>
    intro w names h hd
    obtain ⟨d', k⟩ := e
    rw [List.foldl_cons]
    by_cases hdd : d' = d
    · subst hdd
      obtain ⟨h1, hd1⟩ := h.name hd k
      have hnames : Json.namesAt d' ((d', k) :: events) = [k] ++ Json.namesAt d' events := by
        simp [Json.namesAt]
      rw [hnames, ← List.append_assoc]
      exact ih h1 hd1
    · have hskip : watchKeys w (d', k) = w := by
        rw [watchKeys_of_depth hd, if_neg hdd]
      have hnames : Json.namesAt d ((d', k) :: events) = Json.namesAt d events := by
        simp [Json.namesAt, hdd]
      rw [hskip, hnames]
      exact ih h hd

/-- **The watch** finds a name that occurs twice at the depth of the first, unless it is empty. -/
theorem watchKeys_spec (events : List (Nat × String)) :
    Watched (events.foldl watchKeys {}) (watchedNames events) := by
  cases events with
  | nil => exact Watched.empty
  | cons e events =>
    obtain ⟨d, k⟩ := e
    -- the first event sets the depth
    have hfirst : ((d, k) :: events).foldl watchKeys {}
        = ((d, k) :: events).foldl watchKeys { rootKeyDepth := d } := by
      rw [List.foldl_cons, List.foldl_cons]
      congr 1
    have hempty : Watched { rootKeyDepth := d } [] :=
      ⟨fun _ => Iff.rfl, ⟨fun _ _ _ => Nat.zero_le _, fun _ => rfl⟩, fun h => absurd rfl h⟩
    rw [hfirst]
    have := hempty.fold (d := d) ((d, k) :: events) rfl
    rwa [List.nil_append] at this

/-! ## which errors are duplicates -/

/-- an error of the entries, which never report a duplicate -/
def EntryError (e : SafetensorsError) : Prop := e.kind ≠ .kDuplicateName

section
variable {lib : JsonLibrary} {path name : String} {dataSection : Nat} {dataSize : UInt64}
open Throw

theorem throws_tensorError {α : Type} {kind : SafetensorsErrorKind} (h : kind ≠ .kDuplicateName)
    (what : String) : Throws EntryError (tensorError path kind name what : Except _ α) :=
  throws_error h

theorem throws_requireU64 (v : JsonText) (tensor field : String) :
    Throws EntryError (requireU64 lib path v tensor field) := by
  unfold requireU64
  split
  · exact throws_ok _
  · exact throws_tensorError (by decide) _

theorem throws_readDims (dims : List JsonText) : ∀ elemCount : UInt64,
    Throws EntryError (readDims lib path name elemCount dims) := by
  induction dims with
  | nil => exact fun elemCount => throws_ok _
  | cons v rest ih =>
    intro elemCount
    refine Throws.bind ?_ fun dim => (ih _).bind fun r => throws_ok _
    exact (throws_requireU64 v _ _).bind fun dim =>
      throws_ite (throws_tensorError (by decide) _) (throws_ok _)

theorem throws_parseTensor (json : JsonText) :
    Throws EntryError (parseTensor lib path dataSection dataSize name json) := by
  have hmalformed : ∀ {α : Type} what, Throws EntryError
      (tensorError path .kMalformedHeader name what : Except _ α) :=
    fun what => throws_tensorError (by decide) what
  refine Throws.bind ?_ fun fields => Throws.bind ?_ fun dtype => Throws.bind ?_ fun counted =>
    Throws.bind ?_ fun offsets => Throws.bind ?_ fun _ => throws_ok _
  · unfold entryFields
    split
    · split
      · exact throws_ok _
      · exact hmalformed _
    · exact hmalformed _
  · unfold readDtype
    split
    · exact throws_ite (throws_tensorError (by decide) _) (throws_ok _)
    · exact hmalformed _
  · unfold readShape
    split
    · exact throws_readDims _ _
    · exact hmalformed _
  · unfold readOffsets
    split
    · exact (throws_requireU64 _ _ _).bind fun _ => (throws_requireU64 _ _ _).bind fun _ => throws_ok _
    · exact hmalformed _
  · exact throws_ite (throws_tensorError (by decide) _) <| throws_ite (hmalformed _) <|
      throws_ite (hmalformed _) (throws_ok _)

theorem throws_parseEntries (entries : List (String × JsonText)) :
    Throws EntryError (parseEntries lib path dataSection dataSize entries) := by
  induction entries with
  | nil => exact throws_ok _
  | cons p entries ih =>
    exact throws_ite ih <| (throws_parseTensor _).bind fun _ => ih.bind fun _ => throws_ok _

end

end Redline
