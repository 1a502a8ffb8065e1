import Redline.Loader.Open

/-!
# Sharded checkpoints

`SafetensorsModel::OpenIndex`: the index names a shard file for each tensor.  Each distinct shard
name is opened once, in the order of the names, the tensors of all shards are merged into one map,
and each entry of the index is looked up in the shard it names.

* `openIndex_eq_ok`   which indices are accepted, and what comes back;
* `index_resolution`  the merged map is the disjoint union of the tensors of the shards, each entry
                      of the index leads to the view of the shard it names, and an index that names
                      a tensor twice over, or in the wrong shard, or with no string, is refused.
-/

namespace Redline

/-- what the operating system and the path library give -/
structure FileSystem where
  read : String → Option (List UInt8)
  /-- `open`, `fstat` and `mmap` -/
  map : String → Except String MappedFile
  /-- the path of a shard file, from the path of the index and the name of the shard -/
  relative : String → String → String

/-- a view into the mapping of a shard -/
structure ShardView where
  shard : Nat
  view : TensorView
  deriving DecidableEq

structure ShardedModel where
  shards : List SafetensorsFile
  merged : List (String × ShardView)

def SafetensorsFile.contains (file : SafetensorsFile) (name : String) : Bool :=
  decide (name ∈ file.tensors.map Prod.fst)

def ShardedModel.tensor (model : ShardedModel) (name : String) : Except SafetensorsError ShardView :=
  match model.merged.find? fun p => p.1 = name with
  | some p => .ok p.2
  | none => fail .kMissingTensor ("model: missing tensor: " ++ name)

section
variable (lib : JsonLibrary) (fs : FileSystem) (path : String)

/-- the shard names of the entries, which must be strings -/
def shardNames : List (String × JsonText) → Except SafetensorsError (List String)
  | [] => .ok []
  | (_, .str shard) :: rest => do
    let names ← shardNames rest
    .ok (shard :: names)
  | (name, _) :: _ => fail .kMalformedIndex
      (path ++ ": weight_map entry '" ++ name ++ "' must name a shard file (string)")

/-- the distinct names in the order of a `std::map` -/
def shardSlots (names : List String) : List String :=
  (OrderedMap.ofPairs (names.map fun name => (name, ()))).keys

def openShards : List String → Except SafetensorsError (List SafetensorsFile)
  | [] => .ok []
  | name :: rest => do
    let file ← SafetensorsFile.open lib (fs.relative path name) (fs.map (fs.relative path name))
    let files ← openShards rest
    .ok (file :: files)

/-- the tensors of shard `i` into the merged map; the order within a shard does not matter -/
def mergeTensors (i : Nat) (shard : SafetensorsFile) (merged : List (String × ShardView)) :
    List (String × TensorView) → Except SafetensorsError (List (String × ShardView))
  | [] => .ok merged
  | (name, view) :: rest =>
    if name ∈ merged.map Prod.fst then
      fail .kDuplicateName (path ++ ": tensor '" ++ name ++ "' appears in more than one shard (" ++
        shard.path ++ " and an earlier shard)")
    else mergeTensors i shard (merged ++ [(name, ⟨i, view⟩)]) rest

/-- the shards from number `i` on -/
def mergeShards (i : Nat) (merged : List (String × ShardView)) :
    List SafetensorsFile → Except SafetensorsError (List (String × ShardView))
  | [] => .ok merged
  | shard :: rest => do
    let merged ← mergeTensors path i shard merged shard.tensors
    mergeShards (i + 1) merged rest

/-- each entry against the shard it names -/
def checkEntries (slots : List String) (shards : List SafetensorsFile) :
    List (String × JsonText) → Except SafetensorsError Unit
  | [] => .ok ()
  | (name, .str shard) :: rest =>
    match shards[slots.idxOf shard]? with
    | some file =>
      if file.contains name then checkEntries slots shards rest
      else fail .kMissingTensor (path ++ ": weight_map names tensor '" ++ name ++ "' in " ++
        file.path ++ " but the shard does not contain it")
    | none => checkEntries slots shards rest  -- not reached: every shard name has its slot
  | _ :: rest => checkEntries slots shards rest

def openIndex : Except SafetensorsError ShardedModel :=
  match fs.read path with
  | none => fail .kIo ("cannot open " ++ path)
  | some text =>
    match lib.parse text with
    | .error what => fail .kMalformedIndex (path ++ ": not valid JSON: " ++ what)
    | .ok (.obj index) =>
      match findField index "weight_map" with
      | some (.obj weightMap) => do
        let entries := (OrderedMap.ofPairs weightMap).entries
        let names ← shardNames path entries
        let slots := shardSlots names
        let shards ← openShards lib fs path slots
        let merged ← mergeShards path 0 [] shards
        checkEntries path slots shards entries
        .ok { shards, merged }
      | _ => fail .kMalformedIndex (path ++ ": expected an object with a 'weight_map' object")
    | .ok _ => fail .kMalformedIndex (path ++ ": expected an object with a 'weight_map' object")

end

/-! ## the parts -/

section
variable {lib : JsonLibrary} {fs : FileSystem} {path : String}

/-- the entries of the `weight_map` of a parsed index -/
def IndexEntries (lib : JsonLibrary) (fs : FileSystem) (path : String)
    (entries : List (String × JsonText)) : Prop :=
  ∃ text index weightMap, fs.read path = some text ∧ lib.parse text = .ok (.obj index) ∧
    findField index "weight_map" = some (.obj weightMap) ∧
    entries = (OrderedMap.ofPairs weightMap).entries

theorem IndexEntries.unique {entries entries' : List (String × JsonText)}
    (h : IndexEntries lib fs path entries) (h' : IndexEntries lib fs path entries') :
    entries = entries' := by
  obtain ⟨text, index, weightMap, htext, hindex, hmap, rfl⟩ := h
  obtain ⟨text', index', weightMap', htext', hindex', hmap', rfl⟩ := h'
  obtain rfl := Option.some.inj (htext.symm.trans htext')
  obtain rfl := Json.obj.inj (Except.ok.inj (hindex.symm.trans hindex'))
  obtain rfl := Json.obj.inj (Option.some.inj (hmap.symm.trans hmap'))
  rfl

/-- a shard file as it was opened -/
def Opened (lib : JsonLibrary) (fs : FileSystem) (path name : String) (file : SafetensorsFile) : Prop :=
  SafetensorsFile.open lib (fs.relative path name) (fs.map (fs.relative path name)) = .ok file

/-- the tensors of the shards from number `i` on, each with its shard -/
def shardTensors (i : Nat) (shards : List SafetensorsFile) : List (String × ShardView) :=
  (shards.zipIdx i).flatMap fun p => p.1.tensors.map fun t => (t.1, ⟨p.2, t.2⟩)

theorem shardTensors_cons (i : Nat) (shard : SafetensorsFile) (shards : List SafetensorsFile) :
    shardTensors i (shard :: shards)
      = (shard.tensors.map fun t => (t.1, ⟨i, t.2⟩)) ++ shardTensors (i + 1) shards := rfl

theorem shardNames_eq_ok {entries : List (String × JsonText)} : ∀ {names : List String},
    shardNames path entries = .ok names ↔ entries.map Prod.snd = names.map .str := by
  induction entries with
  | nil =>
    intro names
    constructor
    · intro h
      obtain rfl := Except.ok.inj h
      rfl
    · intro h
      obtain rfl := List.map_eq_nil_iff.mp h.symm
      rfl
  | cons p entries ih =>
    intro names
    obtain ⟨name, json⟩ := p
    cases json with
    | str shard =>
      unfold shardNames
      rw [Throw.bind_eq_ok]
      constructor
      · rintro ⟨rest, hrest, h⟩
        obtain rfl := Except.ok.inj h
        rw [List.map_cons, List.map_cons, ih.mp hrest]
      · intro h
        cases names with
        | nil => cases h
        | cons s names =>
          obtain ⟨hs, hrest⟩ := List.cons.inj h
          obtain rfl := Json.str.inj hs
          exact ⟨names, ih.mpr hrest, rfl⟩
    | _ =>
      refine ⟨fun h => (by cases h), fun h => ?_⟩
      cases names with
      | nil => cases h
      | cons s names => cases (List.cons.inj h).1

theorem openShards_eq_ok {names : List String} : ∀ {files : List SafetensorsFile},
    openShards lib fs path names = .ok files ↔ List.Forall₂ (Opened lib fs path) names files := by
  induction names with
  | nil =>
    intro files
    exact ⟨fun h => Except.ok.inj h ▸ .nil, fun h => (by cases h; rfl)⟩
  | cons name names ih =>
    intro files
    unfold openShards
    rw [Throw.bind_eq_ok]
    constructor
    · rintro ⟨file, hfile, h⟩
      obtain ⟨rest, hrest, h⟩ := Throw.bind_eq_ok.mp h
      obtain rfl := Except.ok.inj h
      exact .cons hfile (ih.mp hrest)
    · intro h
      cases h with
      | cons hfile hrest =>
        exact ⟨_, hfile, Throw.bind_eq_ok.mpr ⟨_, ih.mpr hrest, rfl⟩⟩

/-- a shard is merged when none of its names is there yet -/
theorem mergeTensors_eq_ok {i : Nat} {shard : SafetensorsFile}
    {tensors : List (String × TensorView)} : ∀ {merged out : List (String × ShardView)},
    (merged.map Prod.fst).Nodup →
    (mergeTensors path i shard merged tensors = .ok out ↔
      out = merged ++ tensors.map (fun t => (t.1, ⟨i, t.2⟩)) ∧ (out.map Prod.fst).Nodup) := by
  induction tensors with
  | nil =>
    intro merged out hmerged
    rw [List.map_nil, List.append_nil]
    constructor
    · intro h
      obtain rfl := Except.ok.inj h
      exact ⟨rfl, hmerged⟩
    · rintro ⟨rfl, _⟩
      rfl
  | cons t tensors ih =>
    intro merged out hmerged
    unfold mergeTensors fail
    rw [Throw.ite_error_eq_ok]
    have hsnoc : t.1 ∉ merged.map Prod.fst →
        ((merged ++ [(t.1, (⟨i, t.2⟩ : ShardView))]).map Prod.fst).Nodup := by
      intro hnew
      rw [List.map_append]
      exact hmerged.append (List.nodup_singleton _) (by simpa using hnew)
    have hout : merged ++ (t :: tensors).map (fun t => (t.1, (⟨i, t.2⟩ : ShardView)))
        = merged ++ [(t.1, ⟨i, t.2⟩)] ++ tensors.map fun t => (t.1, ⟨i, t.2⟩) := by
      rw [List.append_assoc]
      rfl
    rw [hout]
    constructor
    · rintro ⟨hnew, h⟩
      exact (ih (hsnoc hnew)).mp h
    · rintro ⟨rfl, hnodup⟩
      have hnew : t.1 ∉ merged.map Prod.fst := by
        intro hmem
        rw [List.map_append, List.map_append] at hnodup
        have := (List.nodup_append.mp (List.nodup_append.mp hnodup).1).2.2
        exact this t.1 hmem t.1 (List.mem_singleton.mpr rfl) rfl
      exact ⟨hnew, (ih (hsnoc hnew)).mpr ⟨rfl, hnodup⟩⟩

theorem mergeShards_eq_ok {shards : List SafetensorsFile} :
    ∀ {i : Nat} {merged out : List (String × ShardView)}, (merged.map Prod.fst).Nodup →
    (mergeShards path i merged shards = .ok out ↔
      out = merged ++ shardTensors i shards ∧ (out.map Prod.fst).Nodup) := by
  induction shards with
  | nil =>
    intro i merged out hmerged
    show Except.ok merged = Except.ok out ↔ out = merged ++ [] ∧ _
    rw [List.append_nil]
    constructor
    · intro h
      obtain rfl := Except.ok.inj h
      exact ⟨rfl, hmerged⟩
    · rintro ⟨rfl, _⟩
      rfl
  | cons shard shards ih =>
    intro i merged out hmerged
    unfold mergeShards
    rw [Throw.bind_eq_ok, shardTensors_cons, ← List.append_assoc]
    constructor
    · rintro ⟨middle, hmiddle, h⟩
      obtain ⟨rfl, hnodup⟩ := (mergeTensors_eq_ok hmerged).mp hmiddle
      exact (ih hnodup).mp h
    · rintro ⟨rfl, hnodup⟩
      have hmiddle : ((merged ++ shard.tensors.map fun t => (t.1, (⟨i, t.2⟩ : ShardView))).map
          Prod.fst).Nodup := by
        rw [List.map_append] at hnodup
        exact (List.nodup_append.mp hnodup).1
      exact ⟨_, (mergeTensors_eq_ok hmerged).mpr ⟨rfl, hmiddle⟩, (ih hmiddle).mpr ⟨rfl, hnodup⟩⟩

theorem checkEntries_eq_ok {slots : List String} {shards : List SafetensorsFile}
    {entries : List (String × JsonText)} {u : Unit} : checkEntries path slots shards entries = .ok u ↔
      ∀ p ∈ entries, ∀ s file, p.2 = .str s → shards[slots.idxOf s]? = some file →
        p.1 ∈ file.tensors.map Prod.fst := by
  induction entries with
  | nil => exact iff_of_true rfl nofun
  | cons p entries ih =>
    obtain ⟨name, json⟩ := p
    rw [List.forall_mem_cons, ← ih]
    cases json with
    | str shard =>
      conv_lhs => unfold checkEntries
      cases hfile : shards[slots.idxOf shard]? with
      | none =>
        refine (and_iff_right fun s file hs hget => ?_).symm
        obtain rfl := Json.str.inj hs
        rw [hfile] at hget
        cases hget
      | some file =>
        have hhead : (∀ s f, (Json.str shard : JsonText) = .str s → shards[slots.idxOf s]? = some f →
            name ∈ f.tensors.map Prod.fst) ↔ file.contains name = true := by
          unfold SafetensorsFile.contains
          rw [decide_eq_true_iff]
          constructor
          · exact fun h => h shard file rfl hfile
          · intro h s f hs hget
            obtain rfl := Json.str.inj hs
            rw [hfile] at hget
            obtain rfl := Option.some.inj hget
            exact h
        rw [hhead]
        dsimp only
        by_cases hc : file.contains name = true
        · rw [if_pos hc, and_iff_right hc]
        · rw [if_neg hc]
          exact iff_of_false (fun h => (by cases h)) fun h => hc h.1
    | _ => exact (and_iff_right fun s file hs _ => (by cases hs)).symm

/-- **The accepted indices.** -/
theorem openIndex_eq_ok {model : ShardedModel} : openIndex lib fs path = .ok model ↔
    ∃ entries names, IndexEntries lib fs path entries ∧ entries.map Prod.snd = names.map .str ∧
      List.Forall₂ (Opened lib fs path) (shardSlots names) model.shards ∧
      model.merged = shardTensors 0 model.shards ∧ (model.merged.map Prod.fst).Nodup ∧
      ∀ p ∈ entries, ∀ s file, p.2 = .str s → model.shards[(shardSlots names).idxOf s]? = some file →
        p.1 ∈ file.tensors.map Prod.fst := by
  have hnone : (([] : List (String × ShardView)).map Prod.fst).Nodup := List.nodup_nil
  unfold openIndex
  constructor
  · intro h
    split at h
    · cases h
    next text htext =>
      split at h
      · cases h
      next index hindex =>
        split at h
        next weightMap hmap =>
          obtain ⟨names, hnames, h⟩ := Throw.bind_eq_ok.mp h
          obtain ⟨shards, hshards, h⟩ := Throw.bind_eq_ok.mp h
          obtain ⟨merged, hmerged, h⟩ := Throw.bind_eq_ok.mp h
          obtain ⟨u, hcheck, h⟩ := Throw.bind_eq_ok.mp h
          obtain rfl := Except.ok.inj h
          obtain ⟨hunion, hnodup⟩ := (mergeShards_eq_ok hnone).mp hmerged
          exact ⟨_, names, ⟨text, index, weightMap, htext, hindex, hmap, rfl⟩,
            shardNames_eq_ok.mp hnames, openShards_eq_ok.mp hshards, hunion, hnodup,
            checkEntries_eq_ok.mp hcheck⟩
        · cases h
      · cases h
  · rintro ⟨entries, names, ⟨text, index, weightMap, htext, hindex, hmap, rfl⟩, hnames, hshards,
      hunion, hnodup, hcheck⟩
    simp only [htext, hindex, hmap]
    refine Throw.bind_eq_ok.mpr ⟨names, shardNames_eq_ok.mpr hnames, ?_⟩
    refine Throw.bind_eq_ok.mpr ⟨model.shards, openShards_eq_ok.mpr hshards, ?_⟩
    refine Throw.bind_eq_ok.mpr
      ⟨model.merged, (mergeShards_eq_ok hnone).mpr ⟨hunion, hnodup⟩, ?_⟩
    exact Throw.bind_eq_ok.mpr ⟨(), checkEntries_eq_ok.mpr hcheck, rfl⟩

/-! ## resolution -/

theorem mem_shardSlots {names : List String} {s : String} : s ∈ shardSlots names ↔ s ∈ names := by
  unfold shardSlots
  rw [OrderedMap.keys_ofPairs, List.map_map]
  show s ∈ names.map id ↔ _
  rw [List.map_id]

theorem nodup_shardSlots (names : List String) : (shardSlots names).Nodup := OrderedMap.nodup_keys _

/-- which shard a merged tensor comes from -/
theorem mem_shardTensors {shards : List SafetensorsFile} {p : String × ShardView} :
    p ∈ shardTensors 0 shards ↔ ∃ file, shards[p.2.shard]? = some file ∧
      (p.1, p.2.view) ∈ file.tensors := by
  unfold shardTensors
  rw [List.mem_flatMap]
  constructor
  · rintro ⟨⟨file, n⟩, hmem, hp⟩
    obtain ⟨t, ht, rfl⟩ := List.mem_map.mp hp
    exact ⟨file, List.mem_zipIdx_iff_getElem?.mp hmem, ht⟩
  · rintro ⟨file, hfile, ht⟩
    exact ⟨(file, p.2.shard), List.mem_zipIdx_iff_getElem?.mpr hfile,
      List.mem_map.mpr ⟨(p.1, p.2.view), ht, rfl⟩⟩

/-- a name of the merged map leads to its entry -/
theorem tensor_of_mem {model : ShardedModel} (hnodup : (model.merged.map Prod.fst).Nodup)
    {p : String × ShardView} (hp : p ∈ model.merged) : model.tensor p.1 = .ok p.2 := by
  unfold ShardedModel.tensor
  have hfind : model.merged.find? (fun q => decide (q.1 = p.1)) = some p := by
    generalize model.merged = merged at hnodup hp
    induction merged with
    | nil => cases hp
    | cons q merged ih =>
      rw [List.map_cons, List.nodup_cons] at hnodup
      rcases List.mem_cons.mp hp with rfl | hp
      · exact List.find?_cons_of_pos (by simp)
      · have hne : q.1 ≠ p.1 := fun h0 => hnodup.1 (h0 ▸ List.mem_map_of_mem hp)
        rw [List.find?_cons_of_neg (by simpa using hne)]
        exact ih hnodup.2 hp
  rw [hfind]

/-- the shard in the slot of a name -/
theorem shard_of_slot {slots : List String} {shards : List SafetensorsFile}
    (h : List.Forall₂ (Opened lib fs path) slots shards) {s : String} (hs : s ∈ slots) :
    slots[slots.idxOf s]? = some s ∧
      ∃ file, shards[slots.idxOf s]? = some file ∧ Opened lib fs path s file := by
  have hlt := List.idxOf_lt_length_of_mem hs
  have hslot : slots[slots.idxOf s]? = some s := by
    rw [List.getElem?_eq_getElem hlt, List.getElem_idxOf hlt]
  have hlt' : slots.idxOf s < shards.length := h.length_eq ▸ hlt
  refine ⟨hslot, shards[slots.idxOf s], List.getElem?_eq_getElem hlt', ?_⟩
  have hrel := List.forall₂_iff_get.mp h |>.2 _ hlt hlt'
  rw [List.get_eq_getElem, List.get_eq_getElem, List.getElem_idxOf hlt] at hrel
  exact hrel

/-- each merged view is a sound one of its shard -/
def ShardedModel.Sound (model : ShardedModel) : Prop :=
  ∀ name v, (name, v) ∈ model.merged → ∃ shard, model.shards[v.shard]? = some shard ∧
    SoundView shard.file v.view

theorem sound_of_opened {slots : List String} {model : ShardedModel}
    (hopened : List.Forall₂ (Opened lib fs path) slots model.shards)
    (hunion : ∀ name v, (name, v) ∈ model.merged ↔ ∃ file, model.shards[v.shard]? = some file ∧
      (name, v.view) ∈ file.tensors) : model.Sound := by
  intro name v hmem
  obtain ⟨file, hfile, hview⟩ := (hunion name v).mp hmem
  obtain ⟨hlt, hget⟩ := List.getElem?_eq_some_iff.mp hfile
  have hlt' : v.shard < slots.length := hopened.length_eq ▸ hlt
  have hopen : Opened lib fs path _ model.shards[v.shard] := hopened.get hlt' hlt
  rw [hget] at hopen
  exact ⟨file, hfile, sound_of_open hopen hview⟩

/-- what an accepted index resolves to -/
structure Resolved (lib : JsonLibrary) (fs : FileSystem) (path : String)
    (entries : List (String × JsonText)) (slots : List String) (model : ShardedModel) : Prop where
  /-- each distinct shard name is opened once -/
  distinct : slots.Nodup
  named : ∀ s, s ∈ slots ↔ ∃ t, (t, Json.str s) ∈ entries
  opened : List.Forall₂ (Opened lib fs path) slots model.shards
  /-- the merged map is the disjoint union of the shards -/
  disjoint : (model.merged.map Prod.fst).Nodup
  union : ∀ name v, (name, v) ∈ model.merged ↔ ∃ file, model.shards[v.shard]? = some file ∧
    (name, v.view) ∈ file.tensors
  sound : model.Sound
  /-- an entry leads to the view of its shard -/
  resolves : ∀ t json, (t, json) ∈ entries → ∃ s i file view, json = .str s ∧ slots[i]? = some s ∧
    model.shards[i]? = some file ∧ (t, view) ∈ file.tensors ∧ model.tensor t = .ok ⟨i, view⟩

/-- an index that must be refused: an entry without a string, a name in two of its shards, or an
entry whose shard does not hold its tensor -/
inductive Unresolvable (lib : JsonLibrary) (fs : FileSystem) (path : String)
    (entries : List (String × JsonText)) : Prop
  | notString (t json) : (t, json) ∈ entries → (∀ s, json ≠ .str s) → Unresolvable lib fs path entries
  | twice (s s' f f' name) : (∃ t, (t, Json.str s) ∈ entries) → (∃ t, (t, Json.str s') ∈ entries) →
      s ≠ s' → Opened lib fs path s f → Opened lib fs path s' f' →
      name ∈ f.tensors.map Prod.fst → name ∈ f'.tensors.map Prod.fst →
      Unresolvable lib fs path entries
  | misplaced (t s f) : (t, Json.str s) ∈ entries → Opened lib fs path s f →
      t ∉ f.tensors.map Prod.fst → Unresolvable lib fs path entries

theorem resolved_of_ok {model : ShardedModel} (h : openIndex lib fs path = .ok model) :
    ∃ entries slots, IndexEntries lib fs path entries ∧ Resolved lib fs path entries slots model := by
  obtain ⟨entries, names, hentries, hnames, hopened, hunion, hnodup, hcheck⟩ := openIndex_eq_ok.mp h
  have hnamed : ∀ s, s ∈ shardSlots names ↔ ∃ t, (t, Json.str s) ∈ entries := by
    intro s
    have hstr : s ∈ names ↔ (Json.str s : JsonText) ∈ entries.map Prod.snd := by
      rw [hnames]
      refine ⟨fun hs => List.mem_map_of_mem hs, fun hs => ?_⟩
      obtain ⟨s', hs', heq⟩ := List.mem_map.mp hs
      exact Json.str.inj heq ▸ hs'
    rw [mem_shardSlots, hstr, List.mem_map]
    constructor
    · rintro ⟨⟨t, json⟩, hmem, rfl⟩
      exact ⟨t, hmem⟩
    · rintro ⟨t, hmem⟩
      exact ⟨(t, .str s), hmem, rfl⟩
  have hmerged : ∀ name v, (name, v) ∈ model.merged ↔ ∃ file, model.shards[v.shard]? = some file ∧
      (name, v.view) ∈ file.tensors := by
    intro name v
    rw [hunion, mem_shardTensors]
  refine ⟨entries, shardSlots names, hentries, nodup_shardSlots names, hnamed, hopened, hnodup, hmerged,
    sound_of_opened hopened hmerged, fun t json hmem => ?_⟩
  · obtain ⟨s, hs, rfl⟩ : ∃ s ∈ names, Json.str s = json := by
      have hin : json ∈ entries.map Prod.snd := List.mem_map.mpr ⟨(t, json), hmem, rfl⟩
      rw [hnames] at hin
      exact List.mem_map.mp hin
    obtain ⟨hslot, file, hfile, _⟩ := shard_of_slot hopened (mem_shardSlots.mpr hs)
    obtain ⟨⟨t', view⟩, ht, rfl⟩ := List.mem_map.mp (hcheck (t, .str s) hmem s file rfl hfile)
    refine ⟨s, _, file, view, rfl, hslot, hfile, ht, tensor_of_mem (p := (t', ⟨_, view⟩)) hnodup ?_⟩
    rw [hunion]
    exact mem_shardTensors.mpr ⟨file, hfile, ht⟩

/-- an index that resolves has no name in two of its shards and no misplaced entry -/
theorem Resolved.refuses {entries : List (String × JsonText)} {slots : List String}
    {model : ShardedModel} (h : Resolved lib fs path entries slots model) :
    ¬ Unresolvable lib fs path entries := by
  -- an opened shard of the index stands in the slot of its name
  have hslot : ∀ s f, (∃ t, (t, Json.str s) ∈ entries) → Opened lib fs path s f →
      slots[slots.idxOf s]? = some s ∧ model.shards[slots.idxOf s]? = some f := by
    intro s f hs hf
    obtain ⟨hs', file, hfile, hopen⟩ := shard_of_slot h.opened ((h.named s).mpr hs)
    obtain rfl := Except.ok.inj (hopen.symm.trans hf)
    exact ⟨hs', hfile⟩
  rintro (⟨t, json, hmem, hnot⟩ | ⟨s, s', f, f', name, hs, hs', hne, hf, hf', hn, hn'⟩ |
    ⟨t, s, f, hmem, hf, hmiss⟩)
  · obtain ⟨s, _, _, _, hstr, _⟩ := h.resolves t json hmem
    exact hnot s hstr
  · obtain ⟨hi, hfile⟩ := hslot s f hs hf
    obtain ⟨hj, hfile'⟩ := hslot s' f' hs' hf'
    obtain ⟨⟨n, view⟩, hv, hname⟩ := List.mem_map.mp hn
    obtain ⟨⟨n', view'⟩, hv', hname'⟩ := List.mem_map.mp hn'
    replace hname : n = name := hname
    replace hname' : n' = name := hname'
    rw [hname] at hv
    rw [hname'] at hv'
    have hin := (h.union name (ShardView.mk (slots.idxOf s) view)).mpr ⟨f, hfile, hv⟩
    have hin' := (h.union name (ShardView.mk (slots.idxOf s') view')).mpr ⟨f', hfile', hv'⟩
    -- one name has one view, so the two shards stand in one slot
    have ht : model.tensor name = .ok (ShardView.mk (slots.idxOf s) view) :=
      tensor_of_mem h.disjoint hin
    have ht' : model.tensor name = .ok (ShardView.mk (slots.idxOf s') view') :=
      tensor_of_mem h.disjoint hin'
    have hsame := ht.symm.trans ht'
    have hshard : slots.idxOf s = slots.idxOf s' := congrArg ShardView.shard (Except.ok.inj hsame)
    rw [hshard, hj] at hi
    exact hne (Option.some.inj hi).symm
  · obtain ⟨hi, hfile⟩ := hslot s f ⟨t, hmem⟩ hf
    obtain ⟨s', i, file, view, hstr, hi', hfile', ht, _⟩ := h.resolves t (.str s) hmem
    obtain rfl := Json.str.inj hstr
    obtain rfl : i = slots.idxOf s := by
      obtain ⟨hlt, hget⟩ := List.getElem?_eq_some_iff.mp hi'
      obtain ⟨hlt', hget'⟩ := List.getElem?_eq_some_iff.mp hi
      exact (List.Nodup.getElem_inj_iff h.distinct).mp (hget.trans hget'.symm)
    rw [hfile] at hfile'
    obtain rfl := Option.some.inj hfile'
    exact hmiss (List.mem_map_of_mem (f := Prod.fst) ht)

/-- **Sharded index resolution.** -/
theorem index_resolution (lib : JsonLibrary) (fs : FileSystem) (path : String) :
    (∀ model, openIndex lib fs path = .ok model → ∃ entries slots,
      IndexEntries lib fs path entries ∧ Resolved lib fs path entries slots model) ∧
    ∀ entries, IndexEntries lib fs path entries → Unresolvable lib fs path entries →
      ∃ e, openIndex lib fs path = .error e := by
  refine ⟨fun model => resolved_of_ok, fun entries hentries hbad => ?_⟩
  cases hopen : openIndex lib fs path with
  | error e => exact ⟨e, rfl⟩
  | ok model =>
    obtain ⟨entries', slots, hentries', hresolved⟩ := resolved_of_ok hopen
    obtain rfl := hentries.unique hentries'
    exact absurd hbad hresolved.refuses

end

/-! ## two shards -/

/-- a header of one tensor without elements -/
def oneTensorHeader (name : String) : JsonText :=
  .obj [(name, .obj [("dtype", .str "U8"), ("shape", .arr [.num (.unsigned 0)]),
    ("data_offsets", .arr [.num (.unsigned 0), .num (.unsigned 0)])])]

/-- the empty text is the index, and the texts `1` and `2` are the headers of two shards -/
def twoShardsJson (weightMap : List (String × JsonText)) : JsonLibrary where
  parse text :=
    if text = [] then .ok (.obj [("weight_map", .obj weightMap)])
    else if text = [1] then .ok (oneTensorHeader "embed")
    else .ok (oneTensorHeader "norm")
  dump _ := ""
  keyDepth := 0

def twoShardsFiles : FileSystem where
  read _ := some []
  map path := .ok ⟨[1, 0, 0, 0, 0, 0, 0, 0, if path = "a" then 1 else 2], by simp⟩
  relative _ name := name

def twoShardsEntries : List (String × JsonText) := [("norm", .str "b"), ("embed", .str "a")]

def crossedEntries : List (String × JsonText) := [("norm", .str "a"), ("embed", .str "b")]

/-- each tensor in its shard resolves; the same tensors, each in the other shard, are refused -/
theorem index_resolution_two_shards :
    (∃ model entries slots, openIndex (twoShardsJson twoShardsEntries) twoShardsFiles "index" = .ok model ∧
      IndexEntries (twoShardsJson twoShardsEntries) twoShardsFiles "index" entries ∧
      Resolved (twoShardsJson twoShardsEntries) twoShardsFiles "index" entries slots model) ∧
    ¬ ∃ model, openIndex (twoShardsJson crossedEntries) twoShardsFiles "index" = .ok model := by
  have hok : (openIndex (twoShardsJson twoShardsEntries) twoShardsFiles "index").isOk = true := by
    decide
  have hno : (openIndex (twoShardsJson crossedEntries) twoShardsFiles "index").isOk = false := by
    decide
  constructor
  · cases h : openIndex (twoShardsJson twoShardsEntries) twoShardsFiles "index" with
    | error e =>
      rw [h] at hok
      cases hok
    | ok model =>
      obtain ⟨entries, slots, hentries, hresolved⟩ := (index_resolution _ _ _).1 model h
      exact ⟨model, entries, slots, rfl, hentries, hresolved⟩
  · rintro ⟨model, h⟩
    rw [h] at hno
    cases hno

end Redline
