import Redline.Core.Executor
import Redline.Loader.Safetensors

/-!
# The checkpoint configuration

`ModelConfig::FromJsonText` of `core/config.cpp`, as far as it decides the geometry: the integer keys
of `config.json` and the derived head size.  Every one of them must have its expected value.  The
other keys, which can only reject more, and the stop set are left to the caller.

`fromJsonText_pinned`: an accepted checkpoint has the pinned geometry.
-/

namespace Redline

/-- the configuration with the one geometry key that the executor does not read -/
structure CheckpointConfig extends ModelConfig where
  maxPositionEmbeddings : Int
  deriving DecidableEq, Repr

namespace CheckpointConfig

/-- `Fail`, for `config.json` -/
def failConfig {α : Type} (message : String) : Except String α := .error ("config.json: " ++ message)

/-- `get<std::int64_t>()` of a number, if it is an integer -/
def integerValue : JsonText → Option Int
  | .num (.unsigned n) => some (Int.bmod n.toNat (2 ^ 64))
  | .num (.integer n) => some n.toInt
  | _ => none

def requireInt (lib : JsonLibrary) (root : List (String × JsonText)) (key : String) :
    Except String Int :=
  match findField root key with
  | none => failConfig ("missing required key '" ++ key ++ "'")
  | some value =>
    match integerValue value with
    | none => failConfig ("key '" ++ key ++ "': expected an integer, got " ++ lib.dump value)
    | some n => .ok n

def checkInt (field : String) (expected actual : Int) : Except String Unit :=
  if actual ≠ expected then
    failConfig (field ++ ": expected " ++ toString expected ++ ", got " ++ toString actual)
  else .ok ()

/-- a key that must have the expected value -/
def expectInt (lib : JsonLibrary) (root : List (String × JsonText)) (key : String) (expected : Int) :
    Except String Int := do
  let value ← requireInt lib root key
  checkInt key expected value
  return value

/-- the `head_dim` key, if the file has one -/
def checkHeadDim (lib : JsonLibrary) (root : List (String × JsonText)) (headDim : Int) :
    Except String Unit :=
  match findField root "head_dim" with
  | none => .ok ()
  | some value =>
    match integerValue value with
    | none => failConfig ("key 'head_dim': expected an integer, got " ++ lib.dump value)
    | some n => checkInt "head_dim" headDim n

def fromJsonText (lib : JsonLibrary) (cfg : List (String × JsonText)) (eosTokenIds : List Int) :
    Except String CheckpointConfig := do
  let hiddenSize ← expectInt lib cfg "hidden_size" 1536
  let numLayers ← expectInt lib cfg "num_hidden_layers" 28
  let numQHeads ← expectInt lib cfg "num_attention_heads" 12
  let numKvHeads ← expectInt lib cfg "num_key_value_heads" 2
  let intermediateSize ← expectInt lib cfg "intermediate_size" 8960
  let vocabSize ← expectInt lib cfg "vocab_size" 151936
  let maxPositionEmbeddings ← expectInt lib cfg "max_position_embeddings" 32768
  let headDim := hiddenSize.tdiv numQHeads
  checkInt "head_dim (derived hidden_size / num_attention_heads)" 128 headDim
  checkHeadDim lib cfg headDim
  return { hiddenSize, numLayers, numQHeads, numKvHeads, headDim, intermediateSize, vocabSize, eosTokenIds,
           maxPositionEmbeddings }

/-- the geometry of the one checkpoint -/
def pinned (eosTokenIds : List Int) : CheckpointConfig :=
  { hiddenSize := 1536
    numLayers := 28
    numQHeads := 12
    numKvHeads := 2
    headDim := 128
    intermediateSize := 8960
    vocabSize := 151936
    eosTokenIds
    maxPositionEmbeddings := 32768 }

section
variable {lib : JsonLibrary} {cfg : List (String × JsonText)}

theorem checkInt_ok {field : String} {expected actual : Int} {u : Unit}
    (h : checkInt field expected actual = .ok u) :
    actual = expected := by
  unfold checkInt at h
  split at h
  · cases h
  · exact not_not.mp ‹_›

theorem expectInt_ok {key : String} {expected value : Int}
    (h : expectInt lib cfg key expected = .ok value) :
    value = expected := by
  unfold expectInt at h
  obtain ⟨read, _, h⟩ := Throw.bind_eq_ok.mp h
  obtain ⟨_, hcheck, h⟩ := Throw.bind_eq_ok.mp h
  rw [← Except.ok.inj h]
  exact checkInt_ok hcheck

theorem findField_of_mem {key : String} {value : JsonText} (hn : (cfg.map Prod.fst).Nodup)
    (h : (key, value) ∈ cfg) :
    findField cfg key = some value := by
  unfold findField
  rw [OrderedMap.find_eq_some, OrderedMap.ofPairs_of_nodup hn]
  exact h

theorem expectInt_of_mem {key : String} {value : JsonText} {n : Int} (hn : (cfg.map Prod.fst).Nodup)
    (h : (key, value) ∈ cfg) (hvalue : integerValue value = some n) : expectInt lib cfg key n = .ok n := by
  have hread : requireInt lib cfg key = .ok n := by
    unfold requireInt
    simp only [findField_of_mem hn h, hvalue]
  have hcheck : checkInt key n n = .ok () := if_neg (not_not.mpr rfl)
  exact Throw.bind_eq_ok.mpr ⟨n, hread, Throw.bind_eq_ok.mpr ⟨(), hcheck, rfl⟩⟩

/-- **An accepted checkpoint has the pinned geometry.** -/
theorem fromJsonText_pinned {eosTokenIds : List Int} {c : CheckpointConfig}
    (h : fromJsonText lib cfg eosTokenIds = .ok c) : c = pinned eosTokenIds := by
  unfold fromJsonText at h
  obtain ⟨hiddenSize, h1, h⟩ := Throw.bind_eq_ok.mp h
  obtain ⟨numLayers, h2, h⟩ := Throw.bind_eq_ok.mp h
  obtain ⟨numQHeads, h3, h⟩ := Throw.bind_eq_ok.mp h
  obtain ⟨numKvHeads, h4, h⟩ := Throw.bind_eq_ok.mp h
  obtain ⟨intermediateSize, h5, h⟩ := Throw.bind_eq_ok.mp h
  obtain ⟨vocabSize, h6, h⟩ := Throw.bind_eq_ok.mp h
  obtain ⟨maxPositionEmbeddings, h7, h⟩ := Throw.bind_eq_ok.mp h
  obtain ⟨_, _, h⟩ := Throw.bind_eq_ok.mp h
  obtain ⟨_, _, h⟩ := Throw.bind_eq_ok.mp h
  obtain rfl := expectInt_ok h1
  obtain rfl := expectInt_ok h2
  obtain rfl := expectInt_ok h3
  obtain rfl := expectInt_ok h4
  obtain rfl := expectInt_ok h5
  obtain rfl := expectInt_ok h6
  obtain rfl := expectInt_ok h7
  exact (Except.ok.inj h).symm

end
end CheckpointConfig
end Redline
