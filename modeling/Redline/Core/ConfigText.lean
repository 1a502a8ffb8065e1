import Mathlib.Data.List.Sort
import Mathlib.Data.Rat.Floor
import Redline.Core.Config
import Redline.Lib.HalfEven

/-!
# Reading the configuration

The whole of `ModelConfig::FromJsonText` of `core/config.cpp`: both texts, every key, every error.
`json::parse` is a parameter that returns a value or throws one of its two exceptions; a double is
its exact value.

* `checked_throws`      past the two parses nothing but a `ConfigError` is thrown;
* `checked_pinned`      what is returned is the pinned configuration;
* `fromJsonText_iff`    when a foreign exception leaves the function.
-/

namespace Redline
namespace ConfigText
open Throw

/-! ## JSON values -/

/-- the number kinds of `nlohmann::json`, a double by its value -/
inductive Number where
  | unsigned (n : UInt64)
  | integer (n : Int64)
  | float (value : Rat)
  deriving DecidableEq

abbrev Value := Json Number

/-- what may leave `FromJsonText` -/
inductive Exception where
  | configError (message : String)
  | parseError (what : String)
  | outOfRange (what : String)
  | typeError (what : String)
  deriving DecidableEq, Repr

/-- the outcomes of `json::parse`; `outOfRange` is a number literal that overflows a double -/
inductive Parsed where
  | value (v : Value)
  | parseError (what : String)
  | outOfRange (what : String)

structure Library where
  parse : List UInt8 → Parsed
  dump : Value → String
  /-- a double written with 12 digits -/
  stream : Rat → String

def typeName : Value → String
  | .null => "null"
  | .bool _ => "boolean"
  | .num _ => "number"
  | .str _ => "string"
  | .arr _ => "array"
  | .obj _ => "object"

def isNumberInteger : Value → Bool
  | .num (.unsigned _) | .num (.integer _) => true
  | _ => false

/-- the nearest value with `mantBits` bits after the first and exponents from `emin`; the argument
is an integer or a double -/
def roundTo (mantBits : Nat) (emin : Int) (x : Rat) : Rat :=
  let exponent : Int := max (x.num.natAbs.log2 - x.den.log2) emin
  HalfEven.toUnit (2 ^ (exponent - mantBits)) x

def toDouble (x : Int) : Rat := roundTo 52 (-1022) x

def toFloat (x : Rat) : Rat := roundTo 23 (-126) x

/-- the `what()` of a kind mismatch -/
def mismatch {α : Type} (wanted : String) (v : Value) : Except Exception α :=
  .error (.typeError ("[json.exception.type_error.302] type must be " ++ wanted ++ ", but is " ++ typeName v))

/-- `get<std::int64_t>()` -/
def getInt64 : Value → Except Exception Int
  | .num (.unsigned n) => .ok (Int.bmod n.toNat (2 ^ 64))
  | .num (.integer n) => .ok n.toInt
  | .num (.float x) => .ok (if 0 ≤ x then ⌊x⌋ else ⌈x⌉)
  | v => mismatch "number" v

/-- `get<double>()` -/
def getDouble : Value → Except Exception Rat
  | .num (.unsigned n) => .ok (toDouble n.toNat)
  | .num (.integer n) => .ok (toDouble n.toInt)
  | .num (.float x) => .ok x
  | v => mismatch "number" v

def getBool : Value → Except Exception Bool
  | .bool b => .ok b
  | v => mismatch "boolean" v

def getString : Value → Except Exception String
  | .str s => .ok s
  | v => mismatch "string" v

/-- `root.find(key)`: the last value of a repeated key; nothing is found outside objects -/
def find : Value → String → Option Value
  | .obj pairs, key => (OrderedMap.ofPairs pairs).find key
  | _, _ => none

/-! ## required values -/

def fail {α : Type} (file message : String) : Except Exception α :=
  .error (.configError (file ++ ": " ++ message))

def parseJsonText (lib : Library) (file : String) (text : List UInt8) : Except Exception Value :=
  match lib.parse text with
  | .value (.obj pairs) => .ok (.obj pairs)
  | .value _ => fail file "top-level JSON value must be an object"
  | .parseError what => fail file ("malformed JSON: " ++ what)
  | .outOfRange what => .error (.outOfRange what)  -- not a `json::parse_error`

def require (root : Value) (file key : String) : Except Exception Value :=
  match find root key with
  | none => fail file ("missing required key '" ++ key ++ "'")
  | some value => .ok value

/-- the common text of the typed readers -/
def unexpected {α : Type} (lib : Library) (file key wanted : String) (value : Value) :
    Except Exception α :=
  fail file ("key '" ++ key ++ "': expected " ++ wanted ++ ", got " ++ lib.dump value)

def requireInt (lib : Library) (root : Value) (file key : String) : Except Exception Int := do
  let value ← require root file key
  if ¬ isNumberInteger value then unexpected lib file key "an integer" value else getInt64 value

def requireNumber (lib : Library) (root : Value) (file key : String) : Except Exception Rat := do
  let value ← require root file key
  if typeName value ≠ "number" then unexpected lib file key "a number" value else getDouble value

def requireBool (lib : Library) (root : Value) (file key : String) : Except Exception Bool := do
  let value ← require root file key
  if typeName value ≠ "boolean" then unexpected lib file key "a boolean" value else getBool value

def requireString (lib : Library) (root : Value) (file key : String) : Except Exception String := do
  let value ← require root file key
  if typeName value ≠ "string" then unexpected lib file key "a string" value else getString value

/-! ## checks -/

/-- a value against the expected one -/
def check {α : Type} [DecidableEq α] (text : α → String) (file field : String) (expected actual : α) :
    Except Exception Unit :=
  if actual ≠ expected then fail file
    (field ++ ": expected " ++ text expected ++ ", got " ++ text actual) else .ok ()

def checkInt (file field : String) (expected actual : Int) : Except Exception Unit :=
  check toString file field expected actual

def checkNumber (lib : Library) (file field : String) (expected actual : Rat) : Except Exception Unit :=
  check lib.stream file field expected actual

def checkBool (file field : String) (expected actual : Bool) : Except Exception Unit :=
  check toString file field expected actual

def checkString (file field expected actual : String) : Except Exception Unit :=
  check (fun s => "\"" ++ s ++ "\"") file field expected actual

def checkOptionalInt (lib : Library) (root : Value) (file key : String) (expected : Int) :
    Except Exception Unit :=
  match find root key with
  | none => .ok ()
  | some value =>
    if ¬ isNumberInteger value then unexpected lib file key "an integer" value
    else do checkInt file key expected (← getInt64 value)

/-! ## the stop set -/

def kEosSet : List Int := [151645, 151643]

/-- `append`: one element -/
def appendEos (lib : Library) (file : String) (out : List Int) (element : Value) :
    Except Exception (List Int) :=
  if ¬ isNumberInteger element then
    unexpected lib file "eos_token_id" "an integer or an array of integers" element
  else do
    let id ← getInt64 element
    if id < 0 ∨ 2 ^ 31 - 1 < id then
      fail file ("key 'eos_token_id': value " ++ toString id ++ " is not a valid non-negative int32 token id")
    else return if id ∈ out then out else out ++ [id]

def extractEosSet (lib : Library) (gen : Value) (file : String) : Except Exception (List Int) := do
  let value ← require gen file "eos_token_id"
  match value with
  | .arr [] => fail file "key 'eos_token_id': array must not be empty"
  | .arr elements => elements.foldlM (appendEos lib file) []
  | value => appendEos lib file [] value

def formatTokenSet (ids : List Int) : String :=
  "\x7b" ++ ", ".intercalate (ids.map toString) ++ "\x7d"

def checkEosSet (file : String) (actual : List Int) : Except Exception Unit :=
  if actual.insertionSort (· ≤ ·) ≠ kEosSet.insertionSort (· ≤ ·) then
    fail file ("eos_token_id: expected the stop set " ++ formatTokenSet kEosSet ++ ", got " ++ formatTokenSet actual)
  else .ok ()

/-! ## the function -/

def kRopeTheta : Rat := 1000000

/-- the double nearest to `1e-6` -/
def kRmsNormEps : Rat := 4722366482869645 / 2 ^ 72

/-- `head_dim`, when the file has it, is the derived value -/
def checkHeadDim (lib : Library) (cfg : Value) (headDim : Int) : Except Exception Unit :=
  checkOptionalInt lib cfg "config.json" "head_dim" headDim

def isArchitecture : Value → Bool
  | .str s => s = "Qwen2ForCausalLM"
  | _ => false

def checkArchitectures (lib : Library) (cfg : Value) : Except Exception Unit :=
  match find cfg "architectures" with
  | none => .ok ()
  | some value =>
    let ok := match value with
      | .arr entries => entries.any isArchitecture
      | _ => false
    if ok then .ok ()
    else fail "config.json" ("architectures: expected to contain \"Qwen2ForCausalLM\", got " ++ lib.dump value)

def checkSlidingWindow (lib : Library) (cfg : Value) : Except Exception Unit :=
  match find cfg "use_sliding_window" with
  | none => .ok ()
  | some value =>
    if typeName value ≠ "boolean" then unexpected lib "config.json" "use_sliding_window" "a boolean" value
    else do
      if ← getBool value then
        fail "config.json"
          "use_sliding_window: expected false (this engine implements full causal attention only), got true"
      else return ()

structure Config extends CheckpointConfig where
  rmsNormEps : Rat
  ropeTheta : Rat
  tieWordEmbeddings : Bool
  qkvBias : Bool
  deriving DecidableEq, Repr

/-- a required integer with its expected value -/
def expectInt (lib : Library) (cfg : Value) (key : String) (expected : Int) : Except Exception Int := do
  let value ← requireInt lib cfg "config.json" key
  checkInt "config.json" key expected value
  return value

def expectNumber (lib : Library) (cfg : Value) (key : String) (expected : Rat) :
    Except Exception Rat := do
  let value ← requireNumber lib cfg "config.json" key
  checkNumber lib "config.json" key expected value
  return value

def expectString (lib : Library) (cfg : Value) (key expected : String) : Except Exception Unit := do
  checkString "config.json" key expected (← requireString lib cfg "config.json" key)

/-- everything past the two parses -/
def checked (lib : Library) (cfg gen : Value) : Except Exception Config := do
  expectString lib cfg "model_type" "qwen2"
  checkArchitectures lib cfg
  let hiddenSize ← expectInt lib cfg "hidden_size" 1536
  let numLayers ← expectInt lib cfg "num_hidden_layers" 28
  let numQHeads ← expectInt lib cfg "num_attention_heads" 12
  let numKvHeads ← expectInt lib cfg "num_key_value_heads" 2
  let intermediateSize ← expectInt lib cfg "intermediate_size" 8960
  let vocabSize ← expectInt lib cfg "vocab_size" 151936
  let maxPositionEmbeddings ← expectInt lib cfg "max_position_embeddings" 32768
  let ropeTheta ← expectNumber lib cfg "rope_theta" kRopeTheta
  let rmsNormEps ← expectNumber lib cfg "rms_norm_eps" kRmsNormEps
  let tieWordEmbeddings ← requireBool lib cfg "config.json" "tie_word_embeddings"
  checkBool "config.json" "tie_word_embeddings" true tieWordEmbeddings
  expectString lib cfg "torch_dtype" "bfloat16"
  expectString lib cfg "hidden_act" "silu"
  let headDim := hiddenSize.tdiv numQHeads
  checkInt "config.json" "head_dim (derived hidden_size / num_attention_heads)" 128 headDim
  checkHeadDim lib cfg headDim
  checkSlidingWindow lib cfg
  checkOptionalInt lib cfg "config.json" "bos_token_id" 151643
  checkOptionalInt lib cfg "config.json" "eos_token_id" 151645
  let eosTokenIds ← extractEosSet lib gen "generation_config.json"
  checkEosSet "generation_config.json" eosTokenIds
  return {
    hiddenSize, numLayers, numQHeads, numKvHeads, headDim, intermediateSize, vocabSize, eosTokenIds
    maxPositionEmbeddings
    rmsNormEps := toFloat rmsNormEps
    ropeTheta := toFloat ropeTheta
    tieWordEmbeddings
    qkvBias := true }

def fromJsonText (lib : Library) (configJson generationConfigJson : List UInt8) :
    Except Exception Config := do
  let cfg ← parseJsonText lib "config.json" configJson
  let gen ← parseJsonText lib "generation_config.json" generationConfigJson
  checked lib cfg gen

/-! ## only `ConfigError` -/

def IsConfigError : Exception → Prop
  | .configError _ => True
  | _ => False

section
variable {lib : Library} {file key : String}

theorem throws_fail {α : Type} (message : String) :
    Throws IsConfigError (fail file message : Except Exception α) :=
  throws_error trivial

theorem throws_require (root : Value) : Throws IsConfigError (require root file key) := by
  unfold require
  cases find root key with
  | none => exact throws_fail _
  | some value => exact throws_ok value

/-- the guard of a reader excludes the kind mismatch of its accessor -/
theorem throws_guarded {α β : Type} {guard : Prop} [Decidable guard] {message : String}
    {x : Except Exception α}
    {f : α → Except Exception β} (h : ¬ guard → ∃ a, x = .ok a) (hf : ∀ a, Throws IsConfigError (f a)) :
    Throws IsConfigError (if guard then fail file message else x >>= f) := by
  by_cases hg : guard
  · rw [if_pos hg]
    exact throws_fail message
  · obtain ⟨a, rfl⟩ := h hg
    rw [if_neg hg]
    exact hf a

theorem throws_read {α : Type} {guard : Prop} [Decidable guard] {message : String}
    {x : Except Exception α}
    (h : ¬ guard → ∃ a, x = .ok a) : Throws IsConfigError (if guard then fail file message else x) := by
  have hbind : Throws IsConfigError (if guard then fail file message else x >>= Except.ok) :=
    throws_guarded h fun a => throws_ok a
  rwa [show x >>= Except.ok = x from bind_pure x] at hbind

theorem getInt64_of_integer {value : Value} (h : ¬¬ isNumberInteger value) :
    ∃ n, getInt64 value = .ok n := by
  match value, not_not.mp h with
  | .num (.unsigned n), _ => exact ⟨_, rfl⟩
  | .num (.integer n), _ => exact ⟨_, rfl⟩

theorem getDouble_of_number {value : Value} (h : ¬ typeName value ≠ "number") :
    ∃ x, getDouble value = .ok x := by
  cases value with
  | num n => cases n <;> exact ⟨_, rfl⟩
  | _ => exact absurd (not_not.mp h) (by simp [typeName])

theorem getBool_of_boolean {value : Value} (h : ¬ typeName value ≠ "boolean") :
    ∃ b, getBool value = .ok b := by
  cases value with
  | bool b => exact ⟨b, rfl⟩
  | _ => exact absurd (not_not.mp h) (by simp [typeName])

theorem getString_of_string {value : Value} (h : ¬ typeName value ≠ "string") :
    ∃ s, getString value = .ok s := by
  cases value with
  | str s => exact ⟨s, rfl⟩
  | _ => exact absurd (not_not.mp h) (by simp [typeName])

theorem throws_check {α : Type} [DecidableEq α] {text : α → String} {expected actual : α} :
    Throws IsConfigError (check text file key expected actual) :=
  throws_ite (throws_fail _) (throws_ok ())

theorem throws_requireInt (root : Value) : Throws IsConfigError (requireInt lib root file key) :=
  (throws_require root).bind fun _ => throws_read getInt64_of_integer

theorem throws_requireNumber (root : Value) : Throws IsConfigError (requireNumber lib root file key) :=
  (throws_require root).bind fun _ => throws_read getDouble_of_number

theorem throws_requireBool (root : Value) : Throws IsConfigError (requireBool lib root file key) :=
  (throws_require root).bind fun _ => throws_read getBool_of_boolean

theorem throws_requireString (root : Value) : Throws IsConfigError (requireString lib root file key) :=
  (throws_require root).bind fun _ => throws_read getString_of_string

theorem throws_expectInt (cfg : Value) (expected : Int) :
    Throws IsConfigError (expectInt lib cfg key expected) :=
  (throws_requireInt cfg).bind fun value => throws_check.bind fun _ => throws_ok value

theorem throws_expectNumber (cfg : Value) (expected : Rat) :
    Throws IsConfigError (expectNumber lib cfg key expected) :=
  (throws_requireNumber cfg).bind fun value => throws_check.bind fun _ => throws_ok value

theorem throws_expectString (cfg : Value) (expected : String) :
    Throws IsConfigError (expectString lib cfg key expected) :=
  (throws_requireString cfg).bind fun _ => throws_check

theorem throws_checkOptionalInt (root : Value) (expected : Int) :
    Throws IsConfigError (checkOptionalInt lib root file key expected) := by
  unfold checkOptionalInt
  cases find root key with
  | none => exact throws_ok ()
  | some value =>
    exact throws_guarded getInt64_of_integer fun _ => throws_check

theorem throws_checkArchitectures (cfg : Value) :
    Throws IsConfigError (checkArchitectures lib cfg) := by
  unfold checkArchitectures
  cases find cfg "architectures" with
  | none => exact throws_ok ()
  | some value => exact throws_ite (throws_ok ()) (throws_fail _)

theorem throws_checkSlidingWindow (cfg : Value) :
    Throws IsConfigError (checkSlidingWindow lib cfg) := by
  unfold checkSlidingWindow
  cases find cfg "use_sliding_window" with
  | none => exact throws_ok ()
  | some value =>
    exact throws_guarded getBool_of_boolean fun _ => throws_ite (throws_fail _) (throws_ok ())

theorem throws_appendEos (out : List Int) (element : Value) :
    Throws IsConfigError (appendEos lib file out element) :=
  throws_guarded getInt64_of_integer fun _ => throws_ite (throws_fail _) (throws_ok _)

theorem throws_extractEosSet (gen : Value) : Throws IsConfigError (extractEosSet lib gen file) := by
  refine (throws_require gen).bind fun value => ?_
  split
  · exact throws_fail _
  · exact throws_foldlM fun out element => throws_appendEos out element
  · exact throws_appendEos [] _

/-- **Past the two parses nothing but a `ConfigError` is thrown.** -/
theorem checked_throws (cfg gen : Value) : Throws IsConfigError (checked lib cfg gen) :=
  (throws_expectString cfg _).bind fun _ => (throws_checkArchitectures cfg).bind fun _ =>
  (throws_expectInt cfg _).bind fun _ => (throws_expectInt cfg _).bind fun _ =>
  (throws_expectInt cfg _).bind fun _ => (throws_expectInt cfg _).bind fun _ =>
  (throws_expectInt cfg _).bind fun _ => (throws_expectInt cfg _).bind fun _ =>
  (throws_expectInt cfg _).bind fun _ => (throws_expectNumber cfg _).bind fun _ =>
  (throws_expectNumber cfg _).bind fun _ => (throws_requireBool cfg).bind fun _ =>
  throws_check.bind fun _ => (throws_expectString cfg _).bind fun _ =>
  (throws_expectString cfg _).bind fun _ => throws_check.bind fun _ =>
  (throws_checkOptionalInt cfg _).bind fun _ => (throws_checkSlidingWindow cfg).bind fun _ =>
  (throws_checkOptionalInt cfg _).bind fun _ => (throws_checkOptionalInt cfg _).bind fun _ =>
  (throws_extractEosSet gen).bind fun _ =>
  (throws_ite (throws_fail _) (throws_ok ())).bind fun _ => throws_ok _

end

/-! ## what is returned -/

/-- the floats next to `1e6` and `1e-6` -/
def pinned (eosTokenIds : List Int) : Config :=
  { CheckpointConfig.pinned eosTokenIds with
    rmsNormEps := 8796093 / 2 ^ 43
    ropeTheta := 1000000
    tieWordEmbeddings := true
    qkvBias := true }

/-- every field has its expected constant, and the stop set its two members -/
def Pinned (c : Config) : Prop := c = pinned c.eosTokenIds ∧ c.eosTokenIds.Perm kEosSet

section
variable {lib : Library} {file key : String}

theorem check_ok {α : Type} [DecidableEq α] {text : α → String} {expected actual : α} {u : Unit}
    (h : check text file key expected actual = .ok u) : actual = expected :=
  not_not.mp (ite_error_eq_ok.mp h).1

theorem expectInt_ok {cfg : Value} {expected value : Int}
    (h : expectInt lib cfg key expected = .ok value) :
    value = expected := by
  obtain ⟨read, _, h⟩ := bind_eq_ok.mp h
  obtain ⟨_, hcheck, h⟩ := bind_eq_ok.mp h
  rw [← Except.ok.inj h]
  exact check_ok hcheck

theorem expectNumber_ok {cfg : Value} {expected value : Rat}
    (h : expectNumber lib cfg key expected = .ok value) :
    value = expected := by
  obtain ⟨read, _, h⟩ := bind_eq_ok.mp h
  obtain ⟨_, hcheck, h⟩ := bind_eq_ok.mp h
  rw [← Except.ok.inj h]
  exact check_ok hcheck

theorem checkEosSet_ok {eos : List Int} {u : Unit} (h : checkEosSet file eos = .ok u) :
    eos.Perm kEosSet := by
  have hsort := not_not.mp (ite_error_eq_ok.mp h).1
  exact (List.perm_insertionSort (· ≤ ·) eos).symm.trans
    (hsort ▸ List.perm_insertionSort (· ≤ ·) kEosSet)

theorem toFloat_pinned : toFloat kRmsNormEps = 8796093 / 2 ^ 43 ∧ toFloat kRopeTheta = 1000000 := by
  decide +kernel

/-- **What is returned is the pinned configuration.** -/
theorem checked_pinned {cfg gen : Value} {c : Config} (h : checked lib cfg gen = .ok c) : Pinned c := by
  obtain ⟨_, _, h⟩ := bind_eq_ok.mp h
  obtain ⟨_, _, h⟩ := bind_eq_ok.mp h
  obtain ⟨hiddenSize, h1, h⟩ := bind_eq_ok.mp h
  obtain ⟨numLayers, h2, h⟩ := bind_eq_ok.mp h
  obtain ⟨numQHeads, h3, h⟩ := bind_eq_ok.mp h
  obtain ⟨numKvHeads, h4, h⟩ := bind_eq_ok.mp h
  obtain ⟨intermediateSize, h5, h⟩ := bind_eq_ok.mp h
  obtain ⟨vocabSize, h6, h⟩ := bind_eq_ok.mp h
  obtain ⟨maxPositionEmbeddings, h7, h⟩ := bind_eq_ok.mp h
  obtain ⟨ropeTheta, h8, h⟩ := bind_eq_ok.mp h
  obtain ⟨rmsNormEps, h9, h⟩ := bind_eq_ok.mp h
  obtain ⟨tieWordEmbeddings, _, h⟩ := bind_eq_ok.mp h
  obtain ⟨_, h10, h⟩ := bind_eq_ok.mp h
  obtain ⟨_, _, h⟩ := bind_eq_ok.mp h
  obtain ⟨_, _, h⟩ := bind_eq_ok.mp h
  obtain ⟨_, _, h⟩ := bind_eq_ok.mp h
  obtain ⟨_, _, h⟩ := bind_eq_ok.mp h
  obtain ⟨_, _, h⟩ := bind_eq_ok.mp h
  obtain ⟨_, _, h⟩ := bind_eq_ok.mp h
  obtain ⟨_, _, h⟩ := bind_eq_ok.mp h
  obtain ⟨eosTokenIds, _, h⟩ := bind_eq_ok.mp h
  obtain ⟨_, heos, h⟩ := bind_eq_ok.mp h
  obtain rfl := expectInt_ok h1
  obtain rfl := expectInt_ok h2
  obtain rfl := expectInt_ok h3
  obtain rfl := expectInt_ok h4
  obtain rfl := expectInt_ok h5
  obtain rfl := expectInt_ok h6
  obtain rfl := expectInt_ok h7
  obtain rfl := expectNumber_ok h8
  obtain rfl := expectNumber_ok h9
  obtain rfl := check_ok h10
  obtain rfl := Except.ok.inj h
  obtain ⟨heps, htheta⟩ := toFloat_pinned
  refine ⟨?_, checkEosSet_ok heos⟩
  rw [heps, htheta]
  rfl

/-! ## the two texts -/

/-- the pinned configuration, or a `ConfigError` -/
def Settles : Except Exception Config → Prop
  | .ok c => Pinned c
  | .error e => IsConfigError e

theorem settles_checked (cfg gen : Value) : Settles (checked lib cfg gen) := by
  cases h : checked lib cfg gen with
  | ok c => exact checked_pinned h
  | error e => exact checked_throws cfg gen e h

/-- the outcomes of a parse that stay inside: everything but an overflowing number -/
theorem parseJsonText_cases (lib : Library) (file : String) (text : List UInt8) :
    (∃ what, lib.parse text = .outOfRange what ∧
      parseJsonText lib file text = .error (.outOfRange what)) ∨
    (∃ pairs, lib.parse text = .value (.obj pairs) ∧ parseJsonText lib file text = .ok (.obj pairs)) ∨
    (∀ what, lib.parse text ≠ .outOfRange what) ∧ (∀ pairs, lib.parse text ≠ .value (.obj pairs)) ∧
      ∃ message, parseJsonText lib file text = .error (.configError message) := by
  unfold parseJsonText
  cases lib.parse text with
  | outOfRange what => exact Or.inl ⟨what, rfl, rfl⟩
  | parseError what => exact Or.inr (Or.inr ⟨by simp, by simp, _, rfl⟩)
  | value v =>
    cases v with
    | obj pairs => exact Or.inr (Or.inl ⟨pairs, rfl, rfl⟩)
    | _ => exact Or.inr (Or.inr ⟨by simp, by simp, _, rfl⟩)

/-- **The function returns the pinned configuration or throws a `ConfigError` exactly when no number of
the first text overflows a double, and none of the second does if the first is an object.** -/
theorem fromJsonText_iff (configJson generationConfigJson : List UInt8) :
    Settles (fromJsonText lib configJson generationConfigJson) ↔
      (∀ what, lib.parse configJson ≠ .outOfRange what) ∧
      ((∃ pairs, lib.parse configJson = .value (.obj pairs)) →
        ∀ what, lib.parse generationConfigJson ≠ .outOfRange what) := by
  unfold fromJsonText
  rcases parseJsonText_cases lib "config.json" configJson with
    ⟨what, hparse, hcfg⟩ | ⟨pairs, hparse, hcfg⟩ | ⟨hno, hobj, message, hcfg⟩
  · rw [hcfg]
    exact ⟨False.elim, fun h => h.1 what hparse⟩
  · rw [hcfg]
    have hfirst : ∀ what, lib.parse configJson ≠ .outOfRange what := by simp [hparse]
    rcases parseJsonText_cases lib "generation_config.json" generationConfigJson with
      ⟨what, hparse', hgen⟩ | ⟨pairs', hparse', hgen⟩ | ⟨hno', _, message, hgen⟩
    · show Settles (parseJsonText _ _ _ >>= _) ↔ _
      rw [hgen]
      exact ⟨False.elim, fun h => h.2 ⟨pairs, hparse⟩ what hparse'⟩
    · show Settles (parseJsonText _ _ _ >>= _) ↔ _
      rw [hgen]
      exact ⟨fun _ => ⟨hfirst, fun _ => by simp [hparse']⟩, fun _ => settles_checked _ _⟩
    · show Settles (parseJsonText _ _ _ >>= _) ↔ _
      rw [hgen]
      exact ⟨fun _ => ⟨hfirst, fun _ => hno'⟩, fun _ => trivial⟩
  · rw [hcfg]
    exact ⟨fun _ => ⟨hno, fun ⟨pairs, hpairs⟩ => absurd hpairs (hobj pairs)⟩, fun _ => trivial⟩

/-- the parser on an object with the number `1e400` -/
def overflowJson : Library where
  parse text :=
    if text = "\x7b\"a\":1e400\x7d".toUTF8.toList then
      .outOfRange "[json.exception.out_of_range.406] number overflow parsing '1e400'"
    else .parseError "[json.exception.parse_error.101]"
  dump _ := ""
  stream _ := ""

/-- a number that nothing reads -/
theorem overflow_escapes : ∃ what, fromJsonText overflowJson "\x7b\"a\":1e400\x7d".toUTF8.toList [] =
    .error (.outOfRange what) ∧ ¬ Settles
      (fromJsonText overflowJson "\x7b\"a\":1e400\x7d".toUTF8.toList []) := by
  have hparse : fromJsonText overflowJson "\x7b\"a\":1e400\x7d".toUTF8.toList []
      = .error (.outOfRange "[json.exception.out_of_range.406] number overflow parsing '1e400'") := by
    unfold fromJsonText parseJsonText overflowJson
    simp only [if_true]
    rfl
  exact ⟨_, hparse, by rw [hparse]; exact id⟩

end
end ConfigText
end Redline
