import Redline.Lib.Json
import Redline.Lib.OrderedMap
import Redline.Lib.Throw
import Mathlib.Data.String.Basic

/-!
# Safetensors files

The parser of `loader/safetensors.cpp`: an 8-byte little-endian header length, the JSON header,
and the data section.  `json::parse` is a parameter (`JsonLibrary`): it returns the text as a tree
or throws, and reports the names of the text in order, with their depths.  The tree keeps repeated
names; the DOM, in which the last value of a name stays, is `OrderedMap.ofPairs`.
-/

namespace Redline

inductive Dtype where
  | kF16
  | kBF16
  | kF32
  | kF64
  | kI32
  | kI64
  | kU8
  | kUnknown
  deriving DecidableEq, Repr

def dtypeSize : Dtype → UInt64
  | .kF16 | .kBF16 => 2
  | .kF32 | .kI32 => 4
  | .kF64 | .kI64 => 8
  | .kU8 => 1
  | .kUnknown => 0

/-! ## the JSON library -/

/-- the number kinds of `nlohmann::json`; a literal without a sign that fits is unsigned -/
inductive JsonNumber where
  | unsigned (n : UInt64)
  | integer (n : Int64)
  | float
  deriving DecidableEq

abbrev JsonText := Json JsonNumber

structure JsonLibrary where
  /-- `json::parse`: the text, or the `what()` of a `json::exception` -/
  parse : List UInt8 → Except String JsonText
  dump : JsonText → String
  /-- the depth reported with the names of a top-level object -/
  keyDepth : Nat

def typeName : JsonText → String
  | .null => "null"
  | .bool _ => "boolean"
  | .num _ => "number"
  | .str _ => "string"
  | .arr _ => "array"
  | .obj _ => "object"

/-- the value of a name in an object -/
def findField (pairs : List (String × JsonText)) (name : String) : Option JsonText :=
  (OrderedMap.ofPairs pairs).find name

/-! ## errors -/

inductive SafetensorsErrorKind where
  | kIo
  | kTruncatedHeader
  | kMalformedHeader
  | kMalformedIndex
  | kOffsetsOutOfBounds
  | kUnknownDtype
  | kDuplicateName
  | kMissingTensor
  deriving DecidableEq, Repr

structure SafetensorsError where
  kind : SafetensorsErrorKind
  message : String
  deriving DecidableEq, Repr

def fail {α : Type} (kind : SafetensorsErrorKind) (message : String) : Except SafetensorsError α :=
  .error ⟨kind, "safetensors: " ++ message⟩

/-! ## the file -/

/-- a mapped file; its size is an `off_t` -/
structure MappedFile where
  bytes : List UInt8
  fits : bytes.length < 2 ^ 63

def MappedFile.size (file : MappedFile) : UInt64 := UInt64.ofNat file.bytes.length

structure TensorView where
  dtype : Dtype
  shape : List Int64
  /-- the first byte, counted from the start of the file -/
  data : Nat
  nbytes : UInt64
  deriving DecidableEq

structure SafetensorsFile where
  path : String
  file : MappedFile
  tensors : List (String × TensorView)

/-- little-endian, from byte 7 down to byte 0 -/
def readLeU64 (bytes : List UInt8) : UInt64 :=
  (bytes.take 8).foldr (fun byte value => (value <<< 8) ||| byte.toUInt64) 0

def dtypeFromString (s : String) : Dtype :=
  if s = "F16" then .kF16
  else if s = "BF16" then .kBF16
  else if s = "F32" then .kF32
  else if s = "F64" then .kF64
  else if s = "I32" then .kI32
  else if s = "I64" then .kI64
  else if s = "U8" then .kU8
  else .kUnknown

/-! ## watching for duplicate names -/

/-- the state of the parser callback; no name is a duplicate while `duplicate` is empty -/
structure KeyWatch where
  seen : List String := []
  duplicate : String := ""
  rootKeyDepth : Int := -1

/-- one key event -/
def watchKeys (w : KeyWatch) (event : Nat × String) : KeyWatch :=
  let w := if w.rootKeyDepth < 0 then { w with rootKeyDepth := event.1 } else w
  if (event.1 : Int) = w.rootKeyDepth then
    if event.2 ∈ w.seen then
      if w.duplicate = "" then { w with duplicate := event.2 } else w
    else { w with seen := event.2 :: w.seen }
  else w

/-! ## one tensor -/

section
variable (lib : JsonLibrary) (path : String)

/-- an error in the entry of a tensor -/
def tensorError {α : Type} (kind : SafetensorsErrorKind) (name what : String) :
    Except SafetensorsError α :=
  fail kind (path ++ ": tensor '" ++ name ++ "': " ++ what)

def requireU64 (value : JsonText) (tensor field : String) : Except SafetensorsError UInt64 :=
  match value with
  | .num (.unsigned n) => .ok n
  | v => tensorError path .kMalformedHeader tensor
      (field ++ " must be a non-negative integer, got " ++ lib.dump v)

/-- the object of an entry, and its three fields -/
def entryFields (name : String) (spec : JsonText) :
    Except SafetensorsError (JsonText × JsonText × JsonText) :=
  match spec with
  | .obj pairs =>
    match findField pairs "dtype", findField pairs "shape", findField pairs "data_offsets" with
    | some dtype, some shape, some offsets => .ok (dtype, shape, offsets)
    | _, _, _ => tensorError path .kMalformedHeader name "needs dtype, shape and data_offsets"
  | _ => tensorError path .kMalformedHeader name "entry must be an object"

def readDtype (name : String) (value : JsonText) : Except SafetensorsError Dtype :=
  match value with
  | .str dtypeStr =>
    if dtypeFromString dtypeStr = .kUnknown then
      tensorError path .kUnknownDtype name ("unknown dtype '" ++ dtypeStr ++
        "' (supported: F16 BF16 F32 F64 I32 I64 U8)")
    else .ok (dtypeFromString dtypeStr)
  | _ => tensorError path .kMalformedHeader name "dtype must be a string"

/-- one dimension after the product `elemCount`; the test comes before the multiplication -/
def readDim (name : String) (elemCount : UInt64) (dimJson : JsonText) :
    Except SafetensorsError UInt64 := do
  let dim ← requireU64 lib path dimJson name "shape entry"
  if 9223372036854775807 < dim ∨ dim ≠ 0 ∧ 18446744073709551615 / dim < elemCount then
    tensorError path .kMalformedHeader name "shape overflows"
  else .ok dim

/-- the dimensions, with their product -/
def readDims (name : String) : UInt64 → List JsonText →
    Except SafetensorsError (UInt64 × List Int64)
  | elemCount, [] => .ok (elemCount, [])
  | elemCount, dimJson :: rest => do
    let dim ← readDim lib path name elemCount dimJson
    let r ← readDims name (elemCount * dim) rest
    .ok (r.1, dim.toInt64 :: r.2)

def readShape (name : String) (value : JsonText) : Except SafetensorsError (UInt64 × List Int64) :=
  match value with
  | .arr dims => readDims lib path name 1 dims
  | _ => tensorError path .kMalformedHeader name "shape must be an array"

def readOffsets (name : String) (value : JsonText) : Except SafetensorsError (UInt64 × UInt64) :=
  match value with
  | .arr [first, last] => do
    let first ← requireU64 lib path first name "data_offsets[0]"
    let last ← requireU64 lib path last name "data_offsets[1]"
    .ok (first, last)
  | _ => tensorError path .kMalformedHeader name "data_offsets must be [begin, end]"

/-- the bounds and the size of one entry -/
def checkSpan (name : String) (dtype : Dtype) (elemCount dataSize first last : UInt64) :
    Except SafetensorsError Unit :=
  if last < first ∨ dataSize < last then
    tensorError path .kOffsetsOutOfBounds name ("data_offsets [" ++
      toString first.toNat ++ ", " ++ toString last.toNat ++ ") outside the " ++
      toString dataSize.toNat ++ "-byte data section")
  else if 18446744073709551615 / dtypeSize dtype < elemCount then
    tensorError path .kMalformedHeader name "shape overflows"
  else if last - first ≠ elemCount * dtypeSize dtype then
    tensorError path .kMalformedHeader name ("data_offsets span " ++
      toString (last - first).toNat ++ " bytes but shape x dtype = " ++
      toString (elemCount * dtypeSize dtype).toNat ++ " bytes")
  else .ok ()

/-- one entry of the header; `dataSection` is where the data starts in the file -/
def parseTensor (dataSection : Nat) (dataSize : UInt64) (name : String) (spec : JsonText) :
    Except SafetensorsError TensorView := do
  let fields ← entryFields path name spec
  let dtype ← readDtype path name fields.1
  let counted ← readShape lib path name fields.2.1
  let offsets ← readOffsets lib path name fields.2.2
  checkSpan path name dtype counted.1 dataSize offsets.1 offsets.2
  .ok {
    dtype
    shape := counted.2
    data := dataSection + offsets.1.toNat
    nbytes := offsets.2 - offsets.1 }

def metadataName : String := "__metadata__"

/-- the entries in order; the metadata is no tensor -/
def parseEntries (dataSection : Nat) (dataSize : UInt64) :
    List (String × JsonText) → Except SafetensorsError (List (String × TensorView))
  | [] => .ok []
  | (name, spec) :: rest =>
    if name = metadataName then parseEntries dataSection dataSize rest
    else do
      let view ← parseTensor lib path dataSection dataSize name spec
      let views ← parseEntries dataSection dataSize rest
      .ok ((name, view) :: views)

/-! ## the header -/

def parseHeader (file : MappedFile) : Except SafetensorsError (List (String × TensorView)) :=
  let headerSize := readLeU64 file.bytes
  if file.size - 8 < headerSize then
    fail .kTruncatedHeader (path ++ ": header claims " ++ toString headerSize.toNat ++
      " bytes but only " ++ toString (file.size - 8).toNat ++ " follow the length prefix")
  else
    let dataSize := file.size - 8 - headerSize
    match lib.parse ((file.bytes.drop 8).take headerSize.toNat) with
    | .error what =>
      fail .kMalformedHeader (path ++ ": header is not valid JSON: " ++ what)
    | .ok header =>
      let watch := (header.keyEvents lib.keyDepth).foldl watchKeys {}
      if watch.duplicate ≠ "" then
        fail .kDuplicateName
          (path ++ ": duplicate tensor name '" ++ watch.duplicate ++ "' in header")
      else match header with
        | .obj pairs =>
          parseEntries lib path (8 + headerSize.toNat) dataSize (OrderedMap.ofPairs pairs).entries
        | v => fail .kMalformedHeader
          (path ++ ": header must be a JSON object, got " ++ typeName v)

/-- `Open`; the operating system gives the bytes, or says why it cannot -/
def SafetensorsFile.open (mapped : Except String MappedFile) :
    Except SafetensorsError SafetensorsFile :=
  match mapped with
  | .error text => fail .kIo text
  | .ok file =>
    if file.size < 8 then
      fail .kTruncatedHeader (path ++ ": file is " ++ toString file.size.toNat ++
        " bytes, smaller than the 8-byte header-length prefix")
    else do
      let tensors ← parseHeader lib path file
      .ok { path, file, tensors }

end
end Redline
