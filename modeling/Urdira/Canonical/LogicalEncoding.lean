import Urdira.Lib.Binary64
import Urdira.Lib.TextCodec
import Urdira.NativeCore.LogicalDigest

open Binary64 ByteLayout ByteOrder MerkleBucket PrefixCode TextCodec Utf16

namespace Canonical

abbrev Text := List CodeUnit

-- other stands for undefined, a function, a symbol or an instance of a class.
inductive CanonicalValue where
  | null
  | bool (flag : Bool)
  | string (text : Text)
  | bytes (value : Bytes)
  | number (value : Double)
  | bigint (value : ℤ)
  | array (items : List CanonicalValue)
  | object (fields : List (Text × CanonicalValue))
  | other

inductive Detail where
  | name (value : String)
  | text (value : Text)
  | amount (value : ℕ)
  deriving DecidableEq

structure CanonicalEncodingError where
  code : String
  phase : String
  details : List (String × Detail)
  deriving DecidableEq

structure CanonicalEncodingLimits where
  maxDepth : ℕ
  maxBytes : ℕ
  maxTextCodePoints : ℕ
  maxElements : ℕ

def defaultLimits : CanonicalEncodingLimits where
  maxDepth := 128
  maxBytes := 16 * 1024 * 1024
  maxTextCodePoints := 4 * 1024 * 1024
  maxElements := 1000000

namespace LogicalEncoding

def typeMismatch (phase : String) : CanonicalEncodingError :=
  ⟨"uce:schema_validation_failed", phase,
    [("value_path", .name ""), ("validation_kind", .name "TYPE_MISMATCH")]⟩

def limit (limitName : String) (configured observed : ℕ) : CanonicalEncodingError :=
  ⟨"uce:resource_limit_exceeded", "normalize",
    [("phase", .name "normalize"), ("limit_name", .name limitName),
      ("configured_limit", .amount configured),
      ("observed_value", .amount observed)]⟩

def invalidScalar : CanonicalEncodingError :=
  ⟨"uce:invalid_unicode_scalar", "normalize", [("value_path", .name "")]⟩

-- The code points of a text; charCodeAt past the end is NaN, which no comparison rejects.
def countCodePoints : Text → Except CanonicalEncodingError ℕ
  | [] => .ok 0
  | [unit] => if isLow unit then .error invalidScalar else .ok 1
  | unit :: next :: rest =>
    if isHigh unit then
      if isLow next then (countCodePoints rest).map (· + 1) else .error invalidScalar
    else if isLow unit then .error invalidScalar
    else (countCodePoints (next :: rest)).map (· + 1)

section Limited

variable (limits : CanonicalEncodingLimits)

def validateUnicode (value : Text) : Except CanonicalEncodingError Unit := do
  let count ← countCodePoints value
  if limits.maxTextCodePoints < count then
    .error (limit "max_text_code_points" limits.maxTextCodePoints count)
  else .ok ()

structure Writer where
  elements : ℕ
  bytes : Bytes

abbrev Encoder := Writer → Except CanonicalEncodingError Writer

def write (value : Bytes) : Encoder := fun writer =>
  let length := writer.bytes.length + value.length
  if limits.maxBytes < length then .error (limit "max_bytes" limits.maxBytes length)
  else .ok { writer with bytes := writer.bytes ++ value }

def consume (count : ℕ) : Encoder := fun writer =>
  let elements := writer.elements + count
  if limits.maxElements < elements then .error (limit "max_elements" limits.maxElements elements)
  else .ok { writer with elements }

def encodeFloat64 (value : Double) : Except CanonicalEncodingError Bytes :=
  if !finite value || decide (value = negativeZero) then .error (typeMismatch "normalize")
  else .ok (7 :: (leBytes 8 value.toNat).reverse)

def writeText (value : Text) : Encoder := fun writer => do
  validateUnicode limits value
  let bytes := encodeUtf8 value
  let writer ← write limits [3] writer
  let writer ← write limits (varint bytes.length) writer
  write limits bytes writer

def writeBytes (value : Bytes) : Encoder := fun writer => do
  if limits.maxBytes < value.length then .error (limit "max_bytes" limits.maxBytes value.length)
  else
    let writer ← write limits [4] writer
    let writer ← write limits (varint value.length) writer
    write limits value writer

def writeNumber (value : Double) : Encoder := fun writer => do
  if !finite value then .error (typeMismatch "normalize")
  else
    let bytes ← encodeFloat64 (if value = negativeZero then positiveZero else value)
    write limits bytes writer

def magnitudeBytes (magnitude : ℕ) : Bytes :=
  if h : magnitude < 256 then [⟨magnitude, h⟩]
  else magnitudeBytes (magnitude / 256) ++ [Fin.ofNat 256 magnitude]
  termination_by magnitude

def writeBigInt (value : ℤ) : Encoder := fun writer => do
  let bytes := magnitudeBytes value.natAbs
  let writer ← consume limits bytes.length writer
  let writer ← write limits [8, if value < 0 then 1 else 0] writer
  let writer ← write limits (varint bytes.length) writer
  write limits bytes writer

def compareBytes : Bytes → Bytes → Ordering
  | [], [] => .eq
  | [], _ :: _ => .lt
  | _ :: _, [] => .gt
  | a :: left, b :: right => if a < b then .lt else if b < a then .gt else compareBytes left right

structure Entry where
  key : Text
  keyBytes : Bytes
  write : Encoder

def sortedEntries (entries : List Entry) : List Entry :=
  entries.insertionSort (fun left right => compareBytes left.keyBytes right.keyBytes ≠ .gt)

def writeAll : List Encoder → Encoder
  | [], writer => .ok writer
  | first :: rest, writer => do
    let writer ← first writer
    writeAll rest writer

def writeEntries : Option Bytes → List Entry → Encoder
  | _, [], writer => .ok writer
  | previous, entry :: entries, writer => do
    if previous.any (fun bytes => compareBytes bytes entry.keyBytes == .eq) then
      .error ⟨"uce:duplicate_map_key", "normalize",
        [("byte_offset", .amount 0), ("duplicate_key", .text entry.key)]⟩
    else
      let writer ← writeText limits entry.key writer
      let writer ← entry.write writer
      writeEntries (some entry.keyBytes) entries writer

def checkDepth (depth : ℕ) (encoder : Encoder) : Encoder := fun writer =>
  if limits.maxDepth < depth then .error (limit "max_depth" limits.maxDepth depth)
  else encoder writer

mutual

def writeValue (depth : ℕ) : CanonicalValue → Encoder
  | .null => checkDepth limits depth (write limits [0])
  | .bool flag => checkDepth limits depth (write limits [if flag then 2 else 1])
  | .string text => checkDepth limits depth (writeText limits text)
  | .bytes value => checkDepth limits depth (writeBytes limits value)
  | .number value => checkDepth limits depth (writeNumber limits value)
  | .bigint value => checkDepth limits depth (writeBigInt limits value)
  | .array items => checkDepth limits depth (fun writer => do
    let writer ← consume limits items.length writer
    let writer ← write limits [5] writer
    let writer ← write limits (varint items.length) writer
    writeAll (itemWriters (depth + 1) items) writer)
  | .object fields => checkDepth limits depth (fun writer => do
    let writer ← consume limits fields.length writer
    let writer ← write limits [6] writer
    let writer ← write limits (varint fields.length) writer
    writeEntries limits none (sortedEntries (fieldEntries (depth + 1) fields)) writer)
  | .other => checkDepth limits depth (fun _ => .error (typeMismatch "normalize"))

def itemWriters (depth : ℕ) : List CanonicalValue → List Encoder
  | [] => []
  | item :: items => writeValue depth item :: itemWriters depth items

def fieldEntries (depth : ℕ) : List (Text × CanonicalValue) → List Entry
  | [] => []
  | (key, item) :: fields => ⟨key, encodeUtf8 key, writeValue depth item⟩ :: fieldEntries
      depth fields

end

def encodeCanonical (value : CanonicalValue) : Except CanonicalEncodingError Bytes :=
  (writeValue limits 0 value ⟨0, []⟩).map Writer.bytes

end Limited

def digestBytes [Sha256] (bytes : Bytes) : String :=
  "sha256:" ++ String.ofList ((Sha256.digest bytes).bytes.flatMap
    NativeCore.LogicalDigestWriter.hexByte)

def canonicalBytes (value : CanonicalValue) : Except CanonicalEncodingError Bytes :=
  encodeCanonical defaultLimits value

end LogicalEncoding

end Canonical
