import Urdira.Canonical.LogicalEncoding
import Urdira.Lib.CountedReader

open Binary64 ByteLayout ByteOrder CountedReader TextCodec

namespace Canonical

namespace LogicalEncoding

inductive DecodingError where
  | canonical (error : CanonicalEncodingError)
  | malformedText
  deriving DecidableEq

abbrev Decoder (α : Type) := Read DecodingError α

def refuse {α : Type} (error : DecodingError) : Decoder α := fun _ => .error error

def trailingData (offset : ℕ) : DecodingError :=
  .canonical ⟨"uce:trailing_data", "decode", [("byte_offset", .amount offset)]⟩

def lengthLimit (observed : ℕ) : DecodingError :=
  .canonical ⟨"uce:resource_limit_exceeded", "decode",
    [("limit_name", .name "max_bytes"), ("observed_value", .amount observed)]⟩

def disordered (code : String) (offset : ℕ) : DecodingError :=
  .canonical ⟨code, "decode", [("byte_offset", .amount offset)]⟩

def maxSafeInteger : ℕ := 2 ^ 53 - 1

def readVarintFrom : ℕ → ℕ → ℕ → Decoder ℕ
  | 0, _, _ => refuse (lengthLimit maxSafeInteger)
  | n + 1, shift, result => do
    let byte ← readByte trailingData
    let result := result + byte.val % 128 * 2 ^ shift
    if byte.val < 128 then
      if result ≤ maxSafeInteger then pure result else refuse (lengthLimit result)
    else readVarintFrom n (shift + 7) result

def readVarint : Decoder ℕ := readVarintFrom 5 0 0

def bytesValue : Decoder Bytes := do
  let length ← readVarint
  readBytes trailingData length

def bigEndian (bytes : Bytes) : ℕ := bytes.foldl (fun value byte => value * 256 + byte.val) 0

def readNumber : Decoder CanonicalValue := do
  let bytes ← readBytes trailingData 8
  let value : Double := BitVec.ofNat 64 (bigEndian bytes)
  if !finite value || decide (value = negativeZero) then refuse (.canonical (typeMismatch "decode"))
  else pure (.number value)

def readBigInt : Decoder CanonicalValue := do
  let sign ← readByte trailingData
  let magnitude ← bytesValue
  let result : ℤ := bigEndian magnitude
  pure (.bigint (if sign.val = 1 then -result else result))

section Limited

variable (limits : CanonicalEncodingLimits)

def readCount : Decoder ℕ := do
  let length ← readVarint
  count limits.maxElements (fun counted =>
    .canonical (limit "max_elements" limits.maxElements counted)) length
  pure length

def readText : Decoder CanonicalValue := do
  let bytes ← bytesValue
  match decodeUtf8 bytes with
  | none => refuse .malformedText
  | some text =>
    match validateUnicode limits text with
    | .error error => refuse (.canonical error)
    | .ok () => pure (.string text)

def disorder (previous keyBytes : Bytes) : String :=
  if previous.length = keyBytes.length ∧ compareBytes previous keyBytes =
    .eq then "uce:duplicate_map_key"
  else "uce:non_canonical_encoding"

def readEntries (read : Decoder CanonicalValue) :
    ℕ → Option Bytes → Decoder (List (Text × CanonicalValue))
  | 0, _ => pure []
  | n + 1, previous => do
    let keyStart ← position
    let key ← read
    match key with
    | .string text =>
      let keyBytes := encodeUtf8 text
      match previous.filter (fun bytes => decide (compareBytes bytes keyBytes ≠ .lt)) with
      | some bytes => refuse (disordered (disorder bytes keyBytes) keyStart)
      | none => do
        let value ← read
        let entries ← readEntries read n (some keyBytes)
        pure ((text, value) :: entries)
    | _ => refuse (.canonical (typeMismatch "decode"))

def readTagged (read : Decoder CanonicalValue) (tag : Byte) : Decoder CanonicalValue :=
  match tag.val with
  | 0 => pure .null
  | 1 => pure (.bool false)
  | 2 => pure (.bool true)
  | 3 => readText limits
  | 4 => do
    let bytes ← bytesValue
    pure (.bytes bytes)
  | 5 => do
    let length ← readCount limits
    let items ← many read length
    pure (.array items)
  | 6 => do
    let length ← readCount limits
    let entries ← readEntries read length none
    pure (.object entries)
  | 7 => readNumber
  | 8 => readBigInt
  | _ => refuse (.canonical (typeMismatch "decode"))

-- The first argument is the number of levels that the limit still allows.
def readValue : ℕ → ℕ → Decoder CanonicalValue
  | 0, depth => refuse (.canonical (limit "max_depth" limits.maxDepth depth))
  | levels + 1, depth => do
    let tag ← readByte trailingData
    readTagged limits (readValue levels (depth + 1)) tag

def decodeCanonical (bytes : Bytes) : Except DecodingError CanonicalValue :=
  if limits.maxBytes < bytes.length then .error
    (.canonical (limit "max_bytes" limits.maxBytes bytes.length))
  else do
    let (value, source) ← readValue limits (limits.maxDepth + 1) 0 ⟨bytes, 0, 0⟩
    if source.rest = [] then .ok value else .error (trailingData source.offset)

end Limited

end LogicalEncoding

end Canonical
