import Urdira.IndexingCore.MerkleBucket
import Urdira.Lib.ByteLayout
import Urdira.Lib.PrefixCode

open ByteOrder ByteLayout MerkleBucket PrefixCode

namespace NativeCore

def maxBatchRecords : ℕ := 4096

def maxLogicalDepth : ℕ := 64

structure LogicalField (V : Type) where
  identifier : String
  present : Bool
  value : Option V

inductive LogicalValue where
  | null
  | boolean (value : Bool)
  | integer (value : String)
  | real (value : BitVec 64)
  | text (value : String)
  | bytes (value : Bytes)
  | sequence (values : List LogicalValue)
  | set (values : List LogicalValue)
  | record (fields : List (LogicalField LogicalValue))

structure LogicalValueRecord where
  domain : String
  value : LogicalValue

structure LogicalDigestResult where
  digest : String
  byteLength : ℕ
  deriving DecidableEq

structure LogicalDigestWriter where
  hash : Bytes
  byteLength : ℕ
  deriving DecidableEq

def validateInteger (value : String) : Except String Unit :=
  let digit (b : Byte) : Bool := decide (48 ≤ b.val ∧ b.val ≤ 57)
  let leading (b : Byte) : Bool := decide (49 ≤ b.val ∧ b.val ≤ 57)
  let valid := match utf8 value with
    | [] => false
    | first :: rest =>
      if first = 48 ∧ rest = [] then true
      else if first = 45 then
        match rest with
        | [] => false
        | second :: rest => leading second && rest.all digit
      else leading first && rest.all digit
  if valid then .ok () else .error "Logical digest integer text is not canonical."

def validateCollectionLength (length : ℕ) : Except String Unit :=
  if length ≤ maxBatchRecords then .ok ()
  else .error s!"Logical collection exceeds the {maxBatchRecords}-item bound."

def validateIdentifiers {V : Type} : List String → List (LogicalField V) → Except String Unit
  | _, [] => .ok ()
  | identifiers, field :: fields =>
    if field.identifier ∈ identifiers then
      .error ("Logical record contains duplicate field identifier '" ++ field.identifier ++ "'.")
    else validateIdentifiers (field.identifier :: identifiers) fields

def validateFields {V : Type} (fields : List (LogicalField V)) : Except String Unit := do
  validateCollectionLength fields.length
  validateIdentifiers [] fields

namespace LogicalDigestWriter

def raw (w : LogicalDigestWriter) (value : Bytes) : LogicalDigestWriter :=
  { hash := w.hash ++ value, byteLength := w.byteLength + value.length }

def byte (w : LogicalDigestWriter) (value : Byte) : LogicalDigestWriter := w.raw [value]

def tag (w : LogicalDigestWriter) (value : Byte) : LogicalDigestWriter := w.byte value

def length (w : LogicalDigestWriter) (value : ℕ) : LogicalDigestWriter :=
  (varint value).foldl byte w

def text (w : LogicalDigestWriter) (value : String) : LogicalDigestWriter :=
  ((w.tag 7).length (utf8 value).length).raw (utf8 value)

def boolean (w : LogicalDigestWriter) (value : Bool) : LogicalDigestWriter :=
  (w.tag 4).byte (if value then 1 else 0)

def new (domain : String) : LogicalDigestWriter := text ⟨[], 0⟩ domain

end LogicalDigestWriter

def toBeBytes (bits : BitVec 64) : Bytes := (leBytes 8 bits.toNat).reverse

def isFinite (bits : BitVec 64) : Bool := decide (bits.toNat / 2 ^ 52 % 2 ^ 11 ≠ 2047)

def negativeZero : BitVec 64 := BitVec.ofNat 64 (2 ^ 63)

namespace LogicalDigestWriter

mutual

def writeValue : LogicalValue → ℕ → LogicalDigestWriter → Except String LogicalDigestWriter
  | value, depth, w =>
    if maxLogicalDepth < depth then .error "Logical digest value exceeds the maximum depth."
    else match value with
      | .null => .ok (w.tag 3)
      | .boolean value => .ok (w.boolean value)
      | .integer value => do
        validateInteger value
        .ok ((w.tag 5).text value)
      | .real value =>
        if ¬ isFinite value ∨ value = negativeZero then
          .error "Logical digest real values must be finite and not negative zero."
        else .ok ((w.tag 6).raw (toBeBytes value))
      | .text value => .ok (w.text value)
      | .bytes value => .ok (((w.tag 8).length value.length).raw value)
      | .sequence values => do
        validateCollectionLength values.length
        writeValues values (depth + 1) ((w.tag 9).length values.length)
      | .set values => do
        validateCollectionLength values.length
        writeValues values (depth + 1) ((w.tag 10).length values.length)
      | .record fields => do
        validateFields fields
        validateCollectionLength fields.length
        writeFields fields (depth + 1) ((w.tag 10).length fields.length)

def writeValues : List LogicalValue → ℕ → LogicalDigestWriter → Except String LogicalDigestWriter
  | [], _, w => .ok w
  | value :: values, depth, w => do
    let w ← writeValue value depth w
    writeValues values depth w

def writeField : LogicalField LogicalValue → ℕ → LogicalDigestWriter →
    Except String LogicalDigestWriter
  | ⟨identifier, present, value⟩, depth, w =>
    let w := (w.text identifier).boolean present
    match present, value with
    | true, some value => writeValue value depth w
    | true, none => .error ("Logical field '" ++ identifier ++ "' is present but has no value.")
    | false, none => .ok w
    | false, some _ =>
        .error ("Logical field '" ++ identifier ++ "' is absent but carries a value.")

def writeFields : List (LogicalField LogicalValue) → ℕ → LogicalDigestWriter →
    Except String LogicalDigestWriter
  | [], _, w => .ok w
  | field :: fields, depth, w => do
    let w ← writeField field depth w
    writeFields fields depth w

end

def hexDigit (n : ℕ) : Char := Char.ofNat (if n < 10 then 48 + n else 87 + n)

def hexByte (b : Byte) : List Char := [hexDigit (b.val / 16), hexDigit (b.val % 16)]

variable [Sha256]

def finish (w : LogicalDigestWriter) : LogicalDigestResult where
  digest := "sha256:" ++ String.ofList ((Sha256.digest w.hash).bytes.flatMap hexByte)
  byteLength := w.byteLength

end LogicalDigestWriter

open LogicalDigestWriter

def digestLogicalValueRecord [Sha256] (record : LogicalValueRecord) :
    Except String LogicalDigestResult := do
  let w ← writeValue record.value 1 (new record.domain)
  .ok w.finish

end NativeCore
