import Urdira.Lib.FramedStream

open ByteOrder

namespace Daemon

abbrev U32 := Fin 4294967296

-- A number is its IEEE 754 bit pattern.
abbrev Double := Fin 18446744073709551616

def Double.isFinite (bits : Double) : Bool := decide (bits.val / 2 ^ 52 % 2 ^ 11 ≠ 2047)

inductive WireType where
  | varint
  | bit64
  | lengthDelimited
  | startGroup
  | endGroup
  | bit32
  deriving DecidableEq

structure Wire where
  tag : ℕ → WireType → Bytes
  uint32 : U32 → Bytes
  bool : Bool → Bytes
  double : Double → Bytes
  string : String → Bytes
  bytes : Bytes → Bytes
  readTag : Bytes → Option ((ℕ × WireType) × Bytes)
  readUint32 : Bytes → Option (U32 × Bytes)
  readBool : Bytes → Option (Bool × Bytes)
  readDouble : Bytes → Option (Double × Bytes)
  readString : Bytes → Option (String × Bytes)
  readBytes : Bytes → Option (Bytes × Bytes)

structure Wire.Lawful (wire : Wire) : Prop where
  readTag : ∀ field wireType rest, 1 ≤ field → field ≤ 10 →
    wire.readTag (wire.tag field wireType ++ rest) = some ((field, wireType), rest)
  readUint32 : ∀ value rest, wire.readUint32 (wire.uint32 value ++ rest) = some (value, rest)
  readBool : ∀ value rest, wire.readBool (wire.bool value ++ rest) = some (value, rest)
  readDouble : ∀ value rest, wire.readDouble (wire.double value ++ rest) = some (value, rest)
  readString : ∀ value rest, wire.readString (wire.string value ++ rest) = some (value, rest)
  readBytes : ∀ value rest, wire.readBytes (wire.bytes value ++ rest) = some (value, rest)
  tag_ne_nil : ∀ field wireType, wire.tag field wireType ≠ []
  length_bytes : ∀ value, value.length ≤ (wire.bytes value).length

end Daemon
