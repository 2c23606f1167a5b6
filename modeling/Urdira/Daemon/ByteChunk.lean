import Urdira.Daemon.IpcFrame
import Urdira.Daemon.ProtobufWire
import Urdira.Lib.TextCodec

open ByteOrder FramedStream PrefixCode TextCodec Utf16

namespace Daemon

namespace ByteChunk

abbrev Text := List CodeUnit

def toWellFormed (text : Text) : Text := encode (scalars text)

def isWellFormed (text : Text) : Bool := decide (toWellFormed text = text)

structure ChunkWire where
  tag : ℕ → WireType → Bytes
  uint32 : ℤ → Option Bytes
  uint64 : ℤ → Option Bytes
  bool : Bool → Bytes
  string : Text → Option Bytes
  bytes : Bytes → Option Bytes
  readTag : Bytes → Option ((ℕ × WireType) × Bytes)
  readUint32 : Bytes → Option (ℤ × Bytes)
  readUint64 : Bytes → Option (ℤ × Bytes)
  readBool : Bytes → Option (Bool × Bytes)
  readString : Bytes → Option (Text × Bytes)
  readBytes : Bytes → Option (Bytes × Bytes)

def unsigned (width : ℕ) (value : ℤ) : Option Bytes :=
  if 0 ≤ value ∧ value < 2 ^ width then some (varint value.toNat) else none

def delimited (value : Bytes) : Option Bytes :=
  if value.length < 2 ^ 32 then some (varint value.length ++ value) else none

structure ChunkWire.Lawful (wire : ChunkWire) : Prop where
  tag : ∀ field wireType, wire.tag field wireType = varint (field * 8 + wireType.number)
  uint32 : ∀ value, wire.uint32 value = unsigned 32 value
  uint64 : ∀ value, wire.uint64 value = unsigned 64 value
  bool : ∀ value, wire.bool value = varint value.toNat
  string : ∀ text, wire.string text = delimited (encodeUtf8 text)
  bytes : ∀ value, wire.bytes value = delimited value
  readTag : ∀ field wireType rest, 1 ≤ field → field < 2 ^ 29 →
    wire.readTag (varint (field * 8 + wireType.number) ++ rest) = some ((field, wireType), rest)
  readUint32 : ∀ value : ℕ, ∀ rest, value < 2 ^ 32 → wire.readUint32 (varint value ++ rest) =
    some ((value : ℤ), rest)
  readUint64 : ∀ value : ℕ, ∀ rest, value < 2 ^ 64 → wire.readUint64 (varint value ++ rest) =
    some ((value : ℤ), rest)
  readBool : ∀ value rest, wire.readBool (varint (Bool.toNat value) ++ rest) = some (value, rest)
  readString : ∀ text rest, (encodeUtf8 text).length < 2 ^ 32 →
    wire.readString (varint (encodeUtf8 text).length ++ encodeUtf8 text ++ rest) =
      some (toWellFormed text, rest)
  readBytes : ∀ value : Bytes, ∀ rest, value.length < 2 ^ 32 →
    wire.readBytes (varint value.length ++ value ++ rest) = some (value, rest)

def ipcMaxChunkBytes : ℕ := 256 * 1024

-- other is a fraction, an infinity or not a number.
inductive JsNumber where
  | integer (value : ℤ)
  | other
  deriving DecidableEq

def JsNumber.safeInteger : JsNumber → Option ℤ
  | .integer value => if value.natAbs < 2 ^ 53 then some value else none
  | .other => none

inductive ChunkKind where
  | sourceBytes
  | factDelta
  deriving DecidableEq

def ChunkKind.name : ChunkKind → Text
  | .sourceBytes => encode "source_bytes".toList
  | .factDelta => encode "fact_delta".toList

structure ChunkFields where
  protocolVersion : JsNumber
  streamId : Text
  sequence : JsNumber
  offset : ℤ
  payload : Bytes
  final : Bool
  cancellationId : Text
  maxBytes : ℤ
  maxInFlight : JsNumber
  maxInFlightBytes : ℤ
  deriving DecidableEq

structure ProcessByteChunk extends ChunkFields where
  chunkKind : ChunkKind
  deriving DecidableEq

def chunkInvalid (message : String) : Thrown := .daemon ⟨"core:ipc_chunk_invalid", message⟩

def validateProcessByteChunk (chunk : ProcessByteChunk) : Except Thrown Unit :=
  let payloadLength : ℤ := chunk.payload.length
  if chunk.protocolVersion ≠ .integer 2 ∨ chunk.streamId.length = 0 ∨
    chunk.cancellationId.length = 0 ∨
      chunk.sequence.safeInteger.all (fun sequence => decide (sequence < 0)) ∨ chunk.offset < 0 ∨
        chunk.maxBytes ≤ 0 ∨
      chunk.maxInFlight.safeInteger.all (fun maxInFlight => decide (maxInFlight ≤ 0)) ∨
        chunk.maxInFlightBytes ≤ 0 ∨
      chunk.maxBytes < chunk.maxInFlightBytes ∨ chunk.maxInFlightBytes < payloadLength ∨
      ipcMaxChunkBytes < chunk.payload.length ∨ chunk.maxBytes < chunk.offset + payloadLength
  then .error (chunkInvalid "Process byte chunk violates its protocol or resource budget.")
  else .ok ()

section Encode

variable (wire : ChunkWire)

def written (bytes : Option Bytes) : Except Thrown Bytes :=
  match bytes with
  | none => .error .foreign
  | some bytes => .ok bytes

def writeUint32 (value : JsNumber) : Except Thrown Bytes :=
  match value with
  | .integer value => written (wire.uint32 value)
  | .other => .error .foreign

def encodeProcessByteChunk (chunk : ProcessByteChunk) : Except Thrown Bytes := do
  validateProcessByteChunk chunk
  let protocolVersion ← writeUint32 wire chunk.protocolVersion
  let streamId ← written (wire.string chunk.streamId)
  let sequence ← writeUint32 wire chunk.sequence
  let offset ← written (wire.uint64 chunk.offset)
  let payload ← written (wire.bytes chunk.payload)
  let cancellationId ← written (wire.string chunk.cancellationId)
  let maxBytes ← written (wire.uint64 chunk.maxBytes)
  let maxInFlight ← writeUint32 wire chunk.maxInFlight
  let chunkKind ← written (wire.string chunk.chunkKind.name)
  let maxInFlightBytes ← written (wire.uint64 chunk.maxInFlightBytes)
  .ok (wire.tag 1 .varint ++ protocolVersion ++ wire.tag 2 .lengthDelimited ++ streamId ++
    wire.tag 3 .varint ++ sequence ++ wire.tag 4 .varint ++ offset ++ wire.tag 5 .lengthDelimited ++
      payload ++
    wire.tag 6 .varint ++ wire.bool chunk.final ++ wire.tag 7 .lengthDelimited ++ cancellationId ++
    wire.tag 8 .varint ++ maxBytes ++ wire.tag 9 .varint ++ maxInFlight ++
      wire.tag 10 .lengthDelimited ++ chunkKind ++
    wire.tag 11 .varint ++ maxInFlightBytes)

def encodeChunk (chunk : ProcessByteChunk) : Except Thrown Bytes := do
  let body ← encodeProcessByteChunk wire chunk
  if 2 ^ 32 ≤ body.length then .error .foreign else .ok (framed body)

def encodeSourceBytesChunk (chunk : ChunkFields) : Except Thrown Bytes :=
  encodeChunk wire { chunk with chunkKind := .sourceBytes }

def encodeFactDeltaChunk (chunk : ChunkFields) : Except Thrown Bytes :=
  encodeChunk wire { chunk with chunkKind := .factDelta }

end Encode

section Decode

structure DecodedProcessByteChunkFields where
  protocolVersion : Option ℤ := none
  streamId : Option Text := none
  sequence : Option ℤ := none
  offset : Option ℤ := none
  payload : Option Bytes := none
  final : Option Bool := none
  cancellationId : Option Text := none
  maxBytes : Option ℤ := none
  maxInFlight : Option ℤ := none
  chunkKind : Option ChunkKind := none
  maxInFlightBytes : Option ℤ := none

variable (wire : ChunkWire)

def unknownField (field : ℕ) : Thrown :=
  chunkInvalid s!"Unknown or invalid protobuf chunk field {field}."

def requireChunkWireType (actual expected : WireType) (field : ℕ) : Except Thrown Unit :=
  if actual ≠ expected then .error (unknownField field) else .ok ()

def registerChunkField (seen : List ℕ) (field : ℕ) : Except Thrown (List ℕ) :=
  if field ∈ seen then .error (chunkInvalid s!"Duplicate protobuf chunk field {field}.")
  else .ok (field :: seen)

def chunkKindOf (name : Text) : Except Thrown ChunkKind :=
  if name = ChunkKind.sourceBytes.name then .ok .sourceBytes
  else if name = ChunkKind.factDelta.name then .ok .factDelta
  else .error (chunkInvalid "Chunk kind is not registered.")

def decodeChunkField {α : Type} (wireType expected : WireType) (field : ℕ)
    (result : Option (α × Bytes))
    (set : α → DecodedProcessByteChunkFields) :
    Except Thrown (DecodedProcessByteChunkFields × Bytes) := do
  requireChunkWireType wireType expected field
  let (value, input) ← read result
  .ok (set value, input)

def decodeChunkKindField (wireType : WireType) (fields : DecodedProcessByteChunkFields)
    (input : Bytes) :
    Except Thrown (DecodedProcessByteChunkFields × Bytes) := do
  requireChunkWireType wireType .lengthDelimited 10
  let (name, input) ← read (wire.readString input)
  let kind ← chunkKindOf name
  .ok ({ fields with chunkKind := some kind }, input)

def decodeProcessByteChunkField (fields : DecodedProcessByteChunkFields) (field : ℕ)
    (wireType : WireType)
    (input : Bytes) :
    Except Thrown (DecodedProcessByteChunkFields × Bytes) :=
  match field with
  | 1 => decodeChunkField wireType .varint 1 (wire.readUint32 input)
      (fun v => { fields with protocolVersion := some v })
  | 2 => decodeChunkField wireType .lengthDelimited 2 (wire.readString input)
      (fun v => { fields with streamId := some v })
  | 3 => decodeChunkField wireType .varint 3 (wire.readUint32 input)
      (fun v => { fields with sequence := some v })
  | 4 => decodeChunkField wireType .varint 4 (wire.readUint64 input)
      (fun v => { fields with offset := some v })
  | 5 => decodeChunkField wireType .lengthDelimited 5 (wire.readBytes input)
      (fun v => { fields with payload := some v })
  | 6 => decodeChunkField wireType .varint 6 (wire.readBool input)
      (fun v => { fields with final := some v })
  | 7 => decodeChunkField wireType .lengthDelimited 7 (wire.readString input)
      (fun v => { fields with cancellationId := some v })
  | 8 => decodeChunkField wireType .varint 8 (wire.readUint64 input)
      (fun v => { fields with maxBytes := some v })
  | 9 => decodeChunkField wireType .varint 9 (wire.readUint32 input)
      (fun v => { fields with maxInFlight := some v })
  | 10 => decodeChunkKindField wire wireType fields input
  | 11 => decodeChunkField wireType .varint 11 (wire.readUint64 input)
      (fun v => { fields with maxInFlightBytes := some v })
  | field => .error (unknownField field)

def decodeProcessByteChunkFields : ℕ → DecodedProcessByteChunkFields → List ℕ → Bytes →
    Except Thrown DecodedProcessByteChunkFields
  | 0, _, _, _ => .error .foreign
  | fuel + 1, fields, seen, input =>
    if input.isEmpty then .ok fields
    else do
      let ((field, wireType), input) ← read (wire.readTag input)
      let seen ← registerChunkField seen field
      let (fields, input) ← decodeProcessByteChunkField wire fields field wireType input
      decodeProcessByteChunkFields fuel fields seen input

def DecodedProcessByteChunkFields.chunk (fields : DecodedProcessByteChunkFields) :
    Option ProcessByteChunk := do
  let protocolVersion ← fields.protocolVersion
  let streamId ← fields.streamId
  let sequence ← fields.sequence
  let offset ← fields.offset
  let payload ← fields.payload
  let final ← fields.final
  let cancellationId ← fields.cancellationId
  let maxBytes ← fields.maxBytes
  let maxInFlight ← fields.maxInFlight
  let maxInFlightBytes ← fields.maxInFlightBytes
  let chunkKind ← fields.chunkKind
  some
    { protocolVersion := .integer protocolVersion, streamId, sequence := .integer sequence, offset,
      payload, final, cancellationId, maxBytes, maxInFlight := .integer maxInFlight,
      maxInFlightBytes, chunkKind }

def decodeProcessByteChunkBody (body : Bytes) : Except Thrown ProcessByteChunk := do
  let fields ← decodeProcessByteChunkFields wire (body.length + 1) {} [] body
  match fields.chunk with
  | none => .error (chunkInvalid "Protobuf chunk is missing a required field.")
  | some chunk =>
    validateProcessByteChunk chunk
    .ok chunk

def decodeProcessByteChunk (encoded : Bytes) : Except Thrown ProcessByteChunk :=
  if encoded.length < 4 then .error (chunkInvalid "Protobuf chunk is missing its length prefix.")
  else
    let length := bodyLength encoded
    if ipcMaxChunkBytes < length ∨ encoded.length ≠ length + 4 then
      .error (chunkInvalid "Protobuf chunk length is invalid.")
    else decodeProcessByteChunkBody wire (encoded.drop 4)

end Decode

end ByteChunk

end Daemon
