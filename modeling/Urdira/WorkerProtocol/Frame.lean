import Urdira.Lib.AssocMap
import Urdira.Lib.FramedStream
import Urdira.Lib.PrefixCode
import Urdira.Lib.Utf8

open ByteOrder FramedStream PrefixCode Utf8

namespace WorkerProtocol

abbrev U32 := Fin 4294967296

abbrev ProtocolError := String

def maxFrameChunkBytes : ℕ := 256 * 1024

def maxMessageBytes : ℕ := 16 * 1024 * 1024

def protobufFrameVersion : ℕ := 2

def maxProtobufFrameOverheadBytes : ℕ := 320

def wireVarint : ℕ := 0

def wireLengthDelimited : ℕ := 2

structure FrameOptions where
  streamId : U32
  cancellationId : String
  byteBudget : U32
  inFlightBudget : U32
  deriving DecidableEq

def validateIdentifier (value : String) (allowEmpty : Bool) : Except ProtocolError Unit :=
  if (!allowEmpty && (utf8 value).isEmpty) || decide (240 < (utf8 value).length) ||
      (utf8 value).any (fun byte => decide (byte ∈ ([0, 13, 10, 9] : Bytes))) then
    .error "protocol identifier is invalid"
  else .ok ()

section Encode

def writeVarintField (field value : ℕ) : Bytes := varint (field * 8 + wireVarint) ++ varint value

def u32TryFrom (value : ℕ) (message : ProtocolError) : Except ProtocolError ℕ :=
  if value < 4294967296 then .ok value else .error message

def writeBytesField (field : ℕ) (value : Bytes) : Except ProtocolError Bytes := do
  let length ← u32TryFrom value.length "Protobuf bytes field is too large"
  .ok (varint (field * 8 + wireLengthDelimited) ++ varint length ++ value)

def frameBody (options : FrameOptions) (sequence offset : ℕ) (piece : Bytes) (finalFrame : Bool) :
    Except ProtocolError Bytes := do
  let offset ← u32TryFrom offset "message offset is too large"
  let scalars := writeVarintField 1 protobufFrameVersion ++ writeVarintField 2 options.streamId ++
    writeVarintField 3 sequence ++ writeVarintField 4 offset ++
      writeVarintField 5 options.byteBudget ++
    writeVarintField 6 options.inFlightBudget
  let cancellation ← writeBytesField 7 (utf8 options.cancellationId)
  let payload ← writeBytesField 8 piece
  let body := scalars ++ cancellation ++ payload ++ writeVarintField 9 finalFrame.toNat
  if maxFrameChunkBytes < body.length then .error "Protobuf frame exceeds its chunk budget"
  else .ok body

def encodeFrames (options : FrameOptions) (payload : Bytes) (maxPayload : ℕ)
    (hpayload : 0 < maxPayload)
    (offset sequence : ℕ) : Except ProtocolError (List Bytes) := do
  let payloadLength := min (payload.length - offset) maxPayload
  let finalFrame := decide (payload.length ≤ offset + payloadLength)
  let body ← frameBody options sequence offset ((payload.drop offset).take payloadLength) finalFrame
  let length ← u32TryFrom body.length "frame is too large"
  let frame := beBytes 4 length ++ body
  let next ← u32TryFrom (sequence + 1) "too many frame chunks"
  if payload.length ≤ offset + payloadLength then .ok [frame]
  else do
    let frames ← encodeFrames options payload maxPayload hpayload (offset + payloadLength) next
    .ok (frame :: frames)
termination_by payload.length - offset

def encodeMessage {T : Type} (toVec : T → Option Bytes) (value : T) (options : FrameOptions) :
    Except ProtocolError (List Bytes) := do
  validateIdentifier options.cancellationId true
  if options.byteBudget = 0 ∨ options.inFlightBudget =
    0 then .error "byte and in-flight budgets must be positive"
  else
    match toVec value with
    | none => .error "message serialization failed"
    | some payload =>
      let limit := min (min options.byteBudget.val options.inFlightBudget.val) maxMessageBytes
      if limit < payload.length then .error "message exceeds its mandatory budget"
      else
        let overhead := maxProtobufFrameOverheadBytes + (utf8 options.cancellationId).length
        if hpayload : overhead < maxFrameChunkBytes then
          encodeFrames options payload (maxFrameChunkBytes - overhead)
            (Nat.sub_pos_of_lt hpayload) 0 0
        else .error "cancellation id leaves no frame payload budget"

end Encode

section Decode

structure ProtobufFrame where
  streamId : U32
  sequence : U32
  offset : U32
  byteBudget : U32
  inFlightBudget : U32
  cancellationId : String
  payload : Bytes
  finalFrame : Bool
  deriving DecidableEq

def readVarintFrom : List ℕ → ℕ → Bytes → Except ProtocolError (ℕ × Bytes)
  | [], _, _ => .error "Protobuf varint exceeds uint32"
  | _ :: _, _, [] => .error "Protobuf varint is truncated"
  | shift :: shifts, value, byte :: input =>
    if shift = 28 ∧ byte.val / 16 ≠ 0 then .error "Protobuf varint exceeds uint32"
    else
      let value := value + byte.val % 128 * 2 ^ shift
      if byte.val < 128 then .ok (value, input) else readVarintFrom shifts value input

def readVarint (input : Bytes) : Except ProtocolError (ℕ × Bytes) :=
  readVarintFrom [0, 7, 14, 21, 28] 0 input

def readBytes (input : Bytes) : Except ProtocolError (Bytes × Bytes) := do
  let (length, input) ← readVarint input
  if length ≤ input.length then .ok (input.take length, input.drop length)
  else .error "Protobuf bytes field is truncated"

structure FrameFields where
  seen : List ℕ := []
  scalars : ℕ → Option ℕ := fun _ => none
  cancellation : Option Bytes := none
  payload : Option Bytes := none

def decodeField (fields : FrameFields) (input : Bytes) :
    Except ProtocolError (FrameFields × Bytes) := do
  let (tag, input) ← readVarint input
  let field := tag / 8
  let wire := tag % 8
  if field < 1 ∨ 9 < field ∨ field ∈ fields.seen then
    .error "Protobuf frame has an unknown or duplicate field"
  else
    let fields := { fields with seen := field :: fields.seen }
    if field = 7 ∨ field = 8 then
      if wire ≠ wireLengthDelimited then .error "Protobuf bytes have the wrong wire type"
      else do
        let (value, input) ← readBytes input
        if field = 7 then .ok ({ fields with cancellation := some value }, input)
        else .ok ({ fields with payload := some value }, input)
    else if wire ≠ wireVarint then .error "Protobuf scalar has the wrong wire type"
    else do
      let (value, input) ← readVarint input
      .ok ({ fields with scalars := Function.update fields.scalars field (some value) }, input)

def decodeFields : ℕ → FrameFields → Bytes → Except ProtocolError FrameFields
  | 0, fields, _ => .ok fields
  | _ + 1, fields, [] => .ok fields
  | fuel + 1, fields, input => do
    let (fields, input) ← decodeField fields input
    decodeFields fuel fields input

def required {α : Type} : Option α → Except ProtocolError α
  | some value => .ok value
  | none => .error "required field was checked"

def decodeFrame (input : Bytes) : Except ProtocolError ProtobufFrame := do
  let fields ← decodeFields input.length {} input
  if fields.seen.length ≠ 9 ∨ fields.scalars 1 ≠ some protobufFrameVersion then
    .error "Protobuf frame version or required fields are invalid"
  else do
    let cancellation ← required fields.cancellation
    match fromUtf8 cancellation with
    | none => .error "cancellation id is not UTF-8"
    | some cancellationId => do
      validateIdentifier cancellationId true
      let finalFrame ← required (fields.scalars 9)
      if 1 < finalFrame then .error "Protobuf final flag is invalid"
      else do
        let byteBudget ← required (fields.scalars 5)
        let inFlightBudget ← required (fields.scalars 6)
        if byteBudget = 0 ∨ inFlightBudget = 0 then .error "frame budgets must be positive"
        else do
          let streamId ← required (fields.scalars 2)
          let sequence ← required (fields.scalars 3)
          let offset ← required (fields.scalars 4)
          let payload ← required fields.payload
          .ok {
            streamId := Fin.ofNat _ streamId
            sequence := Fin.ofNat _ sequence
            offset := Fin.ofNat _ offset
            byteBudget := Fin.ofNat _ byteBudget
            inFlightBudget := Fin.ofNat _ inFlightBudget
            cancellationId
            payload
            finalFrame := decide (finalFrame = 1)
          }

end Decode

section Decoder

structure DecodedMessage where
  streamId : U32
  cancellationId : String
  byteBudget : U32
  inFlightBudget : U32
  payload : Bytes
  deriving DecidableEq

structure PendingStream where
  cancellationId : String
  byteBudget : U32
  inFlightBudget : U32
  nextSequence : U32
  nextOffset : U32
  payload : Bytes
  deriving DecidableEq

structure FrameDecoder where
  buffered : Bytes
  streams : List (U32 × PendingStream)
  maxMessageBytes : ℕ

namespace FrameDecoder

def new (maxBytes : ℕ) : FrameDecoder := ⟨[], [], min maxBytes WorkerProtocol.maxMessageBytes⟩

def default : FrameDecoder := new WorkerProtocol.maxMessageBytes

def acceptPending (maxBytes : ℕ) (pending : PendingStream) (frame : ProtobufFrame) :
    Except ProtocolError PendingStream :=
  if pending.cancellationId ≠ frame.cancellationId ∨ pending.byteBudget ≠ frame.byteBudget ∨
      pending.inFlightBudget ≠ frame.inFlightBudget then
    .error "stream metadata changed between chunks"
  else if frame.sequence ≠ pending.nextSequence ∨ frame.offset ≠ pending.nextOffset then
    .error "chunks are missing, duplicated, or out of order"
  else
    let nextSize := pending.payload.length + frame.payload.length
    let budget := min (min frame.byteBudget.val frame.inFlightBudget.val) maxBytes
    if budget < nextSize then .error "message exceeds a mandatory budget"
    else if 4294967296 ≤ nextSize then .error "message offset is too large"
    else if 4294967296 ≤ pending.nextSequence.val + 1 then .error "too many chunks"
    else .ok { pending with
      payload := pending.payload ++ frame.payload
      nextOffset := Fin.ofNat _ nextSize
      nextSequence := Fin.ofNat _ (pending.nextSequence.val + 1) }

def acceptFrame (maxBytes : ℕ) (streams : List (U32 × PendingStream)) (body : Bytes) :
    Except ProtocolError (Option DecodedMessage × List (U32 × PendingStream)) := do
  let frame ← decodeFrame body
  let pending := (AssocMap.get streams frame.streamId).getD
    ⟨frame.cancellationId, frame.byteBudget, frame.inFlightBudget, 0, 0, []⟩
  let pending ← acceptPending maxBytes pending frame
  if frame.finalFrame then
    .ok (some ⟨frame.streamId, pending.cancellationId, frame.byteBudget, frame.inFlightBudget,
      pending.payload⟩,
      AssocMap.erase streams frame.streamId)
  else .ok (none, AssocMap.insert streams frame.streamId pending)

def protocol (maxBytes : ℕ) :
    Protocol ProtocolError (List (U32 × PendingStream)) DecodedMessage where
  lengthError length := if 1 ≤ length ∧ length ≤ maxFrameChunkBytes then none
  else some "frame length is invalid"
  accept := acceptFrame maxBytes

def push (decoder : FrameDecoder) (chunk : Bytes) :
    Except ProtocolError (List DecodedMessage × FrameDecoder) := do
  let (completed, buffered, streams) ← FramedStream.push (protocol decoder.maxMessageBytes)
    decoder.buffered
    decoder.streams chunk
  .ok (completed, { decoder with buffered, streams })

def finish (decoder : FrameDecoder) : Except ProtocolError Unit :=
  if decoder.buffered.isEmpty && decoder.streams.isEmpty then .ok ()
  else .error "stream ended with an incomplete frame or message"

def pushAll : FrameDecoder → List Bytes → List DecodedMessage × Except ProtocolError FrameDecoder
  | decoder, [] => ([], .ok decoder)
  | decoder, chunk :: chunks =>
    match decoder.push chunk with
    | .error e => ([], .error e)
    | .ok (completed, decoder) =>
        (completed ++ (decoder.pushAll chunks).1, (decoder.pushAll chunks).2)

theorem pushAll_eq (decoder : FrameDecoder) (chunks : List Bytes) :
    decoder.pushAll chunks =
      ((FramedStream.pushAll (protocol decoder.maxMessageBytes) decoder.buffered
        decoder.streams chunks).1,
        (FramedStream.pushAll (protocol decoder.maxMessageBytes) decoder.buffered decoder.streams
          chunks).2.map
          (fun rest => { decoder with buffered := rest.1, streams := rest.2 })) := by
  induction chunks generalizing decoder with
  | nil => rfl
  | cons chunk chunks ih =>
    rw [pushAll, FramedStream.pushAll, push]
    cases FramedStream.push (protocol decoder.maxMessageBytes) decoder.buffered
      decoder.streams chunk with
    | error e => rfl
    | ok pushed =>
      obtain ⟨completed, buffered, streams⟩ := pushed
      exact congrArg (fun later => (completed ++ later.1, later.2))
        (ih { decoder with buffered, streams })

end FrameDecoder

end Decoder

end WorkerProtocol
