import Urdira.Daemon.IpcValue

open ByteOrder FramedStream

namespace Daemon

def ipcProtocolVersion : U32 := 2

def ipcDefaultMaxFrameBytes : ℕ := 256 * 1024

inductive Outcome where
  | success
  | error
  | cancelled
  deriving DecidableEq

def Outcome.name : Outcome → String
  | .success => "success"
  | .error => "error"
  | .cancelled => "cancelled"

def Outcome.ofName (name : String) : Option Outcome :=
  if name = "success" then some .success
  else if name = "error" then some .error
  else if name = "cancelled" then some .cancelled
  else none

structure IpcRequest where
  protocolVersion : U32
  requestId : String
  call : String
  deadlineAt : String
  cancellationId : String
  payload : JsValue

structure IpcResponse where
  protocolVersion : U32
  requestId : String
  outcome : Outcome
  payload : Option JsValue
  error : Option JsValue

structure IpcProgress where
  protocolVersion : U32
  requestId : String
  progress : JsValue

inductive IpcFrame where
  | request (request : IpcRequest)
  | response (response : IpcResponse)
  | progress (progress : IpcProgress)

section Encode

variable (wire : Wire)

def writeString (field : ℕ) (value : String) : Bytes :=
  wire.tag field .lengthDelimited ++ wire.string value

def writeValue (field : ℕ) : Option JsValue → Except Thrown Bytes
  | none => .ok []
  | some value => do
    let encoded ← encodeValue wire value
    .ok (wire.tag field .lengthDelimited ++ wire.bytes encoded)

def writeControl (protocolVersion : U32) (requestId kind : String) : Bytes :=
  wire.tag 1 .varint ++ wire.uint32 protocolVersion ++ writeString wire 2 requestId ++
    writeString wire 3 kind

def encodeProtoFrame : IpcFrame → Except Thrown Bytes
  | .request frame => do
    let payload ← writeValue wire 7 (some frame.payload)
    .ok (writeControl wire frame.protocolVersion frame.requestId "request" ++
      writeString wire 4 frame.call ++
      writeString wire 5 frame.deadlineAt ++ writeString wire 6 frame.cancellationId ++ payload)
  | .response frame => do
    let payload ← writeValue wire 7 frame.payload
    let error ← writeValue wire 9 frame.error
    .ok (writeControl wire frame.protocolVersion frame.requestId "response" ++
      writeString wire 8 frame.outcome.name ++ payload ++ error)
  | .progress frame => do
    let progress ← writeValue wire 10 (some frame.progress)
    .ok (writeControl wire frame.protocolVersion frame.requestId "progress" ++ progress)

def frameTooLarge (length maxFrameBytes : ℕ) : DaemonError :=
  ⟨"core:ipc_frame_too_large", s!"IPC frame is {length} bytes; maximum is {maxFrameBytes}."⟩

def encodeIpcFrame (frame : IpcFrame) (maxFrameBytes : ℕ) : Except Thrown Bytes := do
  let body ← encodeProtoFrame wire frame
  if maxFrameBytes < body.length then .error (.daemon (frameTooLarge body.length maxFrameBytes))
  else if 4294967296 ≤ body.length then .error .foreign
  else .ok (framed body)

end Encode

section Decode

structure DecodedProtoFrameFields where
  protocolVersion : Option U32 := none
  requestId : Option String := none
  kind : Option String := none
  call : Option String := none
  deadline : Option String := none
  cancellation : Option String := none
  payload : Option JsValue := none
  outcome : Option String := none
  error : Option JsValue := none
  progress : Option JsValue := none

variable (wire : Wire)

def decodeStringField (input : Bytes) : Except Thrown (String × Bytes) :=
  read (wire.readString input)

def valueFuel (body : Bytes) : ℕ := 2 * body.length + 2

def decodeValueField (input : Bytes) : Except Thrown (JsValue × Bytes) := do
  let (body, input) ← read (wire.readBytes input)
  let value ← decodeValue wire (valueFuel body) body
  .ok (value, input)

def decodeProtoFrameField (fields : DecodedProtoFrameFields) (field : ℕ) (input : Bytes) :
    Except Thrown (DecodedProtoFrameFields × Bytes) :=
  match field with
  | 1 => do
    let (value, input) ← read (wire.readUint32 input)
    .ok ({ fields with protocolVersion := some value }, input)
  | 2 => do
    let (value, input) ← decodeStringField wire input
    .ok ({ fields with requestId := some value }, input)
  | 3 => do
    let (value, input) ← decodeStringField wire input
    .ok ({ fields with kind := some value }, input)
  | 4 => do
    let (value, input) ← decodeStringField wire input
    .ok ({ fields with call := some value }, input)
  | 5 => do
    let (value, input) ← decodeStringField wire input
    .ok ({ fields with deadline := some value }, input)
  | 6 => do
    let (value, input) ← decodeStringField wire input
    .ok ({ fields with cancellation := some value }, input)
  | 7 => do
    let (value, input) ← decodeValueField wire input
    .ok ({ fields with payload := some value }, input)
  | 8 => do
    let (value, input) ← decodeStringField wire input
    .ok ({ fields with outcome := some value }, input)
  | 9 => do
    let (value, input) ← decodeValueField wire input
    .ok ({ fields with error := some value }, input)
  | 10 => do
    let (value, input) ← decodeValueField wire input
    .ok ({ fields with progress := some value }, input)
  | field => .error (frameInvalid s!"Unknown closed protobuf frame field {field}.")

def decodeProtoFrameFields : ℕ → DecodedProtoFrameFields → Bytes →
      Except Thrown DecodedProtoFrameFields
  | 0, _, _ => .error .foreign
  | fuel + 1, fields, input =>
    if input.isEmpty then .ok fields
    else do
      let ((field, wireType), input) ← read (wire.readTag input)
      if wireType ≠ .varint ∧ wireType ≠ .lengthDelimited then
        .error (frameInvalid "Protobuf frame uses an unsupported wire type.")
      else do
        let (fields, input) ← decodeProtoFrameField wire fields field input
        decodeProtoFrameFields fuel fields input

def property (key : String) : JsValue → Option JsValue
  | .object own => own.lookup key
  | .derived own prototype => (own.lookup key).or (property key prototype)
  | _ => none

def isString : JsValue → Bool
  | .string _ => true
  | _ => false

def isNumber : JsValue → Bool
  | .number _ => true
  | _ => false

def validProgress (progress : JsValue) : Bool :=
  (property "phase" progress).any isString && (property "completed" progress).any isNumber

def decodedRequest (fields : DecodedProtoFrameFields) (protocolVersion : U32) (requestId : String) :
    Option IpcFrame := do
  let call ← fields.call
  let deadline ← fields.deadline
  let cancellation ← fields.cancellation
  let payload ← fields.payload
  some (.request ⟨protocolVersion, requestId, call, deadline, cancellation, payload⟩)

def decodedResponse (fields : DecodedProtoFrameFields) (protocolVersion : U32)
    (requestId : String) :
    Option (Except Thrown IpcFrame) := do
  let outcome ← fields.outcome
  match Outcome.ofName outcome with
  | some outcome =>
      some (.ok (.response ⟨protocolVersion, requestId, outcome, fields.payload, fields.error⟩))
  | none => some (.error (frameInvalid "IPC frame kind is not registered."))

def decodedProgress (fields : DecodedProtoFrameFields) (protocolVersion : U32)
    (requestId : String) :
    Option (Except Thrown IpcFrame) := do
  let progress ← fields.progress
  if validProgress progress then some (.ok (.progress ⟨protocolVersion, requestId, progress⟩))
  else some (.error (frameInvalid "IPC progress frame is incomplete."))

def validateDecodedProtoFrame (fields : DecodedProtoFrameFields) : Except Thrown IpcFrame :=
  match fields.protocolVersion, fields.requestId, fields.kind with
  | some protocolVersion, some requestId, some kind =>
    if protocolVersion ≠ ipcProtocolVersion ∨ requestId = "" then
      .error (frameInvalid "Protobuf frame is missing required control fields.")
    else
      let frame :=
        if kind = "request" then (decodedRequest fields protocolVersion requestId).map .ok
        else if kind = "response" then decodedResponse fields protocolVersion requestId
        else if kind = "progress" then decodedProgress fields protocolVersion requestId
        else none
      frame.getD (.error (frameInvalid "Protobuf frame does not match its closed message kind."))
  | _, _, _ => .error (frameInvalid "Protobuf frame is missing required control fields.")

def decodeProtoFrame (body : Bytes) : Except Thrown IpcFrame := do
  let fields ← decodeProtoFrameFields wire (body.length + 1) {} body
  validateDecodedProtoFrame fields

def decodeIpcFrame (encoded : Bytes) (maxFrameBytes : ℕ) : Except DaemonError IpcFrame :=
  if encoded.length < 4 then .error ⟨"core:ipc_frame_invalid",
    "IPC frame is missing its length prefix."⟩
  else
    let length := bodyLength encoded
    if maxFrameBytes < length then .error (frameTooLarge length maxFrameBytes)
    else if encoded.length ≠ length + 4 then
      .error ⟨"core:ipc_frame_invalid", "IPC frame length does not match its payload."⟩
    else
      match decodeProtoFrame wire (encoded.drop 4) with
      | .ok frame => .ok frame
      | .error (.daemon error) => .error error
      | .error .foreign => .error ⟨"core:ipc_frame_invalid", "Protobuf frame is invalid."⟩

end Decode

structure LengthPrefixedDecoder where
  pending : Bytes
  maxFrameBytes : ℕ

namespace LengthPrefixedDecoder

def new (maxFrameBytes : ℕ) : LengthPrefixedDecoder := ⟨[], maxFrameBytes⟩

variable (wire : Wire)

def protocol (maxFrameBytes : ℕ) : Protocol DaemonError Unit IpcFrame where
  lengthError length :=
    if maxFrameBytes < length then some (frameTooLarge length maxFrameBytes) else none
  accept _ body :=
    (decodeIpcFrame wire (framed body) maxFrameBytes).map (fun frame => (some frame, ()))

def push (decoder : LengthPrefixedDecoder) (chunk : Bytes) :
    Except DaemonError (List IpcFrame × LengthPrefixedDecoder) := do
  let (frames, pending, _) ← FramedStream.push (protocol wire decoder.maxFrameBytes) decoder.pending
    () chunk
  .ok (frames, { decoder with pending })

def pushAll : LengthPrefixedDecoder → List Bytes →
      List IpcFrame × Except DaemonError LengthPrefixedDecoder
  | decoder, [] => ([], .ok decoder)
  | decoder, chunk :: chunks =>
    match push wire decoder chunk with
    | .error e => ([], .error e)
    | .ok (frames, decoder) => (frames ++ (pushAll decoder chunks).1, (pushAll decoder chunks).2)

theorem pushAll_eq (decoder : LengthPrefixedDecoder) (chunks : List Bytes) :
    pushAll wire decoder chunks =
      ((FramedStream.pushAll (protocol wire decoder.maxFrameBytes) decoder.pending () chunks).1,
        (FramedStream.pushAll (protocol wire decoder.maxFrameBytes) decoder.pending () chunks).2.map
          (fun rest => { decoder with pending := rest.1 })) := by
  induction chunks generalizing decoder with
  | nil => rfl
  | cons chunk chunks ih =>
    rw [pushAll, FramedStream.pushAll, push]
    cases FramedStream.push (protocol wire decoder.maxFrameBytes) decoder.pending () chunk with
    | error e => rfl
    | ok pushed =>
      obtain ⟨frames, pending, u⟩ := pushed
      exact congrArg (fun later => (frames ++ later.1, later.2)) (ih { decoder with pending })

end LengthPrefixedDecoder

end Daemon
