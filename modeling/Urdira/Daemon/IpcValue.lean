import Urdira.Daemon.Wire

open ByteOrder

namespace Daemon

structure DaemonError where
  code : String
  message : String
  deriving DecidableEq

inductive Thrown where
  | daemon (error : DaemonError)
  | foreign
  deriving DecidableEq

def frameInvalid (message : String) : Thrown := .daemon ⟨"core:ipc_frame_invalid", message⟩

-- An object whose prototype was assigned is derived from that value, every other one from
-- Object.prototype.
inductive JsValue where
  | null
  | boolean (value : Bool)
  | number (value : Double)
  | string (value : String)
  | bytes (value : Bytes)
  | array (items : List JsValue)
  | object (own : List (String × JsValue))
  | derived (own : List (String × JsValue)) (prototype : JsValue)

def keyLe (left right : String) : Bool := decide (utf8 left ≤ utf8 right)

section Encode

variable (wire : Wire)

def encodeEntry (entry : String × Bytes) : Bytes :=
  wire.tag 1 .lengthDelimited ++ wire.string entry.1 ++
    (wire.tag 2 .lengthDelimited ++ wire.bytes entry.2)

def encodeObject (entries : List (String × Bytes)) : Bytes :=
  if entries.isEmpty then wire.tag 9 .varint ++ wire.bool true
  else (entries.mergeSort (fun a b => keyLe a.1 b.1)).flatMap
    (fun entry => wire.tag 7 .lengthDelimited ++ wire.bytes (encodeEntry wire entry))

mutual

def encodeValue : JsValue → Except Thrown Bytes
  | .null => .ok (wire.tag 1 .varint ++ wire.bool true)
  | .boolean value => .ok (wire.tag 2 .varint ++ wire.bool value)
  | .number value =>
    if value.isFinite then .ok (wire.tag 3 .bit64 ++ wire.double value)
    else .error (frameInvalid
      "IPC payload contains a value that is not supported by the closed protobuf value union.")
  | .string value => .ok (wire.tag 4 .lengthDelimited ++ wire.string value)
  | .bytes value => .ok (wire.tag 5 .lengthDelimited ++ wire.bytes value)
  | .array items => do
    let encoded ← encodeItems items
    if encoded.isEmpty then .ok (wire.tag 8 .varint ++ wire.bool true)
    else .ok (encoded.flatMap (fun item => wire.tag 6 .lengthDelimited ++ wire.bytes item))
  | .object own => do
    let entries ← encodeEntries own
    .ok (encodeObject wire entries)
  | .derived own _ => do
    let entries ← encodeEntries own
    .ok (encodeObject wire entries)

def encodeItems : List JsValue → Except Thrown (List Bytes)
  | [] => .ok []
  | item :: items => do
    let encoded ← encodeValue item
    let rest ← encodeItems items
    .ok (encoded :: rest)

def encodeEntries : List (String × JsValue) → Except Thrown (List (String × Bytes))
  | [] => .ok []
  | (key, value) :: own => do
    let encoded ← encodeValue value
    let rest ← encodeEntries own
    .ok ((key, encoded) :: rest)

end

end Encode

section Assign

inductive Inherited where
  | prototypeSetter
  | getterOnly
  | assignable
  deriving DecidableEq

def inheritedFromObject (key : String) : Inherited :=
  if key = "__proto__" then .prototypeSetter else .assignable

def typedArrayGetters : List String := ["buffer", "byteLength", "byteOffset", "length"]

def inherited (key : String) : JsValue → Inherited
  | .object own => if (own.lookup key).isSome then .assignable else inheritedFromObject key
  | .derived own prototype => if (own.lookup key).isSome then .assignable
    else inherited key prototype
  | .array _ => inheritedFromObject key
  | .bytes _ => if key ∈ typedArrayGetters then .getterOnly else inheritedFromObject key
  | _ => .assignable

def JsValue.own : JsValue → List (String × JsValue)
  | .object own => own
  | .derived own _ => own
  | _ => []

def hasOwn (object : JsValue) (key : String) : Bool := (object.own.lookup key).isSome

def setPrototype (object prototype : JsValue) : JsValue :=
  match prototype with
  | .boolean _ => object
  | .number _ => object
  | .string _ => object
  | prototype => .derived object.own prototype

def withOwn (object : JsValue) (key : String) (value : JsValue) : JsValue :=
  match object with
  | .derived own prototype => .derived (own ++ [(key, value)]) prototype
  | object => .object (object.own ++ [(key, value)])

def assign (object : JsValue) (key : String) (value : JsValue) : Except Thrown JsValue :=
  match inherited key object with
  | .prototypeSetter => .ok (setPrototype object value)
  | .getterOnly => .error .foreign
  | .assignable => .ok (withOwn object key value)

end Assign

section Decode

inductive DecodedValueKind where
  | null
  | boolean
  | number
  | string
  | bytes
  | array
  | object
  deriving DecidableEq

structure DecodedValueState where
  kind : Option DecodedValueKind := none
  scalar : JsValue := .null
  array : List JsValue := []
  object : JsValue := .object []

def setDecodedScalarKind (state : DecodedValueState) (kind : DecodedValueKind) :
    Except Thrown DecodedValueState :=
  if state.kind.isSome then .error (frameInvalid "IPC value has multiple protobuf kinds.")
  else .ok { state with kind := some kind }

def setDecodedCollectionKind (state : DecodedValueState) (kind : DecodedValueKind) :
    Except Thrown DecodedValueState :=
  if state.kind.isSome && decide (state.kind ≠ some kind) then
    .error (frameInvalid "IPC value has multiple protobuf kinds.")
  else .ok { state with kind := some kind }

def requireValueWireType (actual expected : WireType) (field : ℕ) : Except Thrown Unit :=
  if actual ≠ expected then .error (frameInvalid s!"Unknown closed protobuf value field {field}.")
  else .ok ()

def read {α : Type} (result : Option (α × Bytes)) : Except Thrown (α × Bytes) :=
  match result with
  | some result => .ok result
  | none => .error .foreign

variable (wire : Wire)

def decodeScalarValueField (field : ℕ) (wireType : WireType) (state : DecodedValueState)
    (input : Bytes) :
    Except Thrown (DecodedValueState × Bytes) :=
  match field with
  | 1 => do
    requireValueWireType wireType .varint field
    let state ← setDecodedScalarKind state .null
    let (_, input) ← read (wire.readBool input)
    .ok (state, input)
  | 2 => do
    requireValueWireType wireType .varint field
    let state ← setDecodedScalarKind state .boolean
    let (value, input) ← read (wire.readBool input)
    .ok ({ state with scalar := .boolean value }, input)
  | 3 => do
    requireValueWireType wireType .bit64 field
    let state ← setDecodedScalarKind state .number
    let (value, input) ← read (wire.readDouble input)
    .ok ({ state with scalar := .number value }, input)
  | 4 => do
    requireValueWireType wireType .lengthDelimited field
    let state ← setDecodedScalarKind state .string
    let (value, input) ← read (wire.readString input)
    .ok ({ state with scalar := .string value }, input)
  | 5 => do
    requireValueWireType wireType .lengthDelimited field
    let state ← setDecodedScalarKind state .bytes
    let (value, input) ← read (wire.readBytes input)
    .ok ({ state with scalar := .bytes value }, input)
  | 8 => do
    requireValueWireType wireType .varint field
    let state ← setDecodedCollectionKind state .array
    let (_, input) ← read (wire.readBool input)
    .ok (state, input)
  | 9 => do
    requireValueWireType wireType .varint field
    let state ← setDecodedCollectionKind state .object
    let (_, input) ← read (wire.readBool input)
    .ok (state, input)
  | field => .error (frameInvalid s!"Unknown closed protobuf value field {field}.")

def decodedValue (state : DecodedValueState) : Except Thrown JsValue :=
  match state.kind with
  | some .null => .ok .null
  | some .array => .ok (.array state.array)
  | some .object => .ok state.object
  | some _ => .ok state.scalar
  | none => .error (frameInvalid "IPC value is empty.")

mutual

def decodeValue : ℕ → Bytes → Except Thrown JsValue
  | 0, _ => .error .foreign
  | fuel + 1, body => do
    let state ← decodeValueFields fuel {} body
    decodedValue state

def decodeValueFields : ℕ → DecodedValueState → Bytes → Except Thrown DecodedValueState
  | 0, _, _ => .error .foreign
  | fuel + 1, state, input =>
    if input.isEmpty then .ok state
    else do
      let ((field, wireType), input) ← read (wire.readTag input)
      if field = 6 then do
        requireValueWireType wireType .lengthDelimited field
        let state ← setDecodedCollectionKind state .array
        let (body, input) ← read (wire.readBytes input)
        let value ← decodeValue fuel body
        decodeValueFields fuel { state with array := state.array ++ [value] } input
      else if field = 7 then do
        requireValueWireType wireType .lengthDelimited field
        let state ← setDecodedCollectionKind state .object
        let (body, input) ← read (wire.readBytes input)
        let entry ← decodeObjectEntry fuel none none body
        if hasOwn state.object entry.1 then
          .error (frameInvalid "IPC object entry is incomplete or duplicated.")
        else do
          let object ← assign state.object entry.1 entry.2
          decodeValueFields fuel { state with object } input
      else do
        let (state, input) ← decodeScalarValueField wire field wireType state input
        decodeValueFields fuel state input

def decodeObjectEntry : ℕ → Option String → Option JsValue → Bytes →
      Except Thrown (String × JsValue)
  | 0, _, _, _ => .error .foreign
  | fuel + 1, key, value, input =>
    if input.isEmpty then
      match key, value with
      | some key, some value => .ok (key, value)
      | _, _ => .error (frameInvalid "IPC object entry is incomplete or duplicated.")
    else do
      let ((field, wireType), input) ← read (wire.readTag input)
      if field = 1 ∧ wireType = .lengthDelimited ∧ key.isNone then do
        let (key, input) ← read (wire.readString input)
        decodeObjectEntry fuel (some key) value input
      else if field = 2 ∧ wireType = .lengthDelimited ∧ value.isNone then do
        let (body, input) ← read (wire.readBytes input)
        let value ← decodeValue fuel body
        decodeObjectEntry fuel key (some value) input
      else .error (frameInvalid "IPC object entry is invalid or contains an unknown field.")

end

end Decode

end Daemon
