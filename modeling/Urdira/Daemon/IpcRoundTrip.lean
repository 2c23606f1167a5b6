import Urdira.Daemon.ProtobufWire
import Urdira.Daemon.ValueRoundTrip

open ByteOrder FramedStream

namespace Daemon

namespace IpcFrame

def protocolVersion : IpcFrame → U32
  | .request frame => frame.protocolVersion
  | .response frame => frame.protocolVersion
  | .progress frame => frame.protocolVersion

def requestId : IpcFrame → String
  | .request frame => frame.requestId
  | .response frame => frame.requestId
  | .progress frame => frame.requestId

def values : IpcFrame → List JsValue
  | .request frame => [frame.payload]
  | .response frame => frame.payload.toList ++ frame.error.toList
  | .progress frame => [frame.progress]

def sortKeys : IpcFrame → IpcFrame
  | .request frame => .request { frame with payload := frame.payload.sortKeys }
  | .response frame => .response { frame with
      payload := frame.payload.map JsValue.sortKeys
      error := frame.error.map JsValue.sortKeys }
  | .progress frame => .progress { frame with progress := frame.progress.sortKeys }

def Plain (frame : IpcFrame) : Prop := ∀ value ∈ frame.values, value.Plain

def ProtoFree (frame : IpcFrame) : Prop := ∀ value ∈ frame.values, value.ProtoFree

def HasProgress : IpcFrame → Prop
  | .progress frame => validProgress frame.progress = true
  | _ => True

theorem values_sortKeys (frame : IpcFrame) :
    frame.sortKeys.values = frame.values.map JsValue.sortKeys := by
  cases frame with
  | request frame => rfl
  | response frame =>
    obtain ⟨version, id, outcome, payload, error⟩ := frame
    cases payload with
    | none =>
      cases error with
      | none => rfl
      | some error => rfl
    | some payload =>
      cases error with
      | none => rfl
      | some error => rfl
  | progress frame => rfl

theorem protoFree_sortKeys (frame : IpcFrame) : frame.sortKeys.ProtoFree ↔ frame.ProtoFree := by
  rw [ProtoFree, ProtoFree, values_sortKeys, List.forall_mem_map]
  exact forall₂_congr
    fun value _ => by rw [JsValue.ProtoFree, JsValue.ProtoFree, Daemon.protoFree_sortKeys]

theorem sortKeys_sortKeys (frame : IpcFrame) : frame.sortKeys.sortKeys = frame.sortKeys := by
  have hidem : JsValue.sortKeys ∘ JsValue.sortKeys = JsValue.sortKeys := funext sortKeys_idem
  cases frame with
  | request frame => rw [sortKeys, sortKeys, sortKeys_idem]
  | response frame => rw [sortKeys, sortKeys, Option.map_map, Option.map_map, hidem]
  | progress frame => rw [sortKeys, sortKeys, sortKeys_idem]

end IpcFrame

theorem lookup_mergeSort {own : List (String × JsValue)} (h : (own.map Prod.fst).Nodup)
    (key : String) :
    ((own.mergeSort entryLe).map sortEntry).lookup key = (own.lookup key).map JsValue.sortKeys := by
  have hperm := List.mergeSort_perm own entryLe
  have hsorted : ((own.mergeSort entryLe).map Prod.fst).Nodup :=
    (hperm.map Prod.fst).nodup_iff.mpr h
  have hmap : ((own.mergeSort entryLe).map sortEntry).lookup key =
      ((own.mergeSort entryLe).lookup key).map JsValue.sortKeys :=
        AssocMap.get_map_values JsValue.sortKeys _ key
  have hlookup : (own.mergeSort entryLe).lookup key = own.lookup key := by
    cases hget : own.lookup key with
    | none =>
      have hnot := (AssocMap.get_eq_none_iff own key).mp hget
      exact (AssocMap.get_eq_none_iff _ key).mpr
        (fun hmem => hnot ((hperm.map Prod.fst).mem_iff.mp hmem))
    | some value => exact AssocMap.get_of_mem hsorted (hperm.mem_iff.mpr (AssocMap.mem_of_get hget))
  rw [hmap, hlookup]

theorem property_sortKeys {value : JsValue} (h : value.Plain) (key : String) :
    property key value.sortKeys = (property key value).map JsValue.sortKeys := by
  cases value with
  | object own =>
    rw [sortKeys_object, property, property]
    exact lookup_mergeSort (plain_object h).1 key
  | derived own prototype => exact absurd h not_plain_derived
  | array items =>
    rw [sortKeys_array]
    rfl
  | null => rfl
  | boolean => rfl
  | number => rfl
  | string => rfl
  | bytes => rfl

theorem isString_sortKeys (value : JsValue) : isString value.sortKeys = isString value := by
  cases value with
  | object own =>
    rw [sortKeys_object]
    rfl
  | derived own prototype =>
    rw [sortKeys_derived]
    rfl
  | array items =>
    rw [sortKeys_array]
    rfl
  | null => rfl
  | boolean => rfl
  | number => rfl
  | string => rfl
  | bytes => rfl

theorem isNumber_sortKeys (value : JsValue) : isNumber value.sortKeys = isNumber value := by
  cases value with
  | object own =>
    rw [sortKeys_object]
    rfl
  | derived own prototype =>
    rw [sortKeys_derived]
    rfl
  | array items =>
    rw [sortKeys_array]
    rfl
  | null => rfl
  | boolean => rfl
  | number => rfl
  | string => rfl
  | bytes => rfl

theorem validProgress_sortKeys {progress : JsValue} (h : progress.Plain) :
    validProgress progress.sortKeys = validProgress progress := by
  rw [validProgress, validProgress, property_sortKeys h, property_sortKeys h, Option.any_map,
    Option.any_map]
  simp only [isString_sortKeys, isNumber_sortKeys]

section Fields

variable {wire : Wire} (hwire : wire.Lawful)

def FieldsTo (wire : Wire) (fields : DecodedProtoFrameFields) (input : Bytes)
    (result : Except Thrown DecodedProtoFrameFields) : Prop :=
  ∀ fuel, input.length + 1 ≤ fuel → decodeProtoFrameFields wire fuel fields input = result

theorem FieldsTo.nil (fields : DecodedProtoFrameFields) : FieldsTo wire fields [] (.ok fields) := by
  intro fuel hfuel
  obtain ⟨fuel, rfl⟩ : ∃ n, fuel = n + 1 := ⟨fuel - 1, by omega⟩
  rfl

include hwire

theorem decodeProtoFrameFields_tag (fuel : ℕ) (fields : DecodedProtoFrameFields) {field : ℕ}
    {wireType : WireType}
    (hfield : 1 ≤ field ∧ field ≤ 10)
    (hwireType : ¬ (wireType ≠ .varint ∧ wireType ≠ .lengthDelimited)) (rest : Bytes) :
    decodeProtoFrameFields wire (fuel + 1) fields (wire.tag field wireType ++ rest) =
      decodeProtoFrameField wire fields field rest >>= fun decoded =>
        decodeProtoFrameFields wire fuel decoded.1 decoded.2 := by
  rw [decodeProtoFrameFields, tag_isEmpty hwire,
    hwire.readTag field wireType rest hfield.1 hfield.2]
  simp only [Bool.false_eq_true, if_false, read, bind, Except.bind, if_neg hwireType]

theorem FieldsTo.field {fields fields' : DecodedProtoFrameFields} {field : ℕ} {wireType : WireType}
    {written rest : Bytes} {result : Except Thrown DecodedProtoFrameFields}
    (hfield : 1 ≤ field ∧ field ≤ 10)
    (hwireType : ¬ (wireType ≠ .varint ∧ wireType ≠ .lengthDelimited))
    (hdecoded : decodeProtoFrameField wire fields field (written ++ rest) = .ok (fields', rest))
    (h : FieldsTo wire fields' rest result) :
    FieldsTo wire fields (wire.tag field wireType ++ (written ++ rest)) result := by
  intro fuel hfuel
  have htag := List.length_pos_of_ne_nil (hwire.tag_ne_nil field wireType)
  rw [List.length_append, List.length_append] at hfuel
  obtain ⟨fuel, rfl⟩ : ∃ n, fuel = n + 1 := ⟨fuel - 1, by omega⟩
  rw [decodeProtoFrameFields_tag hwire fuel fields hfield hwireType, hdecoded]
  exact h fuel (by omega)

theorem FieldsTo.failed {fields : DecodedProtoFrameFields} {field : ℕ} {wireType : WireType}
    {rest : Bytes}
    {error : Thrown} (hfield : 1 ≤ field ∧ field ≤ 10)
    (hwireType : ¬ (wireType ≠ .varint ∧ wireType ≠ .lengthDelimited))
    (hdecoded : decodeProtoFrameField wire fields field rest = .error error) :
    FieldsTo wire fields (wire.tag field wireType ++ rest) (.error error) := by
  intro fuel hfuel
  obtain ⟨fuel, rfl⟩ : ∃ n, fuel = n + 1 := ⟨fuel - 1, by omega⟩
  rw [decodeProtoFrameFields_tag hwire fuel fields hfield hwireType, hdecoded]
  rfl

theorem decodeStringField_string (value : String) (rest : Bytes) :
    decodeStringField wire (wire.string value ++ rest) = .ok (value, rest) := by
  rw [decodeStringField, hwire.readString]
  rfl

theorem decodeValueField_bytes (body rest : Bytes) :
    decodeValueField wire (wire.bytes body ++ rest) =
      (decodeValue wire (valueFuel body) body).map (fun value => (value, rest)) := by
  rw [decodeValueField, hwire.readBytes]
  simp only [read, bind, Except.bind]
  cases decodeValue wire (valueFuel body) body with
  | error e => rfl
  | ok value => rfl

theorem fieldsTo_control {protocolVersion : U32} {requestId kind : String} {rest : Bytes}
    {result : Except Thrown DecodedProtoFrameFields}
    (h :
      FieldsTo wire
        { protocolVersion := some protocolVersion, requestId := some requestId, kind := some kind }
          rest
      result) : FieldsTo wire {} (writeControl wire protocolVersion requestId kind ++ rest)
        result := by
  simp only [writeControl, writeString, List.append_assoc]
  refine .field hwire
    (by decide) (by decide) (by rw [decodeProtoFrameField, hwire.readUint32]; rfl) ?_
  refine .field hwire
    (by decide) (by decide) (by rw [decodeProtoFrameField, decodeStringField_string hwire]; rfl) ?_
  exact .field hwire
    (by decide) (by decide) (by rw [decodeProtoFrameField, decodeStringField_string hwire]; rfl) h

end Fields

section Values

variable {wire : Wire}

theorem writeValue_ok {field : ℕ} {value : Option JsValue} {written : Bytes}
    (h : writeValue wire field value = .ok written) :
    value = none ∧ written = [] ∨ ∃ plain encoded, value = some plain ∧ encodeValue wire plain =
      .ok encoded ∧
      written = wire.tag field .lengthDelimited ++ wire.bytes encoded := by
  cases value with
  | none => exact .inl ⟨rfl, (Except.ok.inj h).symm⟩
  | some value =>
    rw [writeValue] at h
    obtain ⟨encoded, hencoded, h⟩ := ExceptOk.bind_eq_ok h
    exact .inr ⟨value, encoded, rfl, hencoded, (Except.ok.inj h).symm⟩

structure Mirrors (value result : Option JsValue) : Prop where
  free : ∀ decoded ∈ result, decoded.ProtoFree
  sorted : (∀ plain ∈ value, plain.ProtoFree) → result = value.map JsValue.sortKeys
  present : result.isSome = value.isSome

theorem decoded_value (hwire : wire.Lawful) {value : JsValue} {encoded : Bytes}
    (hplain : value.Plain)
    (h : encodeValue wire value = .ok encoded) :
    (∃ error, decodeValue wire (valueFuel encoded) encoded = .error error ∧ ¬ value.ProtoFree) ∨
      ∃ result, decodeValue wire (valueFuel encoded) encoded = .ok result ∧
        Mirrors (some value) (some result) := by
  cases hdecoded : decodeValue wire (valueFuel encoded) encoded with
  | error e =>
    refine .inl ⟨e, rfl, fun hfree => ?_⟩
    cases hdecoded.symm.trans (decodesTo_sortKeys hwire value hplain hfree h _ le_rfl)
  | ok result =>
    refine .inr ⟨result, rfl, ?_, ?_, rfl⟩
    · rintro decoded ⟨⟩
      exact decodesFree hwire value hplain h _ le_rfl _ hdecoded
    · intro hfree
      exact congrArg some (Except.ok.inj (hdecoded.symm.trans
        (decodesTo_sortKeys hwire value hplain (hfree value rfl) h _ le_rfl)))

theorem optional_value (hwire : wire.Lawful) {fields : DecodedProtoFrameFields} {field : ℕ}
    {set : Option JsValue → DecodedProtoFrameFields} (hfield : 1 ≤ field ∧ field ≤ 10)
    (hset : set none = fields)
    (hdecode : ∀ input, decodeProtoFrameField wire fields field input =
      decodeValueField wire input >>= fun decoded => .ok (set (some decoded.1), decoded.2))
    {value : Option JsValue} {written : Bytes} (hplain : ∀ plain ∈ value, plain.Plain)
    (h : writeValue wire field value = .ok written) (rest : Bytes) :
    (∃ error, FieldsTo wire fields (written ++ rest) (.error error) ∧ ∃ plain ∈ value,
      ¬ plain.ProtoFree) ∨
      ∃ result, Mirrors value result ∧
        ∀ outcome, FieldsTo wire (set result) rest outcome →
          FieldsTo wire fields (written ++ rest) outcome := by
  rcases writeValue_ok h with ⟨rfl, rfl⟩ | ⟨plain, encoded, rfl, hencoded, rfl⟩
  · refine .inr ⟨none, ⟨fun _ hmem => (Option.not_mem_none _ hmem).elim, fun _ => rfl, rfl⟩,
      fun outcome houtcome => ?_⟩
    rw [hset] at houtcome
    exact houtcome
  · have hbytes := decodeValueField_bytes hwire encoded rest
    rcases decoded_value hwire (hplain plain rfl) hencoded with ⟨error, herror, hfree⟩ | ⟨result,
      hresult, hmirrors⟩
    · refine .inl ⟨error, ?_, plain, rfl, hfree⟩
      rw [List.append_assoc]
      refine .failed hwire hfield (by simp) ?_
      rw [hdecode, hbytes, herror]
      rfl
    · refine .inr ⟨some result, hmirrors, fun outcome houtcome => ?_⟩
      rw [List.append_assoc]
      refine .field hwire hfield (by simp) ?_ houtcome
      rw [hdecode, hbytes, hresult]
      rfl

end Values

section Frames

variable {wire : Wire}

def validated (frame : IpcFrame) : Except Thrown IpcFrame :=
  if frame.protocolVersion ≠ ipcProtocolVersion ∨ frame.requestId = "" then
    .error (frameInvalid "Protobuf frame is missing required control fields.")
  else
    match frame with
    | .progress progress =>
      if validProgress progress.progress then .ok frame
      else .error (frameInvalid "IPC progress frame is incomplete.")
    | frame => .ok frame

structure FrameMirrors (frame decoded : IpcFrame) : Prop where
  free : decoded.ProtoFree
  sorted : frame.ProtoFree → decoded = frame.sortKeys
  protocolVersion : decoded.protocolVersion = frame.protocolVersion
  requestId : decoded.requestId = frame.requestId

theorem decodeProtoFrame_of_fieldsTo {body : Bytes} {result : Except Thrown DecodedProtoFrameFields}
    (h : FieldsTo wire {} body result) :
    decodeProtoFrame wire body = result >>= validateDecodedProtoFrame := by
  rw [decodeProtoFrame, h _ le_rfl]

def requestFields (frame : IpcRequest) (payload : Option JsValue) : DecodedProtoFrameFields where
  protocolVersion := some frame.protocolVersion
  requestId := some frame.requestId
  kind := some "request"
  call := some frame.call
  deadline := some frame.deadlineAt
  cancellation := some frame.cancellationId
  payload := payload

def responseFields (frame : IpcResponse) (payload error : Option JsValue) :
    DecodedProtoFrameFields where
  protocolVersion := some frame.protocolVersion
  requestId := some frame.requestId
  kind := some "response"
  outcome := some frame.outcome.name
  payload := payload
  error := error

def progressFields (frame : IpcProgress) (progress : Option JsValue) : DecodedProtoFrameFields where
  protocolVersion := some frame.protocolVersion
  requestId := some frame.requestId
  kind := some "progress"
  progress := progress

theorem fieldsTo_request (hwire : wire.Lawful) {frame : IpcRequest} {rest : Bytes}
    {outcome : Except Thrown DecodedProtoFrameFields}
    (h : FieldsTo wire (requestFields frame none) rest outcome) :
    FieldsTo wire {} (writeControl wire frame.protocolVersion frame.requestId "request" ++
      writeString wire 4 frame.call ++ writeString wire 5 frame.deadlineAt ++
        writeString wire 6 frame.cancellationId ++
      rest) outcome := by
  simp only [writeString, List.append_assoc]
  refine fieldsTo_control hwire ?_
  refine .field hwire
    (by decide) (by decide) (by rw [decodeProtoFrameField, decodeStringField_string hwire]; rfl) ?_
  refine .field hwire
    (by decide) (by decide) (by rw [decodeProtoFrameField, decodeStringField_string hwire]; rfl) ?_
  exact .field hwire
    (by decide) (by decide) (by rw [decodeProtoFrameField, decodeStringField_string hwire]; rfl) h

theorem fieldsTo_response (hwire : wire.Lawful) {frame : IpcResponse} {rest : Bytes}
    {outcome : Except Thrown DecodedProtoFrameFields}
    (h : FieldsTo wire (responseFields frame none none) rest outcome) :
    FieldsTo wire {} (writeControl wire frame.protocolVersion frame.requestId "response" ++
      writeString wire 8 frame.outcome.name ++ rest) outcome := by
  simp only [writeString, List.append_assoc]
  refine fieldsTo_control hwire ?_
  exact .field hwire
    (by decide) (by decide) (by rw [decodeProtoFrameField, decodeStringField_string hwire]; rfl) h

theorem validate_progressFields (frame : IpcProgress) (decoded : JsValue) :
    validateDecodedProtoFrame (progressFields frame (some decoded)) =
      validated (.progress { frame with progress := decoded }) := by
  refine ite_congr rfl (fun _ => rfl) (fun _ => ?_)
  change (decodedProgress (progressFields frame (some decoded)) frame.protocolVersion
    frame.requestId).getD _ = _
  rw [decodedProgress]
  change (if validProgress decoded = true then _ else _ : Option (Except Thrown IpcFrame)).getD _ =
    if validProgress decoded = true then _ else _
  split
  · rfl
  · rfl

theorem ofName_name (outcome : Outcome) : Outcome.ofName outcome.name = some outcome := by
  cases outcome with
  | success => rfl
  | error => rfl
  | cancelled => rfl

theorem validate_responseFields (frame : IpcResponse) (payload error : Option JsValue) :
    validateDecodedProtoFrame (responseFields frame payload error) =
      validated (.response { frame with payload, error }) := by
  refine ite_congr rfl (fun _ => rfl) (fun _ => ?_)
  change (decodedResponse (responseFields frame payload error) frame.protocolVersion
    frame.requestId).getD _ = _
  have houtcome : decodedResponse (responseFields frame payload error) frame.protocolVersion
      frame.requestId =
      some (.ok (.response { frame with payload, error })) := by
    rw [decodedResponse]
    simp only [responseFields, bind, Option.bind, ofName_name]
  rw [houtcome]
  rfl

theorem decodeProtoFrame_request (hwire : wire.Lawful) {frame : IpcRequest} {body : Bytes}
    (hplain : (IpcFrame.request frame).Plain)
    (h : encodeProtoFrame wire (.request frame) = .ok body) :
    (∃ error, decodeProtoFrame wire body = .error error ∧ ¬ (IpcFrame.request frame).ProtoFree) ∨
      ∃ decoded, FrameMirrors (.request frame) decoded ∧ decodeProtoFrame wire body =
        validated decoded := by
  rw [encodeProtoFrame] at h
  obtain ⟨written, hwritten, h⟩ := ExceptOk.bind_eq_ok h
  obtain rfl := Except.ok.inj h
  have hpayload : ∀ plain ∈ some frame.payload, plain ∈ (IpcFrame.request frame).values := by
    rintro plain ⟨⟩
    exact List.mem_singleton_self _
  have hvalue :=
    @optional_value wire hwire (requestFields frame none) 7 (requestFields frame) (by decide) rfl
    (fun _ => rfl) (some frame.payload) written
      (fun plain hmem => hplain plain (hpayload plain hmem)) hwritten []
  rw [List.append_nil] at hvalue
  rcases hvalue with ⟨error, herror, plain, hmem, hfree⟩ | ⟨result, hmirrors, hresult⟩
  · refine .inl ⟨error, ?_, fun hall => hfree (hall plain (hpayload plain hmem))⟩
    rw [decodeProtoFrame_of_fieldsTo (fieldsTo_request hwire herror)]
    rfl
  · obtain ⟨decoded, rfl⟩ : ∃ decoded, result = some decoded :=
      Option.isSome_iff_exists.mp hmirrors.present
    refine .inr ⟨.request { frame with payload := decoded }, ⟨?_, ?_, rfl, rfl⟩, ?_⟩
    · intro value hvalue
      obtain rfl := List.mem_singleton.mp hvalue
      exact hmirrors.free _ rfl
    · intro hall
      have hsorted := hmirrors.sorted (fun plain hmem => hall plain (hpayload plain hmem))
      obtain rfl := Option.some.inj hsorted
      rfl
    · rw [decodeProtoFrame_of_fieldsTo (fieldsTo_request hwire (hresult _ (.nil _)))]
      rfl

theorem decodeProtoFrame_progress (hwire : wire.Lawful) {frame : IpcProgress} {body : Bytes}
    (hplain : (IpcFrame.progress frame).Plain)
    (h : encodeProtoFrame wire (.progress frame) = .ok body) :
    (∃ error, decodeProtoFrame wire body = .error error ∧ ¬ (IpcFrame.progress frame).ProtoFree) ∨
      ∃ decoded, FrameMirrors (.progress frame) decoded ∧ decodeProtoFrame wire body =
        validated decoded := by
  rw [encodeProtoFrame] at h
  obtain ⟨written, hwritten, h⟩ := ExceptOk.bind_eq_ok h
  obtain rfl := Except.ok.inj h
  have hprogress : ∀ plain ∈ some frame.progress, plain ∈ (IpcFrame.progress frame).values := by
    rintro plain ⟨⟩
    exact List.mem_singleton_self _
  have hvalue :=
    @optional_value wire hwire (progressFields frame none) 10 (progressFields frame) (by decide) rfl
    (fun _ => rfl) (some frame.progress) written
      (fun plain hmem => hplain plain (hprogress plain hmem)) hwritten []
  rw [List.append_nil] at hvalue
  rcases hvalue with ⟨error, herror, plain, hmem, hfree⟩ | ⟨result, hmirrors, hresult⟩
  · refine .inl ⟨error, ?_, fun hall => hfree (hall plain (hprogress plain hmem))⟩
    rw [decodeProtoFrame_of_fieldsTo (fieldsTo_control hwire herror)]
    rfl
  · obtain ⟨decoded, rfl⟩ : ∃ decoded, result = some decoded :=
      Option.isSome_iff_exists.mp hmirrors.present
    refine .inr ⟨.progress { frame with progress := decoded }, ⟨?_, ?_, rfl, rfl⟩, ?_⟩
    · intro value hvalue
      obtain rfl := List.mem_singleton.mp hvalue
      exact hmirrors.free _ rfl
    · intro hall
      have hsorted := hmirrors.sorted (fun plain hmem => hall plain (hprogress plain hmem))
      obtain rfl := Option.some.inj hsorted
      rfl
    · rw [decodeProtoFrame_of_fieldsTo (fieldsTo_control hwire (hresult _ (.nil _)))]
      exact validate_progressFields frame decoded

theorem decodeProtoFrame_response (hwire : wire.Lawful) {frame : IpcResponse} {body : Bytes}
    (hplain : (IpcFrame.response frame).Plain)
    (h : encodeProtoFrame wire (.response frame) = .ok body) :
    (∃ error, decodeProtoFrame wire body = .error error ∧ ¬ (IpcFrame.response frame).ProtoFree) ∨
      ∃ decoded, FrameMirrors (.response frame) decoded ∧ decodeProtoFrame wire body =
        validated decoded := by
  rw [encodeProtoFrame] at h
  obtain ⟨written, hwritten, h⟩ := ExceptOk.bind_eq_ok h
  obtain ⟨trailer, htrailer, h⟩ := ExceptOk.bind_eq_ok h
  obtain rfl := Except.ok.inj h
  have hpayload : ∀ plain ∈ frame.payload, plain ∈ (IpcFrame.response frame).values :=
    fun plain hmem => List.mem_append_left _ (Option.mem_toList.mpr hmem)
  have herrors : ∀ plain ∈ frame.error, plain ∈ (IpcFrame.response frame).values :=
    fun plain hmem => List.mem_append_right _ (Option.mem_toList.mpr hmem)
  have hfirst :=
    @optional_value wire hwire (responseFields frame none none) 7
      (fun payload => responseFields frame payload none)
    (by decide) rfl (fun _ => rfl) frame.payload written
      (fun plain hmem => hplain plain (hpayload plain hmem)) hwritten
    trailer
  rw [List.append_assoc]
  rcases hfirst with ⟨error, herror, plain, hmem, hfree⟩ | ⟨payload, hmirrors, hresult⟩
  · refine .inl ⟨error, ?_, fun hall => hfree (hall plain (hpayload plain hmem))⟩
    rw [decodeProtoFrame_of_fieldsTo (fieldsTo_response hwire herror)]
    rfl
  · have hsecond :=
      @optional_value wire hwire (responseFields frame payload none) 9
        (responseFields frame payload)
      (by decide) rfl (fun _ => rfl) frame.error trailer
        (fun plain hmem => hplain plain (herrors plain hmem)) htrailer []
    rw [List.append_nil] at hsecond
    rcases hsecond with ⟨error, herror, plain, hmem, hfree⟩ | ⟨error, hmirrors', hresult'⟩
    · refine .inl ⟨error, ?_, fun hall => hfree (hall plain (herrors plain hmem))⟩
      rw [decodeProtoFrame_of_fieldsTo (fieldsTo_response hwire (hresult _ herror))]
      rfl
    · refine .inr ⟨.response { frame with payload, error }, ⟨?_, ?_, rfl, rfl⟩, ?_⟩
      · intro value hvalue
        rcases List.mem_append.mp hvalue with hvalue | hvalue
        · exact hmirrors.free value (Option.mem_toList.mp hvalue)
        · exact hmirrors'.free value (Option.mem_toList.mp hvalue)
      · intro hall
        rw [IpcFrame.sortKeys, hmirrors.sorted (fun plain hmem => hall plain (hpayload plain hmem)),
          hmirrors'.sorted (fun plain hmem => hall plain (herrors plain hmem))]
      · rw [decodeProtoFrame_of_fieldsTo (fieldsTo_response hwire
          (hresult _ (hresult' _ (.nil _))))]
        exact validate_responseFields frame payload error

theorem decodeProtoFrame_encoded (hwire : wire.Lawful) {frame : IpcFrame} {body : Bytes}
    (hplain : frame.Plain)
    (h : encodeProtoFrame wire frame = .ok body) :
    (∃ error, decodeProtoFrame wire body = .error error ∧ ¬ frame.ProtoFree) ∨
      ∃ decoded, FrameMirrors frame decoded ∧ decodeProtoFrame wire body = validated decoded := by
  cases frame with
  | request frame => exact decodeProtoFrame_request hwire hplain h
  | response frame => exact decodeProtoFrame_response hwire hplain h
  | progress frame => exact decodeProtoFrame_progress hwire hplain h

theorem encodeIpcFrame_ok {frame : IpcFrame} {maxFrameBytes : ℕ} {encoded : Bytes}
    (h : encodeIpcFrame wire frame maxFrameBytes = .ok encoded) :
    ∃ body, encodeProtoFrame wire frame = .ok body ∧ body.length ≤ maxFrameBytes ∧
      body.length < 4294967296 ∧
      encoded = framed body := by
  rw [encodeIpcFrame] at h
  obtain ⟨body, hbody, h⟩ := ExceptOk.bind_eq_ok h
  split at h
  · cases h
  · next hmax =>
    split at h
    · cases h
    · next hlength => exact ⟨body, hbody, Nat.le_of_not_lt hmax, Nat.lt_of_not_le hlength,
        (Except.ok.inj h).symm⟩

theorem decodeIpcFrame_framed {body : Bytes} {maxFrameBytes : ℕ}
    (hmax : body.length ≤ maxFrameBytes)
    (hlength : body.length < 4294967296) (frame : IpcFrame) :
    decodeIpcFrame wire (framed body) maxFrameBytes = .ok frame ↔
      decodeProtoFrame wire body = .ok frame := by
  have hlen : (framed body).length = body.length + 4 := by
    rw [framed, List.length_append, length_beBytes, Nat.add_comm]
  have hfront : bodyLength (framed body) = body.length := by
    rw [bodyLength, framed, List.take_append_of_le_length (by rw [length_beBytes]),
      List.take_of_length_le (by rw [length_beBytes]), beValue_beBytes]
    exact Nat.mod_eq_of_lt hlength
  have hdrop : (framed body).drop 4 = body := by
    rw [framed, List.drop_append_of_le_length (by rw [length_beBytes]),
      List.drop_of_length_le (by rw [length_beBytes]), List.nil_append]
  unfold decodeIpcFrame
  rw [if_neg (by omega), hfront, if_neg (Nat.not_lt.mpr hmax), if_neg (by omega), hdrop]
  cases decodeProtoFrame wire body with
  | ok decoded => simp
  | error error =>
    cases error with
    | daemon error => simp
    | foreign => simp

theorem validated_ok {frame decoded : IpcFrame} :
    validated frame = .ok decoded ↔ decoded = frame ∧ frame.protocolVersion = ipcProtocolVersion ∧
      frame.requestId ≠ "" ∧ frame.HasProgress := by
  unfold validated
  split
  · next hcontrol =>
    constructor
    · intro h
      cases h
    · rintro ⟨-, hversion, hid, -⟩
      rcases hcontrol with hversion' | hid'
      · exact absurd hversion hversion'
      · exact absurd hid' hid
  · next hcontrol =>
    obtain ⟨hversion, hid⟩ := not_or.mp hcontrol
    have hversion' := Decidable.not_not.mp hversion
    cases frame with
    | request frame =>
      constructor
      · exact fun h => ⟨(Except.ok.inj h).symm, hversion', hid, trivial⟩
      · rintro ⟨rfl, -⟩
        rfl
    | response frame =>
      constructor
      · exact fun h => ⟨(Except.ok.inj h).symm, hversion', hid, trivial⟩
      · rintro ⟨rfl, -⟩
        rfl
    | progress frame =>
      constructor
      · intro h
        obtain ⟨hprogress, h⟩ := ExceptOk.ite_eq_ok h
        exact ⟨(Except.ok.inj h).symm, hversion', hid, hprogress⟩
      · rintro ⟨rfl, -, -, hprogress⟩
        exact if_pos hprogress

end Frames

theorem hasProgress_sortKeys {frame : IpcFrame} (hplain : frame.Plain) :
    frame.sortKeys.HasProgress ↔ frame.HasProgress := by
  cases frame with
  | request frame => exact Iff.rfl
  | response frame => exact Iff.rfl
  | progress frame =>
    have hprogress : frame.progress.Plain := hplain _ (List.mem_singleton_self _)
    rw [IpcFrame.sortKeys, IpcFrame.HasProgress, IpcFrame.HasProgress,
      validProgress_sortKeys hprogress]

theorem protoFree_of_mirrors {frame decoded : IpcFrame} (h : FrameMirrors frame decoded)
    (hsame : decoded.sortKeys = frame.sortKeys) : frame.ProtoFree := by
  rw [← IpcFrame.protoFree_sortKeys, ← hsame, IpcFrame.protoFree_sortKeys]
  exact h.free

theorem protoFree_of_round_trip {wire : Wire} (hwire : wire.Lawful) {maxFrameBytes : ℕ}
    {frame decoded : IpcFrame}
    (hplain : frame.Plain) {encoded : Bytes}
    (h : encodeIpcFrame wire frame maxFrameBytes = .ok encoded)
    (hdecoded : decodeIpcFrame wire encoded maxFrameBytes = .ok decoded)
    (hsame : decoded.sortKeys = frame.sortKeys) :
    frame.ProtoFree := by
  obtain ⟨body, hbody, hmax, hlength, rfl⟩ := encodeIpcFrame_ok h
  rw [decodeIpcFrame_framed hmax hlength] at hdecoded
  rcases decodeProtoFrame_encoded hwire hplain hbody with ⟨error, herror, -⟩ | ⟨mirror, hmirrors,
    hvalidated⟩
  · cases herror.symm.trans hdecoded
  · rw [hvalidated, validated_ok] at hdecoded
    obtain ⟨rfl, -⟩ := hdecoded
    exact protoFree_of_mirrors hmirrors hsame

theorem ipc_frame_round_trips_iff (wire : Wire) (hwire : wire.Lawful) (maxFrameBytes : ℕ)
    (frame : IpcFrame)
    (hplain : frame.Plain) (encoded : Bytes)
    (h : encodeIpcFrame wire frame maxFrameBytes = .ok encoded) :
    (∃ decoded, decodeIpcFrame wire encoded maxFrameBytes = .ok decoded ∧ decoded.sortKeys =
      frame.sortKeys) ↔
      frame.protocolVersion = ipcProtocolVersion ∧ frame.requestId ≠ "" ∧ frame.HasProgress ∧
        frame.ProtoFree := by
  obtain ⟨body, hbody, hmax, hlength, rfl⟩ := encodeIpcFrame_ok h
  simp only [decodeIpcFrame_framed hmax hlength]
  rcases decodeProtoFrame_encoded hwire hplain hbody with ⟨error, herror, hfree⟩ | ⟨mirror,
    hmirrors, hvalidated⟩
  · constructor
    · rintro ⟨decoded, hdecoded, -⟩
      cases herror.symm.trans hdecoded
    · rintro ⟨-, -, -, hproto⟩
      exact absurd hproto hfree
  · rw [hvalidated]
    simp only [validated_ok]
    constructor
    · rintro ⟨decoded, ⟨rfl, hversion, hid, hprogress⟩, hsame⟩
      have hproto := protoFree_of_mirrors hmirrors hsame
      rw [hmirrors.protocolVersion] at hversion
      rw [hmirrors.requestId] at hid
      rw [hmirrors.sorted hproto, hasProgress_sortKeys hplain] at hprogress
      exact ⟨hversion, hid, hprogress, hproto⟩
    · rintro ⟨hversion, hid, hprogress, hproto⟩
      have hsorted := hmirrors.sorted hproto
      refine ⟨mirror, ⟨rfl, hmirrors.protocolVersion.trans hversion, ?_, ?_⟩, ?_⟩
      · rw [hmirrors.requestId]
        exact hid
      · rw [hsorted, hasProgress_sortKeys hplain]
        exact hprogress
      · rw [hsorted, IpcFrame.sortKeys_sortKeys]

def nestedRequest : IpcFrame :=
  .request ⟨2, "ipc-1-0", "core:status", "2030", "ipc-1-0:cancel",
    .object [("a", .array [.boolean true, .null])]⟩

theorem ipc_frame_round_trips_nested :
    ∃ encoded, encodeIpcFrame protobufWire nestedRequest ipcDefaultMaxFrameBytes =
    .ok encoded ∧ ∃ decoded, decodeIpcFrame protobufWire encoded ipcDefaultMaxFrameBytes =
      .ok decoded ∧
      decoded.sortKeys = nestedRequest.sortKeys := by
  have hplain : nestedRequest.Plain := by
    intro value hvalue
    obtain rfl := List.mem_singleton.mp hvalue
    rfl
  have hfree : nestedRequest.ProtoFree := by
    intro value hvalue
    obtain rfl := List.mem_singleton.mp hvalue
    rfl
  obtain ⟨encoded, hencoded⟩ : ∃ encoded,
      encodeIpcFrame protobufWire nestedRequest ipcDefaultMaxFrameBytes =
      .ok encoded := ExceptOk.exists_of_isSome (by decide +kernel)
  exact ⟨encoded, hencoded, (ipc_frame_round_trips_iff protobufWire protobufWire_lawful
    ipcDefaultMaxFrameBytes
    nestedRequest hplain encoded hencoded).mpr ⟨rfl, by decide, trivial, hfree⟩⟩

def protoRequest : IpcFrame :=
  .request ⟨2, "ipc-1-0", "core:status", "2030", "ipc-1-0:cancel",
    .object [("__proto__", .object [])]⟩

theorem proto_key_is_lost : protoRequest.Plain ∧ ∃ encoded,
    encodeIpcFrame protobufWire protoRequest ipcDefaultMaxFrameBytes = .ok encoded ∧
      ¬ ∃ decoded, decodeIpcFrame protobufWire encoded ipcDefaultMaxFrameBytes = .ok decoded ∧
        decoded.sortKeys = protoRequest.sortKeys := by
  have hplain : protoRequest.Plain := by
    intro value hvalue
    obtain rfl := List.mem_singleton.mp hvalue
    rfl
  obtain ⟨encoded, hencoded⟩ : ∃ encoded,
      encodeIpcFrame protobufWire protoRequest ipcDefaultMaxFrameBytes =
      .ok encoded := ExceptOk.exists_of_isSome (by decide +kernel)
  refine ⟨hplain, encoded, hencoded, ?_⟩
  rintro ⟨decoded, hdecoded, hsame⟩
  have hfree := protoFree_of_round_trip protobufWire_lawful hplain hencoded hdecoded hsame
  have hkey :=
    (protoFree_object.mp (hfree _ (List.mem_singleton_self _))) _ (List.mem_singleton_self _)
  exact hkey.1 rfl

end Daemon
