import Urdira.Daemon.ByteChunk
import Urdira.Lib.ExceptOk

open ByteOrder FramedStream PrefixCode TextCodec Utf16

namespace Daemon

namespace ByteChunk

def JsNumber.toNat : JsNumber → ℕ
  | .integer value => value.toNat
  | .other => 0

def uintSize (value : ℕ) : ℕ := Nat.log 128 value + 1

def delimitedSize (length : ℕ) : ℕ := uintSize length + length

def encodedSize (chunk : ProcessByteChunk) : ℕ :=
  11 + uintSize chunk.protocolVersion.toNat + delimitedSize (encodeUtf8 chunk.streamId).length +
    uintSize chunk.sequence.toNat + uintSize chunk.offset.toNat +
      delimitedSize chunk.payload.length + 1 +
    delimitedSize (encodeUtf8 chunk.cancellationId).length + uintSize chunk.maxBytes.toNat +
    uintSize chunk.maxInFlight.toNat + delimitedSize (encodeUtf8 chunk.chunkKind.name).length +
    uintSize chunk.maxInFlightBytes.toNat

def writtenField (field : ℕ) (wireType : WireType) (value rest : Bytes) : Bytes :=
  varint (field * 8 + wireType.number) ++ (value ++ rest)

def delimitedBytes (value : Bytes) : Bytes := varint value.length ++ value

def chunkTail (chunk : ProcessByteChunk) : Bytes :=
  writtenField 7 .lengthDelimited (delimitedBytes (encodeUtf8 chunk.cancellationId)) <|
  writtenField 8 .varint (varint chunk.maxBytes.toNat) <|
  writtenField 9 .varint (varint chunk.maxInFlight.toNat) <|
  writtenField 10 .lengthDelimited (delimitedBytes (encodeUtf8 chunk.chunkKind.name)) <|
  writtenField 11 .varint (varint chunk.maxInFlightBytes.toNat) []

def chunkBody (chunk : ProcessByteChunk) : Bytes :=
  writtenField 1 .varint (varint chunk.protocolVersion.toNat) <|
  writtenField 2 .lengthDelimited (delimitedBytes (encodeUtf8 chunk.streamId)) <|
  writtenField 3 .varint (varint chunk.sequence.toNat) <|
  writtenField 4 .varint (varint chunk.offset.toNat) <|
  writtenField 5 .lengthDelimited (delimitedBytes chunk.payload) <|
  writtenField 6 .varint (varint chunk.final.toNat) (chunkTail chunk)

theorem length_writtenField {field : ℕ} {wireType : WireType} (hfield : field ≤ 11)
    (value rest : Bytes) :
    (writtenField field wireType value rest).length = 1 + value.length + rest.length := by
  have htag : field * 8 + wireType.number < 128 := by
    have hnumber : wireType.number < 8 := by cases wireType <;> decide
    omega
  rw [writtenField, List.length_append, List.length_append, varint_of_lt htag,
    List.length_singleton, add_assoc]

theorem length_delimitedBytes (value : Bytes) :
    (delimitedBytes value).length = delimitedSize value.length := by
  rw [delimitedBytes, List.length_append, length_varint, delimitedSize, uintSize]

theorem length_chunkBody (chunk : ProcessByteChunk) :
    (chunkBody chunk).length = encodedSize chunk := by
  have hfinal : (varint chunk.final.toNat).length = 1 := by cases chunk.final <;> rfl
  rw [chunkBody, chunkTail]
  repeat rw [length_writtenField (by decide)]
  simp only [encodedSize, length_delimitedBytes, length_varint, uintSize,
    List.length_nil] at hfinal ⊢
  omega

theorem chunkKindOf_name (kind : ChunkKind) : chunkKindOf kind.name = .ok kind := by
  cases kind with
  | sourceBytes => rfl
  | factDelta => rfl

theorem toWellFormed_name (kind : ChunkKind) : toWellFormed kind.name = kind.name := by
  cases kind with
  | sourceBytes => rw [ChunkKind.name, toWellFormed, scalars_encode]
  | factDelta => rw [ChunkKind.name, toWellFormed, scalars_encode]

theorem length_name (kind : ChunkKind) : (encodeUtf8 kind.name).length < 2 ^ 32 := by
  cases kind <;> decide +kernel

section Encode

structure IsUint (width : ℕ) (value : ℤ) : Prop where
  nonneg : 0 ≤ value
  bounded : value.toNat < 2 ^ width

structure Writable (chunk : ProcessByteChunk) : Prop where
  protocolVersion : ∃ value, chunk.protocolVersion = .integer value ∧ IsUint 32 value
  streamId : (encodeUtf8 chunk.streamId).length < 2 ^ 32
  sequence : ∃ value, chunk.sequence = .integer value ∧ IsUint 32 value
  offset : IsUint 64 chunk.offset
  payload : chunk.payload.length < 2 ^ 32
  cancellationId : (encodeUtf8 chunk.cancellationId).length < 2 ^ 32
  maxBytes : IsUint 64 chunk.maxBytes
  maxInFlight : ∃ value, chunk.maxInFlight = .integer value ∧ IsUint 32 value
  maxInFlightBytes : IsUint 64 chunk.maxInFlightBytes

theorem written_unsigned_iff {width : ℕ} {value : ℤ} {bytes : Bytes} :
    written (unsigned width value) = .ok bytes ↔ IsUint width value ∧ varint value.toNat =
      bytes := by
  rw [unsigned]
  split
  · rename_i hrange
    have hbounded : value.toNat < 2 ^ width := by
      have hlt : ((value.toNat : ℕ) : ℤ) < ((2 ^ width : ℕ) : ℤ) := by
        rw [Int.toNat_of_nonneg hrange.1]
        exact_mod_cast hrange.2
      exact Int.ofNat_lt.mp hlt
    exact ⟨fun h => ⟨⟨hrange.1, hbounded⟩, Except.ok.inj h⟩, fun h => congrArg Except.ok h.2⟩
  · rename_i hrange
    refine iff_of_false (fun h => by cases h) (fun h => hrange ⟨h.1.nonneg, ?_⟩)
    rw [← Int.toNat_of_nonneg h.1.nonneg]
    exact_mod_cast h.1.bounded

theorem written_delimited_iff {value bytes : Bytes} :
    written (delimited value) = .ok bytes ↔ value.length < 2 ^ 32 ∧ delimitedBytes value =
      bytes := by
  rw [delimited]
  split
  · rename_i hrange
    exact ⟨fun h => ⟨hrange, Except.ok.inj h⟩, fun h => congrArg Except.ok h.2⟩
  · rename_i hrange
    exact iff_of_false (fun h => by cases h) (fun h => hrange h.1)

variable {wire : ChunkWire} (hwire : wire.Lawful) {chunk : ProcessByteChunk} {body : Bytes}

include hwire

theorem writeUint32_iff {value : JsNumber} {bytes : Bytes} : writeUint32 wire value = .ok bytes ↔
    (∃ integer, value = .integer integer ∧ IsUint 32 integer) ∧ varint value.toNat = bytes := by
  cases value with
  | integer value =>
    rw [writeUint32, hwire.uint32, written_unsigned_iff]
    refine and_congr_left' ⟨fun h => ⟨value, rfl, h⟩, ?_⟩
    rintro ⟨_, ⟨⟩, h⟩
    exact h
  | other =>
    refine iff_of_false (fun h => by cases h) ?_
    rintro ⟨⟨_, ⟨⟩, _⟩, _⟩

theorem encode_ok (h : encodeProcessByteChunk wire chunk = .ok body) :
    validateProcessByteChunk chunk = .ok () ∧ Writable chunk ∧ chunkBody chunk = body := by
  obtain ⟨⟨⟩, hvalid, h⟩ := ExceptOk.bind_eq_ok h
  obtain ⟨protocolVersion, hprotocolVersion, h⟩ := ExceptOk.bind_eq_ok h
  obtain ⟨streamId, hstreamId, h⟩ := ExceptOk.bind_eq_ok h
  obtain ⟨sequence, hsequence, h⟩ := ExceptOk.bind_eq_ok h
  obtain ⟨offset, hoffset, h⟩ := ExceptOk.bind_eq_ok h
  obtain ⟨payload, hpayload, h⟩ := ExceptOk.bind_eq_ok h
  obtain ⟨cancellationId, hcancellationId, h⟩ := ExceptOk.bind_eq_ok h
  obtain ⟨maxBytes, hmaxBytes, h⟩ := ExceptOk.bind_eq_ok h
  obtain ⟨maxInFlight, hmaxInFlight, h⟩ := ExceptOk.bind_eq_ok h
  obtain ⟨chunkKind, hchunkKind, h⟩ := ExceptOk.bind_eq_ok h
  obtain ⟨maxInFlightBytes, hmaxInFlightBytes, h⟩ := ExceptOk.bind_eq_ok h
  rw [hwire.string, written_delimited_iff] at hstreamId hcancellationId hchunkKind
  rw [hwire.uint64, written_unsigned_iff] at hoffset hmaxBytes hmaxInFlightBytes
  rw [hwire.bytes, written_delimited_iff] at hpayload
  rw [writeUint32_iff hwire] at hprotocolVersion hsequence hmaxInFlight
  refine ⟨hvalid, ⟨hprotocolVersion.1, hstreamId.1, hsequence.1, hoffset.1, hpayload.1,
    hcancellationId.1, hmaxBytes.1,
    hmaxInFlight.1, hmaxInFlightBytes.1⟩, ?_⟩
  rw [← Except.ok.inj h, chunkBody, chunkTail, hprotocolVersion.2, hstreamId.2, hsequence.2,
    hoffset.2, hpayload.2,
    hcancellationId.2, hmaxBytes.2, hmaxInFlight.2, hchunkKind.2, hmaxInFlightBytes.2]
  simp only [writtenField, hwire.tag, hwire.bool, List.append_assoc, List.append_nil]

theorem encode_of_writable (hvalid : validateProcessByteChunk chunk = .ok ()) (h : Writable chunk) :
    encodeProcessByteChunk wire chunk = .ok (chunkBody chunk) := by
  have hstreamId := written_delimited_iff.mpr ⟨h.streamId, rfl⟩
  have hcancellationId := written_delimited_iff.mpr ⟨h.cancellationId, rfl⟩
  have hchunkKind := written_delimited_iff.mpr ⟨length_name chunk.chunkKind, rfl⟩
  have hpayload := written_delimited_iff.mpr ⟨h.payload, rfl⟩
  have hoffset := written_unsigned_iff.mpr ⟨h.offset, rfl⟩
  have hmaxBytes := written_unsigned_iff.mpr ⟨h.maxBytes, rfl⟩
  have hmaxInFlightBytes := written_unsigned_iff.mpr ⟨h.maxInFlightBytes, rfl⟩
  have hprotocolVersion := (writeUint32_iff hwire).mpr ⟨h.protocolVersion, rfl⟩
  have hsequence := (writeUint32_iff hwire).mpr ⟨h.sequence, rfl⟩
  have hmaxInFlight := (writeUint32_iff hwire).mpr ⟨h.maxInFlight, rfl⟩
  simp only [encodeProcessByteChunk, hvalid, hwire.string, hwire.uint64, hwire.bytes, hstreamId,
    hcancellationId,
    hchunkKind, hpayload, hoffset, hmaxBytes, hmaxInFlightBytes, hprotocolVersion, hsequence,
      hmaxInFlight, bind,
    Except.bind, hwire.tag, hwire.bool, chunkBody, chunkTail, writtenField, List.append_assoc,
      List.append_nil]

theorem encodeChunk_ok {encoded : Bytes} (h : encodeChunk wire chunk = .ok encoded) :
    validateProcessByteChunk chunk = .ok () ∧ Writable chunk ∧ (chunkBody chunk).length < 2 ^ 32 ∧
      framed (chunkBody chunk) = encoded := by
  obtain ⟨body, hbody, h⟩ := ExceptOk.bind_eq_ok h
  obtain ⟨hvalid, hwritable, rfl⟩ := encode_ok hwire hbody
  split at h
  · cases h
  · rename_i hshort
    exact ⟨hvalid, hwritable, Nat.lt_of_not_le hshort, Except.ok.inj h⟩

end Encode

section Decode

variable {wire : ChunkWire}

def FieldsTo (wire : ChunkWire) (fields : DecodedProcessByteChunkFields) (seen : List ℕ)
    (input : Bytes)
    (result : DecodedProcessByteChunkFields) : Prop :=
  ∀ fuel, input.length + 1 ≤ fuel → decodeProcessByteChunkFields wire fuel fields seen input =
    .ok result

theorem FieldsTo.nil (fields : DecodedProcessByteChunkFields) (seen : List ℕ) :
    FieldsTo wire fields seen [] fields := by
  intro fuel hfuel
  obtain ⟨fuel, rfl⟩ : ∃ n, fuel = n + 1 := ⟨fuel - 1, by omega⟩
  rfl

theorem decodeChunkField_ok {α : Type} {expected : WireType} {field : ℕ}
    {result : Option (α × Bytes)} {value : α}
    {rest : Bytes} {set : α → DecodedProcessByteChunkFields} (h : result = some (value, rest)) :
    decodeChunkField expected expected field result set = .ok (set value, rest) := by
  rw [decodeChunkField, requireChunkWireType, if_neg (fun hne => hne rfl), h]
  rfl

theorem FieldsTo.field (hwire : wire.Lawful) {fields fields' result : DecodedProcessByteChunkFields}
    {seen : List ℕ}
    {field : ℕ} {wireType : WireType} {value rest : Bytes} (hfield : 1 ≤ field ∧ field ≤ 11)
    (hnew : field ∉ seen)
    (hdecoded : decodeProcessByteChunkField wire fields field wireType (value ++ rest) =
      .ok (fields', rest))
    (h : FieldsTo wire fields' (field :: seen) rest result) :
    FieldsTo wire fields seen (writtenField field wireType value rest) result := by
  intro fuel hfuel
  rw [length_writtenField hfield.2] at hfuel
  obtain ⟨fuel, rfl⟩ : ∃ n, fuel = n + 1 := ⟨fuel - 1, by omega⟩
  have hnonempty : (writtenField field wireType value rest).isEmpty = false := by
    rw [List.isEmpty_eq_false_iff]
    exact List.append_ne_nil_of_left_ne_nil (varint_ne_nil _) _
  have htag : wire.readTag (writtenField field wireType value rest) =
      some ((field, wireType), value ++ rest) :=
    hwire.readTag field wireType _ hfield.1 (by omega)
  rw [decodeProcessByteChunkFields, hnonempty, if_neg Bool.false_ne_true, htag]
  simp only [read, bind, Except.bind, registerChunkField, if_neg hnew, hdecoded]
  exact h fuel (by omega)

def received (chunk : ProcessByteChunk) : ProcessByteChunk :=
  { chunk with
    streamId := toWellFormed chunk.streamId, cancellationId := toWellFormed chunk.cancellationId }

def receivedFields (chunk : ProcessByteChunk) : DecodedProcessByteChunkFields where
  protocolVersion := some chunk.protocolVersion.toNat
  streamId := some (toWellFormed chunk.streamId)
  sequence := some chunk.sequence.toNat
  offset := some chunk.offset.toNat
  payload := some chunk.payload
  final := some chunk.final
  cancellationId := some (toWellFormed chunk.cancellationId)
  maxBytes := some chunk.maxBytes.toNat
  maxInFlight := some chunk.maxInFlight.toNat
  chunkKind := some chunk.chunkKind
  maxInFlightBytes := some chunk.maxInFlightBytes.toNat

theorem toNat_lt {value : JsNumber} (h : ∃ integer, value = .integer integer ∧ IsUint 32 integer) :
    value.toNat < 2 ^ 32 := by
  obtain ⟨integer, rfl, huint⟩ := h
  exact huint.bounded

theorem integer_toNat {value : JsNumber}
    (h : ∃ integer, value = .integer integer ∧ IsUint 32 integer) :
    JsNumber.integer value.toNat = value := by
  obtain ⟨integer, rfl, huint⟩ := h
  exact congrArg JsNumber.integer (Int.toNat_of_nonneg huint.nonneg)

theorem FieldsTo.value (hwire : wire.Lawful) {fields result : DecodedProcessByteChunkFields}
    {seen : List ℕ} {field : ℕ}
    {wireType : WireType} {written rest : Bytes} {α : Type} {value : α}
    {read : Bytes → Option (α × Bytes)}
    {set : α → DecodedProcessByteChunkFields} (hfield : 1 ≤ field ∧ field ≤ 11)
    (hnew : field ∉ seen)
    (hdecode : ∀ input, decodeProcessByteChunkField wire fields field wireType input =
      decodeChunkField wireType wireType field (read input) set)
    (hread : read (written ++ rest) = some (value, rest))
    (h : FieldsTo wire (set value) (field :: seen) rest result) :
    FieldsTo wire fields seen (writtenField field wireType written rest) result := by
  refine .field hwire hfield hnew ?_ h
  rw [hdecode, decodeChunkField_ok hread]

theorem fieldsTo_kind (hwire : wire.Lawful) {fields result : DecodedProcessByteChunkFields}
    {seen : List ℕ} {rest : Bytes}
    (kind : ChunkKind) (hnew : 10 ∉ seen)
    (h : FieldsTo wire { fields with chunkKind := some kind } (10 :: seen) rest result) :
    FieldsTo wire fields seen (writtenField 10 .lengthDelimited
      (delimitedBytes (encodeUtf8 kind.name)) rest) result := by
  refine .field hwire (by decide) hnew ?_ h
  have hread := hwire.readString kind.name rest (length_name kind)
  rw [decodeProcessByteChunkField, decodeChunkKindField, requireChunkWireType,
    if_neg (fun hne => hne rfl),
    delimitedBytes, hread, toWellFormed_name]
  simp only [read, bind, Except.bind, chunkKindOf_name]

theorem fieldsTo_tail (hwire : wire.Lawful) {chunk : ProcessByteChunk} (h : Writable chunk)
    (fields : DecodedProcessByteChunkFields) :
    FieldsTo wire fields [6, 5, 4, 3, 2, 1] (chunkTail chunk)
      { fields with
        cancellationId := some (toWellFormed chunk.cancellationId)
        maxBytes := some chunk.maxBytes.toNat
        maxInFlight := some chunk.maxInFlight.toNat
        chunkKind := some chunk.chunkKind
        maxInFlightBytes := some chunk.maxInFlightBytes.toNat } := by
  refine .value hwire (by decide) (by decide) (fun _ => by rw [decodeProcessByteChunkField])
    (hwire.readString _ _ h.cancellationId) ?_
  refine .value hwire (by decide) (by decide) (fun _ => by rw [decodeProcessByteChunkField])
    (hwire.readUint64 _ _ h.maxBytes.bounded) ?_
  refine .value hwire (by decide) (by decide) (fun _ => by rw [decodeProcessByteChunkField])
    (hwire.readUint32 _ _ (toNat_lt h.maxInFlight)) ?_
  refine fieldsTo_kind hwire chunk.chunkKind (by decide) ?_
  exact .value hwire (by decide) (by decide) (fun _ => by rw [decodeProcessByteChunkField])
    (hwire.readUint64 _ _ h.maxInFlightBytes.bounded) (.nil _ _)

theorem fieldsTo_received (hwire : wire.Lawful) {chunk : ProcessByteChunk} (h : Writable chunk) :
    FieldsTo wire {} [] (chunkBody chunk) (receivedFields chunk) := by
  refine .value hwire (by decide) (by decide) (fun _ => by rw [decodeProcessByteChunkField])
    (hwire.readUint32 _ _ (toNat_lt h.protocolVersion)) ?_
  refine .value hwire (by decide) (by decide) (fun _ => by rw [decodeProcessByteChunkField])
    (hwire.readString _ _ h.streamId) ?_
  refine .value hwire (by decide) (by decide) (fun _ => by rw [decodeProcessByteChunkField])
    (hwire.readUint32 _ _ (toNat_lt h.sequence)) ?_
  refine .value hwire (by decide) (by decide) (fun _ => by rw [decodeProcessByteChunkField])
    (hwire.readUint64 _ _ h.offset.bounded) ?_
  refine .value hwire (by decide) (by decide) (fun _ => by rw [decodeProcessByteChunkField])
    (hwire.readBytes _ _ h.payload) ?_
  refine .value hwire (by decide) (by decide) (fun _ => by rw [decodeProcessByteChunkField])
    (hwire.readBool _ _) ?_
  exact fieldsTo_tail hwire h _

theorem receivedFields_chunk {chunk : ProcessByteChunk} (h : Writable chunk) :
    (receivedFields chunk).chunk = some (received chunk) := by
  have hoffset := Int.toNat_of_nonneg h.offset.nonneg
  have hmaxBytes := Int.toNat_of_nonneg h.maxBytes.nonneg
  have hmaxInFlightBytes := Int.toNat_of_nonneg h.maxInFlightBytes.nonneg
  simp only [receivedFields, DecodedProcessByteChunkFields.chunk, bind, Option.bind, received,
    integer_toNat h.protocolVersion, integer_toNat h.sequence, integer_toNat h.maxInFlight,
      hoffset, hmaxBytes,
    hmaxInFlightBytes]

theorem decodeProcessByteChunk_body (hwire : wire.Lawful) {chunk : ProcessByteChunk}
    (h : Writable chunk)
    (hshort : (chunkBody chunk).length < 2 ^ 32) :
    decodeProcessByteChunk wire (framed (chunkBody chunk)) =
      if ipcMaxChunkBytes < encodedSize chunk then .error
        (chunkInvalid "Protobuf chunk length is invalid.")
      else (validateProcessByteChunk (received chunk)).map (fun _ => received chunk) := by
  have hlen := length_framed (chunkBody chunk)
  have hfront := bodyLength_framed hshort []
  have hdrop := drop_framed (chunkBody chunk) []
  rw [length_chunkBody] at hlen
  rw [List.append_nil, length_chunkBody] at hfront
  rw [List.append_nil, List.append_nil] at hdrop
  unfold decodeProcessByteChunk
  rw [if_neg (by omega), hfront, hdrop]
  by_cases hlarge : ipcMaxChunkBytes < encodedSize chunk
  · rw [if_pos (.inl hlarge), if_pos hlarge]
  · rw [if_neg (by omega), if_neg hlarge, decodeProcessByteChunkBody,
      fieldsTo_received hwire h _ le_rfl]
    simp only [bind, Except.bind, receivedFields_chunk h]
    cases validateProcessByteChunk (received chunk) with
    | error e => rfl
    | ok _ => rfl

end Decode

def ChunkFields.ofKind (chunk : ChunkFields) (kind : ChunkKind) : ProcessByteChunk :=
  { chunk with chunkKind := kind }

structure Fits (chunk : ProcessByteChunk) : Prop where
  streamId : isWellFormed chunk.streamId = true
  cancellationId : isWellFormed chunk.cancellationId = true
  size : encodedSize chunk ≤ ipcMaxChunkBytes

theorem chunk_round_trips_iff {wire : ChunkWire} (hwire : wire.Lawful) {chunk : ChunkFields}
    {kind : ChunkKind}
    {encoded : Bytes} (h : encodeSourceBytesChunk wire chunk = .ok encoded ∧ kind = .sourceBytes ∨
      encodeFactDeltaChunk wire chunk = .ok encoded ∧ kind = .factDelta) :
    decodeProcessByteChunk wire encoded = .ok (chunk.ofKind kind) ↔ Fits (chunk.ofKind kind) := by
  have hencode : encodeChunk wire (chunk.ofKind kind) = .ok encoded := by
    rcases h with ⟨h, rfl⟩ | ⟨h, rfl⟩
    · exact h
    · exact h
  obtain ⟨hvalid, hwritable, hshort, rfl⟩ := encodeChunk_ok hwire hencode
  rw [decodeProcessByteChunk_body hwire hwritable hshort]
  constructor
  · intro hdecode
    split at hdecode
    · cases hdecode
    · rename_i hsize
      obtain ⟨⟨⟩, -, hreceived⟩ := ExceptOk.map_eq_ok hdecode
      refine ⟨decide_eq_true ?_, decide_eq_true ?_, Nat.le_of_not_lt hsize⟩
      · exact congrArg (fun chunk => chunk.streamId) hreceived
      · exact congrArg (fun chunk => chunk.cancellationId) hreceived
  · rintro ⟨hstreamId, hcancellationId, hsize⟩
    have hreceived : received (chunk.ofKind kind) = chunk.ofKind kind := by
      rw [received, of_decide_eq_true hstreamId, of_decide_eq_true hcancellationId]
    rw [if_neg (Nat.not_lt.mpr hsize), hreceived, hvalid]
    rfl

def protobufChunkWire : ChunkWire where
  tag field wireType := varint (field * 8 + wireType.number)
  uint32 := unsigned 32
  uint64 := unsigned 64
  bool value := varint value.toNat
  string text := delimited (encodeUtf8 text)
  bytes := delimited
  readTag := protobufWire.readTag
  readUint32 input := (readVarint input).map (fun read => (((read.1 % 2 ^ 32 : ℕ) : ℤ), read.2))
  readUint64 input := (readVarint input).map (fun read => (((read.1 % 2 ^ 64 : ℕ) : ℤ), read.2))
  readBool := protobufWire.readBool
  readString input :=
    (protobufWire.readString input).map (fun read => (encode read.1.toList, read.2))
  readBytes := readDelimited

theorem protobufChunkWire_lawful : protobufChunkWire.Lawful where
  tag _ _ := rfl
  uint32 _ := rfl
  uint64 _ := rfl
  bool _ := rfl
  string _ := rfl
  bytes _ := rfl
  readTag := by
    intro field wireType rest hpos _
    have hnumber : wireType.number < 8 := by
      cases wireType with
      | _ => decide
    have hof : WireType.ofNumber wireType.number = some wireType := by
      cases wireType with
      | _ => rfl
    have hdiv : (field * 8 + wireType.number) / 8 = field := by omega
    have hmod : (field * 8 + wireType.number) % 8 = wireType.number := by omega
    have hfield : ¬ field = 0 := by omega
    simp only [protobufChunkWire, protobufWire, readVarint_encoded, bind, Option.bind, hdiv, hmod,
      hof, if_neg hfield]
  readUint32 := by
    intro value rest hlt
    simp only [protobufChunkWire, readVarint_encoded, Option.map_some, Nat.mod_eq_of_lt hlt]
  readUint64 := by
    intro value rest hlt
    simp only [protobufChunkWire, readVarint_encoded, Option.map_some, Nat.mod_eq_of_lt hlt]
  readBool := protobufWire_lawful.readBool
  readString := by
    intro text rest _
    have hread :
        protobufWire.readString (varint (encodeUtf8 text).length ++ encodeUtf8 text ++ rest) =
        some (String.ofList (scalars text), rest) := protobufWire_lawful.readString _ _
    simp only [protobufChunkWire, hread, Option.map_some, String.toList_ofList, toWellFormed]
  readBytes := fun value rest _ => readDelimited_encoded value rest

def sampleChunk (payload : Bytes) : ChunkFields where
  protocolVersion := .integer 2
  streamId := encode "s".toList
  sequence := .integer 0
  offset := 0
  payload := payload
  final := true
  cancellationId := encode "c".toList
  maxBytes := 262144
  maxInFlight := .integer 1
  maxInFlightBytes := 262144

theorem sampleChunk_valid {payload : Bytes} (h : payload.length ≤ 262144) :
    validateProcessByteChunk ((sampleChunk payload).ofKind .sourceBytes) = .ok () := by
  have hlen : (payload.length : ℤ) ≤ 262144 := by exact_mod_cast h
  refine if_neg ?_
  simp only [not_or, not_lt]
  have hids : ∀ id ∈ ["s", "c"], (encode id.toList).length ≠ 0 := by decide
  have hsequence : ¬ ((JsNumber.integer 0).safeInteger.all (fun sequence => decide (sequence < 0)) =
      true) := by decide
  have hmaxInFlight : ¬ ((JsNumber.integer 1).safeInteger.all (fun count => decide (count ≤ 0)) =
      true) := by decide
  have hbudget : ¬ (262144 : ℤ) ≤ 0 := by decide
  exact ⟨fun hne => hne rfl, hids "s" (by decide), hids "c" (by decide), hsequence, le_refl (0 : ℤ),
    hbudget, hmaxInFlight,
    hbudget, le_refl (262144 : ℤ), hlen, h, (zero_add _).trans_le hlen⟩

theorem sampleChunk_writable {payload : Bytes} (h : payload.length ≤ 262144) :
    Writable ((sampleChunk payload).ofKind .sourceBytes) := by
  have hids : ∀ id ∈ ["s", "c"], (encodeUtf8 (encode id.toList)).length < 2 ^ 32 := by
    decide +kernel
  have huint : ∀ value ∈ [0, 1, 2, 262144], IsUint 32 value ∧ IsUint 64 value := by
    intro value hvalue
    simp only [List.mem_cons, List.not_mem_nil, or_false] at hvalue
    rcases hvalue with rfl | rfl | rfl | rfl <;> exact ⟨⟨by decide, by decide⟩,
      ⟨by decide, by decide⟩⟩
  exact ⟨⟨2, rfl, (huint 2 (by decide)).1⟩, hids "s" (by decide), ⟨0, rfl, (huint 0 (by decide)).1⟩,
    (huint 0 (by decide)).2,
    h.trans_lt (by decide), hids "c" (by decide), (huint 262144 (by decide)).2,
      ⟨1, rfl, (huint 1 (by decide)).1⟩,
    (huint 262144 (by decide)).2⟩

theorem encodedSize_sampleChunk (payload : Bytes) :
    encodedSize ((sampleChunk payload).ofKind .sourceBytes) =
      39 + delimitedSize payload.length := by
  have hids : ∀ id ∈ ["s", "c"], (encodeUtf8 (encode id.toList)).length = 1 := by decide +kernel
  have hkind : (encodeUtf8 ChunkKind.sourceBytes.name).length = 12 := by decide +kernel
  have hsizes : ∀ value ∈ [0, 1, 2, 12], uintSize value = 1 := by
    simp only [uintSize, ← length_varint]
    decide
  have hbudget : uintSize 262144 = 3 := by
    rw [uintSize, ← length_varint]
    decide
  change 11 + uintSize 2 + delimitedSize (encodeUtf8 (encode "s".toList)).length + uintSize 0 +
    uintSize 0 +
    delimitedSize payload.length + 1 + delimitedSize (encodeUtf8 (encode "c".toList)).length +
      uintSize 262144 +
    uintSize 1 + delimitedSize (encodeUtf8 ChunkKind.sourceBytes.name).length + uintSize 262144 = _
  rw [hids "s" (by decide), hids "c" (by decide), hkind, hbudget, hsizes 2 (by decide),
    hsizes 0 (by decide),
    hsizes 1 (by decide)]
  have hone : delimitedSize 1 = 2 := by rw [delimitedSize, hsizes 1 (by decide)]
  have htwelve : delimitedSize 12 = 13 := by rw [delimitedSize, hsizes 12 (by decide)]
  rw [hone, htwelve]
  omega

theorem sampleChunk_encoded {payload : Bytes} (h : payload.length ≤ 262144) :
    encodeSourceBytesChunk protobufChunkWire (sampleChunk payload) =
      .ok (framed (chunkBody ((sampleChunk payload).ofKind .sourceBytes))) := by
  have hbody :=
    encode_of_writable protobufChunkWire_lawful (sampleChunk_valid h) (sampleChunk_writable h)
  have hlog := Nat.log_le_self 128 payload.length
  have hshort : ¬ 2 ^ 32 ≤ (chunkBody ((sampleChunk payload).ofKind .sourceBytes)).length := by
    rw [length_chunkBody, encodedSize_sampleChunk, delimitedSize, uintSize]
    omega
  change encodeProcessByteChunk protobufChunkWire ((sampleChunk payload).ofKind .sourceBytes) >>=
    _ = _
  rw [hbody]
  exact if_neg hshort

theorem chunk_round_trips_sample : decodeProcessByteChunk protobufChunkWire
    (framed (chunkBody ((sampleChunk [7]).ofKind .sourceBytes))) =
      .ok ((sampleChunk [7]).ofKind .sourceBytes) := by
  have hsize : encodedSize ((sampleChunk [7]).ofKind .sourceBytes) ≤ ipcMaxChunkBytes := by
    rw [encodedSize_sampleChunk, delimitedSize, uintSize, ← length_varint]
    decide
  exact (chunk_round_trips_iff protobufChunkWire_lawful
    (.inl ⟨sampleChunk_encoded (by decide), rfl⟩)).mpr
    ⟨by decide +kernel, by decide +kernel, hsize⟩

theorem full_payload_not_decoded : ∃ encoded,
    encodeSourceBytesChunk protobufChunkWire (sampleChunk (List.replicate 262144 0)) = .ok encoded ∧
      decodeProcessByteChunk protobufChunkWire encoded ≠
        .ok ((sampleChunk (List.replicate 262144 0)).ofKind .sourceBytes) := by
  have hlen : (List.replicate 262144 (0 : Byte)).length = 262144 := List.length_replicate
  have hlog := Nat.log_le_self 128 262144
  refine ⟨_, sampleChunk_encoded hlen.le, ?_⟩
  have hshort : (chunkBody ((sampleChunk (List.replicate 262144 0)).ofKind .sourceBytes)).length <
      2 ^ 32 := by
    rw [length_chunkBody, encodedSize_sampleChunk, delimitedSize, uintSize, hlen]
    omega
  have hlarge : ipcMaxChunkBytes < encodedSize
      ((sampleChunk (List.replicate 262144 0)).ofKind .sourceBytes) := by
    rw [encodedSize_sampleChunk, delimitedSize, hlen, ipcMaxChunkBytes]
    omega
  rw [decodeProcessByteChunk_body protobufChunkWire_lawful (sampleChunk_writable hlen.le) hshort,
    if_pos hlarge]
  exact fun h => nomatch h

end ByteChunk

end Daemon
