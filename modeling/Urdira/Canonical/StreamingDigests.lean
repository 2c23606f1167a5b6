import Urdira.Canonical.Digests

open ByteOrder Emission KeyedSort MerkleBucket PrefixCode TextCodec Utf16

namespace Canonical

namespace Digests

open LogicalEncoding

def encoding (value : CanonicalValue) : Bytes := (footprint value).bytes

def Encodes (limits : CanonicalEncodingLimits) (value : CanonicalValue) : Prop :=
  Valid limits 0 value ∧ (budget limits).fits (footprint value)

theorem raised_eq_ok {α : Type} {result : Except CanonicalEncodingError α} {a : α} :
    raised result = .ok a ↔ result = .ok a := by
  cases result with
  | error fault => exact iff_of_false (fun h => by cases h) (fun h => by cases h)
  | ok b => exact ⟨fun h => congrArg Except.ok (Except.ok.inj h),
      fun h => congrArg Except.ok (Except.ok.inj h)⟩

theorem bind_eq_ok_iff {α β : Type} {x : Result α} {f : α → Result β} {b : β} :
    x >>= f = .ok b ↔ ∃ a, x = .ok a ∧ f a = .ok b := by
  refine ⟨ExceptOk.bind_eq_ok, ?_⟩
  rintro ⟨a, rfl, h⟩
  exact h

section Elements

variable {limits : CanonicalEncodingLimits}

theorem raised_encodeCanonical {value : CanonicalValue} {bytes : Bytes} :
    raised (encodeCanonical limits value) = .ok bytes ↔ Encodes limits value ∧
      bytes = encoding value := by
  rw [raised_eq_ok, encodeCanonical_eq_ok, Encodes, and_assoc, encoding]

theorem encodeCanonicalInto_eq_ok {value : CanonicalValue} {hash hash' : Hash} :
    encodeCanonicalInto limits value hash = .ok hash' ↔ Encodes limits value ∧
      hash' = hash ++ encoding value := by
  rw [encodeCanonicalInto, bind_eq_ok_iff]
  constructor
  · rintro ⟨bytes, hbytes, hhash⟩
    obtain ⟨hencodes, rfl⟩ := raised_encodeCanonical.mp hbytes
    exact ⟨hencodes, (Except.ok.inj hhash).symm⟩
  · rintro ⟨hencodes, rfl⟩
    exact ⟨encoding value, raised_encodeCanonical.mpr ⟨hencodes, rfl⟩, rfl⟩

theorem updateElements_eq_ok {elements : List CanonicalValue} {hash hash' : Hash} :
    updateElements limits elements hash = .ok hash' ↔
      (∀ element ∈ elements, Encodes limits element) ∧
        hash' = hash ++ elements.flatMap encoding := by
  induction elements generalizing hash with
  | nil =>
    rw [updateElements, List.flatMap_nil, List.append_nil, Except.ok.injEq]
    exact ⟨fun h => ⟨List.forall_mem_nil _, h.symm⟩, fun h => h.2.symm⟩
  | cons element elements ih =>
    rw [updateElements, bind_eq_ok_iff, List.forall_mem_cons, List.flatMap_cons]
    constructor
    · rintro ⟨middle, hfirst, hrest⟩
      obtain ⟨hencodes, rfl⟩ := encodeCanonicalInto_eq_ok.mp hfirst
      obtain ⟨hall, rfl⟩ := ih.mp hrest
      exact ⟨⟨hencodes, hall⟩, List.append_assoc _ _ _⟩
    · rintro ⟨⟨hencodes, hall⟩, rfl⟩
      exact ⟨_, encodeCanonicalInto_eq_ok.mpr ⟨hencodes, rfl⟩,
        ih.mpr ⟨hall, (List.append_assoc _ _ _).symm⟩⟩

theorem encoding_array (items : List CanonicalValue) :
    encoding (.array items) = encodeArrayHeader items.length ++ items.flatMap encoding := by
  rw [encoding, footprint, footprints_eq, Writer.mul_bytes, Writer.prod_bytes, List.flatMap_map]
  rfl

theorem encoding_object (fields : List (Text × CanonicalValue)) :
    encoding (.object fields) = encodeMapHeader fields.length ++
      (sortFields fields).flatMap (fun field => textBytes field.1 ++ encoding field.2) := by
  rw [encoding, footprint, sortFields_footprints, Writer.mul_bytes, Writer.prod_bytes,
    List.flatMap_map]
  rfl

theorem Encodes.item {items : List CanonicalValue} (h : Encodes limits (.array items)) :
    ∀ item ∈ items, Encodes limits item := by
  obtain ⟨hvalid, hfits⟩ := h
  rw [Valid, allValid_iff] at hvalid
  rw [footprint, footprints_eq] at hfits
  intro item hitem
  exact ⟨(hvalid.2 item hitem).mono (Nat.zero_le _),
    fits_of_mem_prod limits (fits_right limits hfits) _ (List.mem_map_of_mem hitem)⟩

theorem Encodes.field {fields : List (Text × CanonicalValue)}
    (h : Encodes limits (.object fields)) :
    ∀ field ∈ fields, Encodes limits (.string field.1) ∧ Encodes limits field.2 := by
  obtain ⟨hvalid, hfits⟩ := h
  rw [Valid, fieldsValid_iff] at hvalid
  rw [footprint, sortFields_footprints] at hfits
  intro field hfield
  obtain ⟨htext, hvalue⟩ := hvalid.2.2 field hfield
  have hmem := List.mem_map_of_mem (f := fun field => fieldBytes (field.1, footprint field.2))
    ((sortBy_perm fieldKey fields).mem_iff.mpr hfield)
  have hroom := fits_of_mem_prod limits (fits_right limits hfits) _ hmem
  refine ⟨⟨?_, (budget limits).of_mul hroom⟩, hvalue.mono (Nat.zero_le _), fits_right limits hroom⟩
  rw [Valid]
  exact ⟨Nat.zero_le _, htext⟩

theorem Encodes.keys_nodup {fields : List (Text × CanonicalValue)}
    (h : Encodes limits (.object fields)) :
    (keysOf fields).Nodup := by
  have hvalid := h.1
  rw [Valid] at hvalid
  exact hvalid.2.1

end Elements

section Fields

variable (limits : CanonicalEncodingLimits)

abbrev Part := (Text × CanonicalValue) ⊕ (Text × List CanonicalValue)

def Part.field : Part → Text × CanonicalValue
  | .inl scalar => scalar
  | .inr array => (array.1, .array array.2)

def Part.stream : Part → StreamField
  | .inl scalar => ⟨encodeUtf8 scalar.1, textBytes scalar.1, emitScalar limits scalar.2⟩
  | .inr array => ⟨encodeUtf8 array.1, textBytes array.1, emitArray limits array.2⟩

def Part.Emits : Part → Prop
  | .inl scalar => Encodes limits scalar.2
  | .inr array => ∀ element ∈ array.2, Encodes limits element

def partsOf (scalarFields : List (Text × CanonicalValue))
    (arrayFields : List (Text × List CanonicalValue)) :
    List Part := scalarFields.map .inl ++ arrayFields.map .inr

def mergedFields (scalarFields : List (Text × CanonicalValue))
    (arrayFields : List (Text × List CanonicalValue)) :
    List (Text × CanonicalValue) :=
  scalarFields ++ arrayFields.map (fun array => (array.1, .array array.2))

theorem partsOf_fields (scalarFields : List (Text × CanonicalValue))
    (arrayFields : List (Text × List CanonicalValue)) :
    (partsOf scalarFields arrayFields).map Part.field = mergedFields scalarFields arrayFields := by
  rw [partsOf, List.map_append, List.map_map, List.map_map, mergedFields]
  exact congrArg₂ _ (List.map_id _) rfl

variable {limits}

theorem emit_eq_ok {part : Part} {hash hash' : Hash} : (part.stream limits).emit hash = .ok hash' ↔
    part.Emits limits ∧ hash' = hash ++ encoding part.field.2 := by
  cases part with
  | inl scalar => exact encodeCanonicalInto_eq_ok
  | inr array =>
    change updateElements limits array.2 (hash ++ encodeArrayHeader array.2.length) = _ ↔ _
    rw [updateElements_eq_ok, Part.field, encoding_array, List.append_assoc, Part.Emits]

theorem updateFields_eq_ok {parts : List Part} {hash hash' : Hash} :
    updateFields (parts.map (Part.stream limits)) hash = .ok hash' ↔
      (∀ part ∈ parts, part.Emits limits) ∧
      hash' = hash ++ (parts.map Part.field).flatMap
        (fun field => textBytes field.1 ++ encoding field.2) := by
  induction parts generalizing hash with
  | nil =>
    rw [List.map_nil, updateFields, List.map_nil, List.flatMap_nil, List.append_nil,
      Except.ok.injEq]
    exact ⟨fun h => ⟨List.forall_mem_nil _, h.symm⟩, fun h => h.2.symm⟩
  | cons part parts ih =>
    have hkey : (part.stream limits).keyBytes = textBytes part.field.1 := by cases part <;> rfl
    rw [List.map_cons, updateFields, bind_eq_ok_iff, List.forall_mem_cons, List.map_cons,
      List.flatMap_cons, hkey]
    constructor
    · rintro ⟨middle, hfirst, hrest⟩
      obtain ⟨hemits, rfl⟩ := emit_eq_ok.mp hfirst
      obtain ⟨hall, rfl⟩ := ih.mp hrest
      exact ⟨⟨hemits, hall⟩, by simp only [List.append_assoc]⟩
    · rintro ⟨⟨hemits, hall⟩, rfl⟩
      exact ⟨_, emit_eq_ok.mpr ⟨hemits, rfl⟩, ih.mpr ⟨hall, by simp only [List.append_assoc]⟩⟩

theorem sortedFields_stream (parts : List Part) : sortedFields (parts.map (Part.stream limits)) =
    (sortBy (fun part => fieldKey part.field) parts).map (Part.stream limits) := by
  have hsort : ∀ fields : List StreamField,
      sortedFields fields = sortBy StreamField.sortKeyBytes fields := by
    intro fields
    have hle :
        (fun left right : StreamField => compareBytes left.sortKeyBytes right.sortKeyBytes ≠ .gt) =
        fun left right => left.sortKeyBytes ≤ right.sortKeyBytes := by
      funext left right
      exact propext compareBytes_ne_gt
    unfold sortedFields sortBy
    congr 1
  rw [hsort]
  refine sortBy_map (fun part => ?_) parts
  cases part <;> rfl

theorem mapM_streamField {α : Type} {emit : α → Hash → Result Hash} {fields : List (Text × α)}
    {streams : List StreamField} : fields.mapM (streamField emit) = .ok streams ↔
      (∀ field ∈ fields, Encodes defaultLimits (.string field.1)) ∧
        streams =
          fields.map (fun field => ⟨encodeUtf8 field.1, textBytes field.1, emit field.2⟩) := by
  have hone : ∀ (field : Text × α) stream, streamField emit field = .ok stream ↔
      Encodes defaultLimits (.string field.1) ∧
        stream = ⟨encodeUtf8 field.1, textBytes field.1, emit field.2⟩ := by
    intro field stream
    rw [streamField, bind_eq_ok_iff]
    constructor
    · rintro ⟨bytes, hbytes, hstream⟩
      obtain ⟨hencodes, rfl⟩ := raised_encodeCanonical.mp hbytes
      exact ⟨hencodes, (Except.ok.inj hstream).symm⟩
    · rintro ⟨hencodes, rfl⟩
      exact ⟨_, raised_encodeCanonical.mpr ⟨hencodes, rfl⟩, rfl⟩
  exact ExceptOk.mapM_eq_ok_iff hone

end Fields

section Maps

variable {limits : CanonicalEncodingLimits} {scalarFields : List (Text × CanonicalValue)}
  {arrayFields : List (Text × List CanonicalValue)} {merged : List (Text × CanonicalValue)}

def streamsOf (limits : CanonicalEncodingLimits) (scalarFields : List (Text × CanonicalValue))
    (arrayFields : List (Text × List CanonicalValue)) : List StreamField :=
  (partsOf scalarFields arrayFields).map (Part.stream limits)

theorem mapM_streams {streams : List StreamField} :
    (do
      let scalars ← scalarFields.mapM (streamField (emitScalar limits))
      let arrays ← arrayFields.mapM (streamField (emitArray limits))
      .ok (scalars ++ arrays)) = Except.ok streams ↔
    (∀ field ∈ mergedFields scalarFields arrayFields, Encodes defaultLimits (.string field.1)) ∧
      streams = streamsOf limits scalarFields arrayFields := by
  have hstreams : streamsOf limits scalarFields arrayFields =
      scalarFields.map (fun field => ⟨encodeUtf8 field.1, textBytes field.1,
        emitScalar limits field.2⟩) ++
        arrayFields.map (fun field => ⟨encodeUtf8 field.1, textBytes field.1,
          emitArray limits field.2⟩) := by
    rw [streamsOf, partsOf, List.map_append, List.map_map, List.map_map]
    rfl
  have hkeys : (∀ field ∈ mergedFields scalarFields arrayFields,
      Encodes defaultLimits (.string field.1)) ↔
      (∀ field ∈ scalarFields, Encodes defaultLimits (.string field.1)) ∧
        ∀ field ∈ arrayFields, Encodes defaultLimits (.string field.1) := by
    rw [mergedFields, List.forall_mem_append, List.forall_mem_map]
  rw [bind_eq_ok_iff, hkeys, hstreams]
  constructor
  · rintro ⟨scalars, hscalars, hrest⟩
    obtain ⟨arrays, harrays, heq⟩ := bind_eq_ok_iff.mp hrest
    obtain ⟨hscalarKeys, rfl⟩ := mapM_streamField.mp hscalars
    obtain ⟨harrayKeys, rfl⟩ := mapM_streamField.mp harrays
    exact ⟨⟨hscalarKeys, harrayKeys⟩, (Except.ok.inj heq).symm⟩
  · rintro ⟨⟨hscalarKeys, harrayKeys⟩, rfl⟩
    exact ⟨_, mapM_streamField.mpr ⟨hscalarKeys, rfl⟩,
      bind_eq_ok_iff.mpr ⟨_, mapM_streamField.mpr ⟨harrayKeys, rfl⟩, rfl⟩⟩

def mapBody (scalarFields : List (Text × CanonicalValue))
    (arrayFields : List (Text × List CanonicalValue)) : Bytes :=
  (sortFields (mergedFields scalarFields arrayFields)).flatMap
    (fun field => textBytes field.1 ++ encoding field.2)

def PartsEmit (limits : CanonicalEncodingLimits) (scalarFields : List (Text × CanonicalValue))
    (arrayFields : List (Text × List CanonicalValue)) : Prop :=
  ∀ part ∈ partsOf scalarFields arrayFields, part.Emits limits

theorem updateFields_streams {hash hash' : Hash} :
    updateFields (sortedFields (streamsOf limits scalarFields arrayFields)) hash = .ok hash' ↔
      PartsEmit limits scalarFields arrayFields ∧
        hash' = hash ++ mapBody scalarFields arrayFields := by
  have hsorted : (sortBy (fun part => fieldKey part.field) (partsOf scalarFields arrayFields)).map
      Part.field =
      sortFields (mergedFields scalarFields arrayFields) := by
    rw [← partsOf_fields]
    exact (sortBy_map (fun _ => rfl) _).symm
  rw [streamsOf, sortedFields_stream, updateFields_eq_ok, hsorted, mapBody, PartsEmit]
  have hperm :=
    sortBy_perm (fun part => fieldKey (Part.field part)) (partsOf scalarFields arrayFields)
  exact and_congr_left' (forall_congr' (fun _ => imp_congr_left hperm.mem_iff))

theorem length_streamsOf : (streamsOf limits scalarFields arrayFields).length =
    (mergedFields scalarFields arrayFields).length := by
  rw [streamsOf, ← partsOf_fields, List.length_map, List.length_map]

theorem encoding_merged (hmerged : merged.Perm (mergedFields scalarFields arrayFields))
    (h : Encodes limits (.object merged)) : encoding (.object merged) =
      encodeMapHeader (mergedFields scalarFields arrayFields).length ++
        mapBody scalarFields arrayFields := by
  have hsort : sortFields merged = sortFields (mergedFields scalarFields arrayFields) :=
    sortBy_eq_of_perm hmerged h.keys_nodup
  rw [encoding_object, hmerged.length_eq, hsort, mapBody]

theorem Encodes.parts (hmerged : merged.Perm (mergedFields scalarFields arrayFields))
    (h : Encodes limits (.object merged)) : PartsEmit limits scalarFields arrayFields := by
  intro part hpart
  have hmem : part.field ∈ merged := by
    rw [hmerged.mem_iff, ← partsOf_fields]
    exact List.mem_map_of_mem hpart
  have hvalue := (h.field _ hmem).2
  cases part with
  | inl scalar => exact hvalue
  | inr array => exact hvalue.item

theorem Encodes.disjoint (hmerged : merged.Perm (mergedFields scalarFields arrayFields))
    (h : Encodes limits (.object merged)) :
    ∀ array ∈ arrayFields, hasOwn scalarFields array.1 = false := by
  have hnodup : (keysOf (mergedFields scalarFields arrayFields)).Nodup :=
    (hmerged.map fieldKey).nodup_iff.mp h.keys_nodup
  rw [keysOf, mergedFields, List.map_append, List.nodup_append] at hnodup
  intro array harray
  by_contra hown
  obtain ⟨scalar, hscalar, hkey⟩ := List.any_eq_true.mp (Bool.not_eq_false _ ▸ hown)
  refine hnodup.2.2 (fieldKey scalar) (List.mem_map_of_mem hscalar) (encodeUtf8 array.1) ?_ ?_
  · exact List.mem_map.mpr ⟨_, List.mem_map_of_mem harray, rfl⟩
  · rw [fieldKey, of_decide_eq_true hkey]

end Maps

section Envelopes

variable {coordinates : Coordinates} {options : DigestOptions}

def envelopeFront (coordinates : Coordinates) (options : DigestOptions) :
    Result (List CanonicalValue) :=
  (digestEnvelope coordinates .null options).map List.dropLast

theorem digestEnvelope_eq (payload : CanonicalValue) :
    digestEnvelope coordinates payload options =
      (envelopeFront coordinates options).map (· ++ [payload]) := by
  unfold envelopeFront digestEnvelope
  dsimp only
  split_ifs <;> rfl

theorem updateEnvelope_eq_ok {front : List CanonicalValue} {hash : Hash}
    {payload : CanonicalValue} :
    updateEnvelope (front ++ [payload]) = .ok hash ↔
      (∀ value ∈ front, Encodes defaultLimits value) ∧
      hash = encodeArrayHeader (front.length + 1) ++ front.flatMap encoding := by
  rw [updateEnvelope, List.dropLast_concat, List.length_append, updateElements_eq_ok]
  rfl

theorem encoding_envelope (front : List CanonicalValue) (payload : CanonicalValue) :
    encoding (.array (front ++ [payload])) =
      encodeArrayHeader (front.length + 1) ++ front.flatMap encoding ++ encoding payload := by
  rw [encoding_array, List.length_append, List.flatMap_append, List.flatMap_singleton,
    List.append_assoc]
  rfl

end Envelopes

section Runs

variable [Sha256] {limits : CanonicalEncodingLimits} {scalarFields : List (Text × CanonicalValue)}
  {arrayFields : List (Text × List CanonicalValue)} {coordinates : Coordinates}
  {options : DigestOptions}

def plainDigest (limits : CanonicalEncodingLimits) (value : CanonicalValue) : Result String := do
  let bytes ← raised (encodeCanonical limits value)
  .ok (hexDigest bytes)

theorem hash_eq_ok {hashed : Result Hash} {valid : Prop} {bytes : Bytes}
    (h : ∀ hash, hashed = .ok hash ↔ valid ∧ hash = bytes) {digest : String} :
    (hashed >>= fun hash => .ok (hexDigest hash)) = Except.ok digest ↔
      valid ∧ digest = hexDigest bytes := by
  rw [bind_eq_ok_iff]
  constructor
  · rintro ⟨hash, hrun, heq⟩
    obtain ⟨hvalid, rfl⟩ := (h hash).mp hrun
    exact ⟨hvalid, (Except.ok.inj heq).symm⟩
  · rintro ⟨hvalid, rfl⟩
    exact ⟨bytes, (h bytes).mpr ⟨hvalid, rfl⟩, rfl⟩

theorem plainDigest_eq_ok {value : CanonicalValue} {digest : String} :
    plainDigest limits value = .ok digest ↔ Encodes limits value ∧
      digest = hexDigest (encoding value) :=
  hash_eq_ok (fun _ => raised_encodeCanonical)

theorem digestCanonicalArray_eq_ok {elements : List CanonicalValue} {digest : String} :
    digestCanonicalArray limits elements = .ok digest ↔
      (∀ element ∈ elements, Encodes limits element) ∧
        digest = hexDigest (encoding (.array elements)) := by
  rw [encoding_array]
  exact hash_eq_ok (fun _ => updateElements_eq_ok)

theorem digestMappedCanonicalArray_eq {T : Type} (elements : List T) (map : T → CanonicalValue) :
    digestMappedCanonicalArray limits elements map =
      digestCanonicalArray limits (elements.map map) := by
  rw [digestMappedCanonicalArray, digestCanonicalArray, List.length_map]

def KeysEncode (scalarFields : List (Text × CanonicalValue))
    (arrayFields : List (Text × List CanonicalValue)) :
    Prop := ∀ field ∈ mergedFields scalarFields arrayFields, Encodes defaultLimits (.string field.1)

omit [Sha256] in
theorem updateMap_eq_ok {start hash : Hash} :
    (do
      let scalars ← scalarFields.mapM (streamField (emitScalar limits))
      let arrays ← arrayFields.mapM (streamField (emitArray limits))
      let fields := scalars ++ arrays
      updateFields (sortedFields fields) (start ++ encodeMapHeader fields.length)) =
        Except.ok hash ↔
    (KeysEncode scalarFields arrayFields ∧ PartsEmit limits scalarFields arrayFields) ∧
      hash = start ++ encodeMapHeader (mergedFields scalarFields arrayFields).length ++
        mapBody scalarFields arrayFields := by
  have hbind : (do
      let scalars ← scalarFields.mapM (streamField (emitScalar limits))
      let arrays ← arrayFields.mapM (streamField (emitArray limits))
      let fields := scalars ++ arrays
      updateFields (sortedFields fields) (start ++ encodeMapHeader fields.length)) =
      ((do
        let scalars ← scalarFields.mapM (streamField (emitScalar limits))
        let arrays ← arrayFields.mapM (streamField (emitArray limits))
        Except.ok (scalars ++ arrays)) >>= fun fields =>
          updateFields (sortedFields fields) (start ++ encodeMapHeader fields.length)) := by
    simp only [bind_assoc]
    rfl
  rw [hbind, bind_eq_ok_iff]
  constructor
  · rintro ⟨streams, hstreams, hrun⟩
    obtain ⟨hkeys, rfl⟩ := mapM_streams.mp hstreams
    obtain ⟨hparts, rfl⟩ := updateFields_streams.mp hrun
    exact ⟨⟨hkeys, hparts⟩, by rw [length_streamsOf]⟩
  · rintro ⟨⟨hkeys, hparts⟩, rfl⟩
    refine ⟨_, mapM_streams.mpr ⟨hkeys, rfl⟩, updateFields_streams.mpr ⟨hparts, ?_⟩⟩
    rw [length_streamsOf]

def NamesApart (scalarFields : List (Text × CanonicalValue))
    (arrayFields : List (Text × List CanonicalValue)) : Prop :=
  ∀ array ∈ arrayFields, hasOwn scalarFields array.1 = false

theorem digestCanonicalMapWithArrayFields_eq_ok {digest : String} :
    digestCanonicalMapWithArrayFields limits scalarFields arrayFields = .ok digest ↔
      NamesApart scalarFields arrayFields ∧
        (KeysEncode scalarFields arrayFields ∧ PartsEmit limits scalarFields arrayFields) ∧
        digest = hexDigest (encodeMapHeader (mergedFields scalarFields arrayFields).length ++
          mapBody scalarFields arrayFields) := by
  have hdisjoint : arrayFields.find? (fun field => hasOwn scalarFields field.1) = none ↔
      NamesApart scalarFields arrayFields := by
    simp only [List.find?_eq_none, Bool.not_eq_true, NamesApart]
  have hrun :=
    @hash_eq_ok _ _ _ _ (fun hash => @updateMap_eq_ok limits scalarFields arrayFields [] hash)
      digest
  rw [List.nil_append] at hrun
  rw [digestCanonicalMapWithArrayFields]
  split
  · rename_i hfind
    refine iff_of_false (fun h => by cases h) (fun h => ?_)
    rw [hdisjoint.mpr h.1] at hfind
    cases hfind
  · rename_i hfind
    rw [and_iff_right (hdisjoint.mp hfind), ← hrun]
    simp only [bind_assoc, List.nil_append]

omit [Sha256] in
theorem envelope_eq_ok {payload : CanonicalValue} {α : Type} {rest : List CanonicalValue → Result α}
    {a : α} :
    (digestEnvelope coordinates payload options >>= rest) = .ok a ↔
      ∃ front, envelopeFront coordinates options = .ok front ∧ rest (front ++ [payload]) =
        .ok a := by
  rw [digestEnvelope_eq, bind_eq_ok_iff]
  constructor
  · rintro ⟨envelope, henvelope, hrest⟩
    obtain ⟨front, hfront, rfl⟩ := ExceptOk.map_eq_ok henvelope
    exact ⟨front, hfront, hrest⟩
  · rintro ⟨front, hfront, hrest⟩
    exact ⟨_, by rw [hfront]; rfl, hrest⟩

theorem computeDigest_eq_ok {payload : CanonicalValue} {digest : String} :
    computeDigest coordinates payload options = .ok digest ↔
      ∃ front, envelopeFront coordinates options = .ok front ∧
        Encodes defaultLimits (.array (front ++ [payload])) ∧
        digest = hexDigest (encodeArrayHeader (front.length + 1) ++ front.flatMap encoding ++
          encoding payload) := by
  rw [computeDigest, envelope_eq_ok]
  refine exists_congr (fun front => and_congr_right (fun _ => ?_))
  rw [← encoding_envelope]
  exact plainDigest_eq_ok

theorem computeDigestOverArrayPayload_eq_ok {elements : List CanonicalValue} {digest : String} :
    computeDigestOverArrayPayload coordinates elements options = .ok digest ↔
      ∃ front, envelopeFront coordinates options = .ok front ∧
        ((∀ value ∈ front, Encodes defaultLimits value) ∧ ∀ element ∈ elements,
          Encodes defaultLimits element) ∧
        digest = hexDigest (encodeArrayHeader (front.length + 1) ++ front.flatMap encoding ++
          encoding (.array elements)) := by
  rw [computeDigestOverArrayPayload, envelope_eq_ok]
  refine exists_congr (fun front => and_congr_right (fun _ => ?_))
  rw [bind_eq_ok_iff, encoding_array]
  constructor
  · rintro ⟨hash, hhash, hrest⟩
    obtain ⟨hfront, rfl⟩ := updateEnvelope_eq_ok.mp hhash
    obtain ⟨hall, rfl⟩ := (hash_eq_ok (fun _ => updateElements_eq_ok)).mp hrest
    exact ⟨⟨hfront, hall⟩, by simp only [List.append_assoc]⟩
  · rintro ⟨⟨hfront, hall⟩, rfl⟩
    refine ⟨_, updateEnvelope_eq_ok.mpr ⟨hfront, rfl⟩,
      (hash_eq_ok (fun _ => updateElements_eq_ok)).mpr ⟨hall, ?_⟩⟩
    simp only [List.append_assoc]

theorem computeDigestOverMapPayloadWithArrayField_eq_ok {arrayField : Text}
    {elements : List CanonicalValue}
    {digest : String} :
    computeDigestOverMapPayloadWithArrayField coordinates scalarFields arrayField elements options =
      .ok digest ↔
      NamesApart scalarFields [(arrayField, elements)] ∧ ∃ front,
        envelopeFront coordinates options = .ok front ∧
        ((∀ value ∈ front, Encodes defaultLimits value) ∧
          KeysEncode scalarFields [(arrayField, elements)] ∧
          PartsEmit defaultLimits scalarFields [(arrayField, elements)]) ∧
        digest = hexDigest (encodeArrayHeader (front.length + 1) ++ front.flatMap encoding ++
          (encodeMapHeader (mergedFields scalarFields [(arrayField, elements)]).length ++
            mapBody scalarFields [(arrayField, elements)])) := by
  have hdisjoint : NamesApart scalarFields [(arrayField, elements)] ↔
      hasOwn scalarFields arrayField = false := by
    rw [NamesApart, List.forall_mem_singleton]
  rw [computeDigestOverMapPayloadWithArrayField, hdisjoint]
  cases hown : hasOwn scalarFields arrayField with
  | true => exact iff_of_false (fun h => by cases h) (fun h => by cases h.1)
  | false =>
    rw [if_neg Bool.false_ne_true, and_iff_right rfl, envelope_eq_ok]
    refine exists_congr (fun front => and_congr_right (fun _ => ?_))
    rw [bind_eq_ok_iff]
    have hrest := fun start => @hash_eq_ok _ _ _ _
      (fun hash => @updateMap_eq_ok defaultLimits scalarFields [(arrayField, elements)] start hash)
        digest
    have hsingle : ∀ start, (do
        let scalars ← scalarFields.mapM (streamField (emitScalar defaultLimits))
        let array ← streamField (emitArray defaultLimits) (arrayField, elements)
        let fields := scalars ++ [array]
        let hash ← updateFields (sortedFields fields) (start ++ encodeMapHeader fields.length)
        Except.ok (hexDigest hash)) = Except.ok digest ↔
        (KeysEncode scalarFields [(arrayField, elements)] ∧
          PartsEmit defaultLimits scalarFields [(arrayField, elements)]) ∧ digest = hexDigest
          (start ++ encodeMapHeader (mergedFields scalarFields [(arrayField, elements)]).length ++
            mapBody scalarFields [(arrayField, elements)]) := by
      intro start
      rw [← hrest start]
      simp only [List.mapM_cons, List.mapM_nil, bind_assoc, pure_bind]
    constructor
    · rintro ⟨hash, hhash, hrun⟩
      obtain ⟨hfront, rfl⟩ := updateEnvelope_eq_ok.mp hhash
      obtain ⟨hmap, rfl⟩ := (hsingle _).mp hrun
      exact ⟨⟨hfront, hmap⟩, by simp only [List.append_assoc]⟩
    · rintro ⟨⟨hfront, hmap⟩, rfl⟩
      refine ⟨_, updateEnvelope_eq_ok.mpr ⟨hfront, rfl⟩, (hsingle _).mpr ⟨hmap, ?_⟩⟩
      simp only [List.append_assoc]

def Agree (streaming plain : Result String) : Prop :=
  ∀ digest digest', streaming = .ok digest → plain = .ok digest' → digest = digest'

def Succeeds (result : Result String) : Prop := ∃ digest, result = .ok digest

theorem array_agree (limits limits' : CanonicalEncodingLimits) (elements : List CanonicalValue) :
    Agree (digestCanonicalArray limits elements) (plainDigest limits' (.array elements)) := by
  intro digest digest' hstream hplain
  rw [(digestCanonicalArray_eq_ok.mp hstream).2, (plainDigest_eq_ok.mp hplain).2]

theorem array_succeeds {elements : List CanonicalValue}
    (h : Succeeds (plainDigest limits (.array elements))) :
    Succeeds (digestCanonicalArray limits elements) := by
  obtain ⟨_, hplain⟩ := h
  exact ⟨_, digestCanonicalArray_eq_ok.mpr ⟨(plainDigest_eq_ok.mp hplain).1.item, rfl⟩⟩

variable {merged : List (Text × CanonicalValue)}
  (hmerged : merged.Perm (mergedFields scalarFields arrayFields))

include hmerged

theorem map_agree (limits limits' : CanonicalEncodingLimits) :
    Agree (digestCanonicalMapWithArrayFields limits scalarFields arrayFields)
      (plainDigest limits' (.object merged)) := by
  intro digest digest' hstream hplain
  obtain ⟨hencodes, rfl⟩ := plainDigest_eq_ok.mp hplain
  rw [(digestCanonicalMapWithArrayFields_eq_ok.mp hstream).2.2, encoding_merged hmerged hencodes]

omit [Sha256] in
theorem Encodes.keys (h : Encodes defaultLimits (.object merged)) :
    KeysEncode scalarFields arrayFields :=
  fun field hfield => (h.field field (hmerged.mem_iff.mpr hfield)).1

theorem map_succeeds (h : Succeeds (plainDigest defaultLimits (.object merged))) :
    Succeeds (digestCanonicalMapWithArrayFields defaultLimits scalarFields arrayFields) := by
  obtain ⟨_, hplain⟩ := h
  have hencodes := (plainDigest_eq_ok.mp hplain).1
  exact ⟨_, digestCanonicalMapWithArrayFields_eq_ok.mpr
    ⟨hencodes.disjoint hmerged, ⟨hencodes.keys hmerged, hencodes.parts hmerged⟩, rfl⟩⟩

omit hmerged

theorem array_payload_agree (coordinates : Coordinates) (elements : List CanonicalValue)
    (options : DigestOptions) :
    Agree (computeDigestOverArrayPayload coordinates elements options)
      (computeDigest coordinates (.array elements) options) := by
  intro digest digest' hstream hplain
  obtain ⟨front, hfront, -, rfl⟩ := computeDigestOverArrayPayload_eq_ok.mp hstream
  obtain ⟨front', hfront', -, rfl⟩ := computeDigest_eq_ok.mp hplain
  obtain rfl := Except.ok.inj (hfront.symm.trans hfront')
  rfl

omit [Sha256] in
theorem Encodes.front {front : List CanonicalValue} {payload : CanonicalValue}
    (h : Encodes limits (.array (front ++ [payload]))) :
    (∀ value ∈ front, Encodes limits value) ∧ Encodes limits payload :=
  ⟨fun value hvalue => h.item value (List.mem_append_left _ hvalue),
    h.item payload (List.mem_append_right _ (List.mem_singleton_self _))⟩

theorem array_payload_succeeds {elements : List CanonicalValue}
    (h : Succeeds (computeDigest coordinates (.array elements) options)) :
    Succeeds (computeDigestOverArrayPayload coordinates elements options) := by
  obtain ⟨_, hplain⟩ := h
  obtain ⟨front, hfront, hencodes, -⟩ := computeDigest_eq_ok.mp hplain
  exact ⟨_, computeDigestOverArrayPayload_eq_ok.mpr
    ⟨front, hfront, ⟨hencodes.front.1, hencodes.front.2.item⟩, rfl⟩⟩

variable {mergedOne : List (Text × CanonicalValue)} {arrayField : Text}
  {elements : List CanonicalValue}
  (hmergedOne : mergedOne.Perm (mergedFields scalarFields [(arrayField, elements)]))

include hmergedOne

theorem map_payload_agree (coordinates : Coordinates) (options : DigestOptions) :
    Agree (computeDigestOverMapPayloadWithArrayField coordinates scalarFields arrayField
      elements options)
      (computeDigest coordinates (.object mergedOne) options) := by
  intro digest digest' hstream hplain
  obtain ⟨-, front, hfront, -, rfl⟩ := computeDigestOverMapPayloadWithArrayField_eq_ok.mp hstream
  obtain ⟨front', hfront', hencodes, rfl⟩ := computeDigest_eq_ok.mp hplain
  obtain rfl := Except.ok.inj (hfront.symm.trans hfront')
  rw [encoding_merged hmergedOne hencodes.front.2]

theorem map_payload_succeeds
    (h : Succeeds (computeDigest coordinates (.object mergedOne) options)) :
    Succeeds (computeDigestOverMapPayloadWithArrayField coordinates scalarFields arrayField elements
      options) := by
  obtain ⟨_, hplain⟩ := h
  obtain ⟨front, hfront, hencodes, -⟩ := computeDigest_eq_ok.mp hplain
  have hpayload := hencodes.front.2
  exact ⟨_, computeDigestOverMapPayloadWithArrayField_eq_ok.mpr
    ⟨hpayload.disjoint hmergedOne, front, hfront,
    ⟨hencodes.front.1, hpayload.keys hmergedOne, hpayload.parts hmergedOne⟩, rfl⟩⟩

end Runs

structure Streams [Sha256] (scalarFields : List (Text × CanonicalValue))
    (arrayFields : List (Text × List CanonicalValue)) (arrayField : Text)
    (elements : List CanonicalValue)
    (merged mergedOne : List (Text × CanonicalValue)) (coordinates : Coordinates)
    (options : DigestOptions) : Prop where
  array : ∀ limits limits', Agree (digestCanonicalArray limits elements)
    (plainDigest limits' (.array elements))
  map : ∀ limits limits', Agree (digestCanonicalMapWithArrayFields limits scalarFields arrayFields)
    (plainDigest limits' (.object merged))
  arrayPayload : Agree (computeDigestOverArrayPayload coordinates elements options)
    (computeDigest coordinates (.array elements) options)
  mapPayload : Agree (computeDigestOverMapPayloadWithArrayField coordinates scalarFields arrayField
    elements options)
    (computeDigest coordinates (.object mergedOne) options)
  arraySucceeds : Succeeds (plainDigest defaultLimits (.array elements)) →
    Succeeds (digestCanonicalArray defaultLimits elements)
  mapSucceeds : Succeeds (plainDigest defaultLimits (.object merged)) →
    Succeeds (digestCanonicalMapWithArrayFields defaultLimits scalarFields arrayFields)
  arrayPayloadSucceeds : Succeeds (computeDigest coordinates (.array elements) options) →
    Succeeds (computeDigestOverArrayPayload coordinates elements options)
  mapPayloadSucceeds : Succeeds (computeDigest coordinates (.object mergedOne) options) →
    Succeeds (computeDigestOverMapPayloadWithArrayField coordinates scalarFields arrayField
      elements options)

theorem streaming_digests_equal [Sha256] (scalarFields : List (Text × CanonicalValue))
    (arrayFields : List (Text × List CanonicalValue)) (arrayField : Text)
    (elements : List CanonicalValue)
    (merged mergedOne : List (Text × CanonicalValue)) (coordinates : Coordinates)
    (options : DigestOptions)
    (hmerged : merged.Perm (mergedFields scalarFields arrayFields))
    (hmergedOne : mergedOne.Perm (mergedFields scalarFields [(arrayField, elements)])) :
    Streams scalarFields arrayFields arrayField elements merged mergedOne coordinates options where
  array limits limits' := array_agree limits limits' elements
  map limits limits' := map_agree hmerged limits limits'
  arrayPayload := array_payload_agree coordinates elements options
  mapPayload := map_payload_agree hmergedOne coordinates options
  arraySucceeds := array_succeeds
  mapSucceeds := map_succeeds hmerged
  arrayPayloadSucceeds := array_payload_succeeds
  mapPayloadSucceeds := map_payload_succeeds hmergedOne

theorem streaming_digests_equal_swapped :
    let _ : Sha256 := ⟨fun _ => zero⟩
    Streams [(text "b", .null)] [(text "a", [.bool true])] (text "a") [.bool true]
      [(text "a", .array [.bool true]), (text "b", .null)]
        [(text "a", .array [.bool true]), (text "b", .null)]
      ⟨text "d", text "r", Binary64.ofNat 1, text "s", Binary64.ofNat 1⟩ ⟨none, none⟩ ∧
    Succeeds (plainDigest defaultLimits
      (.object [(text "a", .array [.bool true]), (text "b", .null)])) := by
  let _ : Sha256 := ⟨fun _ => zero⟩
  exact ⟨streaming_digests_equal _ _ _ _ _ _ _ _ (List.Perm.swap _ _ _) (List.Perm.swap _ _ _), _,
    rfl⟩

end Digests

end Canonical
