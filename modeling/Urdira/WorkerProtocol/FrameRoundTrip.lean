import Urdira.WorkerProtocol.Frame

open ByteOrder FramedStream PrefixCode Utf8

namespace WorkerProtocol

section Varint

theorem readVarintFrom_last {shift n : ℕ} (shifts : List ℕ) (acc : ℕ) (hn : n < 128)
    (hlast : shift = 28 → n < 16)
    (rest : Bytes) : readVarintFrom (shift :: shifts) acc (varint n ++ rest) =
      .ok (acc + n * 2 ^ shift, rest) := by
  have hval : (Fin.ofNat 256 n).val = n := Nat.mod_eq_of_lt (by omega)
  have hfits : ¬ (shift = 28 ∧ n / 16 ≠ 0) := by
    rintro ⟨h28, hdiv⟩
    have := hlast h28
    omega
  rw [varint_of_lt hn, List.singleton_append, readVarintFrom, hval, if_neg hfits,
    Nat.mod_eq_of_lt hn, if_pos hn]

theorem readVarintFrom_more {shift n : ℕ} (shifts : List ℕ) (acc : ℕ) (hn : 128 ≤ n)
    (hshift : shift ≠ 28)
    (rest : Bytes) : readVarintFrom (shift :: shifts) acc (varint n ++ rest) =
      readVarintFrom shifts (acc + n % 128 * 2 ^ shift) (varint (n / 128) ++ rest) := by
  have hval : (Fin.ofNat 256 (n % 128 + 128)).val = n % 128 + 128 := Nat.mod_eq_of_lt (by omega)
  have hmod : (n % 128 + 128) % 128 = n % 128 := by omega
  rw [varint_of_ge hn, List.cons_append, readVarintFrom, hval, hmod, if_neg (fun h => hshift h.1),
    if_neg (by omega)]

theorem readVarintFrom_varint {count shift n : ℕ} (hcount : shift + 7 * count = 28)
    (hn : n < 2 ^ (32 - shift))
    (acc : ℕ) (rest : Bytes) :
    readVarintFrom (List.range' shift (count + 1) 7) acc (varint n ++ rest) =
      .ok (acc + n * 2 ^ shift, rest) := by
  induction count generalizing shift n acc with
  | zero =>
    have hshift : shift = 28 := by omega
    subst hshift
    exact readVarintFrom_last [] acc (by omega) (fun _ => hn) rest
  | succ count ih =>
    rw [List.range'_succ]
    rcases Nat.lt_or_ge n 128 with hlt | hge
    · exact readVarintFrom_last _ acc hlt (fun h => by omega) rest
    · have hpow : 2 ^ (32 - shift) = 128 * 2 ^ (32 - (shift + 7)) := by
        rw [show 32 - shift = 7 + (32 - (shift + 7)) by omega, pow_add]
        rfl
      have hdiv : n / 128 < 2 ^ (32 - (shift + 7)) := Nat.div_lt_of_lt_mul (hpow ▸ hn)
      rw [readVarintFrom_more _ acc hge (by omega), ih (by omega) hdiv]
      have hsum : n % 128 * 2 ^ shift + n / 128 * 2 ^ (shift + 7) = n * 2 ^ shift := by
        rw [pow_add]
        conv_rhs => rw [← Nat.mod_add_div n 128]
        ring
      rw [Nat.add_assoc, hsum]

theorem readVarint_varint {n : ℕ} (hn : n < 4294967296) (rest : Bytes) :
    readVarint (varint n ++ rest) = .ok (n, rest) := by
  have hread := @readVarintFrom_varint 4 0 n rfl hn 0 rest
  rw [pow_zero, Nat.mul_one, Nat.zero_add] at hread
  exact hread

theorem length_varint_le {n k : ℕ} (hn : n < 128 ^ (k + 1)) : (varint n).length ≤ k + 1 := by
  induction k generalizing n with
  | zero =>
    rw [varint_of_lt (by omega)]
    exact le_rfl
  | succ k ih =>
    rcases Nat.lt_or_ge n 128 with hlt | hge
    · rw [varint_of_lt hlt, List.length_singleton]
      omega
    · have hdiv : n / 128 < 128 ^ (k + 1) := Nat.div_lt_of_lt_mul (by rwa [pow_succ'] at hn)
      rw [varint_of_ge hge, List.length_cons]
      have htail := ih hdiv
      omega

theorem length_varint_u32 {n : ℕ} (hn : n < 4294967296) : (varint n).length ≤ 5 :=
  length_varint_le (k := 4) (by omega)

theorem readBytes_varint {value : Bytes} (hvalue : value.length < 4294967296) (rest : Bytes) :
    readBytes (varint value.length ++ value ++ rest) = .ok (value, rest) := by
  have hread := readVarint_varint hvalue (value ++ rest)
  have hlen : value.length ≤ (value ++ rest).length := by
    rw [List.length_append]
    omega
  rw [readBytes, List.append_assoc, hread]
  change (if value.length ≤ (value ++ rest).length then _ else _) = _
  rw [if_pos hlen, List.take_left, List.drop_left]

end Varint

theorem u32TryFrom_ok {value stored : ℕ} {message : ProtocolError}
    (h : u32TryFrom value message = .ok stored) :
    value < 4294967296 ∧ stored = value := by
  obtain ⟨hlt, hstored⟩ := ExceptOk.ite_eq_ok h
  exact ⟨hlt, (Except.ok.inj hstored).symm⟩

theorem u32TryFrom_lt {value : ℕ} (h : value < 4294967296) (message : ProtocolError) :
    u32TryFrom value message = .ok value := if_pos h

theorem writeBytesField_ok {field : ℕ} {value written : Bytes}
    (h : writeBytesField field value = .ok written) :
    value.length < 4294967296 ∧ written =
      varint (field * 8 + wireLengthDelimited) ++ varint value.length ++ value := by
  unfold writeBytesField at h
  obtain ⟨length, hlength, hwritten⟩ := ExceptOk.bind_eq_ok h
  obtain ⟨hlt, rfl⟩ := u32TryFrom_ok hlength
  exact ⟨hlt, (Except.ok.inj hwritten).symm⟩

section Fields

def Decodes (fields : FrameFields) (input : Bytes) (decoded : FrameFields) : Prop :=
  ∀ fuel, input.length ≤ fuel → decodeFields fuel fields input = .ok decoded

theorem Decodes.nil (fields : FrameFields) : Decodes fields [] fields := by
  intro fuel _
  cases fuel with
  | zero => rfl
  | succ fuel => rfl

theorem Decodes.cons {fields fields' decoded : FrameFields} {input rest : Bytes}
    (hfield : decodeField fields input = .ok (fields', rest))
    (hshorter : rest.length < input.length)
    (h : Decodes fields' rest decoded) : Decodes fields input decoded := by
  intro fuel hfuel
  cases fuel with
  | zero => omega
  | succ fuel =>
    cases input with
    | nil => cases hshorter
    | cons byte input =>
      rw [decodeFields, hfield]
      · exact h fuel (by omega)
      · intro hnil
        cases hnil

def withScalar (fields : FrameFields) (field value : ℕ) : FrameFields :=
  { fields with
    seen := field :: fields.seen, scalars := Function.update fields.scalars field (some value) }

def withCancellation (fields : FrameFields) (value : Bytes) : FrameFields :=
  { fields with seen := 7 :: fields.seen, cancellation := some value }

def withPayload (fields : FrameFields) (value : Bytes) : FrameFields :=
  { fields with seen := 8 :: fields.seen, payload := some value }

@[simp] theorem withScalar_seen (fields : FrameFields) (field value : ℕ) :
    (withScalar fields field value).seen = field :: fields.seen := rfl

@[simp] theorem withCancellation_seen (fields : FrameFields) (value : Bytes) :
    (withCancellation fields value).seen = 7 :: fields.seen := rfl

@[simp] theorem withPayload_seen (fields : FrameFields) (value : Bytes) :
    (withPayload fields value).seen = 8 :: fields.seen := rfl

theorem tag_read {field wire : ℕ} (hfield : field ≤ 9) (hwire : wire < 8) (rest : Bytes) :
    readVarint (varint (field * 8 + wire) ++ rest) = .ok (field * 8 + wire, rest) :=
  readVarint_varint (by omega) rest

theorem decodeField_scalar {fields : FrameFields} {field value : ℕ}
    (hfield : field ∈ [1, 2, 3, 4, 5, 6, 9])
    (hseen : field ∉ fields.seen) (hvalue : value < 4294967296) (rest : Bytes) :
    decodeField fields (writeVarintField field value ++ rest) =
      .ok (withScalar fields field value, rest) := by
  have hrange : (1 ≤ field ∧ field ≤ 9) ∧ ¬ (field = 7 ∨ field = 8) := by
    simp only [List.mem_cons, List.not_mem_nil, or_false] at hfield
    omega
  have hknown : ¬ (field < 1 ∨ 9 < field ∨ field ∈ fields.seen) := by
    rintro (h | h | h)
    · omega
    · omega
    · exact hseen h
  have htag := tag_read hrange.1.2 (show wireVarint < 8 by decide) (varint value ++ rest)
  have hdiv : (field * 8 + wireVarint) / 8 = field := by
    rw [wireVarint]
    omega
  have hmod : (field * 8 + wireVarint) % 8 = wireVarint := by
    rw [wireVarint]
    omega
  rw [decodeField, writeVarintField, List.append_assoc, htag]
  simp only [bind, Except.bind, hdiv, hmod, if_neg hknown, if_neg hrange.2,
    readVarint_varint hvalue]
  rfl

theorem decodeField_bytes {fields : FrameFields} {field : ℕ} {value written : Bytes}
    (hfield : field ∈ [7, 8])
    (hseen : field ∉ fields.seen) (hwritten : writeBytesField field value = .ok written)
    (rest : Bytes) :
    decodeField fields (written ++ rest) =
      .ok (if field = 7 then withCancellation fields value
        else withPayload fields value, rest) := by
  have hrange : (1 ≤ field ∧ field ≤ 9) ∧ (field = 7 ∨ field = 8) := by
    simp only [List.mem_cons, List.not_mem_nil, or_false] at hfield
    omega
  have hknown : ¬ (field < 1 ∨ 9 < field ∨ field ∈ fields.seen) := by
    rintro (h | h | h)
    · omega
    · omega
    · exact hseen h
  obtain ⟨hvalue, rfl⟩ := writeBytesField_ok hwritten
  have htag :=
    tag_read hrange.1.2 (show wireLengthDelimited < 8 by decide) (varint value.length ++
      value ++ rest)
  have hdiv : (field * 8 + wireLengthDelimited) / 8 = field := by
    rw [wireLengthDelimited]
    omega
  have hmod : (field * 8 + wireLengthDelimited) % 8 = wireLengthDelimited := by
    rw [wireLengthDelimited]
    omega
  rw [decodeField, List.append_assoc, List.append_assoc, ← List.append_assoc _ value, htag]
  simp only [bind, Except.bind, hdiv, hmod, if_neg hknown, if_pos hrange.2, readBytes_varint hvalue]
  rcases hrange.2 with rfl | rfl
  · rfl
  · rfl

end Fields

section Body

variable {options : FrameOptions} {sequence offset : ℕ} {piece body : Bytes} {finalFrame : Bool}

theorem frameBody_ok (h : frameBody options sequence offset piece finalFrame = .ok body) :
    offset < 4294967296 ∧ body.length ≤ maxFrameChunkBytes ∧ ∃ cancellation payload,
      writeBytesField 7 (utf8 options.cancellationId) = .ok cancellation ∧ writeBytesField 8 piece =
        .ok payload ∧
      body = writeVarintField 1 protobufFrameVersion ++ writeVarintField 2 options.streamId ++
        writeVarintField 3 sequence ++ writeVarintField 4 offset ++
          writeVarintField 5 options.byteBudget ++
        writeVarintField 6 options.inFlightBudget ++ cancellation ++ payload ++
        writeVarintField 9 finalFrame.toNat := by
  unfold frameBody at h
  obtain ⟨stored, hoffset, hscalars⟩ := ExceptOk.bind_eq_ok h
  obtain ⟨hlt, rfl⟩ := u32TryFrom_ok hoffset
  obtain ⟨cancellation, hcancellation, hrest⟩ := ExceptOk.bind_eq_ok hscalars
  obtain ⟨payload, hpayload, hbody⟩ := ExceptOk.bind_eq_ok hrest
  dsimp only at hbody
  split at hbody
  · cases hbody
  · next hlength =>
    obtain rfl := Except.ok.inj hbody
    exact ⟨hlt, Nat.le_of_not_lt hlength, cancellation, payload, hcancellation, hpayload, rfl⟩

def decodedFields (options : FrameOptions) (sequence offset : ℕ) (piece : Bytes)
    (finalFrame : Bool) : FrameFields :=
  let scalars :=
    withScalar
      (withScalar (withScalar (withScalar (withScalar (withScalar {} 1 protobufFrameVersion)
    2 options.streamId) 3 sequence) 4 offset) 5 options.byteBudget) 6 options.inFlightBudget
  withScalar (withPayload (withCancellation scalars (utf8 options.cancellationId)) piece) 9
    finalFrame.toNat

theorem length_writeVarintField_pos (field value : ℕ) :
    0 < (writeVarintField field value).length := by
  rw [writeVarintField, List.length_append]
  have := List.length_pos_of_ne_nil (varint_ne_nil value)
  omega

theorem length_writeBytesField_pos {field : ℕ} {value written : Bytes}
    (h : writeBytesField field value = .ok written) : 0 < written.length := by
  obtain ⟨-, rfl⟩ := writeBytesField_ok h
  rw [List.length_append, List.length_append]
  have := List.length_pos_of_ne_nil (varint_ne_nil value.length)
  omega

theorem Decodes.scalar {fields decoded : FrameFields} {field value : ℕ} {rest : Bytes}
    (hfield : field ∈ [1, 2, 3, 4, 5, 6, 9]) (hseen : field ∉ fields.seen)
    (hvalue : value < 4294967296)
    (h : Decodes (withScalar fields field value) rest decoded) :
    Decodes fields (writeVarintField field value ++ rest) decoded := by
  refine .cons (decodeField_scalar hfield hseen hvalue rest) ?_ h
  have := length_writeVarintField_pos field value
  rw [List.length_append]
  omega

theorem Decodes.cancellation {fields decoded : FrameFields} {value written rest : Bytes}
    (hseen : 7 ∉ fields.seen)
    (hwritten : writeBytesField 7 value = .ok written)
    (h : Decodes (withCancellation fields value) rest decoded) :
    Decodes fields (written ++ rest) decoded := by
  refine .cons (decodeField_bytes (by decide) hseen hwritten rest) ?_ h
  have := length_writeBytesField_pos hwritten
  rw [List.length_append]
  omega

theorem Decodes.payload {fields decoded : FrameFields} {value written rest : Bytes}
    (hseen : 8 ∉ fields.seen)
    (hwritten : writeBytesField 8 value = .ok written)
    (h : Decodes (withPayload fields value) rest decoded) :
    Decodes fields (written ++ rest) decoded := by
  refine .cons (decodeField_bytes (by decide) hseen hwritten rest) ?_ h
  have := length_writeBytesField_pos hwritten
  rw [List.length_append]
  omega

theorem decodes_body (hsequence : sequence < 4294967296)
    (h : frameBody options sequence offset piece finalFrame = .ok body) :
    Decodes {} body (decodedFields options sequence offset piece finalFrame) := by
  obtain ⟨hoffset, -, cancellation, payload, hcancellation, hpayload, rfl⟩ := frameBody_ok h
  have hfinal : finalFrame.toNat < 4294967296 := by
    have := Bool.toNat_le finalFrame
    omega
  rw [← List.append_nil (_ ++ writeVarintField 9 _)]
  simp only [List.append_assoc]
  refine .scalar (by decide) (by simp) (by decide) ?_
  refine .scalar (by decide) (by simp) options.streamId.isLt ?_
  refine .scalar (by decide) (by simp) hsequence ?_
  refine .scalar (by decide) (by simp) hoffset ?_
  refine .scalar (by decide) (by simp) options.byteBudget.isLt ?_
  refine .scalar (by decide) (by simp) options.inFlightBudget.isLt ?_
  refine .cancellation (by simp) hcancellation ?_
  refine .payload (by simp) hpayload ?_
  refine .scalar (by decide) (by simp) hfinal ?_
  exact .nil _

theorem length_writeVarintField {field value : ℕ} (hfield : field ≤ 9)
    (hvalue : value < 4294967296) :
    (writeVarintField field value).length ≤ 6 := by
  have htag : (varint (field * 8 + wireVarint)).length ≤ 1 := by
    refine length_varint_le (k := 0) ?_
    rw [wireVarint]
    omega
  have hscalar := length_varint_u32 hvalue
  rw [writeVarintField, List.length_append]
  omega

theorem exists_writeBytesField {field : ℕ} {value : Bytes} (hfield : field ≤ 9)
    (hvalue : value.length < 4294967296) :
    ∃ written, writeBytesField field value = .ok written ∧ written.length ≤ 6 + value.length := by
  have htag : (varint (field * 8 + wireLengthDelimited)).length ≤ 1 := by
    refine length_varint_le (k := 0) ?_
    rw [wireLengthDelimited]
    omega
  have hlength := length_varint_u32 hvalue
  refine ⟨_, by rw [writeBytesField, u32TryFrom_lt hvalue]; rfl, ?_⟩
  rw [List.length_append, List.length_append]
  omega

theorem exists_frameBody (options : FrameOptions) (hsequence : sequence < 4294967296)
    (hoffset : offset < 4294967296)
    (hpiece : maxProtobufFrameOverheadBytes + (utf8 options.cancellationId).length + piece.length ≤
      maxFrameChunkBytes)
    (finalFrame : Bool) : ∃ body, frameBody options sequence offset piece finalFrame =
      .ok body := by
  have hchunk : maxFrameChunkBytes < 4294967296 := by decide
  have hoverhead : maxProtobufFrameOverheadBytes = 320 := rfl
  obtain ⟨cancellation, hcancellation, hclength⟩ :=
    @exists_writeBytesField 7 (utf8 options.cancellationId) (by decide) (by omega)
  obtain ⟨payload, hpayload, hplength⟩ := @exists_writeBytesField 8 piece (by decide) (by omega)
  have hfinal : finalFrame.toNat < 4294967296 := by
    have := Bool.toNat_le finalFrame
    omega
  have hversion :=
    length_writeVarintField (show 1 ≤ 9 by decide) (show protobufFrameVersion <
      4294967296 by decide)
  have hstream := length_writeVarintField (show 2 ≤ 9 by decide) options.streamId.isLt
  have hsequenceField := length_writeVarintField (show 3 ≤ 9 by decide) hsequence
  have hoffsetField := length_writeVarintField (show 4 ≤ 9 by decide) hoffset
  have hbyte := length_writeVarintField (show 5 ≤ 9 by decide) options.byteBudget.isLt
  have hflight := length_writeVarintField (show 6 ≤ 9 by decide) options.inFlightBudget.isLt
  have hflag := length_writeVarintField (show 9 ≤ 9 by decide) hfinal
  unfold frameBody
  rw [u32TryFrom_lt hoffset, hcancellation, hpayload]
  refine ⟨_, if_neg ?_⟩
  simp only [List.length_append]
  omega

def FrameOptions.Valid (options : FrameOptions) : Prop :=
  validateIdentifier options.cancellationId true = .ok () ∧ options.byteBudget ≠ 0 ∧
    options.inFlightBudget ≠ 0

theorem decodeFrame_body (hvalid : options.Valid) (hsequence : sequence < 4294967296)
    (h : frameBody options sequence offset piece finalFrame = .ok body) :
    decodeFrame body = .ok ⟨options.streamId, Fin.ofNat _ sequence, Fin.ofNat _ offset,
      options.byteBudget,
      options.inFlightBudget, options.cancellationId, piece, finalFrame⟩ := by
  obtain ⟨hidentifier, hbyte, hflight⟩ := hvalid
  have hfields := decodes_body hsequence h body.length le_rfl
  have hpresent : ¬ ((decodedFields options sequence offset piece finalFrame).seen.length ≠ 9 ∨
      (decodedFields options sequence offset piece finalFrame).scalars 1 ≠
        some protobufFrameVersion) := by
    rintro (hseen | hversion)
    · exact hseen rfl
    · exact hversion rfl
  have hfinal : ¬ 1 < finalFrame.toNat := Nat.not_lt.mpr (Bool.toNat_le finalFrame)
  have hbudgets : ¬ (options.byteBudget.val = 0 ∨ options.inFlightBudget.val = 0) := by
    rintro (hzero | hzero)
    · exact hbyte (Fin.ext hzero)
    · exact hflight (Fin.ext hzero)
  have hflag : decide (finalFrame.toNat = 1) = finalFrame := by
    cases finalFrame with
    | false => rfl
    | true => rfl
  have hcancellation :
      required (decodedFields options sequence offset piece finalFrame).cancellation =
      .ok (utf8 options.cancellationId) := rfl
  unfold decodeFrame
  simp only [hfields, bind, Except.bind, if_neg hpresent, hcancellation, fromUtf8_utf8, hidentifier]
  change (if 1 < finalFrame.toNat then _ else _) = _
  rw [if_neg hfinal]
  change (if options.byteBudget.val = 0 ∨ options.inFlightBudget.val = 0 then _ else _) = _
  rw [if_neg hbudgets]
  change Except.ok (ProtobufFrame.mk _ _ _ _ _ _ _ (decide (finalFrame.toNat = 1))) = _
  rw [hflag, Fin.ofNat_val_eq_self, Fin.ofNat_val_eq_self, Fin.ofNat_val_eq_self]

end Body

end WorkerProtocol
