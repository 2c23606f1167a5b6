import Urdira.Canonical.EncodingLaw
import Urdira.Canonical.LogicalDecoding

open Binary64 ByteLayout ByteOrder CountedReader ExceptOk KeyedSort PrefixCode TextCodec Utf16

namespace Canonical

namespace LogicalEncoding

section Statements

def Readable (text : Text) : Prop :=
  ∃ chars : List Char, text = encode chars ∧ chars.head? ≠ some (Char.ofNat 65279)

mutual

def Faithful : CanonicalValue → Prop
  | .string text => Readable text
  | .array items => AllFaithful items
  | .object fields => FieldsFaithful fields
  | _ => True

def AllFaithful : List CanonicalValue → Prop
  | [] => True
  | item :: items => Faithful item ∧ AllFaithful items

def FieldsFaithful : List (Text × CanonicalValue) → Prop
  | [] => True
  | (key, item) :: fields => (Readable key ∧ Faithful item) ∧ FieldsFaithful fields

end

mutual

def normal : CanonicalValue → CanonicalValue
  | .number value => .number (plainZero value)
  | .array items => .array (normals items)
  | .object fields => .object (sortFields (normalFields fields))
  | value => value

def normals : List CanonicalValue → List CanonicalValue
  | [] => []
  | item :: items => normal item :: normals items

def normalFields : List (Text × CanonicalValue) → List (Text × CanonicalValue)
  | [] => []
  | (key, item) :: fields => (key, normal item) :: normalFields fields

end

def WithinVarint (limits : CanonicalEncodingLimits) : Prop :=
  limits.maxBytes < 2 ^ 35 ∧ limits.maxElements < 2 ^ 35

theorem defaultLimits_withinVarint : WithinVarint defaultLimits := by
  constructor
  · decide
  · decide

theorem allFaithful_iff {items : List CanonicalValue} : AllFaithful items ↔ ∀ item ∈ items,
      Faithful item := by
  induction items with
  | nil => rw [AllFaithful]; exact iff_of_true trivial (List.forall_mem_nil _)
  | cons item items ih => rw [AllFaithful, List.forall_mem_cons, ih]

theorem fieldsFaithful_iff {fields : List (Text × CanonicalValue)} :
    FieldsFaithful fields ↔ ∀ field ∈ fields, Readable field.1 ∧ Faithful field.2 := by
  induction fields with
  | nil => rw [FieldsFaithful]; exact iff_of_true trivial (List.forall_mem_nil _)
  | cons field fields ih => rw [FieldsFaithful, List.forall_mem_cons, ih]

theorem normals_eq (items : List CanonicalValue) : normals items = items.map normal := by
  induction items with
  | nil => rw [normals, List.map_nil]
  | cons item items ih => rw [normals, List.map_cons, ih]

theorem normalFields_eq (fields : List (Text × CanonicalValue)) :
    normalFields fields = fields.map (fun field => (field.1, normal field.2)) := by
  induction fields with
  | nil => rw [normalFields, List.map_nil]
  | cons field fields ih => rw [normalFields, List.map_cons, ih]

theorem sortFields_normal (fields : List (Text × CanonicalValue)) :
    sortFields (normalFields fields) =
    (sortFields fields).map (fun field => (field.1, normal field.2)) := by
  rw [normalFields_eq]
  exact sortBy_map (fun _ => rfl) fields

end Statements

section Numerals

theorem readVarintFrom_reads {bound : ℕ} (n : ℕ) : ∀ fuel shift result, n < 128 ^ (fuel + 1) →
    result + n * 2 ^ shift ≤ maxSafeInteger →
    Reads bound (readVarintFrom (fuel + 1) shift result) (varint n) (result + n * 2 ^ shift) 0 := by
  induction n using Nat.strongRecOn with
  | ind n ih =>
    intro fuel shift result hfuel hsafe
    rcases Nat.lt_or_ge n 128 with hlt | hge
    · have hval : (Fin.ofNat 256 n).val = n := Nat.mod_eq_of_lt (by omega)
      have hlast : Reads bound (readVarintFrom (fuel + 1) shift result) ([Fin.ofNat 256 n] ++ [])
          (result + n * 2 ^ shift) (0 + 0) := by
        refine (reads_readByte _ _).bind ?_
        dsimp only
        rw [hval, Nat.mod_eq_of_lt hlt, if_pos hlt, if_pos hsafe]
        exact reads_pure _
      rw [varint_of_lt hlt]
      exact hlast
    · have hval : (Fin.ofNat 256 (n % 128 + 128)).val = n % 128 + 128 := Nat.mod_eq_of_lt (by omega)
      have hlow : (n % 128 + 128) % 128 = n % 128 := by omega
      have htotal : result + n % 128 * 2 ^ shift + n / 128 * 2 ^ (shift + 7) =
          result + n * 2 ^ shift := by
        have hsplit : n % 128 + 128 * (n / 128) = n := Nat.mod_add_div n 128
        calc result + n % 128 * 2 ^ shift + n / 128 * 2 ^ (shift + 7)
            = result + (n % 128 + 128 * (n / 128)) * 2 ^ shift := by ring
          _ = result + n * 2 ^ shift := by rw [hsplit]
      have hdiv : n / 128 < 128 ^ fuel := by
        rw [pow_succ] at hfuel
        omega
      cases fuel with
      | zero =>
        rw [pow_zero] at hdiv
        omega
      | succ fuel =>
        have hmore : Reads bound (readVarintFrom (fuel + 1 + 1) shift result)
            ([Fin.ofNat 256 (n % 128 + 128)] ++ varint (n / 128)) (result + n * 2 ^ shift)
              (0 + 0) := by
          refine (reads_readByte _ _).bind ?_
          dsimp only
          rw [hval, hlow, if_neg (by omega), ← htotal]
          exact ih (n / 128) (by omega) fuel (shift + 7) _ hdiv (by rwa [htotal])
        rw [varint_of_ge hge]
        exact hmore

theorem readVarint_reads {bound n : ℕ} (h : n < 2 ^ 35) :
    Reads bound readVarint (varint n) n 0 := by
  have hread := @readVarintFrom_reads bound n 4 0 0 (by norm_num at h ⊢; exact h)
    (by rw [maxSafeInteger]; norm_num at h ⊢; omega)
  rwa [Nat.pow_zero, Nat.mul_one, Nat.zero_add] at hread

theorem bytesValue_reads {bound : ℕ} {bytes : Bytes} (h : bytes.length < 2 ^ 35) :
    Reads bound bytesValue (varint bytes.length ++ bytes) bytes 0 :=
  (readVarint_reads h).bind (reads_readBytes _ bytes)

theorem bigEndian_concat (bytes : Bytes) (byte : Byte) :
    bigEndian (bytes ++ [byte]) = bigEndian bytes * 256 + byte.val := by
  rw [bigEndian, List.foldl_append]
  rfl

theorem bigEndian_reverse (bytes : Bytes) : bigEndian bytes.reverse = leValue bytes := by
  induction bytes with
  | nil => rfl
  | cons byte bytes ih =>
    rw [List.reverse_cons, bigEndian_concat, ih, leValue]
    ring

theorem bigEndian_magnitudeBytes (n : ℕ) : bigEndian (magnitudeBytes n) = n := by
  induction n using magnitudeBytes.induct with
  | case1 n h =>
    rw [magnitudeBytes, dif_pos h, bigEndian, List.foldl_cons, List.foldl_nil, Nat.zero_mul,
      Nat.zero_add]
  | case2 n h ih =>
    have hbyte : (Fin.ofNat 256 n).val = n % 256 := rfl
    rw [magnitudeBytes, dif_neg h, bigEndian_concat, ih, hbyte]
    omega

theorem readNumber_reads {bound : ℕ} {value : Double} (h : finite value = true) :
    Reads bound readNumber (leBytes 8 (plainZero value).toNat).reverse
      (.number (plainZero value)) 0 := by
  have hlength : (leBytes 8 (plainZero value).toNat).reverse.length = 8 := by
    rw [List.length_reverse, length_leBytes]
  have hvalue : BitVec.ofNat 64 (bigEndian (leBytes 8 (plainZero value).toNat).reverse) =
      plainZero value := by
    rw [bigEndian_reverse, leValue_leBytes (plainZero value).isLt, BitVec.ofNat_toNat,
      BitVec.setWidth_eq]
  have hread : Reads bound readNumber ((leBytes 8 (plainZero value).toNat).reverse ++ [])
      (.number (plainZero value)) (0 + 0) := by
    refine Reads.bind (hlength ▸ reads_readBytes trailingData _) ?_
    dsimp only
    rw [hvalue, finite_plainZero h, decide_eq_false (plainZero_ne value)]
    exact reads_pure _
  rwa [List.append_nil] at hread

theorem readBigInt_reads {bound : ℕ} {value : ℤ}
    (h : (magnitudeBytes value.natAbs).length < 2 ^ 35) :
    Reads bound readBigInt ([if value < 0 then 1 else 0] ++
      (varint (magnitudeBytes value.natAbs).length ++ magnitudeBytes value.natAbs))
        (.bigint value) 0 := by
  have hresult : (if (if value < 0 then (1 : Byte) else 0).val =
      1 then -(bigEndian (magnitudeBytes value.natAbs) : ℤ)
      else (bigEndian (magnitudeBytes value.natAbs) : ℤ)) = value := by
    rw [bigEndian_magnitudeBytes]
    rcases lt_or_ge value 0 with hneg | hpos
    · rw [if_pos hneg, if_pos (by decide)]
      omega
    · rw [if_neg (Int.not_lt.mpr hpos), if_neg (by decide)]
      omega
  have hsign : Reads bound (readByte trailingData) [if value < 0 then (1 : Byte) else 0]
      (if value < 0 then (1 : Byte) else 0) 0 := reads_readByte trailingData _
  have hread := hsign.bind
    (f := fun sign => bytesValue >>= fun magnitude =>
      pure (CanonicalValue.bigint (if sign.val = 1 then -(bigEndian magnitude : ℤ)
        else (bigEndian magnitude : ℤ))))
    (bytesValue_reads h).map
  rw [hresult] at hread
  exact hread

end Numerals

section Texts

theorem byteArray_append (left right : Bytes) :
    Utf8.byteArray (left ++ right) = Utf8.byteArray left ++ Utf8.byteArray right := by
  apply ByteArray.ext
  rw [Utf8.byteArray, List.map_append, ← List.append_toArray, ByteArray.data_append]
  rfl

theorem utf8_first {c d : Char} {left right : Bytes}
    (h : utf8 (String.ofList [c]) ++ left = utf8 (String.ofList [d]) ++ right) : c = d := by
  have hbytes := congrArg (fun bytes => (Utf8.byteArray bytes).utf8DecodeChar? 0) h
  rw [byteArray_append, byteArray_append, Utf8.byteArray_utf8, Utf8.byteArray_utf8] at hbytes
  have hfirst : ∀ (e : Char) (rest : ByteArray),
      ((String.ofList [e]).toUTF8 ++ rest).utf8DecodeChar? 0 = some e :=
    fun e rest => List.utf8DecodeChar?_utf8Encode_singleton_append
  rw [hfirst, hfirst] at hbytes
  exact Option.some.inj hbytes

theorem utf8_cons (c : Char) (chars : List Char) :
    utf8 (String.ofList (c :: chars)) = utf8 (String.ofList [c]) ++ utf8 (String.ofList chars) := by
  simp only [Utf8.utf8_eq_flatMap, String.toList_ofList, List.flatMap_cons, List.flatMap_nil,
    List.append_nil,
    List.map_append]

theorem head_of_byteOrderMark {chars : List Char}
    (h : byteOrderMark.isPrefixOf (utf8 (String.ofList chars)) = true) :
    chars.head? = some (Char.ofNat 65279) := by
  have hmark : utf8 (String.ofList [Char.ofNat 65279]) = byteOrderMark := by decide
  obtain ⟨rest, hrest⟩ := List.isPrefixOf_iff_prefix.mp h
  cases chars with
  | nil => exact absurd hrest (by simp [byteOrderMark, Utf8.utf8_eq_flatMap])
  | cons c chars =>
    rw [← hmark, utf8_cons c] at hrest
    rw [List.head?_cons, utf8_first hrest]

theorem decodeUtf8_readable {text : Text} (h : Readable text) :
    decodeUtf8 (encodeUtf8 text) = some text := by
  obtain ⟨chars, rfl, hhead⟩ := h
  have hbytes : encodeUtf8 (encode chars) = utf8 (String.ofList chars) := by
    rw [← encodeUtf8_encode, String.toList_ofList]
  have hmark : ¬ byteOrderMark.isPrefixOf (utf8 (String.ofList chars)) = true :=
    fun hprefix => hhead (head_of_byteOrderMark hprefix)
  rw [hbytes, decodeUtf8, if_neg hmark, Utf8.fromUtf8_utf8, Option.map_some, String.toList_ofList]

variable {limits : CanonicalEncodingLimits}

theorem readText_reads {bound : ℕ} {text : Text} (hreadable : Readable text)
    (hvalid : ValidText limits text)
    (hlength : (encodeUtf8 text).length < 2 ^ 35) :
    Reads bound (readText limits) (varint (encodeUtf8 text).length ++ encodeUtf8 text)
      (.string text) 0 := by
  have hread : Reads bound (readText limits)
      ((varint (encodeUtf8 text).length ++ encodeUtf8 text) ++ []) (.string text)
      (0 + 0) := by
    refine (bytesValue_reads hlength).bind ?_
    rw [decodeUtf8_readable hreadable]
    dsimp only
    rw [hvalid]
    exact reads_pure _
  rwa [List.append_nil] at hread

end Texts

section Values

variable {limits : CanonicalEncodingLimits} {bound : ℕ}

theorem readCount_reads {n : ℕ} (h : n < 2 ^ 35) :
    Reads limits.maxElements (readCount limits) (varint n) n n := by
  have hread : Reads limits.maxElements (readCount limits) (varint n ++ ([] ++ [])) n
      (0 + (n + 0)) :=
    (readVarint_reads h).bind ((reads_count _ n).bind (reads_pure n))
  rwa [List.append_nil, List.append_nil, Nat.zero_add, Nat.add_zero] at hread

theorem readEntries_reads {read : Decoder CanonicalValue} {enc : CanonicalValue → Bytes}
    {cost : CanonicalValue → ℕ} {fields : List (Text × CanonicalValue)}
    (hkeys : ∀ field ∈ fields, Reads bound read (textBytes field.1) (.string field.1) 0)
    (hvalues : ∀ field ∈ fields, Reads bound read (enc field.2) (normal field.2) (cost field.2))
    (previous : Option Bytes)
    (hchain : (previous.toList ++ keysOf fields).IsChain (· < ·)) :
    Reads bound (readEntries read fields.length previous)
      (fields.flatMap (fun field => textBytes field.1 ++ enc field.2))
      (fields.map (fun field => (field.1, normal field.2)))
        (fields.map (fun field => cost field.2)).sum := by
  induction fields generalizing previous with
  | nil => exact reads_pure []
  | cons field fields ih =>
    obtain ⟨hkey, hkeys⟩ := List.forall_mem_cons.mp hkeys
    obtain ⟨hvalue, hvalues⟩ := List.forall_mem_cons.mp hvalues
    have hordered :
        previous.filter (fun bytes => decide (compareBytes bytes (encodeUtf8 field.1) ≠ .lt)) =
          none := by
      cases previous with
      | none => rfl
      | some bytes =>
        have hlt : bytes < encodeUtf8 field.1 := (List.isChain_cons_cons.mp hchain).1
        exact Option.filter_eq_none_iff.mpr (fun other hother => by
          rw [← Option.some.inj hother, decide_eq_true_eq, not_not]
          exact compareBytes_lt.mpr hlt)
    have hrest : ((some (encodeUtf8 field.1)).toList ++ keysOf fields).IsChain (· < ·) := by
      cases previous with
      | none => exact hchain
      | some bytes => exact (List.isChain_cons_cons.mp hchain).2
    have hread :=
      hvalue.bind (f := fun value => readEntries read fields.length (some (encodeUtf8 field.1)) >>=
      fun entries => pure ((field.1, value) :: entries)) (ih hkeys hvalues _ hrest).map
    rw [List.flatMap_cons, List.append_assoc, List.map_cons, List.map_cons, List.sum_cons,
      ← Nat.zero_add (_ + _)]
    refine Reads.position (fun offset => hkey.bind ?_)
    dsimp only
    rw [hordered]
    exact hread

theorem readValue_tag {levels depth cost : ℕ} {tag : Byte} {enc : Bytes} {value : CanonicalValue}
    (hlevels : levels + depth = limits.maxDepth + 1) (hdepth : depth ≤ limits.maxDepth)
    (hbody : ∀ k, k + (depth + 1) = limits.maxDepth + 1 →
      Reads bound (readTagged limits (readValue limits k (depth + 1)) tag) enc value cost) :
    Reads bound (readValue limits levels depth) (tag :: enc) value cost := by
  cases levels with
  | zero => omega
  | succ k =>
    have hread := (reads_readByte trailingData tag).bind (hbody k (by omega))
    rw [Nat.zero_add] at hread
    exact hread

theorem Writer.prod_elements (writers : List Writer) :
    writers.prod.elements = (writers.map Writer.elements).sum := by
  induction writers with
  | nil => rfl
  | cons writer writers ih =>
      rw [List.prod_cons, Writer.mul_elements, ih, List.map_cons, List.sum_cons]

theorem Valid.depth_le {depth : ℕ} {value : CanonicalValue} (h : Valid limits depth value) :
    depth ≤ limits.maxDepth := by
  cases value with
  | null => simpa only [Valid] using h
  | bool flag => simpa only [Valid] using h
  | bytes value => simpa only [Valid] using h
  | bigint value => simpa only [Valid] using h
  | string text => rw [Valid] at h; exact h.1
  | number value => rw [Valid] at h; exact h.1
  | array items => rw [Valid] at h; exact h.1
  | object fields => rw [Valid] at h; exact h.1
  | other => simp only [Valid] at h

theorem key_reads {levels depth : ℕ} {key : Text} (hlevels : levels + depth = limits.maxDepth + 1)
    (hdepth : depth ≤ limits.maxDepth) (hreadable : Readable key) (hvalid : ValidText limits key)
    (hlength : (encodeUtf8 key).length < 2 ^ 35) :
    Reads bound (readValue limits levels depth) (textBytes key) (.string key) 0 :=
  readValue_tag hlevels hdepth (fun _ _ => readText_reads hreadable hvalid hlength)

theorem readValue_reads (hlimits : WithinVarint limits) (value : CanonicalValue) : ∀ levels depth,
    levels + depth = limits.maxDepth + 1 → Valid limits depth value → Faithful value →
    (budget limits).fits (footprint value) →
    Reads limits.maxElements (readValue limits levels depth) (footprint value).bytes (normal value)
      (footprint value).elements := by
  have hshort : ∀ writer : Writer, (budget limits).fits writer → writer.bytes.length < 2 ^ 35 :=
    fun writer hfits => Nat.lt_of_le_of_lt hfits.2 hlimits.1
  induction value using CanonicalValue.induct with
  | null =>
    intro levels depth hlevels hvalid _ _
    rw [footprint, normal]
    · exact readValue_tag hlevels hvalid.depth_le (fun _ _ => reads_pure _)
    all_goals simp
  | bool flag =>
    intro levels depth hlevels hvalid _ _
    rw [footprint, normal]
    · cases flag with
      | false => exact readValue_tag hlevels hvalid.depth_le (fun _ _ => reads_pure _)
      | true => exact readValue_tag hlevels hvalid.depth_le (fun _ _ => reads_pure _)
    all_goals simp
  | string text =>
    intro levels depth hlevels hvalid hfaithful hfits
    have hlength := hshort _ hfits
    rw [Valid] at hvalid
    rw [Faithful] at hfaithful
    rw [footprint, textBytes, List.length_cons, List.length_append] at hlength
    rw [footprint, normal]
    · exact key_reads hlevels hvalid.1 hfaithful hvalid.2 (by omega)
    all_goals simp
  | bytes value =>
    intro levels depth hlevels hvalid _ hfits
    have hlength := hshort _ hfits
    rw [footprint, List.length_cons, List.length_append] at hlength
    rw [footprint, normal]
    · exact readValue_tag hlevels hvalid.depth_le (fun _ _ => (bytesValue_reads (by omega)).map)
    all_goals simp
  | number value =>
    intro levels depth hlevels hvalid _ _
    rw [Valid] at hvalid
    rw [footprint, normal]
    exact readValue_tag hlevels hvalid.1 (fun _ _ => readNumber_reads hvalid.2)
  | bigint value =>
    intro levels depth hlevels hvalid _ hfits
    have hlength := hshort _ hfits
    rw [footprint, bigintBytes, List.length_append, List.length_append] at hlength
    rw [footprint, normal]
    · refine (readValue_tag hlevels hvalid.depth_le (fun _ _ => ?_)).mono (Nat.zero_le _)
      exact readBigInt_reads (by omega)
    all_goals simp
  | array items ih =>
    intro levels depth hlevels hvalid hfaithful hfits
    rw [Valid, allValid_iff] at hvalid
    rw [Faithful, allFaithful_iff] at hfaithful
    rw [footprint, footprints_eq] at hfits ⊢
    rw [normal, normals_eq]
    have hitems := fits_of_mem_prod limits (fits_right limits hfits)
    have hcount : items.length < 2 ^ 35 := by
      have hheader := ((budget limits).of_mul hfits).1
      exact Nat.lt_of_le_of_lt hheader hlimits.2
    have hbytes :
        (⟨items.length, 5 :: varint items.length⟩ * (items.map footprint).prod : Writer).bytes =
        5 :: (varint items.length ++ items.flatMap (fun item => (footprint item).bytes)) := by
      rw [Writer.mul_bytes, Writer.prod_bytes, List.flatMap_map]
      rfl
    have helements :
        (⟨items.length, 5 :: varint items.length⟩ * (items.map footprint).prod : Writer).elements =
        items.length + (items.map (fun item => (footprint item).elements)).sum := by
      rw [Writer.mul_elements, Writer.prod_elements, List.map_map]
      rfl
    rw [hbytes, helements]
    refine readValue_tag hlevels hvalid.1 (fun k hk => ?_)
    have hmany :=
      reads_many (fun item hitem => ih item hitem k (depth + 1) hk (hvalid.2 item hitem)
        (hfaithful item hitem)
      (hitems _ (List.mem_map_of_mem hitem)))
    exact (readCount_reads hcount).bind hmany.map
  | object fields ih =>
    intro levels depth hlevels hvalid hfaithful hfits
    rw [Valid, fieldsValid_iff] at hvalid
    rw [Faithful, fieldsFaithful_iff] at hfaithful
    obtain ⟨hdepth, hnodup, hfields⟩ := hvalid
    rw [footprint, sortFields_footprints] at hfits ⊢
    rw [normal, sortFields_normal]
    have hperm := sortBy_perm fieldKey fields
    have hlengths : (sortFields fields).length = fields.length := hperm.length_eq
    have hwriters := fits_of_mem_prod limits (fits_right limits hfits)
    have hcount : fields.length < 2 ^ 35 := by
      have hheader := ((budget limits).of_mul hfits).1
      exact Nat.lt_of_le_of_lt hheader hlimits.2
    have hbytes : (⟨fields.length, 6 :: varint fields.length⟩ *
        ((sortFields fields).map (fun field => fieldBytes (field.1, footprint field.2))).prod :
          Writer).bytes =
        6 :: (varint fields.length ++
          (sortFields fields).flatMap (fun field => textBytes field.1 ++
            (footprint field.2).bytes)) := by
      rw [Writer.mul_bytes, Writer.prod_bytes, List.flatMap_map]
      rfl
    have helements : (⟨fields.length, 6 :: varint fields.length⟩ *
        ((sortFields fields).map (fun field => fieldBytes (field.1, footprint field.2))).prod :
          Writer).elements =
        fields.length + ((sortFields fields).map
          (fun field => (footprint field.2).elements)).sum := by
      rw [Writer.mul_elements, Writer.prod_elements, List.map_map]
      congr 2
      exact List.map_congr_left (fun field _ => Nat.zero_add _)
    rw [hbytes, helements]
    refine readValue_tag hlevels hdepth (fun k hk => ?_)
    have hfield : ∀ field ∈ sortFields fields, field ∈ fields ∧
        (budget limits).fits ⟨0, textBytes field.1⟩ ∧
        (budget limits).fits (footprint field.2) := by
      intro field hfield
      have hwriter := hwriters _ (List.mem_map_of_mem hfield)
      exact ⟨hperm.mem_iff.mp hfield, (budget limits).of_mul hwriter, fits_right limits hwriter⟩
    have hkeys : ∀ field ∈ sortFields fields,
        Reads limits.maxElements (readValue limits k (depth + 1)) (textBytes field.1)
          (.string field.1) 0 := by
      intro field hmem
      obtain ⟨hmem, hkey, -⟩ := hfield field hmem
      have hlength := hshort _ hkey
      dsimp only at hlength
      rw [textBytes, List.length_cons, List.length_append] at hlength
      exact key_reads hk (hfields field hmem).2.depth_le (hfaithful field hmem).1
        (hfields field hmem).1 (by omega)
    have hvalues : ∀ field ∈ sortFields fields,
        Reads limits.maxElements (readValue limits k (depth + 1))
        (footprint field.2).bytes (normal field.2) (footprint field.2).elements := by
      intro field hmem
      obtain ⟨hmem, -, hvalue⟩ := hfield field hmem
      exact ih field hmem k (depth + 1) hk (hfields field hmem).2 (hfaithful field hmem).2 hvalue
    have hsorted : (none.toList ++ keysOf (sortFields fields)).IsChain (· < ·) := by
      have hle : (keysOf (sortFields fields)).IsChain (· ≤ ·) :=
        (List.pairwise_map.mpr (sortBy_pairwise fieldKey fields)).isChain
      exact isChain_lt_of_ne hle ((keysOf_sortFields fields).mpr hnodup)
    have hentries := @readEntries_reads limits.maxElements (readValue limits k (depth + 1))
      (fun value => (footprint value).bytes) (fun value => (footprint value).elements)
        (sortFields fields) hkeys hvalues
      none hsorted
    rw [hlengths] at hentries
    exact (readCount_reads hcount).bind hentries.map
  | other =>
    intro levels depth _ hvalid
    simp only [Valid] at hvalid

theorem decodeCanonical_encodeCanonical (hlimits : WithinVarint limits) {value : CanonicalValue}
    {bytes : Bytes}
    (hfaithful : Faithful value) (hencoded : encodeCanonical limits value = .ok bytes) :
    decodeCanonical limits bytes = .ok (normal value) := by
  obtain ⟨hvalid, hfits, rfl⟩ := encodeCanonical_eq_ok.mp hencoded
  obtain ⟨counted, -, hread⟩ :=
    readValue_reads hlimits value (limits.maxDepth + 1) 0 rfl hvalid hfaithful hfits [] 0 0
    (by rw [Nat.zero_add]; exact hfits.1)
  rw [List.append_nil] at hread
  rw [decodeCanonical, if_neg (Nat.not_lt.mpr hfits.2), hread]
  rfl

def sampleObject : CanonicalValue :=
  .object [([98], .number negativeZero),
    ([97], .array [.string (encode ['x', Char.ofNat 128512]), .bytes [7]])]

theorem decodeCanonical_encodeCanonical_sample : decodeCanonical defaultLimits
    [6, 2, 3, 1, 97, 5, 2, 3, 5, 120, 240, 159, 152, 128, 4, 1, 7, 3, 1, 98, 7, 0, 0, 0, 0,
      0, 0, 0, 0] =
    .ok (.object [([97], .array [.string [120, 55357, 56832], .bytes [7]]),
      ([98], .number positiveZero)]) := by
  have hkeyA : Readable [97] := ⟨['a'], by decide, by decide⟩
  have hkeyB : Readable [98] := ⟨['b'], by decide, by decide⟩
  have htext : Readable (encode ['x', Char.ofNat 128512]) :=
    ⟨['x', Char.ofNat 128512], rfl, by decide⟩
  have hfaithful : Faithful sampleObject :=
    ⟨⟨hkeyB, trivial⟩, ⟨hkeyA, htext, trivial, trivial⟩, trivial⟩
  exact decodeCanonical_encodeCanonical defaultLimits_withinVarint hfaithful (by decide +kernel)

end Values

section Accepted

variable {limits : CanonicalEncodingLimits}

def Accepted (limits : CanonicalEncodingLimits) (depth : ℕ) (value : CanonicalValue) : Prop :=
  Valid limits depth value ∧ normal value = value

end Accepted

section Pieces

variable {limits : CanonicalEncodingLimits}

theorem readVarintFrom_takes (fuel : ℕ) :
    ∀ shift result, Takes (readVarintFrom fuel shift result) := by
  induction fuel with
  | zero => exact fun _ _ => takes_throw _
  | succ fuel ih =>
    intro shift result
    refine (takes_readByte _).bind (fun byte => ?_)
    dsimp only
    split
    · split
      · exact takes_pure _
      · exact takes_throw _
    · exact ih _ _

theorem bytesValue_takes : Takes bytesValue :=
  (readVarintFrom_takes 5 0 0).bind (fun length => takes_readBytes _ length)

theorem readCount_takes : Takes (readCount limits) :=
  (readVarintFrom_takes 5 0 0).bind (fun length =>
    (takes_count _ _ length).bind (fun _ => takes_pure length))

theorem readText_takes : Takes (readText limits) := by
  refine bytesValue_takes.bind (fun bytes => ?_)
  cases decodeUtf8 bytes with
  | none => exact takes_throw _
  | some text =>
    dsimp only
    cases validateUnicode limits text with
    | error error => exact takes_throw _
    | ok _ => exact takes_pure _

theorem readNumber_takes : Takes readNumber := by
  refine (takes_readBytes _ 8).bind (fun bytes => ?_)
  dsimp only
  split
  · exact takes_throw _
  · exact takes_pure _

theorem readBigInt_takes : Takes readBigInt :=
  (takes_readByte _).bind (fun _ => bytesValue_takes.bind (fun _ => takes_pure _))

theorem readEntries_takes {read : Decoder CanonicalValue} (hread : Takes read) (n : ℕ) :
    ∀ previous, Takes (readEntries read n previous) := by
  induction n with
  | zero => exact fun _ => takes_pure _
  | succ n ih =>
    intro previous
    refine takes_position.bind (fun keyStart => hread.bind (fun key => ?_))
    cases key with
    | string text =>
      dsimp only
      cases previous.filter (fun bytes => decide (compareBytes bytes (encodeUtf8 text) ≠ .lt)) with
      | some bytes => exact takes_throw _
      | none => exact hread.bind (fun value => (ih _).bind (fun entries => takes_pure _))
    | _ => exact takes_throw _

theorem readTagged_takes {read : Decoder CanonicalValue} (hread : Takes read) (tag : Byte) :
    Takes (readTagged limits read tag) := by
  rw [readTagged]
  split
  · exact takes_pure _
  · exact takes_pure _
  · exact takes_pure _
  · exact readText_takes
  · exact bytesValue_takes.bind (fun _ => takes_pure _)
  · exact readCount_takes.bind (fun length => (takes_many hread length).bind
      (fun _ => takes_pure _))
  · exact readCount_takes.bind (fun length => (readEntries_takes hread length none).bind
      (fun _ => takes_pure _))
  · exact readNumber_takes
  · exact readBigInt_takes
  · exact takes_throw _

theorem readValue_takes (levels : ℕ) : ∀ depth, Takes (readValue limits levels depth) := by
  induction levels with
  | zero => exact fun _ => takes_throw _
  | succ levels ih => exact fun depth => (takes_readByte _).bind (readTagged_takes (ih (depth + 1)))

theorem decodeCanonical_followed {bytes more : Bytes} {value : CanonicalValue}
    (h : decodeCanonical limits bytes = .ok value) (hmore : more ≠ [])
    (hroom : (bytes ++ more).length ≤ limits.maxBytes) :
    decodeCanonical limits (bytes ++ more) = .error (trailingData bytes.length) := by
  rw [decodeCanonical] at h
  split at h
  · cases h
  · obtain ⟨⟨decoded, source⟩, hread, h⟩ := bind_eq_ok h
    dsimp only at h
    obtain ⟨hdone, -⟩ := ite_eq_ok h
    obtain ⟨taken, htaken, hoffset, hagain⟩ := readValue_takes _ _ _ _ _ hread
    have hbytes : bytes = taken := by
      rw [hdone, List.append_nil] at htaken
      exact htaken
    have hread' := hagain more
    rw [← hbytes] at hread' hoffset
    rw [decodeCanonical, if_neg (Nat.not_lt.mpr hroom), hread']
    refine (if_neg hmore).trans ?_
    rw [hoffset, Nat.zero_add]

theorem decodeCanonical_followed_sample :
    decodeCanonical defaultLimits ([5, 1, 0] ++ [0]) = .error (trailingData 3) :=
  @decodeCanonical_followed defaultLimits [5, 1, 0] [0] (.array [.null]) rfl (by decide) (by decide)

end Pieces

end LogicalEncoding

end Canonical
