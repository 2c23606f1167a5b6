import Urdira.Canonical.LogicalEncoding
import Urdira.Lib.Emission
import Urdira.Lib.ExceptOk
import Urdira.Lib.KeyedSort

open Binary64 ByteLayout ByteOrder Emission KeyedSort PrefixCode TextCodec Utf16

namespace Canonical

theorem CanonicalValue.induct {P : CanonicalValue → Prop} (null : P .null)
    (bool : ∀ flag, P (.bool flag))
    (string : ∀ text, P (.string text)) (bytes : ∀ value, P (.bytes value))
    (number : ∀ value, P (.number value))
    (bigint : ∀ value, P (.bigint value))
    (array : ∀ items, (∀ item ∈ items, P item) → P (.array items))
    (object : ∀ fields, (∀ field ∈ fields, P field.2) → P (.object fields)) (other : P .other) :
    ∀ value, P value :=
  @CanonicalValue.rec P (fun items => ∀ item ∈ items, P item) (fun fields => ∀ field ∈ fields,
    P field.2)
    (fun field => P field.2) null bool string bytes number bigint array object other
    (List.forall_mem_nil _) (fun _ _ hitem hitems => List.forall_mem_cons.mpr ⟨hitem, hitems⟩)
    (List.forall_mem_nil _) (fun _ _ hfield hfields => List.forall_mem_cons.mpr ⟨hfield, hfields⟩)
    (fun _ _ hvalue => hvalue)

namespace LogicalEncoding

theorem compareBytes_lt {left right : Bytes} : compareBytes left right = .lt ↔ left < right := by
  induction left generalizing right with
  | nil =>
    cases right with
    | nil => simp [compareBytes]
    | cons b right => simp [compareBytes]
  | cons a left ih =>
    cases right with
    | nil => simp [compareBytes]
    | cons b right =>
      rw [compareBytes, List.cons_lt_cons_iff]
      rcases lt_trichotomy a b with hlt | rfl | hgt
      · simp [hlt]
      · simp [ih]
      · simp [hgt, not_lt_of_gt hgt, hgt.ne']

theorem compareBytes_eq {left right : Bytes} : compareBytes left right = .eq ↔ left = right := by
  induction left generalizing right with
  | nil =>
    cases right with
    | nil => simp [compareBytes]
    | cons b right => simp [compareBytes]
  | cons a left ih =>
    cases right with
    | nil => simp [compareBytes]
    | cons b right =>
      rw [compareBytes, List.cons.injEq]
      rcases lt_trichotomy a b with hlt | rfl | hgt
      · simp [hlt, hlt.ne]
      · simp [ih]
      · simp [hgt, not_lt_of_gt hgt, hgt.ne']

theorem compareBytes_ne_gt {left right : Bytes} : compareBytes left right ≠ .gt ↔ left ≤ right := by
  rw [le_iff_lt_or_eq, ← compareBytes_lt, ← compareBytes_eq]
  cases compareBytes left right <;> simp

section Writers

instance : Monoid Writer where
  mul left right := ⟨left.elements + right.elements, left.bytes ++ right.bytes⟩
  one := ⟨0, []⟩
  mul_assoc a b c := congrArg₂ Writer.mk (Nat.add_assoc _ _ _) (List.append_assoc _ _ _)
  one_mul a := congrArg₂ Writer.mk (Nat.zero_add _) (List.nil_append _)
  mul_one a := congrArg₂ Writer.mk (Nat.add_zero _) (List.append_nil _)

@[simp] theorem Writer.mul_bytes (left right : Writer) :
    (left * right).bytes = left.bytes ++ right.bytes := rfl

@[simp] theorem Writer.mul_elements (left right : Writer) :
    (left * right).elements = left.elements + right.elements := rfl

@[simp] theorem Writer.prod_bytes (writers : List Writer) :
    writers.prod.bytes = writers.flatMap Writer.bytes := by
  induction writers with
  | nil => rfl
  | cons writer writers ih => rw [List.prod_cons, Writer.mul_bytes, List.flatMap_cons, ih]

theorem Writer.mk_mul_mk (e e' : ℕ) (b b' : Bytes) :
    (⟨e, b⟩ * ⟨e', b'⟩ : Writer) = ⟨e + e', b ++ b'⟩ := rfl

variable (limits : CanonicalEncodingLimits)

def budget : Budget Writer where
  fits writer := writer.elements ≤ limits.maxElements ∧ writer.bytes.length ≤ limits.maxBytes
  of_mul := by
    rintro written more ⟨helements, hbytes⟩
    rw [Writer.mul_elements] at helements
    rw [Writer.mul_bytes, List.length_append] at hbytes
    exact ⟨by omega, by omega⟩

theorem fits_one : (budget limits).fits 1 := ⟨Nat.zero_le _, Nat.zero_le _⟩

theorem fits_right {left right : Writer} (h : (budget limits).fits (left * right)) :
    (budget limits).fits right := by
  obtain ⟨helements, hbytes⟩ := h
  rw [Writer.mul_elements] at helements
  rw [Writer.mul_bytes, List.length_append] at hbytes
  exact ⟨by omega, by omega⟩

theorem fits_of_mem_prod {writers : List Writer} (h : (budget limits).fits writers.prod) :
    ∀ writer ∈ writers, (budget limits).fits writer := by
  induction writers with
  | nil => exact List.forall_mem_nil _
  | cons writer writers ih =>
    rw [List.prod_cons] at h
    exact List.forall_mem_cons.mpr ⟨(budget limits).of_mul h, ih (fits_right limits h)⟩

theorem write_emits (value : Bytes) :
    Emits (budget limits) (write limits value) True ⟨0, value⟩ := by
  refine @Emits.append _ _ _ (budget limits) ⟨0, value⟩
    (fun writer => limits.maxBytes < writer.bytes.length + value.length) (fun _ => Nat.decLt _ _)
    (fun writer => limit "max_bytes" limits.maxBytes (writer.bytes.length + value.length)) ?_
  rintro written ⟨helements, -⟩
  have hlength : (written * ⟨0, value⟩).bytes.length = written.bytes.length + value.length :=
    List.length_append
  constructor
  · rintro hover ⟨-, hbytes⟩
    rw [hlength] at hbytes
    exact absurd hover (Nat.not_lt.mpr hbytes)
  · intro hroom
    by_contra hunder
    exact hroom ⟨helements, hlength ▸ Nat.not_lt.mp hunder⟩

theorem consume_emits (count : ℕ) :
    Emits (budget limits) (consume limits count) True ⟨count, []⟩ := by
  have hwrite : consume limits count = fun writer =>
      if limits.maxElements < writer.elements + count then
        .error (limit "max_elements" limits.maxElements (writer.elements + count))
      else .ok (writer * ⟨count, []⟩) := by
    funext writer
    have hnil : writer * ⟨count, []⟩ = ⟨writer.elements + count, writer.bytes⟩ :=
      congrArg (Writer.mk _) (List.append_nil _)
    rw [hnil]
    rfl
  rw [hwrite]
  refine Emits.append _ ?_
  rintro written ⟨-, hbytes⟩
  constructor
  · rintro hover ⟨helements, -⟩
    exact absurd hover (Nat.not_lt.mpr helements)
  · intro hroom
    by_contra hunder
    exact hroom ⟨Nat.not_lt.mp hunder, by rwa [Writer.mul_bytes, List.append_nil]⟩

def textBytes (text : Text) : Bytes := 3 :: (varint (encodeUtf8 text).length ++ encodeUtf8 text)

def ValidText (text : Text) : Prop := validateUnicode limits text = .ok ()

theorem framed_emits (tag : Bytes) (value : Bytes) :
    Emits (budget limits)
      (fun writer => do
        let writer ← write limits tag writer
        let writer ← write limits (varint value.length) writer
        write limits value writer)
      True ⟨0, tag ++ (varint value.length ++ value)⟩ :=
  ((write_emits limits tag).bind ((write_emits limits _).bind (write_emits limits value))).congr
    (by simp) rfl

theorem writeText_emits (text : Text) :
    Emits (budget limits) (writeText limits text) (ValidText limits text) ⟨0, textBytes text⟩ :=
  (framed_emits limits [3] (encodeUtf8 text)).check.congr (and_iff_left trivial) rfl

theorem writeBytes_emits (value : Bytes) :
    Emits (budget limits) (writeBytes limits value) True
      ⟨0, 4 :: (varint value.length ++ value)⟩ := by
  intro written hfits result
  by_cases hover : limits.maxBytes < value.length
  · rw [writeBytes, if_pos hover]
    refine iff_of_false (fun h => by cases h) ?_
    rintro ⟨-, ⟨-, hbytes⟩, -⟩
    rw [Writer.mul_bytes, List.length_append, List.length_cons, List.length_append] at hbytes
    omega
  · rw [writeBytes, if_neg hover]
    exact framed_emits limits [4] value hfits result

def plainZero (value : Double) : Double := if value = negativeZero then positiveZero else value

def numberBytes (value : Double) : Bytes := 7 :: (leBytes 8 (plainZero value).toNat).reverse

theorem plainZero_ne (value : Double) : plainZero value ≠ negativeZero := by
  unfold plainZero
  split
  · decide
  · assumption

theorem finite_plainZero {value : Double} (h : finite value = true) :
    finite (plainZero value) = true := by
  unfold plainZero
  split
  · decide
  · exact h

theorem encodeFloat64_plainZero {value : Double} (h : finite value = true) :
    encodeFloat64 (plainZero value) = .ok (numberBytes value) := by
  rw [encodeFloat64, finite_plainZero h, decide_eq_false (plainZero_ne value)]
  rfl

theorem writeNumber_emits (value : Double) :
    Emits (budget limits) (writeNumber limits value) (finite value = true)
      ⟨0, numberBytes value⟩ := by
  intro written hfits result
  rw [writeNumber]
  cases hfinite : finite value with
  | false => exact iff_of_false (fun h => by cases h) (fun h => by cases h.1)
  | true =>
    change (encodeFloat64 (plainZero value) >>= fun bytes => write limits bytes written) = _ ↔ _
    rw [encodeFloat64_plainZero hfinite]
    exact (write_emits limits (numberBytes value) hfits result).trans (by simp)

def bigintBytes (value : ℤ) : Bytes :=
  [8, if value < 0 then 1 else 0] ++
    (varint (magnitudeBytes value.natAbs).length ++ magnitudeBytes value.natAbs)

theorem writeBigInt_emits (value : ℤ) :
    Emits (budget limits) (writeBigInt limits value) True
      ⟨(magnitudeBytes value.natAbs).length, bigintBytes value⟩ :=
  ((consume_emits limits _).bind (framed_emits limits _ (magnitudeBytes value.natAbs))).congr
    (by simp)
    (by simp [Writer.mk_mul_mk, bigintBytes])

theorem checkDepth_emits {depth : ℕ} {encoder : Encoder} {valid : Prop} {output : Writer}
    (h : Emits (budget limits) encoder valid output) :
    Emits (budget limits) (checkDepth limits depth encoder) (depth ≤ limits.maxDepth ∧
      valid) output :=
  (h.refuse (fun _ => limit "max_depth" limits.maxDepth depth)).congr
    (and_congr_left' Nat.not_lt) rfl

end Writers

section Fields

variable {α : Type}

def fieldKey (field : Text × α) : Bytes := encodeUtf8 field.1

def keysOf (fields : List (Text × α)) : List Bytes := fields.map fieldKey

def sortFields (fields : List (Text × α)) : List (Text × α) := sortBy fieldKey fields

theorem sortedEntries_map (entry : Text × α → Entry)
    (hentry : ∀ field, (entry field).keyBytes = fieldKey field)
    (fields : List (Text × α)) :
    sortedEntries (fields.map entry) = (sortFields fields).map entry := by
  have hsort : sortedEntries (fields.map entry) = sortBy Entry.keyBytes (fields.map entry) := by
    have hle : (fun left right : Entry => compareBytes left.keyBytes right.keyBytes ≠ .gt) =
        fun left right => left.keyBytes ≤ right.keyBytes := by
      funext left right
      exact propext compareBytes_ne_gt
    unfold sortedEntries sortBy
    congr 1
  rw [hsort]
  exact sortBy_map hentry fields

variable (limits : CanonicalEncodingLimits)

theorem writeAll_emits {encoder : α → Encoder} {valid : α → Prop} {output : α → Writer}
    (items : List α)
    (h : ∀ item ∈ items, Emits (budget limits) (encoder item) (valid item) (output item)) :
    Emits (budget limits) (writeAll (items.map encoder)) (∀ item ∈ items, valid item)
      (items.map output).prod := by
  induction items with
  | nil => exact Emits.pure.congr (by simp) rfl
  | cons item items ih =>
    have hfirst := h item List.mem_cons_self
    have hrest := ih (fun other hother => h other (List.mem_cons_of_mem _ hother))
    exact (hfirst.bind hrest).congr List.forall_mem_cons.symm rfl

def fieldBytes (field : Text × Writer) : Writer := ⟨0, textBytes field.1⟩ * field.2

theorem writeEntries_emits {encoder : Text × α → Encoder} {valid : Text × α → Prop}
    {output : Text × α → Writer}
    (fields : List (Text × α))
    (h : ∀ field ∈ fields, Emits (budget limits) (encoder field) (valid field) (output field))
    (previous : Option Bytes) :
    Emits (budget limits)
      (writeEntries limits previous (fields.map
        (fun field => ⟨field.1, fieldKey field, encoder field⟩)))
      ((previous.toList ++ keysOf fields).IsChain (· ≠ ·) ∧
        ∀ field ∈ fields, ValidText limits field.1 ∧ valid field)
      (fields.map (fun field => fieldBytes (field.1, output field))).prod := by
  induction fields generalizing previous with
  | nil =>
    refine Emits.pure.congr ?_ rfl
    cases previous with
    | none => simp [keysOf]
    | some bytes => simp [keysOf]
  | cons field fields ih =>
    have hfirst := h field List.mem_cons_self
    have hrest :=
      ih (fun other hother => h other (List.mem_cons_of_mem _ hother)) (some (fieldKey field))
    have hfield := (writeText_emits limits field.1).bind (hfirst.bind hrest)
    refine (hfield.refuse (fun _ => _)).congr ?_ (mul_assoc _ _ _).symm
    rw [List.forall_mem_cons]
    have hchain : (previous.toList ++ keysOf (field :: fields)).IsChain (· ≠ ·) ↔
        ¬ (previous.any (fun bytes => compareBytes bytes (fieldKey field) == .eq) = true) ∧
          ((some (fieldKey field)).toList ++ keysOf fields).IsChain (· ≠ ·) := by
      cases previous with
      | none => simp [keysOf]
      | some bytes => simp [keysOf, compareBytes_eq]
    rw [hchain]
    tauto

end Fields

section Values

variable (limits : CanonicalEncodingLimits)

mutual

def footprint : CanonicalValue → Writer
  | .null => ⟨0, [0]⟩
  | .bool flag => ⟨0, [if flag then 2 else 1]⟩
  | .string text => ⟨0, textBytes text⟩
  | .bytes value => ⟨0, 4 :: (varint value.length ++ value)⟩
  | .number value => ⟨0, numberBytes value⟩
  | .bigint value => ⟨(magnitudeBytes value.natAbs).length, bigintBytes value⟩
  | .array items => ⟨items.length, 5 :: varint items.length⟩ * (footprints items).prod
  | .object fields =>
    ⟨fields.length, 6 :: varint fields.length⟩ *
      ((sortFields (fieldFootprints fields)).map fieldBytes).prod
  | .other => 1

def footprints : List CanonicalValue → List Writer
  | [] => []
  | item :: items => footprint item :: footprints items

def fieldFootprints : List (Text × CanonicalValue) → List (Text × Writer)
  | [] => []
  | (key, item) :: fields => (key, footprint item) :: fieldFootprints fields

end

mutual

def Valid (depth : ℕ) : CanonicalValue → Prop
  | .string text => depth ≤ limits.maxDepth ∧ ValidText limits text
  | .number value => depth ≤ limits.maxDepth ∧ finite value = true
  | .array items => depth ≤ limits.maxDepth ∧ AllValid (depth + 1) items
  | .object fields => depth ≤ limits.maxDepth ∧ (keysOf fields).Nodup ∧
      FieldsValid (depth + 1) fields
  | .other => False
  | _ => depth ≤ limits.maxDepth

def AllValid (depth : ℕ) : List CanonicalValue → Prop
  | [] => True
  | item :: items => Valid depth item ∧ AllValid depth items

def FieldsValid (depth : ℕ) : List (Text × CanonicalValue) → Prop
  | [] => True
  | (key, item) :: fields => (ValidText limits key ∧ Valid depth item) ∧ FieldsValid depth fields

end

theorem footprints_eq (items : List CanonicalValue) : footprints items = items.map footprint := by
  induction items with
  | nil => rw [footprints, List.map_nil]
  | cons item items ih => rw [footprints, List.map_cons, ih]

theorem fieldFootprints_eq (fields : List (Text × CanonicalValue)) :
    fieldFootprints fields = fields.map (fun field => (field.1, footprint field.2)) := by
  induction fields with
  | nil => rw [fieldFootprints, List.map_nil]
  | cons field fields ih => rw [fieldFootprints, List.map_cons, ih]

theorem itemWriters_eq (depth : ℕ) (items : List CanonicalValue) :
    itemWriters limits depth items = items.map (writeValue limits depth) := by
  induction items with
  | nil => rw [itemWriters, List.map_nil]
  | cons item items ih => rw [itemWriters, List.map_cons, ih]

theorem fieldEntries_eq (depth : ℕ) (fields : List (Text × CanonicalValue)) :
    fieldEntries limits depth fields =
    fields.map (fun field => ⟨field.1, fieldKey field, writeValue limits depth field.2⟩) := by
  induction fields with
  | nil => rw [fieldEntries, List.map_nil]
  | cons field fields ih => rw [fieldEntries, List.map_cons, ih]; rfl

variable {limits}

theorem allValid_iff {depth : ℕ} {items : List CanonicalValue} :
    AllValid limits depth items ↔ ∀ item ∈ items, Valid limits depth item := by
  induction items with
  | nil => rw [AllValid]; exact iff_of_true trivial (List.forall_mem_nil _)
  | cons item items ih => rw [AllValid, List.forall_mem_cons, ih]

theorem fieldsValid_iff {depth : ℕ} {fields : List (Text × CanonicalValue)} :
    FieldsValid limits depth fields ↔
    ∀ field ∈ fields, ValidText limits field.1 ∧ Valid limits depth field.2 := by
  induction fields with
  | nil => rw [FieldsValid]; exact iff_of_true trivial (List.forall_mem_nil _)
  | cons field fields ih => rw [FieldsValid, List.forall_mem_cons, ih]

theorem sortFields_footprints (fields : List (Text × CanonicalValue)) :
    (sortFields (fieldFootprints fields)).map fieldBytes =
      (sortFields fields).map (fun field => fieldBytes (field.1, footprint field.2)) := by
  rw [fieldFootprints_eq]
  unfold sortFields
  rw [sortBy_map (fun _ => rfl), List.map_map]
  rfl

theorem keysOf_sortFields {α : Type} (fields : List (Text × α)) :
    (keysOf (sortFields fields)).IsChain (· ≠ ·) ↔ (keysOf fields).Nodup := by
  have hsorted := nodup_iff_isChain (sortBy_pairwise fieldKey fields)
  exact hsorted.symm.trans ((sortBy_perm fieldKey fields).map fieldKey).nodup_iff

theorem writeValue_emits (value : CanonicalValue) : ∀ depth,
    Emits (budget limits) (writeValue limits depth value) (Valid limits depth value)
      (footprint value) := by
  induction value using CanonicalValue.induct with
  | null =>
    intro depth
    rw [writeValue, Valid, footprint]
    · exact (checkDepth_emits limits (write_emits limits [0])).congr (by simp) rfl
    all_goals simp
  | bool flag =>
    intro depth
    rw [writeValue, Valid, footprint]
    · exact (checkDepth_emits limits (write_emits limits _)).congr (by simp) rfl
    all_goals simp
  | string text =>
    intro depth
    rw [writeValue, Valid, footprint]
    exact checkDepth_emits limits (writeText_emits limits text)
  | bytes value =>
    intro depth
    rw [writeValue, Valid, footprint]
    · exact (checkDepth_emits limits (writeBytes_emits limits value)).congr (by simp) rfl
    all_goals simp
  | number value =>
    intro depth
    rw [writeValue, Valid, footprint]
    exact checkDepth_emits limits (writeNumber_emits limits value)
  | bigint value =>
    intro depth
    rw [writeValue, Valid, footprint]
    · exact (checkDepth_emits limits (writeBigInt_emits limits value)).congr (by simp) rfl
    all_goals simp
  | array items ih =>
    intro depth
    rw [writeValue, Valid, footprint, itemWriters_eq, footprints_eq, allValid_iff]
    have hitems := writeAll_emits limits items (fun item hitem => ih item hitem (depth + 1))
    have hheader := (consume_emits limits items.length).bind ((write_emits limits [5]).bind
      ((write_emits limits (varint items.length)).bind hitems))
    refine checkDepth_emits limits (hheader.congr (by simp) ?_)
    rw [← mul_assoc, ← mul_assoc, Writer.mk_mul_mk, Writer.mk_mul_mk]
    rfl
  | object fields ih =>
    intro depth
    rw [writeValue, Valid, footprint, fieldEntries_eq, sortFields_footprints, fieldsValid_iff,
      sortedEntries_map _ (fun _ => rfl)]
    have hperm := sortBy_perm fieldKey fields
    have hentries := writeEntries_emits limits (sortFields fields)
      (fun field hfield => ih field (hperm.mem_iff.mp hfield) (depth + 1)) none
    have hheader := (consume_emits limits fields.length).bind ((write_emits limits [6]).bind
      ((write_emits limits (varint fields.length)).bind hentries))
    refine checkDepth_emits limits (hheader.congr ?_ ?_)
    · have hkeys := keysOf_sortFields fields
      have hall : (∀ field ∈ sortFields fields, ValidText limits field.1 ∧
          Valid limits (depth + 1) field.2) ↔
          ∀ field ∈ fields, ValidText limits field.1 ∧ Valid limits (depth + 1) field.2 :=
        forall_congr' (fun field => imp_congr_left hperm.mem_iff)
      rw [hall]
      simp only [true_and, Option.toList_none, List.nil_append, hkeys]
    · rw [← mul_assoc, ← mul_assoc, Writer.mk_mul_mk, Writer.mk_mul_mk]
      rfl
  | other =>
    intro depth
    rw [writeValue, Valid, footprint]
    exact (checkDepth_emits limits (Emits.fail (fun _ => typeMismatch "normalize"))).congr
      (by simp) rfl

theorem encodeCanonical_eq_ok {value : CanonicalValue} {bytes : Bytes} :
    encodeCanonical limits value = .ok bytes ↔
      Valid limits 0 value ∧ (budget limits).fits (footprint value) ∧
        bytes = (footprint value).bytes := by
  have hemits := @writeValue_emits limits value 0 _ (fits_one limits)
  rw [one_mul] at hemits
  constructor
  · intro h
    obtain ⟨writer, hwriter, rfl⟩ := ExceptOk.map_eq_ok h
    obtain ⟨hvalid, hfits, rfl⟩ := (hemits writer).mp hwriter
    exact ⟨hvalid, hfits, rfl⟩
  · rintro ⟨hvalid, hfits, rfl⟩
    have hrun := (hemits (footprint value)).mpr ⟨hvalid, hfits, rfl⟩
    exact congrArg (Except.map Writer.bytes) hrun

theorem Valid.mono {value : CanonicalValue} : ∀ {depth depth' : ℕ}, depth' ≤ depth →
      Valid limits depth value →
    Valid limits depth' value := by
  induction value using CanonicalValue.induct with
  | array items ih =>
    intro depth depth' hle h
    rw [Valid, allValid_iff] at h ⊢
    exact ⟨hle.trans h.1, fun item hitem => ih item hitem (Nat.succ_le_succ hle) (h.2 item hitem)⟩
  | object fields ih =>
    intro depth depth' hle h
    rw [Valid, fieldsValid_iff] at h ⊢
    refine ⟨hle.trans h.1, h.2.1, fun field hfield => ?_⟩
    obtain ⟨hkey, hvalue⟩ := h.2.2 field hfield
    exact ⟨hkey, ih field hfield (Nat.succ_le_succ hle) hvalue⟩
  | string text => exact fun hle h => by rw [Valid] at h ⊢; exact ⟨hle.trans h.1, h.2⟩
  | number value => exact fun hle h => by rw [Valid] at h ⊢; exact ⟨hle.trans h.1, h.2⟩
  | null => exact fun hle h => by simp only [Valid] at h ⊢; exact hle.trans h
  | bool flag => exact fun hle h => by simp only [Valid] at h ⊢; exact hle.trans h
  | bytes value => exact fun hle h => by simp only [Valid] at h ⊢; exact hle.trans h
  | bigint value => exact fun hle h => by simp only [Valid] at h ⊢; exact hle.trans h
  | other => exact fun _ h => by simp only [Valid] at h

end Values

end LogicalEncoding

end Canonical
