import Urdira.Canonical.StreamingDigests
import Urdira.IndexingWorker.UceEncoding

open Binary64 hiding negativeZero
open ByteOrder KeyedSort MerkleBucket NativeCore PrefixCode TextCodec Utf16

namespace Canonical

namespace UceAgreement

open LogicalEncoding Digests IndexingWorker.Uce

def doubleOf (toDouble : ℤ → Double) (number : Number) : Double :=
  (number.asDouble toDouble).getD positiveZero

variable (toDouble : ℤ → Double)

mutual

def canonicalOf : Value → CanonicalValue
  | .null => .null
  | .bool flag => .bool flag
  | .string value => .string (encode value.toList)
  | .number number => .number (doubleOf toDouble number)
  | .array values => .array (itemsOf values)
  | .object fields => .object (fieldsOf fields)

def itemsOf : List Value → List CanonicalValue
  | [] => []
  | value :: values => canonicalOf value :: itemsOf values

def fieldsOf : List (String × Value) → List (Text × CanonicalValue)
  | [] => []
  | (key, value) :: fields => (encode key.toList, canonicalOf value) :: fieldsOf fields

end

theorem itemsOf_eq (values : List Value) :
    itemsOf toDouble values = values.map (canonicalOf toDouble) := by
  induction values with
  | nil => rw [itemsOf, List.map_nil]
  | cons value values ih => rw [itemsOf, List.map_cons, ih]

theorem fieldsOf_eq (fields : List (String × Value)) : fieldsOf toDouble fields =
    fields.map (fun field => (encode field.1.toList, canonicalOf toDouble field.2)) := by
  induction fields with
  | nil => rw [fieldsOf, List.map_nil]
  | cons field fields ih => rw [fieldsOf, List.map_cons, ih]

theorem uceItems_eq (values : List Value) :
    uceItems toDouble values = values.map (uce toDouble) := by
  induction values with
  | nil => rw [uceItems, List.map_nil]
  | cons value values ih => rw [uceItems, List.map_cons, ih]

theorem uceEntries_eq (fields : List (String × Value)) : uceEntries toDouble fields =
    fields.map (fun field => (field.1, uce toDouble field.2)) := by
  induction fields with
  | nil => rw [uceEntries, List.map_nil]
  | cons field fields ih => rw [uceEntries, List.map_cons, ih]

theorem updateUceItems_eq (depth : ℕ) (values : List Value) : updateUceItems toDouble depth values =
    values.map (updateUceValue toDouble depth) := by
  induction values with
  | nil => rw [updateUceItems, List.map_nil]
  | cons value values ih => rw [updateUceItems, List.map_cons, ih]

theorem updateUceEntries_eq (depth : ℕ) (fields : List (String × Value)) :
    updateUceEntries toDouble depth fields =
    fields.map (fun field => (field.1, updateUceValue toDouble depth field.2)) := by
  induction fields with
  | nil => rw [updateUceEntries, List.map_nil]
  | cons field fields ih => rw [updateUceEntries, List.map_cons, ih]

theorem plainZero_eq (number : Double) : plainZero number = zeroUnsigned number := by
  unfold plainZero zeroUnsigned
  by_cases hnegative : number = Binary64.negativeZero
  · rw [if_pos hnegative, if_pos (value_eq_zero.mpr (.inr hnegative))]
  · rw [if_neg hnegative]
    split
    · rename_i hzero
      exact (value_eq_zero.mp hzero).resolve_right hnegative
    · rfl

theorem numberBytes_eq (number : Number) :
    numberBytes (doubleOf toDouble number) = uceNumber toDouble number := by
  rw [numberBytes, plainZero_eq]
  rfl

theorem textBytes_eq (value : String) : textBytes (encode value.toList) = uceText value := by
  rw [textBytes, encodeUtf8_encode]
  rfl

theorem iterate_map {α : Type} (f : Value → α) (fields : List (String × Value)) :
    iterate (fields.map (fun field => (field.1, f field.2))) =
      (iterate fields).map (fun field => (field.1, f field.2)) :=
  sortBy_map (fun _ => rfl) fields

theorem sorted_uceEntries (fields : List (String × Value)) :
    sortBy (fun entry : String × Bytes => utf8 entry.1) (iterate (uceEntries toDouble fields)) =
      (iterate fields).map (fun field => (field.1, uce toDouble field.2)) := by
  rw [uceEntries_eq, ← iterate_map, iterate, sortBy_sortBy]

theorem length_iterate (fields : List (String × Value)) : (iterate fields).length = fields.length :=
  (sortBy_perm _ fields).length_eq

theorem sortFields_fieldsOf (fields : List (String × Value)) :
    sortFields (fieldsOf toDouble fields) =
    (iterate fields).map (fun field => (encode field.1.toList, canonicalOf toDouble field.2)) := by
  have hkey : ∀ field : String × Value,
      fieldKey (encode field.1.toList, canonicalOf toDouble field.2) = utf8 field.1 :=
    fun field => encodeUtf8_encode field.1
  rw [fieldsOf_eq, sortFields, iterate, sortBy_map hkey]

theorem uce_eq (value : Value) : uce toDouble value = encoding (canonicalOf toDouble value) := by
  induction value using Json.induct with
  | null => rw [uce, canonicalOf, encoding, footprint]
  | bool flag => rw [uce, canonicalOf, encoding, footprint]
  | string value =>
    rw [uce, canonicalOf, encoding, footprint, textBytes_eq]
  | number number => rw [uce, canonicalOf, encoding, footprint, numberBytes_eq]
  | array values ih =>
    have hitems : (values.map (uce toDouble)).flatten =
        (values.map (canonicalOf toDouble)).flatMap encoding := by
      rw [List.map_congr_left ih, List.flatMap_map]
      rfl
    rw [uce, canonicalOf, encoding_array, uceItems_eq, itemsOf_eq, hitems, List.length_map]
    rfl
  | object fields ih =>
    have hlength : (fieldsOf toDouble fields).length = fields.length := by
      rw [fieldsOf_eq, List.length_map]
    have hbody : (iterate fields).flatMap (fun field => uceText field.1 ++ uce toDouble field.2) =
        (iterate fields).flatMap (fun field =>
          textBytes (encode field.1.toList) ++ encoding (canonicalOf toDouble field.2)) := by
      refine List.flatMap_congr (fun field hfield => ?_)
      rw [textBytes_eq, ih field ((sortBy_perm _ fields).mem_iff.mp hfield)]
    rw [uce, canonicalOf, encoding_object, sortFields_fieldsOf, hlength]
    rw [sorted_uceEntries, List.length_map, length_iterate, List.flatMap_map,
      List.flatMap_map, hbody]
    rfl

theorem updateAll_eq {values : List Value} {depth : ℕ}
    (h : ∀ value ∈ values, ∀ hash hash', updateUceValue toDouble depth value hash = .ok hash' →
      hash' = hash ++ uce toDouble value) {hash hash' : Bytes}
    (hrun : updateAll (values.map (updateUceValue toDouble depth)) hash = .ok hash') :
    hash' = hash ++ (values.map (uce toDouble)).flatten := by
  induction values generalizing hash with
  | nil => rw [← Except.ok.inj hrun, List.map_nil, List.flatten_nil, List.append_nil]
  | cons value values ih =>
    obtain ⟨middle, hfirst, hrest⟩ := ExceptOk.bind_eq_ok hrun
    rw [ih (fun other hother => h other (List.mem_cons_of_mem _ hother)) hrest,
      h value List.mem_cons_self _ _ hfirst, List.map_cons, List.flatten_cons, List.append_assoc]

theorem updateUceText_eq (hash : Bytes) (value : String) :
    updateUceText hash value = hash ++ uceText value := by
  simp [updateUceText, updateVarint, uceText, uceVarint]

theorem updateFields_eq {fields : List (String × Value)} {depth : ℕ}
    (h : ∀ field ∈ fields, ∀ hash hash', updateUceValue toDouble depth field.2 hash = .ok hash' →
      hash' = hash ++ uce toDouble field.2) {hash hash' : Bytes}
    (hrun : NativeCore.updateFields (fields.map
      (fun field => (field.1, updateUceValue toDouble depth field.2))) hash =
      .ok hash') :
    hash' = hash ++ fields.flatMap (fun field => uceText field.1 ++ uce toDouble field.2) := by
  induction fields generalizing hash with
  | nil => rw [← Except.ok.inj hrun, List.flatMap_nil, List.append_nil]
  | cons field fields ih =>
    obtain ⟨middle, hfirst, hrest⟩ := ExceptOk.bind_eq_ok hrun
    rw [ih (fun other hother => h other (List.mem_cons_of_mem _ hother)) hrest,
      h field List.mem_cons_self _ _ hfirst, updateUceText_eq, List.flatMap_cons]
    simp only [List.append_assoc]

theorem boundDepth_ok {depth : ℕ} {update : Update} {hash hash' : Bytes}
    (h : boundDepth depth update hash = .ok hash') : update hash = .ok hash' := by
  unfold boundDepth at h
  split at h
  · cases h
  · exact h

theorem updateUceNumber_eq {number : Number} {hash hash' : Bytes}
    (h : updateUceNumber toDouble number hash = .ok hash') :
    hash' = hash ++ uceNumber toDouble number := by
  unfold updateUceNumber at h
  unfold uceNumber
  cases hdouble : number.asDouble toDouble with
  | none =>
    rw [hdouble] at h
    cases h
  | some double =>
    rw [hdouble] at h
    dsimp only at h
    split at h
    · cases h
    · rw [← Except.ok.inj h, List.append_assoc]
      rfl

theorem updateUceValue_eq (value : Value) :
    ∀ depth hash hash', updateUceValue toDouble depth value hash = .ok hash' →
    hash' = hash ++ uce toDouble value := by
  induction value using Json.induct with
  | null =>
    intro depth hash hash' h
    rw [updateUceValue] at h
    rw [uce, ← Except.ok.inj (boundDepth_ok h)]
  | bool flag =>
    intro depth hash hash' h
    rw [updateUceValue] at h
    rw [uce, ← Except.ok.inj (boundDepth_ok h)]
  | string value =>
    intro depth hash hash' h
    rw [updateUceValue] at h
    rw [uce, ← Except.ok.inj (boundDepth_ok h), updateUceText_eq]
  | number number =>
    intro depth hash hash' h
    rw [updateUceValue] at h
    rw [uce, updateUceNumber_eq toDouble (boundDepth_ok h)]
  | array values ih =>
    intro depth hash hash' h
    rw [updateUceValue, updateUceItems_eq] at h
    rw [updateAll_eq toDouble (fun item hitem => ih item hitem (depth + 1)) (boundDepth_ok h), uce,
      uceItems_eq]
    simp [updateVarint, uceVarint]
  | object fields ih =>
    intro depth hash hash' h
    have hperm := sortBy_perm (fun field : String × Value => utf8 field.1) fields
    rw [updateUceValue, updateUceEntries_eq, iterate_map] at h
    have hbody :=
      updateFields_eq toDouble (fun field hfield => ih field (hperm.mem_iff.mp hfield) (depth + 1))
      (boundDepth_ok h)
    rw [hbody, uce, sorted_uceEntries, List.length_map, length_iterate, List.flatMap_map,
      updateVarint, uceVarint]
    simp only [List.append_assoc, List.singleton_append]
    rfl

section Digest

variable {toDouble}

theorem envelopeFront_eq {coordinates : Coordinates} {options : DigestOptions}
    {front : List CanonicalValue}
    (h : envelopeFront coordinates options = .ok front) :
    front = [.string (text "urdira"), .number (ofNat 1), .string coordinates.digestDomain,
      .string coordinates.digestRecipeId, .number coordinates.recipeVersion,
        .string coordinates.payloadSchemaId,
      .number coordinates.payloadSchemaVersion, .string (text "sha256")] := by
  unfold envelopeFront Digests.digestEnvelope at h
  dsimp only at h
  split at h
  · cases h
  · rename_i hversion
    split at h
    · cases h
    · rename_i halgorithm
      split at h
      · cases h
      · rw [← Except.ok.inj h, not_not.mp hversion, not_not.mp halgorithm]
        rfl

theorem text_eq (value : String) :
    CanonicalValue.string (text value) = canonicalOf toDouble (.string value) := by
  rw [canonicalOf]
  rfl

theorem one_eq (hone : toDouble 1 = ofNat 1) :
    CanonicalValue.number (ofNat 1) = canonicalOf toDouble (.number one) := by
  rw [canonicalOf, ← hone]
  rfl

def coordinatesOf (domain recipe schema : String) : Coordinates where
  digestDomain := text domain
  digestRecipeId := text recipe
  recipeVersion := ofNat 1
  payloadSchemaId := text schema
  payloadSchemaVersion := ofNat 1

theorem digestEnvelope_computeDigest [Sha256] (hone : toDouble 1 = ofNat 1)
    {domain recipe schema : String}
    {payload : Value} {options : DigestOptions} {digest : String}
    (h : computeDigest (coordinatesOf domain recipe schema) (canonicalOf toDouble payload) options =
      .ok digest) :
    IndexingWorker.Uce.digestEnvelope toDouble domain recipe schema payload = digest := by
  obtain ⟨front, hfront, -, rfl⟩ := computeDigest_eq_ok.mp h
  have hvalue :
      canonicalOf toDouble (.array [.string "urdira", .number one, .string domain, .string recipe,
      .number one, .string schema, .number one, .string "sha256", payload]) =
      .array (front ++ [canonicalOf toDouble payload]) := by
    rw [envelopeFront_eq hfront, canonicalOf, itemsOf_eq]
    simp only [List.map_cons, List.map_nil, ← text_eq, ← one_eq hone]
    rfl
  rw [← encoding_envelope, ← hvalue, ← uce_eq]
  rfl

end Digest

theorem uce_encoders_agree [Sha256] (toDouble : ℤ → Double) (limits : CanonicalEncodingLimits)
    (value : Value)
    (hash hash' bytes : Bytes) (hkernel : updateUceValue toDouble 0 value hash = .ok hash')
    (hcanonical : encodeCanonical limits (canonicalOf toDouble value) = .ok bytes) :
    hash' = hash ++ bytes ∧ uce toDouble value = bytes ∧
      (toDouble 1 = ofNat 1 → ∀ domain recipe schema options digest,
        computeDigest (coordinatesOf domain recipe schema) (canonicalOf toDouble value) options =
          .ok digest →
          IndexingWorker.Uce.digestEnvelope toDouble domain recipe schema value = digest) := by
  obtain ⟨-, -, rfl⟩ := encodeCanonical_eq_ok.mp hcanonical
  have huce := uce_eq toDouble value
  refine ⟨?_, huce, fun hone _ _ _ _ _ h => digestEnvelope_computeDigest hone h⟩
  rw [updateUceValue_eq toDouble value 0 hash hash' hkernel, huce]
  rfl

def sample : Value :=
  .object [("b", .number (.float positiveZero (by decide))), ("a", .array [.string "x", .null])]

def sampleBytes : Bytes := [6, 2, 3, 1, 97, 5, 2, 3, 1, 120, 0, 3, 1, 98, 7, 0, 0, 0, 0, 0, 0, 0, 0]

theorem uce_encoders_agree_sample : updateUceValue ofInt 0 sample [] = .ok sampleBytes ∧
    encodeCanonical defaultLimits (canonicalOf ofInt sample) = .ok sampleBytes ∧ uce ofInt sample =
      sampleBytes := by
  have hkernel : updateUceValue ofInt 0 sample [] = .ok sampleBytes := by decide +kernel
  have hcanonical : encodeCanonical defaultLimits (canonicalOf ofInt sample) = .ok sampleBytes := by
    decide +kernel
  exact ⟨hkernel, hcanonical,
    (@uce_encoders_agree ⟨fun _ => zero⟩ ofInt defaultLimits sample [] _ _ hkernel hcanonical).2.1⟩

end UceAgreement

end Canonical
