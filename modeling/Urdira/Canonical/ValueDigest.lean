import Urdira.Canonical.EncodingLaw
import Urdira.Canonical.LogicalDigestWriter
import Urdira.Canonical.NibblePath
import Urdira.Canonical.SparseMerkle

open Binary64 ByteOrder MerkleBucket PrefixCode TextCodec

namespace Canonical

class LocaleCompare where
  localeCompare : Text → Text → Ordering

namespace ValueDigest

def text (value : Text) : Bytes := 7 :: (varint (encodeUtf8 value).length ++ encodeUtf8 value)

def bytes (value : Bytes) : Bytes := 8 :: (varint value.length ++ value)

def bigint (value : ℤ) : Bytes := 5 :: LogicalDigestWriter.text (toString value)

def number (value : Double) : Except String Bytes :=
  if isSafeInteger value then .ok (LogicalDigestWriter.integer value)
  else LogicalDigestWriter.real value

def field (identifier : Text) (write : Except String Bytes) : Except String Bytes :=
  write.map (fun written => text identifier ++ (LogicalDigestWriter.boolean true ++ written))

def writeAll : List (Except String Bytes) → Except String Bytes
  | [] => .ok []
  | write :: writes => do
    let written ← write
    let rest ← writeAll writes
    .ok (written ++ rest)

variable [LocaleCompare]

def ordered (entries : List (Text × Except String Bytes)) : List (Text × Except String Bytes) :=
  entries.insertionSort (fun left right => LocaleCompare.localeCompare left.1 right.1 ≠ .gt)

def record (entries : List (Text × Except String Bytes)) : Except String Bytes :=
  (writeAll ((ordered entries).map (fun entry => field entry.1 entry.2))).map
    (LogicalDigestWriter.set entries.length ++ ·)

mutual

-- What other stands for is encoded before it is digested, and has no encoding.
def value : CanonicalValue → Except String Bytes
  | .null => .ok [3]
  | .bool flag => .ok (LogicalDigestWriter.boolean flag)
  | .string content => .ok (text content)
  | .bytes content => .ok (bytes content)
  | .number x => number x
  | .bigint n => .ok (bigint n)
  | .array items => (writeAll (itemValues items)).map
      (LogicalDigestWriter.sequence items.length ++ ·)
  | .object fields => record (fieldValues fields)
  | .other => .error "Unsupported logical digest value type"

def itemValues : List CanonicalValue → List (Except String Bytes)
  | [] => []
  | item :: items => value item :: itemValues items

def fieldValues : List (Text × CanonicalValue) → List (Text × Except String Bytes)
  | [] => []
  | (key, item) :: fields => (key, value item) :: fieldValues fields

end

def digestText [Sha256] (stream : Bytes) : JsString :=
  sha256Text (nibbles (Sha256.digest stream).bytes)

def digestLogicalValue [Sha256] (content : CanonicalValue) (domain : String) :
    Except String JsString :=
  (value content).map (fun stream => digestText (LogicalDigestWriter.text domain ++ stream))

section Encodable

omit [LocaleCompare] in
theorem writeAll_succeeds {writes : List (Except String Bytes)}
    (h : ∀ write ∈ writes, ∃ written, write = .ok written) :
    ∃ written, writeAll writes = .ok written := by
  induction writes with
  | nil => exact ⟨[], rfl⟩
  | cons write writes ih =>
    obtain ⟨⟨written, rfl⟩, hrest⟩ := List.forall_mem_cons.mp h
    obtain ⟨rest, hwrites⟩ := ih hrest
    exact ⟨written ++ rest, by simp [writeAll, hwrites, bind, Except.bind]⟩

theorem record_succeeds {entries : List (Text × Except String Bytes)}
    (h : ∀ entry ∈ entries, ∃ written, entry.2 = .ok written) :
    ∃ written, record entries = .ok written := by
  have hfields : ∀ write ∈ (ordered entries).map (fun entry => field entry.1 entry.2), ∃ written,
      write = .ok written := by
    intro write hwrite
    obtain ⟨entry, hentry, rfl⟩ := List.mem_map.mp hwrite
    obtain ⟨written, hwritten⟩ := h entry (by simpa [ordered] using hentry)
    exact ⟨_, by rw [field, hwritten]; rfl⟩
  obtain ⟨written, hwritten⟩ := writeAll_succeeds hfields
  exact ⟨_, by rw [record, hwritten]; rfl⟩

theorem itemValues_eq (items : List CanonicalValue) : itemValues items = items.map value := by
  induction items with
  | nil => rfl
  | cons item items ih => simp [itemValues, ih]

theorem fieldValues_eq (fields : List (Text × CanonicalValue)) :
    fieldValues fields = fields.map (fun field => (field.1, value field.2)) := by
  induction fields with
  | nil => rfl
  | cons field fields ih => simp [fieldValues, ih]

omit [LocaleCompare] in
theorem number_succeeds {x : Double} (h : finite x = true) : ∃ written, number x = .ok written := by
  cases hsafe : isSafeInteger x with
  | true => exact ⟨_, by rw [number, hsafe]; rfl⟩
  | false =>
    have hsafeZero : isSafeInteger negativeZero = true := by decide +kernel
    have hzero : x ≠ negativeZero := by
      rintro rfl
      cases hsafe.symm.trans hsafeZero
    exact ⟨_, by rw [number, hsafe]; exact LogicalDigestWriter.real_ok h hzero⟩

theorem value_succeeds {limits : CanonicalEncodingLimits} (content : CanonicalValue) {depth : ℕ}
    (h : LogicalEncoding.Valid limits depth content) : ∃ written, value content = .ok written := by
  induction content using CanonicalValue.induct generalizing depth with
  | null => exact ⟨_, rfl⟩
  | bool flag => exact ⟨_, rfl⟩
  | string content => exact ⟨_, rfl⟩
  | bytes content => exact ⟨_, rfl⟩
  | number x => exact number_succeeds h.2
  | bigint n => exact ⟨_, rfl⟩
  | array items ih =>
    have hitems : ∀ write ∈ items.map value, ∃ written, write = .ok written := by
      intro write hwrite
      obtain ⟨item, hitem, rfl⟩ := List.mem_map.mp hwrite
      exact ih item hitem (LogicalEncoding.allValid_iff.mp h.2 item hitem)
    obtain ⟨written, hwritten⟩ := writeAll_succeeds hitems
    exact ⟨_, by rw [value, itemValues_eq, hwritten]; rfl⟩
  | object fields ih =>
    have hfields : ∀ entry ∈ fields.map (fun field => (field.1, value field.2)), ∃ written,
        entry.2 = .ok written := by
      intro entry hentry
      obtain ⟨field, hfield, rfl⟩ := List.mem_map.mp hentry
      exact ih field hfield (LogicalEncoding.fieldsValid_iff.mp h.2.2 field hfield).2
    obtain ⟨written, hwritten⟩ := record_succeeds hfields
    exact ⟨written, by rw [value, fieldValues_eq, hwritten]⟩
  | other => exact h.elim

end Encodable

section Parsing

omit [LocaleCompare]

theorem hexDigit_hexChar (d : Fin 16) : hexDigit (hexChar d) = some d := by revert d; decide

theorem mapM_hexDigit (digits : Hex) : (digits.map hexChar).mapM hexDigit = some digits := by
  induction digits with
  | nil => rfl
  | cons digit digits ih => simp [hexDigit_hexChar, ih]

theorem digestBytes_sha256Text (d : Digest32) :
    digestBytes (sha256Text (nibbles d.bytes)) = .ok d := by
  generalize hdigits : nibbles d.bytes = digits
  have hlength : digits.length = 64 := hdigits ▸ MerkleRadixSet.length_nibbles d
  have hbytes : hexBytes digits = d.bytes := hdigits ▸ hexBytes_nibbles d.bytes
  have hsize : (hexBytes digits).length = 32 ∧ digits.length = 64 := ⟨hbytes ▸ d.size, hlength⟩
  have hprefix : "sha256:".toList.isPrefixOf (sha256Text digits) = true :=
    List.isPrefixOf_iff_prefix.mpr (List.prefix_append _ _)
  have hdrop : (sha256Text digits).drop 7 = digits.map hexChar := List.drop_left' rfl
  rw [digestBytes, if_pos hprefix, hdrop]
  simp only [mapM_hexDigit]
  rw [dif_pos hsize]
  simp only [hbytes]

theorem set_sha256Text [Sha256] (tree : MerkleRadixSet) (member logical : Digest32) :
    ∃ next, tree.set (sha256Text (nibbles member.bytes)) (sha256Text (nibbles logical.bytes)) =
      .ok next := by
  have hread : ∀ d : Digest32, MerkleRadixSet.digestBytes (sha256Text (nibbles d.bytes)) =
      .ok d := by
    intro d
    rw [MerkleRadixSet.digestBytes, digestBytes_sha256Text]
    rfl
  have hkey : MerkleRadixSet.keyHex (sha256Text (nibbles member.bytes)) =
      .ok (nibbles member.bytes) := by
    rw [MerkleRadixSet.keyHex, hread]
    rfl
  exact ⟨_, by rw [MerkleRadixSet.set, hkey, hread, hread]; rfl⟩

end Parsing

end ValueDigest

end Canonical
