import Urdira.Lib.Binary64
import Urdira.Lib.Json
import Urdira.NativeCore.LogicalDigest

open Binary64 ByteOrder MerkleBucket PrefixCode
open NativeCore hiding negativeZero

namespace Canonical

def isWordChar (c : Char) : Bool := c == '_' || c.isDigit || c.isLower

def Word (text : String) : Prop := ∀ c ∈ text.toList, isWordChar c

def rootWeight (c : Char) : ℕ :=
  if c = '_' then 0
  else if c.isDigit then 1 + (c.toNat - '0'.toNat)
  else 11 + (c.toNat - 'a'.toNat)

def weights (text : String) : List ℕ := text.toList.map rootWeight

def rootCompare (left right : String) : Ordering :=
  if weights left < weights right then .lt else if weights right < weights left then .gt else .eq

-- The collation of the host, fixed on plain words only.
structure Collation where
  localeCompare : String → String → Ordering
  root : ∀ {left right}, Word left → Word right → localeCompare left right = rootCompare left right

def isSafeInteger (x : Double) : Bool :=
  finite x && decide (value x = ⌊value x⌋) && decide (|value x| ≤ 9007199254740991)

def numberText (x : Double) : String :=
  if value x = 0 then "0"
  else if value x < 0 then "-" ++ toString ⌊|value x|⌋.toNat
  else toString ⌊|value x|⌋.toNat

namespace LogicalDigestWriter

def length (value : ℕ) : Bytes := varint value

def text (value : String) : Bytes := [7] ++ length (utf8 value).length ++ utf8 value

def boolean (value : Bool) : Bytes := [4, if value then 1 else 0]

def integer (value : Double) : Bytes := [5] ++ text (numberText value)

def real (value : Double) : Except String Bytes :=
  if ¬ finite value ∨ value = negativeZero then
    .error "Logical digest real values must be finite and not negative zero."
  else .ok ([6] ++ toBeBytes value)

def sequence (length : ℕ) : Bytes := [9] ++ varint length

def set (length : ℕ) : Bytes := [10] ++ varint length

def field (identifier : String) (present : Bool) (write : Except String Bytes) :
    Except String Bytes := do
  let value ← if present then write else .ok []
  .ok (text identifier ++ boolean present ++ value)

def fields : List (String × Except String Bytes) → Except String Bytes
  | [] => .ok []
  | (key, write) :: entries => do
    let bytes ← field key true write
    let rest ← fields entries
    .ok (bytes ++ rest)

mutual

def value (collation : Collation) : Json Double → Except String Bytes
  | .null => .ok [3]
  | .bool flag => .ok (boolean flag)
  | .number x => if isSafeInteger x then .ok (integer x) else real x
  | .string value => .ok (text value)
  | .array values => do
    let rest ← sequenceEntries collation values
    .ok (sequence values.length ++ rest)
  | .object record => do
    let entries := (entries collation record).mergeSort
      (fun left right => collation.localeCompare left.1 right.1 != .gt)
    let rest ← fields entries
    .ok (set entries.length ++ rest)

def sequenceEntries (collation : Collation) : List (Json Double) → Except String Bytes
  | [] => .ok []
  | entry :: entries => do
    let bytes ← value collation entry
    let rest ← sequenceEntries collation entries
    .ok (bytes ++ rest)

def entries (collation : Collation) : List (String × Json Double) →
      List (String × Except String Bytes)
  | [] => []
  | (key, entry) :: record => (key, value collation entry) :: entries collation record

end

end LogicalDigestWriter

def logicalStream (collation : Collation) (value : Json Double) (domain : String) :
    Except String Bytes := do
  let bytes ← LogicalDigestWriter.value collation value
  .ok (LogicalDigestWriter.text domain ++ bytes)

def digestLogicalValue [Sha256] (collation : Collation) (value : Json Double) (domain : String) :
    Except String String := do
  let stream ← logicalStream collation value domain
  .ok ("sha256:" ++ String.ofList
    ((Sha256.digest stream).bytes.flatMap NativeCore.LogicalDigestWriter.hexByte))

namespace LogicalDigestWriter

variable {collation : Collation}

theorem real_ok {x : Double} (hfinite : finite x) (hzero : x ≠ negativeZero) :
    real x = .ok ([6] ++ toBeBytes x) := by
  rw [real, if_neg]
  rintro (h | h)
  · exact h hfinite
  · exact hzero h

theorem entries_eq (record : List (String × Json Double)) :
    entries collation record = record.map (fun entry => (entry.1, value collation entry.2)) := by
  induction record with
  | nil => rfl
  | cons entry record ih => rw [entries, ih, List.map_cons]

theorem sequenceEntries_ok {written : Json Double → Bytes} {vs : List (Json Double)}
    (h : ∀ v ∈ vs, value collation v = .ok (written v)) :
    sequenceEntries collation vs = .ok (vs.flatMap written) := by
  induction vs with
  | nil => rfl
  | cons v vs ih =>
    obtain ⟨hv, hvs⟩ := List.forall_mem_cons.mp h
    rw [sequenceEntries, hv, ih hvs]
    rfl

theorem fields_ok {written : String → Bytes} {es : List (String × Except String Bytes)}
    (h : ∀ e ∈ es, e.2 = .ok (written e.1)) :
    fields es = .ok ((es.map Prod.fst).flatMap (fun key => text key ++ [4, 1] ++ written key)) := by
  induction es with
  | nil => rfl
  | cons e es ih =>
    obtain ⟨key, write⟩ := e
    obtain ⟨hwrite, hes⟩ := List.forall_mem_cons.mp h
    have hvalue : write = .ok (written key) := hwrite
    rw [fields, ih hes, hvalue]
    rfl

end LogicalDigestWriter

end Canonical
