import Urdira.Canonical.ValueDigest

open ByteOrder Canonical MerkleBucket Utf16

namespace Engine

namespace Spool

open LogicalEncoding

-- others are the optional properties that the item has.
structure QueryStreamItem where
  value : CanonicalValue
  stableSortKey : Text
  others : List (Text × CanonicalValue)

def propertyName (name : String) : Text := encode name.toList

def QueryStreamItem.canonical (item : QueryStreamItem) : CanonicalValue :=
  .object ((propertyName "value", item.value) :: (propertyName "stable_sort_key",
    .string item.stableSortKey) ::
    item.others)

def payloadOf (item : QueryStreamItem) : Except CanonicalEncodingError Bytes :=
  encodeCanonical defaultLimits item.canonical

structure Coordinates where
  executionId : Text
  stageId : Text
  output : Text
  deriving DecidableEq

inductive HandleOrder where
  | declared
  | stableSortKey

inductive HandleSource where
  | copied (values : List QueryStreamItem)
  | paged

structure StageSetHandle where
  coordinates : Coordinates
  logicalType : Text
  rowCount : ℕ
  root : Canonical.JsString
  order : HandleOrder
  source : HandleSource

def logicalTypes : List String :=
  ["subjects", "relations", "paths", "definitions", "records", "sources"]

def logicalType (output : Text) : Text :=
  if (logicalTypes.map propertyName).contains output then output else propertyName "unknown"

def stageSetHandleMetadata (c : Coordinates) (rowCount : ℕ) (root : Canonical.JsString)
    (order : HandleOrder)
    (source : HandleSource) : StageSetHandle where
  coordinates := c
  logicalType := logicalType c.output
  rowCount := rowCount
  root := root
  order := order
  source := source

section Digests

variable [Sha256] [LocaleCompare]

def setFields (item : QueryStreamItem) : List (Except String Bytes) :=
  [ValueDigest.field (propertyName "stable_sort_key") (.ok (ValueDigest.text item.stableSortKey)),
    ValueDigest.field (propertyName "value") (ValueDigest.value item.value)]

def setRoot (values : List QueryStreamItem) : Except String Canonical.JsString :=
  (ValueDigest.writeAll (values.flatMap setFields)).map (fun written =>
    ValueDigest.digestText (Canonical.LogicalDigestWriter.text "urdira:pipeline-stage-set:v3" ++
      (Canonical.LogicalDigestWriter.sequence values.length ++ written)))

def stageSetHandle (c : Coordinates) (values : List QueryStreamItem) (order : HandleOrder) :
    Except String StageSetHandle :=
  (setRoot values).map (fun root => stageSetHandleMetadata c values.length root order
    (.copied values))

def memberKey (item : QueryStreamItem) : Except String Canonical.JsString :=
  ValueDigest.digestLogicalValue (.string item.stableSortKey) "urdira:pipeline-stage-key:v3"

def memberDigest (item : QueryStreamItem) : Except String Canonical.JsString :=
  ValueDigest.digestLogicalValue
    (.object [(propertyName "stable_sort_key", .string item.stableSortKey),
      (propertyName "value", item.value)])
    "urdira:pipeline-stage-member:v3"

end Digests

section Digested

variable [LocaleCompare] {item : QueryStreamItem} {values : List QueryStreamItem}

def HasPayload (item : QueryStreamItem) : Prop := ∃ payload, payloadOf item = .ok payload

theorem HasPayload.value (h : HasPayload item) :
    ∃ written, ValueDigest.value item.value = .ok written := by
  obtain ⟨payload, hpayload⟩ := h
  obtain ⟨hvalid, -⟩ := encodeCanonical_eq_ok.mp hpayload
  exact ValueDigest.value_succeeds item.value hvalid.2.2.1.2

theorem setFields_succeed (h : HasPayload item) : ∀ write ∈ setFields item, ∃ written,
      write = .ok written := by
  obtain ⟨written, hwritten⟩ := h.value
  simp [setFields, ValueDigest.field, hwritten, Except.map]

variable [Sha256]

theorem setRoot_succeeds (h : ∀ item ∈ values, HasPayload item) :
    ∃ root, setRoot values = .ok root := by
  have hwrites : ∀ write ∈ values.flatMap setFields, ∃ written, write = .ok written := by
    intro write hwrite
    obtain ⟨item, hitem, hwrite⟩ := List.mem_flatMap.mp hwrite
    exact setFields_succeed (h item hitem) write hwrite
  obtain ⟨written, hwritten⟩ := ValueDigest.writeAll_succeeds hwrites
  exact ⟨_, by rw [setRoot, hwritten]; rfl⟩

theorem stageSetHandle_succeeds (h : ∀ item ∈ values, HasPayload item) (c : Coordinates)
    (order : HandleOrder) :
    ∃ handle, stageSetHandle c values order = .ok handle := by
  obtain ⟨root, hroot⟩ := setRoot_succeeds h
  exact ⟨_, by rw [stageSetHandle, hroot]; rfl⟩

theorem memberKey_succeeds (item : QueryStreamItem) :
    ∃ d : Digest32, memberKey item = .ok (sha256Text (nibbles d.bytes)) :=
  ⟨_, rfl⟩

theorem memberDigest_succeeds (h : HasPayload item) :
    ∃ d : Digest32, memberDigest item = .ok (sha256Text (nibbles d.bytes)) := by
  obtain ⟨written, hwritten⟩ := h.value
  have hentries : ∀ entry ∈ ValueDigest.fieldValues
      [(propertyName "stable_sort_key", .string item.stableSortKey),
        (propertyName "value", item.value)],
      ∃ written, entry.2 = .ok written := by
    simp [ValueDigest.fieldValues, ValueDigest.value, hwritten]
  obtain ⟨stream, hstream⟩ := ValueDigest.record_succeeds hentries
  exact ⟨_, by rw [memberDigest, ValueDigest.digestLogicalValue, ValueDigest.value, hstream]; rfl⟩

end Digested

end Spool

end Engine
