import Urdira.StructuralStore.Row
import Urdira.Lib.LastIndex

open ByteOrder KeyedSet MerkleBucket LastIndex

namespace StructuralStore

inductive IdentityLayout where
  | raw
  | entity
  | relation
  | relationNoSpan
  deriving DecidableEq, Repr

def entityKindNone : ℕ := 255

structure StoredRow extends RecordFields where
  identityLayout : IdentityLayout
  entityKind : ℕ
  ident : Bytes
  deriving DecidableEq

def StoredRow.entityKindOrdinal (row : StoredRow) : Option ℕ :=
  if row.entityKind ≠ entityKindNone then some row.entityKind else none

namespace IdentityCodec

def colon : Byte := 58

def decimal (n : ℕ) : Bytes := (Nat.toDigits 10 n).map (fun c => Fin.ofNat 256 c.toNat)

def stripStart (start text : Bytes) : Option Bytes :=
  if start.isPrefixOf text then some (text.drop start.length) else none

structure Utf8State where
  pending : ℕ
  low : ℕ
  high : ℕ

def utf8Lead (b : ℕ) : Option Utf8State :=
  if b < 0x80 then some ⟨0, 0x80, 0xBF⟩
  else if 0xC2 ≤ b ∧ b ≤ 0xDF then some ⟨1, 0x80, 0xBF⟩
  else if b = 0xE0 then some ⟨2, 0xA0, 0xBF⟩
  else if b = 0xED then some ⟨2, 0x80, 0x9F⟩
  else if 0xE1 ≤ b ∧ b ≤ 0xEF then some ⟨2, 0x80, 0xBF⟩
  else if b = 0xF0 then some ⟨3, 0x90, 0xBF⟩
  else if 0xF1 ≤ b ∧ b ≤ 0xF3 then some ⟨3, 0x80, 0xBF⟩
  else if b = 0xF4 then some ⟨3, 0x80, 0x8F⟩
  else none

def utf8Run : Utf8State → Bytes → Bool
  | s, [] => decide (s.pending = 0)
  | s, b :: rest =>
    match s.pending with
    | 0 =>
      match utf8Lead b.val with
      | some next => utf8Run next rest
      | none => false
    | k + 1 => decide (s.low ≤ b.val ∧ b.val ≤ s.high) && utf8Run ⟨k, 0x80, 0xBF⟩ rest

def fromUtf8 (text : Bytes) : Option Text :=
  if utf8Run ⟨0, 0x80, 0xBF⟩ text then some text else none

def parseDigits : Bytes → ℕ → Option ℕ
  | [], acc => some acc
  | b :: rest, acc =>
    if 48 ≤ b.val ∧ b.val ≤ 57 then
      let next := acc * 10 + (b.val - 48)
      if next ≤ 4294967295 then parseDigits rest next else none
    else none

def parseU32 (text : Bytes) : Option ℕ :=
  match text with
  | [] => none
  | 43 :: [] => none
  | 43 :: digits => parseDigits digits 0
  | digits => parseDigits digits 0

def entityIdentityNameStart (identityKey : Bytes) : Option ℕ := do
  let text ← fromUtf8 identityKey
  let parts := text.splitOn colon
  if parts.length < 2 then none
  else
    let startText ← parts.dropLast.getLast?
    parseU32 startText

def reconstructEntity (kind path : Text) (start : ℕ) (name : Text) : Bytes :=
  utf8 "jsts:" ++ kind ++ [colon] ++ path ++ [colon] ++ decimal start ++ [colon] ++ name

def reconstructRelation (rel path : Text) (start stop : ℕ) (sourceKey targetKey : Bytes) : Bytes :=
  utf8 "jsts:" ++ rel ++ [colon] ++ path ++ [colon] ++ decimal start ++ [colon] ++ decimal stop ++
    [colon] ++ sourceKey ++ [colon] ++ targetKey

def reconstructRelationNoSpan (rel : Text) (sourceKey targetKey : Bytes) : Bytes :=
  utf8 "jsts:" ++ rel ++ [colon] ++ sourceKey ++ [colon] ++ targetKey

def parseEntityKindWord (identityKey : Bytes) : Option Text := do
  let after ← stripStart (utf8 "jsts:") identityKey
  if colon ∈ after then fromUtf8 (after.takeWhile (fun b => decide (b ≠ colon))) else none

def collectNewEntityKinds (rows : List RecordRow) (existing : List Text) : List Text :=
  canonOn id (rows.filterMap (fun row =>
    if row.category = .entity then
      (parseEntityKindWord row.identityKey).filter (fun word => decide (word ∉ existing))
    else none))

def entityKindIndex (dicts : Dictionaries) (word : Text) : Option ℕ :=
  lastIndexOf dicts.entityKinds word

def tryEntity (row : RecordRow) (dicts : Dictionaries) : Option (Bytes × ℕ) := do
  if row.category ≠ .entity then none
  else
    let path ← dicts.artifactPaths[row.ownerArtifact]?
    let nameId ← row.nameIdOpt
    let name ← dicts.names[nameId]?
    let word ← parseEntityKindWord row.identityKey
    let ord ← entityKindIndex dicts word
    if ord ≥ entityKindNone then none
    else
      let candidate := reconstructEntity word path row.spanStartByte name
      if candidate = row.identityKey then some (candidate, ord) else none

structure Endpoints where
  rel : Text
  sourceKey : Bytes
  targetKey : Bytes

def endpoints (row : RecordFields) (dicts : Dictionaries)
    (resolveIdentity : Digest32 → Option Bytes) : Option Endpoints := do
  let kindText ← dicts.kinds[row.kindId]?
  let rel ← stripStart (utf8 "jsts:relation_") kindText
  let sourceOrd ← row.sourceSubject
  let targetOrd ← row.targetSubject
  let sourceRecordId ← dicts.subjects[sourceOrd]?
  let targetRecordId ← dicts.subjects[targetOrd]?
  let sourceKey ← resolveIdentity sourceRecordId
  let targetKey ← resolveIdentity targetRecordId
  some ⟨rel, sourceKey, targetKey⟩

def relationCandidate (row : RecordFields) (dicts : Dictionaries)
    (resolveIdentity : Digest32 → Option Bytes) : Option Bytes := do
  let path ← dicts.artifactPaths[row.ownerArtifact]?
  let e ← endpoints row dicts resolveIdentity
  some (reconstructRelation e.rel path row.spanStartByte row.spanEndByte e.sourceKey e.targetKey)

def relationNoSpanCandidate (row : RecordFields) (dicts : Dictionaries)
    (resolveIdentity : Digest32 → Option Bytes) : Option Bytes := do
  let e ← endpoints row dicts resolveIdentity
  some (reconstructRelationNoSpan e.rel e.sourceKey e.targetKey)

def tryRelation (row : RecordRow) (dicts : Dictionaries)
    (resolveIdentity : Digest32 → Option Bytes) : Option Bytes :=
  if row.category ≠ .relation then none
  else relationCandidate row.toRecordFields dicts resolveIdentity

def tryRelationNoSpan (row : RecordRow) (dicts : Dictionaries)
    (resolveIdentity : Digest32 → Option Bytes) : Option Bytes :=
  if row.category ≠ .relation then none
  else relationNoSpanCandidate row.toRecordFields dicts resolveIdentity

def classifyIdentityLayout (row : RecordRow) (dicts : Dictionaries)
    (resolveIdentity : Digest32 → Option Bytes) : IdentityLayout × ℕ :=
  match row.category with
  | .entity =>
    match tryEntity row dicts with
    | some (candidate, ord) =>
      if candidate = row.identityKey then (.entity, ord) else (.raw, entityKindNone)
    | none => (.raw, entityKindNone)
  | .relation =>
    if tryRelation row dicts resolveIdentity = some row.identityKey then (.relation, entityKindNone)
    else if tryRelationNoSpan row dicts resolveIdentity = some row.identityKey then
      (.relationNoSpan, entityKindNone)
    else (.raw, entityKindNone)
  | _ => (.raw, entityKindNone)

def classifyIdentity (row : RecordRow) (dicts : Dictionaries)
    (resolveIdentity : Digest32 → Option Bytes) : StoredRow :=
  let tag := classifyIdentityLayout row dicts resolveIdentity
  { toRecordFields := row.toRecordFields
    identityLayout := tag.1
    entityKind := tag.2
    ident := if tag.1 = .raw then row.identityKey else [] }

def batchIndex (rows : List RecordRow) (recordId : Digest32) : Option Bytes :=
  (rows.reverse.find? (fun row => decide (row.recordId = recordId))).map RecordRow.identityKey

end IdentityCodec

end StructuralStore
