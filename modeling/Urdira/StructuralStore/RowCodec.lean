import Urdira.StructuralStore.Layout

open ByteOrder MerkleBucket ByteLayout

namespace StructuralStore

def Category.ofByte : ℕ → Option Category
  | 0 => some .entity
  | 1 => some .relation
  | 2 => some .diagnostic
  | 3 => some .fact
  | 4 => some .evidence
  | _ => none

def IdentityLayout.toNat : IdentityLayout → ℕ
  | .raw => 0
  | .entity => 1
  | .relation => 2
  | .relationNoSpan => 3

def IdentityLayout.ofByte : ℕ → Option IdentityLayout
  | 0 => some .raw
  | 1 => some .entity
  | 2 => some .relation
  | 3 => some .relationNoSpan
  | _ => none

theorem Category.ofByte_toNat (c : Category) : Category.ofByte c.toNat = some c := by
  cases c <;> rfl

theorem Category.toNat_lt (c : Category) : c.toNat < 2 ^ 8 := by
  cases c <;> decide

theorem IdentityLayout.ofByte_toNat (l : IdentityLayout) :
    IdentityLayout.ofByte l.toNat = some l := by
  cases l <;> rfl

theorem IdentityLayout.toNat_lt (l : IdentityLayout) : l.toNat < 2 ^ 8 := by
  cases l <;> decide

section Records

def metaFields (row : StoredRow) (bodyOff identOff : ℕ) : List (ℕ × Bytes) :=
  [(Meta.ownerArtifact, leBytes 4 row.ownerArtifact),
    (Meta.ownerVersion, leBytes 4 row.ownerVersion),
    (Meta.validFrom, leBytes 4 row.validFrom),
    (Meta.validTo, leBytes 4 row.validTo),
    (Meta.category, leBytes 1 row.category.toNat),
    (Meta.kindId, leBytes 2 row.kindId),
    (Meta.universalKindId, leBytes 2 row.universalKindId),
    (Meta.facets, leBytes 8 row.facets),
    (Meta.spanArtifactVersion, leBytes 4 row.spanArtifactVersion),
    (Meta.spanStartByte, leBytes 4 row.spanStartByte),
    (Meta.spanEndByte, leBytes 4 row.spanEndByte),
    (Meta.spanStartLine, leBytes 4 row.spanStartLine),
    (Meta.spanEndLine, leBytes 4 row.spanEndLine),
    (Meta.identityType, leBytes 1 row.identityType),
    (Meta.assignmentKind, leBytes 1 row.assignmentKind),
    (Meta.nameId, leBytes 4 row.nameId),
    (Meta.sourceSubject, leBytes 4 (row.sourceSubject.getD noneU32)),
    (Meta.targetSubject, leBytes 4 (row.targetSubject.getD noneU32)),
    (Meta.relationKindId, leBytes 2 row.relationKindId),
    (Meta.bodyOff, leBytes 8 bodyOff),
    (Meta.bodyLen, leBytes 4 row.body.length),
    (Meta.identOff, leBytes 8 identOff),
    (Meta.identityLayout, leBytes 1 row.identityLayout.toNat),
    (Meta.entityKind, leBytes 1 row.entityKind),
    (Meta.identLen, leBytes 4 row.ident.length)]

def encodeMetaRow (row : StoredRow) (bodyOff identOff : ℕ) : Bytes :=
  writeFields (zeros metaStride) (metaFields row bodyOff identOff)

def digestsFields (row : StoredRow) : List (ℕ × Bytes) :=
  [(Digests.recordDigest, row.recordDigest.bytes),
    (Digests.bodyDigest, row.bodyDigest.bytes),
    (Digests.identityId, row.identityId.bytes),
    (Digests.identityKeyDigest, row.identityKeyDigest.bytes),
    (Digests.previousRecordId, row.previousRecordId.bytes)]

def encodeDigestsRow (row : StoredRow) : Bytes :=
  writeFields (zeros digestsStride) (digestsFields row)

@[simp] theorem length_encodeMetaRow (row : StoredRow) (bodyOff identOff : ℕ) :
    (encodeMetaRow row bodyOff identOff).length = metaStride := by
  simp [encodeMetaRow]

@[simp] theorem length_encodeDigestsRow (row : StoredRow) :
    (encodeDigestsRow row).length = digestsStride := by
  simp [encodeDigestsRow]

theorem metaFields_fits (row : StoredRow) (bodyOff identOff : ℕ) :
    Fits (zeros metaStride).length ((metaFields row bodyOff identOff).map span) := by
  have hspans : (metaFields row bodyOff identOff).map span =
      [(0, 4), (4, 4), (8, 4), (12, 4), (16, 1), (17, 2), (19, 2), (21, 8), (29, 4),
        (33, 4), (37, 4),
        (41, 4), (45, 4), (49, 1), (50, 1), (51, 4), (55, 4), (59, 4), (63, 2), (65, 8),
          (73, 4), (77, 8),
        (89, 1), (90, 1), (85, 4)] := by
    simp [metaFields]
  rw [hspans, length_zeros]
  decide

theorem digestsFields_fits (row : StoredRow) :
    Fits (zeros digestsStride).length ((digestsFields row).map span) := by
  have hspans : (digestsFields row).map span =
      [(0, 32), (32, 32), (64, 32), (96, 32), (128, 32)] := by
    simp [digestsFields, Block.size]
  rw [hspans, length_zeros]
  decide

def storedRecord (key : Option Digest32) (m d body ident : Bytes) : Option StoredRow := do
  let recordId ← key
  let category ← Category.ofByte (byteAt m Meta.category)
  let identityLayout ← IdentityLayout.ofByte (byteAt m Meta.identityLayout)
  let recordDigest ← digestAt d Digests.recordDigest
  let bodyDigest ← digestAt d Digests.bodyDigest
  let identityId ← digestAt d Digests.identityId
  let identityKeyDigest ← digestAt d Digests.identityKeyDigest
  let previousRecordId ← digestAt d Digests.previousRecordId
  some
    { recordId, category, identityLayout, recordDigest, bodyDigest, identityId, identityKeyDigest,
      previousRecordId
      ownerArtifact := u32le m Meta.ownerArtifact
      ownerVersion := u32le m Meta.ownerVersion
      validFrom := u32le m Meta.validFrom
      validTo := u32le m Meta.validTo
      kindId := u16le m Meta.kindId
      universalKindId := u16le m Meta.universalKindId
      facets := u64le m Meta.facets
      spanArtifactVersion := u32le m Meta.spanArtifactVersion
      spanStartByte := u32le m Meta.spanStartByte
      spanEndByte := u32le m Meta.spanEndByte
      spanStartLine := u32le m Meta.spanStartLine
      spanEndLine := u32le m Meta.spanEndLine
      identityType := byteAt m Meta.identityType
      assignmentKind := byteAt m Meta.assignmentKind
      nameId := u32le m Meta.nameId
      sourceSubject := optU32le m Meta.sourceSubject
      targetSubject := optU32le m Meta.targetSubject
      relationKindId := u16le m Meta.relationKindId
      body := readAt body (u64le m Meta.bodyOff) (u32le m Meta.bodyLen)
      entityKind := byteAt m Meta.entityKind
      ident := readAt ident (u64le m Meta.identOff) (u32le m Meta.identLen) }

structure RecordFields.Typed (row : RecordFields) : Prop where
  ownerArtifact : row.ownerArtifact < 2 ^ 32
  ownerVersion : row.ownerVersion < 2 ^ 32
  validFrom : row.validFrom < 2 ^ 32
  validTo : row.validTo < 2 ^ 32
  kindId : row.kindId < 2 ^ 16
  universalKindId : row.universalKindId < 2 ^ 16
  facets : row.facets < 2 ^ 64
  spanArtifactVersion : row.spanArtifactVersion < 2 ^ 32
  spanStartByte : row.spanStartByte < 2 ^ 32
  spanEndByte : row.spanEndByte < 2 ^ 32
  spanStartLine : row.spanStartLine < 2 ^ 32
  spanEndLine : row.spanEndLine < 2 ^ 32
  identityType : row.identityType < 2 ^ 8
  assignmentKind : row.assignmentKind < 2 ^ 8
  nameId : row.nameId < 2 ^ 32
  sourceSubject : ∀ s ∈ row.sourceSubject, s < 2 ^ 32
  targetSubject : ∀ s ∈ row.targetSubject, s < 2 ^ 32
  relationKindId : row.relationKindId < 2 ^ 16

structure RecordFields.Storable (row : RecordFields) : Prop where
  sourceSubject : some noneU32 ≠ row.sourceSubject
  targetSubject : some noneU32 ≠ row.targetSubject
  body : row.body.length < 2 ^ 32

theorem lt_noneU32 {o : Option ℕ} (htyped : ∀ v ∈ o, v < 2 ^ 32) (hne : some noneU32 ≠ o) :
    ∀ v ∈ o, v < noneU32 := by
  intro v hv
  have hlt := htyped v hv
  have hne' : v ≠ noneU32 := by
    rintro rfl
    exact hne hv.symm
  unfold noneU32 at hne' ⊢
  omega

theorem storedRecord_encode {row : StoredRow} {body ident : Bytes} {bodyOff identOff : ℕ}
    (ht : row.toRecordFields.Typed) (hs : row.toRecordFields.Storable)
    (hkind : row.entityKind < 2 ^ 8)
    (hident : row.ident.length < 2 ^ 32) (hbodyOff : bodyOff < 2 ^ 64)
    (hidentOff : identOff < 2 ^ 64)
    (hbody : readAt body bodyOff row.body.length = row.body)
    (hidentAt : readAt ident identOff row.ident.length = row.ident) :
    storedRecord (some row.recordId) (encodeMetaRow row bodyOff identOff)
      (encodeDigestsRow row) body
      ident = some row := by
  have hm := metaFields_fits row bodyOff identOff
  have hd := digestsFields_fits row
  have hsource := lt_noneU32 ht.sourceSubject hs.sourceSubject
  have htarget := lt_noneU32 ht.targetSubject hs.targetSubject
  have hu8 : ∀ off v : ℕ, (off, leBytes 1 v) ∈ metaFields row bodyOff identOff → v < 2 ^ 8 →
      byteAt (encodeMetaRow row bodyOff identOff) off = v :=
    fun _ _ hmem hv => byteAt_writeFields hm hmem hv
  have hu16 : ∀ off v : ℕ, (off, leBytes 2 v) ∈ metaFields row bodyOff identOff → v < 2 ^ 16 →
      u16le (encodeMetaRow row bodyOff identOff) off = v :=
    fun _ _ hmem hv => u16le_writeFields hm hmem hv
  have hu32 : ∀ off v : ℕ, (off, leBytes 4 v) ∈ metaFields row bodyOff identOff → v < 2 ^ 32 →
      u32le (encodeMetaRow row bodyOff identOff) off = v :=
    fun _ _ hmem hv => u32le_writeFields hm hmem hv
  have hu64 : ∀ off v : ℕ, (off, leBytes 8 v) ∈ metaFields row bodyOff identOff → v < 2 ^ 64 →
      u64le (encodeMetaRow row bodyOff identOff) off = v :=
    fun _ _ hmem hv => u64le_writeFields hm hmem hv
  have hopt : ∀ (off : ℕ) (o : Option ℕ),
      (off, leBytes 4 (o.getD noneU32)) ∈ metaFields row bodyOff identOff →
      (∀ v ∈ o, v < noneU32) → optU32le (encodeMetaRow row bodyOff identOff) off = o :=
    fun _ _ hmem ho => optU32le_writeFields hm hmem ho
  have hdigest : ∀ (off : ℕ) (digest : Digest32), (off, digest.bytes) ∈ digestsFields row →
      digestAt (encodeDigestsRow row) off = some digest :=
    fun _ _ hmem => digestAt_writeFields hd hmem
  unfold storedRecord
  simp only [hu8 Meta.category row.category.toNat (by simp [metaFields]) row.category.toNat_lt,
    hu8 Meta.identityLayout row.identityLayout.toNat
      (by simp [metaFields]) row.identityLayout.toNat_lt,
    hu32 Meta.ownerArtifact row.ownerArtifact (by simp [metaFields]) ht.ownerArtifact,
    hu32 Meta.ownerVersion row.ownerVersion (by simp [metaFields]) ht.ownerVersion,
    hu32 Meta.validFrom row.validFrom (by simp [metaFields]) ht.validFrom,
    hu32 Meta.validTo row.validTo (by simp [metaFields]) ht.validTo,
    hu16 Meta.kindId row.kindId (by simp [metaFields]) ht.kindId,
    hu16 Meta.universalKindId row.universalKindId (by simp [metaFields]) ht.universalKindId,
    hu64 Meta.facets row.facets (by simp [metaFields]) ht.facets,
    hu32 Meta.spanArtifactVersion row.spanArtifactVersion
      (by simp [metaFields]) ht.spanArtifactVersion,
    hu32 Meta.spanStartByte row.spanStartByte (by simp [metaFields]) ht.spanStartByte,
    hu32 Meta.spanEndByte row.spanEndByte (by simp [metaFields]) ht.spanEndByte,
    hu32 Meta.spanStartLine row.spanStartLine (by simp [metaFields]) ht.spanStartLine,
    hu32 Meta.spanEndLine row.spanEndLine (by simp [metaFields]) ht.spanEndLine,
    hu8 Meta.identityType row.identityType (by simp [metaFields]) ht.identityType,
    hu8 Meta.assignmentKind row.assignmentKind (by simp [metaFields]) ht.assignmentKind,
    hu32 Meta.nameId row.nameId (by simp [metaFields]) ht.nameId,
    hu16 Meta.relationKindId row.relationKindId (by simp [metaFields]) ht.relationKindId,
    hdigest Digests.recordDigest row.recordDigest (by simp [digestsFields]),
    hdigest Digests.bodyDigest row.bodyDigest (by simp [digestsFields]),
    hdigest Digests.identityId row.identityId (by simp [digestsFields]),
    hdigest Digests.identityKeyDigest row.identityKeyDigest (by simp [digestsFields]),
    hdigest Digests.previousRecordId row.previousRecordId (by simp [digestsFields]),
    hopt Meta.sourceSubject row.sourceSubject (by simp [metaFields]) hsource,
    hopt Meta.targetSubject row.targetSubject (by simp [metaFields]) htarget,
    hu8 Meta.entityKind row.entityKind (by simp [metaFields]) hkind,
    hu64 Meta.bodyOff bodyOff (by simp [metaFields]) hbodyOff,
    hu32 Meta.bodyLen row.body.length (by simp [metaFields]) hs.body,
    hu64 Meta.identOff identOff (by simp [metaFields]) hidentOff,
    hu32 Meta.identLen row.ident.length (by simp [metaFields]) hident, hbody, hidentAt,
    Category.ofByte_toNat, IdentityLayout.ofByte_toNat, Option.bind_eq_bind, Option.bind_some]

end Records

section Dependencies

def depsMetaFields (row : DependencyRow) : List (ℕ × Bytes) :=
  [(DepsMeta.recordOrd, leBytes 4 (row.record.getD noneU32)),
    (DepsMeta.ownerArtifact, leBytes 4 row.ownerArtifact),
    (DepsMeta.ownerVersion, leBytes 4 row.ownerVersion),
    (DepsMeta.depArtifact, leBytes 4 row.depArtifact),
    (DepsMeta.depVersion, leBytes 4 row.depVersion),
    (DepsMeta.role, leBytes 1 row.role),
    (DepsMeta.validFrom, leBytes 4 row.validFrom),
    (DepsMeta.validTo, leBytes 4 row.validTo)]

def encodeDepsMetaRow (row : DependencyRow) : Bytes :=
  writeFields (zeros depsMetaStride) (depsMetaFields row)

@[simp] theorem length_encodeDepsMetaRow (row : DependencyRow) :
    (encodeDepsMetaRow row).length = depsMetaStride := by
  simp [encodeDepsMetaRow]

theorem depsMetaFields_fits (row : DependencyRow) :
    Fits (zeros depsMetaStride).length ((depsMetaFields row).map span) := by
  have hspans : (depsMetaFields row).map span =
      [(0, 4), (4, 4), (8, 4), (12, 4), (16, 4), (20, 1), (21, 4), (25, 4)] := by
    simp [depsMetaFields]
  rw [hspans, length_zeros]
  decide

def storedDependency (key : Option Digest32) (m : Bytes) : Option DependencyRow := do
  let dependencyId ← key
  some
    { dependencyId
      record := optU32le m DepsMeta.recordOrd
      ownerArtifact := u32le m DepsMeta.ownerArtifact
      ownerVersion := u32le m DepsMeta.ownerVersion
      depArtifact := u32le m DepsMeta.depArtifact
      depVersion := u32le m DepsMeta.depVersion
      role := byteAt m DepsMeta.role
      validFrom := u32le m DepsMeta.validFrom
      validTo := u32le m DepsMeta.validTo }

structure DependencyRow.Typed (row : DependencyRow) : Prop where
  record : ∀ r ∈ row.record, r < 2 ^ 32
  ownerArtifact : row.ownerArtifact < 2 ^ 32
  ownerVersion : row.ownerVersion < 2 ^ 32
  depArtifact : row.depArtifact < 2 ^ 32
  depVersion : row.depVersion < 2 ^ 32
  role : row.role < 2 ^ 8
  validFrom : row.validFrom < 2 ^ 32
  validTo : row.validTo < 2 ^ 32

theorem storedDependency_encode {row : DependencyRow} (ht : row.Typed)
    (hs : some noneU32 ≠ row.record) :
    storedDependency (some row.dependencyId) (encodeDepsMetaRow row) = some row := by
  have hm := depsMetaFields_fits row
  have hu32 : ∀ off v : ℕ, (off, leBytes 4 v) ∈ depsMetaFields row → v < 2 ^ 32 →
      u32le (encodeDepsMetaRow row) off = v :=
    fun _ _ hmem hv => u32le_writeFields hm hmem hv
  have hrole : byteAt (encodeDepsMetaRow row) DepsMeta.role = row.role :=
    byteAt_writeFields hm (by simp [depsMetaFields]) ht.role
  have hrecord : optU32le (encodeDepsMetaRow row) DepsMeta.recordOrd = row.record :=
    optU32le_writeFields hm (by simp [depsMetaFields]) (lt_noneU32 ht.record hs)
  unfold storedDependency
  simp only [hrecord, hrole,
    hu32 DepsMeta.ownerArtifact row.ownerArtifact (by simp [depsMetaFields]) ht.ownerArtifact,
    hu32 DepsMeta.ownerVersion row.ownerVersion (by simp [depsMetaFields]) ht.ownerVersion,
    hu32 DepsMeta.depArtifact row.depArtifact (by simp [depsMetaFields]) ht.depArtifact,
    hu32 DepsMeta.depVersion row.depVersion (by simp [depsMetaFields]) ht.depVersion,
    hu32 DepsMeta.validFrom row.validFrom (by simp [depsMetaFields]) ht.validFrom,
    hu32 DepsMeta.validTo row.validTo (by simp [depsMetaFields]) ht.validTo,
    Option.bind_eq_bind, Option.bind_some]

end Dependencies

section Pending

def pendingSiteFields (row : PendingSiteRow) : List (ℕ × Bytes) :=
  [(PendingSites.ownerArtifact, leBytes 4 row.ownerArtifact),
    (PendingSites.ownerVersion, leBytes 4 row.ownerVersion),
    (PendingSites.validFrom, leBytes 4 row.validFrom),
    (PendingSites.validTo, leBytes 4 row.validTo),
    (PendingSites.start, leBytes 4 row.start),
    (PendingSites.stop, leBytes 4 row.stop),
    (PendingSites.startLine, leBytes 4 row.startLine),
    (PendingSites.endLine, leBytes 4 row.endLine),
    (PendingSites.siteKind, leBytes 1 row.siteKind),
    (PendingSites.reason, leBytes 1 row.reason),
    (PendingSites.sourceSubject, leBytes 4 (row.sourceSubject.getD noneU32))]

def encodePendingSiteRow (row : PendingSiteRow) : Bytes :=
  writeFields (zeros pendingSiteStride) (pendingSiteFields row)

@[simp] theorem length_encodePendingSiteRow (row : PendingSiteRow) :
    (encodePendingSiteRow row).length = pendingSiteStride := by
  simp [encodePendingSiteRow]

theorem pendingSiteFields_fits (row : PendingSiteRow) :
    Fits (zeros pendingSiteStride).length ((pendingSiteFields row).map span) := by
  have hspans : (pendingSiteFields row).map span =
      [(0, 4), (4, 4), (8, 4), (12, 4), (16, 4), (20, 4), (24, 4), (28, 4), (32, 1), (33, 1),
        (34, 4)] := by
    simp [pendingSiteFields]
  rw [hspans, length_zeros]
  decide

def storedPendingSite (m : Bytes) : PendingSiteRow where
  ownerArtifact := u32le m PendingSites.ownerArtifact
  ownerVersion := u32le m PendingSites.ownerVersion
  validFrom := u32le m PendingSites.validFrom
  validTo := u32le m PendingSites.validTo
  start := u32le m PendingSites.start
  stop := u32le m PendingSites.stop
  startLine := u32le m PendingSites.startLine
  endLine := u32le m PendingSites.endLine
  siteKind := byteAt m PendingSites.siteKind
  reason := byteAt m PendingSites.reason
  sourceSubject := optU32le m PendingSites.sourceSubject

structure PendingSiteRow.Typed (row : PendingSiteRow) : Prop where
  ownerArtifact : row.ownerArtifact < 2 ^ 32
  ownerVersion : row.ownerVersion < 2 ^ 32
  validFrom : row.validFrom < 2 ^ 32
  validTo : row.validTo < 2 ^ 32
  start : row.start < 2 ^ 32
  stop : row.stop < 2 ^ 32
  startLine : row.startLine < 2 ^ 32
  endLine : row.endLine < 2 ^ 32
  siteKind : row.siteKind < 2 ^ 8
  reason : row.reason < 2 ^ 8
  sourceSubject : ∀ s ∈ row.sourceSubject, s < 2 ^ 32

theorem storedPendingSite_encode {row : PendingSiteRow} (ht : row.Typed)
    (hs : some noneU32 ≠ row.sourceSubject) :
    storedPendingSite (encodePendingSiteRow row) = row := by
  have hm := pendingSiteFields_fits row
  have hu32 : ∀ off v : ℕ, (off, leBytes 4 v) ∈ pendingSiteFields row → v < 2 ^ 32 →
      u32le (encodePendingSiteRow row) off = v :=
    fun _ _ hmem hv => u32le_writeFields hm hmem hv
  have hkind : byteAt (encodePendingSiteRow row) PendingSites.siteKind = row.siteKind :=
    byteAt_writeFields hm (by simp [pendingSiteFields]) ht.siteKind
  have hreason : byteAt (encodePendingSiteRow row) PendingSites.reason = row.reason :=
    byteAt_writeFields hm (by simp [pendingSiteFields]) ht.reason
  have hsubject : optU32le (encodePendingSiteRow row) PendingSites.sourceSubject =
      row.sourceSubject :=
    optU32le_writeFields hm (by simp [pendingSiteFields]) (lt_noneU32 ht.sourceSubject hs)
  unfold storedPendingSite
  simp only [hkind, hreason, hsubject,
    hu32 PendingSites.ownerArtifact row.ownerArtifact
      (by simp [pendingSiteFields]) ht.ownerArtifact,
    hu32 PendingSites.ownerVersion row.ownerVersion (by simp [pendingSiteFields]) ht.ownerVersion,
    hu32 PendingSites.validFrom row.validFrom (by simp [pendingSiteFields]) ht.validFrom,
    hu32 PendingSites.validTo row.validTo (by simp [pendingSiteFields]) ht.validTo,
    hu32 PendingSites.start row.start (by simp [pendingSiteFields]) ht.start,
    hu32 PendingSites.stop row.stop (by simp [pendingSiteFields]) ht.stop,
    hu32 PendingSites.startLine row.startLine (by simp [pendingSiteFields]) ht.startLine,
    hu32 PendingSites.endLine row.endLine (by simp [pendingSiteFields]) ht.endLine]

end Pending

section Closures

def encodeClosure (closure : Digest32 × ℕ) : Bytes := closure.1.bytes ++ leBytes 4 closure.2

@[simp] theorem length_encodeClosure (closure : Digest32 × ℕ) :
    (encodeClosure closure).length = closureStride := by
  simp [encodeClosure, closure.1.size]

def storedClosure (row : Bytes) : Option (Digest32 × ℕ) := do
  let key ← digestAt row 0
  some (key, u32le row 32)

theorem storedClosure_encode {closure : Digest32 × ℕ} (h : closure.2 < 2 ^ 32) :
    storedClosure (encodeClosure closure) = some closure := by
  have hkey : digestAt (encodeClosure closure) 0 = some closure.1 := by
    refine digestAt_of_read ?_
    have hread : readAt (closure.1.bytes ++ leBytes 4 closure.2) 0 closure.1.bytes.length =
        closure.1.bytes := readAt_append_left
    rwa [closure.1.size] at hread
  have hvalue : u32le (encodeClosure closure) 32 = closure.2 := by
    have hread := readAt_append_right closure.1.bytes (leBytes 4 closure.2) 0 4
    rw [closure.1.size] at hread
    have htake : readAt (leBytes 4 closure.2) 0 4 = leBytes 4 closure.2 := by
      simp [readAt]
    unfold u32le encodeClosure
    rw [hread, htake, leValue_leBytes (by omega)]
  unfold storedClosure
  rw [hkey, hvalue]
  rfl

def pendingClosureFields (closure : PendingSiteKey × ℕ) : List (ℕ × Bytes) :=
  [(PendingClosure.ownerArtifact, leBytes 4 (ofLex closure.1).1),
    (PendingClosure.start, leBytes 4 (ofLex (ofLex closure.1).2).1),
    (PendingClosure.stop, leBytes 4 (ofLex (ofLex (ofLex closure.1).2).2).1),
    (PendingClosure.siteKind, leBytes 1 (ofLex (ofLex (ofLex closure.1).2).2).2),
    (PendingClosure.validTo, leBytes 4 closure.2)]

def encodePendingClosure (closure : PendingSiteKey × ℕ) : Bytes :=
  writeFields (zeros pendingClosureStride) (pendingClosureFields closure)

@[simp] theorem length_encodePendingClosure (closure : PendingSiteKey × ℕ) :
    (encodePendingClosure closure).length = pendingClosureStride := by
  simp [encodePendingClosure]

theorem pendingClosureFields_fits (closure : PendingSiteKey × ℕ) :
    Fits (zeros pendingClosureStride).length ((pendingClosureFields closure).map span) := by
  have hspans : (pendingClosureFields closure).map span =
      [(0, 4), (4, 4), (8, 4), (12, 1), (16, 4)] := by
    simp [pendingClosureFields]
  rw [hspans, length_zeros]
  decide

def storedPendingClosure (row : Bytes) : PendingSiteKey × ℕ :=
  (toLex (u32le row PendingClosure.ownerArtifact, toLex (u32le row PendingClosure.start,
    toLex (u32le row PendingClosure.stop, byteAt row PendingClosure.siteKind))),
    u32le row PendingClosure.validTo)

structure PendingSiteKey.Typed (key : PendingSiteKey) : Prop where
  ownerArtifact : (ofLex key).1 < 2 ^ 32
  start : (ofLex (ofLex key).2).1 < 2 ^ 32
  stop : (ofLex (ofLex (ofLex key).2).2).1 < 2 ^ 32
  siteKind : (ofLex (ofLex (ofLex key).2).2).2 < 2 ^ 8

theorem storedPendingClosure_encode {closure : PendingSiteKey × ℕ}
    (ht : PendingSiteKey.Typed closure.1) (hv : closure.2 < 2 ^ 32) :
    storedPendingClosure (encodePendingClosure closure) = closure := by
  have hm := pendingClosureFields_fits closure
  have hu32 : ∀ off v : ℕ, (off, leBytes 4 v) ∈ pendingClosureFields closure → v < 2 ^ 32 →
      u32le (encodePendingClosure closure) off = v :=
    fun _ _ hmem hv => u32le_writeFields hm hmem hv
  have hkind : byteAt (encodePendingClosure closure) PendingClosure.siteKind =
      (ofLex (ofLex (ofLex closure.1).2).2).2 :=
    byteAt_writeFields hm (by simp [pendingClosureFields]) ht.siteKind
  unfold storedPendingClosure
  rw [hkind, hu32 PendingClosure.ownerArtifact _ (by simp [pendingClosureFields]) ht.ownerArtifact,
    hu32 PendingClosure.start _ (by simp [pendingClosureFields]) ht.start,
    hu32 PendingClosure.stop _ (by simp [pendingClosureFields]) ht.stop,
    hu32 PendingClosure.validTo _ (by simp [pendingClosureFields]) hv]
  rfl

end Closures

end StructuralStore
