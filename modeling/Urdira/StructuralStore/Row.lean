import Urdira.IndexingCore.MerkleBucket

open ByteOrder MerkleBucket

namespace StructuralStore

abbrev Text := Bytes

def noneU32 : ℕ := 4294967295

def noneU16 : ℕ := 65535

inductive Category where
  | entity
  | relation
  | diagnostic
  | fact
  | evidence
  deriving DecidableEq, Repr

def Category.toNat : Category → ℕ
  | .entity => 0
  | .relation => 1
  | .diagnostic => 2
  | .fact => 3
  | .evidence => 4

structure RecordFields where
  recordId : Digest32
  ownerArtifact : ℕ
  ownerVersion : ℕ
  validFrom : ℕ
  validTo : ℕ
  category : Category
  kindId : ℕ
  universalKindId : ℕ
  facets : ℕ
  spanArtifactVersion : ℕ
  spanStartByte : ℕ
  spanEndByte : ℕ
  spanStartLine : ℕ
  spanEndLine : ℕ
  identityType : ℕ
  assignmentKind : ℕ
  nameId : ℕ
  recordDigest : Digest32
  bodyDigest : Digest32
  identityId : Digest32
  identityKeyDigest : Digest32
  previousRecordId : Digest32
  sourceSubject : Option ℕ
  targetSubject : Option ℕ
  relationKindId : ℕ
  body : Bytes
  deriving DecidableEq

def RecordFields.nameIdOpt (row : RecordFields) : Option ℕ :=
  if row.nameId ≠ noneU32 then some row.nameId else none

structure RecordRow extends RecordFields where
  identityKey : Bytes
  deriving DecidableEq

structure DependencyRow where
  dependencyId : Digest32
  record : Option ℕ
  ownerArtifact : ℕ
  ownerVersion : ℕ
  depArtifact : ℕ
  depVersion : ℕ
  role : ℕ
  validFrom : ℕ
  validTo : ℕ
  deriving DecidableEq

abbrev PendingSiteKey := ℕ ×ₗ ℕ ×ₗ ℕ ×ₗ ℕ

structure PendingSiteRow where
  ownerArtifact : ℕ
  ownerVersion : ℕ
  validFrom : ℕ
  validTo : ℕ
  start : ℕ
  stop : ℕ
  startLine : ℕ
  endLine : ℕ
  siteKind : ℕ
  reason : ℕ
  sourceSubject : Option ℕ
  deriving DecidableEq

def PendingSiteRow.key (row : PendingSiteRow) : PendingSiteKey :=
  toLex (row.ownerArtifact, toLex (row.start, toLex (row.stop, row.siteKind)))

structure Dictionaries where
  kinds : List Text
  universalKinds : List Text
  relationKinds : List Text
  names : List Text
  subjects : List Digest32
  artifacts : List (Text × Text)
  facetNames : List Text
  subjectText : List Text
  artifactPaths : List Text
  entityKinds : List Text
  deriving DecidableEq

namespace Dictionaries

def empty : Dictionaries := ⟨[], [], [], [], [], [], [], [], [], []⟩

def append (self additions : Dictionaries) : Dictionaries where
  kinds := self.kinds ++ additions.kinds
  universalKinds := self.universalKinds ++ additions.universalKinds
  relationKinds := self.relationKinds ++ additions.relationKinds
  names := self.names ++ additions.names
  subjects := self.subjects ++ additions.subjects
  artifacts := self.artifacts ++ additions.artifacts
  facetNames := self.facetNames ++ additions.facetNames
  subjectText := self.subjectText ++ additions.subjectText
  artifactPaths := self.artifactPaths ++ additions.artifactPaths
  entityKinds := self.entityKinds ++ additions.entityKinds

end Dictionaries

end StructuralStore
