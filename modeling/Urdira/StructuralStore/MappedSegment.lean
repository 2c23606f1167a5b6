import Urdira.StructuralStore.SegmentFiles

open ByteOrder KeyedSet MerkleBucket ByteLayout ByteReader BinarySearch

namespace StructuralStore

inductive Location where
  | dir (path : String) (files : SectionId → Option Bytes)
  | container (path : String) (opened : OpenedContainer)

namespace Location

def optionalSection : Location → SectionId → Option Bytes
  | .dir _ files, id => files id
  | .container _ opened, id => opened.bytes id

def missing (loc : Location) (id : SectionId) : Fault :=
  let name := id.label
  match loc with
  | .dir path _ => .error s!"open {path}/{name}: No such file or directory (os error 2)"
  | .container path _ => .error s!"delta container {path} missing section {name}"

def mandatorySection (loc : Location) (id : SectionId) : Except Fault Bytes :=
  match loc.optionalSection id with
  | some bytes => .ok bytes
  | none => .error (loc.missing id)

end Location

structure MappedSegment where
  generation : ℕ
  keys : Bytes
  metas : Bytes
  digests : Bytes
  body : Bytes
  ident : Bytes
  byOwner : Bytes
  byName : Bytes
  byKind : Bytes
  byIdentity : Bytes
  adjOut : Bytes
  adjIn : Bytes
  entitiesIndex : Bytes
  depsKeys : Bytes
  depsMeta : Bytes
  depsReverse : Bytes
  n : ℕ
  depsN : ℕ
  pending : Option Bytes
  pendingN : ℕ
  closuresPending : Option Bytes

def pendingRowCount : Option Bytes → Except Fault ℕ
  | none => .ok 0
  | some bytes => do
    let (header, _) ← headerAndData bytes
    .ok header.rowCount

namespace MappedSegment

def «open» (loc : Location) : Except Fault MappedSegment := do
  let keys ← loc.mandatorySection .recordsKeys
  let (keysHeader, _) ← headerAndData keys
  let metas ← loc.mandatorySection .recordsMeta
  let digests ← loc.mandatorySection .recordsDigests
  let body ← loc.mandatorySection .recordsBody
  let ident ← loc.mandatorySection .recordsIdent
  let byOwner ← loc.mandatorySection .recordsByOwner
  let byName ← loc.mandatorySection .recordsByName
  let byKind ← loc.mandatorySection .recordsByKind
  let byIdentity ← loc.mandatorySection .recordsByIdentity
  let adjOut ← loc.mandatorySection .adjOut
  let adjIn ← loc.mandatorySection .adjIn
  let entitiesIndex ← loc.mandatorySection .entitiesIndex
  let depsKeys ← loc.mandatorySection .depsKeys
  let (depsHeader, _) ← headerAndData depsKeys
  let depsMeta ← loc.mandatorySection .depsMeta
  let depsReverse ← loc.mandatorySection .depsReverse
  let pending := loc.optionalSection .pendingSites
  let pendingN ← pendingRowCount pending
  .ok
    { generation := keysHeader.generation
      keys, metas, digests, body, ident, byOwner, byName, byKind, byIdentity, adjOut, adjIn,
        entitiesIndex,
      depsKeys, depsMeta, depsReverse
      n := keysHeader.rowCount
      depsN := depsHeader.rowCount
      pending, pendingN
      closuresPending := loc.optionalSection .closuresPending }

variable (seg : MappedSegment)

def keyAt (ordinal : ℕ) : Option Digest32 :=
  digestAt (seg.keys.drop headerLen) (ordinal * keysStride)

def metaRow (ordinal : ℕ) : Bytes := rowAt metaStride (seg.metas.drop headerLen) ordinal

def digestsRow (ordinal : ℕ) : Bytes := rowAt digestsStride (seg.digests.drop headerLen) ordinal

def recordAt (ordinal : ℕ) : Option StoredRow :=
  storedRecord (seg.keyAt ordinal) (seg.metaRow ordinal) (seg.digestsRow ordinal)
    (seg.body.drop headerLen) (seg.ident.drop headerLen)

def depsKeyAt (ordinal : ℕ) : Option Digest32 :=
  digestAt (seg.depsKeys.drop headerLen) (ordinal * depsKeysStride)

def depsMetaRow (ordinal : ℕ) : Bytes := rowAt depsMetaStride (seg.depsMeta.drop headerLen) ordinal

def dependencyAt (ordinal : ℕ) : Option DependencyRow :=
  storedDependency (seg.depsKeyAt ordinal) (seg.depsMetaRow ordinal)

def pendingRow (ordinal : ℕ) : Option PendingSiteRow :=
  seg.pending.map (fun pending =>
    storedPendingSite (rowAt pendingSiteStride (pending.drop headerLen) ordinal))

def records : List (Option StoredRow) := (List.range seg.n).map seg.recordAt

def dependencies : List (Option DependencyRow) := (List.range seg.depsN).map seg.dependencyAt

def pendingSites : List (Option PendingSiteRow) := (List.range seg.pendingN).map seg.pendingRow

end MappedSegment

section Loaders

def loadDictFile : Option Bytes → Except Fault (Dictionaries × ℕ)
  | none => .ok (Dictionaries.empty, 0)
  | some bytes => do
    let header ← FileHeader.decode bytes
    let dict ← (readDictBody (bytes.drop headerLen)).1
    .ok (dict, header.rowCount)

def loadSubjectsFile : Option Bytes → Except Fault (List Digest32)
  | none => .ok []
  | some bytes => do
    let _ ← FileHeader.decode bytes
    (readSubjectsBody (bytes.drop headerLen)).1

def loadClosures : Option Bytes → Except Fault (List (Digest32 × ℕ))
  | none => .ok []
  | some bytes => do
    let (_, data) ← headerAndData bytes
    .ok ((rowsOf closureStride (data.length / closureStride) data).filterMap storedClosure)

def loadPendingClosures : Option Bytes → Except Fault (List (PendingSiteKey × ℕ))
  | none => .ok []
  | some bytes => do
    let (_, data) ← headerAndData bytes
    .ok ((rowsOf pendingClosureStride (data.length / pendingClosureStride) data).map
      storedPendingClosure)

def loadDict (loc : Location) : Except Fault Dictionaries := do
  let (dict, _) ← loadDictFile (loc.optionalSection .dictBin)
  let subjects ← loadSubjectsFile (loc.optionalSection .subjectsKeys)
  .ok { dict with subjects }

end Loaders

structure Segment.Typed (seg : Segment) : Prop where
  generation : seg.generation < 2 ^ 64
  rows : ∀ row ∈ seg.rows, row.toRecordFields.Typed
  entityKind : ∀ row ∈ seg.rows, row.entityKind < 2 ^ 8
  deps : ∀ dep ∈ seg.deps, dep.Typed
  pending : ∀ site ∈ seg.pending, site.Typed
  dict : seg.dict.Typed
  closuresRecords : ∀ closure ∈ seg.closuresRecords, closure.2 < 2 ^ 32
  closuresDeps : ∀ closure ∈ seg.closuresDeps, closure.2 < 2 ^ 32
  closuresPending : ∀ closure ∈ seg.closuresPending, PendingSiteKey.Typed closure.1 ∧
    closure.2 < 2 ^ 32
  closuresRecordsCount : seg.closuresRecords.length < 2 ^ 64
  closuresDepsCount : seg.closuresDeps.length < 2 ^ 64
  closuresPendingCount : seg.closuresPending.length < 2 ^ 64

structure Segment.Storable (seg : Segment) : Prop where
  rowCount : seg.rows.length < 2 ^ 32
  rows : ∀ row ∈ seg.rows, row.toRecordFields.Storable
  idents : ∀ row ∈ seg.rows, row.ident.length < 2 ^ 32
  depsCount : seg.deps.length < 2 ^ 32
  deps : ∀ dep ∈ seg.deps, some noneU32 ≠ dep.record
  pendingCount : seg.pending.length < 2 ^ 32
  pending : ∀ site ∈ seg.pending, some noneU32 ≠ site.sourceSubject
  dict : seg.dict.Storable

structure Location.Holds (loc : Location) (mapped : MappedSegment) (seg : Segment) : Prop where
  generation : mapped.generation = seg.generation
  records : mapped.records = seg.rows.map some
  dependencies : mapped.dependencies = seg.deps.map some
  pendingSites : mapped.pendingSites = seg.pending.map some
  closuresRecords : loadClosures (loc.optionalSection .closuresRecords) = .ok seg.closuresRecords
  closuresDeps : loadClosures (loc.optionalSection .closuresDeps) = .ok seg.closuresDeps
  closuresPending : loadPendingClosures mapped.closuresPending = .ok seg.closuresPending
  dict : loadDict loc = .ok seg.dict

end StructuralStore
