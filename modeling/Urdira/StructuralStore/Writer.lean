import Urdira.StructuralStore.Reader
import Urdira.IndexingCore.MerkleBucketSpec

open ByteOrder KeyedSet MerkleBucket

namespace StructuralStore

structure Disk where
  manifest : Option Manifest
  manifestNext : Option Manifest
  manifestNextTmp : Option (Option Manifest)
  bases : ℕ → Option Segment
  deltas : ℕ → Option (Option Segment)
  trees : SetKind → Option TreeFile

inductive FsStep where
  | createDelta (generation : ℕ)
  | fillDelta (generation : ℕ) (seg : Segment)
  | tree (kind : SetKind) (write : TreeWrite)
  | createManifestTmp
  | fillManifestTmp (manifest : Manifest)
  | renameTmp
  | publishNext

namespace Disk

def empty : Disk where
  manifest := none
  manifestNext := none
  manifestNextTmp := none
  bases := fun _ => none
  deltas := fun _ => none
  trees := fun _ => none

def apply (disk : Disk) : FsStep → Disk
  | .createDelta generation =>
    { disk with deltas := Function.update disk.deltas generation (some none) }
  | .fillDelta generation seg =>
    { disk with deltas := Function.update disk.deltas generation (some (some seg)) }
  | .tree kind write =>
    { disk with trees := Function.update disk.trees kind ((disk.trees kind).map (·.apply write)) }
  | .createManifestTmp => { disk with manifestNextTmp := some none }
  | .fillManifestTmp manifest => { disk with manifestNextTmp := some (some manifest) }
  | .renameTmp =>
    match disk.manifestNextTmp with
    | some (some manifest) => { disk with manifestNext := some manifest, manifestNextTmp := none }
    | _ => disk
  | .publishNext =>
    match disk.manifestNext with
    | some manifest => { disk with manifest := some manifest, manifestNext := none }
    | none => disk

def run (disk : Disk) (steps : List FsStep) : Disk := steps.foldl apply disk

end Disk

def openDelta (disk : Disk) (generation : ℕ) : Except Fault Segment :=
  match disk.deltas generation with
  | some (some seg) => .ok seg
  | _ => .error (.error "delta container unreadable")

def StoreReader.open (disk : Disk) : Except Fault StoreReader :=
  match disk.manifest with
  | none => .error (.error "read manifest")
  | some manifest =>
    match disk.bases manifest.base with
    | none => .error (.error "base segment missing")
    | some base => do
      let deltas ← manifest.deltas.mapM (openDelta disk)
      .ok (StoreReader.load manifest base deltas)

section Merkle

variable [Sha256]

def recordEntries (rows : List RecordRow) (generation : ℕ) : List (Digest32 × Digest32) :=
  (rows.filter (fun r => isVisibleAt r.validFrom r.validTo generation)).map
    (fun r => (r.recordId, r.recordDigest))

def dependencyEntries (deps : List DependencyRow) (generation : ℕ) : List (Digest32 × Digest32) :=
  (deps.filter (fun r => isVisibleAt r.validFrom r.validTo generation)).map
    (fun r => (r.dependencyId, dependencyLogical r.dependencyId))

def readTree (disk : Disk) (kind : SetKind) : Except Fault BucketedMerkleSet :=
  match disk.trees kind with
  | none => .error (.error "merkle bucket: failed to open")
  | some file => .ok (BucketedMerkleSet.readFrom file).1

def loadAndUpdate (disk : Disk) (kind : SetKind) (changes : List Change)
    (bucketEntries : ℕ → ℕ × List (Digest32 × Digest32)) :
    Except Fault (BucketedMerkleSet × List ℕ) := do
  let set ← readTree disk kind
  let set ← set.update changes bucketEntries
  .ok (set, BucketedMerkleSet.touchedBuckets changes)

def readRoot (disk : Disk) (kind : SetKind) : Except Fault Digest32 := do
  let set ← readTree disk kind
  .ok set.root

def persistSlots (set : BucketedMerkleSet) (touched : List ℕ) (kind : SetKind) (generation : ℕ) :
    List FsStep :=
  (set.writeSlots touched kind generation).map (FsStep.tree kind)

end Merkle

structure DeltaInput where
  opened : List RecordRow
  closures : List (Digest32 × ℕ)
  depsOpened : List DependencyRow
  depsClosures : List (Digest32 × ℕ)
  dictAdditions : Dictionaries
  generation : ℕ
  pendingOpened : List PendingSiteRow
  pendingClosures : List (PendingSiteKey × ℕ)

structure BaseInput where
  rows : List RecordRow
  deps : List DependencyRow
  dicts : Dictionaries
  generation : ℕ
  pendingSites : List PendingSiteRow

structure Roots where
  recordsRoot : Digest32
  dependencyRoot : Digest32
  deriving DecidableEq

def groupChangesByBucket (changes : List Change) (bucketIdx : ℕ) : List Change :=
  changes.filter (fun change => decide (bucketIndex change.key = bucketIdx))

def applyChange (bucketIdx : ℕ) (entries : List (Digest32 × Digest32)) (change : Change) :
    List (Digest32 × Digest32) :=
  if bucketIndex change.key = bucketIdx then
    match change with
    | .set key logical => entries.filter (fun e => decide (e.1 ≠ key)) ++ [(key, logical)]
    | .delete key => entries.filter (fun e => decide (e.1 ≠ key))
  else entries

def applyChangesInBucket (entries : List (Digest32 × Digest32)) (changes : List Change)
    (bucketIdx : ℕ) : ℕ × List (Digest32 × Digest32) :=
  (entries.length, changes.foldl (applyChange bucketIdx) entries)

def withEntityKinds (dicts : Dictionaries) (words : List Text) : Dictionaries :=
  { dicts with entityKinds := dicts.entityKinds ++ words }

namespace BaseInput

def fullDicts (input : BaseInput) : Dictionaries :=
  withEntityKinds input.dicts
    (IdentityCodec.collectNewEntityKinds input.rows input.dicts.entityKinds)

def sections (input : BaseInput) (ordered : List RecordRow)
    (h : ordered.Pairwise (fun a b => a.recordId ≤ b.recordId)) : SegmentInput where
  keyStart := entitiesIndexKeyStart
  ordered := ordered
  ordered_sorted := h
  resolveIdentity := IdentityCodec.batchIndex input.rows
  dicts := input.fullDicts
  dictSection := input.fullDicts
  deps := input.deps
  pending := input.pendingSites
  closures := []
  depsClosures := []
  pendingClosures := []
  generation := input.generation

end BaseInput

section Base

variable [Sha256]

def publishBase (disk : Disk) (input : BaseInput) (sections : SegmentInput) :
    Except Fault (Disk × Roots) := do
  let seg ← sections.build
  let recordsSet ← BucketedMerkleSet.fromSorted (recordEntries input.rows input.generation)
  let depSet ← BucketedMerkleSet.fromSorted (dependencyEntries input.deps input.generation)
  let trees := Function.update
    (Function.update disk.trees .records (some (recordsSet.writeTo .records input.generation)))
    .dependency (some (depSet.writeTo .dependency input.generation))
  .ok ({ disk with
      bases := Function.update disk.bases input.generation (some seg)
      trees := trees
      manifestNext := none
      manifestNextTmp := none
      manifest := some
        { generation := input.generation
          base := input.generation
          deltas := []
          recordsRoot := recordsSet.root
          dependencyRoot := depSet.root
          dictGeneration := input.generation } }, ⟨recordsSet.root, depSet.root⟩)

def writeBaseWithPending (disk : Disk) (input : BaseInput) : Except Fault (Disk × Roots) :=
  publishBase disk input
    (input.sections (sortOn (fun row => row.recordId) input.rows) (sortOn_pairwise _ _))

structure Partitions where
  parts : Fin 16 → List RecordRow
  nibble : ∀ n, ∀ row ∈ parts n, topNibble row.recordId = n
  sorted : ∀ n, (parts n).Pairwise (fun a b => a.recordId ≤ b.recordId)

def Partitions.rows (partitions : Partitions) : List RecordRow :=
  (List.ofFn partitions.parts).flatten

omit [Sha256] in
theorem Partitions.rows_sorted (partitions : Partitions) :
    partitions.rows.Pairwise (fun a b => a.recordId ≤ b.recordId) := by
  rw [Partitions.rows, List.pairwise_flatten, List.pairwise_ofFn]
  constructor
  · intro part hpart
    obtain ⟨n, rfl⟩ := List.mem_ofFn.mp hpart
    exact partitions.sorted n
  · intro m n hmn a ha b hb
    by_contra hlt
    have hmono := bucketIndex_mono (not_le.mp hlt).le
    have htop : topNibble b.recordId ≤ topNibble a.recordId := by
      rw [topNibble_eq, topNibble_eq]
      exact Nat.div_le_div_right hmono
    rw [partitions.nibble m a ha, partitions.nibble n b hb] at htop
    omega

def writeBasePartitionedWithPending (disk : Disk) (partitions : Partitions)
    (deps : List DependencyRow) (dicts : Dictionaries) (generation : ℕ)
    (pendingSites : List PendingSiteRow) : Except Fault (Disk × Roots) :=
  let input : BaseInput := ⟨partitions.rows, deps, dicts, generation, pendingSites⟩
  publishBase disk input (input.sections partitions.rows partitions.rows_sorted)

end Base

namespace DeltaInput

def newEntityKinds (input : DeltaInput) (reader : StoreReader) : List Text :=
  IdentityCodec.collectNewEntityKinds input.opened
    (reader.dicts.append input.dictAdditions).entityKinds

def fullDicts (input : DeltaInput) (reader : StoreReader) : Dictionaries :=
  withEntityKinds (reader.dicts.append input.dictAdditions) (input.newEntityKinds reader)

def dictSection (input : DeltaInput) (reader : StoreReader) : Dictionaries :=
  { input.dictAdditions with entityKinds := input.newEntityKinds reader }

def resolveIdentity (input : DeltaInput) (reader : StoreReader) (id : Digest32) : Option Bytes :=
  match IdentityCodec.batchIndex input.opened id with
  | some key => some key
  | none => (reader.get id).map reader.identityKey

def sections (input : DeltaInput) (reader : StoreReader) : SegmentInput where
  keyStart := fun row => row.spanStartByte
  ordered := sortOn (fun row => row.recordId) input.opened
  ordered_sorted := sortOn_pairwise _ _
  resolveIdentity := input.resolveIdentity reader
  dicts := input.fullDicts reader
  dictSection := input.dictSection reader
  deps := input.depsOpened
  pending := input.pendingOpened
  closures := input.closures
  depsClosures := input.depsClosures
  pendingClosures := input.pendingClosures
  generation := input.generation

variable [Sha256]

def recordChanges (input : DeltaInput) : List Change :=
  (recordEntries input.opened input.generation).map (fun e => .set e.1 e.2) ++
    input.closures.map (fun c => .delete c.1)

def depChanges (input : DeltaInput) : List Change :=
  input.depsClosures.map (fun c => .delete c.1) ++
    (dependencyEntries input.depsOpened input.generation).map (fun e => .set e.1 e.2)

end DeltaInput

section Delta

variable [Sha256]

def updateTree (disk : Disk) (kind : SetKind) (changes : List Change)
    (entriesInBucket : ℕ → List (Digest32 × Digest32)) (generation : ℕ) :
    Except Fault (List FsStep × Digest32) :=
  if changes.isEmpty then do
    let root ← readRoot disk kind
    .ok ([], root)
  else do
    let (set, touched) ← loadAndUpdate disk kind changes (fun idx =>
      applyChangesInBucket (entriesInBucket idx) (groupChangesByBucket changes idx) idx)
    .ok (persistSlots set touched kind generation, set.root)

def nextManifest (reader : StoreReader) (generation : ℕ) (roots : Roots) : Manifest where
  generation := generation
  base := reader.manifest.base
  deltas := reader.manifest.deltas ++ [generation]
  recordsRoot := roots.recordsRoot
  dependencyRoot := roots.dependencyRoot
  dictGeneration := generation

structure DeltaPlan where
  segment : Segment
  recordSteps : List FsStep
  depSteps : List FsStep
  manifest : Manifest
  roots : Roots

def DeltaPlan.steps (plan : DeltaPlan) : List FsStep :=
  [.createDelta plan.manifest.generation, .fillDelta plan.manifest.generation plan.segment] ++
    plan.recordSteps ++ plan.depSteps ++
    [.createManifestTmp, .fillManifestTmp plan.manifest, .renameTmp, .publishNext]

def planDelta (disk : Disk) (reader : StoreReader) (input : DeltaInput) :
    Except Fault DeltaPlan := do
  let segment ← (input.sections reader).build
  let (recordSteps, recordsRoot) ← updateTree disk .records input.recordChanges
    (fun idx => reader.visibleEntriesInBucket idx reader.generation) input.generation
  let (depSteps, dependencyRoot) ← updateTree disk .dependency input.depChanges
    (fun idx => reader.visibleDepEntriesInBucket idx reader.generation) input.generation
  .ok
    { segment, recordSteps, depSteps
      manifest := nextManifest reader input.generation ⟨recordsRoot, dependencyRoot⟩
      roots := ⟨recordsRoot, dependencyRoot⟩ }

def writeDeltaWithReaderAndPending (disk : Disk) (reader : StoreReader) (input : DeltaInput) :
    Except Fault (Disk × Roots) := do
  let plan ← planDelta disk reader input
  .ok (disk.run plan.steps, plan.roots)

end Delta

def removeSegments (disk : Disk) (manifest next : Manifest) : Disk :=
  { disk with
    bases := fun g => if g = next.base ∧ g ≠ manifest.base then none else disk.bases g
    deltas := fun g => if g ∈ next.deltas ∧ g ∉ manifest.deltas then none else disk.deltas g }

def removeOrphans (disk : Disk) (manifest : Manifest) : Disk :=
  { disk with
    bases := fun g => if g = manifest.base then disk.bases g else none
    deltas := fun g => if g ∈ manifest.deltas then disk.deltas g else none }

def recover (disk : Disk) : Disk :=
  match disk.manifest with
  | none => disk
  | some manifest =>
    let disk := match disk.manifestNext with
      | none => disk
      | some next =>
        let disk := if next.generation ≠ manifest.generation then removeSegments disk manifest next
          else disk
        { disk with manifestNext := none }
    removeOrphans disk manifest

def viewToRow (reader : StoreReader) (row : StoredRow) : RecordRow :=
  { toRecordFields :=
      { row.toRecordFields with validTo := reader.effectiveValidTo row.recordId row.validTo }
    identityKey := reader.identityKey row }

def depViewToRow (reader : StoreReader) (dep : DependencyRow) : DependencyRow :=
  { dep with validTo := reader.depEffectiveValidTo dep }

def pendingToRow (reader : StoreReader) (site : PendingSiteRow) : PendingSiteRow :=
  { site with validTo := reader.pendingEffectiveValidTo site }

def compactInput (reader : StoreReader) (newGeneration : ℕ) : BaseInput where
  rows := (reader.iterVisible newGeneration).map (viewToRow reader)
  deps := (reader.iterVisibleDeps newGeneration).map (depViewToRow reader)
  dicts := reader.dicts
  generation := newGeneration
  pendingSites := (reader.iterVisiblePendingSites newGeneration).map (pendingToRow reader)

def compact [Sha256] (disk : Disk) (newGeneration : ℕ) : Except Fault (Disk × Roots) := do
  let reader ← StoreReader.open disk
  writeBaseWithPending disk (compactInput reader newGeneration)

end StructuralStore
