import Urdira.Lib.Chunks
import Urdira.SourceFrontier.Frontier
import Urdira.SourceFrontier.Ids

open Chunks MerkleBucket

namespace SourceFrontier

structure Observation where
  normalizedUri : String
  contentHash : String
  byteLength : ℕ
  metadataDigest : String
  deriving DecidableEq, Repr

structure Delta where
  added : List Observation
  changed : List Observation
  deleted : List String
  metadataRefreshed : List (String × String)
  equivalentCount : ℕ

structure VersionRow where
  artifactVersionId : String
  artifactId : String
  contentBlobId : String
  contentHash : String
  byteLength : ℕ
  metadataDigest : String
  createdFromObservationId : String
  validFrom : ℤ
  validTo : Option ℤ
  deriving DecidableEq

structure TombstoneRow where
  artifactTombstoneId : String
  artifactId : String
  lastArtifactVersionId : String
  validFrom : ℤ
  validTo : Option ℤ
  openingArtifactChangeId : String
  closingArtifactChangeId : Option String
  replacementArtifactVersionId : Option String
  deriving DecidableEq

structure IndexState where
  currentGeneration : ℤ
  stateRevision : ℤ
  checkpointId : String
  sourceStateDigest : String
  deriving DecidableEq

structure Database where
  artifacts : List (String × String)
  versions : List VersionRow
  tombstones : List TombstoneRow
  indexState : Option IndexState
  deriving DecidableEq

inductive Statement where
  | «begin»
  | insertBatch (batchId : String) (observationCount : ℕ) (batchDigest : String)
  | insertArtifacts (rows : List (String × String))
  | insertObservations (ids : List String)
  | insertBlobs (rows : List (String × String × ℕ))
  | insertVersions (rows : List VersionRow)
  | closeVersion (artifactVersionId : String) (generation : ℤ)
  | insertTombstone (row : TombstoneRow)
  | closeTombstone (artifactTombstoneId : String) (generation : ℤ)
      (closingChangeId replacement : String)
  | refreshMetadata (artifactVersionId metadataDigest : String)
  | readState
  | writeState (state : IndexState)
  | commit

namespace Database

def empty : Database := ⟨[], [], [], none⟩

-- INSERT OR IGNORE: a row whose key or uri is already there is skipped.
def insertArtifact (db : Database) (row : String × String) : Database :=
  if row.1 ∈ db.artifacts.map Prod.fst ∨ row.2 ∈ db.artifacts.map Prod.snd then db
  else { db with artifacts := db.artifacts ++ [row] }

def insertVersion (db : Database) (row : VersionRow) : Except String Database :=
  if 2 ^ 63 ≤ row.byteLength then .error "CHECK constraint failed: byte_length >= 0"
  else if row.artifactVersionId ∈ db.versions.map VersionRow.artifactVersionId then
    .error "UNIQUE constraint failed: artifact_versions.artifact_version_id"
  else .ok { db with versions := db.versions ++ [row] }

def insertTombstone (db : Database) (row : TombstoneRow) : Except String Database :=
  if row.artifactTombstoneId ∈ db.tombstones.map TombstoneRow.artifactTombstoneId then
    .error "UNIQUE constraint failed: artifact_tombstones.artifact_tombstone_id"
  else .ok { db with tombstones := db.tombstones ++ [row] }

def updateVersions (db : Database) (artifactVersionId : String) (set : VersionRow → VersionRow) :
    Database :=
  { db with versions := db.versions.map (fun row =>
      if row.artifactVersionId = artifactVersionId ∧ row.validTo = none then set row else row) }

def updateTombstones (db : Database) (artifactTombstoneId : String)
    (set : TombstoneRow → TombstoneRow) :
    Database :=
  { db with tombstones := db.tombstones.map (fun row =>
      if row.artifactTombstoneId = artifactTombstoneId ∧ row.validTo = none then set row else row) }

-- The rows of observation batches, observations and content blobs are never read back here.
def perform (db : Database) : Statement → Except String Database
  | .insertArtifacts rows => .ok (rows.foldl insertArtifact db)
  | .insertVersions rows => rows.foldlM insertVersion db
  | .closeVersion id generation =>
      .ok (db.updateVersions id (fun row => { row with validTo := some generation }))
  | .insertTombstone row => db.insertTombstone row
  | .closeTombstone id generation closingChangeId replacement =>
    .ok (db.updateTombstones id (fun row =>
      { row with
        validTo := some generation
        closingArtifactChangeId := some closingChangeId
        replacementArtifactVersionId := some replacement }))
  | .refreshMetadata id digest =>
    .ok (db.updateVersions id (fun row => { row with metadataDigest := digest }))
  | .writeState state => .ok { db with indexState := some state }
  | _ => .ok db

end Database

-- Any statement may fail besides the constraints of the tables above: `refuses` says when and why.
structure Sqlite where
  refuses : Database → Statement → Option String

def Sqlite.execute (sql : Sqlite) (db : Database) (statement : Statement) : Except Fault Database :=
  let failed (message : String) : Except Fault Database :=
    .error (.error ("source catalog SQL error: " ++ message))
  match sql.refuses db statement with
  | some message => failed message
  | none =>
    match db.perform statement with
    | .ok db => .ok db
    | .error message => failed message

structure AppliedCatalog where
  observationBatchId : String
  stateRevision : ℤ
  sourceStateDigest : String
  added : ℕ
  changed : ℕ
  deleted : ℕ
  equivalent : ℕ
  deriving DecidableEq

structure Transaction where
  db : Database
  frontier : Frontier

def Transaction.executeAll (t : Transaction) (result : Except Fault Database) :
    Except Failure Transaction :=
  match result with
  | .ok db => .ok { t with db }
  | .error error => .error ⟨error, t.frontier⟩

def Transaction.update (t : Transaction) (result : Except Failure Frontier) :
    Except Failure Transaction :=
  match result with
  | .ok frontier => .ok { t with frontier }
  | .error failure => .error failure

def addedBatchRows : ℕ := 300

section Apply

variable [Sha256] (sql : Sqlite) (workspaceId batchId : String) (generation : ℤ)

def versionRow (artifactId : String) (o : Observation) : VersionRow :=
  let observationId := sourceObservationId batchId artifactId (some o.contentHash) generation
  { artifactVersionId := artifactVersionId artifactId observationId o.contentHash
    artifactId
    contentBlobId := contentBlobId o.contentHash o.byteLength
    contentHash := o.contentHash
    byteLength := o.byteLength
    metadataDigest := o.metadataDigest
    createdFromObservationId := observationId
    validFrom := generation
    validTo := none }

def entryOf (artifactId : String) (o : Observation) (ordinal : ℕ) : FrontierEntry where
  artifactId := artifactId
  artifactVersionId := (versionRow batchId generation artifactId o).artifactVersionId
  contentHash := o.contentHash
  byteLength := o.byteLength
  metadataDigest := o.metadataDigest
  artifactOrdinal := ordinal

def addedRows (db : Database) (observations : List Observation) : Except Fault Database := do
  let rows :=
    observations.map (fun o => versionRow batchId generation
      (artifactId workspaceId o.normalizedUri) o)
  let db ← sql.execute db (.insertArtifacts (observations.map (fun o =>
    (artifactId workspaceId o.normalizedUri, o.normalizedUri))))
  let db ← sql.execute db (.insertObservations (rows.map VersionRow.createdFromObservationId))
  let db ← sql.execute db (.insertBlobs (rows.map (fun row =>
    (row.contentBlobId, row.contentHash, row.byteLength))))
  sql.execute db (.insertVersions rows)

def recordPresent (f : Frontier) (artifactId : String) (o : Observation) :
    Except Failure Frontier :=
  let ordinal := f.nextOrdinal
  let f := { f with nextOrdinal := f.nextOrdinal + 1 }
  f.setPresent o.normalizedUri (entryOf batchId generation artifactId o ordinal)

def recordAdded (f : Frontier) : List Observation → Except Failure Frontier
  | [] => .ok f
  | o :: rest => do
    let f ← recordPresent batchId generation f (artifactId workspaceId o.normalizedUri) o
    recordAdded f rest

def insertAddedBatch (t : Transaction) (observations : List Observation) :
    Except Failure Transaction :=
  if observations.isEmpty then .ok t
  else do
    let t ← t.executeAll (addedRows sql workspaceId batchId generation t.db observations)
    t.update (recordAdded workspaceId batchId generation t.frontier observations)

def changedRows (db : Database) (artifactId : String) (present : Option FrontierEntry)
    (tombstone : Option TombstoneEntry) (o : Observation) : Except Fault Database := do
  let row := versionRow batchId generation artifactId o
  let db ← match present with
    | some entry => sql.execute db (.closeVersion entry.artifactVersionId generation)
    | none => .ok db
  let db ← sql.execute db (.insertObservations [row.createdFromObservationId])
  let db ← sql.execute db (.insertBlobs [(row.contentBlobId, row.contentHash, row.byteLength)])
  let db ← sql.execute db (.insertVersions [row])
  match tombstone with
  | some entry => sql.execute db (.closeTombstone entry.artifactTombstoneId generation
      (artifactChangeId "recreated" batchId artifactId) row.artifactVersionId)
  | none => .ok db

def priorOf (f : Frontier) (uri : String) :
    Option (String × Option FrontierEntry × Option TombstoneEntry) :=
  match AssocMap.get f.present uri, AssocMap.get f.absent uri with
  | some present, _ => some (present.artifactId, some present, none)
  | none, some tombstone => some (tombstone.artifactId, none, some tombstone)
  | none, none => none

def applyChanged (t : Transaction) (o : Observation) : Except Failure Transaction :=
  match priorOf t.frontier o.normalizedUri with
  | none => .error ⟨.error ("source catalog: '" ++ o.normalizedUri ++
      "' is in Delta::changed but the frontier has no prior present or tombstoned entry for it"),
        t.frontier⟩
  | some (artifactId, present, tombstone) => do
    let t ← t.executeAll (changedRows sql batchId generation t.db artifactId present tombstone o)
    t.update (recordPresent batchId generation t.frontier artifactId o)

def deletedRows (db : Database) (prior : FrontierEntry) : Except Fault Database := do
  let db ← sql.execute db (.closeVersion prior.artifactVersionId generation)
  sql.execute db (.insertTombstone
    { artifactTombstoneId := artifactTombstoneId prior.artifactId batchId "deleted"
      artifactId := prior.artifactId
      lastArtifactVersionId := prior.artifactVersionId
      validFrom := generation
      validTo := none
      openingArtifactChangeId := artifactChangeId "deleted" batchId prior.artifactId
      closingArtifactChangeId := none
      replacementArtifactVersionId := none })

def applyDeleted (t : Transaction) (uri : String) : Except Failure Transaction :=
  match AssocMap.get t.frontier.present uri with
  | none => .error ⟨.error ("source catalog: '" ++ uri ++
      "' is in Delta::deleted but the frontier has no present entry for it"), t.frontier⟩
  | some prior => do
    let t ← t.executeAll (deletedRows sql batchId generation t.db prior)
    t.update (t.frontier.setAbsent uri
      ⟨prior.artifactId, artifactTombstoneId prior.artifactId batchId "deleted"⟩)

def Frontier.refresh (f : Frontier) (uri metadataDigest : String) : Frontier :=
  { f with present := f.present.map (fun e => if e.1 = uri then (e.1, { e.2 with metadataDigest })
    else e) }

def applyMetadataRefresh (t : Transaction) : List (String × String) → Except Failure Transaction
  | [] => .ok t
  | (uri, metadataDigest) :: rest =>
    match AssocMap.get t.frontier.present uri with
    | none => applyMetadataRefresh t rest
    | some entry => do
      let t ← t.executeAll (sql.execute t.db
        (.refreshMetadata entry.artifactVersionId metadataDigest))
      applyMetadataRefresh { t with frontier := t.frontier.refresh uri metadataDigest } rest

def opening (db : Database) (delta : Delta) : Except Fault Database := do
  let observationCount := delta.added.length + delta.changed.length
  let db ← sql.execute db .begin
  sql.execute db (.insertBatch batchId observationCount
    (observationBatchDigest batchId observationCount delta.deleted.length))

def upsertSourceIndexState (db : Database) (sourceStateDigest : String) :
    Except Fault (Database × ℤ) := do
  let db ← sql.execute db .readState
  let nextRevision := (db.indexState.elim 0 IndexState.stateRevision) + 1
  let db ← sql.execute db (.writeState
    { currentGeneration := generation
      stateRevision := nextRevision
      checkpointId := freshnessCheckpointId workspaceId generation
      sourceStateDigest })
  pure (db, nextRevision)

def Delta.applyUris (t : Transaction) (delta : Delta) : Except Failure Transaction := do
  let t ← (chunks addedBatchRows delta.added).foldlM
    (fun t batch => insertAddedBatch sql workspaceId batchId generation t batch) t
  let t ← delta.changed.foldlM (fun t o => applyChanged sql batchId generation t o) t
  let t ← delta.deleted.foldlM (fun t uri => applyDeleted sql batchId generation t uri) t
  applyMetadataRefresh sql t delta.metadataRefreshed

def closing (t : Transaction) : Except Failure (Transaction × ℤ) :=
  let result := do
    let (db, revision) ← upsertSourceIndexState sql workspaceId generation t.db
      t.frontier.sourceStateDigest
    let db ← sql.execute db .commit
    pure (db, revision)
  match result with
  | .ok (db, revision) => .ok ({ t with db }, revision)
  | .error error => .error ⟨error, t.frontier⟩

end Apply

def Catalog.apply [Sha256] (sql : Sqlite) (db : Database) (workspaceId : String)
    (frontier : Frontier)
    (delta : Delta) (generation : ℤ) : Except Failure (Transaction × AppliedCatalog) := do
  let batchId := observationBatchId workspaceId generation
  let t ← Transaction.executeAll ⟨db, frontier⟩ (opening sql batchId db delta)
  let t ← Delta.applyUris sql workspaceId batchId generation t delta
  let (t, stateRevision) ← closing sql workspaceId generation t
  pure (t,
    { observationBatchId := batchId
      stateRevision
      sourceStateDigest := t.frontier.sourceStateDigest
      added := delta.added.length
      changed := delta.changed.length
      deleted := delta.deleted.length
      equivalent := delta.equivalentCount })

def Catalog.refreshMetadata [Sha256] (sql : Sqlite) (db : Database) (frontier : Frontier)
    (refreshed : List (String × String)) : Except Failure Transaction :=
  if refreshed.isEmpty then .ok ⟨db, frontier⟩
  else do
    let t ← Transaction.executeAll ⟨db, frontier⟩ (sql.execute db .begin)
    let t ← applyMetadataRefresh sql t refreshed
    t.executeAll (sql.execute t.db .commit)

end SourceFrontier
