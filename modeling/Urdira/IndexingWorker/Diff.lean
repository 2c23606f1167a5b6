import Urdira.StructuralStore.StoreRun

open ByteOrder KeyedSet MerkleBucket StructuralStore

namespace IndexingWorker

def chainedRecordId [Sha256] (recordDigest predecessorRecordId : Digest32) : Digest32 :=
  Sha256.digest (utf8 "urdira:v4-record-chain:v1\x00" ++ recordDigest.bytes ++
    predecessorRecordId.bytes)

inductive Outcome where
  | unchanged (view : StoredRow)
  | replacement (view : StoredRow)
  | migration (last : StoredRow)
  | reopen (last : StoredRow)
  | firstOccurrence

def outcomeOf (prev : List StoredRow) (store : StoreReader) (generation : ℕ) (row : RecordRow) :
    Outcome :=
  match prev.find? (fun view => decide (view.identityKeyDigest = row.identityKeyDigest)) with
  | some view => if view.recordDigest = row.recordDigest then .unchanged view else .replacement view
  | none =>
    match store.byIdentityLast row.identityKeyDigest with
    | some last => if store.isVisible last (generation - 1) then .migration last else .reopen last
    | none => .firstOccurrence

section Diff

variable [Sha256]

def chainRow (row : RecordRow) (predecessor : Digest32) (generation : ℕ) : RecordRow :=
  { row with
    recordId := chainedRecordId row.recordDigest predecessor
    previousRecordId := predecessor
    validFrom := generation }

namespace Outcome

def opened (row : RecordRow) (generation : ℕ) : Outcome → List RecordRow
  | .unchanged _ => []
  | .replacement view => [chainRow row view.recordId generation]
  | .migration last => [chainRow row last.recordId generation]
  | .reopen last => [chainRow row last.recordId generation]
  | .firstOccurrence => [{ row with validFrom := generation }]

omit [Sha256] in
def closed : Outcome → List StoredRow
  | .replacement view => [view]
  | .migration last => [last]
  | _ => []

omit [Sha256] in
def matched : Outcome → List Digest32
  | .unchanged view => [view.recordId]
  | .replacement view => [view.recordId]
  | _ => []

def finalId (row : RecordRow) : Outcome → Option Digest32
  | .unchanged view => some view.recordId
  | .replacement view => some (chainedRecordId row.recordDigest view.recordId)
  | .migration last => some (chainedRecordId row.recordDigest last.recordId)
  | .reopen last => some (chainedRecordId row.recordDigest last.recordId)
  | .firstOccurrence => none

end Outcome

structure OwnerDiff where
  opened : List RecordRow
  recordClosures : List (Digest32 × ℕ)
  closedRelationKeys : List Digest32
  kernelToFinal : List (Digest32 × Digest32)

omit [Sha256] in
def closedRows (prev : List StoredRow) (next : List RecordRow) (store : StoreReader)
    (generation : ℕ) :
    List StoredRow :=
  let matched := next.flatMap (fun row => (outcomeOf prev store generation row).matched)
  next.flatMap (fun row => (outcomeOf prev store generation row).closed) ++
    prev.filter (fun view => decide (view.recordId ∉ matched))

omit [Sha256] in
def relationKeys (rows : List StoredRow) : List Digest32 :=
  (rows.filter (fun view => decide (view.category = .relation))).map (fun view => view.recordId)

def diffOwner (prev : List StoredRow) (next : List RecordRow) (store : StoreReader)
    (generation : ℕ) :
    OwnerDiff where
  opened := next.flatMap (fun row => (outcomeOf prev store generation row).opened row generation)
  recordClosures :=
    (closedRows prev next store generation).map (fun view => (view.recordId, generation))
  closedRelationKeys := relationKeys (closedRows prev next store generation)
  kernelToFinal := next.filterMap (fun row =>
    ((outcomeOf prev store generation row).finalId row).map (fun id => (row.recordId, id)))

end Diff

end IndexingWorker
