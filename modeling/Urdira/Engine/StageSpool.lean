import Urdira.Engine.StageSetHandle
import Urdira.Lib.AssocMap
import Urdira.Lib.ExceptOk
import Urdira.Lib.RowLedger

open ByteOrder Canonical MerkleBucket RowLedger TextCodec Utf16

namespace Engine

namespace Spool

open LogicalEncoding

def payloadBytes (item : QueryStreamItem) : Bytes := (payloadOf item).toOption.getD []

def itemSize (item : QueryStreamItem) : ℕ := (payloadBytes item).length

structure Values where
  items : List QueryStreamItem
  throws : Bool

inductive SpoolError where
  | range
  | encoding (fault : CanonicalEncodingError)
  | hardLimit (hardBytes : ℤ)
  | values
  | logical (message : String)
  | radix (fault : Fault)
  | constraint
  | database

structure StageSpoolLimits where
  spillBytes : Option ℤ
  hardBytes : Option ℤ

structure Limits where
  spillBytes : ℤ
  hardBytes : ℤ

def defaultSpillBytes : ℤ := 256 * 1024 * 1024

def defaultHardBytes : ℤ := 1024 * 1024 * 1024

def isSafeInteger (n : ℤ) : Bool := decide (n.natAbs < 2 ^ 53)

def checkedLimits (limits : StageSpoolLimits) : Except SpoolError Limits :=
  let spill := limits.spillBytes.getD defaultSpillBytes
  let hard := limits.hardBytes.getD defaultHardBytes
  let effectiveSpill := if limits.spillBytes.isNone && decide (hard < spill) then hard else spill
  if !isSafeInteger effectiveSpill || decide (effectiveSpill ≤ 0) || !isSafeInteger hard ||
    decide (hard < effectiveSpill)
  then .error .range
  else .ok ⟨effectiveSpill, hard⟩

def collect (hardBytes room : ℤ) : ℤ → List QueryStreamItem → Except SpoolError ℤ
  | bytes, [] => .ok bytes
  | bytes, item :: items =>
    match payloadOf item with
    | .error fault => .error (.encoding fault)
    | .ok payload =>
      if room < bytes + payload.length then .error (.hardLimit hardBytes)
      else collect hardBytes room (bytes + payload.length) items

def consumed (hardBytes room : ℤ) (values : Values) : Except SpoolError ℤ := do
  let bytes ← collect hardBytes room 0 values.items
  if values.throws then .error .values else .ok bytes

section Digests

variable [Sha256] [LocaleCompare]

def setMember (tree : MerkleRadixSet) (item : QueryStreamItem) :
    Except SpoolError MerkleRadixSet := do
  let key ← (memberKey item).mapError .logical
  let logical ← (memberDigest item).mapError .logical
  (tree.set key logical).mapError .radix

def collectMembers (hardBytes room : ℤ) :
    ℤ → MerkleRadixSet → List QueryStreamItem → Except SpoolError (ℤ × MerkleRadixSet)
  | bytes, tree, [] => .ok (bytes, tree)
  | bytes, tree, item :: items =>
    match payloadOf item with
    | .error fault => .error (.encoding fault)
    | .ok payload =>
      if room < bytes + payload.length then .error (.hardLimit hardBytes)
      else do
        let tree ← setMember tree item
        collectMembers hardBytes room (bytes + payload.length) tree items

def consumedMembers (hardBytes room : ℤ) (values : Values) :
    Except SpoolError (ℤ × MerkleRadixSet) := do
  let collected ← collectMembers hardBytes room 0 .empty values.items
  if values.throws then .error .values else .ok collected

end Digests

structure MemoryStageSpool where
  rows : List (Text × List QueryStreamItem)
  limits : Limits
  used : ℤ

namespace MemoryStageSpool

def keyOf (c : Coordinates) : Text := c.executionId ++ 0 :: (c.stageId ++ 0 :: c.output)

section Digests

variable [Sha256] [LocaleCompare]

def putIterable (spool : MemoryStageSpool) (c : Coordinates) (values : Values) :
    MemoryStageSpool × Except SpoolError StageSetHandle :=
  match consumed spool.limits.hardBytes (spool.limits.hardBytes - spool.used) values with
  | .error fault => (spool, .error fault)
  | .ok bytes =>
    ({ spool with
      rows := AssocMap.insert spool.rows (keyOf c) values.items, used := spool.used + bytes },
      (stageSetHandle c values.items .declared).mapError .logical)

def put (spool : MemoryStageSpool) (c : Coordinates) (items : List QueryStreamItem) :
    MemoryStageSpool × Except SpoolError StageSetHandle := spool.putIterable c ⟨items, false⟩

end Digests

def releases (executionId : Text) (key : Text) : Bool := (executionId ++ [0]).isPrefixOf key

def cleanup (spool : MemoryStageSpool) (executionId : Text) : MemoryStageSpool :=
  let released := spool.rows.filter (fun entry => releases executionId entry.1)
  { spool with
    rows := spool.rows.filter (fun entry => !releases executionId entry.1)
    used := spool.used - ((released.map (fun entry => (entry.2.map itemSize).sum)).sum : ℕ) }

end MemoryStageSpool

structure Row where
  executionId : Bytes
  stageId : Bytes
  output : Bytes
  ordinal : ℕ
  stableSortKey : Bytes
  payload : Bytes

structure SqliteStageSpool where
  rows : List Row
  limits : Limits
  used : ℤ

-- Which of the database's own writes fail.
structure Database where
  transactionFails : Bool
  deleteFails : Bool

namespace SqliteStageSpool

abbrev StoredKey := Bytes × Bytes × Bytes

def storedKey (c : Coordinates) : StoredKey :=
  (encodeUtf8 c.executionId, encodeUtf8 c.stageId, encodeUtf8 c.output)

def rowKey (row : Row) : StoredKey := (row.executionId, row.stageId, row.output)

def rowOf (c : Coordinates) (ordinal : ℕ) (item : QueryStreamItem) : Row where
  executionId := encodeUtf8 c.executionId
  stageId := encodeUtf8 c.stageId
  output := encodeUtf8 c.output
  ordinal := ordinal
  stableSortKey := encodeUtf8 item.stableSortKey
  payload := payloadBytes item

def rowsFrom (c : Coordinates) : ℕ → List QueryStreamItem → List Row
  | _, [] => []
  | ordinal, item :: items => rowOf c ordinal item :: rowsFrom c (ordinal + 1) items

def conflicts (rows : List Row) (row : Row) : Bool :=
  rows.any (fun other => decide (rowKey other = rowKey row ∧ other.ordinal = row.ordinal))

def insertRows : List Row → List Row → Except SpoolError (List Row)
  | rows, [] => .ok rows
  | rows, row :: more => if conflicts rows row then .error .constraint
    else insertRows (rows ++ [row]) more

def deleteStage (rows : List Row) (c : Coordinates) : List Row :=
  rows.filter (fun row => !decide (rowKey row = storedKey c))

section Digests

variable [Sha256] [LocaleCompare]

-- One transaction for all the commands: every failure, of the values or of the database, rolls all
-- of it back.
def transaction (spool : SqliteStageSpool) (c : Coordinates) (values : Values)
    (database : Database) :
    Except SpoolError (List Row × ℤ × MerkleRadixSet) := do
  let collected ← consumedMembers spool.limits.hardBytes
    (spool.limits.hardBytes - spool.used) values
  let rows ← insertRows spool.rows (rowsFrom c 0 values.items)
  if database.transactionFails then .error .database else .ok (rows, collected)

def putIterable (spool : SqliteStageSpool) (c : Coordinates) (values : Values)
    (database : Database) :
    SqliteStageSpool × Except SpoolError StageSetHandle :=
  match spool.transaction c values database with
  | .error fault =>
    ({ spool with rows := if database.deleteFails then spool.rows else deleteStage spool.rows c },
      .error fault)
  | .ok (rows, bytes, tree) =>
    ({ spool with rows, used := spool.used + bytes },
      .ok (stageSetHandleMetadata c values.items.length (sha256Text (nibbles tree.root.bytes))
        .declared .paged))

def put (spool : SqliteStageSpool) (c : Coordinates) (items : List QueryStreamItem)
    (database : Database) :
    SqliteStageSpool × Except SpoolError StageSetHandle :=
  spool.putIterable c ⟨items, false⟩ database

end Digests

def cleanup (spool : SqliteStageSpool) (executionId : Text) (database : Database) :
    SqliteStageSpool × Except SpoolError Unit :=
  if database.deleteFails then (spool, .error .database)
  else
    ({ spool with
        rows := spool.rows.filter (fun row => !decide (row.executionId = encodeUtf8 executionId))
        used := 0 }, .ok ())

end SqliteStageSpool

inductive StageSpool where
  | memory (spool : MemoryStageSpool)
  | sqlite (spool : SqliteStageSpool)

inductive Call where
  | put (c : Coordinates) (items : List QueryStreamItem)
  | putIterable (c : Coordinates) (values : Values)
  | cleanup (executionId : Text)

namespace StageSpool

def openMemory (limits : StageSpoolLimits) : Except SpoolError StageSpool := do
  let limits ← checkedLimits limits
  .ok (.memory ⟨[], limits, 0⟩)

def openSqlite (limits : StageSpoolLimits) : Except SpoolError StageSpool := do
  let limits ← checkedLimits limits
  .ok (.sqlite ⟨[], limits, 0⟩)

def bytes : StageSpool → ℤ
  | .memory spool => spool.used
  | .sqlite spool => spool.used

def hardBytes : StageSpool → ℤ
  | .memory spool => spool.limits.hardBytes
  | .sqlite spool => spool.limits.hardBytes

def step [Sha256] [LocaleCompare] :
    StageSpool → Call → Database → StageSpool × Except SpoolError (Option StageSetHandle)
  | .memory spool, .put c items, _ => (spool.put c items).map .memory (Except.map some)
  | .memory spool, .putIterable c values, _ =>
      (spool.putIterable c values).map .memory (Except.map some)
  | .memory spool, .cleanup executionId, _ => (.memory (spool.cleanup executionId), .ok none)
  | .sqlite spool, .put c items, database =>
      (spool.put c items database).map .sqlite (Except.map some)
  | .sqlite spool, .putIterable c values, database =>
    (spool.putIterable c values database).map .sqlite (Except.map some)
  | .sqlite spool, .cleanup executionId, database =>
    (spool.cleanup executionId database).map .sqlite (Except.map (fun _ => none))

end StageSpool

end Spool

end Engine
