import Urdira.IndexingCore.MerkleBucket
import Urdira.Lib.AssocMap
import Urdira.NativeCore.LogicalDigest

open ByteOrder MerkleBucket NativeCore

namespace SourceFrontier

structure FrontierEntry where
  artifactId : String
  artifactVersionId : String
  contentHash : String
  byteLength : ℕ
  metadataDigest : String
  artifactOrdinal : ℕ
  deriving DecidableEq, Repr

structure TombstoneEntry where
  artifactId : String
  artifactTombstoneId : String
  deriving DecidableEq, Repr

abbrev BucketIndexMap := ℕ → List (Digest32 × Digest32)

structure Frontier where
  present : List (String × FrontierEntry)
  absent : List (String × TombstoneEntry)
  presentTree : BucketedMerkleSet
  absentTree : BucketedMerkleSet
  presentBucketIndex : BucketIndexMap
  absentBucketIndex : BucketIndexMap
  nextOrdinal : ℕ

-- An early return leaves the caller with the frontier as it was mutated so far.
structure Failure where
  error : Fault
  frontier : Frontier

def hexValue (c : Char) : Option ℕ :=
  if '0' ≤ c ∧ c ≤ '9' then some (c.toNat - 48)
  else if 'a' ≤ c ∧ c ≤ 'f' then some (c.toNat - 87)
  else if 'A' ≤ c ∧ c ≤ 'F' then some (c.toNat - 55)
  else none

def decodeHex : List Char → Option Bytes
  | [] => some []
  | [_] => none
  | high :: low :: rest => do
    let h ← hexValue high
    let l ← hexValue low
    let bytes ← decodeHex rest
    pure (Fin.ofNat 256 (16 * h + l) :: bytes)

def decodeSha256Hex (value : String) : Except Fault Digest32 :=
  let malformed := Fault.error ("not a canonical sha256:<64 hex> digest: " ++ value)
  if "sha256:".toList.isPrefixOf value.toList then
    match decodeHex (value.toList.drop 7) with
    | some bytes => if h : bytes.length = 32 then .ok ⟨bytes, h⟩ else .error malformed
    | none => .error malformed
  else .error malformed

section Digests

variable [Sha256]

def sha256Bytes (value : String) : Digest32 := Sha256.digest (utf8 value)

def u64le (n : ℕ) : Bytes := ByteLayout.leBytes 8 n

def encodeSha256Hex (digest : Digest32) : String :=
  "sha256:" ++ String.ofList (digest.bytes.flatMap LogicalDigestWriter.hexByte)

def computeSourceStateDigest (present absent : BucketedMerkleSet) : String :=
  encodeSha256Hex (Sha256.digest (utf8 "urdira:source-state:v4\x00" ++
    u64le present.count ++ present.root.bytes ++ u64le absent.count ++ absent.root.bytes))

def changedBucket (index : BucketIndexMap) (change : Change) : List (Digest32 × Digest32) :=
  let kept := (index (bucketIndex change.key)).filter (fun e => decide (e.1 ≠ change.key))
  match change with
  | .set key logical => kept ++ [(key, logical)]
  | .delete _ => kept

def applyBucketChange (tree : BucketedMerkleSet) (index : BucketIndexMap) (change : Change) :
    BucketIndexMap × Except Fault BucketedMerkleSet :=
  let bucket := bucketIndex change.key
  let preChangeCount := (index bucket).length
  let snapshot := changedBucket index change
  (Function.update index bucket snapshot,
    tree.update [change] (fun _ => (preChangeCount, snapshot)))

def buildBucketIndex (entries : List (Digest32 × Digest32)) : BucketIndexMap :=
  fun bucket => entries.filter (fun e => decide (bucketIndex e.1 = bucket))

namespace Frontier

def empty : Frontier where
  present := []
  absent := []
  presentTree := .empty
  absentTree := .empty
  presentBucketIndex := fun _ => []
  absentBucketIndex := fun _ => []
  nextOrdinal := 0

def sourceStateDigest (f : Frontier) : String := computeSourceStateDigest f.presentTree f.absentTree

def presentEntries (present : List (String × FrontierEntry)) :
    Except Fault (List (Digest32 × Digest32)) :=
  present.mapM (fun e => do
    let logical ← decodeSha256Hex e.2.contentHash
    pure (sha256Bytes e.1, logical))

def absentEntries (absent : List (String × TombstoneEntry)) : List (Digest32 × Digest32) :=
  absent.map (fun e => (sha256Bytes e.1, sha256Bytes e.2.artifactTombstoneId))

def fromScratchDigest (f : Frontier) : Except Fault String := do
  let presentEntries ← presentEntries f.present
  let presentTree ← BucketedMerkleSet.fromSorted presentEntries
  let absentTree ← BucketedMerkleSet.fromSorted (absentEntries f.absent)
  pure (computeSourceStateDigest presentTree absentTree)

def changePresent (f : Frontier) (change : Change) : Except Failure Frontier :=
  let (index, result) := applyBucketChange f.presentTree f.presentBucketIndex change
  let f := { f with presentBucketIndex := index }
  match result with
  | .ok tree => .ok { f with presentTree := tree }
  | .error error => .error ⟨error, f⟩

def changeAbsent (f : Frontier) (change : Change) : Except Failure Frontier :=
  let (index, result) := applyBucketChange f.absentTree f.absentBucketIndex change
  let f := { f with absentBucketIndex := index }
  match result with
  | .ok tree => .ok { f with absentTree := tree }
  | .error error => .error ⟨error, f⟩

def setPresent (f : Frontier) (uri : String) (entry : FrontierEntry) : Except Failure Frontier :=
  let key := sha256Bytes uri
  match decodeSha256Hex entry.contentHash with
  | .error error => .error ⟨error, f⟩
  | .ok logical => do
    let f := { f with present := AssocMap.insert f.present uri entry }
    let f ← f.changePresent (.set key logical)
    if (AssocMap.get f.absent uri).isSome then
      changeAbsent { f with absent := AssocMap.erase f.absent uri } (.delete key)
    else .ok f

def setAbsent (f : Frontier) (uri : String) (tombstone : TombstoneEntry) :
    Except Failure Frontier := do
  let key := sha256Bytes uri
  let logical := sha256Bytes tombstone.artifactTombstoneId
  let f := { f with absent := AssocMap.insert f.absent uri tombstone }
  let f ← f.changeAbsent (.set key logical)
  if (AssocMap.get f.present uri).isSome then
    changePresent { f with present := AssocMap.erase f.present uri } (.delete key)
  else .ok f

end Frontier

end Digests

end SourceFrontier
