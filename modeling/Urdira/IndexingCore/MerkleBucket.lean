import Urdira.Lib.ByteOrder
import Urdira.Lib.KeyedSet

open ByteOrder KeyedSet

namespace MerkleBucket

abbrev Digest32 := Block 32

instance lawfulDigest32 : LawfulBEq Digest32 := Block.lawfulBlock

class Sha256 where
  digest : Bytes → Digest32

inductive Fault where
  | error (message : String)
  | panic (message : String)
  deriving DecidableEq, Repr

def bucketCount : ℕ := 1 <<< (4 * 5)

def levelSlotOffset : ℕ → ℕ
  | 0 => 0
  | 1 => 1
  | 2 => 17
  | 3 => 273
  | 4 => 4369
  | _ => 69905

def domainLeafset : Bytes := utf8 "urdira:merkle-bucket:leafset\x00"

def domainNode : Bytes := utf8 "urdira:merkle-bucket:node\x00"

def zero : Digest32 := Block.fill 32 0

inductive SetKind where
  | records
  | graph
  | dependency
  | metric
  | sourceState
  deriving DecidableEq, Repr

inductive Change where
  | set (key logical : Digest32)
  | delete (key : Digest32)
  deriving DecidableEq

def Change.key : Change → Digest32
  | .set key _ => key
  | .delete key => key

def conflictError : Fault :=
  .error "merkle bucket: duplicate member has conflicting logical digests"

def u32le (n : ℕ) : Bytes :=
  [Fin.ofNat 256 n, Fin.ofNat 256 (n / 256), Fin.ofNat 256 (n / 256 ^ 2),
    Fin.ofNat 256 (n / 256 ^ 3)]

def bucketIndex (key : Digest32) : ℕ :=
  ((key.get 0).val <<< 12) ||| ((key.get 1).val <<< 4) ||| ((key.get 2).val >>> 4)

def localBucketIndex (key : Digest32) : ℕ := bucketIndex key &&& 0xFFFF

def topNibble (key : Digest32) : ℕ := (key.get 0).val >>> 4

section Digests

variable [Sha256]

def nodeDigest (depth : ℕ) (children : Fin 16 → Digest32) : Digest32 :=
  Sha256.digest (domainNode ++ [Fin.ofNat 256 depth] ++ (List.ofFn children).flatMap Block.bytes)

def bucketDigest (entries : List (Digest32 × Digest32)) : Digest32 :=
  if entries.isEmpty then zero
  else
    Sha256.digest (domainLeafset ++ u32le entries.length ++
      entries.flatMap (fun e => e.1.bytes ++ e.2.bytes))

def emptyNodeAbove : ℕ → Digest32
  | 0 => nodeDigest 4 (fun _ => zero)
  | k + 1 => nodeDigest (3 - k) (fun _ => emptyNodeAbove k)

def emptyNodeDigests (depth : ℕ) : Digest32 := emptyNodeAbove (4 - depth)

end Digests

structure BucketedMerkleSet where
  nodeLevels : ℕ → ℕ → Digest32
  bucketLevel : ℕ → Digest32
  bucketCount : ℕ → ℕ
  count : ℕ

namespace BucketedMerkleSet

variable [Sha256]

def empty : BucketedMerkleSet where
  nodeLevels := fun depth _ => emptyNodeDigests depth
  bucketLevel := fun _ => zero
  bucketCount := fun _ => 0
  count := 0

structure NibbleSubtree where
  bucketChunk : ℕ → Digest32
  countChunk : ℕ → ℕ
  node4 : ℕ → Digest32
  node3 : ℕ → Digest32
  node2 : ℕ → Digest32
  node1 : Digest32

def buildTopNibbleSubtree (entries : List (Digest32 × Digest32)) : NibbleSubtree :=
  let groups := runs (fun e => localBucketIndex e.1) entries
  let bucketChunk := fillRuns bucketDigest (fun _ => zero) groups
  let countChunk := fillRuns List.length (fun _ => 0) groups
  let node4 := fun idx => nodeDigest 4 (fun digit => bucketChunk (idx * 16 + digit))
  let node3 := fun idx => nodeDigest 3 (fun digit => node4 (idx * 16 + digit))
  let node2 := fun idx => nodeDigest 2 (fun digit => node3 (idx * 16 + digit))
  { bucketChunk, countChunk, node4, node3, node2, node1 := nodeDigest 1 (fun digit => node2 digit) }

def nibbleSlice (sorted : List (Digest32 × Digest32)) (nibble : ℕ) : List (Digest32 × Digest32) :=
  (sorted.dropWhile (fun e => decide (topNibble e.1 < nibble))).takeWhile
    (fun e => decide (topNibble e.1 < nibble + 1))

def fromSorted (entries : List (Digest32 × Digest32)) : Except Fault BucketedMerkleSet :=
  let sorted := sortOn Prod.fst entries
  if hasConflict sorted then .error conflictError
  else
    let sorted := dedupOn Prod.fst sorted
    let subtree := fun nibble => buildTopNibbleSubtree (nibbleSlice sorted nibble)
    .ok
      { nodeLevels := fun depth idx =>
          match depth with
          | 0 => nodeDigest 0 (fun digit => (subtree digit).node1)
          | 1 => (subtree idx).node1
          | 2 => (subtree (idx / 16)).node2 (idx % 16)
          | 3 => (subtree (idx / 256)).node3 (idx % 256)
          | 4 => (subtree (idx / 4096)).node4 (idx % 4096)
          | _ => zero
        bucketLevel := fun idx => (subtree (idx / 65536)).bucketChunk (idx % 65536)
        bucketCount := fun idx => (subtree (idx / 65536)).countChunk (idx % 65536)
        count := sorted.length }

def childLevel (set : BucketedMerkleSet) (depth : ℕ) (idx : ℕ) : Digest32 :=
  if depth = 4 then set.bucketLevel idx else set.nodeLevels (depth + 1) idx

def parentIndex (bucketIdx depth : ℕ) : ℕ := bucketIdx >>> (4 * (5 - depth))

def recomputeNode (set : BucketedMerkleSet) (bucketIdx depth : ℕ) : BucketedMerkleSet :=
  let parent := parentIndex bucketIdx depth
  let value := nodeDigest depth (fun digit => set.childLevel depth (parent * 16 + digit))
  { set with
    nodeLevels :=
      Function.update set.nodeLevels depth (Function.update (set.nodeLevels depth) parent value) }

def recomputeAncestors (set : BucketedMerkleSet) (bucketIdx : ℕ) : BucketedMerkleSet :=
  [4, 3, 2, 1, 0].foldl (fun t depth => t.recomputeNode bucketIdx depth) set

def checkIntended : List Change → List (Digest32 × Digest32) → Except Fault Unit
  | [], _ => .ok ()
  | .delete _ :: changes, intended => checkIntended changes intended
  | .set key logical :: changes, intended =>
    match intended.lookup key with
    | some previous =>
      if previous ≠ logical then .error conflictError else checkIntended changes intended
    | none => checkIntended changes ((key, logical) :: intended)

def touchedBuckets (changes : List Change) : List ℕ :=
  canonOn id (changes.map (fun change => bucketIndex change.key))

def updateBucket (set : BucketedMerkleSet) (bucketIdx oldCount : ℕ)
    (entries : List (Digest32 × Digest32)) : Except Fault BucketedMerkleSet :=
  let bucket := sortOn Prod.fst entries
  if hasConflict bucket then .error conflictError
  else if set.count < oldCount then .error (.panic "attempt to subtract with overflow")
  else
    let bucket := dedupOn Prod.fst bucket
    .ok (recomputeAncestors
      { set with
        count := set.count - oldCount + bucket.length
        bucketCount := Function.update set.bucketCount bucketIdx bucket.length
        bucketLevel := Function.update set.bucketLevel bucketIdx (bucketDigest bucket) } bucketIdx)

def update (set : BucketedMerkleSet) (changes : List Change)
    (bucketEntries : ℕ → ℕ × List (Digest32 × Digest32)) : Except Fault BucketedMerkleSet := do
  checkIntended changes []
  (touchedBuckets changes).foldlM
    (fun t idx => t.updateBucket idx (bucketEntries idx).1 (bucketEntries idx).2) set

omit [Sha256] in
def root (set : BucketedMerkleSet) : Digest32 :=
  if set.count = 0 then zero else set.nodeLevels 0 0

end BucketedMerkleSet

structure TreeFile where
  kind : SetKind
  generation : ℕ
  count : ℕ
  root : Digest32
  nodeLevels : ℕ → ℕ → Digest32
  bucketLevel : ℕ → Digest32

inductive TreeWrite where
  | node (depth idx : ℕ) (value : Digest32)
  | bucket (idx : ℕ) (value : Digest32)
  | header (kind : SetKind) (generation count : ℕ) (root : Digest32)

namespace TreeFile

def apply (file : TreeFile) : TreeWrite → TreeFile
  | .node depth idx value =>
    { file with
      nodeLevels :=
        Function.update file.nodeLevels depth (Function.update (file.nodeLevels depth) idx value) }
  | .bucket idx value => { file with bucketLevel := Function.update file.bucketLevel idx value }
  | .header kind generation count root => { file with kind, generation, count, root }

end TreeFile

namespace BucketedMerkleSet

def writeTo (set : BucketedMerkleSet) (kind : SetKind) (generation : ℕ) : TreeFile where
  kind := kind
  generation := generation
  count := set.count
  root := set.root
  nodeLevels := set.nodeLevels
  bucketLevel := set.bucketLevel

def readFrom (file : TreeFile) : BucketedMerkleSet × SetKind × ℕ :=
  ({ nodeLevels := file.nodeLevels
     bucketLevel := file.bucketLevel
     bucketCount := fun _ => 0
     count := file.count }, file.kind, file.generation)

def slotByteOffset (slot : ℕ × ℕ) : ℕ := (levelSlotOffset slot.1 + slot.2) * 32

def touchedSlots (bucketIdx : ℕ) : List (ℕ × ℕ) :=
  (5, bucketIdx) :: [4, 3, 2, 1, 0].map (fun depth => (depth, parentIndex bucketIdx depth))

def slotWrite (set : BucketedMerkleSet) (slot : ℕ × ℕ) : TreeWrite :=
  if slot.1 = 5 then .bucket slot.2 (set.bucketLevel slot.2)
  else .node slot.1 slot.2 (set.nodeLevels slot.1 slot.2)

def writeSlots (set : BucketedMerkleSet) (touched : List ℕ) (kind : SetKind) (generation : ℕ) :
    List TreeWrite :=
  (canonOn slotByteOffset (touched.flatMap touchedSlots)).map set.slotWrite ++
    [.header kind generation set.count set.root]

end BucketedMerkleSet

end MerkleBucket
