import Urdira.IndexingCore.MerkleBucketUpdate
import Urdira.Lib.AssocMap

open ByteOrder KeyedSet MerkleBucket

namespace Canonical

abbrev JsString := List Char

abbrev Hex := List (Fin 16)

def hexDigit (c : Char) : Option (Fin 16) :=
  if '0' ≤ c ∧ c ≤ '9' then some (Fin.ofNat 16 (c.toNat - 48))
  else if 'a' ≤ c ∧ c ≤ 'f' then some (Fin.ofNat 16 (c.toNat - 87))
  else if 'A' ≤ c ∧ c ≤ 'F' then some (Fin.ofNat 16 (c.toNat - 55))
  else none

def hexBytes : Hex → Bytes
  | high :: low :: rest => Fin.ofNat 256 (high.val * 16 + low.val) :: hexBytes rest
  | _ => []

def typeError : Fault := .error "Merkle bucket keys and values must be sha256 digests."

def conflictTypeError : Fault :=
  .error "Merkle bucket duplicate member has conflicting logical digests."

def digestBytes (value : JsString) : Except Fault Digest32 :=
  let hex := if "sha256:".toList.isPrefixOf value then value.drop 7 else value
  match hex.mapM hexDigit with
  | some digits =>
    if h : (hexBytes digits).length = 32 ∧ digits.length = 64 then .ok ⟨hexBytes digits, h.1⟩
    else .error typeError
  | none => .error typeError

def nibbles (bytes : Bytes) : Hex :=
  bytes.flatMap (fun b => [Fin.ofNat 16 (b.val / 16), Fin.ofNat 16 b.val])

def keyHex (value : JsString) : Except Fault Hex :=
  (digestBytes value).map (fun d => nibbles d.bytes)

structure Logical where
  text : JsString
  bytes : Digest32
  parsed : digestBytes text = .ok bytes

def Logical.parse (text : JsString) : Except Fault Logical :=
  match h : digestBytes text with
  | .ok bytes => .ok ⟨text, bytes, h⟩
  | .error fault => .error fault

def bucketNibbles : ℕ := 5

structure BucketedMerkleSet where
  membersByBucket : List (Hex × List (Hex × Logical))
  bucketDigest : List (Hex × Digest32)
  nodeDigest : List (Hex × Digest32)
  count : ℕ

def domainLeafset : Bytes := utf8 "urdira:merkle-bucket:leafset\x00"

def domainNode : Bytes := utf8 "urdira:merkle-bucket:node\x00"

structure Entry where
  memberDigest : JsString
  logicalDigest : JsString
  deriving DecidableEq

section Digests

variable [Sha256]

def nodeHash (depth : ℕ) (children : Fin 16 → Digest32) : Digest32 :=
  Sha256.digest (domainNode ++ [Fin.ofNat 256 depth] ++ (List.ofFn children).flatMap Block.bytes)

def computeEmptySubtreeDigests : List (ℕ × Digest32) :=
  ([4, 3, 2, 1, 0].foldl (fun (table : List (ℕ × Digest32) × Digest32) depth =>
    let value := nodeHash depth (fun _ => table.2)
    ((depth, value) :: table.1, value)) ([], zero)).1

def emptyNodeDigest (depth : ℕ) : Digest32 :=
  (AssocMap.get computeEmptySubtreeDigests depth).getD zero

def computeBucketDigest (members : List (Hex × Logical)) : Digest32 :=
  let keys := sortOn id (members.map Prod.fst)
  Sha256.digest (domainLeafset ++ u32le keys.length ++ keys.flatMap (fun key =>
    hexBytes key ++ ((AssocMap.get members key).map (fun logical => logical.bytes.bytes)).getD []))

def computeNode (bucketDigest nodeDigest : List (Hex × Digest32)) (depth : ℕ) (path : Hex) :
    Digest32 :=
  nodeHash depth (fun digit =>
    let child := path ++ [digit]
    if depth = 4 then (AssocMap.get bucketDigest child).getD zero
    else (AssocMap.get nodeDigest child).getD (emptyNodeDigest (depth + 1)))

def computeLevel (bucketDigest : List (Hex × Digest32)) (prefixes : List Hex)
    (nodeDigest : List (Hex × Digest32)) (depth : ℕ) : List (Hex × Digest32) :=
  (prefixes.map (fun path => path.take depth)).dedup.foldl (fun nodes path =>
    AssocMap.insert nodes path (computeNode bucketDigest nodes depth path)) nodeDigest

def computeLevels (bucketDigest : List (Hex × Digest32)) (prefixes : List Hex) :
    List (Hex × Digest32) :=
  [4, 3, 2, 1, 0].foldl (computeLevel bucketDigest prefixes) []

namespace BucketedMerkleSet

omit [Sha256] in
def empty : BucketedMerkleSet := ⟨[], [], [], 0⟩

def recompute (set : BucketedMerkleSet) (bucketPath : Hex) : BucketedMerkleSet :=
  let bucketDigest := match AssocMap.get set.membersByBucket bucketPath with
    | some bucket =>
      if bucket.isEmpty then AssocMap.erase set.bucketDigest bucketPath
      else AssocMap.insert set.bucketDigest bucketPath (computeBucketDigest bucket)
    | none => AssocMap.erase set.bucketDigest bucketPath
  { set with
    bucketDigest := bucketDigest
    nodeDigest := [4, 3, 2, 1, 0].foldl (fun nodes depth =>
      AssocMap.insert nodes (bucketPath.take depth)
        (computeNode bucketDigest nodes depth (bucketPath.take depth))) set.nodeDigest }

omit [Sha256] in
def readEntry (logicalByKey : List (Hex × Logical)) (entry : Entry) :
    Except Fault (List (Hex × Logical)) := do
  let key ← keyHex entry.memberDigest
  let logical ← Logical.parse entry.logicalDigest
  match AssocMap.get logicalByKey key with
  | some previous =>
    if previous.text ≠ logical.text then .error conflictTypeError
    else .ok (AssocMap.insert logicalByKey key logical)
  | none => .ok (AssocMap.insert logicalByKey key logical)

omit [Sha256] in
def addMember (membersByBucket : List (Hex × List (Hex × Logical))) (member : Hex × Logical) :
    List (Hex × List (Hex × Logical)) :=
  let bucketPath := member.1.take bucketNibbles
  AssocMap.insert membersByBucket bucketPath
    (AssocMap.insert ((AssocMap.get membersByBucket bucketPath).getD []) member.1 member.2)

def fromSorted (entries : List Entry) : Except Fault BucketedMerkleSet := do
  let logicalByKey ← entries.foldlM readEntry []
  let membersByBucket := logicalByKey.foldl addMember []
  let bucketDigest := membersByBucket.map (fun bucket => (bucket.1, computeBucketDigest bucket.2))
  .ok
    { membersByBucket := membersByBucket
      bucketDigest := bucketDigest
      nodeDigest := computeLevels bucketDigest (membersByBucket.map Prod.fst)
      count := logicalByKey.length }

def set (self : BucketedMerkleSet) (memberDigest logicalDigest : JsString) :
    Except Fault BucketedMerkleSet := do
  let key ← keyHex memberDigest
  let logical ← Logical.parse logicalDigest
  let bucketPath := key.take bucketNibbles
  let bucket := AssocMap.get self.membersByBucket bucketPath
  match bucket.bind (fun bucket => AssocMap.get bucket key) with
  | some existing => if existing.text ≠ logicalDigest then .error conflictTypeError else .ok self
  | none =>
    .ok (recompute
      { self with
        membersByBucket := AssocMap.insert self.membersByBucket bucketPath
          (AssocMap.insert (bucket.getD []) key logical)
        count := self.count + 1 } bucketPath)

def delete (self : BucketedMerkleSet) (memberDigest : JsString) :
    Except Fault BucketedMerkleSet := do
  let key ← keyHex memberDigest
  let bucketPath := key.take bucketNibbles
  match AssocMap.get self.membersByBucket bucketPath with
  | none => .ok self
  | some bucket =>
    match AssocMap.get bucket key with
    | none => .ok self
    | some _ =>
      let rest := AssocMap.erase bucket key
      .ok (recompute
        { self with
          membersByBucket :=
            if rest.isEmpty then AssocMap.erase self.membersByBucket bucketPath
            else AssocMap.insert self.membersByBucket bucketPath rest
          count := self.count - 1 } bucketPath)

def root (self : BucketedMerkleSet) : Digest32 :=
  if self.count = 0 then zero else (AssocMap.get self.nodeDigest []).getD (emptyNodeDigest 0)

omit [Sha256] in
def bucketDigests (self : BucketedMerkleSet) : List (Hex × Digest32) := self.bucketDigest

end BucketedMerkleSet

def prefixError : Fault := .error "Bucket prefix must be exactly 5 lowercase hex nibbles"

def rootFromBucketDigests (buckets : List (Hex × Digest32)) : Except Fault Digest32 :=
  if buckets.isEmpty then .ok zero
  else if buckets.all (fun bucket => decide (bucket.1.length = bucketNibbles)) then
    .ok ((AssocMap.get (computeLevels buckets (buckets.map Prod.fst)) []).getD (emptyNodeDigest 0))
  else .error prefixError

end Digests

end Canonical
