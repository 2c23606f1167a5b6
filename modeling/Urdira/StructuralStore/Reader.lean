import Urdira.StructuralStore.Segment
import Urdira.Lib.AssocMap
import Urdira.Lib.KWayMerge

open ByteOrder KeyedSet MerkleBucket BinarySearch LastIndex

namespace StructuralStore

structure Manifest where
  generation : ℕ
  base : ℕ
  deltas : List ℕ
  recordsRoot : Digest32
  dependencyRoot : Digest32
  dictGeneration : ℕ
  deriving DecidableEq

structure StoreReader where
  manifest : Manifest
  segments : List Segment
  dicts : Dictionaries
  recordClosures : List (Digest32 × ℕ)
  depClosures : List (Digest32 × ℕ)
  pendingClosures : List (PendingSiteKey × ℕ)

inductive Direction where
  | out
  | in
  deriving DecidableEq, Repr

def isVisibleAt (validFrom validTo generation : ℕ) : Bool :=
  decide (validFrom ≤ generation) && (decide (validTo = 0) || decide (generation < validTo))

def closureForRow (closures : List ℕ) (validFrom inlineValidTo : ℕ) : ℕ :=
  ((closures.filter (fun closedAt => decide (validFrom < closedAt))).min?).getD inlineValidTo

def closuresOf {K : Type} [DecidableEq K] (closures : List (K × ℕ)) (key : K) : List ℕ :=
  (closures.filter (fun c => decide (c.1 = key))).map Prod.snd

def bucketKeyBound (bucketIdx : ℕ) : Digest32 where
  bytes := Fin.ofNat 256 (bucketIdx >>> 12) :: Fin.ofNat 256 (bucketIdx >>> 4) ::
    Fin.ofNat 256 ((bucketIdx &&& 0xF) <<< 4) :: List.replicate 29 0
  size := by simp

def bucketKeyBounds (bucketIdx : ℕ) : Digest32 × Digest32 :=
  (bucketKeyBound bucketIdx,
    if bucketIdx + 1 < 1 <<< 20 then bucketKeyBound (bucketIdx + 1) else Block.fill 32 255)

def dependencyLogical [Sha256] (dependencyId : Digest32) : Digest32 :=
  Sha256.digest (utf8 "urdira:dependency-logical:v4\x00" ++ dependencyId.bytes)

def nextGeneration (generation : ℕ) : ℕ := min (generation % 4294967296 + 1) 4294967295

def Segment.identityCandidates (seg : Segment) (identityKeyDigest : Digest32) : List StoredRow :=
  (keyRange (fun e => (ofLex e).1) seg.byIdentity identityKeyDigest).filterMap
    (fun e => seg.rows[(ofLex e).2]?)

namespace StoreReader

def load (manifest : Manifest) (base : Segment) (deltas : List Segment) : StoreReader where
  manifest := manifest
  segments := (base :: deltas).reverse
  dicts := (base :: deltas).foldl (fun dicts seg => dicts.append seg.dict) Dictionaries.empty
  recordClosures := deltas.foldl (fun m seg => AssocMap.insertAll m seg.closuresRecords) []
  depClosures := deltas.flatMap Segment.closuresDeps
  pendingClosures := deltas.flatMap Segment.closuresPending

def generation (reader : StoreReader) : ℕ := reader.manifest.generation

def effectiveValidTo (reader : StoreReader) (recordId : Digest32) (inlineValidTo : ℕ) : ℕ :=
  (AssocMap.get reader.recordClosures recordId).getD inlineValidTo

def isVisible (reader : StoreReader) (row : StoredRow) (generation : ℕ) : Bool :=
  isVisibleAt row.validFrom (reader.effectiveValidTo row.recordId row.validTo) generation

def depEffectiveValidTo (reader : StoreReader) (dep : DependencyRow) : ℕ :=
  closureForRow (closuresOf reader.depClosures dep.dependencyId) dep.validFrom dep.validTo

def depIsVisible (reader : StoreReader) (dep : DependencyRow) (generation : ℕ) : Bool :=
  isVisibleAt dep.validFrom (reader.depEffectiveValidTo dep) generation

def pendingEffectiveValidTo (reader : StoreReader) (site : PendingSiteRow) : ℕ :=
  closureForRow (closuresOf reader.pendingClosures site.key) site.validFrom site.validTo

def pendingIsVisible (reader : StoreReader) (site : PendingSiteRow) (generation : ℕ) : Bool :=
  isVisibleAt site.validFrom (reader.pendingEffectiveValidTo site) generation

def get (reader : StoreReader) (key : Digest32) : Option StoredRow :=
  reader.segments.findSome? (fun seg => binarySearchExact (fun row => row.recordId) seg.rows key)

def getVisible (reader : StoreReader) (key : Digest32) (generation : ℕ) : Option StoredRow :=
  (reader.get key).filter (fun row => reader.isVisible row generation)

def quadRows (reader : StoreReader) (seg : Segment) (quads : List Quad) (generation : ℕ) :
    List StoredRow :=
  quads.filterMap (fun q =>
    (seg.rows[q.ordinal]?).filter (fun row =>
      isVisibleAt q.validFrom (reader.effectiveValidTo row.recordId q.validTo) generation))

def ordinalRows (reader : StoreReader) (seg : Segment) (ordinals : List ℕ) (generation : ℕ) :
    List StoredRow :=
  ordinals.filterMap (fun ord => (seg.rows[ord]?).filter
    (fun row => reader.isVisible row generation))

def byOwner (reader : StoreReader) (owner generation : ℕ) : List StoredRow :=
  reader.segments.flatMap (fun seg =>
    reader.quadRows seg (keyRange Quad.key seg.byOwner owner) generation)

def byName (reader : StoreReader) (nameId generation : ℕ) : List StoredRow :=
  reader.segments.flatMap (fun seg =>
    reader.ordinalRows seg
      ((keyRange (fun e => (ofLex e).1) seg.byName nameId).map (fun e => (ofLex e).2)) generation)

def entityByOwnerAndStart (reader : StoreReader) (owner start generation : ℕ) : Option StoredRow :=
  let candidates := reader.segments.zipIdx.flatMap (fun p =>
    (keyRange (fun e => (ofLex e).1) p.1.entitiesIndex (toLex (owner, start))).filterMap (fun e =>
      ((p.1.rows[(ofLex e).2]?).filter (fun row => reader.isVisible row generation)).map (fun row =>
        ((toLex (row.validFrom, toLex (reader.segments.length - p.2, (ofLex e).2)) : ℕ ×ₗ ℕ ×ₗ ℕ),
          row))))
  (candidates.argmax Prod.fst).map Prod.snd

def byKind (reader : StoreReader) (universalKindId : ℕ) (category : Category)
    (kindId generation : ℕ)
    (limit : ℕ) (afterKey : Option Digest32) : List StoredRow :=
  let candidates := reader.segments.flatMap (fun seg =>
    reader.ordinalRows seg
      ((keyRange (fun e => (ofLex e).1) seg.byKind (kindKey universalKindId category kindId)).map
        (fun e => (ofLex e).2)) generation)
  let candidates := sortOn (fun row => row.recordId) candidates
  let start :=
    match afterKey with
    | some key => partitionList (fun row => decide (row.recordId ≤ key)) candidates
    | none => 0
  (candidates.drop start).take limit

def byIdentityLast (reader : StoreReader) (identityKeyDigest : Digest32) : Option StoredRow :=
  (reader.segments.flatMap (fun seg => seg.identityCandidates identityKeyDigest)).argmax
    (fun row => row.validFrom)

def byIdentityKey (reader : StoreReader) (identityKeyDigest : Digest32) (generation : ℕ) :
    Option StoredRow :=
  ((reader.segments.flatMap (fun seg => seg.identityCandidates identityKeyDigest)).filter
    (fun row => reader.isVisible row generation)).argmax (fun row => row.validFrom)

def subjectOrdinal (reader : StoreReader) (subjectKey : Digest32) : Option ℕ :=
  lastIndexOf reader.dicts.subjects subjectKey

def adjacency (reader : StoreReader) (subjectKey : Digest32) (direction : Direction)
    (generation : ℕ) : List StoredRow :=
  match reader.subjectOrdinal subjectKey with
  | none => []
  | some subjectOrd =>
    reader.segments.flatMap (fun seg =>
      let quads := match direction with
        | .out => seg.adjOut
        | .in => seg.adjIn
      reader.quadRows seg (keyRange Quad.key quads subjectOrd) generation)

def depsByOwner (reader : StoreReader) (ownerArtifact generation : ℕ) : List DependencyRow :=
  reader.segments.flatMap (fun seg =>
    (seg.deps.filter (fun dep => decide (dep.ownerArtifact = ownerArtifact))).filter
      (fun dep => reader.depIsVisible dep generation))

def depsReverse (reader : StoreReader) (depArtifact generation : ℕ) : List DependencyRow :=
  reader.segments.flatMap (fun seg =>
    (keyRange (fun e => (ofLex e).1) seg.depsReverse depArtifact).filterMap (fun e =>
      (seg.deps[(ofLex e).2]?).filter (fun dep => reader.depIsVisible dep generation)))

def iterVisible (reader : StoreReader) (generation : ℕ) : List StoredRow :=
  (KWayMerge.mergeAll (fun row : StoredRow => row.recordId)
    (reader.segments.map Segment.rows)).filter
    (fun row => reader.isVisible row generation)

def iterVisibleDeps (reader : StoreReader) (generation : ℕ) : List DependencyRow :=
  reader.segments.flatMap (fun seg =>
    seg.deps.filter (fun dep => reader.depIsVisible dep generation))

def pendingSitesByOwner (reader : StoreReader) (ownerArtifact generation : ℕ) :
    List PendingSiteRow :=
  sortOn PendingSiteRow.key (reader.segments.flatMap (fun seg =>
    (keyRange PendingSiteRow.ownerArtifact seg.pending ownerArtifact).filter
      (fun site => reader.pendingIsVisible site generation)))

def iterVisiblePendingSites (reader : StoreReader) (generation : ℕ) : List PendingSiteRow :=
  sortOn PendingSiteRow.key (reader.segments.flatMap (fun seg =>
    seg.pending.filter (fun site => reader.pendingIsVisible site generation)))

def pendingSitesVisibleCount (reader : StoreReader) (generation : ℕ) : ℕ :=
  (reader.iterVisiblePendingSites generation).length

def visibleEntriesInBucket (reader : StoreReader) (bucketIdx generation : ℕ) :
    List (Digest32 × Digest32) :=
  let bounds := bucketKeyBounds bucketIdx
  reader.segments.flatMap (fun seg =>
    ((slice seg.rows (lowerBound (fun row => row.recordId) seg.rows bounds.1)
        (lowerBound (fun row => row.recordId) seg.rows bounds.2)).filter
      (fun row => reader.isVisible row generation)).map
      (fun row => (row.recordId, row.recordDigest)))

def visibleDepEntriesInBucket [Sha256] (reader : StoreReader) (bucketIdx generation : ℕ) :
    List (Digest32 × Digest32) :=
  let bounds := bucketKeyBounds bucketIdx
  reader.segments.flatMap (fun seg =>
    ((slice seg.deps (lowerBound DependencyRow.dependencyId seg.deps bounds.1)
        (lowerBound DependencyRow.dependencyId seg.deps bounds.2)).filter
      (fun dep => reader.depIsVisible dep generation)).map
      (fun dep => (dep.dependencyId, dependencyLogical dep.dependencyId)))

def countUpTo (values : List ℕ) (generation : ℕ) : ℤ :=
  (lowerBound id (sortOn id values) (nextGeneration generation) : ℕ)

def visibleCount (reader : StoreReader) (generation : ℕ) : ℕ :=
  let total := (reader.segments.map (fun seg =>
    countUpTo (seg.rows.map (fun row => row.validFrom)) generation -
      countUpTo ((seg.rows.map (fun row => row.validTo)).filter (fun vt => decide (vt ≠ 0)))
        generation)).sum
  (total - countUpTo (reader.recordClosures.map Prod.snd) generation).toNat

def depsVisibleCount (reader : StoreReader) (generation : ℕ) : ℕ :=
  let total := (reader.segments.map (fun seg =>
    countUpTo (seg.deps.map DependencyRow.validFrom) generation -
      countUpTo ((seg.deps.map DependencyRow.validTo).filter (fun vt => decide (vt ≠ 0)))
        generation)).sum
  (total - countUpTo (reader.depClosures.map Prod.snd) generation).toNat

def reconstructEntityIdentityKey (reader : StoreReader) (row : StoredRow) : Option Bytes := do
  let entityKindOrd ← row.entityKindOrdinal
  let kind ← reader.dicts.entityKinds[entityKindOrd]?
  let path ← reader.dicts.artifactPaths[row.ownerArtifact]?
  let nameId ← row.nameIdOpt
  let name ← reader.dicts.names[nameId]?
  some (IdentityCodec.reconstructEntity kind path row.spanStartByte name)

def identityKeyWithin (reader : StoreReader) : ℕ → StoredRow → Bytes
  | 0, row => row.ident
  | fuel + 1, row =>
    let resolve := fun id => (reader.get id).map (reader.identityKeyWithin fuel)
    let reconstructed := match row.identityLayout with
      | .raw => none
      | .entity => reader.reconstructEntityIdentityKey row
      | .relation => IdentityCodec.relationCandidate row.toRecordFields reader.dicts resolve
      | .relationNoSpan => IdentityCodec.relationNoSpanCandidate row.toRecordFields
          reader.dicts resolve
    reconstructed.getD row.ident

def rows (reader : StoreReader) : List StoredRow := reader.segments.flatMap Segment.rows

def deps (reader : StoreReader) : List DependencyRow := reader.segments.flatMap Segment.deps

def pendingSites (reader : StoreReader) : List PendingSiteRow :=
  reader.segments.flatMap Segment.pending

def identityKey (reader : StoreReader) (row : StoredRow) : Bytes :=
  reader.identityKeyWithin (reader.rows.length + 1) row

end StoreReader

def recomputeRootsFromScratch [Sha256] (reader : StoreReader) (generation : ℕ) :
    Except Fault (Digest32 × Digest32) := do
  let records ← BucketedMerkleSet.fromSorted
    ((reader.iterVisible generation).map (fun row => (row.recordId, row.recordDigest)))
  let deps ← BucketedMerkleSet.fromSorted
    ((reader.iterVisibleDeps generation).map
      (fun dep => (dep.dependencyId, dependencyLogical dep.dependencyId)))
  .ok (records.root, deps.root)

end StructuralStore
