import Urdira.StructuralStore.Writer
import Urdira.Lib.MultiMap

open ByteOrder KeyedSet MerkleBucket BinarySearch

namespace StructuralStore

structure Directory where
  disk : Disk
  manifestMtime : ℕ

structure OpenSegment extends Segment where
  recordClosures : List (Digest32 × ℕ)
  depClosures : List (Digest32 × List ℕ)
  pendingClosures : List (PendingSiteKey × List ℕ)

namespace OpenSegment

def validFromSorted (seg : OpenSegment) : List ℕ :=
  sortOn id (seg.rows.map (fun row => row.validFrom))

def validToSorted (seg : OpenSegment) : List ℕ :=
  sortOn id ((seg.rows.map (fun row => row.validTo)).filter (fun vt => decide (vt ≠ 0)))

def depsValidFromSorted (seg : OpenSegment) : List ℕ :=
  sortOn id (seg.deps.map DependencyRow.validFrom)

def depsValidToSorted (seg : OpenSegment) : List ℕ :=
  sortOn id ((seg.deps.map DependencyRow.validTo).filter (fun vt => decide (vt ≠ 0)))

def effectiveValidTo (seg : OpenSegment) (recordId : Digest32) (inlineValidTo : ℕ) : ℕ :=
  (AssocMap.get seg.recordClosures recordId).getD inlineValidTo

def isVisible (seg : OpenSegment) (row : StoredRow) (generation : ℕ) : Bool :=
  isVisibleAt row.validFrom (seg.effectiveValidTo row.recordId row.validTo) generation

def depsEffectiveValidTo (seg : OpenSegment) (dep : DependencyRow) : ℕ :=
  closureForRow (MultiMap.get seg.depClosures dep.dependencyId) dep.validFrom dep.validTo

def depIsVisible (seg : OpenSegment) (dep : DependencyRow) (generation : ℕ) : Bool :=
  isVisibleAt dep.validFrom (seg.depsEffectiveValidTo dep) generation

def pendingEffectiveValidTo (seg : OpenSegment) (site : PendingSiteRow) : ℕ :=
  closureForRow (MultiMap.get seg.pendingClosures site.key) site.validFrom site.validTo

def pendingIsVisible (seg : OpenSegment) (site : PendingSiteRow) (generation : ℕ) : Bool :=
  isVisibleAt site.validFrom (seg.pendingEffectiveValidTo site) generation

def quadRows (seg : OpenSegment) (quads : List Quad) (generation : ℕ) : List StoredRow :=
  quads.filterMap (fun q =>
    (seg.rows[q.ordinal]?).filter (fun row =>
      isVisibleAt q.validFrom (seg.effectiveValidTo row.recordId q.validTo) generation))

def ordinalRows (seg : OpenSegment) (ordinals : List ℕ) (generation : ℕ) : List StoredRow :=
  ordinals.filterMap (fun ord => (seg.rows[ord]?).filter (fun row => seg.isVisible row generation))

def byKindRange (seg : OpenSegment) (universalKindId : ℕ) (category : Category) (kindId : ℕ) :
    List ℕ :=
  (keyRange (fun e => (ofLex e).1) seg.byKind (kindKey universalKindId category kindId)).map
    (fun e => (ofLex e).2)

def byKindUniversalRange (seg : OpenSegment) (universalKindId : ℕ) (category : Category) : List ℕ :=
  (keyRange (fun e => (toLex ((ofLex (ofLex e).1).1, (ofLex (ofLex (ofLex e).1).2).1) : ℕ ×ₗ ℕ))
    seg.byKind
    (toLex (universalKindId, category.toNat))).map (fun e => (ofLex e).2)

def selectorRange (seg : OpenSegment) (universalKindId : ℕ) (category : Category) (kindId : ℕ) :
    List ℕ :=
  if kindId = noneU16 then seg.byKindUniversalRange universalKindId category
  else seg.byKindRange universalKindId category kindId

end OpenSegment

structure StoreInner where
  manifest : Manifest
  segments : List OpenSegment
  dicts : Dictionaries
  subjectIndex : List (Digest32 × ℕ)
  depOwnerIndex : List (ℕ × List (ℕ × ℕ))
  identityIdIndex : List (Digest32 × List (ℕ × ℕ))
  recordClosures : List (Digest32 × ℕ)
  depClosures : List (Digest32 × List ℕ)
  pendingClosures : List (PendingSiteKey × List ℕ)
  closureValidToSorted : List ℕ
  depClosureValidToSorted : List ℕ
  manifestMtime : ℕ

abbrev PageEntry := Digest32 × ℕ × ℕ

def PageEntry.rank (entry : PageEntry) : Digest32 ×ₗ ℕ ×ₗ ℕ :=
  toLex (entry.1, toLex (entry.2.1, entry.2.2))

def pagePush (limit : ℕ) (afterKey : Option Digest32) (heap : List PageEntry) (entry : PageEntry) :
    List PageEntry :=
  if afterKey.any (fun after => decide (entry.1 ≤ after)) then heap
  else if heap.any (fun other => decide (other.1 = entry.1)) then heap
  else if heap.length < limit then entry :: heap
  else
    match heap.argmax PageEntry.rank with
    | some greatest => if entry.1 < greatest.1 then entry :: heap.erase greatest else heap
    | none => heap

namespace StoreInner

def ownerEntries (segments : List OpenSegment) : List (ℕ × ℕ × ℕ) :=
  segments.zipIdx.flatMap (fun p => p.1.deps.zipIdx.map (fun q => (q.1.ownerArtifact, p.2, q.2)))

def identityEntries (segments : List OpenSegment) : List (Digest32 × ℕ × ℕ) :=
  segments.zipIdx.flatMap (fun p => p.1.rows.zipIdx.filterMap (fun q =>
    if q.1.identityId ≠ zero then some (q.1.identityId, p.2, q.2) else none))

def assemble (manifest : Manifest) (base : Segment) (deltas : List Segment) (manifestMtime : ℕ) :
    StoreInner :=
  let recordClosures := deltas.foldl (fun m seg => AssocMap.insertAll m seg.closuresRecords) []
  let depClosures := deltas.foldl (fun m seg => MultiMap.pushAll m seg.closuresDeps) []
  let pendingClosures := deltas.foldl (fun m seg => MultiMap.pushAll m seg.closuresPending) []
  let dicts := (base :: deltas).foldl (fun dicts seg => dicts.append seg.dict) Dictionaries.empty
  let segments := ((base :: deltas).map
    (fun seg => OpenSegment.mk seg recordClosures depClosures pendingClosures)).reverse
  { manifest, segments, dicts
    subjectIndex := dicts.subjects.zipIdx.foldl (fun m p => AssocMap.insert m p.1 p.2) []
    depOwnerIndex := MultiMap.pushAll [] (ownerEntries segments)
    identityIdIndex := MultiMap.pushAll [] (identityEntries segments)
    recordClosures, depClosures, pendingClosures
    closureValidToSorted := sortOn id (recordClosures.map Prod.snd)
    depClosureValidToSorted := sortOn id (MultiMap.values depClosures)
    manifestMtime }

def loadSegments (manifest : Manifest) (manifestMtime : ℕ) (disk : Disk) :
    Except Fault StoreInner :=
  match disk.bases manifest.base with
  | none => .error (.error "base segment missing")
  | some base => do
    let deltas ← manifest.deltas.mapM (openDelta disk)
    .ok (assemble manifest base deltas manifestMtime)

-- the load that no publish overlaps: MANIFEST, its mtime and the segments are three reads
def load (dir : Directory) : Except Fault StoreInner :=
  match dir.disk.manifest with
  | none => .error (.error "read manifest")
  | some manifest => loadSegments manifest dir.manifestMtime dir.disk

def extendWith (prev : StoreInner) (manifest : Manifest) (manifestMtime : ℕ)
    (newDeltas : List Segment) :
    StoreInner :=
  let recordClosures :=
    newDeltas.foldl (fun m seg => AssocMap.insertAll m seg.closuresRecords) prev.recordClosures
  let depClosures :=
    newDeltas.foldl (fun m seg => MultiMap.pushAll m seg.closuresDeps) prev.depClosures
  let pendingClosures :=
    newDeltas.foldl (fun m seg => MultiMap.pushAll m seg.closuresPending) prev.pendingClosures
  let newSubjects := newDeltas.flatMap (fun seg => seg.dict.subjects)
  let newSegments := (newDeltas.map
    (fun seg => OpenSegment.mk seg recordClosures depClosures pendingClosures)).reverse
  let carried := prev.segments.map
    (fun seg => OpenSegment.mk seg.toSegment recordClosures depClosures pendingClosures)
  let shift := fun entry : ℕ × ℕ => (entry.1 + newSegments.length, entry.2)
  { manifest
    segments := newSegments ++ carried
    dicts := newDeltas.foldl (fun dicts seg => dicts.append seg.dict) prev.dicts
    subjectIndex := newSubjects.zipIdx.foldl
      (fun m p => AssocMap.insert m p.1 (prev.dicts.subjects.length + p.2)) prev.subjectIndex
    depOwnerIndex := MultiMap.pushAll (MultiMap.mapValues shift prev.depOwnerIndex)
      (ownerEntries newSegments)
    identityIdIndex := MultiMap.pushAll (MultiMap.mapValues shift prev.identityIdIndex)
      (identityEntries newSegments)
    recordClosures, depClosures, pendingClosures
    closureValidToSorted := sortOn id (recordClosures.map Prod.snd)
    depClosureValidToSorted := sortOn id (MultiMap.values depClosures)
    manifestMtime }

def extend (prev : StoreInner) (disk : Disk) (freshManifest : Manifest) (manifestMtime : ℕ)
    (newDeltaNames : List ℕ) : Except Fault StoreInner := do
  let newDeltas ← newDeltaNames.mapM (openDelta disk)
  .ok (prev.extendWith freshManifest manifestMtime newDeltas)

def newDeltaSuffix (current fresh : Manifest) : Option (List ℕ) :=
  if current.base ≠ fresh.base then none
  else if fresh.deltas.length < current.deltas.length then none
  else if fresh.deltas.take current.deltas.length ≠ current.deltas then none
  else some (fresh.deltas.drop current.deltas.length)

def reopenIfChanged (current : StoreInner) (dir : Directory) : Except Fault (StoreInner × Bool) :=
  match dir.disk.manifest with
  | none => .ok (current, false)
  | some freshManifest =>
    if dir.manifestMtime ≤ current.manifestMtime then .ok (current, false)
    else do
      let fresh ← match newDeltaSuffix current.manifest freshManifest with
        | some newDeltaNames =>
          if newDeltaNames.isEmpty then load dir
          else current.extend dir.disk freshManifest dir.manifestMtime newDeltaNames
        | none => load dir
      .ok (fresh, true)

def generation (inner : StoreInner) : ℕ := inner.manifest.generation

def view (inner : StoreInner) (key : Digest32) : Option (OpenSegment × StoredRow) :=
  inner.segments.findSome? (fun seg =>
    (binarySearchExact (fun row => row.recordId) seg.rows key).map (fun row => (seg, row)))

def get (inner : StoreInner) (key : Digest32) : Option StoredRow := (inner.view key).map Prod.snd

def getVisible (inner : StoreInner) (key : Digest32) (generation : ℕ) : Option StoredRow :=
  ((inner.view key).filter (fun view => view.1.isVisible view.2 generation)).map Prod.snd

def byOwner (inner : StoreInner) (owner generation : ℕ) : List StoredRow :=
  inner.segments.flatMap (fun seg => seg.quadRows (keyRange Quad.key seg.byOwner owner) generation)

def byName (inner : StoreInner) (nameId generation : ℕ) : List StoredRow :=
  inner.segments.flatMap (fun seg =>
    seg.ordinalRows ((keyRange (fun e => (ofLex e).1) seg.byName nameId).map (fun e => (ofLex e).2))
      generation)

def byKind (inner : StoreInner) (universalKindId : ℕ) (category : Category) (kindId generation : ℕ)
    (limit : ℕ) (afterKey : Option Digest32) : List StoredRow :=
  let candidates := sortOn (fun row => row.recordId) (inner.segments.flatMap (fun seg =>
    seg.ordinalRows (seg.byKindRange universalKindId category kindId) generation))
  let start :=
    match afterKey with
    | some key => partitionList (fun row => decide (row.recordId ≤ key)) candidates
    | none => 0
  (candidates.drop start).take limit

def selectorRanges (inner : StoreInner) (universalKindIds : List ℕ) (categories : List Category)
    (kindIds : List ℕ) : List (OpenSegment × List ℕ) :=
  (universalKindIds.flatMap (fun universalKindId => categories.flatMap (fun category =>
    (if kindIds.isEmpty then [noneU16] else kindIds).flatMap (fun kindId =>
      inner.segments.map
        (fun seg => (seg, seg.selectorRange universalKindId category kindId)))))).filter
    (fun range => !range.2.isEmpty)

def byKindSelector (inner : StoreInner) (universalKindIds : List ℕ) (categories : List Category)
    (kindIds : List ℕ) (generation limit : ℕ) (afterKey : Option Digest32) :
    List StoredRow × Option Digest32 :=
  if limit = 0 ∨ universalKindIds.isEmpty ∨ categories.isEmpty then ([], none)
  else
    let ranges := inner.selectorRanges universalKindIds categories kindIds
    let entries : List PageEntry := ranges.zipIdx.flatMap (fun p => p.1.2.filterMap (fun ordinal =>
      ((p.1.1.rows[ordinal]?).filter (fun row => p.1.1.isVisible row generation)).map
        (fun row => (row.recordId, p.2, ordinal))))
    let selected :=
      sortOn (fun entry : PageEntry => entry.1) (entries.foldl (pagePush limit afterKey) [])
    let out := selected.filterMap (fun entry =>
      (ranges[entry.2.1]?).bind (fun range => range.1.rows[entry.2.2]?))
    (out, if out.length = limit then out.getLast?.map (fun row => row.recordId) else none)

def byIdentityKey (inner : StoreInner) (identityKeyDigest : Digest32) (generation : ℕ) :
    Option StoredRow :=
  (inner.segments.flatMap (fun seg =>
    (seg.identityCandidates identityKeyDigest).filter
      (fun row => seg.isVisible row generation))).argmax
    (fun row => row.validFrom)

def byIdentityId (inner : StoreInner) (identityId : Digest32) (generation : ℕ) : Option StoredRow :=
  ((MultiMap.get inner.identityIdIndex identityId).filterMap (fun entry =>
    (inner.segments[entry.1]?).bind (fun seg =>
      (seg.rows[entry.2]?).filter (fun row => seg.isVisible row generation)))).argmax
    (fun row => row.validFrom)

def adjacency (inner : StoreInner) (subjectKey : Digest32) (direction : Direction)
    (generation : ℕ) :
    List StoredRow :=
  match AssocMap.get inner.subjectIndex subjectKey with
  | none => []
  | some subjectOrd =>
    inner.segments.flatMap (fun seg =>
      let quads := match direction with
        | .out => seg.adjOut
        | .in => seg.adjIn
      seg.quadRows (keyRange Quad.key quads subjectOrd) generation)

def depsByOwner (inner : StoreInner) (ownerArtifact generation : ℕ) : List DependencyRow :=
  (MultiMap.get inner.depOwnerIndex ownerArtifact).filterMap (fun entry =>
    (inner.segments[entry.1]?).bind (fun seg =>
      (seg.deps[entry.2]?).filter (fun dep => seg.depIsVisible dep generation)))

def depsReverse (inner : StoreInner) (depArtifact generation : ℕ) : List DependencyRow :=
  inner.segments.flatMap (fun seg =>
    (keyRange (fun e => (ofLex e).1) seg.depsReverse depArtifact).filterMap (fun e =>
      (seg.deps[(ofLex e).2]?).filter (fun dep => seg.depIsVisible dep generation)))

def iterVisible (inner : StoreInner) (generation : ℕ) : List StoredRow :=
  (KWayMerge.mergeAll (fun view : OpenSegment × StoredRow => view.2.recordId)
    (inner.segments.map (fun seg => seg.rows.map (fun row => (seg, row))))).filterMap
    (fun view => if view.1.isVisible view.2 generation then some view.2 else none)

def iterVisibleDeps (inner : StoreInner) (generation : ℕ) : List DependencyRow :=
  inner.segments.flatMap (fun seg => seg.deps.filter (fun dep => seg.depIsVisible dep generation))

def pendingSitesByOwner (inner : StoreInner) (ownerArtifact generation : ℕ) : List PendingSiteRow :=
  sortOn PendingSiteRow.key (inner.segments.flatMap (fun seg =>
    (keyRange PendingSiteRow.ownerArtifact seg.pending ownerArtifact).filter
      (fun site => seg.pendingIsVisible site generation)))

def iterVisiblePendingSites (inner : StoreInner) (generation : ℕ) : List PendingSiteRow :=
  sortOn PendingSiteRow.key (inner.segments.flatMap (fun seg =>
    seg.pending.filter (fun site => seg.pendingIsVisible site generation)))

def countBelow (sorted : List ℕ) (generation : ℕ) : ℤ :=
  (lowerBound id sorted (nextGeneration generation) : ℕ)

def visibleCount (inner : StoreInner) (generation : ℕ) : ℕ :=
  let total := (inner.segments.map (fun seg =>
    countBelow seg.validFromSorted generation - countBelow seg.validToSorted generation)).sum
  (total - countBelow inner.closureValidToSorted generation).toNat

def depsVisibleCount (inner : StoreInner) (generation : ℕ) : ℕ :=
  let total := (inner.segments.map (fun seg =>
    countBelow seg.depsValidFromSorted generation - countBelow seg.depsValidToSorted
      generation)).sum
  (total - countBelow inner.depClosureValidToSorted generation).toNat

end StoreInner

end StructuralStore
