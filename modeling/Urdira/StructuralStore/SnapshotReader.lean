import Urdira.StructuralStore.Reopen

open ByteOrder KeyedSet MerkleBucket BinarySearch LastIndex

namespace StructuralStore

namespace StoreInner

structure Reads (inner : StoreInner) (reader : StoreReader) : Prop where
  manifest : inner.manifest = reader.manifest
  segments : inner.segments = reader.segments.map
    (fun seg => OpenSegment.mk seg inner.recordClosures inner.depClosures inner.pendingClosures)
  dicts : inner.dicts = reader.dicts
  records : inner.recordClosures = reader.recordClosures
  deps : ∀ id, MultiMap.get inner.depClosures id = closuresOf reader.depClosures id
  depValues : (MultiMap.values inner.depClosures).Perm (reader.depClosures.map Prod.snd)
  pending : ∀ key, MultiMap.get inner.pendingClosures key = closuresOf reader.pendingClosures key
  subjects : inner.subjectIndex =
    inner.dicts.subjects.zipIdx.foldl (fun m p => AssocMap.insert m p.1 p.2) []
  owners : ∀ owner, (MultiMap.get inner.depOwnerIndex owner).Perm
    (((ownerEntries inner.segments).filter (fun e => decide (e.1 = owner))).map Prod.snd)
  identities : ∀ id, (MultiMap.get inner.identityIdIndex id).Perm
    (((identityEntries inner.segments).filter (fun e => decide (e.1 = id))).map Prod.snd)
  recordCounts : inner.closureValidToSorted = sortOn id (inner.recordClosures.map Prod.snd)
  depCounts : inner.depClosureValidToSorted = sortOn id (MultiMap.values inner.depClosures)

theorem foldl_pushAll {K : Type} [DecidableEq K] (closures : Segment → List (K × ℕ))
    (m : List (K × List ℕ)) (segs : List Segment) :
    segs.foldl (fun m seg => MultiMap.pushAll m (closures seg)) m =
      MultiMap.pushAll m (segs.flatMap closures) := by
  induction segs generalizing m with
  | nil => rfl
  | cons seg segs ih => rw [List.foldl_cons, ih, List.flatMap_cons, MultiMap.pushAll_append]

theorem get_foldl_pushAll {K : Type} [DecidableEq K] (closures : Segment → List (K × ℕ))
    (segs : List Segment) (k : K) :
    MultiMap.get (segs.foldl (fun m seg => MultiMap.pushAll m (closures seg)) []) k =
      closuresOf (segs.flatMap closures) k := by
  rw [foldl_pushAll, MultiMap.get_pushAll]
  rfl

theorem assemble_reads (manifest : Manifest) (base : Segment) (deltas : List Segment) (mtime : ℕ) :
    (assemble manifest base deltas mtime).Reads (StoreReader.load manifest base deltas) where
  manifest := rfl
  segments := by
    unfold assemble StoreReader.load
    dsimp only
    rw [List.map_reverse]
  dicts := rfl
  records := rfl
  deps := get_foldl_pushAll Segment.closuresDeps deltas
  depValues := by
    have hvalues := MultiMap.values_pushAll (m := ([] : List (Digest32 × List ℕ))) (by simp)
      (deltas.flatMap Segment.closuresDeps)
    change (MultiMap.values (deltas.foldl (fun m seg => MultiMap.pushAll m seg.closuresDeps)
      [])).Perm _
    rw [foldl_pushAll]
    exact hvalues
  pending := get_foldl_pushAll Segment.closuresPending deltas
  subjects := rfl
  owners := by
    intro owner
    refine List.Perm.of_eq ?_
    exact MultiMap.get_pushAll [] _ owner
  identities := by
    intro id
    refine List.Perm.of_eq ?_
    exact MultiMap.get_pushAll [] _ id
  recordCounts := rfl
  depCounts := rfl

theorem Same.reads {warm cold : StoreInner} {reader : StoreReader} (h : Same warm cold)
    (hcold : cold.Reads reader) : warm.Reads reader := by
  rw [← h.core] at hcold
  exact
    { manifest := hcold.manifest
      segments := hcold.segments
      dicts := hcold.dicts
      records := hcold.records
      deps := hcold.deps
      depValues := hcold.depValues
      pending := hcold.pending
      subjects := hcold.subjects
      owners := fun owner => (h.owners owner).trans (hcold.owners owner)
      identities := fun id => (h.identities id).trans (hcold.identities id)
      recordCounts := hcold.recordCounts
      depCounts := hcold.depCounts }

end StoreInner

theorem SnapshotOf.reads {dir : Directory} {inner : StoreInner} (h : SnapshotOf dir inner) :
    ∃ reader, StoreReader.open dir.disk = .ok reader ∧ inner.Reads reader := by
  obtain ⟨manifest, base, deltas, hopen, hsame⟩ := h.same
  exact ⟨_, open_ok_iff.mpr ⟨manifest, base, deltas, hopen, rfl⟩,
    hsame.reads (StoreInner.assemble_reads manifest base deltas dir.manifestMtime)⟩

namespace StoreInner.Reads

variable {inner : StoreInner} {reader : StoreReader}

theorem flatMap_segments {β : Type} (h : inner.Reads reader) (query : OpenSegment → List β) :
    inner.segments.flatMap query = reader.segments.flatMap (fun seg =>
      query ⟨seg, inner.recordClosures, inner.depClosures, inner.pendingClosures⟩) := by
  rw [h.segments, List.flatMap_map]

theorem isVisible (h : inner.Reads reader) {seg : OpenSegment} (hseg : seg ∈ inner.segments)
    (row : StoredRow) (generation : ℕ) :
    seg.isVisible row generation = reader.isVisible row generation := by
  rw [h.segments] at hseg
  obtain ⟨plain, -, rfl⟩ := List.mem_map.mp hseg
  unfold OpenSegment.isVisible OpenSegment.effectiveValidTo StoreReader.isVisible
    StoreReader.effectiveValidTo
  rw [h.records]

theorem depIsVisible (h : inner.Reads reader) {seg : OpenSegment} (hseg : seg ∈ inner.segments)
    (dep : DependencyRow) (generation : ℕ) :
    seg.depIsVisible dep generation = reader.depIsVisible dep generation := by
  rw [h.segments] at hseg
  obtain ⟨plain, -, rfl⟩ := List.mem_map.mp hseg
  unfold OpenSegment.depIsVisible OpenSegment.depsEffectiveValidTo StoreReader.depIsVisible
    StoreReader.depEffectiveValidTo
  rw [h.deps]

theorem pendingIsVisible (h : inner.Reads reader) {seg : OpenSegment} (hseg : seg ∈ inner.segments)
    (site : PendingSiteRow) (generation : ℕ) :
    seg.pendingIsVisible site generation = reader.pendingIsVisible site generation := by
  rw [h.segments] at hseg
  obtain ⟨plain, -, rfl⟩ := List.mem_map.mp hseg
  unfold OpenSegment.pendingIsVisible OpenSegment.pendingEffectiveValidTo
    StoreReader.pendingIsVisible
    StoreReader.pendingEffectiveValidTo
  rw [h.pending]

theorem flatMap_congr {β : Type} (h : inner.Reads reader) {query : OpenSegment → List β}
    {plain : Segment → List β} (heq : ∀ seg ∈ inner.segments, query seg = plain seg.toSegment) :
    inner.segments.flatMap query = reader.segments.flatMap plain := by
  rw [List.flatMap_congr heq, h.flatMap_segments]

theorem quadRows (h : inner.Reads reader) {seg : OpenSegment} (hseg : seg ∈ inner.segments)
    (quads : List Quad) (generation : ℕ) :
    seg.quadRows quads generation = reader.quadRows seg.toSegment quads generation := by
  rw [h.segments] at hseg
  obtain ⟨plain, -, rfl⟩ := List.mem_map.mp hseg
  unfold OpenSegment.quadRows OpenSegment.effectiveValidTo StoreReader.quadRows
    StoreReader.effectiveValidTo
  rw [h.records]

theorem ordinalRows (h : inner.Reads reader) {seg : OpenSegment} (hseg : seg ∈ inner.segments)
    (ordinals : List ℕ) (generation : ℕ) :
    seg.ordinalRows ordinals generation = reader.ordinalRows seg.toSegment ordinals generation := by
  unfold OpenSegment.ordinalRows StoreReader.ordinalRows
  simp only [h.isVisible hseg]

theorem byOwner (h : inner.Reads reader) (owner generation : ℕ) :
    inner.byOwner owner generation = reader.byOwner owner generation :=
  h.flatMap_congr (fun _ hseg => h.quadRows hseg _ generation)

theorem byName (h : inner.Reads reader) (nameId generation : ℕ) :
    inner.byName nameId generation = reader.byName nameId generation :=
  h.flatMap_congr (fun _ hseg => h.ordinalRows hseg _ generation)

theorem byKind (h : inner.Reads reader) (universalKindId : ℕ) (category : Category)
    (kindId generation limit : ℕ) (afterKey : Option Digest32) :
    inner.byKind universalKindId category kindId generation limit afterKey =
      reader.byKind universalKindId category kindId generation limit afterKey := by
  have hcandidates : inner.segments.flatMap (fun seg =>
      seg.ordinalRows (seg.byKindRange universalKindId category kindId) generation) =
      reader.segments.flatMap (fun seg => reader.ordinalRows seg
        ((keyRange (fun e => (ofLex e).1) seg.byKind (kindKey universalKindId category kindId)).map
          (fun e => (ofLex e).2)) generation) :=
    h.flatMap_congr (fun _ hseg => h.ordinalRows hseg _ generation)
  cases afterKey with
  | none => simp only [StoreInner.byKind, StoreReader.byKind, hcandidates]
  | some key => simp only [StoreInner.byKind, StoreReader.byKind, hcandidates]

theorem get_subjectIndex (subjects : List Digest32) (key : Digest32) :
    AssocMap.get (subjects.zipIdx.foldl (fun m p => AssocMap.insert m p.1 p.2) []) key =
      lastIndexOf subjects key := by
  have hfold : ∀ (entries : List (Digest32 × ℕ)) (m : List (Digest32 × ℕ)) (found : Option ℕ),
      AssocMap.get m key = found →
      AssocMap.get (entries.foldl (fun m p => AssocMap.insert m p.1 p.2) m) key =
        entries.foldl (fun found p => if p.1 = key then some p.2 else found) found := by
    intro entries
    induction entries with
    | nil =>
      intro m found h
      exact h
    | cons p entries ih =>
      intro m found h
      refine ih _ _ ?_
      dsimp only
      by_cases hp : p.1 = key
      · rw [if_pos hp, ← hp]
        exact AssocMap.get_insert_self m p.1 p.2
      · rw [if_neg hp, AssocMap.get_insert_ne m p.2 (fun heq => hp heq.symm)]
        exact h
  exact hfold _ [] none rfl

theorem adjacency (h : inner.Reads reader) (subjectKey : Digest32) (direction : Direction)
    (generation : ℕ) : inner.adjacency subjectKey direction generation =
      reader.adjacency subjectKey direction generation := by
  unfold StoreInner.adjacency StoreReader.adjacency StoreReader.subjectOrdinal
  rw [h.subjects, get_subjectIndex, h.dicts]
  cases lastIndexOf reader.dicts.subjects subjectKey with
  | none => rfl
  | some ord =>
    cases direction with
    | out => exact h.flatMap_congr (fun _ hseg => h.quadRows hseg _ generation)
    | «in» => exact h.flatMap_congr (fun _ hseg => h.quadRows hseg _ generation)

theorem depsReverse (h : inner.Reads reader) (depArtifact generation : ℕ) :
    inner.depsReverse depArtifact generation = reader.depsReverse depArtifact generation := by
  refine h.flatMap_congr (fun seg hseg => ?_)
  simp only [h.depIsVisible hseg]

theorem pendingSitesByOwner (h : inner.Reads reader) (ownerArtifact generation : ℕ) :
    inner.pendingSitesByOwner ownerArtifact generation =
      reader.pendingSitesByOwner ownerArtifact generation := by
  refine congrArg (sortOn PendingSiteRow.key) (h.flatMap_congr (fun seg hseg => ?_))
  simp only [h.pendingIsVisible hseg]

theorem iterVisiblePendingSites (h : inner.Reads reader) (generation : ℕ) :
    inner.iterVisiblePendingSites generation = reader.iterVisiblePendingSites generation := by
  refine congrArg (sortOn PendingSiteRow.key) (h.flatMap_congr (fun seg hseg => ?_))
  simp only [h.pendingIsVisible hseg]

theorem iterVisibleDeps (h : inner.Reads reader) (generation : ℕ) :
    inner.iterVisibleDeps generation = reader.iterVisibleDeps generation := by
  refine h.flatMap_congr (fun seg hseg => ?_)
  simp only [h.depIsVisible hseg]

theorem byIdentityKey (h : inner.Reads reader) (identityKeyDigest : Digest32) (generation : ℕ) :
    inner.byIdentityKey identityKeyDigest generation =
      reader.byIdentityKey identityKeyDigest generation := by
  unfold StoreInner.byIdentityKey StoreReader.byIdentityKey
  rw [List.filter_flatMap]
  refine congrArg (List.argmax (fun row : StoredRow => row.validFrom))
    (h.flatMap_congr (fun seg hseg => ?_))
  simp only [h.isVisible hseg]

section Entries

variable {β K : Type} [DecidableEq K]

theorem filterMap_zipIdx {α : Type} {xs : List α} {f : α × ℕ → Option β} {g : α → Option β}
    (h : ∀ a i, xs[i]? = some a → f (a, i) = g a) : xs.zipIdx.filterMap f = xs.filterMap g := by
  have hpoint : ∀ p ∈ xs.zipIdx, f p = g p.1 := by
    rintro ⟨a, i⟩ hmem
    exact h a i (List.mem_zipIdx_iff_getElem?.mp hmem)
  rw [List.filterMap_congr hpoint]
  conv_rhs => rw [← List.zipIdx_map_fst 0 xs, List.filterMap_map]
  rfl

theorem flatMap_zipIdx {α : Type} {xs : List α} {f : α × ℕ → List β} {g : α → List β}
    (h : ∀ a i, xs[i]? = some a → f (a, i) = g a) : xs.zipIdx.flatMap f = xs.flatMap g := by
  have hpoint : ∀ p ∈ xs.zipIdx, f p = g p.1 := by
    rintro ⟨a, i⟩ hmem
    exact h a i (List.mem_zipIdx_iff_getElem?.mp hmem)
  rw [List.flatMap_congr hpoint]
  conv_rhs => rw [← List.zipIdx_map_fst 0 xs, List.flatMap_map]

theorem entries_lookup (segments : List OpenSegment) (items : OpenSegment → List β)
    (key : β → Option K)
    (k : K) (visible : OpenSegment → β → Bool) :
    (((segments.zipIdx.flatMap (fun p => (items p.1).zipIdx.filterMap (fun q =>
      (key q.1).map (fun k' => (k', p.2, q.2))))).filter (fun e => decide (e.1 = k))).map
        Prod.snd).filterMap (fun entry => (segments[entry.1]?).bind (fun seg =>
          ((items seg)[entry.2]?).filter (visible seg))) =
      segments.flatMap (fun seg =>
        (items seg).filter (fun item => decide (key item = some k) && visible seg item)) := by
  rw [List.filter_flatMap, List.map_flatMap, List.filterMap_flatMap]
  refine flatMap_zipIdx (fun seg i hseg => ?_)
  rw [← List.filterMap_eq_filter, List.filterMap_filterMap, List.map_filterMap,
    List.filterMap_filterMap,
    ← List.filterMap_eq_filter]
  refine filterMap_zipIdx (fun item j hitem => ?_)
  cases hkey : key item with
  | none => simp [Option.guard, hkey]
  | some k' =>
    by_cases hk : k' = k
    · simp [Option.guard, Option.filter, hkey, hk, hseg, hitem]
    · simp [Option.guard, hkey, hk]

end Entries

theorem depsByOwner_perm (h : inner.Reads reader) (ownerArtifact generation : ℕ) :
    (inner.depsByOwner ownerArtifact generation).Perm
      (reader.depsByOwner ownerArtifact generation) := by
  have hlookup := entries_lookup inner.segments (fun seg => seg.deps)
    (fun dep => some dep.ownerArtifact) ownerArtifact
      (fun seg dep => seg.depIsVisible dep generation)
  have hentries : ownerEntries inner.segments = inner.segments.zipIdx.flatMap (fun p =>
      p.1.deps.zipIdx.filterMap (fun q =>
        (some q.1.ownerArtifact).map (fun k' => (k', p.2, q.2)))) := by
    simp only [ownerEntries, Option.map_some, List.filterMap_eq_map']
  refine ((h.owners ownerArtifact).filterMap _).trans (List.Perm.of_eq ?_)
  rw [hentries, hlookup]
  refine h.flatMap_congr (fun seg hseg => ?_)
  rw [List.filter_filter]
  refine List.filter_congr (fun dep _ => ?_)
  rw [h.depIsVisible hseg, Bool.and_comm]
  simp

theorem identityIdCandidates_perm (h : inner.Reads reader) {identityId : Digest32}
    (hid : identityId ≠ zero) (generation : ℕ) :
    ((MultiMap.get inner.identityIdIndex identityId).filterMap (fun entry =>
      (inner.segments[entry.1]?).bind (fun seg =>
        (seg.rows[entry.2]?).filter (fun row => seg.isVisible row generation)))).Perm
      (reader.rows.filter (fun row =>
        decide (row.identityId = identityId) && reader.isVisible row generation)) := by
  have hlookup := entries_lookup inner.segments (fun seg => seg.rows)
    (fun row => if row.identityId ≠ zero then some row.identityId else none) identityId
    (fun seg row => seg.isVisible row generation)
  have hentries : identityEntries inner.segments = inner.segments.zipIdx.flatMap (fun p =>
      p.1.rows.zipIdx.filterMap (fun q =>
        (if q.1.identityId ≠ zero then some q.1.identityId else none).map
          (fun k' => (k', p.2, q.2)))) := by
    refine List.flatMap_congr (fun p _ => List.filterMap_congr (fun q _ => ?_))
    split <;> rfl
  refine ((h.identities identityId).filterMap _).trans (List.Perm.of_eq ?_)
  rw [hentries, hlookup, StoreReader.rows, List.filter_flatMap]
  refine h.flatMap_congr (fun seg hseg => List.filter_congr (fun row _ => ?_))
  rw [h.isVisible hseg]
  by_cases hrow : row.identityId = identityId
  · simp [hrow, hid]
  · by_cases hzero : row.identityId = zero
    · simp [hzero, Ne.symm hid]
    · simp [hrow, hzero]

theorem identityIdCandidates_zero (h : inner.Reads reader) :
    MultiMap.get inner.identityIdIndex zero = [] := by
  have hperm := h.identities zero
  have hempty : (identityEntries inner.segments).filter (fun e => decide (e.1 = zero)) = [] := by
    rw [List.filter_eq_nil_iff]
    intro e he
    obtain ⟨p, -, he⟩ := List.mem_flatMap.mp he
    obtain ⟨q, -, he⟩ := List.mem_filterMap.mp he
    split at he
    · rename_i hne
      obtain rfl := Option.some.inj he
      simpa using hne
    · cases he
  rw [hempty] at hperm
  exact List.perm_nil.mp hperm

theorem iterVisible_perm (h : inner.Reads reader) (generation : ℕ) :
    (inner.iterVisible generation).Perm
      (reader.rows.filter (fun row => reader.isVisible row generation)) := by
  have hmerge := KWayMerge.mergeAll_perm (fun view : OpenSegment × StoredRow => view.2.recordId)
    (inner.segments.map (fun seg => seg.rows.map (fun row => (seg, row))))
  refine (hmerge.filterMap _).trans (List.Perm.of_eq ?_)
  rw [← List.flatMap_def, List.filterMap_flatMap, StoreReader.rows, List.filter_flatMap]
  refine h.flatMap_congr (fun seg hseg => ?_)
  rw [List.filterMap_map, ← List.filterMap_eq_filter]
  refine List.filterMap_congr (fun row _ => ?_)
  simp only [Function.comp, h.isVisible hseg, Option.guard]

end StoreInner.Reads

end StructuralStore
