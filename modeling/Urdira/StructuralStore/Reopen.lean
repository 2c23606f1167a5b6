import Urdira.StructuralStore.StoreInner
import Urdira.StructuralStore.StoreRun

open ByteOrder KeyedSet MerkleBucket BinarySearch

namespace StructuralStore

namespace StoreInner

section Entries

variable {K : Type}

def shiftEntry (count : ℕ) (entry : ℕ × ℕ) : ℕ × ℕ := (entry.1 + count, entry.2)

theorem zipIdx_flatMap_append {entries : OpenSegment × ℕ → List (K × ℕ × ℕ)}
    (hshift : ∀ seg i n, entries (seg, i + n) =
      (entries (seg, i)).map (fun e => (e.1, shiftEntry n e.2)))
    (new old : List OpenSegment) :
    (new ++ old).zipIdx.flatMap entries =
      new.zipIdx.flatMap entries ++
        (old.zipIdx.flatMap entries).map (fun e => (e.1, shiftEntry new.length e.2)) := by
  rw [List.zipIdx_append, List.flatMap_append, List.map_flatMap]
  congr 1
  rw [List.zipIdx_eq_map_add, List.flatMap_map]
  refine List.flatMap_congr (fun p _ => ?_)
  obtain ⟨seg, i⟩ := p
  dsimp only
  rw [Nat.zero_add, Nat.add_comm]
  exact hshift seg i new.length

theorem ownerEntries_append (new old : List OpenSegment) :
    ownerEntries (new ++ old) =
      ownerEntries new ++ (ownerEntries old).map (fun e => (e.1, shiftEntry new.length e.2)) := by
  refine zipIdx_flatMap_append (fun seg i n => ?_) new old
  rw [List.map_map]
  rfl

theorem identityEntries_append (new old : List OpenSegment) :
    identityEntries (new ++ old) =
      identityEntries new ++ (identityEntries old).map
        (fun e => (e.1, shiftEntry new.length e.2)) := by
  refine zipIdx_flatMap_append (fun seg i n => ?_) new old
  rw [List.map_filterMap]
  refine List.filterMap_congr (fun q _ => ?_)
  split <;> rfl

theorem ownerEntries_reopen (segments : List OpenSegment) (rc : List (Digest32 × ℕ))
    (dc : List (Digest32 × List ℕ)) (pc : List (PendingSiteKey × List ℕ)) :
    ownerEntries (segments.map (fun seg => OpenSegment.mk seg.toSegment rc dc pc)) =
      ownerEntries segments := by
  unfold ownerEntries
  rw [List.zipIdx_map, List.flatMap_map]
  rfl

theorem identityEntries_reopen (segments : List OpenSegment) (rc : List (Digest32 × ℕ))
    (dc : List (Digest32 × List ℕ)) (pc : List (PendingSiteKey × List ℕ)) :
    identityEntries (segments.map (fun seg => OpenSegment.mk seg.toSegment rc dc pc)) =
      identityEntries segments := by
  unfold identityEntries
  rw [List.zipIdx_map, List.flatMap_map]
  rfl

theorem get_index_extend [DecidableEq K] {prev cold : List (K × List (ℕ × ℕ))}
    {new old : List (K × ℕ × ℕ)}
    {count : ℕ} (k : K) (hprev : (MultiMap.get prev k).Perm
      (MultiMap.get (MultiMap.pushAll [] old) k))
    (hcold : cold = MultiMap.pushAll [] (new ++ old.map (fun e => (e.1, shiftEntry count e.2)))) :
    (MultiMap.get (MultiMap.pushAll (MultiMap.mapValues (shiftEntry count) prev) new) k).Perm
      (MultiMap.get cold k) := by
  have hfilter : ((old.map (fun e => (e.1, shiftEntry count e.2))).filter
      (fun e => decide (e.1 = k))).map Prod.snd =
      ((old.filter (fun e => decide (e.1 = k))).map Prod.snd).map (shiftEntry count) := by
    rw [List.filter_map, List.map_map, List.map_map]
    rfl
  rw [hcold, MultiMap.get_pushAll, MultiMap.get_pushAll, MultiMap.get_mapValues, List.filter_append,
    List.map_append, hfilter]
  rw [MultiMap.get_pushAll] at hprev
  exact ((hprev.map _).append_right _).trans List.perm_append_comm

end Entries

section Same

structure Same (warm cold : StoreInner) : Prop where
  core :
    { warm with depOwnerIndex := cold.depOwnerIndex, identityIdIndex := cold.identityIdIndex } =
      cold
  owners : ∀ owner, (MultiMap.get warm.depOwnerIndex owner).Perm
    (MultiMap.get cold.depOwnerIndex owner)
  identities :
    ∀ id, (MultiMap.get warm.identityIdIndex id).Perm (MultiMap.get cold.identityIdIndex id)

theorem Same.refl (inner : StoreInner) : Same inner inner :=
  ⟨rfl, fun _ => List.Perm.refl _, fun _ => List.Perm.refl _⟩

theorem Same.segments {warm cold : StoreInner} (h : Same warm cold) :
    warm.segments = cold.segments :=
  have hcore := congrArg StoreInner.segments h.core
  hcore

theorem Same.manifest {warm cold : StoreInner} (h : Same warm cold) :
    warm.manifest = cold.manifest :=
  have hcore := congrArg StoreInner.manifest h.core
  hcore

theorem subjects_foldl (dicts : Dictionaries) (segs : List Segment) :
    (segs.foldl (fun dicts seg => dicts.append seg.dict) dicts).subjects =
      dicts.subjects ++ segs.flatMap (fun seg => seg.dict.subjects) := by
  induction segs generalizing dicts with
  | nil => simp
  | cons seg segs ih =>
    rw [List.foldl_cons, ih, List.flatMap_cons, ← List.append_assoc]
    rfl

theorem subjectIndex_append (xs ys : List Digest32) :
    ys.zipIdx.foldl (fun m p => AssocMap.insert m p.1 (xs.length + p.2))
        (xs.zipIdx.foldl (fun m p => AssocMap.insert m p.1 p.2) []) =
      (xs ++ ys).zipIdx.foldl (fun m p => AssocMap.insert m p.1 p.2) [] := by
  have hshifted : ys.zipIdx xs.length = ys.zipIdx.map (fun p => (p.1, xs.length + p.2)) :=
    List.zipIdx_eq_map_add
  rw [List.zipIdx_append, List.foldl_append, Nat.zero_add, hshifted, List.foldl_map]

theorem extendWith_core (manifest manifest' : Manifest) (base : Segment) (deltas new : List Segment)
    (mtime mtime' : ℕ) :
    { (assemble manifest base deltas mtime).extendWith manifest' mtime' new with
      depOwnerIndex := (assemble manifest' base (deltas ++ new) mtime').depOwnerIndex
      identityIdIndex := (assemble manifest' base (deltas ++ new) mtime').identityIdIndex } =
      assemble manifest' base (deltas ++ new) mtime' := by
  have hsubjects := subjectIndex_append
    ((base :: deltas).foldl (fun dicts seg => dicts.append seg.dict) Dictionaries.empty).subjects
    (new.flatMap (fun seg => seg.dict.subjects))
  have hdicts : ((base :: (deltas ++ new)).foldl (fun dicts seg => dicts.append seg.dict)
      Dictionaries.empty).subjects =
      ((base :: deltas).foldl (fun dicts seg => dicts.append seg.dict)
        Dictionaries.empty).subjects ++
        new.flatMap (fun seg => seg.dict.subjects) := by
    rw [← List.cons_append, List.foldl_append, subjects_foldl]
  unfold extendWith assemble
  dsimp only
  rw [hsubjects, hdicts]
  simp only [List.foldl_append, List.map_append, List.map_cons, List.reverse_append,
    List.map_reverse,
    List.map_map, ← List.cons_append]
  rfl

theorem extendWith_same {prev : StoreInner} {manifest : Manifest} {base : Segment}
    {deltas : List Segment}
    {mtime : ℕ} (h : Same prev (assemble manifest base deltas mtime)) (manifest' : Manifest)
    (mtime' : ℕ) (new : List Segment) :
    Same (prev.extendWith manifest' mtime' new)
      (assemble manifest' base (deltas ++ new) mtime') := by
  have hsegments : (assemble manifest' base (deltas ++ new) mtime').segments =
      (prev.extendWith manifest' mtime' new).segments := by
    have hcore := congrArg StoreInner.segments
      (extendWith_core manifest manifest' base deltas new mtime mtime')
    rw [← hcore]
    exact (congrArg (fun inner => (StoreInner.extendWith inner manifest' mtime' new).segments)
      h.core).symm
  refine ⟨?_, ?_, ?_⟩
  · rw [← extendWith_core manifest manifest' base deltas new mtime mtime', ← h.core]
    rfl
  · intro owner
    refine get_index_extend owner (h.owners owner) ?_
    change MultiMap.pushAll [] (ownerEntries
      (assemble manifest' base (deltas ++ new) mtime').segments) = _
    rw [hsegments]
    change MultiMap.pushAll [] (ownerEntries (_ ++ prev.segments.map _)) = _
    rw [ownerEntries_append, ownerEntries_reopen, h.segments]
    rfl
  · intro id
    refine get_index_extend id (h.identities id) ?_
    change MultiMap.pushAll [] (identityEntries
      (assemble manifest' base (deltas ++ new) mtime').segments) = _
    rw [hsegments]
    change MultiMap.pushAll [] (identityEntries (_ ++ prev.segments.map _)) = _
    rw [identityEntries_append, identityEntries_reopen, h.segments]
    rfl

end Same

section Answers

structure Answers (warm cold : StoreInner) : Prop where
  get : ∀ key, warm.get key = cold.get key
  getVisible : ∀ key generation, warm.getVisible key generation = cold.getVisible key generation
  byOwner : ∀ owner generation, warm.byOwner owner generation = cold.byOwner owner generation
  byName : ∀ nameId generation, warm.byName nameId generation = cold.byName nameId generation
  byKind : ∀ universalKindId category kindId generation limit afterKey,
    warm.byKind universalKindId category kindId generation limit afterKey =
      cold.byKind universalKindId category kindId generation limit afterKey
  byKindSelector : ∀ universalKindIds categories kindIds generation limit afterKey,
    warm.byKindSelector universalKindIds categories kindIds generation limit afterKey =
      cold.byKindSelector universalKindIds categories kindIds generation limit afterKey
  adjacency : ∀ subjectKey direction generation,
    warm.adjacency subjectKey direction generation = cold.adjacency subjectKey direction generation
  byIdentityKey : ∀ identityKeyDigest generation,
    warm.byIdentityKey identityKeyDigest generation =
      cold.byIdentityKey identityKeyDigest generation
  depsByOwner : ∀ owner generation,
    (warm.depsByOwner owner generation).Perm (cold.depsByOwner owner generation)
  depsReverse : ∀ depArtifact generation,
    warm.depsReverse depArtifact generation = cold.depsReverse depArtifact generation
  pendingSitesByOwner : ∀ owner generation,
    warm.pendingSitesByOwner owner generation = cold.pendingSitesByOwner owner generation
  visibleCount : ∀ generation, warm.visibleCount generation = cold.visibleCount generation
  depsVisibleCount : ∀ generation, warm.depsVisibleCount generation =
    cold.depsVisibleCount generation

theorem Same.query {β : Type} {warm cold : StoreInner} (h : Same warm cold) (query : StoreInner → β)
    (hquery : ∀ (inner : StoreInner) owners identities,
      query { inner with depOwnerIndex := owners, identityIdIndex := identities } = query inner) :
    query warm = query cold := by
  rw [← hquery warm cold.depOwnerIndex cold.identityIdIndex, h.core]

theorem Same.answers {warm cold : StoreInner} (h : Same warm cold) : Answers warm cold where
  get := fun key => h.query (fun inner => inner.get key) (fun _ _ _ => rfl)
  getVisible := fun key g => h.query (fun inner => inner.getVisible key g) (fun _ _ _ => rfl)
  byOwner := fun owner g => h.query (fun inner => inner.byOwner owner g) (fun _ _ _ => rfl)
  byName := fun nameId g => h.query (fun inner => inner.byName nameId g) (fun _ _ _ => rfl)
  byKind := fun u c k g limit after =>
    h.query (fun inner => inner.byKind u c k g limit after) (fun _ _ _ => rfl)
  byKindSelector := fun us cs ks g limit after =>
    h.query (fun inner => inner.byKindSelector us cs ks g limit after) (fun _ _ _ => rfl)
  adjacency := fun key direction g =>
    h.query (fun inner => inner.adjacency key direction g) (fun _ _ _ => rfl)
  byIdentityKey := fun key g => h.query (fun inner => inner.byIdentityKey key g) (fun _ _ _ => rfl)
  depsByOwner := by
    intro owner g
    unfold StoreInner.depsByOwner
    rw [h.segments]
    exact (h.owners owner).filterMap _
  depsReverse :=
    fun artifact g => h.query (fun inner => inner.depsReverse artifact g) (fun _ _ _ => rfl)
  pendingSitesByOwner := fun owner g =>
    h.query (fun inner => inner.pendingSitesByOwner owner g) (fun _ _ _ => rfl)
  visibleCount := fun g => h.query (fun inner => inner.visibleCount g) (fun _ _ _ => rfl)
  depsVisibleCount := fun g => h.query (fun inner => inner.depsVisibleCount g) (fun _ _ _ => rfl)

end Answers

end StoreInner

structure Directory.Later (dir dir' : Directory) (manifest manifest' : Manifest) (names : List ℕ) :
    Prop where
  before : dir.disk.manifest = some manifest
  after : dir'.disk.manifest = some manifest'
  base : manifest'.base = manifest.base
  deltas : manifest'.deltas = manifest.deltas ++ names
  base_kept : dir'.disk.bases manifest.base = dir.disk.bases manifest.base
  deltas_kept : ∀ g ∈ manifest.deltas, dir'.disk.deltas g = dir.disk.deltas g

inductive SnapshotOf : Directory → StoreInner → Prop
  | loaded {dir : Directory} {inner : StoreInner} (load : StoreInner.load dir = .ok inner) :
      SnapshotOf dir inner
  | extended {dir dir' : Directory} {manifest manifest' : Manifest} {names : List ℕ}
      {prev inner : StoreInner} (before : SnapshotOf dir prev)
      (later : dir.Later dir' manifest manifest' names)
      (extend : prev.extend dir'.disk manifest' dir'.manifestMtime names = .ok inner) :
      SnapshotOf dir' inner

section Snapshot

variable {dir dir' : Directory} {manifest manifest' : Manifest} {names : List ℕ}
  {prev inner : StoreInner}

theorem loadSegments_ok_iff {disk : Disk} {mtime : ℕ} :
    StoreInner.loadSegments manifest mtime disk = .ok inner ↔
      ∃ base deltas, disk.bases manifest.base = some base ∧
        List.Forall₂ (fun g seg => disk.deltas g = some (some seg)) manifest.deltas deltas ∧
        inner = StoreInner.assemble manifest base deltas mtime := by
  unfold StoreInner.loadSegments
  constructor
  · intro h
    cases hb : disk.bases manifest.base with
    | none => simp only [hb] at h; cases h
    | some base =>
      simp only [hb] at h
      obtain ⟨deltas, hd, h⟩ := ExceptOk.bind_eq_ok h
      exact ⟨base, deltas, rfl, mapM_openDelta_ok.mp hd, (Except.ok.inj h).symm⟩
  · rintro ⟨base, deltas, hbase, hdeltas, rfl⟩
    simp only [hbase, mapM_openDelta_ok.mpr hdeltas]
    rfl

theorem load_ok_iff : StoreInner.load dir = .ok inner ↔
    ∃ manifest base deltas, Opens dir.disk manifest base deltas ∧
      inner = StoreInner.assemble manifest base deltas dir.manifestMtime := by
  unfold StoreInner.load
  constructor
  · intro h
    cases hm : dir.disk.manifest with
    | none => rw [hm] at h; cases h
    | some manifest =>
      rw [hm] at h
      obtain ⟨base, deltas, hbase, hdeltas, heq⟩ := loadSegments_ok_iff.mp h
      exact ⟨manifest, base, deltas, ⟨hm, hbase, hdeltas⟩, heq⟩
  · rintro ⟨manifest, base, deltas, hopen, rfl⟩
    rw [hopen.manifest_eq]
    exact loadSegments_ok_iff.mpr ⟨base, deltas, hopen.base_eq, hopen.deltas_eq, rfl⟩

theorem extend_ok_iff : prev.extend dir'.disk manifest' dir'.manifestMtime names = .ok inner ↔
    ∃ new, List.Forall₂ (fun g seg => dir'.disk.deltas g = some (some seg)) names new ∧
      inner = prev.extendWith manifest' dir'.manifestMtime new := by
  unfold StoreInner.extend
  constructor
  · intro h
    obtain ⟨new, hnew, h⟩ := ExceptOk.bind_eq_ok h
    exact ⟨new, mapM_openDelta_ok.mp hnew, (Except.ok.inj h).symm⟩
  · rintro ⟨new, hnew, rfl⟩
    rw [mapM_openDelta_ok.mpr hnew]
    rfl

theorem Directory.Later.opens (hlater : dir.Later dir' manifest manifest' names) {base : Segment}
    {deltas new : List Segment} (hopen : Opens dir.disk manifest base deltas)
    (hnew : List.Forall₂ (fun g seg => dir'.disk.deltas g = some (some seg)) names new) :
    Opens dir'.disk manifest' base (deltas ++ new) where
  manifest_eq := hlater.after
  base_eq := by rw [hlater.base, hlater.base_kept, hopen.base_eq]
  deltas_eq := by
    rw [hlater.deltas]
    exact List.rel_append (deltas_congr hopen.deltas_eq hlater.deltas_kept) hnew

theorem SnapshotOf.same (h : SnapshotOf dir inner) :
    ∃ manifest base deltas, Opens dir.disk manifest base deltas ∧
      inner.Same (StoreInner.assemble manifest base deltas dir.manifestMtime) := by
  induction h with
  | loaded load =>
    obtain ⟨manifest, base, deltas, hopen, rfl⟩ := load_ok_iff.mp load
    exact ⟨manifest, base, deltas, hopen, StoreInner.Same.refl _⟩
  | extended before later extend ih =>
    obtain ⟨manifest, base, deltas, hopen, hsame⟩ := ih
    obtain rfl := Option.some.inj (hopen.manifest_eq.symm.trans later.before)
    obtain ⟨new, hnew, rfl⟩ := extend_ok_iff.mp extend
    exact ⟨_, base, deltas ++ new, later.opens hopen hnew, StoreInner.extendWith_same hsame _ _ new⟩

theorem extend_answers_eq_load (h : SnapshotOf dir prev)
    (hlater : dir.Later dir' manifest manifest' names) :
    (∀ warm, prev.extend dir'.disk manifest' dir'.manifestMtime names = .ok warm →
      ∃ cold, StoreInner.load dir' = .ok cold ∧ warm.Answers cold) ∧
    ∀ cold, StoreInner.load dir' = .ok cold →
      ∃ warm, prev.extend dir'.disk manifest' dir'.manifestMtime names = .ok warm ∧
        warm.Answers cold := by
  obtain ⟨m, base, deltas, hopen, hsame⟩ := h.same
  obtain rfl := Option.some.inj (hopen.manifest_eq.symm.trans hlater.before)
  constructor
  · intro warm hwarm
    obtain ⟨new, hnew, rfl⟩ := extend_ok_iff.mp hwarm
    exact ⟨_, load_ok_iff.mpr ⟨_, _, _, hlater.opens hopen hnew, rfl⟩,
      (StoreInner.extendWith_same hsame _ _ new).answers⟩
  · intro cold hcold
    obtain ⟨m', base', deltas', hopen', rfl⟩ := load_ok_iff.mp hcold
    obtain rfl := Option.some.inj (hopen'.manifest_eq.symm.trans hlater.after)
    have hall := hopen'.deltas_eq
    rw [hlater.deltas] at hall
    have hold := (List.forall₂_take_append _ _ _ hall.flip).flip
    have hnew := (List.forall₂_drop_append _ _ _ hall.flip).flip
    have hkept := deltas_congr hopen.deltas_eq hlater.deltas_kept
    rw [← mapM_openDelta_ok] at hkept hold
    have hdeltas : deltas ++ deltas'.drop m.deltas.length = deltas' := by
      rw [Except.ok.inj (hkept.symm.trans hold)]
      exact List.take_append_drop _ _
    have hbase : base = base' := by
      have hkept := hopen'.base_eq
      rw [hlater.base, hlater.base_kept, hopen.base_eq] at hkept
      exact Option.some.inj hkept
    refine ⟨_, extend_ok_iff.mpr ⟨_, hnew, rfl⟩, ?_⟩
    rw [← hbase]
    have hanswers := (StoreInner.extendWith_same hsame m' dir'.manifestMtime
      (deltas'.drop m.deltas.length)).answers
    rw [hdeltas] at hanswers
    exact hanswers

end Snapshot

section Written

variable [Sha256] {disk disk' : Disk} {reader : StoreReader} {input : DeltaInput} {roots : Roots}

theorem writeDelta_frame (h : writeDeltaWithReaderAndPending disk reader input =
      .ok (disk', roots)) :
    ∃ seg, input.Built reader (nextManifest reader input.generation roots) seg ∧
      disk'.manifest = some (nextManifest reader input.generation roots) ∧
      disk'.bases = disk.bases ∧
      disk'.deltas = Function.update disk.deltas input.generation (some (some seg)) := by
  unfold writeDeltaWithReaderAndPending at h
  obtain ⟨plan, hplan, h⟩ := ExceptOk.bind_eq_ok h
  cases h
  obtain ⟨hbuilt, hmanifest, ⟨rwrites, hr⟩, dwrites, hd⟩ := planDelta_spec hplan
  obtain ⟨trees, htrees⟩ := run_tree_frame
    (disk.run [.createDelta plan.manifest.generation,
      .fillDelta plan.manifest.generation plan.segment])
    .records rwrites
  obtain ⟨trees', htrees'⟩ := run_tree_frame { disk.run [.createDelta plan.manifest.generation,
    .fillDelta plan.manifest.generation plan.segment] with trees := trees } .dependency dwrites
  refine ⟨plan.segment, hmanifest ▸ hbuilt, ?_, ?_, ?_⟩
  all_goals
    unfold DeltaPlan.steps
    rw [Disk.run_append, Disk.run_append, Disk.run_append, hr, hd, htrees, htrees']
  · rw [← hmanifest]
    rfl
  · rfl
  · rw [← hbuilt.manifest_generation]
    simp [Disk.run, Disk.apply]

theorem writeDelta_later {mtime mtime' : ℕ} (hopen : StoreReader.open disk = .ok reader)
    (hfresh : input.generation ∉ reader.manifest.deltas)
    (h : writeDeltaWithReaderAndPending disk reader input = .ok (disk', roots)) :
    Directory.Later ⟨disk, mtime⟩ ⟨disk', mtime'⟩ reader.manifest
      (nextManifest reader input.generation roots) [input.generation] := by
  obtain ⟨manifest, base, deltas, hop, rfl⟩ := open_ok_iff.mp hopen
  obtain ⟨seg, -, hmanifest, hbases, hdeltas⟩ := writeDelta_frame h
  refine ⟨hop.manifest_eq, hmanifest, rfl, rfl, congrFun hbases _, ?_⟩
  intro g hg
  change disk'.deltas g = disk.deltas g
  rw [hdeltas]
  refine Function.update_of_ne ?_ _ _
  rintro rfl
  exact hfresh hg

theorem open_written (hopen : StoreReader.open disk = .ok reader)
    (hfresh : input.generation ∉ reader.manifest.deltas)
    (h : writeDeltaWithReaderAndPending disk reader input = .ok (disk', roots)) :
    ∃ seg, input.Built reader (nextManifest reader input.generation roots) seg ∧
      StoreReader.open disk' =
        .ok (reader.extend (nextManifest reader input.generation roots) seg) := by
  obtain ⟨seg, hbuilt, -, -, hdeltas⟩ := writeDelta_frame h
  have hlater : Directory.Later ⟨disk, 0⟩ ⟨disk', 0⟩ _ _ _ := writeDelta_later hopen hfresh h
  obtain ⟨old, base, segs, hop, rfl⟩ := open_ok_iff.mp hopen
  refine ⟨seg, hbuilt, open_ok_iff.mpr ⟨_, base, segs ++ [seg],
    hlater.opens hop (List.Forall₂.cons ?_ .nil),
      (StoreReader.load_append old _ base segs seg).symm⟩⟩
  change disk'.deltas input.generation = _
  rw [hdeltas]
  exact Function.update_self _ _ _

end Written

section Instances

def reopenBoth [Sha256] (base : BaseInput) (delta : DeltaInput) :
    Except Fault (StoreInner × StoreInner) := do
  let (disk, _) ← writeBaseWithPending Disk.empty base
  let reader ← StoreReader.open disk
  let prev ← StoreInner.load ⟨disk, 0⟩
  if delta.generation ∉ reader.manifest.deltas then
    let (disk', roots) ← writeDeltaWithReaderAndPending disk reader delta
    let warm ← prev.extend disk' (nextManifest reader delta.generation roots) 1 [delta.generation]
    let cold ← StoreInner.load ⟨disk', 1⟩
    .ok (warm, cold)
  else .error (.error "generation already published")

theorem reopenBoth_ok [Sha256] {base : BaseInput} {delta : DeltaInput} {warm cold : StoreInner}
    (h : reopenBoth base delta = .ok (warm, cold)) :
    ∃ dir dir' manifest manifest' names prev, SnapshotOf dir prev ∧
      dir.Later dir' manifest manifest' names ∧
      prev.extend dir'.disk manifest' dir'.manifestMtime names = .ok warm ∧
      StoreInner.load dir' = .ok cold := by
  unfold reopenBoth at h
  obtain ⟨⟨disk, baseRoots⟩, hbase, h⟩ := ExceptOk.bind_eq_ok h
  obtain ⟨reader, hopen, h⟩ := ExceptOk.bind_eq_ok h
  obtain ⟨prev, hprev, h⟩ := ExceptOk.bind_eq_ok h
  obtain ⟨hfresh, h⟩ := ExceptOk.ite_eq_ok h
  obtain ⟨⟨disk', roots⟩, hwrite, h⟩ := ExceptOk.bind_eq_ok h
  obtain ⟨warm', hwarm, h⟩ := ExceptOk.bind_eq_ok h
  obtain ⟨cold', hcold, h⟩ := ExceptOk.bind_eq_ok h
  cases h
  exact ⟨⟨disk, 0⟩, ⟨disk', 1⟩, _, _, _, prev, .loaded hprev, writeDelta_later hopen hfresh hwrite,
    hwarm, hcold⟩

def sharedOwnerBase : BaseInput := dependencyBase [plainDependency (Block.fill 32 1) 0 1]

def sharedOwnerDelta : DeltaInput := dependencyDelta [plainDependency (Block.fill 32 2) 0 2] [] 2

theorem extend_answers_eq_load_shared_owner :
    ∃ warm cold : StoreInner, warm.Answers cold ∧ cold.depsVisibleCount 2 = 2 := by
  let _ := fixedDigest
  have hrun : (reopenBoth sharedOwnerBase sharedOwnerDelta).map
      (fun state => state.2.depsVisibleCount 2) = .ok 2 := by
    decide +kernel
  obtain ⟨⟨warm, cold⟩, hboth, hcount⟩ := ExceptOk.map_eq_ok hrun
  obtain ⟨dir, dir', manifest, manifest', names, prev, hsnapshot, hlater, hwarm, hcold⟩ :=
    reopenBoth_ok hboth
  obtain ⟨cold', hcold', hanswers⟩ := (extend_answers_eq_load hsnapshot hlater).1 warm hwarm
  obtain rfl := Except.ok.inj (hcold.symm.trans hcold')
  exact ⟨warm, cold, hanswers, hcount⟩

theorem extend_reorders_deps_by_owner :
    ¬ ∀ (dir dir' : Directory) (manifest manifest' : Manifest) (names : List ℕ)
        (prev warm cold : StoreInner), SnapshotOf dir prev →
      dir.Later dir' manifest manifest' names →
      prev.extend dir'.disk manifest' dir'.manifestMtime names = .ok warm →
      StoreInner.load dir' = .ok cold →
      ∀ owner generation, warm.depsByOwner owner generation =
        cold.depsByOwner owner generation := by
  intro hall
  let _ := fixedDigest
  have hrun : (reopenBoth sharedOwnerBase sharedOwnerDelta).map
      (fun state => decide (state.1.depsByOwner 0 2 = state.2.depsByOwner 0 2)) = .ok false := by
    decide +kernel
  obtain ⟨⟨warm, cold⟩, hboth, hfalse⟩ := ExceptOk.map_eq_ok hrun
  obtain ⟨dir, dir', manifest, manifest', names, prev, hsnapshot, hlater, hwarm, hcold⟩ :=
    reopenBoth_ok hboth
  exact of_decide_eq_false hfalse
    (hall dir dir' manifest manifest' names prev warm cold hsnapshot hlater hwarm hcold 0 2)

end Instances

end StructuralStore
