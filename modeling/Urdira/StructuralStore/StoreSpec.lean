import Urdira.StructuralStore.ReaderSpec
import Urdira.StructuralStore.Writer
import Urdira.Lib.ExceptOk

open ByteOrder KeyedSet MerkleBucket

namespace StructuralStore

structure Opens (disk : Disk) (manifest : Manifest) (base : Segment) (deltas : List Segment) :
    Prop where
  manifest_eq : disk.manifest = some manifest
  base_eq : disk.bases manifest.base = some base
  deltas_eq : List.Forall₂ (fun g seg => disk.deltas g = some (some seg)) manifest.deltas deltas

theorem deltas_congr {disk disk' : Disk} {gs : List ℕ} {segs : List Segment}
    (h : List.Forall₂ (fun g seg => disk.deltas g = some (some seg)) gs segs)
    (heq : ∀ g ∈ gs, disk'.deltas g = disk.deltas g) :
    List.Forall₂ (fun g seg => disk'.deltas g = some (some seg)) gs segs := by
  rw [List.forall₂_iff_zip] at h ⊢
  refine ⟨h.1, fun {g seg} hmem => ?_⟩
  rw [heq g (List.of_mem_zip hmem).1]
  exact h.2 hmem

theorem openDelta_ok {disk : Disk} {g : ℕ} {seg : Segment} :
    openDelta disk g = .ok seg ↔ disk.deltas g = some (some seg) := by
  unfold openDelta
  split
  · rename_i seg' hseg
    rw [hseg]
    simp
  · rename_i hnone
    constructor
    · intro h
      cases h
    · intro h
      exact absurd h (hnone seg)

theorem mapM_openDelta_ok {disk : Disk} {gs : List ℕ} {segs : List Segment} :
    gs.mapM (openDelta disk) = .ok segs ↔
      List.Forall₂ (fun g seg => disk.deltas g = some (some seg)) gs segs := by
  induction gs generalizing segs with
  | nil =>
    rw [List.mapM_nil, List.forall₂_nil_left_iff]
    constructor
    · intro h
      exact (Except.ok.inj h).symm
    · rintro rfl
      rfl
  | cons g gs ih =>
    rw [List.mapM_cons]
    constructor
    · intro h
      obtain ⟨seg, hg, h⟩ := ExceptOk.bind_eq_ok h
      obtain ⟨rest, hgs, h⟩ := ExceptOk.bind_eq_ok h
      obtain rfl := Except.ok.inj h
      exact List.Forall₂.cons (openDelta_ok.mp hg) (ih.mp hgs)
    · intro h
      cases h with
      | cons hg hgs =>
        rw [openDelta_ok.mpr hg, ih.mpr hgs]
        rfl

theorem open_ok_iff {disk : Disk} {reader : StoreReader} :
    StoreReader.open disk = .ok reader ↔
      ∃ manifest base deltas, Opens disk manifest base deltas ∧
        reader = StoreReader.load manifest base deltas := by
  unfold StoreReader.open
  constructor
  · intro h
    cases hm : disk.manifest with
    | none => rw [hm] at h; cases h
    | some manifest =>
      rw [hm] at h
      cases hb : disk.bases manifest.base with
      | none => simp only [hb] at h; cases h
      | some base =>
        simp only [hb] at h
        obtain ⟨deltas, hd, h⟩ := ExceptOk.bind_eq_ok h
        exact ⟨manifest, base, deltas, ⟨hm, hb, mapM_openDelta_ok.mp hd⟩, (Except.ok.inj h).symm⟩
  · rintro ⟨manifest, base, deltas, hopen, rfl⟩
    simp only [hopen.manifest_eq, hopen.base_eq, mapM_openDelta_ok.mpr hopen.deltas_eq]
    rfl

namespace StoreReader

def extend (reader : StoreReader) (manifest : Manifest) (seg : Segment) : StoreReader where
  manifest := manifest
  segments := seg :: reader.segments
  dicts := reader.dicts.append seg.dict
  recordClosures := AssocMap.insertAll reader.recordClosures seg.closuresRecords
  depClosures := reader.depClosures ++ seg.closuresDeps
  pendingClosures := reader.pendingClosures ++ seg.closuresPending

theorem load_append (manifest manifest' : Manifest) (base : Segment) (deltas : List Segment)
    (seg : Segment) :
    load manifest' base (deltas ++ [seg]) = (load manifest base deltas).extend manifest' seg := by
  unfold load extend
  simp [List.foldl_append, List.flatMap_append]

@[simp] theorem extend_rows (reader : StoreReader) (manifest : Manifest) (seg : Segment) :
    (reader.extend manifest seg).rows = seg.rows ++ reader.rows := by
  simp [rows, extend]

@[simp] theorem extend_deps (reader : StoreReader) (manifest : Manifest) (seg : Segment) :
    (reader.extend manifest seg).deps = seg.deps ++ reader.deps := by
  simp [deps, extend]

@[simp] theorem extend_pendingSites (reader : StoreReader) (manifest : Manifest) (seg : Segment) :
    (reader.extend manifest seg).pendingSites = seg.pending ++ reader.pendingSites := by
  simp [pendingSites, extend]

@[simp] theorem extend_generation (reader : StoreReader) (manifest : Manifest) (seg : Segment) :
    (reader.extend manifest seg).generation = manifest.generation := rfl

theorem isVisible_extend_congr (reader : StoreReader) (manifest manifest' : Manifest)
    (seg : Segment)
    (row : StoredRow) (generation : ℕ) :
    (reader.extend manifest seg).isVisible row generation =
      (reader.extend manifest' seg).isVisible row generation := rfl

theorem depIsVisible_extend_congr (reader : StoreReader) (manifest manifest' : Manifest)
    (seg : Segment)
    (dep : DependencyRow) (generation : ℕ) :
    (reader.extend manifest seg).depIsVisible dep generation =
      (reader.extend manifest' seg).depIsVisible dep generation := rfl

end StoreReader

theorem Disk.run_append (disk : Disk) (xs ys : List FsStep) :
    disk.run (xs ++ ys) = (disk.run xs).run ys :=
  List.foldl_append

theorem SegmentInput.build_ok {input : SegmentInput} {seg : Segment} (h : input.build = .ok seg) :
    seg.rows = input.rows ∧ seg.deps = sortOn DependencyRow.dependencyId input.deps ∧
      seg.pending = sortOn PendingSiteRow.key input.pending ∧ seg.dict = input.dictSection ∧
      seg.closuresRecords = sortOn Prod.fst input.closures ∧
      seg.closuresDeps = sortOn Prod.fst input.depsClosures ∧
      seg.closuresPending = sortOn Prod.fst input.pendingClosures ∧
      seg.entitiesIndex = entitiesIndexWith input.keyStart input.dicts input.ordered ∧
      seg.generation = input.generation := by
  unfold SegmentInput.build at h
  obtain ⟨pending, hp, h⟩ := ExceptOk.bind_eq_ok h
  obtain rfl := Except.ok.inj h
  refine ⟨rfl, rfl, ?_, rfl, rfl, rfl, rfl, rfl, rfl⟩
  unfold encodePendingSitesBody at hp
  dsimp only at hp
  split at hp
  · cases hp
  · obtain rfl := Except.ok.inj hp
    rfl

theorem hasDuplicateKey_eq_false {rows : List PendingSiteRow}
    (h : (rows.map PendingSiteRow.key).Nodup) : hasDuplicateKey rows = false := by
  induction rows with
  | nil => rfl
  | cons a rows ih =>
    cases rows with
    | nil => rfl
    | cons b rest =>
      rw [List.map_cons, List.nodup_cons] at h
      simp only [hasDuplicateKey, Bool.or_eq_false_iff, decide_eq_false_iff_not]
      refine ⟨fun hab => h.1 ?_, ih h.2⟩
      rw [hab]
      simp

theorem SegmentInput.build_isOk (input : SegmentInput)
    (h : (input.pending.map PendingSiteRow.key).Nodup) : ∃ seg, input.build = .ok seg := by
  have hdup : hasDuplicateKey (sortOn PendingSiteRow.key input.pending) = false :=
    hasDuplicateKey_eq_false (((sortOn_perm _ _).map _).nodup_iff.mpr h)
  unfold SegmentInput.build encodePendingSitesBody
  simp only [hdup, Bool.false_eq_true, dite_false]
  exact ⟨_, rfl⟩

end StructuralStore
