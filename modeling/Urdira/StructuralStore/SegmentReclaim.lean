import Urdira.Lib.ExceptOk
import Urdira.StructuralStore.ReaderMarkers
import Urdira.StructuralStore.CompactRun

open ByteOrder KeyedSet MerkleBucket

namespace StructuralStore

structure MarkedStore where
  disk : Disk
  markers : Markers

structure Process where
  pid : Fin (2 ^ 32)
  nonce : ℕ
  nanos : ℕ
  alive : ℕ → Bool
  running : alive pid = true

namespace Disk

def present (disk : Disk) : SegmentName → Bool
  | .base generation => (disk.bases generation).isSome
  | .delta generation => (disk.deltas generation).isSome

def removeSegment (disk : Disk) : SegmentName → Disk
  | .base generation => { disk with bases := Function.update disk.bases generation none }
  | .delta generation => { disk with deltas := Function.update disk.deltas generation none }

end Disk

structure Reclaimed where
  store : MarkedStore
  roots : Roots
  removed : List SegmentName

section Compact

variable [Sha256]

-- write_base_with_pending starts with remove_dir_all of the directory it is about to write.
def clearedBase (disk : Disk) (generation : ℕ) : List SegmentName :=
  if disk.present (.base generation) then [.base generation] else []

def compactReclaiming (process : Process) (store : MarkedStore) (newGeneration : ℕ) :
    Except Fault Reclaimed := do
  let reader ← StoreReader.open store.disk
  let oldNames := reader.manifest.segmentNames
  let registered :=
    register store.markers process.pid process.nonce process.nanos (oldNames.map SegmentName.text)
  let (disk, roots) ← writeBaseWithPending store.disk (compactInput reader newGeneration)
  let (inUse, markers) := segmentsInUse process.alive registered
  let superseded := oldNames.filter (fun name => !inUse.contains name.text && disk.present name)
  .ok
    { store :=
        { disk := superseded.foldl Disk.removeSegment disk
          markers := AssocMap.erase markers (markerName process.pid process.nonce process.nanos) }
      roots := roots
      removed := clearedBase store.disk newGeneration ++ superseded }

end Compact

section Reclaim

variable {process : Process} {store : MarkedStore} {newGeneration : ℕ} {result : Reclaimed}
  {reader : StoreReader}

def PinnedByOther (process : Process) (store : MarkedStore) (name : SegmentName) : Prop :=
  Pinned process.alive store.markers name.text

structure ReclaimsSegments (process : Process) (store : MarkedStore) (result : Reclaimed) :
    Prop where
  published : ∀ manifest, result.store.disk.manifest = some manifest →
    ∀ name ∈ manifest.segmentNames, result.store.disk.present name = true
  pinned : ∀ name ∈ result.removed, ¬ PinnedByOther process store name
  superseded : ∀ old manifest, store.disk.manifest = some old →
    result.store.disk.manifest = some manifest →
    ∀ name ∈ old.segmentNames, name ∉ manifest.segmentNames → ¬ PinnedByOther process store name →
      result.store.disk.present name = false

theorem deltas_present {disk : Disk} {generations : List ℕ} {segs : List Segment}
    (h : List.Forall₂ (fun g seg => disk.deltas g = some (some seg)) generations segs) :
    ∀ g ∈ generations, disk.present (.delta g) = true := by
  induction h with
  | nil => exact List.forall_mem_nil _
  | cons hseg _ ih =>
    refine List.forall_mem_cons.mpr ⟨?_, ih⟩
    rw [Disk.present, hseg]
    rfl

theorem present_of_open {disk : Disk} (h : StoreReader.open disk = .ok reader) :
    disk.manifest = some reader.manifest ∧
      ∀ name ∈ reader.manifest.segmentNames, disk.present name = true := by
  obtain ⟨manifest, base, deltas, hopens, rfl⟩ := open_ok_iff.mp h
  refine ⟨hopens.manifest_eq, List.forall_mem_cons.mpr ⟨?_, ?_⟩⟩
  · change disk.present (.base manifest.base) = true
    rw [Disk.present, hopens.base_eq]
    rfl
  · exact List.forall_mem_map.mpr (deltas_present hopens.deltas_eq)

theorem writeBase_present [Sha256] {disk disk' : Disk} {input : BaseInput} {roots : Roots}
    (h : writeBaseWithPending disk input = .ok (disk', roots)) :
    disk'.manifest = some (baseManifest input.generation roots) ∧
      disk'.present (.base input.generation) = true ∧
      ∀ name, name ≠ .base input.generation → disk'.present name = disk.present name := by
  unfold writeBaseWithPending publishBase at h
  obtain ⟨seg, -, h⟩ := ExceptOk.bind_eq_ok h
  obtain ⟨recordsSet, -, h⟩ := ExceptOk.bind_eq_ok h
  obtain ⟨depSet, -, h⟩ := ExceptOk.bind_eq_ok h
  cases h
  refine ⟨rfl, ?_, fun name hne => ?_⟩
  · rw [Disk.present]
    simp
  · cases name with
    | base generation =>
      have hg : generation ≠ input.generation := fun heq => hne (congrArg SegmentName.base heq)
      rw [Disk.present, Disk.present]
      simp [hg]
    | delta generation => rfl

theorem superseded_eq_nil {old : Manifest} (disk : Disk) :
    old.segmentNames.filter (fun name =>
      !(segmentsInUse process.alive (register store.markers process.pid process.nonce process.nanos
        (old.segmentNames.map SegmentName.text))).1.contains name.text && disk.present name) =
          [] := by
  refine List.filter_eq_nil_iff.mpr fun name hname => ?_
  have hpinned :
      Pinned process.alive (register store.markers process.pid process.nonce process.nanos
      (old.segmentNames.map SegmentName.text)) name.text :=
    pinned_register process.running process.pid.isLt (List.mem_map_of_mem hname)
  have huse := List.elem_eq_true_of_mem (mem_segmentsInUse.mpr hpinned)
  rw [List.contains, huse]
  exact Bool.false_ne_true

theorem mem_clearedBase {disk : Disk} {name : SegmentName} :
    name ∈ clearedBase disk newGeneration ↔ name = .base newGeneration ∧
      disk.present (.base newGeneration) = true := by
  unfold clearedBase
  split_ifs with hpresent
  · simp [hpresent]
  · simp [hpresent]

structure Compacts (store : MarkedStore) (newGeneration : ℕ) (result : Reclaimed) (old : Manifest) :
    Prop where
  replaced : store.disk.manifest = some old
  stored : ∀ name ∈ old.segmentNames, store.disk.present name = true
  published : ∃ roots, result.store.disk.manifest = some (baseManifest newGeneration roots)
  written : result.store.disk.present (.base newGeneration) = true
  kept : ∀ name, name ≠ .base newGeneration → result.store.disk.present name =
    store.disk.present name
  removed : result.removed = clearedBase store.disk newGeneration

variable [Sha256]

theorem compactReclaiming_spec (h : compactReclaiming process store newGeneration = .ok result) :
    ∃ old, Compacts store newGeneration result old := by
  unfold compactReclaiming at h
  obtain ⟨reader, hopen, h⟩ := ExceptOk.bind_eq_ok h
  obtain ⟨⟨disk, roots⟩, hwrite, h⟩ := ExceptOk.bind_eq_ok h
  obtain ⟨hmanifest, hpresent⟩ := present_of_open hopen
  obtain ⟨hpublished, hwritten, hkept⟩ := writeBase_present hwrite
  dsimp only at h
  rw [superseded_eq_nil disk] at h
  obtain rfl := Except.ok.inj h
  exact ⟨reader.manifest, hmanifest, hpresent, ⟨roots, hpublished⟩, hwritten, hkept,
    List.append_nil _⟩

theorem compactReclaiming_reclaims_iff
    (h : compactReclaiming process store newGeneration = .ok result) :
    ReclaimsSegments process store result ↔
      (store.disk.present (.base newGeneration) = true →
        ¬ PinnedByOther process store (.base newGeneration)) ∧
      ∀ old, store.disk.manifest = some old →
        ∀ name ∈ old.segmentNames, name ≠ .base newGeneration →
          PinnedByOther process store name := by
  obtain ⟨old, hspec⟩ := compactReclaiming_spec h
  obtain ⟨roots, hpublished⟩ := hspec.published
  constructor
  · intro hreclaims
    constructor
    · intro hpresent
      refine hreclaims.pinned _ ?_
      rw [hspec.removed]
      exact mem_clearedBase.mpr ⟨rfl, hpresent⟩
    · intro old' hold name hname hne
      obtain rfl := Option.some.inj (hspec.replaced.symm.trans hold)
      by_contra hnot
      have hnew : name ∉ (baseManifest newGeneration roots).segmentNames := fun hmem =>
        hne (List.mem_singleton.mp hmem)
      have hgone := hreclaims.superseded old _ hspec.replaced hpublished name hname hnew hnot
      rw [hspec.kept name hne, hspec.stored name hname] at hgone
      cases hgone
  · rintro ⟨hbase, hpinned⟩
    refine ⟨?_, ?_, ?_⟩
    · intro manifest hmanifest name hname
      obtain rfl := Option.some.inj (hpublished.symm.trans hmanifest)
      rw [List.mem_singleton.mp hname]
      exact hspec.written
    · intro name hname
      rw [hspec.removed] at hname
      obtain ⟨rfl, hpresent⟩ := mem_clearedBase.mp hname
      exact hbase hpresent
    · intro old' manifest hold hmanifest name hname hnew hnot
      obtain rfl := Option.some.inj (hpublished.symm.trans hmanifest)
      have hne : name ≠ .base newGeneration := fun heq => hnew (heq ▸ List.mem_cons_self ..)
      exact absurd (hpinned old' hold name hname hne) hnot

end Reclaim

section Instances

def compactor : Process where
  pid := 7
  nonce := 1
  nanos := 0
  alive pid := pid == 7 || pid == 8
  running := rfl

abbrev emptyBase [Sha256] : Except Fault (Disk × Roots) :=
  writeBaseWithPending .empty (dependencyBase [])

theorem superseded_base_left :
    let _ : Sha256 := fixedDigest
    ∃ disk roots result, emptyBase = .ok (disk, roots) ∧
      compactReclaiming compactor ⟨disk, []⟩ 2 = .ok result ∧
        ¬ ReclaimsSegments compactor ⟨disk, []⟩ result := by
  intro _
  have hrun : (do
      let state ← emptyBase
      let result ← compactReclaiming compactor ⟨state.1, []⟩ 2
      Except.ok (state.1.manifest.map Manifest.base,
        result.store.disk.manifest.map Manifest.segmentNames,
        result.store.disk.present (.base 1))) =
          .ok (some 1, some [.base 2], true) := by decide +kernel
  obtain ⟨⟨disk, roots⟩, hbase, hrun⟩ := ExceptOk.bind_eq_ok hrun
  obtain ⟨result, hcompact, hrun⟩ := ExceptOk.bind_eq_ok hrun
  obtain ⟨hold, hrest⟩ := Prod.mk.inj (Except.ok.inj hrun)
  obtain ⟨hnew, hpresent⟩ := Prod.mk.inj hrest
  refine ⟨disk, roots, result, hbase, hcompact, fun hreclaims => ?_⟩
  obtain ⟨old, hmanifest, hbaseName⟩ := Option.map_eq_some_iff.mp hold
  obtain ⟨manifest, hpublished, hnames⟩ := Option.map_eq_some_iff.mp hnew
  have hgone := hreclaims.superseded old manifest hmanifest hpublished (.base 1)
    (hbaseName ▸ List.mem_cons_self ..)
      (by rw [hnames]; decide) (by rintro ⟨marker, hmem, -⟩; cases hmem)
  rw [hpresent] at hgone
  cases hgone

theorem compactReclaiming_reclaims_pinned :
    let _ : Sha256 := fixedDigest
    ∃ disk roots result, emptyBase = .ok (disk, roots) ∧
      compactReclaiming compactor ⟨disk, [("8-0-0", some ["base-1"])]⟩ 2 = .ok result ∧
        ReclaimsSegments compactor ⟨disk, [("8-0-0", some ["base-1"])]⟩ result := by
  intro _
  have hrun : (do
      let state ← emptyBase
      let result ← compactReclaiming compactor ⟨state.1, [("8-0-0", some ["base-1"])]⟩ 2
      Except.ok (state.1.manifest.map Manifest.segmentNames, state.1.present (.base 2),
        result.removed.length)) =
        .ok (some [.base 1], false, 0) := by decide +kernel
  obtain ⟨⟨disk, roots⟩, hbase, hrun⟩ := ExceptOk.bind_eq_ok hrun
  obtain ⟨result, hcompact, hrun⟩ := ExceptOk.bind_eq_ok hrun
  obtain ⟨hold, hrest⟩ := Prod.mk.inj (Except.ok.inj hrun)
  obtain ⟨habsent, -⟩ := Prod.mk.inj hrest
  refine ⟨disk, roots, result, hbase, hcompact,
    (compactReclaiming_reclaims_iff hcompact).mpr ⟨?_, ?_⟩⟩
  · intro hpresent
    rw [habsent] at hpresent
    cases hpresent
  · intro old hmanifest name hname _
    rw [hmanifest] at hold
    rw [Option.some.inj hold] at hname
    rw [List.mem_singleton.mp hname]
    have hpid : markerPid "8-0-0" = some 8 := by decide +kernel
    have hname : "base-1" = SegmentName.text (.base 1) := by decide +kernel
    exact ⟨_, List.mem_singleton_self _, 8, hpid, rfl, _, rfl, hname ▸ List.mem_singleton_self _⟩

end Instances

end StructuralStore
