import Urdira.StructuralStore.DeltaRun

open ByteOrder KeyedSet MerkleBucket BucketedMerkleSet

namespace StructuralStore

section Invariant

variable [Sha256]

structure StoreOk (disk : Disk) (reader : StoreReader) : Prop where
  opens : StoreReader.open disk = .ok reader
  ledger : reader.Ledger
  trees : reader.TreesOk disk
  manifest_roots : reader.manifest.recordsRoot = reader.roots.recordsRoot ∧
    reader.manifest.dependencyRoot = reader.roots.dependencyRoot

theorem StoreOk.functional {disk : Disk} {reader : StoreReader} (h : StoreOk disk reader) :
    Functional Prod.fst (reader.visible.map (fun row => recordEntry row.toRecordFields)) := by
  obtain ⟨file, -, hrep⟩ := h.trees.records
  exact hrep.functional

theorem recomputeRootsFromScratch_eq {reader : StoreReader}
    (hf : Functional Prod.fst (reader.visible.map (fun row => recordEntry row.toRecordFields))) :
    recomputeRootsFromScratch reader reader.generation =
      .ok (reader.roots.recordsRoot, reader.roots.dependencyRoot) := by
  have hperm : ((reader.iterVisible reader.generation).map
      (fun row => recordEntry row.toRecordFields)).Perm
      (reader.visible.map (fun row => recordEntry row.toRecordFields)) :=
    (reader.iterVisible_perm reader.generation).map _
  have hf' := hf.mono (fun e he => hperm.mem_iff.mp he)
  obtain ⟨records, hrecords, hrrep⟩ := fromSorted_ok hf'
  obtain ⟨deps, hdeps, hdrep⟩ := fromSorted_ok (functional_depEntry reader.visibleDeps)
  have hrroot : records.root = reader.roots.recordsRoot := by
    rw [hrrep.root_eq]
    exact specRoot_congr hf' (fun e => hperm.mem_iff)
  have hdroot : deps.root = reader.roots.dependencyRoot := hdrep.root_eq
  unfold recomputeRootsFromScratch
  rw [reader.iterVisibleDeps_eq]
  have hrecords' : fromSorted ((reader.iterVisible reader.generation).map
      (fun row => (row.recordId, row.recordDigest))) = .ok records := hrecords
  have hdeps' : fromSorted ((reader.deps.filter
      (fun dep => reader.depIsVisible dep reader.generation)).map
      (fun dep => (dep.dependencyId, dependencyLogical dep.dependencyId))) = .ok deps := hdeps
  rw [hrecords', hdeps', ← hrroot, ← hdroot]
  rfl

end Invariant

section Base

structure BaseInput.Valid (input : BaseInput) : Prop where
  rows_valid : ∀ row ∈ input.rows, row.validFrom ≤ input.generation ∧ row.validTo = 0
  rows_ne_max : ∀ row ∈ input.rows, row.recordId ≠ maxKey
  deps_valid : ∀ dep ∈ input.deps, dep.validFrom ≤ input.generation ∧ dep.validTo = 0
  deps_ne_max : ∀ dep ∈ input.deps, dep.dependencyId ≠ maxKey
  pending_valid : ∀ site ∈ input.pendingSites, site.validFrom ≤ input.generation ∧ site.validTo = 0

def baseManifest (generation : ℕ) (roots : Roots) : Manifest where
  generation := generation
  base := generation
  deltas := []
  recordsRoot := roots.recordsRoot
  dependencyRoot := roots.dependencyRoot
  dictGeneration := generation

instance (input : BaseInput) : Decidable input.Valid :=
  decidable_of_iff
    ((∀ row ∈ input.rows, row.validFrom ≤ input.generation ∧ row.validTo = 0) ∧
      (∀ row ∈ input.rows, row.recordId ≠ maxKey) ∧
      (∀ dep ∈ input.deps, dep.validFrom ≤ input.generation ∧ dep.validTo = 0) ∧
      (∀ dep ∈ input.deps, dep.dependencyId ≠ maxKey) ∧
      ∀ site ∈ input.pendingSites, site.validFrom ≤ input.generation ∧ site.validTo = 0)
    ⟨fun ⟨h₁, h₂, h₃, h₄, h₅⟩ => ⟨h₁, h₂, h₃, h₄, h₅⟩, fun h => ⟨h.1, h.2, h.3, h.4, h.5⟩⟩

structure BaseInput.Built (input : BaseInput) (ordered : List RecordRow) (seg : Segment) :
    Prop where
  perm : ordered.Perm input.rows
  rows_eq : seg.rows = ordered.map (fun row =>
    IdentityCodec.classifyIdentity row input.fullDicts (IdentityCodec.batchIndex input.rows))
  deps_eq : seg.deps = sortOn DependencyRow.dependencyId input.deps
  pending_eq : seg.pending = sortOn PendingSiteRow.key input.pendingSites
  dict_eq : seg.dict = input.fullDicts
  entities_eq : seg.entitiesIndex = entitiesIndexWith entitiesIndexKeyStart input.fullDicts ordered

namespace BaseInput.Built

variable {input : BaseInput} {ordered : List RecordRow} {seg : Segment} {manifest : Manifest}

theorem map_rows {β : Type} (h : input.Built ordered seg) (f : RecordFields → β) :
    (seg.rows.map (fun row => f row.toRecordFields)).Perm
      (input.rows.map (fun row => f row.toRecordFields)) := by
  rw [h.rows_eq, List.map_map]
  exact h.perm.map _

theorem mem_rows (h : input.Built ordered seg) {row : StoredRow} (hrow : row ∈ seg.rows) :
    ∃ orig ∈ input.rows, row.toRecordFields = orig.toRecordFields := by
  rw [h.rows_eq] at hrow
  obtain ⟨orig, horig, rfl⟩ := List.mem_map.mp hrow
  exact ⟨orig, h.perm.mem_iff.mp horig, rfl⟩

theorem deps_perm (h : input.Built ordered seg) : seg.deps.Perm input.deps := by
  rw [h.deps_eq]
  exact sortOn_perm _ _

theorem pending_perm (h : input.Built ordered seg) : seg.pending.Perm input.pendingSites := by
  rw [h.pending_eq]
  exact sortOn_perm _ _

theorem ledger (h : input.Built ordered seg) (hv : input.Valid)
    (hgen : manifest.generation = input.generation) (hdeltas : manifest.deltas = []) :
    (StoreReader.load manifest seg []).Ledger where
  rows_valid := by
    intro row hrow
    obtain ⟨orig, horig, heq⟩ :=
      h.mem_rows (by simpa [StoreReader.rows, StoreReader.load] using hrow)
    rw [heq, StoreReader.generation]
    change orig.validFrom ≤ manifest.generation ∧ orig.validTo = 0
    rw [hgen]
    exact hv.rows_valid orig horig
  closures_valid := by simp [StoreReader.load]
  closures_rows := by simp [StoreReader.load]
  deps_valid := by
    intro dep hdep
    change dep.validFrom ≤ manifest.generation ∧ dep.validTo = 0
    rw [hgen]
    exact hv.deps_valid dep
      (h.deps_perm.mem_iff.mp (by simpa [StoreReader.deps, StoreReader.load] using hdep))
  depClosures_valid := by simp [StoreReader.load]
  pending_valid := by
    intro site hsite
    change site.validFrom ≤ manifest.generation ∧ site.validTo = 0
    rw [hgen]
    exact hv.pending_valid site
      (h.pending_perm.mem_iff.mp
        (by simpa [StoreReader.pendingSites, StoreReader.load] using hsite))
  pendingClosures_valid := by simp [StoreReader.load]
  rows_ne_max := by
    intro row hrow
    obtain ⟨orig, horig, heq⟩ :=
      h.mem_rows (by simpa [StoreReader.rows, StoreReader.load] using hrow)
    rw [heq]
    exact hv.rows_ne_max orig horig
  deps_ne_max := by
    intro dep hdep
    exact hv.deps_ne_max dep
      (h.deps_perm.mem_iff.mp (by simpa [StoreReader.deps, StoreReader.load] using hdep))
  deltas_le := by simp [StoreReader.load, hdeltas]

end BaseInput.Built

theorem StoreReader.load_visible {input : BaseInput} {ordered : List RecordRow} {seg : Segment}
    (manifest : Manifest) (h : input.Built ordered seg) (hv : input.Valid)
    (hgen : manifest.generation = input.generation) (hdeltas : manifest.deltas = []) :
    (StoreReader.load manifest seg []).visible = seg.rows ∧
      (StoreReader.load manifest seg []).visibleDeps = seg.deps ∧
      (StoreReader.load manifest seg []).visiblePending = seg.pending := by
  have hl := h.ledger hv hgen hdeltas
  have hrows : (StoreReader.load manifest seg []).rows = seg.rows := by
    simp [StoreReader.rows, StoreReader.load]
  have hdeps : (StoreReader.load manifest seg []).deps = seg.deps := by
    simp [StoreReader.deps, StoreReader.load]
  have hpending : (StoreReader.load manifest seg []).pendingSites = seg.pending := by
    simp [StoreReader.pendingSites, StoreReader.load]
  refine ⟨?_, ?_, ?_⟩
  · rw [StoreReader.visible, hrows, List.filter_eq_self]
    intro row hrow
    rw [hl.isVisible_iff (hrows ▸ hrow)]
    rfl
  · rw [StoreReader.visibleDeps, hdeps, List.filter_eq_self]
    intro dep hdep
    rw [hl.depIsVisible_iff (hdeps ▸ hdep)]
    simp [StoreReader.load]
  · rw [StoreReader.visiblePending, hpending, List.filter_eq_self]
    intro site hsite
    rw [hl.pendingIsVisible_iff (hpending ▸ hsite)]
    simp [StoreReader.load]

end Base

section Publish

variable [Sha256]

structure Disk.PublishedBase (disk : Disk) (manifest : Manifest) (seg : Segment)
    (records deps : List (Digest32 × Digest32)) : Prop where
  opens : Opens disk manifest seg []
  records : ∃ file, disk.trees .records = some file ∧ (readFrom file).1.Represents records
  dependency : ∃ file, disk.trees .dependency = some file ∧ (readFrom file).1.Represents deps

theorem fromSorted_represents {S : List (Digest32 × Digest32)} {set : BucketedMerkleSet}
    (h : fromSorted S = .ok set) : set.Represents S := by
  by_cases hconf : hasConflict (sortOn Prod.fst S) = true
  · unfold fromSorted at h
    simp only [hconf, if_true] at h
    cases h
  · obtain ⟨set', hset', hrep⟩ := fromSorted_ok ((hasConflict_sortOn S).mp (by simpa using hconf))
    rw [h] at hset'
    cases hset'
    exact hrep

theorem publishBase_spec {disk disk' : Disk} {input : BaseInput} {ordered : List RecordRow}
    {hs : ordered.Pairwise (fun a b => a.recordId ≤ b.recordId)} {roots : Roots}
    (hperm : ordered.Perm input.rows)
    (h : publishBase disk input (input.sections ordered hs) = .ok (disk', roots)) :
    ∃ seg, input.Built ordered seg ∧
      disk'.PublishedBase (baseManifest input.generation roots) seg
        (recordEntries input.rows input.generation)
        (dependencyEntries input.deps input.generation) ∧
      roots = ⟨specRoot (recordEntries input.rows input.generation),
        specRoot (dependencyEntries input.deps input.generation)⟩ := by
  unfold publishBase at h
  obtain ⟨seg, hseg, h⟩ := ExceptOk.bind_eq_ok h
  obtain ⟨recordsSet, hr, h⟩ := ExceptOk.bind_eq_ok h
  obtain ⟨depSet, hd, h⟩ := ExceptOk.bind_eq_ok h
  cases h
  have hrrep := fromSorted_represents hr
  have hdrep := fromSorted_represents hd
  obtain ⟨h₁, h₂, h₃, h₄, -, -, -, h₅, -⟩ := SegmentInput.build_ok hseg
  refine ⟨seg, ⟨hperm, h₁, h₂, h₃, h₄, h₅⟩, ⟨⟨rfl, ?_, List.Forall₂.nil⟩, ?_, ?_⟩, ?_⟩
  · simp [baseManifest]
  · exact ⟨recordsSet.writeTo .records input.generation, by simp, hrrep.readFrom_writeTo _ _⟩
  · exact ⟨depSet.writeTo .dependency input.generation, by simp, hdrep.readFrom_writeTo _ _⟩
  · rw [hrrep.root_eq, hdrep.root_eq]

theorem publishBase_ok {disk disk' : Disk} {input : BaseInput} {ordered : List RecordRow}
    {hs : ordered.Pairwise (fun a b => a.recordId ≤ b.recordId)} {roots : Roots}
    (hv : input.Valid) (hperm : ordered.Perm input.rows)
    (h : publishBase disk input (input.sections ordered hs) = .ok (disk', roots)) :
    ∃ seg, input.Built ordered seg ∧
      StoreOk disk' (StoreReader.load (baseManifest input.generation roots) seg []) ∧
      roots = (StoreReader.load (baseManifest input.generation roots) seg []).roots := by
  obtain ⟨seg, hbuilt, hpub, hroots⟩ := publishBase_spec hperm h
  have hl : (StoreReader.load (baseManifest input.generation roots) seg []).Ledger :=
    hbuilt.ledger hv rfl rfl
  obtain ⟨hvis, hvisDeps, -⟩ :=
    StoreReader.load_visible (baseManifest input.generation roots) hbuilt hv rfl rfl
  rw [recordEntries_eq hv.rows_valid, dependencyEntries_eq hv.deps_valid] at hpub hroots
  have hrows : ∀ e, e ∈ input.rows.map (fun row => recordEntry row.toRecordFields) ↔
      e ∈ (StoreReader.load (baseManifest input.generation roots) seg []).visible.map
        (fun row => recordEntry row.toRecordFields) := by
    intro e
    rw [hvis, (hbuilt.map_rows recordEntry).mem_iff]
  have hdeps : ∀ e, e ∈ input.deps.map depEntry ↔
      e ∈ (StoreReader.load (baseManifest input.generation roots) seg []).visibleDeps.map
        depEntry := by
    intro e
    rw [hvisDeps, (hbuilt.deps_perm.map depEntry).mem_iff]
  obtain ⟨rfile, hrfile, hrrep⟩ := hpub.records
  obtain ⟨dfile, hdfile, hdrep⟩ := hpub.dependency
  have hroots' : roots = (StoreReader.load (baseManifest input.generation roots) seg []).roots := by
    conv_lhs => rw [hroots]
    unfold StoreReader.roots
    rw [specRoot_congr hrrep.functional hrows, specRoot_congr hdrep.functional hdeps]
  refine ⟨seg, hbuilt, ⟨open_ok_iff.mpr ⟨_, seg, [], hpub.opens, rfl⟩, hl, ⟨?_, ?_⟩, ?_⟩, hroots'⟩
  · exact ⟨rfile, hrfile, hrrep.congr hrows⟩
  · exact ⟨dfile, hdfile, hdrep.congr hdeps⟩
  · rw [← hroots']
    exact ⟨rfl, rfl⟩

end Publish

section Delta

theorem open_extended {disk disk' : Disk} {reader : StoreReader} {input : DeltaInput}
    {manifest : Manifest} {seg : Segment} (hl : reader.Ledger) (hs : input.Sound reader)
    (h : input.Built reader manifest seg) (hbase : manifest.base = reader.manifest.base)
    (hopen : StoreReader.open disk = .ok reader) (hmanifest : disk'.manifest = some manifest)
    (hbases : disk'.bases = disk.bases)
    (hdeltas : disk'.deltas = Function.update disk.deltas manifest.generation (some (some seg))) :
    StoreReader.open disk' = .ok (reader.extend manifest seg) := by
  obtain ⟨old, base, deltas, hop, rfl⟩ := open_ok_iff.mp hopen
  have hlist : manifest.deltas = old.deltas ++ [input.generation] := h.manifest_deltas
  have hgen : manifest.generation = input.generation := h.manifest_generation
  refine open_ok_iff.mpr ⟨manifest, base, deltas ++ [seg], ⟨hmanifest, ?_, ?_⟩,
    (StoreReader.load_append old manifest base deltas seg).symm⟩
  · rw [hbases, hbase]
    exact hop.base_eq
  · rw [hlist]
    refine List.rel_append ?_ (List.Forall₂.cons ?_ List.Forall₂.nil)
    · refine deltas_congr hop.deltas_eq (fun g hg => ?_)
      have hle : g ≤ old.generation := hl.deltas_le g hg
      have hlt : old.generation < input.generation := hs.newer
      rw [hdeltas]
      exact Function.update_of_ne (by omega) _ _
    · rw [hdeltas, hgen]
      exact Function.update_self _ _ _

theorem run_tree_frame (disk : Disk) (kind : SetKind) (writes : List TreeWrite) :
    ∃ trees, disk.run (writes.map (FsStep.tree kind)) = { disk with trees := trees } := by
  induction writes generalizing disk with
  | nil => exact ⟨disk.trees, rfl⟩
  | cons write writes ih =>
    obtain ⟨trees, htrees⟩ := ih (disk.apply (.tree kind write))
    exact ⟨trees, htrees⟩

variable [Sha256]

theorem updateTree_steps {disk : Disk} {kind : SetKind} {changes : List Change}
    {entriesInBucket : ℕ → List (Digest32 × Digest32)} {generation : ℕ} {steps : List FsStep}
    {root : Digest32}
    (h : updateTree disk kind changes entriesInBucket generation = .ok (steps, root)) :
    ∃ writes : List TreeWrite, steps = writes.map (FsStep.tree kind) := by
  unfold updateTree at h
  split at h
  · obtain ⟨r, -, h⟩ := ExceptOk.bind_eq_ok h
    cases h
    exact ⟨[], rfl⟩
  · obtain ⟨loaded, -, h⟩ := ExceptOk.bind_eq_ok h
    cases h
    exact ⟨_, rfl⟩

structure DeltaPlan.Planned (plan : DeltaPlan) (disk : Disk) (reader : StoreReader)
    (input : DeltaInput) (records dependency : TreeFile) : Prop where
  built : input.Built reader plan.manifest plan.segment
  manifest_eq : plan.manifest = nextManifest reader input.generation plan.roots
  roots_eq : plan.roots = (reader.extend plan.manifest plan.segment).roots
  records_run : ∀ d : Disk, d.trees .records = disk.trees .records →
    d.run plan.recordSteps = d.withTree .records records
  records_represents : (readFrom records).1.Represents
    ((reader.extend plan.manifest plan.segment).visible.map
      (fun row => recordEntry row.toRecordFields))
  deps_run : ∀ d : Disk, d.trees .dependency = disk.trees .dependency →
    d.run plan.depSteps = d.withTree .dependency dependency
  deps_represents : (readFrom dependency).1.Represents
    ((reader.extend plan.manifest plan.segment).visibleDeps.map depEntry)

variable {disk : Disk} {reader : StoreReader} {input : DeltaInput}

theorem planDelta_ok (hl : reader.Ledger) (ht : reader.TreesOk disk) (hs : input.Sound reader)
    (hp : (input.pendingOpened.map PendingSiteRow.key).Nodup) (hd : input.Distinct reader) :
    ∃ plan records dependency, planDelta disk reader input = .ok plan ∧
      plan.Planned disk reader input records dependency := by
  obtain ⟨seg, hseg⟩ := SegmentInput.build_isOk (input.sections reader) hp
  have hbuilt : ∀ roots, input.Built reader (nextManifest reader input.generation roots) seg :=
    fun roots => ⟨hseg, rfl, rfl⟩
  obtain ⟨rsteps, rfile, hr, hrrep, hrrun⟩ :=
    updateTree_ok (recordTreeStep (hbuilt reader.roots) hl hs hd ht) input.generation
  obtain ⟨dsteps, dfile, hdu, hdrep, hdrun⟩ :=
    updateTree_ok (depTreeStep (hbuilt reader.roots) hl hs hd ht) input.generation
  obtain ⟨roots, hroots⟩ : ∃ roots,
      roots = (reader.extend (nextManifest reader input.generation reader.roots) seg).roots :=
        ⟨_, rfl⟩
  have hgen : (nextManifest reader input.generation reader.roots).generation =
      (nextManifest reader input.generation roots).generation := rfl
  obtain ⟨hvis, hvisDeps⟩ := reader.extend_visible_congr hgen seg
  have hroots' := hroots.trans (StoreReader.roots_congr hvis hvisDeps)
  rw [hvis] at hr hrrep
  rw [hvisDeps] at hdu hdrep
  refine ⟨⟨seg, rsteps, dsteps, nextManifest reader input.generation roots, roots⟩, rfile, dfile,
    ?_, ⟨hbuilt roots, rfl, hroots', hrrun, hrrep, hdrun, hdrep⟩⟩
  unfold planDelta
  rw [hseg]
  simp only [bind, Except.bind, hr, hdu]
  have hpair :
      (⟨specRoot ((reader.extend (nextManifest reader input.generation roots) seg).visible.map
      (fun row => recordEntry row.toRecordFields)),
      specRoot ((reader.extend (nextManifest reader input.generation roots) seg).visibleDeps.map
        depEntry)⟩ : Roots) = roots := hroots'.symm
  rw [hpair]

namespace DeltaPlan.Planned

variable {plan : DeltaPlan} {records dependency : TreeFile}

def published (disk : Disk) (plan : DeltaPlan) (records dependency : TreeFile) : Disk where
  manifest := some plan.manifest
  manifestNext := none
  manifestNextTmp := none
  bases := disk.bases
  deltas := Function.update disk.deltas plan.manifest.generation (some (some plan.segment))
  trees := Function.update (Function.update disk.trees .records (some records)) .dependency
    (some dependency)

theorem run_steps (h : plan.Planned disk reader input records dependency) :
    disk.run plan.steps = published disk plan records dependency := by
  have hrecords := h.records_run
    { disk with deltas := Function.update disk.deltas plan.manifest.generation (some
      (some plan.segment)) }
    rfl
  have hfill : disk.run [.createDelta plan.manifest.generation,
      .fillDelta plan.manifest.generation plan.segment] =
      { disk with
        deltas := Function.update disk.deltas plan.manifest.generation (some (some plan.segment)) } := by
    simp [Disk.run, Disk.apply]
  unfold DeltaPlan.steps
  rw [Disk.run_append, Disk.run_append, Disk.run_append, hfill, hrecords,
    h.deps_run _ (by simp [Disk.withTree])]
  rfl

theorem storeOk (h : plan.Planned disk reader input records dependency) (hok : StoreOk disk reader)
    (hs : input.Sound reader) :
    StoreOk (disk.run plan.steps) (reader.extend plan.manifest plan.segment) := by
  rw [h.run_steps]
  have hbase : plan.manifest.base = reader.manifest.base := by
    rw [h.manifest_eq]
    rfl
  refine ⟨open_extended hok.ledger hs h.built hbase hok.opens rfl rfl rfl,
    h.built.ledger hok.ledger hs, ⟨?_, ?_⟩, ?_⟩
  · exact ⟨records, by simp [published], h.records_represents⟩
  · exact ⟨dependency, by simp [published], h.deps_represents⟩
  · rw [← h.roots_eq]
    change plan.manifest.recordsRoot = _ ∧ plan.manifest.dependencyRoot = _
    rw [h.manifest_eq]
    exact ⟨rfl, rfl⟩

end DeltaPlan.Planned

variable {plan : DeltaPlan}

theorem planDelta_spec (h : planDelta disk reader input = .ok plan) :
    input.Built reader plan.manifest plan.segment ∧
      plan.manifest = nextManifest reader input.generation plan.roots ∧
      (∃ writes : List TreeWrite, plan.recordSteps = writes.map (FsStep.tree .records)) ∧
      ∃ writes : List TreeWrite, plan.depSteps = writes.map (FsStep.tree .dependency) := by
  unfold planDelta at h
  obtain ⟨seg, hseg, h⟩ := ExceptOk.bind_eq_ok h
  obtain ⟨records, hr, h⟩ := ExceptOk.bind_eq_ok h
  obtain ⟨deps, hd, h⟩ := ExceptOk.bind_eq_ok h
  cases h
  exact ⟨⟨hseg, rfl, rfl⟩, rfl, updateTree_steps hr, updateTree_steps hd⟩

theorem open_published (hopen : StoreReader.open disk = .ok reader) (hl : reader.Ledger)
    (hs : input.Sound reader) (hplan : planDelta disk reader input = .ok plan) :
    StoreReader.open (disk.run plan.steps) = .ok (reader.extend plan.manifest plan.segment) := by
  obtain ⟨hbuilt, hmanifest, ⟨rwrites, hr⟩, dwrites, hd⟩ := planDelta_spec hplan
  obtain ⟨trees, htrees⟩ := run_tree_frame
    (disk.run [.createDelta plan.manifest.generation,
      .fillDelta plan.manifest.generation plan.segment])
    .records rwrites
  obtain ⟨trees', htrees'⟩ := run_tree_frame { disk.run [.createDelta plan.manifest.generation,
    .fillDelta plan.manifest.generation plan.segment] with trees := trees } .dependency dwrites
  have hrun : disk.run plan.steps =
      { manifest := some plan.manifest
        manifestNext := none
        manifestNextTmp := none
        bases := disk.bases
        deltas := Function.update disk.deltas plan.manifest.generation (some (some plan.segment))
        trees := trees' } := by
    unfold DeltaPlan.steps
    rw [Disk.run_append, Disk.run_append, Disk.run_append, hr, hd, htrees, htrees']
    simp [Disk.run, Disk.apply]
  rw [hrun]
  exact open_extended hl hs hbuilt (by rw [hmanifest]; rfl) hopen rfl rfl rfl

theorem writeDelta_ok (hok : StoreOk disk reader) (hv : input.Valid reader)
    (hd : input.Distinct reader) :
    ∃ disk' reader', writeDeltaWithReaderAndPending disk reader input = .ok (disk', reader'.roots) ∧
      StoreOk disk' reader' := by
  obtain ⟨plan, records, dependency, hplan, h⟩ :=
    planDelta_ok hok.ledger hok.trees hv.sound hv.pending_nodup hd
  refine ⟨disk.run plan.steps, reader.extend plan.manifest plan.segment, ?_, h.storeOk hok hv.sound⟩
  unfold writeDeltaWithReaderAndPending
  rw [hplan, ← h.roots_eq]
  rfl

end Delta

section Run

variable [Sha256]

inductive StoreRun (starts : BaseInput → Prop) (admits : StoreReader → DeltaInput → Prop) :
    Disk → Roots → Prop
  | base {disk disk' : Disk} {input : BaseInput} {roots : Roots} (started : starts input)
      (write : writeBaseWithPending disk input = .ok (disk', roots)) :
        StoreRun starts admits disk' roots
  | partitioned {disk disk' : Disk} {partitions : Partitions} {deps : List DependencyRow}
      {dicts : Dictionaries} {generation : ℕ} {pendingSites : List PendingSiteRow} {roots : Roots}
      (started : starts ⟨partitions.rows, deps, dicts, generation, pendingSites⟩)
      (write : writeBasePartitionedWithPending disk partitions deps dicts generation pendingSites =
        .ok (disk', roots)) : StoreRun starts admits disk' roots
  | delta {disk disk' : Disk} {roots roots' : Roots} {reader : StoreReader} {input : DeltaInput}
      (before : StoreRun starts admits disk roots) (opened : StoreReader.open disk = .ok reader)
      (admitted : admits reader input)
      (write : writeDeltaWithReaderAndPending disk reader input = .ok (disk', roots')) :
      StoreRun starts admits disk' roots'

theorem StoreRun.storeOk {disk : Disk} {roots : Roots}
    (h : StoreRun BaseInput.Valid (fun reader input => input.Valid reader ∧ input.Distinct reader)
      disk roots) :
    ∃ reader, StoreOk disk reader ∧ roots = reader.roots := by
  induction h with
  | base started write =>
    obtain ⟨seg, -, hok, hroots⟩ := publishBase_ok started (sortOn_perm _ _) write
    exact ⟨_, hok, hroots⟩
  | partitioned started write =>
    obtain ⟨seg, -, hok, hroots⟩ := publishBase_ok started (List.Perm.refl _) write
    exact ⟨_, hok, hroots⟩
  | delta before opened admitted write ih =>
    obtain ⟨reader, hok, -⟩ := ih
    obtain rfl := Except.ok.inj (hok.opens.symm.trans opened)
    obtain ⟨disk', reader', hwrite, hok'⟩ := writeDelta_ok hok admitted.1 admitted.2
    rw [hwrite] at write
    cases write
    exact ⟨reader', hok', rfl⟩

def replayDelta (admits : StoreReader → DeltaInput → Prop) [∀ r i, Decidable (admits r i)]
    (state : Disk × Roots) (input : DeltaInput) : Except Fault (Disk × Roots) := do
  let reader ← StoreReader.open state.1
  if admits reader input then writeDeltaWithReaderAndPending state.1 reader input
  else .error (.error "delta not admitted")

def replay (admits : StoreReader → DeltaInput → Prop) [∀ r i, Decidable (admits r i)]
    (base : BaseInput) (deltas : List DeltaInput) : Except Fault (Disk × Roots) := do
  let state ← writeBaseWithPending Disk.empty base
  deltas.foldlM (replayDelta admits) state

theorem replayDeltas_storeRun {starts : BaseInput → Prop} {admits : StoreReader → DeltaInput → Prop}
    [∀ r i, Decidable (admits r i)]
    {deltas : List DeltaInput} {state state' : Disk × Roots}
    (h : StoreRun starts admits state.1 state.2)
    (hrun : deltas.foldlM (replayDelta admits) state = .ok state') :
    StoreRun starts admits state'.1 state'.2 := by
  induction deltas generalizing state with
  | nil =>
    cases hrun
    exact h
  | cons input deltas ih =>
    rw [List.foldlM_cons] at hrun
    obtain ⟨next, hstep, hrun⟩ := ExceptOk.bind_eq_ok hrun
    refine ih ?_ hrun
    obtain ⟨reader, hopen, hstep⟩ := ExceptOk.bind_eq_ok hstep
    obtain ⟨hadmits, hwrite⟩ := ExceptOk.ite_eq_ok hstep
    exact StoreRun.delta h hopen hadmits hwrite

theorem replay_storeRun {starts : BaseInput → Prop} {admits : StoreReader → DeltaInput → Prop}
    [∀ r i, Decidable (admits r i)] {base : BaseInput} {deltas : List DeltaInput}
    {state : Disk × Roots}
    (hstart : starts base) (hrun : replay admits base deltas = .ok state) :
    StoreRun starts admits state.1 state.2 := by
  obtain ⟨first, hbase, hrun⟩ := ExceptOk.bind_eq_ok hrun
  exact replayDeltas_storeRun (StoreRun.base hstart hbase) hrun

def RootsAgree (disk : Disk) (roots : Roots) : Prop :=
  ∃ reader, StoreReader.open disk = .ok reader ∧
    reader.manifest.recordsRoot = roots.recordsRoot ∧
    reader.manifest.dependencyRoot = roots.dependencyRoot ∧
    recomputeRootsFromScratch reader reader.generation =
      .ok (roots.recordsRoot, roots.dependencyRoot)

instance (disk : Disk) (roots : Roots) : Decidable (RootsAgree disk roots) :=
  match h : StoreReader.open disk with
  | .error _ => .isFalse (fun ⟨_, hopen, _⟩ => by rw [h] at hopen; cases hopen)
  | .ok reader =>
    decidable_of_iff (reader.manifest.recordsRoot = roots.recordsRoot ∧
        reader.manifest.dependencyRoot = roots.dependencyRoot ∧
        recomputeRootsFromScratch reader reader.generation =
          .ok (roots.recordsRoot, roots.dependencyRoot))
      ⟨fun hroots => ⟨reader, h, hroots⟩, fun ⟨_, hopen, hroots⟩ => by
        rw [h] at hopen
        cases hopen
        exact hroots⟩

theorem StoreOk.rootsAgree {disk : Disk} {reader : StoreReader} (h : StoreOk disk reader) :
    RootsAgree disk reader.roots :=
  ⟨reader, h.opens, h.manifest_roots.1, h.manifest_roots.2,
    recomputeRootsFromScratch_eq h.functional⟩

theorem incremental_roots_eq_from_scratch {disk : Disk} {roots : Roots}
    (h : StoreRun BaseInput.Valid (fun reader input => input.Valid reader ∧ input.Distinct reader)
      disk roots) :
    RootsAgree disk roots ∧
      ∀ reader input, StoreReader.open disk = .ok reader → input.Valid reader →
        input.Distinct reader →
        ∃ written, writeDeltaWithReaderAndPending disk reader input = .ok written := by
  obtain ⟨reader, hok, rfl⟩ := h.storeOk
  refine ⟨hok.rootsAgree, ?_⟩
  intro reader' input hopen hv hd
  obtain rfl := Except.ok.inj (hok.opens.symm.trans hopen)
  obtain ⟨disk', reader'', hwrite, -⟩ := writeDelta_ok hok hv hd
  exact ⟨_, hwrite⟩

end Run

section Instances

abbrev fixedDigest : Sha256 where
  digest := fun _ => Block.fill 32 1

def plainDependency (id : Digest32) (owner generation : ℕ) : DependencyRow where
  dependencyId := id
  record := none
  ownerArtifact := owner
  ownerVersion := 0
  depArtifact := 0
  depVersion := 0
  role := 0
  validFrom := generation
  validTo := 0

def dependencyBase (deps : List DependencyRow) : BaseInput where
  rows := []
  deps := deps
  dicts := Dictionaries.empty
  generation := 1
  pendingSites := []

def dependencyDelta (opened : List DependencyRow) (closed : List Digest32) (generation : ℕ) :
    DeltaInput where
  opened := []
  closures := []
  depsOpened := opened
  depsClosures := closed.map (fun id => (id, generation))
  dictAdditions := Dictionaries.empty
  generation := generation
  pendingOpened := []
  pendingClosures := []

theorem incremental_roots_eq_from_scratch_reopened :
    ∃ disk roots, @RootsAgree fixedDigest disk roots ∧ roots.dependencyRoot ≠ zero := by
  let _ := fixedDigest
  have hrun : (replay (fun reader input => input.Valid reader ∧ input.Distinct reader)
      (dependencyBase [plainDependency (Block.fill 32 1) 0 1,
        plainDependency (Block.fill 32 2) 0 1])
      [dependencyDelta [plainDependency (Block.fill 32 1) 1 2] [Block.fill 32 1] 2,
        dependencyDelta [] [Block.fill 32 2] 3]).map (fun state => state.2.dependencyRoot) =
      .ok (Block.fill 32 1) := by
    decide +kernel
  obtain ⟨⟨disk, roots⟩, hstate, hroot⟩ := ExceptOk.map_eq_ok hrun
  have hvalid : (dependencyBase
      [plainDependency (Block.fill 32 1) 0 1, plainDependency (Block.fill 32 2) 0 1]).Valid := by
    decide +kernel
  refine ⟨disk, roots, (incremental_roots_eq_from_scratch (replay_storeRun hvalid hstate)).1, ?_⟩
  have hroot' : roots.dependencyRoot = Block.fill 32 1 := hroot
  rw [hroot']
  decide

theorem shared_dependency_id_corrupts_root :
    ¬ ∀ (_ : Sha256) (disk : Disk) (roots : Roots),
      StoreRun BaseInput.Valid (fun reader input => input.Valid reader) disk roots →
        RootsAgree disk roots := by
  intro hall
  let _ := fixedDigest
  let base := dependencyBase [plainDependency (Block.fill 32 1) 0 1,
    plainDependency (Block.fill 32 1) 1 1, plainDependency (Block.fill 32 2) 0 1]
  have hrun : (replay (fun reader input => input.Valid reader) base
      [dependencyDelta [] [Block.fill 32 1] 2]).map
        (fun state => decide (RootsAgree state.1 state.2)) =
      .ok false := by
    decide +kernel
  obtain ⟨⟨disk, roots⟩, hstate, hfalse⟩ := ExceptOk.map_eq_ok hrun
  have hvalid : base.Valid := by decide +kernel
  exact of_decide_eq_false hfalse (hall fixedDigest disk roots (replay_storeRun hvalid hstate))

end Instances

end StructuralStore
