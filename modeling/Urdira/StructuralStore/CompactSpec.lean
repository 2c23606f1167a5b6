import Urdira.StructuralStore.IdentityElision

open ByteOrder KeyedSet MerkleBucket

namespace StructuralStore

open IdentityCodec

namespace StoreReader

def views (reader : StoreReader) : List RecordRow := reader.visible.map (viewToRow reader)

variable {reader : StoreReader}

theorem Ledger.viewToRow_eq (hl : reader.Ledger) {row : StoredRow} (hrow : row ∈ reader.visible) :
    viewToRow reader row = ⟨row.toRecordFields, reader.identityKey row⟩ := by
  obtain ⟨hmem, hvis⟩ := List.mem_filter.mp hrow
  have hget := (hl.isVisible_iff hmem).mp hvis
  unfold viewToRow effectiveValidTo
  rw [hget]
  rfl

theorem Ledger.depViewToRow_eq (hl : reader.Ledger) {dep : DependencyRow}
    (hdep : dep ∈ reader.visibleDeps) : depViewToRow reader dep = dep := by
  obtain ⟨hmem, hvis⟩ := List.mem_filter.mp hdep
  have hall := (hl.depIsVisible_iff hmem).mp hvis
  unfold depViewToRow depEffectiveValidTo
  rw [closureForRow_of_forall_le (fun c hc => hall _ (mem_closuresOf.mp hc) rfl)]

theorem Ledger.pendingToRow_eq (hl : reader.Ledger) {site : PendingSiteRow}
    (hsite : site ∈ reader.visiblePending) : pendingToRow reader site = site := by
  obtain ⟨hmem, hvis⟩ := List.mem_filter.mp hsite
  have hall := (hl.pendingIsVisible_iff hmem).mp hvis
  have hclosures : ∀ c ∈ closuresOf reader.pendingClosures site.key, c ≤ site.validFrom :=
    fun c hc => hall _ (mem_closuresOf.mp hc) rfl
  unfold pendingToRow pendingEffectiveValidTo
  rw [closureForRow_of_forall_le hclosures]

theorem Ledger.map_views {β : Type} (hl : reader.Ledger) (f : RecordFields → β) :
    reader.views.map (fun row => f row.toRecordFields) =
      reader.visible.map (fun row => f row.toRecordFields) := by
  unfold views
  rw [List.map_map]
  refine List.map_congr_left (fun row hrow => ?_)
  rw [Function.comp_apply, hl.viewToRow_eq hrow]

variable {generation : ℕ}

theorem Ledger.filter_visible (hl : reader.Ledger) (hg : reader.generation ≤ generation) :
    reader.rows.filter (fun row => reader.isVisible row generation) = reader.visible := by
  refine List.filter_congr (fun row hrow => ?_)
  rw [Bool.eq_iff_iff, hl.isVisible_iff_of_le hrow hg, hl.isVisible_iff hrow]

theorem Ledger.filter_visibleDeps (hl : reader.Ledger) (hg : reader.generation ≤ generation) :
    reader.deps.filter (fun dep => reader.depIsVisible dep generation) = reader.visibleDeps := by
  refine List.filter_congr (fun dep hdep => ?_)
  rw [Bool.eq_iff_iff, hl.depIsVisible_iff_of_le hdep hg, hl.depIsVisible_iff hdep]

theorem Ledger.filter_visiblePending (hl : reader.Ledger) (hg : reader.generation ≤ generation) :
    reader.pendingSites.filter (fun site => reader.pendingIsVisible site generation) =
      reader.visiblePending := by
  refine List.filter_congr (fun site hsite => ?_)
  rw [Bool.eq_iff_iff, hl.pendingIsVisible_iff_of_le hsite hg, hl.pendingIsVisible_iff hsite]

theorem Ledger.compactInput_rows (hl : reader.Ledger) (hg : reader.generation ≤ generation) :
    (compactInput reader generation).rows.Perm reader.views := by
  have hperm := reader.iterVisible_perm generation
  rw [hl.filter_visible hg] at hperm
  exact hperm.map _

theorem Ledger.compactInput_deps (hl : reader.Ledger) (hg : reader.generation ≤ generation) :
    (compactInput reader generation).deps = reader.visibleDeps := by
  change (reader.iterVisibleDeps generation).map (depViewToRow reader) = _
  rw [reader.iterVisibleDeps_eq, hl.filter_visibleDeps hg]
  exact (List.map_congr_left (fun dep hdep => hl.depViewToRow_eq hdep)).trans (List.map_id _)

theorem Ledger.compactInput_pending (hl : reader.Ledger) (hg : reader.generation ≤ generation) :
    (compactInput reader generation).pendingSites.Perm reader.visiblePending := by
  have hperm := reader.iterVisiblePendingSites_perm generation
  rw [hl.filter_visiblePending hg] at hperm
  refine (hperm.map (pendingToRow reader)).trans (List.Perm.of_eq ?_)
  exact (List.map_congr_left (fun site hsite => hl.pendingToRow_eq hsite)).trans (List.map_id _)

theorem Ledger.mem_views (hl : reader.Ledger) {row : RecordRow} (hrow : row ∈ reader.views) :
    ∃ stored ∈ reader.rows, row.toRecordFields = stored.toRecordFields := by
  obtain ⟨stored, hstored, rfl⟩ := List.mem_map.mp hrow
  exact ⟨stored, (List.mem_filter.mp hstored).1, by rw [hl.viewToRow_eq hstored]⟩

theorem Ledger.compactInput_valid (hl : reader.Ledger) (hg : reader.generation ≤ generation) :
    (compactInput reader generation).Valid where
  rows_valid := by
    intro row hrow
    obtain ⟨stored, hstored, heq⟩ := hl.mem_views ((hl.compactInput_rows hg).mem_iff.mp hrow)
    rw [heq]
    exact (hl.rows_valid stored hstored).imp_left (fun hle => hle.trans hg)
  rows_ne_max := by
    intro row hrow
    obtain ⟨stored, hstored, heq⟩ := hl.mem_views ((hl.compactInput_rows hg).mem_iff.mp hrow)
    rw [heq]
    exact hl.rows_ne_max stored hstored
  deps_valid := by
    intro dep hdep
    rw [hl.compactInput_deps hg] at hdep
    exact (hl.deps_valid dep (List.mem_filter.mp hdep).1).imp_left (fun hle => hle.trans hg)
  deps_ne_max := by
    intro dep hdep
    rw [hl.compactInput_deps hg] at hdep
    exact hl.deps_ne_max dep (List.mem_filter.mp hdep).1
  pending_valid := by
    intro site hsite
    have hmem := (hl.compactInput_pending hg).mem_iff.mp hsite
    exact (hl.pending_valid site (List.mem_filter.mp hmem).1).imp_left (fun hle => hle.trans hg)

theorem Ledger.compactInput_nodup (hl : reader.Ledger) (hg : reader.generation ≤ generation)
    (hu : reader.IdsUnique) :
    ((compactInput reader generation).rows.map (fun row => row.recordId)).Nodup := by
  rw [((hl.compactInput_rows hg).map _).nodup_iff, hl.map_views (fun row => row.recordId)]
  exact hu.sublist (List.filter_sublist.map _)

end StoreReader

namespace BaseInput

def originals (input : BaseInput) (id : Digest32) : Bytes := (batchIndex input.rows id).getD []

variable {input : BaseInput} {ordered : List RecordRow} {seg : Segment} {manifest : Manifest}

theorem originals_eq (hnodup : (input.rows.map (fun row => row.recordId)).Nodup) {row : RecordRow}
    (hrow : row ∈ input.rows) : input.originals row.recordId = row.identityKey := by
  rw [originals, batchIndex_of_mem hnodup hrow]
  rfl

theorem Built.idsUnique (h : input.Built ordered seg)
    (hnodup : (input.rows.map (fun row => row.recordId)).Nodup) :
    (StoreReader.load manifest seg []).IdsUnique := by
  unfold StoreReader.IdsUnique
  rw [h.load_rows]
  exact (h.map_rows (fun row => row.recordId)).nodup_iff.mpr hnodup

theorem Built.views_eq (h : input.Built ordered seg) (hv : input.Valid)
    (hnodup : (input.rows.map (fun row => row.recordId)).Nodup)
    (hgen : manifest.generation = input.generation) (hdeltas : manifest.deltas = []) :
    (StoreReader.load manifest seg []).views = ordered := by
  have hl : (StoreReader.load manifest seg []).Ledger := h.ledger hv hgen hdeltas
  obtain ⟨hvis, -, -⟩ := StoreReader.load_visible manifest h hv hgen hdeltas
  have he := h.elides manifest (fun row hrow => originals_eq hnodup hrow)
  unfold StoreReader.views
  rw [hvis, h.rows_eq, List.map_map]
  refine (List.map_congr_left (fun row hrow => ?_)).trans (List.map_id ordered)
  have hstored : classifyIdentity row input.fullDicts (batchIndex input.rows) ∈ seg.rows := by
    rw [h.rows_eq]
    exact List.mem_map_of_mem hrow
  rw [Function.comp_apply, hl.viewToRow_eq (by rw [hvis]; exact hstored),
    he.identityKey_eq (by rw [h.load_rows]; exact hstored)]
  have horig := originals_eq hnodup (h.perm.mem_iff.mp hrow)
  change (⟨row.toRecordFields, input.originals row.recordId⟩ : RecordRow) = row
  rw [horig]

end BaseInput

section Compact

variable [Sha256] {disk disk' : Disk} {reader : StoreReader} {newGeneration : ℕ} {roots : Roots}

structure Compacted (reader compacted : StoreReader) (newGeneration : ℕ) : Prop where
  ledger : compacted.Ledger
  idsUnique : compacted.IdsUnique
  generation : compacted.generation = newGeneration
  views : compacted.views.Perm reader.views
  sorted : compacted.views.Pairwise (fun a b => a.recordId ≤ b.recordId)
  deps : compacted.visibleDeps.Perm reader.visibleDeps
  pending : compacted.visiblePending.Perm reader.visiblePending
  dicts : ∃ words, compacted.dicts = withEntityKinds reader.dicts words

theorem compact_spec (hopen : StoreReader.open disk = .ok reader) (hl : reader.Ledger)
    (hu : reader.IdsUnique) (hg : reader.generation ≤ newGeneration)
    (h : compact disk newGeneration = .ok (disk', roots)) :
    ∃ seg, (compactInput reader newGeneration).Built
        (sortOn (fun row => row.recordId) (compactInput reader newGeneration).rows) seg ∧
      StoreOk disk' (StoreReader.load (baseManifest newGeneration roots) seg []) ∧
      roots = (StoreReader.load (baseManifest newGeneration roots) seg []).roots ∧
      Compacted reader (StoreReader.load (baseManifest newGeneration roots) seg [])
        newGeneration := by
  unfold compact at h
  rw [hopen] at h
  have hv := hl.compactInput_valid hg
  have hnodup := hl.compactInput_nodup hg hu
  obtain ⟨seg, hbuilt, hok, hroots⟩ := publishBase_ok hv (sortOn_perm _ _) h
  obtain ⟨-, hdeps, hpending⟩ :=
    StoreReader.load_visible (baseManifest newGeneration roots) hbuilt hv rfl rfl
  have hviews : (StoreReader.load (baseManifest newGeneration roots) seg []).views = _ :=
    hbuilt.views_eq hv hnodup rfl rfl
  refine ⟨seg, hbuilt, hok, hroots, hok.ledger, hbuilt.idsUnique hnodup, rfl, ?_, ?_, ?_, ?_, ?_⟩
  · rw [hviews]
    exact (sortOn_perm _ _).trans (hl.compactInput_rows hg)
  · rw [hviews]
    exact sortOn_pairwise _ _
  · rw [hdeps, ← hl.compactInput_deps hg]
    exact hbuilt.deps_perm
  · rw [hpending]
    exact hbuilt.pending_perm.trans (hl.compactInput_pending hg)
  · rw [hbuilt.dicts_eq]
    exact ⟨_, rfl⟩

end Compact

end StructuralStore
