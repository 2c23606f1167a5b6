import Urdira.StructuralStore.StoreSpec

open ByteOrder KeyedSet MerkleBucket

namespace StructuralStore

theorem isVisibleAt_zero {validFrom generation : ℕ} (h : validFrom ≤ generation) :
    isVisibleAt validFrom 0 generation = true := by
  simp [isVisibleAt, h]

theorem isVisibleAt_closed {validFrom validTo generation : ℕ} (hpos : 0 < validTo)
    (hle : validTo ≤ generation) : isVisibleAt validFrom validTo generation = false := by
  have hne : validTo ≠ 0 := by omega
  simp [isVisibleAt, hne, hle]

theorem closureForRow_of_forall_le {closures : List ℕ} {validFrom inlineValidTo : ℕ}
    (h : ∀ c ∈ closures, c ≤ validFrom) :
    closureForRow closures validFrom inlineValidTo = inlineValidTo := by
  have hnil : closures.filter (fun closedAt => decide (validFrom < closedAt)) = [] := by
    rw [List.filter_eq_nil_iff]
    intro c hc
    simpa using h c hc
  simp [closureForRow, hnil]

theorem closureForRow_of_exists {closures : List ℕ} {validFrom : ℕ} (inlineValidTo : ℕ)
    (h : ∃ c ∈ closures, validFrom < c) :
    closureForRow closures validFrom inlineValidTo ∈ closures ∧
      validFrom < closureForRow closures validFrom inlineValidTo := by
  obtain ⟨c, hc, hlt⟩ := h
  have hmem : c ∈ closures.filter (fun closedAt => decide (validFrom < closedAt)) := by
    simp [hc, hlt]
  unfold closureForRow
  cases hmin : (closures.filter (fun closedAt => decide (validFrom < closedAt))).min? with
  | none => simp [List.min?_eq_none_iff.mp hmin] at hmem
  | some m =>
    have := List.mem_filter.mp (List.min?_mem hmin)
    simpa using this

theorem isVisibleAt_closureForRow {closures : List ℕ} {validFrom generation : ℕ}
    (hvf : validFrom ≤ generation) (hle : ∀ c ∈ closures, c ≤ generation) :
    isVisibleAt validFrom (closureForRow closures validFrom 0) generation = true ↔
      ∀ c ∈ closures, c ≤ validFrom := by
  constructor
  · intro hvis c hc
    by_contra hlt
    obtain ⟨hmem, hgt⟩ := closureForRow_of_exists 0 ⟨c, hc, not_le.mp hlt⟩
    rw [isVisibleAt_closed (by omega) (hle _ hmem)] at hvis
    cases hvis
  · intro h
    rw [closureForRow_of_forall_le h]
    exact isVisibleAt_zero hvf

theorem mem_closuresOf {K : Type} [DecidableEq K] {closures : List (K × ℕ)} {key : K} {c : ℕ} :
    c ∈ closuresOf closures key ↔ (key, c) ∈ closures := by
  simp only [closuresOf, List.mem_map, List.mem_filter, decide_eq_true_eq]
  constructor
  · rintro ⟨⟨k, v⟩, ⟨hmem, rfl⟩, rfl⟩
    exact hmem
  · intro hmem
    exact ⟨(key, c), ⟨hmem, rfl⟩, rfl⟩

namespace StoreReader

def visible (reader : StoreReader) : List StoredRow :=
  reader.rows.filter (fun row => reader.isVisible row reader.generation)

def visibleDeps (reader : StoreReader) : List DependencyRow :=
  reader.deps.filter (fun dep => reader.depIsVisible dep reader.generation)

def visiblePending (reader : StoreReader) : List PendingSiteRow :=
  reader.pendingSites.filter (fun site => reader.pendingIsVisible site reader.generation)

structure Ledger (reader : StoreReader) : Prop where
  rows_valid : ∀ row ∈ reader.rows, row.validFrom ≤ reader.generation ∧ row.validTo = 0
  closures_valid : ∀ c ∈ reader.recordClosures, 0 < c.2 ∧ c.2 ≤ reader.generation
  closures_rows : ∀ c ∈ reader.recordClosures, ∃ row ∈ reader.rows, row.recordId = c.1
  deps_valid : ∀ dep ∈ reader.deps, dep.validFrom ≤ reader.generation ∧ dep.validTo = 0
  depClosures_valid : ∀ c ∈ reader.depClosures, c.2 ≤ reader.generation
  pending_valid : ∀ site ∈ reader.pendingSites, site.validFrom ≤ reader.generation ∧
    site.validTo = 0
  pendingClosures_valid : ∀ c ∈ reader.pendingClosures, c.2 ≤ reader.generation
  rows_ne_max : ∀ row ∈ reader.rows, row.recordId ≠ maxKey
  deps_ne_max : ∀ dep ∈ reader.deps, dep.dependencyId ≠ maxKey
  deltas_le : ∀ g ∈ reader.manifest.deltas, g ≤ reader.generation

def IdsUnique (reader : StoreReader) : Prop := (reader.rows.map (fun row => row.recordId)).Nodup

variable {reader : StoreReader}

theorem Ledger.isVisible_iff_of_le (h : reader.Ledger) {row : StoredRow} (hrow : row ∈ reader.rows)
    {generation : ℕ} (hg : reader.generation ≤ generation) :
    reader.isVisible row generation = true ↔
      AssocMap.get reader.recordClosures row.recordId = none := by
  obtain ⟨hvf, hvt⟩ := h.rows_valid row hrow
  unfold isVisible effectiveValidTo
  cases hget : AssocMap.get reader.recordClosures row.recordId with
  | none => simpa [hvt] using isVisibleAt_zero (hvf.trans hg)
  | some c =>
    obtain ⟨hpos, hle⟩ := h.closures_valid _ (AssocMap.mem_of_get hget)
    simp [isVisibleAt_closed hpos (hle.trans hg)]

theorem Ledger.isVisible_iff (h : reader.Ledger) {row : StoredRow} (hrow : row ∈ reader.rows) :
    reader.isVisible row reader.generation = true ↔
      AssocMap.get reader.recordClosures row.recordId = none :=
  h.isVisible_iff_of_le hrow le_rfl

theorem Ledger.depIsVisible_iff_of_le (h : reader.Ledger) {dep : DependencyRow}
    (hdep : dep ∈ reader.deps) {generation : ℕ} (hg : reader.generation ≤ generation) :
    reader.depIsVisible dep generation = true ↔
      ∀ c ∈ reader.depClosures, c.1 = dep.dependencyId → c.2 ≤ dep.validFrom := by
  obtain ⟨hvf, hvt⟩ := h.deps_valid dep hdep
  unfold depIsVisible depEffectiveValidTo
  rw [hvt, isVisibleAt_closureForRow (hvf.trans hg)
    (fun c hc => (h.depClosures_valid _ (mem_closuresOf.mp hc)).trans hg)]
  constructor
  · rintro hall ⟨k, c⟩ hc rfl
    exact hall c (mem_closuresOf.mpr hc)
  · intro hall c hc
    exact hall _ (mem_closuresOf.mp hc) rfl

theorem Ledger.depIsVisible_iff (h : reader.Ledger) {dep : DependencyRow}
    (hdep : dep ∈ reader.deps) :
    reader.depIsVisible dep reader.generation = true ↔
      ∀ c ∈ reader.depClosures, c.1 = dep.dependencyId → c.2 ≤ dep.validFrom :=
  h.depIsVisible_iff_of_le hdep le_rfl

theorem Ledger.pendingIsVisible_iff_of_le (h : reader.Ledger) {site : PendingSiteRow}
    (hsite : site ∈ reader.pendingSites) {generation : ℕ} (hg : reader.generation ≤ generation) :
    reader.pendingIsVisible site generation = true ↔
      ∀ c ∈ reader.pendingClosures, c.1 = site.key → c.2 ≤ site.validFrom := by
  obtain ⟨hvf, hvt⟩ := h.pending_valid site hsite
  unfold pendingIsVisible pendingEffectiveValidTo
  rw [hvt, isVisibleAt_closureForRow (hvf.trans hg)
    (fun c hc => (h.pendingClosures_valid _ (mem_closuresOf.mp hc)).trans hg)]
  constructor
  · rintro hall ⟨k, c⟩ hc rfl
    exact hall c (mem_closuresOf.mpr hc)
  · intro hall c hc
    exact hall _ (mem_closuresOf.mp hc) rfl

theorem Ledger.pendingIsVisible_iff (h : reader.Ledger) {site : PendingSiteRow}
    (hsite : site ∈ reader.pendingSites) :
    reader.pendingIsVisible site reader.generation = true ↔
      ∀ c ∈ reader.pendingClosures, c.1 = site.key → c.2 ≤ site.validFrom :=
  h.pendingIsVisible_iff_of_le hsite le_rfl

theorem Ledger.newer_notMem (hl : reader.Ledger) {generation : ℕ}
    (h : reader.generation < generation) : generation ∉ reader.manifest.deltas := by
  intro hmem
  have hle := hl.deltas_le _ hmem
  omega

end StoreReader

structure DeltaInput.Valid (input : DeltaInput) (reader : StoreReader) : Prop where
  newer : reader.generation < input.generation
  opened_valid : ∀ row ∈ input.opened, row.validFrom = input.generation ∧ row.validTo = 0
  opened_nodup : (input.opened.map (fun row => row.recordId)).Nodup
  opened_fresh : ∀ row ∈ input.opened, ∀ old ∈ reader.rows, old.recordId ≠ row.recordId
  opened_ne_max : ∀ row ∈ input.opened, row.recordId ≠ maxKey
  closures_visible : ∀ c ∈ input.closures,
    c.2 = input.generation ∧ ∃ row ∈ reader.visible, row.recordId = c.1
  deps_valid : ∀ dep ∈ input.depsOpened, dep.validFrom = input.generation ∧ dep.validTo = 0
  deps_ne_max : ∀ dep ∈ input.depsOpened, dep.dependencyId ≠ maxKey
  depsClosures_visible : ∀ c ∈ input.depsClosures,
    c.2 = input.generation ∧ ∃ dep ∈ reader.visibleDeps, dep.dependencyId = c.1
  pending_valid : ∀ site ∈ input.pendingOpened, site.validFrom = input.generation ∧ site.validTo = 0
  pending_nodup : (input.pendingOpened.map PendingSiteRow.key).Nodup
  pendingClosures_visible : ∀ c ∈ input.pendingClosures,
    c.2 = input.generation ∧ ∃ site ∈ reader.visiblePending, site.key = c.1

set_option synthInstance.maxSize 400 in
instance (input : DeltaInput) (reader : StoreReader) : Decidable (input.Valid reader) :=
  decidable_of_iff
    (reader.generation < input.generation ∧
      (∀ row ∈ input.opened, row.validFrom = input.generation ∧ row.validTo = 0) ∧
      (input.opened.map (fun row => row.recordId)).Nodup ∧
      (∀ row ∈ input.opened, ∀ old ∈ reader.rows, old.recordId ≠ row.recordId) ∧
      (∀ row ∈ input.opened, row.recordId ≠ maxKey) ∧
      (∀ c ∈ input.closures, c.2 = input.generation ∧ ∃ row ∈ reader.visible, row.recordId = c.1) ∧
      (∀ dep ∈ input.depsOpened, dep.validFrom = input.generation ∧ dep.validTo = 0) ∧
      (∀ dep ∈ input.depsOpened, dep.dependencyId ≠ maxKey) ∧
      (∀ c ∈ input.depsClosures,
        c.2 = input.generation ∧ ∃ dep ∈ reader.visibleDeps, dep.dependencyId = c.1) ∧
      (∀ site ∈ input.pendingOpened, site.validFrom = input.generation ∧ site.validTo = 0) ∧
      (input.pendingOpened.map PendingSiteRow.key).Nodup ∧
      ∀ c ∈ input.pendingClosures,
        c.2 = input.generation ∧ ∃ site ∈ reader.visiblePending, site.key = c.1)
    ⟨fun ⟨h₁, h₂, h₃, h₄, h₅, h₆, h₇, h₈, h₉, h₁₀, h₁₁, h₁₂⟩ =>
        ⟨h₁, h₂, h₃, h₄, h₅, h₆, h₇, h₈, h₉, h₁₀, h₁₁, h₁₂⟩,
      fun h => ⟨h.1, h.2, h.3, h.4, h.5, h.6, h.7, h.8, h.9, h.10, h.11, h.12⟩⟩

structure DeltaInput.Sound (input : DeltaInput) (reader : StoreReader) : Prop where
  newer : reader.generation < input.generation
  opened_valid : ∀ row ∈ input.opened, row.validFrom = input.generation ∧ row.validTo = 0
  opened_nodup : (input.opened.map (fun row => row.recordId)).Nodup
  opened_fresh : ∀ row ∈ input.opened, ∀ old ∈ reader.rows, old.recordId ≠ row.recordId
  opened_ne_max : ∀ row ∈ input.opened, row.recordId ≠ maxKey
  closures_known : ∀ c ∈ input.closures,
    c.2 = input.generation ∧ ∃ row ∈ reader.rows, row.recordId = c.1
  deps_valid : ∀ dep ∈ input.depsOpened, dep.validFrom = input.generation ∧ dep.validTo = 0
  deps_ne_max : ∀ dep ∈ input.depsOpened, dep.dependencyId ≠ maxKey
  depsClosures_at : ∀ c ∈ input.depsClosures, c.2 = input.generation
  pending_valid : ∀ site ∈ input.pendingOpened, site.validFrom = input.generation ∧ site.validTo = 0
  pendingClosures_at : ∀ c ∈ input.pendingClosures, c.2 = input.generation

theorem DeltaInput.Valid.sound {input : DeltaInput} {reader : StoreReader}
    (hv : input.Valid reader) :
    input.Sound reader where
  newer := hv.newer
  opened_valid := hv.opened_valid
  opened_nodup := hv.opened_nodup
  opened_fresh := hv.opened_fresh
  opened_ne_max := hv.opened_ne_max
  closures_known := by
    intro c hc
    obtain ⟨hgen, row, hrow, hid⟩ := hv.closures_visible c hc
    exact ⟨hgen, row, (List.mem_filter.mp hrow).1, hid⟩
  deps_valid := hv.deps_valid
  deps_ne_max := hv.deps_ne_max
  depsClosures_at := fun c hc => (hv.depsClosures_visible c hc).1
  pending_valid := hv.pending_valid
  pendingClosures_at := fun c hc => (hv.pendingClosures_visible c hc).1

theorem DeltaInput.Sound.opened_not_closed {input : DeltaInput} {reader : StoreReader}
    (hs : input.Sound reader) {row : RecordRow} (hrow : row ∈ input.opened) :
    row.recordId ∉ input.closures.map Prod.fst := by
  intro hmem
  obtain ⟨c, hc, hck⟩ := List.mem_map.mp hmem
  obtain ⟨-, old, hold, hid⟩ := hs.closures_known c hc
  exact hs.opened_fresh row hrow old hold (hid.trans hck)

structure DeltaInput.Built (input : DeltaInput) (reader : StoreReader) (manifest : Manifest)
    (seg : Segment) : Prop where
  build : (input.sections reader).build = .ok seg
  manifest_generation : manifest.generation = input.generation
  manifest_deltas : manifest.deltas = reader.manifest.deltas ++ [input.generation]

namespace DeltaInput.Built

variable {input : DeltaInput} {reader : StoreReader} {manifest : Manifest} {seg : Segment}

theorem rows_eq (h : input.Built reader manifest seg) :
    seg.rows = (sortOn (fun row => row.recordId) input.opened).map
      (fun row => IdentityCodec.classifyIdentity row (input.fullDicts reader)
        (input.resolveIdentity reader)) :=
  (SegmentInput.build_ok h.build).1

theorem mem_rows (h : input.Built reader manifest seg) {row : StoredRow} (hrow : row ∈ seg.rows) :
    ∃ orig ∈ input.opened, row.toRecordFields = orig.toRecordFields := by
  rw [h.rows_eq] at hrow
  obtain ⟨orig, horig, rfl⟩ := List.mem_map.mp hrow
  exact ⟨orig, (mem_sortOn _ _ _).mp horig, rfl⟩

theorem map_rows {β : Type} (h : input.Built reader manifest seg) (f : RecordFields → β) :
    (seg.rows.map (fun row => f row.toRecordFields)).Perm
      (input.opened.map (fun row => f row.toRecordFields)) := by
  rw [h.rows_eq, List.map_map]
  exact (sortOn_perm _ _).map _

theorem deps_perm (h : input.Built reader manifest seg) : seg.deps.Perm input.depsOpened := by
  rw [(SegmentInput.build_ok h.build).2.1]
  exact sortOn_perm _ _

theorem pending_perm (h : input.Built reader manifest seg) :
    seg.pending.Perm input.pendingOpened := by
  rw [(SegmentInput.build_ok h.build).2.2.1]
  exact sortOn_perm _ _

theorem dict_eq (h : input.Built reader manifest seg) : seg.dict = input.dictSection reader :=
  (SegmentInput.build_ok h.build).2.2.2.1

theorem closures_perm (h : input.Built reader manifest seg) :
    seg.closuresRecords.Perm input.closures := by
  rw [(SegmentInput.build_ok h.build).2.2.2.2.1]
  exact sortOn_perm _ _

theorem depsClosures_perm (h : input.Built reader manifest seg) :
    seg.closuresDeps.Perm input.depsClosures := by
  rw [(SegmentInput.build_ok h.build).2.2.2.2.2.1]
  exact sortOn_perm _ _

theorem pendingClosures_perm (h : input.Built reader manifest seg) :
    seg.closuresPending.Perm input.pendingClosures := by
  rw [(SegmentInput.build_ok h.build).2.2.2.2.2.2.1]
  exact sortOn_perm _ _

theorem closures_get_old (h : input.Built reader manifest seg) (id : Digest32)
    (hid : id ∉ input.closures.map Prod.fst) :
    AssocMap.get (reader.extend manifest seg).recordClosures id =
      AssocMap.get reader.recordClosures id :=
  AssocMap.get_insertAll_of_notMem _ _
    (fun hmem => hid (((h.closures_perm.map _).mem_iff).mp hmem))

theorem closures_get_new (h : input.Built reader manifest seg) (hs : input.Sound reader)
    (id : Digest32) (hid : id ∈ input.closures.map Prod.fst) :
    AssocMap.get (reader.extend manifest seg).recordClosures id = some input.generation :=
  AssocMap.get_insertAll_of_const _ _ ((h.closures_perm.map _).mem_iff.mpr hid)
    (fun c hc => (hs.closures_known c (h.closures_perm.mem_iff.mp hc)).1)

variable (h : input.Built reader manifest seg) (hl : reader.Ledger) (hs : input.Sound reader)

include h hl hs

theorem opened_get_none {row : RecordRow} (hrow : row ∈ input.opened) :
    AssocMap.get (reader.extend manifest seg).recordClosures row.recordId = none := by
  rw [h.closures_get_old _ (hs.opened_not_closed hrow), AssocMap.get_eq_none_iff]
  intro hmem
  obtain ⟨c, hc, hck⟩ := List.mem_map.mp hmem
  obtain ⟨old, hold, hid⟩ := hl.closures_rows c hc
  exact hs.opened_fresh row hrow old hold (hid.trans hck)

theorem ledger : (reader.extend manifest seg).Ledger where
  rows_valid := by
    intro row hrow
    rw [StoreReader.extend_rows, List.mem_append] at hrow
    rw [StoreReader.extend_generation, h.manifest_generation]
    rcases hrow with hnew | hold
    · obtain ⟨orig, horig, heq⟩ := h.mem_rows hnew
      obtain ⟨hvf, hvt⟩ := hs.opened_valid orig horig
      rw [heq]
      exact ⟨hvf.le, hvt⟩
    · obtain ⟨hvf, hvt⟩ := hl.rows_valid row hold
      have := hs.newer
      exact ⟨by omega, hvt⟩
  closures_valid := by
    have hnewer := hs.newer
    rw [StoreReader.extend_generation, h.manifest_generation]
    refine AssocMap.values_insertAll (P := fun v => 0 < v ∧ v ≤ input.generation) ?_ ?_
    · intro c hc
      have := hl.closures_valid c hc
      exact ⟨this.1, by omega⟩
    · intro c hc
      have := (hs.closures_known c (h.closures_perm.mem_iff.mp hc)).1
      exact ⟨by omega, by omega⟩
  closures_rows := by
    intro c hc
    have hkey : c.1 ∈ (reader.extend manifest seg).recordClosures.map Prod.fst :=
      List.mem_map_of_mem hc
    have hkeys :=
      (AssocMap.mem_keys_insertAll reader.recordClosures seg.closuresRecords c.1).mp hkey
    rw [StoreReader.extend_rows]
    rcases hkeys with hold | hnew
    · obtain ⟨c', hc', hck⟩ := List.mem_map.mp hold
      obtain ⟨row, hrow, hid⟩ := hl.closures_rows c' hc'
      exact ⟨row, List.mem_append_right _ hrow, hid.trans hck⟩
    · obtain ⟨c', hc', hck⟩ := List.mem_map.mp hnew
      obtain ⟨-, row, hrow, hid⟩ := hs.closures_known c' (h.closures_perm.mem_iff.mp hc')
      exact ⟨row, List.mem_append_right _ hrow, hid.trans hck⟩
  deps_valid := by
    intro dep hdep
    rw [StoreReader.extend_deps, List.mem_append] at hdep
    rw [StoreReader.extend_generation, h.manifest_generation]
    rcases hdep with hnew | hold
    · obtain ⟨hvf, hvt⟩ := hs.deps_valid dep (h.deps_perm.mem_iff.mp hnew)
      exact ⟨hvf.le, hvt⟩
    · obtain ⟨hvf, hvt⟩ := hl.deps_valid dep hold
      have := hs.newer
      exact ⟨by omega, hvt⟩
  depClosures_valid := by
    intro c hc
    rw [StoreReader.extend_generation, h.manifest_generation]
    rcases List.mem_append.mp hc with hold | hnew
    · have := hl.depClosures_valid c hold
      have := hs.newer
      omega
    · exact (hs.depsClosures_at c (h.depsClosures_perm.mem_iff.mp hnew)).le
  pending_valid := by
    intro site hsite
    rw [StoreReader.extend_pendingSites, List.mem_append] at hsite
    rw [StoreReader.extend_generation, h.manifest_generation]
    rcases hsite with hnew | hold
    · obtain ⟨hvf, hvt⟩ := hs.pending_valid site (h.pending_perm.mem_iff.mp hnew)
      exact ⟨hvf.le, hvt⟩
    · obtain ⟨hvf, hvt⟩ := hl.pending_valid site hold
      have := hs.newer
      exact ⟨by omega, hvt⟩
  pendingClosures_valid := by
    intro c hc
    rw [StoreReader.extend_generation, h.manifest_generation]
    rcases List.mem_append.mp hc with hold | hnew
    · have := hl.pendingClosures_valid c hold
      have := hs.newer
      omega
    · exact (hs.pendingClosures_at c (h.pendingClosures_perm.mem_iff.mp hnew)).le
  rows_ne_max := by
    intro row hrow
    rw [StoreReader.extend_rows, List.mem_append] at hrow
    rcases hrow with hnew | hold
    · obtain ⟨orig, horig, heq⟩ := h.mem_rows hnew
      rw [heq]
      exact hs.opened_ne_max orig horig
    · exact hl.rows_ne_max row hold
  deps_ne_max := by
    intro dep hdep
    rw [StoreReader.extend_deps, List.mem_append] at hdep
    rcases hdep with hnew | hold
    · exact hs.deps_ne_max dep (h.deps_perm.mem_iff.mp hnew)
    · exact hl.deps_ne_max dep hold
  deltas_le := by
    intro g hg
    change g ∈ manifest.deltas at hg
    rw [h.manifest_deltas, List.mem_append] at hg
    rw [StoreReader.extend_generation, h.manifest_generation]
    rcases hg with hold | hnew
    · have := hl.deltas_le g hold
      have := hs.newer
      omega
    · exact (List.mem_singleton.mp hnew).le

omit hl in
theorem idsUnique (hu : reader.IdsUnique) : (reader.extend manifest seg).IdsUnique := by
  unfold StoreReader.IdsUnique
  rw [StoreReader.extend_rows, List.map_append, List.nodup_append]
  refine ⟨(h.map_rows (fun r => r.recordId)).nodup_iff.mpr hs.opened_nodup, hu, ?_⟩
  intro id hid id' hid'
  obtain ⟨row, hrow, rfl⟩ := List.mem_map.mp hid
  obtain ⟨old, hold, rfl⟩ := List.mem_map.mp hid'
  obtain ⟨orig, horig, heq⟩ := h.mem_rows hrow
  rw [heq]
  exact (hs.opened_fresh orig horig old hold).symm

theorem visible_eq :
    (reader.extend manifest seg).visible =
      seg.rows ++ reader.visible.filter (fun row =>
        decide (row.recordId ∉ input.closures.map Prod.fst)) := by
  have hl' := h.ledger hl hs
  unfold StoreReader.visible
  rw [StoreReader.extend_rows, List.filter_append, List.filter_filter]
  congr 1
  · rw [List.filter_eq_self]
    intro row hrow
    rw [hl'.isVisible_iff (by rw [StoreReader.extend_rows]; exact List.mem_append_left _ hrow)]
    obtain ⟨orig, horig, heq⟩ := h.mem_rows hrow
    rw [heq]
    exact h.opened_get_none hl hs horig
  · refine List.filter_congr (fun row hrow => ?_)
    rw [Bool.eq_iff_iff, hl'.isVisible_iff
      (by rw [StoreReader.extend_rows]; exact List.mem_append_right _ hrow),
      Bool.and_eq_true, hl.isVisible_iff hrow, decide_eq_true_eq]
    by_cases hmem : row.recordId ∈ input.closures.map Prod.fst
    · rw [h.closures_get_new hs _ hmem]
      simp [hmem]
    · rw [h.closures_get_old _ hmem]
      simp [hmem]

theorem visibleDeps_eq :
    (reader.extend manifest seg).visibleDeps =
      seg.deps ++ reader.visibleDeps.filter
        (fun dep => decide (dep.dependencyId ∉ input.depsClosures.map Prod.fst)) := by
  have hl' := h.ledger hl hs
  have hnewer := hs.newer
  unfold StoreReader.visibleDeps
  rw [StoreReader.extend_deps, List.filter_append, List.filter_filter]
  congr 1
  · rw [List.filter_eq_self]
    intro dep hdep
    rw [hl'.depIsVisible_iff (by rw [StoreReader.extend_deps]; exact List.mem_append_left _ hdep)]
    intro c hc _
    have hle := hl'.depClosures_valid c hc
    rw [StoreReader.extend_generation, h.manifest_generation] at hle
    rw [(hs.deps_valid dep (h.deps_perm.mem_iff.mp hdep)).1]
    exact hle
  · refine List.filter_congr (fun dep hdep => ?_)
    have hvf := (hl.deps_valid dep hdep).1
    rw [Bool.eq_iff_iff, hl'.depIsVisible_iff
      (by rw [StoreReader.extend_deps]; exact List.mem_append_right _ hdep),
      Bool.and_eq_true, hl.depIsVisible_iff hdep, decide_eq_true_eq]
    constructor
    · intro hall
      refine ⟨fun hmem => ?_, fun c hc => hall c (List.mem_append_left _ hc)⟩
      obtain ⟨c, hc, hck⟩ := List.mem_map.mp hmem
      have hle := hall c (List.mem_append_right _ (h.depsClosures_perm.mem_iff.mpr hc)) hck
      have hgen := hs.depsClosures_at c hc
      omega
    · rintro ⟨hnot, hall⟩ c hc hck
      rcases List.mem_append.mp hc with hold | hnew
      · exact hall c hold hck
      · exact absurd (List.mem_map.mpr ⟨c, h.depsClosures_perm.mem_iff.mp hnew, hck⟩) hnot

theorem visiblePending_eq :
    (reader.extend manifest seg).visiblePending =
      seg.pending ++ reader.visiblePending.filter
        (fun site => decide (site.key ∉ input.pendingClosures.map Prod.fst)) := by
  have hl' := h.ledger hl hs
  have hnewer := hs.newer
  unfold StoreReader.visiblePending
  rw [StoreReader.extend_pendingSites, List.filter_append, List.filter_filter]
  congr 1
  · rw [List.filter_eq_self]
    intro site hsite
    rw [hl'.pendingIsVisible_iff
      (by rw [StoreReader.extend_pendingSites]; exact List.mem_append_left _ hsite)]
    intro c hc _
    have hle := hl'.pendingClosures_valid c hc
    rw [StoreReader.extend_generation, h.manifest_generation] at hle
    rw [(hs.pending_valid site (h.pending_perm.mem_iff.mp hsite)).1]
    exact hle
  · refine List.filter_congr (fun site hsite => ?_)
    have hvf := (hl.pending_valid site hsite).1
    rw [Bool.eq_iff_iff, hl'.pendingIsVisible_iff
      (by rw [StoreReader.extend_pendingSites]; exact List.mem_append_right _ hsite),
      Bool.and_eq_true, hl.pendingIsVisible_iff hsite, decide_eq_true_eq]
    constructor
    · intro hall
      refine ⟨fun hmem => ?_, fun c hc => hall c (List.mem_append_left _ hc)⟩
      obtain ⟨c, hc, hck⟩ := List.mem_map.mp hmem
      have hle := hall c (List.mem_append_right _ (h.pendingClosures_perm.mem_iff.mpr hc)) hck
      have hgen := hs.pendingClosures_at c hc
      omega
    · rintro ⟨hnot, hall⟩ c hc hck
      rcases List.mem_append.mp hc with hold | hnew
      · exact hall c hold hck
      · exact absurd (List.mem_map.mpr ⟨c, h.pendingClosures_perm.mem_iff.mp hnew, hck⟩) hnot

end DeltaInput.Built

end StructuralStore
