import Urdira.StructuralStore.TreeUpdate
import Urdira.StructuralStore.Ledger

open ByteOrder KeyedSet MerkleBucket BucketedMerkleSet

namespace StructuralStore

section Trees

variable [Sha256]

def recordEntry (row : RecordFields) : Digest32 × Digest32 := (row.recordId, row.recordDigest)

def depEntry (dep : DependencyRow) : Digest32 × Digest32 :=
  (dep.dependencyId, dependencyLogical dep.dependencyId)

structure StoreReader.TreesOk (reader : StoreReader) (disk : Disk) : Prop where
  records : ∃ file, disk.trees .records = some file ∧
    (readFrom file).1.Represents (reader.visible.map (fun row => recordEntry row.toRecordFields))
  dependency : ∃ file, disk.trees .dependency = some file ∧
    (readFrom file).1.Represents (reader.visibleDeps.map depEntry)

def StoreReader.roots (reader : StoreReader) : Roots :=
  ⟨specRoot (reader.visible.map (fun row => recordEntry row.toRecordFields)),
    specRoot (reader.visibleDeps.map depEntry)⟩

theorem StoreReader.roots_congr {reader reader' : StoreReader}
    (hr : reader.visible = reader'.visible)
    (hd : reader.visibleDeps = reader'.visibleDeps) : reader.roots = reader'.roots := by
  unfold StoreReader.roots
  rw [hr, hd]

omit [Sha256] in
theorem StoreReader.extend_visible_congr (reader : StoreReader) {manifest manifest' : Manifest}
    (h : manifest.generation = manifest'.generation) (seg : Segment) :
    (reader.extend manifest seg).visible = (reader.extend manifest' seg).visible ∧
      (reader.extend manifest seg).visibleDeps = (reader.extend manifest' seg).visibleDeps := by
  unfold StoreReader.visible StoreReader.visibleDeps
  rw [StoreReader.extend_generation, StoreReader.extend_generation, h]
  simp only [StoreReader.extend_rows, StoreReader.extend_deps,
    reader.isVisible_extend_congr manifest manifest',
      reader.depIsVisible_extend_congr manifest manifest',
    and_self]

omit [Sha256] in
theorem recordEntries_eq {rows : List RecordRow} {generation : ℕ}
    (h : ∀ row ∈ rows, row.validFrom ≤ generation ∧ row.validTo = 0) :
    recordEntries rows generation = rows.map (fun row => recordEntry row.toRecordFields) := by
  unfold recordEntries
  rw [List.filter_eq_self.mpr]
  · rfl
  · intro row hrow
    obtain ⟨hvf, hvt⟩ := h row hrow
    rw [hvt]
    exact isVisibleAt_zero hvf

theorem dependencyEntries_eq {deps : List DependencyRow} {generation : ℕ}
    (h : ∀ dep ∈ deps, dep.validFrom ≤ generation ∧ dep.validTo = 0) :
    dependencyEntries deps generation = deps.map depEntry := by
  unfold dependencyEntries
  rw [List.filter_eq_self.mpr]
  · rfl
  · intro dep hdep
    obtain ⟨hvf, hvt⟩ := h dep hdep
    rw [hvt]
    exact isVisibleAt_zero hvf

theorem functional_depEntry (deps : List DependencyRow) :
    Functional Prod.fst (deps.map depEntry) := by
  refine functional_of_value dependencyLogical ?_
  intro e he
  obtain ⟨dep, -, rfl⟩ := List.mem_map.mp he
  rfl

structure DeltaInput.Distinct (input : DeltaInput) (reader : StoreReader) : Prop where
  records : ∀ change ∈ input.recordChanges,
    ((reader.visibleEntriesInBucket (bucketIndex change.key) reader.generation).map Prod.fst).Nodup
  deps : ∀ change ∈ input.depChanges,
    ((reader.visibleDepEntriesInBucket (bucketIndex change.key) reader.generation).map
      Prod.fst).Nodup

instance (input : DeltaInput) (reader : StoreReader) : Decidable (input.Distinct reader) :=
  decidable_of_iff _ ⟨fun h => ⟨h.1, h.2⟩, fun h => And.intro h.records h.deps⟩

variable {input : DeltaInput} {reader : StoreReader} {manifest : Manifest} {seg : Segment}
  {disk : Disk}

theorem recordTreeStep (h : input.Built reader manifest seg) (hl : reader.Ledger)
    (hs : input.Sound reader) (hd : input.Distinct reader) (ht : reader.TreesOk disk) :
    TreeStep disk .records input.recordChanges
      (fun idx => reader.visibleEntriesInBucket idx reader.generation)
      (reader.visible.map (fun row => recordEntry row.toRecordFields))
      ((reader.extend manifest seg).visible.map (fun row => recordEntry row.toRecordFields)) := by
  have hopened :
      Functional Prod.fst (input.opened.map (fun row => recordEntry row.toRecordFields)) :=
    functional_of_nodup (by rw [List.map_map]; exact hs.opened_nodup)
  have hmem : ∀ e, e ∈ (reader.extend manifest seg).visible.map
      (fun row => recordEntry row.toRecordFields) ↔
      e ∈ input.opened.map (fun row => recordEntry row.toRecordFields) ∨
        (e ∈ reader.visible.map (fun row => recordEntry row.toRecordFields) ∧
          e.1 ∉ input.closures.map Prod.fst) := by
    intro e
    rw [h.visible_eq hl hs, List.map_append, List.mem_append, (h.map_rows recordEntry).mem_iff]
    refine or_congr_right ?_
    simp only [List.mem_map, List.mem_filter, decide_eq_true_eq]
    constructor
    · rintro ⟨row, ⟨hrow, hnot⟩, rfl⟩
      exact ⟨⟨row, hrow, rfl⟩, hnot⟩
    · rintro ⟨⟨row, hrow, rfl⟩, hnot⟩
      exact ⟨row, ⟨hrow, hnot⟩, rfl⟩
  have hdisjoint : ∀ e ∈ reader.visible.map (fun row => recordEntry row.toRecordFields),
      e.1 ∉ (input.opened.map (fun row => recordEntry row.toRecordFields)).map Prod.fst := by
    intro e he hkey
    obtain ⟨old, hold, rfl⟩ := List.mem_map.mp he
    obtain ⟨x, hx, hxk⟩ := List.mem_map.mp hkey
    obtain ⟨row, hrow, rfl⟩ := List.mem_map.mp hx
    exact hs.opened_fresh row hrow old (List.mem_filter.mp hold).1 hxk.symm
  have hchanges : input.recordChanges =
      (input.opened.map (fun row => recordEntry row.toRecordFields)).map
          (fun x => Change.set x.1 x.2) ++ (input.closures.map Prod.fst).map Change.delete := by
    unfold DeltaInput.recordChanges
    rw [recordEntries_eq (fun row hrow => (hs.opened_valid row hrow).imp_left Eq.le),
      List.map_map (f := Prod.fst)]
    rfl
  have hkeys :
      ∀ key ∈ (input.opened.map (fun row => recordEntry row.toRecordFields)).map Prod.fst ++
      input.closures.map Prod.fst, ∃ change ∈ input.recordChanges, change.key = key := by
    intro key hkey
    rw [hchanges]
    rcases List.mem_append.mp hkey with hset | hdelete
    · obtain ⟨x, hx, rfl⟩ := List.mem_map.mp hset
      exact ⟨_, List.mem_append_left _ (List.mem_map_of_mem hx), rfl⟩
    · exact ⟨_, List.mem_append_right _ (List.mem_map_of_mem hdelete), rfl⟩
  have hentries : ∀ idx < 1048576, reader.visibleEntriesInBucket idx reader.generation =
      bucketOf (reader.visible.map (fun row => recordEntry row.toRecordFields)) idx :=
    fun idx hidx => reader.visibleEntriesInBucket_eq hl.rows_ne_max hidx reader.generation
  rw [hchanges]
  refine treeStep_sets_deletes ht.records hentries ?_ hopened hdisjoint ?_ hmem
  · intro key hkey
    obtain ⟨change, hchange, rfl⟩ := hkeys key hkey
    rw [← hentries _ (bucketIndex_lt _)]
    exact hd.records change hchange
  · intro e he
    obtain ⟨row, hrow, rfl⟩ := List.mem_map.mp he
    exact hs.opened_not_closed hrow

theorem depTreeStep (h : input.Built reader manifest seg) (hl : reader.Ledger)
    (hs : input.Sound reader) (hd : input.Distinct reader) (ht : reader.TreesOk disk) :
    TreeStep disk .dependency input.depChanges
      (fun idx => reader.visibleDepEntriesInBucket idx reader.generation)
      (reader.visibleDeps.map depEntry) ((reader.extend manifest seg).visibleDeps.map
        depEntry) := by
  have hmem : ∀ e, e ∈ (reader.extend manifest seg).visibleDeps.map depEntry ↔
      e ∈ input.depsOpened.map depEntry ∨
        (e ∈ reader.visibleDeps.map depEntry ∧ e.1 ∉ input.depsClosures.map Prod.fst) := by
    intro e
    rw [h.visibleDeps_eq hl hs, List.map_append, List.mem_append,
      (h.deps_perm.map depEntry).mem_iff]
    refine or_congr_right ?_
    simp only [List.mem_map, List.mem_filter, decide_eq_true_eq]
    constructor
    · rintro ⟨dep, ⟨hdep, hnot⟩, rfl⟩
      exact ⟨⟨dep, hdep, rfl⟩, hnot⟩
    · rintro ⟨⟨dep, hdep, rfl⟩, hnot⟩
      exact ⟨dep, ⟨hdep, hnot⟩, rfl⟩
  have hchanges : input.depChanges = (input.depsClosures.map Prod.fst).map Change.delete ++
      (input.depsOpened.map depEntry).map (fun x => Change.set x.1 x.2) := by
    unfold DeltaInput.depChanges
    rw [dependencyEntries_eq (fun dep hdep => (hs.deps_valid dep hdep).imp_left Eq.le),
      List.map_map (f := Prod.fst)]
    rfl
  refine ⟨ht.dependency, ?_, ?_, functional_depEntry _, ?_, ?_, ?_⟩
  · intro idx hidx
    exact reader.visibleDepEntriesInBucket_eq hl.deps_ne_max hidx reader.generation
  · intro change hchange
    have := hd.deps change hchange
    rw [reader.visibleDepEntriesInBucket_eq hl.deps_ne_max (bucketIndex_lt _)
      reader.generation] at this
    exact this
  · rw [hchanges, setEntries_append, setEntries_sets, setEntries_deletes, List.nil_append]
    exact functional_depEntry _
  · intro idx hidx e
    rw [hchanges, groupChanges_append, groupChanges_sets, groupChanges_deletes, List.foldl_append,
      foldl_sets (functional_bucketOf (functional_depEntry _) idx)
        (fun x hx => (mem_bucketOf.mp hx).2),
      foldl_deletes (fun k hk => by simpa using (List.mem_filter.mp hk).2), mem_bucketOf,
        mem_bucketOf,
      mem_bucketOf, hmem, List.mem_filter, decide_eq_true_eq]
    constructor
    · rintro (⟨⟨⟨hS, hidx⟩, hnot⟩, -⟩ | ⟨hset, hidx⟩)
      · exact ⟨Or.inr ⟨hS, fun hc => hnot ⟨hc, hidx⟩⟩, hidx⟩
      · exact ⟨Or.inl hset, hidx⟩
    · rintro ⟨hset | ⟨hS, hnot⟩, hidx⟩
      · exact Or.inr ⟨hset, hidx⟩
      · by_cases hkey : e.1 ∈ (bucketOf (input.depsOpened.map depEntry) idx).map Prod.fst
        · obtain ⟨x, hx, hxk⟩ := List.mem_map.mp hkey
          obtain ⟨hxs, hxidx⟩ := mem_bucketOf.mp hx
          have hex : x = e := by
            obtain ⟨dep, -, rfl⟩ := List.mem_map.mp hxs
            obtain ⟨dep', -, rfl⟩ := List.mem_map.mp hS
            have : dep.dependencyId = dep'.dependencyId := hxk
            simp [depEntry, this]
          exact Or.inr ⟨hex ▸ hxs, hidx⟩
        · exact Or.inl ⟨⟨⟨hS, hidx⟩, fun hc => hnot hc.1⟩, hkey⟩
  · intro e hnone
    rw [hmem]
    constructor
    · intro hS
      refine Or.inr ⟨hS, fun hc => hnone (.delete e.1) ?_ rfl⟩
      rw [hchanges]
      exact List.mem_append_left _ (List.mem_map_of_mem hc)
    · rintro (hset | ⟨hS, -⟩)
      · refine absurd rfl (hnone (.set e.1 e.2) ?_)
        rw [hchanges]
        exact List.mem_append_right _ (List.mem_map.mpr ⟨e, hset, rfl⟩)
      · exact hS

end Trees

end StructuralStore
