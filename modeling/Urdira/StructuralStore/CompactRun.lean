import Urdira.StructuralStore.CompactAnswers

open ByteOrder KeyedSet MerkleBucket BinarySearch BucketedMerkleSet

namespace StructuralStore

namespace StoreReader

theorem countUpTo_of_forall_lt {values : List ℕ} {generation : ℕ}
    (h : ∀ v ∈ values, v < nextGeneration generation) :
    countUpTo values generation = values.length := by
  unfold countUpTo
  rw [lowerBound_eq_length (sortOn_pairwise id values), List.filter_eq_self.mpr, length_sortOn]
  intro v hv
  exact decide_eq_true (h v ((mem_sortOn _ _ _).mp hv))

theorem sum_counts {β : Type} (items : Segment → List β) (validFrom validTo : β → ℕ)
    (segments : List Segment) {generation : ℕ}
    (h : ∀ item ∈ segments.flatMap items,
      validFrom item < nextGeneration generation ∧ validTo item = 0) :
    (segments.map (fun seg => countUpTo ((items seg).map validFrom) generation -
      countUpTo (((items seg).map validTo).filter (fun vt => decide (vt ≠ 0))) generation)).sum =
      ((segments.flatMap items).length : ℤ) := by
  induction segments with
  | nil => rfl
  | cons seg segments ih =>
    have hseg : ∀ item ∈ items seg,
        validFrom item < nextGeneration generation ∧ validTo item = 0 :=
      fun item hitem => h item (List.mem_append_left _ hitem)
    have hto : ((items seg).map validTo).filter (fun vt => decide (vt ≠ 0)) = [] := by
      rw [List.filter_eq_nil_iff]
      intro vt hvt
      obtain ⟨item, hitem, rfl⟩ := List.mem_map.mp hvt
      simp [(hseg item hitem).2]
    have hfrom : countUpTo ((items seg).map validFrom) generation =
        ((items seg).map validFrom).length := by
      refine countUpTo_of_forall_lt (fun v hv => ?_)
      obtain ⟨item, hitem, rfl⟩ := List.mem_map.mp hv
      exact (hseg item hitem).1
    rw [List.map_cons, List.sum_cons, ih (fun item hitem => h item (List.mem_append_right _ hitem)),
      hfrom, hto, countUpTo_of_forall_lt (by simp)]
    simp

structure Tidy (reader : StoreReader) : Prop where
  ids : reader.IdsUnique
  layered : reader.Layered
  closures : (reader.recordClosures.map Prod.fst).Nodup
  pending : (reader.visiblePending.map PendingSiteRow.key).Nodup
  depsCount : reader.deps.length = reader.visibleDeps.length + reader.depClosures.length

variable {reader : StoreReader}

theorem Ledger.visible_length (hl : reader.Ledger) (ht : reader.Tidy) :
    reader.rows.length = reader.visible.length + reader.recordClosures.length := by
  have hclosed : (reader.rows.filter
      (fun row => decide (row.recordId ∈ reader.recordClosures.map Prod.fst))).length =
      (reader.recordClosures.map Prod.fst).length := by
    refine length_filter_keys ht.ids ht.closures (fun id hid => ?_)
    obtain ⟨c, hc, rfl⟩ := List.mem_map.mp hid
    exact hl.closures_rows c hc
  have hsplit := List.length_eq_length_filter_add
    (fun row => reader.isVisible row reader.generation) (l := reader.rows)
  have hhidden : reader.rows.filter (fun row => !reader.isVisible row reader.generation) =
      reader.rows.filter (fun row => decide
        (row.recordId ∈ reader.recordClosures.map Prod.fst)) := by
    refine List.filter_congr (fun row hrow => ?_)
    rw [Bool.eq_iff_iff, Bool.not_eq_true', decide_eq_true_eq, ← Bool.not_eq_true,
      hl.isVisible_iff hrow, AssocMap.get_eq_none_iff, not_not]
  rw [hhidden, hclosed, List.length_map] at hsplit
  exact hsplit

structure CountsFit (reader : StoreReader) : Prop where
  rows : ∀ row ∈ reader.rows, row.validFrom < nextGeneration reader.generation
  closures : ∀ c ∈ reader.recordClosures, c.2 < nextGeneration reader.generation
  deps : ∀ dep ∈ reader.deps, dep.validFrom < nextGeneration reader.generation
  depClosures : ∀ c ∈ reader.depClosures, c.2 < nextGeneration reader.generation

theorem Ledger.countsFit (hl : reader.Ledger) (hcast : reader.generation < 4294967295) :
    reader.CountsFit := by
  have hnext : reader.generation < nextGeneration reader.generation := by
    unfold nextGeneration
    omega
  exact ⟨fun row hrow => (hl.rows_valid row hrow).1.trans_lt hnext,
    fun c hc => (hl.closures_valid c hc).2.trans_lt hnext,
    fun dep hdep => (hl.deps_valid dep hdep).1.trans_lt hnext,
    fun c hc => (hl.depClosures_valid c hc).trans_lt hnext⟩

theorem Ledger.visibleCount_eq (hl : reader.Ledger) (ht : reader.Tidy) (hf : reader.CountsFit) :
    reader.visibleCount reader.generation = reader.visible.length := by
  have htotal := sum_counts Segment.rows (fun row => row.validFrom) (fun row => row.validTo)
    reader.segments (fun row hrow => ⟨hf.rows row hrow, (hl.rows_valid row hrow).2⟩)
  have hclosures : countUpTo (reader.recordClosures.map Prod.snd) reader.generation =
      (reader.recordClosures.map Prod.snd).length := by
    refine countUpTo_of_forall_lt (fun v hv => ?_)
    obtain ⟨c, hc, rfl⟩ := List.mem_map.mp hv
    exact hf.closures c hc
  have hlength := hl.visible_length ht
  unfold visibleCount
  simp only
  rw [htotal, hclosures, List.length_map]
  change ((reader.rows.length : ℤ) - _).toNat = _
  omega

theorem Ledger.depsVisibleCount_eq (hl : reader.Ledger) (ht : reader.Tidy) (hf : reader.CountsFit) :
    reader.depsVisibleCount reader.generation = reader.visibleDeps.length := by
  have htotal := sum_counts Segment.deps DependencyRow.validFrom DependencyRow.validTo
    reader.segments (fun dep hdep => ⟨hf.deps dep hdep, (hl.deps_valid dep hdep).2⟩)
  have hclosures : countUpTo (reader.depClosures.map Prod.snd) reader.generation =
      (reader.depClosures.map Prod.snd).length := by
    refine countUpTo_of_forall_lt (fun v hv => ?_)
    obtain ⟨c, hc, rfl⟩ := List.mem_map.mp hv
    exact hf.depClosures c hc
  have hlength := ht.depsCount
  unfold depsVisibleCount
  simp only
  rw [htotal, hclosures, List.length_map]
  change ((reader.deps.length : ℤ) - _).toNat = _
  omega

theorem Ledger.pendingVisibleCount_eq (_ : reader.Ledger) :
    reader.pendingSitesVisibleCount reader.generation = reader.visiblePending.length :=
  (reader.iterVisiblePendingSites_perm reader.generation).length_eq

end StoreReader

def BaseInput.Unique (input : BaseInput) : Prop :=
  (input.rows.map (fun row => row.recordId)).Nodup

structure DeltaInput.Unique [Sha256] (input : DeltaInput) (reader : StoreReader) : Prop where
  distinct : input.Distinct reader
  depsClosures_nodup : (input.depsClosures.map Prod.fst).Nodup
  pending_fresh : ∀ site ∈ input.pendingOpened, site.key ∈ input.pendingClosures.map Prod.fst ∨
    ∀ old ∈ reader.visiblePending, old.key ≠ site.key

instance (input : BaseInput) : Decidable input.Unique :=
  inferInstanceAs (Decidable (input.rows.map (fun row => row.recordId)).Nodup)

instance [Sha256] (input : DeltaInput) (reader : StoreReader) : Decidable (input.Unique reader) :=
  decidable_of_iff
    (input.Distinct reader ∧ (input.depsClosures.map Prod.fst).Nodup ∧
      ∀ site ∈ input.pendingOpened, site.key ∈ input.pendingClosures.map Prod.fst ∨
        ∀ old ∈ reader.visiblePending, old.key ≠ site.key)
    ⟨fun ⟨h₁, h₂, h₃⟩ => ⟨h₁, h₂, h₃⟩, fun h => ⟨h.1, h.2, h.3⟩⟩

theorem BaseInput.Built.tidy {input : BaseInput} {ordered : List RecordRow} {seg : Segment}
    {manifest : Manifest} (h : input.Built ordered seg) (hv : input.Valid) (hu : input.Unique)
    (hgen : manifest.generation = input.generation) (hdeltas : manifest.deltas = []) :
    (StoreReader.load manifest seg []).Tidy := by
  obtain ⟨-, hdeps, hpending⟩ := StoreReader.load_visible manifest h hv hgen hdeltas
  refine ⟨h.idsUnique hu, StoreReader.load_layered manifest seg, List.nodup_nil, ?_, ?_⟩
  · rw [hpending, List.Nodup, List.pairwise_map]
    exact seg.pending_sorted.imp (fun hlt => hlt.ne)
  · rw [hdeps]
    simp [StoreReader.deps, StoreReader.load]

theorem nodup_append_replaced {α K : Type} {key : α → K} {opened visible : List α} {closed : List K}
    {kept : α → Bool} (hkept : ∀ a, kept a = true → key a ∉ closed)
    (hopened : (opened.map key).Nodup) (hvisible : (visible.map key).Nodup)
    (hfresh : ∀ a ∈ opened, key a ∈ closed ∨ ∀ old ∈ visible, key old ≠ key a) :
    ((opened ++ visible.filter kept).map key).Nodup := by
  rw [List.map_append, List.nodup_append]
  refine ⟨hopened, hvisible.sublist (List.filter_sublist.map _), ?_⟩
  intro k hk k' hk' heq
  obtain ⟨a, ha, rfl⟩ := List.mem_map.mp hk
  obtain ⟨old, hold, rfl⟩ := List.mem_map.mp hk'
  obtain ⟨hvis, hnot⟩ := List.mem_filter.mp hold
  rcases hfresh a ha with hclosed | hnew
  · rw [heq] at hclosed
    exact absurd hclosed (hkept old hnot)
  · exact hnew old hvis heq.symm

theorem DeltaInput.Distinct.closed_deps_nodup [Sha256] {reader : StoreReader} {input : DeltaInput}
    (hd : input.Distinct reader) (hl : reader.Ledger) :
    ((reader.visibleDeps.map DependencyRow.dependencyId).filter
      (fun id => decide (id ∈ input.depsClosures.map Prod.fst))).Nodup := by
  refine nodup_filter_of_fibers bucketIndex (fun id _ hid => ?_)
  have hchange : Change.delete id ∈ input.depChanges := by
    obtain ⟨c, hc, rfl⟩ := List.mem_map.mp (of_decide_eq_true hid)
    exact List.mem_append_left _ (List.mem_map_of_mem hc)
  have hbucket := hd.deps _ hchange
  rw [reader.visibleDepEntriesInBucket_eq hl.deps_ne_max (bucketIndex_lt _)
    reader.generation] at hbucket
  have hentries : (reader.visibleDepEntries reader.generation).map Prod.fst =
      reader.visibleDeps.map DependencyRow.dependencyId := by
    rw [StoreReader.visibleDepEntries, List.map_map]
    rfl
  rw [← hentries, List.filter_map]
  exact hbucket

theorem StoreReader.Tidy.extend [Sha256] {reader : StoreReader} {input : DeltaInput}
    {manifest : Manifest} {seg : Segment} (ht : reader.Tidy) (hl : reader.Ledger)
    (h : input.Built reader manifest seg) (hv : input.Valid reader) (hu : input.Unique reader) :
    (reader.extend manifest seg).Tidy := by
  refine ⟨h.idsUnique hv.sound ht.ids, ht.layered.extend hl h hv.sound,
    AssocMap.nodup_insertAll ht.closures _, ?_, ?_⟩
  · rw [h.visiblePending_eq hl hv.sound]
    refine nodup_append_replaced (fun site => of_decide_eq_true)
      ((h.pending_perm.map _).nodup_iff.mpr hv.pending_nodup) ht.pending ?_
    intro site hsite
    exact hu.pending_fresh site (h.pending_perm.mem_iff.mp hsite)
  · have hclosed : (reader.visibleDeps.filter
        (fun dep => decide (dep.dependencyId ∈ input.depsClosures.map Prod.fst))).length =
        (input.depsClosures.map Prod.fst).length := by
      refine length_filter_keys_of_nodup (hu.distinct.closed_deps_nodup hl) hu.depsClosures_nodup
        (fun id hid => ?_)
      obtain ⟨c, hc, rfl⟩ := List.mem_map.mp hid
      exact (hv.depsClosures_visible c hc).2
    have hsplit := List.length_eq_length_filter_add
      (fun dep => decide (dep.dependencyId ∈ input.depsClosures.map Prod.fst))
        (l := reader.visibleDeps)
    have hcount := ht.depsCount
    have hkept : reader.visibleDeps.filter
        (fun dep => !decide (dep.dependencyId ∈ input.depsClosures.map Prod.fst)) =
        reader.visibleDeps.filter
          (fun dep => decide (dep.dependencyId ∉ input.depsClosures.map Prod.fst)) := by
      refine List.filter_congr (fun dep _ => ?_)
      simp
    have hclosures : (reader.extend manifest seg).depClosures.length =
        reader.depClosures.length + (input.depsClosures.map Prod.fst).length := by
      change (reader.depClosures ++ seg.closuresDeps).length = _
      rw [List.length_append, h.depsClosures_perm.length_eq, List.length_map]
    rw [h.visibleDeps_eq hl hv.sound, hclosures, StoreReader.extend_deps, List.length_append,
      List.length_append]
    rw [hclosed, hkept] at hsplit
    omega

section Answers

structure SameAnswers (reader compacted : StoreReader) : Prop where
  get : ∀ key, (compacted.getVisible key compacted.generation).map (viewToRow compacted) =
    (reader.getVisible key reader.generation).map (viewToRow reader)
  byOwner : ∀ owner, ((compacted.byOwner owner compacted.generation).map (viewToRow compacted)).Perm
    ((reader.byOwner owner reader.generation).map (viewToRow reader))
  byName : ∀ nameId, ((compacted.byName nameId compacted.generation).map (viewToRow compacted)).Perm
    ((reader.byName nameId reader.generation).map (viewToRow reader))
  byKind : ∀ universalKindId category kindId limit afterKey,
    (compacted.byKind universalKindId category kindId compacted.generation limit afterKey).map
        (viewToRow compacted) =
      (reader.byKind universalKindId category kindId reader.generation limit afterKey).map
        (viewToRow reader)
  adjacency : ∀ subjectKey direction,
    ((compacted.adjacency subjectKey direction compacted.generation).map (viewToRow compacted)).Perm
      ((reader.adjacency subjectKey direction reader.generation).map (viewToRow reader))
  byIdentityKey : ∀ identityKeyDigest,
    (compacted.byIdentityKey identityKeyDigest compacted.generation).map (viewToRow compacted) =
      (reader.byIdentityKey identityKeyDigest reader.generation).map (viewToRow reader)
  depsByOwner : ∀ owner,
    ((compacted.depsByOwner owner compacted.generation).map (depViewToRow compacted)).Perm
      ((reader.depsByOwner owner reader.generation).map (depViewToRow reader))
  depsReverse : ∀ depArtifact,
    ((compacted.depsReverse depArtifact compacted.generation).map (depViewToRow compacted)).Perm
      ((reader.depsReverse depArtifact reader.generation).map (depViewToRow reader))
  pendingSitesByOwner : ∀ owner,
    ((compacted.pendingSitesByOwner owner compacted.generation).map (pendingToRow compacted)).Perm
      ((reader.pendingSitesByOwner owner reader.generation).map (pendingToRow reader))
  visibleCount : compacted.visibleCount compacted.generation = reader.visibleCount reader.generation
  depsVisibleCount : compacted.depsVisibleCount compacted.generation =
    reader.depsVisibleCount reader.generation
  pendingVisibleCount : compacted.pendingSitesVisibleCount compacted.generation =
    reader.pendingSitesVisibleCount reader.generation
  dicts : ∃ words, compacted.dicts = withEntityKinds reader.dicts words

theorem Compacted.sameAnswers {reader compacted : StoreReader} {newGeneration : ℕ}
    (h : Compacted reader compacted newGeneration) (hl : reader.Ledger) (ht : reader.Tidy)
    (ht' : compacted.Tidy) (hf : reader.CountsFit) (hf' : compacted.CountsFit) :
    SameAnswers reader compacted := by
  have hl' := h.ledger
  refine ⟨?_, ?_, ?_, ?_, ?_, ?_, ?_, ?_, ?_, ?_, ?_, ?_, h.dicts⟩
  · intro key
    refine Option.ext (fun row => ?_)
    rw [hl'.getVisible_views ht'.ids, hl.getVisible_views ht.ids, h.views.mem_iff]
  · intro owner
    exact (hl'.byOwner_views owner).trans ((h.views.filter _).trans (hl.byOwner_views owner).symm)
  · intro nameId
    exact (hl'.byName_views nameId).trans ((h.views.filter _).trans (hl.byName_views nameId).symm)
  · intro universalKindId category kindId limit afterKey
    rw [hl'.byKind_views ht'.ids, hl.byKind_views ht.ids]
    exact StoreReader.kindPage_perm (hl'.views_nodup ht'.ids) h.views _ _ _
  · intro subjectKey direction
    have hsubjects : compacted.subjectOrdinal subjectKey = reader.subjectOrdinal subjectKey := by
      obtain ⟨words, hdicts⟩ := h.dicts
      rw [StoreReader.subjectOrdinal, hdicts]
      rfl
    have hviews := hl'.adjacency_views subjectKey direction
    rw [hsubjects] at hviews
    exact hviews.trans ((h.views.filter _).trans (hl.adjacency_views subjectKey direction).symm)
  · intro identityKeyDigest
    rw [hl'.byIdentityKey_views ht'.ids ht'.layered, hl.byIdentityKey_views ht.ids ht.layered]
    exact StoreReader.identityAnswer_perm (hl.views_nodup ht.ids) h.views.symm _
  · intro owner
    rw [hl'.depsByOwner_views, hl.depsByOwner_views]
    exact h.deps.filter _
  · intro depArtifact
    exact (hl'.depsReverse_views depArtifact).trans
      ((h.deps.filter _).trans (hl.depsReverse_views depArtifact).symm)
  · intro owner
    exact (hl'.pendingSitesByOwner_views owner).trans
      ((h.pending.filter _).trans (hl.pendingSitesByOwner_views owner).symm)
  · have hlength := h.views.length_eq
    rw [StoreReader.views, StoreReader.views, List.length_map, List.length_map] at hlength
    rw [hl'.visibleCount_eq ht' hf', hl.visibleCount_eq ht hf, hlength]
  · rw [hl'.depsVisibleCount_eq ht' hf', hl.depsVisibleCount_eq ht hf, h.deps.length_eq]
  · rw [hl'.pendingVisibleCount_eq, hl.pendingVisibleCount_eq, h.pending.length_eq]

end Answers

section Run

variable [Sha256] {disk disk' : Disk} {reader : StoreReader} {newGeneration : ℕ} {roots : Roots}

theorem StoreRun.tidy
    (h : StoreRun (fun input => input.Valid ∧ input.Unique)
      (fun reader input => input.Valid reader ∧ input.Unique reader) disk roots) :
    ∃ reader, StoreOk disk reader ∧ reader.Tidy := by
  induction h with
  | base started write =>
    obtain ⟨seg, hbuilt, hok, -⟩ := publishBase_ok started.1 (sortOn_perm _ _) write
    exact ⟨_, hok, hbuilt.tidy started.1 started.2 rfl rfl⟩
  | partitioned started write =>
    obtain ⟨seg, hbuilt, hok, -⟩ := publishBase_ok started.1 (List.Perm.refl _) write
    exact ⟨_, hok, hbuilt.tidy started.1 started.2 rfl rfl⟩
  | delta before opened admitted write ih =>
    obtain ⟨reader, hok, ht⟩ := ih
    obtain rfl := Except.ok.inj (hok.opens.symm.trans opened)
    obtain ⟨plan, records, dependency, hplan, hplanned⟩ :=
      planDelta_ok hok.ledger hok.trees admitted.1.sound admitted.1.pending_nodup
        admitted.2.distinct
    unfold writeDeltaWithReaderAndPending at write
    rw [hplan] at write
    cases write
    exact ⟨_, hplanned.storeOk hok admitted.1.sound,
      ht.extend hok.ledger hplanned.built admitted.1 admitted.2⟩

theorem publishBase_isOk (disk : Disk) {input : BaseInput} {ordered : List RecordRow}
    (hs : ordered.Pairwise (fun a b => a.recordId ≤ b.recordId)) (hv : input.Valid)
    (hids : (input.rows.map (fun row => row.recordId)).Nodup)
    (hpending : (input.pendingSites.map PendingSiteRow.key).Nodup) :
    ∃ written, publishBase disk input (input.sections ordered hs) = .ok written := by
  obtain ⟨seg, hseg⟩ := SegmentInput.build_isOk (input.sections ordered hs) hpending
  have hrecords : Functional Prod.fst (recordEntries input.rows input.generation) := by
    rw [recordEntries_eq hv.rows_valid]
    refine functional_of_nodup ?_
    rw [List.map_map]
    exact hids
  have hdeps : Functional Prod.fst (dependencyEntries input.deps input.generation) := by
    rw [dependencyEntries_eq hv.deps_valid]
    exact functional_depEntry _
  obtain ⟨records, hr, -⟩ := fromSorted_ok hrecords
  obtain ⟨deps, hd, -⟩ := fromSorted_ok hdeps
  unfold publishBase
  rw [hseg, hr, hd]
  exact ⟨_, rfl⟩

theorem compact_isOk (hopen : StoreReader.open disk = .ok reader) (hl : reader.Ledger)
    (ht : reader.Tidy)
    (hg : reader.generation ≤ newGeneration) :
    ∃ written, compact disk newGeneration = .ok written := by
  obtain ⟨written, hwritten⟩ := publishBase_isOk disk
    (sortOn_pairwise (fun row => row.recordId) (compactInput reader newGeneration).rows)
    (hl.compactInput_valid hg) (hl.compactInput_nodup hg ht.ids)
    (((hl.compactInput_pending hg).map _).nodup_iff.mpr ht.pending)
  refine ⟨written, ?_⟩
  unfold compact
  rw [hopen]
  exact hwritten

theorem Compacted.roots_eq {compacted : StoreReader} (h : Compacted reader compacted newGeneration)
    (hl : reader.Ledger)
    (hf : Functional Prod.fst (compacted.visible.map (fun row => recordEntry row.toRecordFields))) :
    compacted.roots = reader.roots := by
  have hrecords : ∀ e, e ∈ compacted.visible.map (fun row => recordEntry row.toRecordFields) ↔
      e ∈ reader.visible.map (fun row => recordEntry row.toRecordFields) := by
    intro e
    rw [← h.ledger.map_views recordEntry, ← hl.map_views recordEntry]
    exact (h.views.map _).mem_iff
  unfold StoreReader.roots
  rw [specRoot_congr hf hrecords,
    specRoot_congr (functional_depEntry _) (fun e => (h.deps.map depEntry).mem_iff)]

omit [Sha256] in
theorem BaseInput.Built.countsFit {input : BaseInput} {ordered : List RecordRow} {seg : Segment}
    {manifest : Manifest} {generation : ℕ} (h : input.Built ordered seg)
    (hnext : generation < nextGeneration manifest.generation)
    (hrows : ∀ row ∈ input.rows, row.validFrom ≤ generation)
    (hdeps : ∀ dep ∈ input.deps, dep.validFrom ≤ generation) :
    (StoreReader.load manifest seg []).CountsFit where
  rows := by
    intro row hrow
    rw [h.load_rows] at hrow
    obtain ⟨orig, horig, heq⟩ := h.mem_rows hrow
    rw [heq]
    exact (hrows orig horig).trans_lt hnext
  closures := by simp [StoreReader.load]
  deps := by
    intro dep hdep
    obtain ⟨seg', hseg', hmem⟩ := List.mem_flatMap.mp hdep
    obtain rfl := List.mem_singleton.mp hseg'
    exact (hdeps dep (h.deps_perm.mem_iff.mp hmem)).trans_lt hnext
  depClosures := by simp [StoreReader.load]

theorem compaction_preserves_answers
    (h : StoreRun (fun input => input.Valid ∧ input.Unique)
      (fun reader input => input.Valid reader ∧ input.Unique reader) disk roots)
    (hopen : StoreReader.open disk = .ok reader) (hcast : reader.generation < 4294967295)
    (hg : reader.generation ≤ newGeneration % 4294967296) :
    ∃ disk' roots' compacted, compact disk newGeneration = .ok (disk', roots') ∧
      StoreReader.open disk' = .ok compacted ∧ compacted.generation = newGeneration ∧
      SameAnswers reader compacted ∧
      compacted.manifest.recordsRoot = reader.manifest.recordsRoot ∧
      compacted.manifest.dependencyRoot = reader.manifest.dependencyRoot := by
  obtain ⟨reader', hok, ht⟩ := h.tidy
  obtain rfl := Except.ok.inj (hok.opens.symm.trans hopen)
  have hle : reader'.generation ≤ newGeneration := hg.trans (Nat.mod_le _ _)
  obtain ⟨⟨disk', roots'⟩, hwritten⟩ := compact_isOk hopen hok.ledger ht hle
  obtain ⟨seg, hbuilt, hok', hroots, hcompacted⟩ :=
    compact_spec hopen hok.ledger ht.ids hle hwritten
  have ht' : (StoreReader.load (baseManifest newGeneration roots') seg []).Tidy :=
    hbuilt.tidy (hok.ledger.compactInput_valid hle) (hok.ledger.compactInput_nodup hle ht.ids) rfl
      rfl
  have hnext : reader'.generation < nextGeneration newGeneration := by
    unfold nextGeneration
    omega
  have hfits : (StoreReader.load (baseManifest newGeneration roots') seg []).CountsFit := by
    refine hbuilt.countsFit hnext (fun row hrow => ?_) (fun dep hdep => ?_)
    · obtain ⟨stored, hstored, heq⟩ :=
        hok.ledger.mem_views ((hok.ledger.compactInput_rows hle).mem_iff.mp hrow)
      rw [heq]
      exact (hok.ledger.rows_valid stored hstored).1
    · rw [hok.ledger.compactInput_deps hle] at hdep
      exact (hok.ledger.deps_valid dep (List.mem_filter.mp hdep).1).1
  have hsame := hcompacted.roots_eq hok.ledger hok'.functional
  refine ⟨disk', roots', _, hwritten, hok'.opens, rfl,
    hcompacted.sameAnswers hok.ledger ht ht' (hok.ledger.countsFit hcast) hfits, ?_, ?_⟩
  · rw [hok'.manifest_roots.1, hok.manifest_roots.1, hsame]
  · rw [hok'.manifest_roots.2, hok.manifest_roots.2, hsame]

end Run

section Instances

theorem compaction_preserves_answers_reopened :
    ∃ reader compacted, SameAnswers reader compacted ∧ reader.generation = 2 ∧
      compacted.generation = 3 ∧ reader.visibleDeps.length = 4 := by
  let _ := fixedDigest
  let base := dependencyBase
    [plainDependency (Block.fill 32 1) 0 1, plainDependency (Block.fill 32 2) 0 1,
      plainDependency (Block.fill 32 3) 0 1, plainDependency (Block.fill 32 3) 1 1]
  let delta := dependencyDelta [plainDependency (Block.fill 32 1) 1 2] [Block.fill 32 1] 2
  have hscript : (do
      let state ← replay (fun reader input => input.Valid reader ∧ input.Unique reader) base [delta]
      let reader ← StoreReader.open state.1
      Except.ok (reader.generation, reader.visibleDeps.length)) = .ok (2, 4) := by
    decide +kernel
  obtain ⟨⟨disk, roots⟩, hrun, hscript⟩ := ExceptOk.bind_eq_ok hscript
  obtain ⟨reader, hopen, hscript⟩ := ExceptOk.bind_eq_ok hscript
  obtain ⟨hgen, hlength⟩ := Prod.mk.inj (Except.ok.inj hscript)
  have hstart : base.Valid ∧ base.Unique := by decide +kernel
  have hle : reader.generation ≤ 3 % 4294967296 := by omega
  obtain ⟨disk', roots', compacted, -, -, hgen', hsame, -⟩ :=
    compaction_preserves_answers (replay_storeRun hstart hrun) hopen (by omega) hle
  exact ⟨reader, compacted, hsame, hgen, hgen', hlength⟩

theorem shared_dependency_id_changes_compacted_root :
    ¬ ∀ (_ : Sha256) (disk : Disk) (roots : Roots) (reader : StoreReader) (newGeneration : ℕ),
      StoreRun BaseInput.Valid (fun reader input => input.Valid reader) disk roots →
      StoreReader.open disk = .ok reader → reader.generation ≤ newGeneration →
      ∃ disk' roots' compacted, compact disk newGeneration = .ok (disk', roots') ∧
        StoreReader.open disk' = .ok compacted ∧ compacted.generation = newGeneration ∧
        SameAnswers reader compacted ∧
        compacted.manifest.recordsRoot = reader.manifest.recordsRoot ∧
        compacted.manifest.dependencyRoot = reader.manifest.dependencyRoot := by
  intro hall
  let _ := fixedDigest
  let base := dependencyBase [plainDependency (Block.fill 32 1) 0 1,
    plainDependency (Block.fill 32 1) 1 1, plainDependency (Block.fill 32 2) 0 1]
  let delta := dependencyDelta [] [Block.fill 32 1] 2
  have hscript : (do
      let state ← replay (fun reader input => input.Valid reader) base [delta]
      let reader ← StoreReader.open state.1
      let state' ← compact state.1 2
      let compacted ← StoreReader.open state'.1
      Except.ok (reader.generation, decide (compacted.manifest.dependencyRoot =
        reader.manifest.dependencyRoot))) = .ok (2, false) := by
    decide +kernel
  obtain ⟨⟨disk, roots⟩, hrun, hscript⟩ := ExceptOk.bind_eq_ok hscript
  obtain ⟨reader, hopen, hscript⟩ := ExceptOk.bind_eq_ok hscript
  obtain ⟨⟨disk', roots'⟩, hcompact, hscript⟩ := ExceptOk.bind_eq_ok hscript
  obtain ⟨compacted, hopen', hscript⟩ := ExceptOk.bind_eq_ok hscript
  obtain ⟨hgen, hroot⟩ := Prod.mk.inj (Except.ok.inj hscript)
  have hvalid : base.Valid := by decide +kernel
  obtain ⟨disk'', roots'', other, hother, hopen'', -, -, -, hsame⟩ :=
    hall fixedDigest disk roots reader 2 (replay_storeRun hvalid hrun) hopen hgen.le
  rw [hcompact] at hother
  cases hother
  obtain rfl := Except.ok.inj (hopen'.symm.trans hopen'')
  exact of_decide_eq_false hroot hsame

end Instances

end StructuralStore
