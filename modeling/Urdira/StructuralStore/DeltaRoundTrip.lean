import Urdira.StructuralStore.SegmentRoundTrip
import Urdira.StructuralStore.IdentityRun

open ByteOrder KeyedSet MerkleBucket ByteLayout

namespace StructuralStore

open IdentityCodec

def firstU32 {α : Type} (xs : List α) : List α := xs.take (xs.length % 2 ^ 32)

theorem firstU32_eq {α : Type} {xs : List α} (h : xs.length < 2 ^ 32) : firstU32 xs = xs := by
  unfold firstU32
  rw [Nat.mod_eq_of_lt h, List.take_length]

def buildPendingSites [Xxh3] (pendingOpened : List PendingSiteRow) (generation : ℕ) :
    Except Fault (List EncodedSection) :=
  if pendingOpened.isEmpty then .ok []
  else do
    let ordered ← encodePendingSitesBody (firstU32 pendingOpened)
    .ok [encodePendingSites ordered.val generation]

def buildDeltaSections [Xxh3] (input : DeltaInput) (reader : StoreReader) :
    Except Fault (List EncodedSection) := do
  let generation := input.generation
  let dicts := input.fullDicts reader
  let ordered := sortOn (fun row => row.recordId) (firstU32 input.opened)
  let rows := ordered.map (fun row => classifyIdentity row dicts (input.resolveIdentity reader))
  let deps := sortOn DependencyRow.dependencyId (firstU32 input.depsOpened)
  let pending ← buildPendingSites input.pendingOpened generation
  .ok (hotSections rows generation ++
    secondarySections rows (entitiesIndexWith (fun row => row.spanStartByte) dicts ordered)
      generation ++
    depsSections deps generation ++ dictSections (input.dictSection reader) generation ++
    closureSection .closuresRecords .records (sortOn Prod.fst input.closures) generation ++
    closureSection .closuresDeps .dependencies (sortOn Prod.fst input.depsClosures) generation ++
    pending ++ pendingClosureSection (sortOn Prod.fst input.pendingClosures) generation)

structure DeltaInput.Typed (input : DeltaInput) : Prop where
  generation : input.generation < 2 ^ 64
  opened : ∀ row ∈ input.opened, row.toRecordFields.Typed
  depsOpened : ∀ dep ∈ input.depsOpened, dep.Typed
  pendingOpened : ∀ site ∈ input.pendingOpened, site.Typed
  dictAdditions : input.dictAdditions.Typed
  closures : ∀ closure ∈ input.closures, closure.2 < 2 ^ 32
  depsClosures : ∀ closure ∈ input.depsClosures, closure.2 < 2 ^ 32
  pendingClosures : ∀ closure ∈ input.pendingClosures,
    PendingSiteKey.Typed closure.1 ∧ closure.2 < 2 ^ 32
  closuresCount : input.closures.length < 2 ^ 64
  depsClosuresCount : input.depsClosures.length < 2 ^ 64
  pendingClosuresCount : input.pendingClosures.length < 2 ^ 64

structure DeltaInput.Storable (input : DeltaInput) (reader : StoreReader) : Prop where
  openedCount : input.opened.length < 2 ^ 32
  opened : ∀ row ∈ input.opened, row.toRecordFields.Storable
  idents : ∀ row ∈ (input.sections reader).rows, row.ident.length < 2 ^ 32
  depsCount : input.depsOpened.length < 2 ^ 32
  deps : ∀ dep ∈ input.depsOpened, some noneU32 ≠ dep.record
  pendingCount : input.pendingOpened.length < 2 ^ 32
  pending : ∀ site ∈ input.pendingOpened, some noneU32 ≠ site.sourceSubject
  dict : (input.dictSection reader).Storable

section Written

variable {input : DeltaInput} {reader : StoreReader} {seg : Segment}

theorem classifyIdentity_entityKind_lt (row : RecordRow) (d : Dictionaries)
    (resolve : Digest32 → Option Bytes) : (classifyIdentity row d resolve).entityKind < 2 ^ 8 := by
  have hord : ∀ candidate ord, tryEntity row d = some (candidate, ord) → ord < entityKindNone := by
    intro candidate ord h
    unfold tryEntity at h
    split at h
    · cases h
    · simp only [Option.bind_eq_bind, Option.bind_eq_some_iff] at h
      obtain ⟨path, -, nameId, -, name, -, word, -, ord', -, h⟩ := h
      split at h
      · cases h
      · split at h
        · obtain ⟨-, rfl⟩ := Prod.mk.inj (Option.some.inj h)
          omega
        · cases h
  change (classifyIdentityLayout row d resolve).2 < 2 ^ 8
  unfold classifyIdentityLayout
  split
  · split
    · rename_i candidate ord htry
      have hlt := hord candidate ord htry
      have hnone : entityKindNone = 255 := rfl
      split
      · dsimp only
        omega
      · decide
    · decide
  · split
    · decide
    · split <;> decide
  · decide

theorem newEntityKinds_utf8 {word : Text} (h : word ∈ input.newEntityKinds reader) :
    fromUtf8 word = some word := by
  unfold DeltaInput.newEntityKinds collectNewEntityKinds at h
  have hmem := (mem_canonOn (fun a _ b _ hab => hab) word).mp h
  obtain ⟨row, -, hword⟩ := List.mem_filterMap.mp hmem
  split at hword
  · obtain ⟨hparse, -⟩ := Option.filter_eq_some_iff.mp hword
    unfold parseEntityKindWord at hparse
    simp only [Option.bind_eq_bind, Option.bind_eq_some_iff] at hparse
    obtain ⟨after, -, hparse⟩ := hparse
    split at hparse
    · unfold fromUtf8 at hparse ⊢
      split at hparse
      · rename_i hrun
        obtain rfl := Option.some.inj hparse
        rw [if_pos hrun]
      · cases hparse
    · cases hparse
  · cases hword

theorem dictSection_typed (ht : input.Typed) : (input.dictSection reader).Typed := by
  intro text htext
  have hsplit : text ∈ input.dictAdditions.texts ∨ text ∈ input.newEntityKinds reader := by
    simp only [Dictionaries.texts, DeltaInput.dictSection, List.mem_append] at htext ⊢
    tauto
  rcases hsplit with hold | hnew
  · exact ht.dictAdditions text hold
  · exact newEntityKinds_utf8 hnew

theorem build_typed (ht : input.Typed) (h : (input.sections reader).build = .ok seg) :
    seg.Typed := by
  obtain ⟨hrows, hdeps, hpending, hdict, hrecords, hdepsClosures, hsites, -, hgeneration⟩ :=
    SegmentInput.build_ok h
  have hrow : ∀ row ∈ seg.rows, ∃ orig ∈ input.opened,
      row = classifyIdentity orig (input.fullDicts reader) (input.resolveIdentity reader) := by
    intro row hmem
    rw [hrows] at hmem
    obtain ⟨orig, horig, rfl⟩ := List.mem_map.mp hmem
    exact ⟨orig, (mem_sortOn _ _ _).mp horig, rfl⟩
  refine ⟨?_, ?_, ?_, ?_, ?_, ?_, ?_, ?_, ?_, ?_, ?_, ?_⟩
  · rw [hgeneration]
    exact ht.generation
  · intro row hmem
    obtain ⟨orig, horig, rfl⟩ := hrow row hmem
    exact ht.opened orig horig
  · intro row hmem
    obtain ⟨orig, -, rfl⟩ := hrow row hmem
    exact classifyIdentity_entityKind_lt orig _ _
  · rw [hdeps]
    exact fun dep hdep => ht.depsOpened dep ((mem_sortOn _ _ _).mp hdep)
  · rw [hpending]
    exact fun site hsite => ht.pendingOpened site ((mem_sortOn _ _ _).mp hsite)
  · rw [hdict]
    exact dictSection_typed ht
  · rw [hrecords]
    exact fun closure hclosure => ht.closures closure ((mem_sortOn _ _ _).mp hclosure)
  · rw [hdepsClosures]
    exact fun closure hclosure => ht.depsClosures closure ((mem_sortOn _ _ _).mp hclosure)
  · rw [hsites]
    exact fun closure hclosure => ht.pendingClosures closure ((mem_sortOn _ _ _).mp hclosure)
  · rw [hrecords, (sortOn_perm _ _).length_eq]
    exact ht.closuresCount
  · rw [hdepsClosures, (sortOn_perm _ _).length_eq]
    exact ht.depsClosuresCount
  · rw [hsites, (sortOn_perm _ _).length_eq]
    exact ht.pendingClosuresCount

theorem build_storable (hs : input.Storable reader) (h : (input.sections reader).build = .ok seg) :
    seg.Storable := by
  obtain ⟨hrows, hdeps, hpending, hdict, -⟩ := SegmentInput.build_ok h
  refine ⟨?_, ?_, ?_, ?_, ?_, ?_, ?_, ?_⟩
  · rw [hrows, SegmentInput.rows, List.length_map]
    exact (sortOn_perm _ _).length_eq.trans_lt hs.openedCount
  · intro row hmem
    rw [hrows] at hmem
    obtain ⟨orig, horig, rfl⟩ := List.mem_map.mp hmem
    exact hs.opened orig ((mem_sortOn _ _ _).mp horig)
  · rw [hrows]
    exact hs.idents
  · rw [hdeps]
    exact (sortOn_perm _ _).length_eq.trans_lt hs.depsCount
  · rw [hdeps]
    exact fun dep hdep => hs.deps dep ((mem_sortOn _ _ _).mp hdep)
  · rw [hpending]
    exact (sortOn_perm _ _).length_eq.trans_lt hs.pendingCount
  · rw [hpending]
    exact fun site hsite => hs.pending site ((mem_sortOn _ _ _).mp hsite)
  · rw [hdict]
    exact hs.dict

theorem encodePendingSitesBody_perm {sites : List PendingSiteRow}
    {ordered : {ordered : List PendingSiteRow // ordered.Pairwise (fun a b => a.key < b.key)}}
    (h : encodePendingSitesBody sites = .ok ordered) : ordered.val.Perm sites := by
  unfold encodePendingSitesBody at h
  dsimp only at h
  split at h
  · cases h
  · obtain rfl := Except.ok.inj h
    exact sortOn_perm _ _

theorem buildPendingSites_ok [Xxh3] {sites : List PendingSiteRow} {generation : ℕ}
    {pending : List EncodedSection} (hcount : sites.length < 2 ^ 32)
    (h : buildPendingSites sites generation = .ok pending) :
    ∃ ordered, encodePendingSitesBody sites = .ok ordered ∧
      pending = pendingSitesSection ordered.val generation := by
  unfold buildPendingSites at h
  rw [firstU32_eq hcount] at h
  split at h
  · rename_i hempty
    obtain rfl := Except.ok.inj h
    rw [List.isEmpty_iff.mp hempty]
    exact ⟨⟨[], List.Pairwise.nil⟩, rfl, rfl⟩
  · rename_i hempty
    obtain ⟨ordered, hok, h⟩ := ExceptOk.bind_eq_ok h
    obtain rfl := Except.ok.inj h
    refine ⟨ordered, hok, ?_⟩
    have hne : ¬ ordered.val.isEmpty := by
      rwa [(encodePendingSitesBody_perm hok).isEmpty_eq]
    unfold pendingSitesSection
    rw [if_neg hne]

theorem buildDeltaSections_ok [Xxh3] {sections : List EncodedSection}
    (hopened : input.opened.length < 2 ^ 32) (hdeps : input.depsOpened.length < 2 ^ 32)
    (hpending : input.pendingOpened.length < 2 ^ 32)
    (h : buildDeltaSections input reader = .ok sections) :
    ∃ seg, (input.sections reader).build = .ok seg ∧ sections = seg.sections := by
  unfold buildDeltaSections at h
  rw [firstU32_eq hopened, firstU32_eq hdeps] at h
  obtain ⟨pending, hsites, h⟩ := ExceptOk.bind_eq_ok h
  obtain ⟨ordered, hok, rfl⟩ := buildPendingSites_ok hpending hsites
  obtain rfl := Except.ok.inj h
  refine ⟨_, by
    change (encodePendingSitesBody input.pendingOpened >>= _) = _
    rw [hok]
    rfl, ?_⟩
  unfold Segment.sections Segment.mandatorySections Segment.optionalSections
  simp only [List.append_assoc]
  rfl

end Written

def StoreReader.readBack (reader : StoreReader) (row : StoredRow) : RecordRow :=
  { toRecordFields := row.toRecordFields, identityKey := reader.identityKey row }

section Identity

variable [Sha256] {input : DeltaInput} {reader : StoreReader} {seg : Segment} {disk disk' : Disk}
  {written : Digest32 → Option Bytes} {roots : Roots}

theorem readBack_delta (hrun : WrittenRun disk written) (hopen : StoreReader.open disk = .ok reader)
    (he : input.Elidable reader) (hbuild : (input.sections reader).build = .ok seg)
    (hwrite : writeDeltaWithReaderAndPending disk reader input = .ok (disk', roots)) :
    ∃ reader', StoreReader.open disk' = .ok reader' ∧
      seg.rows.map reader'.readBack = sortOn (fun row => row.recordId) input.opened := by
  obtain ⟨before, hok⟩ := hrun.elided
  obtain rfl := Except.ok.inj (hok.opens.symm.trans hopen)
  have hfresh : input.generation ∉ before.manifest.deltas :=
    fun hmem => absurd (hok.deltas_le _ hmem) (not_le.mpr he.newer)
  obtain ⟨seg', hbuilt, hopen'⟩ := open_written hok.opens hfresh hwrite
  obtain rfl := Except.ok.inj (hbuild.symm.trans hbuilt.build)
  have helides := hbuilt.elides he.fresh he.entityKinds hok.elides
  refine ⟨_, hopen', ?_⟩
  have hkey : ∀ orig ∈ input.opened, ∀ row ∈ seg.rows, row.toRecordFields = orig.toRecordFields →
      (before.extend (nextManifest before input.generation roots) seg).identityKey row =
        orig.identityKey := by
    intro orig horig row hrow hfields
    have hmem : row ∈ (before.extend (nextManifest before input.generation roots) seg).rows := by
      rw [StoreReader.extend_rows]
      exact List.mem_append_left _ hrow
    have hid : row.recordId = orig.recordId := congrArg RecordFields.recordId hfields
    rw [helides.identityKey_eq hmem, hid, he.fresh.originals_new horig]
  have hall : ∀ orig ∈ sortOn (fun row => row.recordId) input.opened,
      (before.extend (nextManifest before input.generation roots) seg).readBack
        (classifyIdentity orig (input.fullDicts before) (input.resolveIdentity before)) = orig := by
    intro orig horig
    have hstored : classifyIdentity orig (input.fullDicts before) (input.resolveIdentity before) ∈
        seg.rows := by
      rw [hbuilt.rows_eq]
      exact List.mem_map_of_mem horig
    unfold StoreReader.readBack
    rw [hkey orig ((mem_sortOn _ _ _).mp horig) _ hstored rfl]
    rfl
  rw [hbuilt.rows_eq, List.map_map]
  exact (List.map_congr_left hall).trans (List.map_id _)

end Identity

section RoundTrip

variable [Xxh3] [Sha256]

theorem delta_segment_round_trip {input : DeltaInput} {reader : StoreReader}
    {sections : List EncodedSection} {bytes : Bytes} (path : String) (ht : input.Typed)
    (hs : input.Storable reader) (hbuild : buildDeltaSections input reader = .ok sections)
    (hwrite : writeContainerToPageCache input.generation sections = .ok bytes) :
    ∃ (container : OpenedContainer) (mapped : MappedSegment) (rows : List StoredRow),
      openContainer path bytes = .ok container ∧
      container.generation = input.generation ∧
      MappedSegment.open (.container path container) = .ok mapped ∧
      mapped.generation = input.generation ∧ mapped.records = rows.map some ∧
      rows.map StoredRow.toRecordFields =
        (sortOn (fun row => row.recordId) input.opened).map RecordRow.toRecordFields ∧
      (∀ disk disk' written roots, WrittenRun disk written → StoreReader.open disk = .ok reader →
        input.Elidable reader → writeDeltaWithReaderAndPending disk reader input =
          .ok (disk', roots) →
          ∃ reader', StoreReader.open disk' = .ok reader' ∧
            rows.map reader'.readBack = sortOn (fun row => row.recordId) input.opened) ∧
      mapped.dependencies = (sortOn DependencyRow.dependencyId input.depsOpened).map some ∧
      mapped.pendingSites = (sortOn PendingSiteRow.key input.pendingOpened).map some ∧
      loadClosures (container.bytes .closuresRecords) = .ok (sortOn Prod.fst input.closures) ∧
      loadClosures (container.bytes .closuresDeps) = .ok (sortOn Prod.fst input.depsClosures) ∧
      loadPendingClosures (container.bytes .closuresPending) =
        .ok (sortOn Prod.fst input.pendingClosures) ∧
      loadDict (.container path container) = .ok (input.dictSection reader) := by
  obtain ⟨seg, hseg, rfl⟩ :=
    buildDeltaSections_ok hs.openedCount hs.depsCount hs.pendingCount hbuild
  obtain ⟨container, hopen, hgeneration, hbytes⟩ :=
    openContainer_write path seg.sections_ids ht.generation hwrite
  have htyped := build_typed ht hseg
  have hstorable := build_storable hs hseg
  have hloc : ∀ id, (Location.container path container).optionalSection id =
      AssocMap.get seg.sections id :=
    hbytes
  have hmapped := open_mapped hloc htyped.generation (hstorable.rowCount.trans (by decide))
    (hstorable.depsCount.trans (by decide)) (hstorable.pendingCount.trans (by decide))
  have hholds := holds_mapped hloc htyped hstorable
  obtain ⟨hrows, hdeps, hpending, hdict, hrecords, hdepsClosures, hsites, -, hsegGeneration⟩ :=
    SegmentInput.build_ok hseg
  refine ⟨container, seg.mapped, seg.rows, hopen, hgeneration, hmapped,
    hholds.generation.trans hsegGeneration, hholds.records, ?_, ?_, ?_, ?_, ?_, ?_, ?_, ?_⟩
  · rw [hrows, SegmentInput.rows, List.map_map]
    rfl
  · intro disk disk' written roots hrun hdisk he hdelta
    exact readBack_delta hrun hdisk he hseg hdelta
  · rw [hholds.dependencies, hdeps]
    rfl
  · rw [hholds.pendingSites, hpending]
    rfl
  · have hload : loadClosures (container.bytes .closuresRecords) = _ := hholds.closuresRecords
    rw [hload, hrecords]
    rfl
  · have hload : loadClosures (container.bytes .closuresDeps) = _ := hholds.closuresDeps
    rw [hload, hdepsClosures]
    rfl
  · have hfile : container.bytes .closuresPending = seg.mapped.closuresPending := by
      rw [hbytes, Segment.get_optional (by decide), Segment.get_optionalSections, get_dictSections]
      simp [Segment.mapped, Segment.closuresPendingFile]
    rw [hfile, hholds.closuresPending, hsites]
    rfl
  · rw [hholds.dict, hdict]
    rfl

end RoundTrip

section Instances

def freshReader : StoreReader :=
  ⟨⟨1, 1, [], zero, zero, 1⟩, [], Dictionaries.empty, [], [], []⟩

def ordinalDependency (record : Option ℕ) : DependencyRow :=
  ⟨Block.fill 32 1, record, 0, 0, 0, 0, 0, 2, 0⟩

def ordinalDelta (record : Option ℕ) : DeltaInput :=
  { entityDelta [] 2 with
    closures := [(Block.fill 32 9, 2)]
    depsOpened := [ordinalDependency record] }

theorem ordinalDelta_typed {record : Option ℕ} (h : ∀ r ∈ record, r < 2 ^ 32) :
    (ordinalDelta record).Typed where
  generation := (by decide : 2 < 2 ^ 64)
  opened := fun _ h => absurd h List.not_mem_nil
  depsOpened := by
    intro dep hdep
    obtain rfl := List.mem_singleton.mp hdep
    have hzero : 0 < 2 ^ 32 := by decide
    exact ⟨h, hzero, hzero, hzero, hzero, (by decide : 0 < 2 ^ 8), (by decide : 2 < 2 ^ 32), hzero⟩
  pendingOpened := fun _ h => absurd h List.not_mem_nil
  dictAdditions := fun _ h => absurd h List.not_mem_nil
  closures := by
    intro closure hclosure
    obtain rfl := List.mem_singleton.mp hclosure
    decide
  depsClosures := fun _ h => absurd h List.not_mem_nil
  pendingClosures := fun _ h => absurd h List.not_mem_nil
  closuresCount := (by decide : 1 < 2 ^ 64)
  depsClosuresCount := (by decide : 0 < 2 ^ 64)
  pendingClosuresCount := (by decide : 0 < 2 ^ 64)

theorem ordinalDelta_written [Xxh3] (record : Option ℕ) :
    ∃ seg : Segment, buildDeltaSections (ordinalDelta record) freshReader = .ok seg.sections ∧
      ((ordinalDelta record).sections freshReader).build = .ok seg ∧
      writeContainerToPageCache 2 seg.sections = .ok (encodeContainer 2 seg.sections) := by
  obtain ⟨sections, hbuild⟩ : ∃ sections, buildDeltaSections (ordinalDelta record) freshReader =
      .ok sections := ⟨_, rfl⟩
  have hopened : (ordinalDelta record).opened.length < 2 ^ 32 := (by decide : 0 < 2 ^ 32)
  have hcount : (ordinalDelta record).depsOpened.length < 2 ^ 32 := (by decide : 1 < 2 ^ 32)
  obtain ⟨seg, hseg, rfl⟩ := buildDeltaSections_ok hopened hcount hopened hbuild
  refine ⟨seg, hbuild, hseg, if_pos ?_⟩
  obtain ⟨hrows, hdeps, hpending, hdict, hrecords, hdepsClosures, hsites, hentities, -⟩ :=
    SegmentInput.build_ok hseg
  have hrows : seg.rows = [] := hrows
  have hdeps : seg.deps = [ordinalDependency record] := hdeps
  have hpending : seg.pending = [] := hpending
  have hdict : seg.dict = Dictionaries.empty := hdict
  have hrecords : seg.closuresRecords = [(Block.fill 32 9, 2)] := hrecords
  have hdepsClosures : seg.closuresDeps = [] := hdepsClosures
  have hsites : seg.closuresPending = [] := hsites
  have hentities : seg.entitiesIndex = [] := hentities
  have hsections : seg.sections = hotSections [] seg.generation ++ secondarySections []
      [] seg.generation ++
      depsSections [ordinalDependency record] seg.generation ++
      closureSection .closuresRecords .records [(Block.fill 32 9, 2)] seg.generation := by
    unfold Segment.sections Segment.mandatorySections Segment.optionalSections
    rw [hrows, hdeps, hpending, hdict, hrecords, hdepsClosures, hsites, hentities]
    rfl
  have hlength : (blobsOf seg.sections).length < 10000 := by
    rw [hsections]
    simp [blobsOf, hotSections, secondarySections, depsSections, strideFile, offsetFile, indexFile,
      encodeFramed, encodeFramedPartitioned, depsKeysBody, depsMetaBody, keysBody, metaBody,
        digestsBody,
      bodyBody, identBody, place, entriesBody, byOwnerIndex, byNameIndex, byKindIndex,
        byIdentityIndex,
      adjacencyIndex, depsReverseIndex, indexOf, Block.size, sortOn, pairBlocks, closureSection,
      optionalSection, headerLen, depsMetaStride, closureStride]
  have hcount : seg.sections.length = 16 := by
    rw [hsections]
    rfl
  have hheader : containerHeaderLen = 64 := rfl
  have hstride : tocEntryStride = 32 := rfl
  rw [length_encodeContainer, hcount, hheader, hstride]
  omega

theorem last_ordinal_reads_back_absent :
    ¬ ∃ _ : Xxh3, ∀ (path : String) (input : DeltaInput) (reader : StoreReader)
      (sections : List EncodedSection) (bytes : Bytes), input.Typed →
        buildDeltaSections input reader = .ok sections →
        writeContainerToPageCache input.generation sections = .ok bytes →
        ∃ container mapped, openContainer path bytes = .ok container ∧
          MappedSegment.open (.container path container) = .ok mapped ∧
          mapped.dependencies = (sortOn DependencyRow.dependencyId input.depsOpened).map some := by
  rintro ⟨hash, h⟩
  obtain ⟨seg, hbuild, hseg, hwrite⟩ := ordinalDelta_written (some noneU32)
  obtain ⟨container, mapped, hopen, hmapped, hdeps⟩ := h "delta-2.seg" (ordinalDelta (some noneU32))
    freshReader _ _ (ordinalDelta_typed (by decide)) hbuild hwrite
  obtain ⟨container', hopen', -, hbytes⟩ :=
    openContainer_write "delta-2.seg" seg.sections_ids (by decide) hwrite
  obtain rfl := Except.ok.inj (hopen.symm.trans hopen')
  obtain ⟨hrows, hsegDeps, hpending, -, -, -, -, -, hgeneration⟩ := SegmentInput.build_ok hseg
  have hrows : seg.rows = [] := hrows
  have hsegDeps : seg.deps = [ordinalDependency (some noneU32)] := hsegDeps
  have hpending : seg.pending = [] := hpending
  have hgeneration : seg.generation = 2 := hgeneration
  have hloc : ∀ id, (Location.container "delta-2.seg" container).optionalSection id =
      AssocMap.get seg.sections id := hbytes
  have hopened := open_mapped hloc (by rw [hgeneration]; decide) (by rw [hrows]; decide)
    (by rw [hsegDeps]; decide) (by rw [hpending]; decide)
  obtain rfl := Except.ok.inj (hmapped.symm.trans hopened)
  have hdep : seg.deps[0]? = some (ordinalDependency (some noneU32)) := by
    rw [hsegDeps]
    rfl
  have hread : seg.mapped.dependencies = [storedDependency (some (Block.fill 32 1))
      (encodeDepsMetaRow (ordinalDependency (some noneU32)))] := by
    have hcount : seg.mapped.depsN = 1 := by
      change seg.deps.length = 1
      rw [hsegDeps]
      rfl
    have hkeys : seg.mapped.depsKeys.drop headerLen = depsKeysBody seg.deps := drop_framed _ _
    have hmeta : seg.mapped.depsMeta.drop headerLen = depsMetaBody seg.deps := drop_framed _ _
    have hat := dependencyAt_of_bodies hkeys hmeta hdep
    unfold MappedSegment.dependencies
    rw [hcount]
    exact congrArg (fun dep => [dep]) hat
  rw [hread] at hdeps
  exact absurd hdeps (by decide +kernel)

theorem ordinalDelta_storable : (ordinalDelta (some 7)).Storable freshReader where
  openedCount := by decide
  opened := fun _ h => absurd h List.not_mem_nil
  idents := fun _ h => absurd h List.not_mem_nil
  depsCount := by decide
  deps := by
    intro dep hdep
    obtain rfl := List.mem_singleton.mp hdep
    decide
  pendingCount := by decide
  pending := fun _ h => absurd h List.not_mem_nil
  dict := by constructor <;> decide

abbrev zeroHash : Xxh3 := ⟨fun _ => 0⟩

theorem delta_segment_round_trip_dependency :
    ∃ (bytes : Bytes) (container : OpenedContainer) (mapped : MappedSegment),
      openContainer "delta-2.seg" bytes = .ok container ∧
      MappedSegment.open (.container "delta-2.seg" container) = .ok mapped ∧
      mapped.dependencies = [some (ordinalDependency (some 7))] ∧
      loadClosures (container.bytes .closuresRecords) = .ok [(Block.fill 32 9, 2)] := by
  let _ := zeroHash
  let _ := fixedDigest
  obtain ⟨seg, hbuild, -, hwrite⟩ := ordinalDelta_written (some 7)
  obtain ⟨container, mapped, rows, hopen, -, hmapped, -, -, -, -, hdeps, -, hclosures, -⟩ :=
    delta_segment_round_trip "delta-2.seg" (ordinalDelta_typed (by decide)) ordinalDelta_storable
      hbuild hwrite
  exact ⟨_, container, mapped, hopen, hmapped, hdeps, hclosures⟩

end Instances

end StructuralStore
