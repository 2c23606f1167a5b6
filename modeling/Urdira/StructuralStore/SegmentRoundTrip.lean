import Urdira.StructuralStore.MappedSegment

open ByteOrder KeyedSet MerkleBucket ByteLayout ByteReader BinarySearch

namespace StructuralStore

section Place

theorem place_getElem (bodyOff identOff : ℕ) {k : ℕ} {rows : List StoredRow} {row : StoredRow}
    (h : rows[k]? = some row) :
    ∃ p, (place bodyOff identOff rows)[k]? = some p ∧ p.row = row ∧
      (p.bodyOff, row.body) ∈ blocksAt bodyOff (rows.map (fun row => row.body)) ∧
      (p.identOff, row.ident) ∈ blocksAt identOff (rows.map (fun row => row.ident)) := by
  induction rows generalizing bodyOff identOff k with
  | nil => simp at h
  | cons first rows ih =>
    rw [List.map_cons, List.map_cons, blocksAt_cons, blocksAt_cons]
    cases k with
    | zero =>
      obtain rfl : first = row := by simpa using h
      exact ⟨_, rfl, rfl, List.mem_cons_self, List.mem_cons_self⟩
    | succ k =>
      obtain ⟨p, hp, hrow, hbody, hident⟩ := ih (bodyOff + first.body.length)
        (identOff + first.ident.length) (by simpa using h)
      exact ⟨p, hp, hrow, List.mem_cons_of_mem _ hbody, List.mem_cons_of_mem _ hident⟩

theorem length_flatten_lt {blocks : List Bytes} (hcount : blocks.length < 2 ^ 32)
    (hlen : ∀ block ∈ blocks, block.length < 2 ^ 32) : blocks.flatten.length < 2 ^ 64 := by
  have hsum : blocks.flatten.length ≤ blocks.length * (2 ^ 32 - 1) := by
    clear hcount
    induction blocks with
    | nil => simp
    | cons block blocks ih =>
      have hrest := ih (fun b hb => hlen b (List.mem_cons_of_mem _ hb))
      have hblock := hlen block List.mem_cons_self
      rw [List.flatten_cons, List.length_append, List.length_cons]
      omega
  have hmul : blocks.length * (2 ^ 32 - 1) ≤ (2 ^ 32 - 1) * (2 ^ 32 - 1) :=
    Nat.mul_le_mul_right _ (by omega)
  omega

theorem readAt_flatMap_of_mem {α : Type} {f : α → Bytes} {xs : List α} {off : ℕ} {bytes : Bytes}
    (h : (off, bytes) ∈ blocksAt 0 (xs.map f)) :
    readAt (xs.flatMap f) off bytes.length = bytes := by
  have hmem : (off, bytes) ∈ blocksAt ([] : Bytes).length (xs.map f) := h
  have hread : readAt ([] ++ (xs.map f).flatten ++ []) off bytes.length = bytes :=
    readAt_of_mem_blocksAt hmem
  rwa [List.nil_append, List.append_nil, ← List.flatMap_def] at hread

theorem offset_lt_of_mem {α : Type} {f : α → Bytes} {xs : List α} {off : ℕ} {bytes : Bytes}
    (hcount : xs.length < 2 ^ 32) (hlen : ∀ a ∈ xs, (f a).length < 2 ^ 32)
    (h : (off, bytes) ∈ blocksAt 0 (xs.map f)) : off < 2 ^ 64 := by
  have hend := end_le_of_mem_blocksAt h
  have htotal : (xs.map f).flatten.length < 2 ^ 64 := by
    refine length_flatten_lt (by rwa [List.length_map]) (fun block hblock => ?_)
    obtain ⟨a, ha, rfl⟩ := List.mem_map.mp hblock
    exact hlen a ha
  dsimp only at hend
  omega

end Place

section Accessors

variable {mapped : MappedSegment}

theorem map_range_eq {α : Type} {f : ℕ → Option α} {xs : List α}
    (h : ∀ k a, xs[k]? = some a → f k = some a) : (List.range xs.length).map f = xs.map some := by
  refine List.ext_getElem (by simp) (fun k hk hk' => ?_)
  have hlt : k < xs.length := by simpa using hk'
  rw [List.getElem_map, List.getElem_range, List.getElem_map]
  exact h k _ (List.getElem?_eq_getElem hlt)

theorem digestAt_flatMap {α : Type} {f : α → Digest32} {xs : List α} {k : ℕ} {a : α}
    (h : xs[k]? = some a) : digestAt (xs.flatMap (fun x => (f x).bytes)) (k * 32) = some (f a) :=
  digestAt_of_read (rowAt_flatMap (fun x _ => (f x).size) h)

theorem records_of_bodies {rows : List StoredRow} (hn : mapped.n = rows.length)
    (hkeys : mapped.keys.drop headerLen = keysBody rows)
    (hmeta : mapped.metas.drop headerLen = metaBody rows)
    (hdigests : mapped.digests.drop headerLen = digestsBody rows)
    (hbody : mapped.body.drop headerLen = bodyBody rows)
    (hident : mapped.ident.drop headerLen = identBody rows) (hcount : rows.length < 2 ^ 32)
    (ht : ∀ row ∈ rows, row.toRecordFields.Typed) (hkind : ∀ row ∈ rows, row.entityKind < 2 ^ 8)
    (hs : ∀ row ∈ rows, row.toRecordFields.Storable)
    (hidents : ∀ row ∈ rows, row.ident.length < 2 ^ 32) :
    mapped.records = rows.map some := by
  unfold MappedSegment.records
  rw [hn]
  refine map_range_eq (fun k row hrow => ?_)
  have hmem := List.mem_of_getElem? hrow
  obtain ⟨p, hp, rfl, hbodyAt, hidentAt⟩ := place_getElem 0 0 hrow
  have hkey : mapped.keyAt k = some p.row.recordId := by
    unfold MappedSegment.keyAt
    rw [hkeys]
    exact digestAt_flatMap hrow
  have hmetaRow : mapped.metaRow k = encodeMetaRow p.row p.bodyOff p.identOff := by
    have hlen : ∀ q ∈ place 0 0 rows, q.encodeMeta.length = metaStride :=
      fun q _ => length_encodeMetaRow q.row q.bodyOff q.identOff
    have hread : rowAt metaStride ((place 0 0 rows).flatMap Placed.encodeMeta) k = p.encodeMeta :=
      rowAt_flatMap hlen hp
    unfold MappedSegment.metaRow
    rw [hmeta]
    exact hread
  have hdigestsRow : mapped.digestsRow k = encodeDigestsRow p.row := by
    unfold MappedSegment.digestsRow
    rw [hdigests]
    exact rowAt_flatMap (fun row _ => length_encodeDigestsRow row) hrow
  unfold MappedSegment.recordAt
  rw [hkey, hmetaRow, hdigestsRow, hbody, hident]
  exact storedRecord_encode (ht _ hmem) (hs _ hmem) (hkind _ hmem) (hidents _ hmem)
    (offset_lt_of_mem hcount (fun row h => (hs row h).body) hbodyAt)
    (offset_lt_of_mem hcount hidents hidentAt) (readAt_flatMap_of_mem hbodyAt)
    (readAt_flatMap_of_mem hidentAt)

theorem dependencyAt_of_bodies {deps : List DependencyRow} {k : ℕ} {dep : DependencyRow}
    (hkeys : mapped.depsKeys.drop headerLen = depsKeysBody deps)
    (hmeta : mapped.depsMeta.drop headerLen = depsMetaBody deps) (hdep : deps[k]? = some dep) :
    mapped.dependencyAt k = storedDependency (some dep.dependencyId) (encodeDepsMetaRow dep) := by
  have hkey : mapped.depsKeyAt k = some dep.dependencyId := by
    unfold MappedSegment.depsKeyAt
    rw [hkeys]
    exact digestAt_flatMap hdep
  have hmetaRow : mapped.depsMetaRow k = encodeDepsMetaRow dep := by
    unfold MappedSegment.depsMetaRow
    rw [hmeta]
    exact rowAt_flatMap (fun dep _ => length_encodeDepsMetaRow dep) hdep
  unfold MappedSegment.dependencyAt
  rw [hkey, hmetaRow]

theorem dependencies_of_bodies {deps : List DependencyRow} (hn : mapped.depsN = deps.length)
    (hkeys : mapped.depsKeys.drop headerLen = depsKeysBody deps)
    (hmeta : mapped.depsMeta.drop headerLen = depsMetaBody deps) (ht : ∀ dep ∈ deps, dep.Typed)
    (hs : ∀ dep ∈ deps, some noneU32 ≠ dep.record) : mapped.dependencies = deps.map some := by
  unfold MappedSegment.dependencies
  rw [hn]
  refine map_range_eq (fun k dep hdep => ?_)
  have hmem := List.mem_of_getElem? hdep
  rw [dependencyAt_of_bodies hkeys hmeta hdep]
  exact storedDependency_encode (ht dep hmem) (hs dep hmem)

theorem pendingSites_of_body {sites : List PendingSiteRow} {bytes : Bytes}
    (hn : mapped.pendingN = sites.length) (hpending : mapped.pending = some bytes)
    (hbody : bytes.drop headerLen = sites.flatMap encodePendingSiteRow)
    (ht : ∀ site ∈ sites, site.Typed)
    (hs : ∀ site ∈ sites, some noneU32 ≠ site.sourceSubject) :
    mapped.pendingSites = sites.map some := by
  unfold MappedSegment.pendingSites
  rw [hn]
  refine map_range_eq (fun k site hsite => ?_)
  have hmem := List.mem_of_getElem? hsite
  have hrow : rowAt pendingSiteStride (sites.flatMap encodePendingSiteRow) k =
      encodePendingSiteRow site :=
    rowAt_flatMap (fun site _ => length_encodePendingSiteRow site) hsite
  unfold MappedSegment.pendingRow
  rw [hpending, Option.map_some, hbody, hrow,
    storedPendingSite_encode (ht site hmem) (hs site hmem)]

end Accessors

section Lists

variable {generation : ℕ} {table : TableId} {hash : Fin (2 ^ 64)}

theorem rowsOf_div {α : Type} {f : α → Bytes} {stride : ℕ} {xs : List α} (hstride : 0 < stride)
    (h : ∀ a ∈ xs, (f a).length = stride) :
    rowsOf stride ((xs.flatMap f).length / stride) (xs.flatMap f) = xs.map f := by
  rw [length_flatMap_stride h, Nat.mul_div_cancel _ hstride]
  exact rowsOf_flatMap h

theorem loadClosures_framed {closures : List (Digest32 × ℕ)} {rowCount : ℕ}
    (hg : generation < 2 ^ 64)
    (hn : rowCount < 2 ^ 64) (ht : ∀ closure ∈ closures, closure.2 < 2 ^ 32) :
    loadClosures (some (framed table generation rowCount hash (closures.flatMap encodeClosure))) =
      .ok closures := by
  have hread : (closures.map encodeClosure).filterMap storedClosure = closures := by
    rw [List.filterMap_map]
    refine (List.filterMap_congr (fun closure h => ?_)).trans List.filterMap_some
    exact storedClosure_encode (ht closure h)
  unfold loadClosures
  simp only [headerAndData_framed hg hn]
  have hrows : rowsOf closureStride ((closures.flatMap encodeClosure).length / closureStride)
      (closures.flatMap encodeClosure) = closures.map encodeClosure :=
    rowsOf_div (by decide) (fun closure _ => length_encodeClosure closure)
  change Except.ok _ = _
  rw [hrows, hread]

theorem loadPendingClosures_framed {closures : List (PendingSiteKey × ℕ)} {rowCount : ℕ}
    (hg : generation < 2 ^ 64) (hn : rowCount < 2 ^ 64)
    (ht : ∀ closure ∈ closures, PendingSiteKey.Typed closure.1 ∧ closure.2 < 2 ^ 32) :
    loadPendingClosures (some (framed table generation rowCount hash
      (closures.flatMap encodePendingClosure))) = .ok closures := by
  have hread : (closures.map encodePendingClosure).map storedPendingClosure = closures := by
    rw [List.map_map]
    refine (List.map_congr_left (fun closure h => ?_)).trans (List.map_id closures)
    exact storedPendingClosure_encode (ht closure h).1 (ht closure h).2
  unfold loadPendingClosures
  simp only [headerAndData_framed hg hn]
  have hrows : rowsOf pendingClosureStride
      ((closures.flatMap encodePendingClosure).length / pendingClosureStride)
      (closures.flatMap encodePendingClosure) = closures.map encodePendingClosure :=
    rowsOf_div (by decide) (fun closure _ => length_encodePendingClosure closure)
  change Except.ok _ = _
  rw [hrows, hread]

theorem loadDictFile_framed {dict : Dictionaries} {rowCount : ℕ} (hg : generation < 2 ^ 64)
    (hn : rowCount < 2 ^ 64) (ht : dict.Typed) (hs : dict.Storable) :
    loadDictFile (some (framed table generation rowCount hash (writeDictBody dict))) =
      .ok ({ dict with subjects := [] }, rowCount) := by
  have hread := reads_readDictBody ht hs []
  rw [List.append_nil] at hread
  unfold loadDictFile
  simp only [decode_framed hg hn, drop_framed, hread]
  rfl

theorem loadSubjectsFile_framed {subjects : List Digest32} {rowCount : ℕ} (hg : generation < 2 ^ 64)
    (hn : rowCount < 2 ^ 64) (hcount : subjects.length < 2 ^ 32) :
    loadSubjectsFile (some (framed table generation rowCount hash (writeSubjectsBody subjects))) =
      .ok subjects := by
  have hread := reads_readSubjectsBody hcount []
  rw [List.append_nil] at hread
  unfold loadSubjectsFile
  simp only [decode_framed hg hn, drop_framed, hread]
  rfl

end Lists

section Holds

variable [Xxh3] {loc : Location} {seg : Segment}

def Segment.pendingFile (seg : Segment) : Option Bytes :=
  if seg.pending ≠ [] then
    some (encodeFramed .pendingSites seg.generation seg.pending.length
      (seg.pending.flatMap encodePendingSiteRow))
  else none

def Segment.closuresPendingFile (seg : Segment) : Option Bytes :=
  if seg.closuresPending ≠ [] then
    some (encodeFramed .pendingSites seg.generation seg.closuresPending.length
      (seg.closuresPending.flatMap encodePendingClosure))
  else none

def Segment.mapped (seg : Segment) : MappedSegment where
  generation := seg.generation
  keys := strideFile seg.rows seg.generation keysStride (keysBody seg.rows)
  metas := strideFile seg.rows seg.generation metaStride (metaBody seg.rows)
  digests := strideFile seg.rows seg.generation digestsStride (digestsBody seg.rows)
  body := offsetFile seg.rows seg.generation Placed.bodyOff (bodyBody seg.rows)
  ident := offsetFile seg.rows seg.generation Placed.identOff (identBody seg.rows)
  byOwner := indexFile .records seg.generation quadBlocks (byOwnerIndex seg.rows)
  byName := indexFile .records seg.generation pairBlocks (byNameIndex seg.rows)
  byKind := indexFile .records seg.generation byKindBlocks (byKindIndex seg.rows)
  byIdentity := indexFile .records seg.generation byIdentityBlocks (byIdentityIndex seg.rows)
  adjOut := indexFile .records seg.generation quadBlocks
    (adjacencyIndex (fun row => row.sourceSubject) seg.rows)
  adjIn := indexFile .records seg.generation quadBlocks
    (adjacencyIndex (fun row => row.targetSubject) seg.rows)
  entitiesIndex := indexFile .records seg.generation tripleBlocks seg.entitiesIndex
  depsKeys := encodeFramed .dependencies seg.generation seg.deps.length (depsKeysBody seg.deps)
  depsMeta := encodeFramed .dependencies seg.generation seg.deps.length (depsMetaBody seg.deps)
  depsReverse := indexFile .dependencies seg.generation pairBlocks (depsReverseIndex seg.deps)
  n := seg.rows.length
  depsN := seg.deps.length
  pending := seg.pendingFile
  pendingN := seg.pending.length
  closuresPending := seg.closuresPendingFile

theorem pendingRowCount_pendingFile (hg : seg.generation < 2 ^ 64)
    (hn : seg.pending.length < 2 ^ 64) :
    pendingRowCount seg.pendingFile = .ok seg.pending.length := by
  unfold Segment.pendingFile
  split
  · unfold pendingRowCount
    simp only [encodeFramed, headerAndData_framed hg hn]
    rfl
  · rename_i hempty
    rw [not_not.mp hempty]
    rfl

theorem open_mapped (hloc : ∀ id, loc.optionalSection id = AssocMap.get seg.sections id)
    (hg : seg.generation < 2 ^ 64) (hn : seg.rows.length < 2 ^ 64)
    (hdeps : seg.deps.length < 2 ^ 64)
    (hpending : seg.pending.length < 2 ^ 64) : MappedSegment.open loc = .ok seg.mapped := by
  have hsection : ∀ (id : SectionId) {blob : Bytes}, AssocMap.get seg.mandatorySections id =
      some blob →
      loc.mandatorySection id = .ok blob := by
    intro id blob hget
    unfold Location.mandatorySection
    rw [hloc, Segment.sections, AssocMap.get_append, hget]
    rfl
  have hsites : loc.optionalSection .pendingSites = seg.pendingFile := by
    rw [hloc, Segment.get_optional (by decide), Segment.get_optionalSections, get_dictSections]
    simp [Segment.pendingFile]
  have hclosures : loc.optionalSection .closuresPending = seg.closuresPendingFile := by
    rw [hloc, Segment.get_optional (by decide), Segment.get_optionalSections, get_dictSections]
    simp [Segment.closuresPendingFile]
  have hkeys : ∃ header data, headerAndData seg.mapped.keys = .ok (header, data) ∧
      header.generation = seg.generation ∧ header.rowCount = seg.rows.length :=
    ⟨_, _, headerAndData_framed hg hn _ _, rfl, rfl⟩
  have hdepsKeys : ∃ header data, headerAndData seg.mapped.depsKeys = .ok (header, data) ∧
      header.rowCount = seg.deps.length :=
    ⟨_, _, headerAndData_framed hg hdeps _ _, rfl⟩
  obtain ⟨keysHeader, keysData, hkeys, hgeneration, hcount⟩ := hkeys
  obtain ⟨depsHeader, depsData, hdepsKeys, hdepsCount⟩ := hdepsKeys
  have hmandatory : loc.mandatorySection .recordsKeys = .ok seg.mapped.keys ∧
      loc.mandatorySection .recordsMeta = .ok seg.mapped.metas ∧
      loc.mandatorySection .recordsDigests = .ok seg.mapped.digests ∧
      loc.mandatorySection .recordsBody = .ok seg.mapped.body ∧
      loc.mandatorySection .recordsIdent = .ok seg.mapped.ident ∧
      loc.mandatorySection .recordsByOwner = .ok seg.mapped.byOwner ∧
      loc.mandatorySection .recordsByName = .ok seg.mapped.byName ∧
      loc.mandatorySection .recordsByKind = .ok seg.mapped.byKind ∧
      loc.mandatorySection .recordsByIdentity = .ok seg.mapped.byIdentity ∧
      loc.mandatorySection .adjOut = .ok seg.mapped.adjOut ∧
      loc.mandatorySection .adjIn = .ok seg.mapped.adjIn ∧
      loc.mandatorySection .entitiesIndex = .ok seg.mapped.entitiesIndex ∧
      loc.mandatorySection .depsKeys = .ok seg.mapped.depsKeys ∧
      loc.mandatorySection .depsMeta = .ok seg.mapped.depsMeta ∧
      loc.mandatorySection .depsReverse = .ok seg.mapped.depsReverse :=
    ⟨hsection _ rfl, hsection _ rfl, hsection _ rfl, hsection _ rfl, hsection _ rfl, hsection _ rfl,
      hsection _ rfl, hsection _ rfl, hsection _ rfl, hsection _ rfl, hsection _ rfl,
        hsection _ rfl,
      hsection _ rfl, hsection _ rfl, hsection _ rfl⟩
  have hbind : ∀ {α β : Type} (a : α) (f : α → Except Fault β), (Except.ok a >>= f) = f a :=
    fun _ _ => rfl
  unfold MappedSegment.open
  simp only [hmandatory, hbind, hkeys, hdepsKeys, hsites, hclosures,
    pendingRowCount_pendingFile hg hpending, hgeneration, hcount, hdepsCount]
  rfl

theorem loadClosures_sections {id : SectionId} {table : TableId} {closures : List (Digest32 × ℕ)}
    (hget : loc.optionalSection id = if closures ≠ [] then
      some (encodeFramed table seg.generation closures.length (closures.flatMap encodeClosure))
        else none)
    (hg : seg.generation < 2 ^ 64) (hn : closures.length < 2 ^ 64)
    (ht : ∀ closure ∈ closures, closure.2 < 2 ^ 32) :
    loadClosures (loc.optionalSection id) = .ok closures := by
  rw [hget]
  split
  · exact loadClosures_framed hg hn ht
  · rename_i hempty
    rw [not_not.mp hempty]
    rfl

omit [Xxh3] in
theorem Dictionaries.eq_empty_of_no_entries {dict : Dictionaries} (h : dict.totalEntries = 0) :
    { dict with subjects := [] } = Dictionaries.empty := by
  obtain ⟨kinds, universalKinds, relationKinds, names, subjects, artifacts, facetNames, subjectText,
    artifactPaths, entityKinds⟩ := dict
  simp only [Dictionaries.totalEntries, Nat.add_eq_zero_iff, List.length_eq_zero_iff] at h
  simp [Dictionaries.empty, h]

theorem loadDict_sections (hloc : ∀ id, loc.optionalSection id = AssocMap.get seg.sections id)
    (hg : seg.generation < 2 ^ 64) (ht : seg.dict.Typed) (hs : seg.dict.Storable) :
    loadDict loc = .ok seg.dict := by
  have htotal : seg.dict.totalEntries < 2 ^ 64 := by
    have h₁ := hs.kinds
    have h₂ := hs.universalKinds
    have h₃ := hs.relationKinds
    have h₄ := hs.names
    have h₅ := hs.artifacts
    have h₆ := hs.facetNames
    have h₇ := hs.subjectText
    have h₈ := hs.artifactPaths
    have h₉ := hs.entityKinds
    unfold Dictionaries.totalEntries
    omega
  have hdict : ∃ count, loadDictFile (loc.optionalSection .dictBin) =
      .ok ({ seg.dict with subjects := [] }, count) := by
    rw [hloc, Segment.get_optional (by decide), Segment.get_optionalSections, get_dictSections]
    by_cases hentries : 0 < seg.dict.totalEntries
    · simp only [hentries, and_self, if_true, reduceCtorEq, false_and, if_false, Option.or_none]
      exact ⟨_, loadDictFile_framed hg htotal ht hs⟩
    · simp only [hentries, and_false, if_false, reduceCtorEq, false_and, Option.or_none]
      exact ⟨0, by rw [Dictionaries.eq_empty_of_no_entries (by omega)]; rfl⟩
  have hsubjects : loadSubjectsFile (loc.optionalSection .subjectsKeys) =
      .ok seg.dict.subjects := by
    rw [hloc, Segment.get_optional (by decide), Segment.get_optionalSections, get_dictSections]
    by_cases hempty : seg.dict.subjects = []
    · simp [hempty, loadSubjectsFile]
    · simp only [ne_eq, hempty, not_false_eq_true, and_self, if_true, reduceCtorEq,
        false_and, if_false,
        Option.or_none, Option.none_or]
      exact loadSubjectsFile_framed hg (hs.subjects.trans (by decide)) hs.subjects
  obtain ⟨count, hdict⟩ := hdict
  unfold loadDict
  rw [hdict, hsubjects]
  rfl

theorem holds_mapped (hloc : ∀ id, loc.optionalSection id = AssocMap.get seg.sections id)
    (ht : seg.Typed) (hs : seg.Storable) : loc.Holds seg.mapped seg where
  generation := rfl
  records :=
    records_of_bodies rfl (drop_framed _ _) (drop_framed _ _) (drop_framed _ _) (drop_framed _ _)
    (drop_framed _ _) hs.rowCount ht.rows ht.entityKind hs.rows hs.idents
  dependencies := dependencies_of_bodies rfl (drop_framed _ _) (drop_framed _ _) ht.deps hs.deps
  pendingSites := by
    by_cases hempty : seg.pending = []
    · unfold MappedSegment.pendingSites
      simp [Segment.mapped, hempty]
    · have hfile : seg.mapped.pending =
          some (encodeFramed .pendingSites seg.generation seg.pending.length
          (seg.pending.flatMap encodePendingSiteRow)) := if_pos hempty
      exact pendingSites_of_body rfl hfile (drop_framed _ _) ht.pending hs.pending
  closuresRecords := by
    have hget : loc.optionalSection .closuresRecords = if seg.closuresRecords ≠ [] then
        some (encodeFramed .records seg.generation seg.closuresRecords.length
          (seg.closuresRecords.flatMap encodeClosure)) else none := by
      rw [hloc, Segment.get_optional (by decide), Segment.get_optionalSections, get_dictSections]
      simp
    exact loadClosures_sections hget ht.generation ht.closuresRecordsCount ht.closuresRecords
  closuresDeps := by
    have hget : loc.optionalSection .closuresDeps = if seg.closuresDeps ≠ [] then
        some (encodeFramed .dependencies seg.generation seg.closuresDeps.length
          (seg.closuresDeps.flatMap encodeClosure)) else none := by
      rw [hloc, Segment.get_optional (by decide), Segment.get_optionalSections, get_dictSections]
      simp
    exact loadClosures_sections hget ht.generation ht.closuresDepsCount ht.closuresDeps
  closuresPending := by
    change loadPendingClosures seg.closuresPendingFile = _
    unfold Segment.closuresPendingFile
    split
    · exact loadPendingClosures_framed ht.generation ht.closuresPendingCount ht.closuresPending
    · rename_i hempty
      rw [not_not.mp hempty]
      rfl
  dict := loadDict_sections hloc ht.generation ht.dict hs.dict

end Holds

end StructuralStore
