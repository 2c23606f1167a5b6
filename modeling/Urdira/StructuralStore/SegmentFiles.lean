import Urdira.StructuralStore.Container
import Urdira.StructuralStore.DictCodec
import Urdira.StructuralStore.Segment

open ByteOrder KeyedSet MerkleBucket ByteLayout BinarySearch

namespace StructuralStore

structure Placed where
  row : StoredRow
  bodyOff : ℕ
  identOff : ℕ

def place : ℕ → ℕ → List StoredRow → List Placed
  | _, _, [] => []
  | bodyOff, identOff, row :: rows =>
    ⟨row, bodyOff, identOff⟩ :: place (bodyOff + row.body.length) (identOff + row.ident.length) rows

def Placed.encodeMeta (p : Placed) : Bytes := encodeMetaRow p.row p.bodyOff p.identOff

section Bodies

def keysBody (rows : List StoredRow) : Bytes := rows.flatMap (fun row => row.recordId.bytes)

def metaBody (rows : List StoredRow) : Bytes := (place 0 0 rows).flatMap Placed.encodeMeta

def digestsBody (rows : List StoredRow) : Bytes := rows.flatMap encodeDigestsRow

def bodyBody (rows : List StoredRow) : Bytes := rows.flatMap (fun row => row.body)

def identBody (rows : List StoredRow) : Bytes := rows.flatMap (fun row => row.ident)

def depsKeysBody (deps : List DependencyRow) : Bytes :=
  deps.flatMap (fun dep => dep.dependencyId.bytes)

def depsMetaBody (deps : List DependencyRow) : Bytes := deps.flatMap encodeDepsMetaRow

def quadBlocks (q : Quad) : List Bytes :=
  [leBytes 4 q.key, leBytes 4 q.validFrom, leBytes 4 q.validTo, leBytes 4 q.ordinal]

def pairBlocks (p : ℕ ×ₗ ℕ) : List Bytes := [leBytes 4 (ofLex p).1, leBytes 4 (ofLex p).2]

def byKindBlocks (e : KindKey ×ₗ ℕ) : List Bytes :=
  [leBytes 2 (ofLex (ofLex e).1).1, leBytes 1 (ofLex (ofLex (ofLex e).1).2).1,
    leBytes 2 (ofLex (ofLex (ofLex e).1).2).2, leBytes 4 (ofLex e).2]

def byIdentityBlocks (e : Digest32 ×ₗ ℕ) : List Bytes := [(ofLex e).1.bytes, leBytes 4 (ofLex e).2]

def tripleBlocks (e : StartKey ×ₗ ℕ) : List Bytes :=
  [leBytes 4 (ofLex (ofLex e).1).1, leBytes 4 (ofLex (ofLex e).1).2, leBytes 4 (ofLex e).2]

def entriesBody {E : Type} (blocks : E → List Bytes) (entries : List E) : Bytes :=
  entries.flatMap (fun e => (blocks e).flatten)

end Bodies

section Sections

variable [Xxh3]

def nibbleBoundaries (rows : List StoredRow) : Boundaries :=
  rowBoundaries (rows.map (fun row => row.recordId))

def strideFile (rows : List StoredRow) (generation stride : ℕ) (body : Bytes) : Bytes :=
  encodeFramedPartitioned .records generation rows.length body
    (strideBoundaries (nibbleBoundaries rows) stride)

def offsetFile (rows : List StoredRow) (generation : ℕ) (offset : Placed → ℕ) (body : Bytes) :
    Bytes :=
  encodeFramedPartitioned .records generation rows.length body
    (offsetBoundaries (nibbleBoundaries rows) ((place 0 0 rows).map offset) body.length)

def hotSections (rows : List StoredRow) (generation : ℕ) : List EncodedSection :=
  [(.recordsKeys, strideFile rows generation keysStride (keysBody rows)),
    (.recordsMeta, strideFile rows generation metaStride (metaBody rows)),
    (.recordsDigests, strideFile rows generation digestsStride (digestsBody rows)),
    (.recordsBody, offsetFile rows generation Placed.bodyOff (bodyBody rows)),
    (.recordsIdent, offsetFile rows generation Placed.identOff (identBody rows))]

def indexFile {E : Type} (table : TableId) (generation : ℕ) (blocks : E → List Bytes)
    (entries : List E) :
    Bytes :=
  encodeFramed table generation entries.length (entriesBody blocks entries)

def secondarySections (rows : List StoredRow) (entitiesIndex : List (StartKey ×ₗ ℕ))
    (generation : ℕ) :
    List EncodedSection :=
  [(.recordsByOwner, indexFile .records generation quadBlocks (byOwnerIndex rows)),
    (.recordsByName, indexFile .records generation pairBlocks (byNameIndex rows)),
    (.recordsByKind, indexFile .records generation byKindBlocks (byKindIndex rows)),
    (.recordsByIdentity, indexFile .records generation byIdentityBlocks (byIdentityIndex rows)),
    (.adjOut, indexFile .records generation quadBlocks
      (adjacencyIndex (fun row => row.sourceSubject) rows)),
    (.adjIn, indexFile .records generation quadBlocks
      (adjacencyIndex (fun row => row.targetSubject) rows)),
    (.entitiesIndex, indexFile .records generation tripleBlocks entitiesIndex)]

def depsSections (deps : List DependencyRow) (generation : ℕ) : List EncodedSection :=
  [(.depsKeys, encodeFramed .dependencies generation deps.length (depsKeysBody deps)),
    (.depsMeta, encodeFramed .dependencies generation deps.length (depsMetaBody deps)),
    (.depsReverse, indexFile .dependencies generation pairBlocks (depsReverseIndex deps))]

def optionalSection {E : Type} (id : SectionId) (table : TableId) (generation rowCount : ℕ)
    (encode : List E → Bytes) (entries : List E) : List EncodedSection :=
  if entries.isEmpty then [] else [(id, encodeFramed table generation rowCount (encode entries))]

def dictSections (dict : Dictionaries) (generation : ℕ) : List EncodedSection :=
  (if 0 < dict.totalEntries then
    [(.dictBin, encodeFramed .dict generation dict.totalEntries (writeDictBody dict))] else []) ++
    optionalSection .subjectsKeys .subjectsKeys generation dict.subjects.length writeSubjectsBody
      dict.subjects

def closureSection (id : SectionId) (table : TableId) (sorted : List (Digest32 × ℕ))
    (generation : ℕ) :
    List EncodedSection :=
  optionalSection id table generation sorted.length
    (fun sorted => sorted.flatMap encodeClosure) sorted

def encodePendingSites (ordered : List PendingSiteRow) (generation : ℕ) : EncodedSection :=
  (.pendingSites, encodeFramed .pendingSites generation ordered.length
    (ordered.flatMap encodePendingSiteRow))

def pendingClosureSection (sorted : List (PendingSiteKey × ℕ)) (generation : ℕ) :
    List EncodedSection :=
  optionalSection .closuresPending .pendingSites generation sorted.length
    (fun sorted => sorted.flatMap encodePendingClosure) sorted

def pendingSitesSection (ordered : List PendingSiteRow) (generation : ℕ) : List EncodedSection :=
  if ordered.isEmpty then [] else [encodePendingSites ordered generation]

def Segment.mandatorySections (seg : Segment) : List EncodedSection :=
  hotSections seg.rows seg.generation ++ secondarySections seg.rows seg.entitiesIndex
    seg.generation ++
    depsSections seg.deps seg.generation

def Segment.optionalSections (seg : Segment) : List EncodedSection :=
  dictSections seg.dict seg.generation ++
    closureSection .closuresRecords .records seg.closuresRecords seg.generation ++
    closureSection .closuresDeps .dependencies seg.closuresDeps seg.generation ++
    pendingSitesSection seg.pending seg.generation ++
    pendingClosureSection seg.closuresPending seg.generation

def Segment.sections (seg : Segment) : List EncodedSection :=
  seg.mandatorySections ++ seg.optionalSections

end Sections

section Lookup

variable [Xxh3] (seg : Segment)

def mandatoryIds : List SectionId :=
  [.recordsKeys, .recordsMeta, .recordsDigests, .recordsBody, .recordsIdent, .recordsByOwner,
    .recordsByName, .recordsByKind, .recordsByIdentity, .adjOut, .adjIn, .entitiesIndex, .depsKeys,
    .depsMeta, .depsReverse]

def optionalIds : List SectionId :=
  [.dictBin, .subjectsKeys, .closuresRecords, .closuresDeps, .pendingSites, .closuresPending]

theorem ids_optionalSection {E : Type} (id : SectionId) (table : TableId) (generation rowCount : ℕ)
    (encode : List E → Bytes) (entries : List E) :
    ((optionalSection id table generation rowCount encode entries).map Prod.fst).Sublist [id] := by
  unfold optionalSection
  split <;> simp

theorem Segment.optionalSections_ids : (seg.optionalSections.map Prod.fst).Sublist optionalIds := by
  have hbin :
      ((if 0 < seg.dict.totalEntries then [(SectionId.dictBin, encodeFramed .dict seg.generation
      seg.dict.totalEntries (writeDictBody seg.dict))] else []).map Prod.fst).Sublist
        [SectionId.dictBin] := by
    split <;> simp
  have hdict : ((dictSections seg.dict seg.generation).map Prod.fst).Sublist
      [.dictBin, .subjectsKeys] := by
    unfold dictSections
    rw [List.map_append]
    exact hbin.append (ids_optionalSection ..)
  have hrecords : ((closureSection .closuresRecords .records seg.closuresRecords seg.generation).map
      Prod.fst).Sublist [.closuresRecords] := ids_optionalSection ..
  have hdeps : ((closureSection .closuresDeps .dependencies seg.closuresDeps seg.generation).map
      Prod.fst).Sublist [.closuresDeps] := ids_optionalSection ..
  have hpending : ((pendingSitesSection seg.pending seg.generation).map Prod.fst).Sublist
      [.pendingSites] := by
    unfold pendingSitesSection
    split <;> simp [encodePendingSites]
  have hsites : ((pendingClosureSection seg.closuresPending seg.generation).map Prod.fst).Sublist
      [.closuresPending] := ids_optionalSection ..
  have hall := (((hdict.append hrecords).append hdeps).append hpending).append hsites
  unfold Segment.optionalSections
  simp only [List.map_append]
  exact hall

theorem Segment.sections_ids : (seg.sections.map Prod.fst).Nodup := by
  have hmandatory : (seg.mandatorySections.map Prod.fst).Sublist mandatoryIds :=
    List.Sublist.refl mandatoryIds
  have hall := hmandatory.append seg.optionalSections_ids
  unfold Segment.sections
  rw [List.map_append]
  exact hall.nodup (by decide)

variable {seg} {id : SectionId} {blob : Bytes}

theorem Segment.get_optional (h : id ∉ mandatoryIds) :
    AssocMap.get seg.sections id = AssocMap.get seg.optionalSections id := by
  have hnone : AssocMap.get seg.mandatorySections id = none :=
    (AssocMap.get_eq_none_iff _ _).mpr h
  rw [Segment.sections, AssocMap.get_append, hnone, Option.none_or]

theorem get_optionalSection {E : Type} (id id' : SectionId) (table : TableId)
    (generation rowCount : ℕ)
    (encode : List E → Bytes) (entries : List E) :
    AssocMap.get (optionalSection id table generation rowCount encode entries) id' =
      if id' = id ∧ entries ≠ [] then some (encodeFramed table generation rowCount (encode entries))
      else none := by
  unfold optionalSection AssocMap.get
  by_cases hid : id' = id
  · cases entries <;> simp [hid]
  · have hbeq : (id' == id) = false := by simpa using hid
    cases entries <;> simp [List.lookup_cons, hid, hbeq]

theorem get_pendingSitesSection (id : SectionId) (ordered : List PendingSiteRow) (generation : ℕ) :
    AssocMap.get (pendingSitesSection ordered generation) id =
      if id = .pendingSites ∧ ordered ≠ [] then some
        (encodeFramed .pendingSites generation ordered.length
        (ordered.flatMap encodePendingSiteRow)) else none :=
  get_optionalSection .pendingSites id .pendingSites generation ordered.length
    (fun ordered => ordered.flatMap encodePendingSiteRow) ordered

theorem get_dictSections (id : SectionId) (dict : Dictionaries) (generation : ℕ) :
    AssocMap.get (dictSections dict generation) id =
      (if id = .dictBin ∧ 0 < dict.totalEntries then
        some (encodeFramed .dict generation dict.totalEntries (writeDictBody dict)) else none).or
      (if id = .subjectsKeys ∧ dict.subjects ≠ [] then
        some (encodeFramed .subjectsKeys generation dict.subjects.length
          (writeSubjectsBody dict.subjects))
      else none) := by
  have hbin :
      AssocMap.get (if 0 < dict.totalEntries then [(SectionId.dictBin, encodeFramed .dict generation
      dict.totalEntries (writeDictBody dict))] else []) id =
        if id = .dictBin ∧ 0 < dict.totalEntries then
          some (encodeFramed .dict generation dict.totalEntries (writeDictBody dict))
          else none := by
    unfold AssocMap.get
    by_cases hid : id = .dictBin
    · split <;> simp_all
    · have hbeq : (id == .dictBin) = false := by simpa using hid
      split <;> simp [List.lookup_cons, hid, hbeq]
  unfold dictSections
  rw [AssocMap.get_append, hbin, get_optionalSection]

theorem Segment.get_optionalSections (seg : Segment) (id : SectionId) :
    AssocMap.get seg.optionalSections id =
      ((((AssocMap.get (dictSections seg.dict seg.generation) id).or
        (if id = .closuresRecords ∧ seg.closuresRecords ≠ [] then
          some (encodeFramed .records seg.generation seg.closuresRecords.length
            (seg.closuresRecords.flatMap encodeClosure)) else none)).or
        (if id = .closuresDeps ∧ seg.closuresDeps ≠ [] then
          some (encodeFramed .dependencies seg.generation seg.closuresDeps.length
            (seg.closuresDeps.flatMap encodeClosure)) else none)).or
        (if id = .pendingSites ∧ seg.pending ≠ [] then
          some (encodeFramed .pendingSites seg.generation seg.pending.length
            (seg.pending.flatMap encodePendingSiteRow)) else none)).or
        (if id = .closuresPending ∧ seg.closuresPending ≠ [] then
          some (encodeFramed .pendingSites seg.generation seg.closuresPending.length
            (seg.closuresPending.flatMap encodePendingClosure)) else none) := by
  unfold Segment.optionalSections closureSection pendingClosureSection
  simp only [AssocMap.get_append, get_optionalSection, get_pendingSitesSection]

end Lookup

end StructuralStore
