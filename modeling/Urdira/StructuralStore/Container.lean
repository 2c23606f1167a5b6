import Urdira.StructuralStore.Frame
import Urdira.Lib.AssocMap
import Urdira.Lib.ExceptOk

open ByteOrder MerkleBucket ByteLayout BinarySearch

namespace StructuralStore

def containerMagic : Bytes := utf8 "URDC"

abbrev containerFormat : ℕ := 1

abbrev containerHeaderLen : ℕ := 64

abbrev tocEntryStride : ℕ := 32

inductive SectionId where
  | recordsKeys
  | recordsMeta
  | recordsDigests
  | recordsBody
  | recordsIdent
  | recordsByOwner
  | recordsByName
  | recordsByKind
  | recordsByIdentity
  | adjOut
  | adjIn
  | depsKeys
  | depsMeta
  | depsReverse
  | dictBin
  | subjectsKeys
  | closuresRecords
  | closuresDeps
  | pendingSites
  | closuresPending
  | entitiesIndex
  deriving DecidableEq, Repr

namespace SectionId

def toNat : SectionId → ℕ
  | .recordsKeys => 1
  | .recordsMeta => 2
  | .recordsDigests => 3
  | .recordsBody => 4
  | .recordsIdent => 5
  | .recordsByOwner => 6
  | .recordsByName => 7
  | .recordsByKind => 8
  | .recordsByIdentity => 9
  | .adjOut => 10
  | .adjIn => 11
  | .depsKeys => 12
  | .depsMeta => 13
  | .depsReverse => 14
  | .dictBin => 15
  | .subjectsKeys => 16
  | .closuresRecords => 17
  | .closuresDeps => 18
  | .pendingSites => 19
  | .closuresPending => 20
  | .entitiesIndex => 21

def fromU16 : ℕ → Option SectionId
  | 1 => some .recordsKeys
  | 2 => some .recordsMeta
  | 3 => some .recordsDigests
  | 4 => some .recordsBody
  | 5 => some .recordsIdent
  | 6 => some .recordsByOwner
  | 7 => some .recordsByName
  | 8 => some .recordsByKind
  | 9 => some .recordsByIdentity
  | 10 => some .adjOut
  | 11 => some .adjIn
  | 12 => some .depsKeys
  | 13 => some .depsMeta
  | 14 => some .depsReverse
  | 15 => some .dictBin
  | 16 => some .subjectsKeys
  | 17 => some .closuresRecords
  | 18 => some .closuresDeps
  | 19 => some .pendingSites
  | 20 => some .closuresPending
  | 21 => some .entitiesIndex
  | _ => none

def label : SectionId → String
  | .recordsKeys => "records.keys"
  | .recordsMeta => "records.meta"
  | .recordsDigests => "records.digests"
  | .recordsBody => "records.body"
  | .recordsIdent => "records.ident"
  | .recordsByOwner => "records.by_owner"
  | .recordsByName => "records.by_name"
  | .recordsByKind => "records.by_kind"
  | .recordsByIdentity => "records.by_identity"
  | .adjOut => "adj.out"
  | .adjIn => "adj.in"
  | .depsKeys => "deps.keys"
  | .depsMeta => "deps.meta"
  | .depsReverse => "deps.reverse"
  | .dictBin => "dict.bin"
  | .subjectsKeys => "subjects.keys"
  | .closuresRecords => "closures.records"
  | .closuresDeps => "closures.deps"
  | .pendingSites => "pending.sites"
  | .closuresPending => "closures.pending"
  | .entitiesIndex => "entities.index"

def debugName : SectionId → String
  | .recordsKeys => "RecordsKeys"
  | .recordsMeta => "RecordsMeta"
  | .recordsDigests => "RecordsDigests"
  | .recordsBody => "RecordsBody"
  | .recordsIdent => "RecordsIdent"
  | .recordsByOwner => "RecordsByOwner"
  | .recordsByName => "RecordsByName"
  | .recordsByKind => "RecordsByKind"
  | .recordsByIdentity => "RecordsByIdentity"
  | .adjOut => "AdjOut"
  | .adjIn => "AdjIn"
  | .depsKeys => "DepsKeys"
  | .depsMeta => "DepsMeta"
  | .depsReverse => "DepsReverse"
  | .dictBin => "DictBin"
  | .subjectsKeys => "SubjectsKeys"
  | .closuresRecords => "ClosuresRecords"
  | .closuresDeps => "ClosuresDeps"
  | .pendingSites => "PendingSites"
  | .closuresPending => "ClosuresPending"
  | .entitiesIndex => "EntitiesIndex"

theorem fromU16_toNat (id : SectionId) : fromU16 id.toNat = some id := by
  cases id <;> rfl

theorem toNat_lt (id : SectionId) : id.toNat < 2 ^ 16 := by
  cases id <;> decide

end SectionId

abbrev EncodedSection := SectionId × Bytes

structure TocRow where
  id : SectionId
  offset : ℕ
  length : ℕ
  xxh3 : Fin (2 ^ 64)
  deriving DecidableEq

def TocRow.blocks (row : TocRow) : List Bytes :=
  [leBytes 2 row.id.toNat, leBytes 2 0, leBytes 4 0, leBytes 8 row.offset, leBytes 8 row.length,
    leBytes 8 row.xxh3.val]

def TocRow.encode (row : TocRow) : Bytes := row.blocks.flatten

section Write

variable [Xxh3]

def tocRows : ℕ → List EncodedSection → List TocRow
  | _, [] => []
  | offset, (id, blob) :: rest =>
    ⟨id, offset, blob.length, Xxh3.hash blob⟩ :: tocRows (offset + blob.length) rest

def containerHeaderFields (generation sectionCount tocOffset : ℕ) : List (ℕ × Bytes) :=
  [(0, containerMagic),
    (4, leBytes 2 containerFormat),
    (8, leBytes 8 generation),
    (16, leBytes 8 sectionCount),
    (24, leBytes 8 tocOffset)]

def blobsOf (sections : List EncodedSection) : Bytes := (sections.map Prod.snd).flatten

def encodeContainer (generation : ℕ) (sections : List EncodedSection) : Bytes :=
  let buf := zeros containerHeaderLen ++ blobsOf sections
  let toc := (tocRows containerHeaderLen sections).flatMap TocRow.encode
  writeFields (buf ++ toc) (containerHeaderFields generation sections.length buf.length)

def capacityOverflow : Fault := .panic "capacity overflow"

def writeContainerToPageCache (generation : ℕ) (sections : List EncodedSection) :
    Except Fault Bytes :=
  if (encodeContainer generation sections).length <
    2 ^ 63 then .ok (encodeContainer generation sections)
  else .error capacityOverflow

end Write

section Open

structure OpenedContainer where
  mmap : Bytes
  generation : ℕ
  ranges : List (SectionId × ℕ × ℕ)

def readTocRow (path : String) (mmap : Bytes) (tocOffset i : ℕ) :
    Except Fault (SectionId × ℕ × ℕ) :=
  let row := readAt mmap (tocOffset + i * tocEntryStride) tocEntryStride
  let idRaw := u16le row 0
  match SectionId.fromU16 idRaw with
  | none => .error (.error s!"delta container {path} unknown section id {idRaw}")
  | some id =>
    let offset := u64le row 8
    let length := u64le row 16
    let stop := offset + length
    if 2 ^ 64 ≤ stop then .error (.error s!"delta container {path} section {idRaw} overflows")
    else if mmap.length < stop then
      let debugName := id.debugName
      .error (.error s!"delta container {path} section {debugName} out of bounds")
    else .ok (id, offset, stop)

def openContainer (path : String) (mmap : Bytes) : Except Fault OpenedContainer :=
  if mmap.length < containerHeaderLen then
    .error (.error s!"delta container {path} shorter than its header")
  else if readAt mmap 0 4 ≠ containerMagic then .error (.error s!"delta container {path} bad magic")
  else
    let format := u16le mmap 4
    if format ≠ containerFormat then
      .error (.error s!"delta container {path} unsupported format {format}")
    else
      let sectionCount := u64le mmap 16
      let tocOffset := u64le mmap 24
      if mmap.length < (tocOffset + sectionCount * tocEntryStride) % 2 ^ 64 then
        .error (.error s!"delta container {path} truncated table of contents")
      else do
        let rows ← (List.range sectionCount).mapM (readTocRow path mmap tocOffset)
        .ok ⟨mmap, u64le mmap 8, AssocMap.insertAll [] rows⟩

def OpenedContainer.bytes (container : OpenedContainer) (id : SectionId) : Option Bytes :=
  (AssocMap.get container.ranges id).map (fun range => slice container.mmap range.1 range.2)

end Open

section Toc

@[simp] theorem length_containerMagic : containerMagic.length = 4 := by decide +kernel

@[simp] theorem TocRow.length_encode (row : TocRow) : row.encode.length = tocEntryStride := by
  simp [TocRow.encode, TocRow.blocks]

theorem TocRow.value_encode {row : TocRow} {off w v : ℕ}
    (h : (off, leBytes w v) ∈ blocksAt 0 row.blocks) (hv : v < 256 ^ w) :
    leValue (readAt row.encode off w) = v :=
  leValue_of_mem_blocksAt h hv

variable [Xxh3] {sections : List EncodedSection} {start : ℕ}

theorem length_tocRows (start : ℕ) (sections : List EncodedSection) :
    (tocRows start sections).length = sections.length := by
  induction sections generalizing start with
  | nil => rfl
  | cons e rest ih => simp [tocRows, ih]

theorem ids_tocRows (start : ℕ) (sections : List EncodedSection) :
    (tocRows start sections).map TocRow.id = sections.map Prod.fst := by
  induction sections generalizing start with
  | nil => rfl
  | cons e rest ih => simp [tocRows, ih]

theorem blocksAt_of_mem_tocRows {row : TocRow} (h : row ∈ tocRows start sections) :
    ∃ blob, (row.id, blob) ∈ sections ∧
      (row.offset, blob) ∈ blocksAt start (sections.map Prod.snd) ∧
      row.length = blob.length := by
  induction sections generalizing start with
  | nil => cases h
  | cons e rest ih =>
    obtain ⟨id, blob⟩ := e
    rw [tocRows] at h
    rw [List.map_cons, blocksAt_cons]
    rcases List.mem_cons.mp h with rfl | hrest
    · exact ⟨blob, List.mem_cons_self, List.mem_cons_self, rfl⟩
    · obtain ⟨other, hmem, hblock, hlen⟩ := ih hrest
      exact ⟨other, List.mem_cons_of_mem _ hmem, List.mem_cons_of_mem _ hblock, hlen⟩

end Toc

section ContainerRoundTrip

variable [Xxh3] {generation : ℕ} {sections : List EncodedSection}

omit [Xxh3] in
theorem containerHeaderFields_fits (generation sectionCount tocOffset : ℕ) :
    Fits containerHeaderLen ((containerHeaderFields generation sectionCount tocOffset).map
      span) := by
  have hspans : (containerHeaderFields generation sectionCount tocOffset).map span =
      [(0, 4), (4, 2), (8, 8), (16, 8), (24, 8)] := by
    simp [containerHeaderFields]
  rw [hspans]
  decide

theorem length_encodeContainer (generation : ℕ) (sections : List EncodedSection) :
    (encodeContainer generation sections).length =
      containerHeaderLen + (blobsOf sections).length + sections.length * tocEntryStride := by
  have htoc : ((tocRows containerHeaderLen sections).flatMap TocRow.encode).length =
      sections.length * tocEntryStride := by
    rw [length_flatMap_stride (fun row _ => row.length_encode), length_tocRows]
  simp [encodeContainer, htoc, Nat.add_assoc]

theorem readAt_encodeContainer {off len : ℕ} (h : containerHeaderLen ≤ off) :
    readAt (encodeContainer generation sections) off len =
      readAt (zeros containerHeaderLen ++ blobsOf sections ++
        (tocRows containerHeaderLen sections).flatMap TocRow.encode) off len := by
  unfold encodeContainer
  refine readAt_writeFields_of_apart (fun field hfield => Or.inr ?_)
  have hinside := (containerHeaderFields_fits generation sections.length
    (zeros containerHeaderLen ++ blobsOf sections).length).inside (span field)
      (List.mem_map_of_mem hfield)
  exact hinside.trans h

theorem readAt_blob {off : ℕ} {blob : Bytes}
    (h : (off, blob) ∈ blocksAt containerHeaderLen (sections.map Prod.snd)) :
    readAt (encodeContainer generation sections) off blob.length = blob := by
  have hmem : (off, blob) ∈ blocksAt (zeros containerHeaderLen).length (sections.map Prod.snd) := by
    rwa [length_zeros]
  rw [readAt_encodeContainer (le_of_mem_blocksAt h)]
  exact readAt_of_mem_blocksAt hmem

theorem readAt_toc {i : ℕ} {row : TocRow}
    (h : (tocRows containerHeaderLen sections)[i]? = some row) :
    readAt (encodeContainer generation sections)
      (containerHeaderLen + (blobsOf sections).length + i * tocEntryStride) tocEntryStride =
        row.encode := by
  have hfront : (zeros containerHeaderLen ++ blobsOf sections).length =
      containerHeaderLen + (blobsOf sections).length := by simp
  rw [readAt_encodeContainer (by omega), ← hfront, readAt_append_right]
  exact rowAt_flatMap (fun row _ => row.length_encode) h

def TocRow.range (row : TocRow) : SectionId × ℕ × ℕ := (row.id, row.offset, row.offset + row.length)

theorem readTocRow_encode {path : String} {i : ℕ} {row : TocRow}
    (h : (tocRows containerHeaderLen sections)[i]? = some row)
    (hsize : (encodeContainer generation sections).length < 2 ^ 63) :
    readTocRow path (encodeContainer generation sections)
      (containerHeaderLen + (blobsOf sections).length) i = .ok row.range := by
  obtain ⟨blob, -, hblock, hlen⟩ := blocksAt_of_mem_tocRows (List.mem_of_getElem? h)
  have hend := end_le_of_mem_blocksAt hblock
  have htotal := length_encodeContainer generation sections
  unfold blobsOf at htotal
  dsimp only at hend
  have hstop : row.offset + row.length ≤ (encodeContainer generation sections).length := by omega
  have hid : u16le row.encode 0 = row.id.toNat :=
    row.value_encode (by simp [blocksAt, offsetsFrom, TocRow.blocks])
      (lt_of_lt_of_le row.id.toNat_lt (by decide))
  have hoffset : u64le row.encode 8 = row.offset :=
    row.value_encode (by simp [blocksAt, offsetsFrom, TocRow.blocks]) (by omega)
  have hlength : u64le row.encode 16 = row.length :=
    row.value_encode (by simp [blocksAt, offsetsFrom, TocRow.blocks]) (by omega)
  unfold readTocRow
  simp only [readAt_toc h, hid, hoffset, hlength, SectionId.fromU16_toNat]
  rw [if_neg (by omega), if_neg (by omega)]
  rfl

theorem openContainer_encode (path : String) (hg : generation < 2 ^ 64)
    (hsize : (encodeContainer generation sections).length < 2 ^ 63) :
    openContainer path (encodeContainer generation sections) =
      .ok ⟨encodeContainer generation sections, generation,
        AssocMap.insertAll [] ((tocRows containerHeaderLen sections).map TocRow.range)⟩ := by
  have htotal : (encodeContainer generation sections).length =
      64 + (blobsOf sections).length + sections.length * 32 :=
        length_encodeContainer generation sections
  have hfits : Fits (zeros containerHeaderLen ++ blobsOf sections ++
      (tocRows containerHeaderLen sections).flatMap TocRow.encode).length
      ((containerHeaderFields generation sections.length
        (zeros containerHeaderLen ++ blobsOf sections).length).map span) :=
    (containerHeaderFields_fits _ _ _).mono (by simp)
  have hfront : (zeros containerHeaderLen ++ blobsOf sections).length =
      containerHeaderLen + (blobsOf sections).length := by simp
  have hheader : containerHeaderLen = 64 := rfl
  have hmagic : readAt (encodeContainer generation sections) 0 4 = containerMagic := by
    have hmem : ((0, containerMagic) : ℕ × Bytes) ∈ containerHeaderFields generation sections.length
        (zeros containerHeaderLen ++ blobsOf sections).length := by simp [containerHeaderFields]
    have hself := readAt_writeFields hfits hmem
    rwa [length_containerMagic] at hself
  have hformat : u16le (encodeContainer generation sections) 4 = containerFormat :=
    u16le_writeFields hfits (by simp [containerHeaderFields]) (by decide)
  have hgeneration : u64le (encodeContainer generation sections) 8 = generation :=
    u64le_writeFields hfits (by simp [containerHeaderFields]) hg
  have hcount : u64le (encodeContainer generation sections) 16 = sections.length :=
    u64le_writeFields hfits (by simp [containerHeaderFields]) (by omega)
  have htoc : u64le (encodeContainer generation sections) 24 =
      containerHeaderLen + (blobsOf sections).length := by
    rw [← hfront]
    exact u64le_writeFields hfits (by simp [containerHeaderFields]) (by omega)
  have hrows :
      (List.range sections.length).mapM (readTocRow path (encodeContainer generation sections)
      (containerHeaderLen + (blobsOf sections).length)) =
      .ok ((tocRows containerHeaderLen sections).map TocRow.range) := by
    have hlength :
        sections.length = ((tocRows containerHeaderLen sections).map TocRow.range).length := by
      rw [List.length_map, length_tocRows]
    rw [hlength]
    refine ExceptOk.mapM_range_eq_ok (fun i range hrange => ?_)
    rw [List.getElem?_map, Option.map_eq_some_iff] at hrange
    obtain ⟨row, hrow, rfl⟩ := hrange
    exact readTocRow_encode hrow hsize
  unfold openContainer
  rw [if_neg (by omega), if_neg (not_not.mpr hmagic), hformat]
  simp only [ne_eq, not_true_eq_false, if_false, hcount, htoc, hgeneration, hrows]
  have hend : containerHeaderLen + (blobsOf sections).length + sections.length * tocEntryStride =
      (encodeContainer generation sections).length :=
        (length_encodeContainer generation sections).symm
  rw [if_neg (by rw [hend, Nat.mod_eq_of_lt (by omega)]; exact lt_irrefl _)]
  rfl

theorem mem_tocRows (start : ℕ) {id : SectionId} {blob : Bytes} (h : (id, blob) ∈ sections) :
    ∃ row ∈ tocRows start sections, row.id = id ∧ row.length = blob.length ∧
      (row.offset, blob) ∈ blocksAt start (sections.map Prod.snd) := by
  induction sections generalizing start with
  | nil => cases h
  | cons e rest ih =>
    rw [tocRows, List.map_cons, blocksAt_cons]
    rcases List.mem_cons.mp h with rfl | hrest
    · exact ⟨_, List.mem_cons_self, rfl, rfl, List.mem_cons_self⟩
    · obtain ⟨row, hrow, hid, hlen, hblock⟩ := ih _ hrest
      exact ⟨row, List.mem_cons_of_mem _ hrow, hid, hlen, List.mem_cons_of_mem _ hblock⟩

theorem openContainer_write {bytes : Bytes} (path : String) (hids : (sections.map Prod.fst).Nodup)
    (hg : generation < 2 ^ 64) (h : writeContainerToPageCache generation sections = .ok bytes) :
    ∃ container, openContainer path bytes = .ok container ∧ container.generation = generation ∧
      ∀ id, container.bytes id = AssocMap.get sections id := by
  unfold writeContainerToPageCache at h
  obtain ⟨hsize, hbytes⟩ := ExceptOk.ite_eq_ok h
  obtain rfl := Except.ok.inj hbytes
  refine ⟨_, openContainer_encode path hg hsize, rfl, fun id => ?_⟩
  have hkeys : ((tocRows containerHeaderLen sections).map TocRow.range).map Prod.fst =
      sections.map Prod.fst := by
    rw [List.map_map, ← ids_tocRows containerHeaderLen sections]
    rfl
  unfold OpenedContainer.bytes
  dsimp only
  cases hget : AssocMap.get sections id with
  | none =>
    have hnone : AssocMap.get (AssocMap.insertAll []
        ((tocRows containerHeaderLen sections).map TocRow.range)) id = none := by
      rw [AssocMap.get_insertAll_of_notMem]
      · rfl
      · rw [hkeys]
        exact (AssocMap.get_eq_none_iff sections id).mp hget
    rw [hnone]
    rfl
  | some blob =>
    obtain ⟨row, hrow, rfl, hlen, hblock⟩ :=
      mem_tocRows containerHeaderLen (AssocMap.mem_of_get hget)
    have hrange : AssocMap.get (AssocMap.insertAll []
        ((tocRows containerHeaderLen sections).map TocRow.range)) row.id =
          some (row.offset, row.offset + row.length) :=
      AssocMap.get_insertAll_of_mem (by rwa [hkeys]) [] (List.mem_map_of_mem hrow)
    have hread : readAt (encodeContainer generation sections) row.offset blob.length = blob :=
      readAt_blob hblock
    rw [hrange, Option.map_some, slice, Nat.add_sub_cancel_left, hlen]
    exact congrArg some hread

end ContainerRoundTrip

end StructuralStore
