import Urdira.StructuralStore.IdentityRun
import Urdira.StructuralStore.EventHistory

open ByteOrder KeyedSet MerkleBucket EventLedger

namespace StructuralStore

inductive ChangeEntry where
  | opened (row : StoredRow)
  | closed (recordId : Digest32) (validTo : ℕ)

def InWindow (g1 g2 generation : ℕ) : Prop := g1 < generation ∧ generation ≤ g2

instance (g1 g2 generation : ℕ) : Decidable (InWindow g1 g2 generation) :=
  inferInstanceAs (Decidable (_ ∧ _))

namespace ChangeEntry

def openedRow : ChangeEntry → Option StoredRow
  | .opened row => some row
  | .closed _ _ => none

def closure : ChangeEntry → Option (Digest32 × ℕ)
  | .opened _ => none
  | .closed recordId validTo => some (recordId, validTo)

end ChangeEntry

namespace StoreReader

def changedBetween (reader : StoreReader) (g1 g2 : ℕ) : List ChangeEntry :=
  reader.segments.flatMap (fun seg =>
    if InWindow g1 g2 seg.generation then seg.rows.map ChangeEntry.opened else []) ++
  reader.recordClosures.filterMap (fun c =>
    if InWindow g1 g2 c.2 then some (.closed c.1 c.2) else none)

def openedBetween (reader : StoreReader) (g1 g2 : ℕ) : List StoredRow :=
  (reader.changedBetween g1 g2).filterMap ChangeEntry.openedRow

def closedBetween (reader : StoreReader) (g1 g2 : ℕ) : List (Digest32 × ℕ) :=
  (reader.changedBetween g1 g2).filterMap ChangeEntry.closure

def effective (reader : StoreReader) (row : StoredRow) : ℕ :=
  reader.effectiveValidTo row.recordId row.validTo

structure ReportsRows (reader : StoreReader) (g1 g2 : ℕ) : Prop where
  opened : (reader.openedBetween g1 g2).Perm
    (reader.rows.filter (fun row => decide (InWindow g1 g2 row.validFrom)))
  closed : (reader.closedBetween g1 g2).Perm
    ((reader.rows.filter (fun row => decide (InWindow g1 g2 (reader.effective row)))).map
      (fun row => (row.recordId, reader.effective row)))

structure ReportsEvents (reader : StoreReader) (events : List (Event Digest32)) (g1 g2 : ℕ) :
    Prop where
  opened_nodup : ((reader.openedBetween g1 g2).map (fun row => row.recordId)).Nodup
  opened : ∀ id, id ∈ (reader.openedBetween g1 g2).map (fun row => row.recordId) ↔
    ∃ g, InWindow g1 g2 g ∧ (id, g, Kind.opened) ∈ events
  closed_nodup : ((reader.closedBetween g1 g2).map Prod.fst).Nodup
  closed : ∀ id g, (id, g) ∈ reader.closedBetween g1 g2 ↔
    InWindow g1 g2 g ∧ (id, g, Kind.closed) ∈ events

def KeepsEvents (reader : StoreReader) (events : List (Event Digest32)) (g1 g2 : ℕ) : Prop :=
  ∀ e ∈ events, InWindow g1 g2 e.2.1 → ∃ row ∈ reader.rows, row.recordId = e.1

end StoreReader

def Segment.Aligned (seg : Segment) (g1 g2 : ℕ) : Prop :=
  ∀ row ∈ seg.rows, InWindow g1 g2 seg.generation ↔ InWindow g1 g2 row.validFrom

instance (seg : Segment) (g1 g2 : ℕ) : Decidable (seg.Aligned g1 g2) :=
  inferInstanceAs (Decidable (∀ row ∈ seg.rows, _))

def RecordRow.opening (row : RecordRow) : Digest32 × ℕ := (row.recordId, row.validFrom)

structure BaseInput.OpensRows (input : BaseInput) : Prop where
  ids : (input.rows.map (fun row => row.recordId)).Nodup
  rows_valid : ∀ row ∈ input.rows, row.validFrom ≤ input.generation ∧ row.validTo = 0

structure DeltaInput.ChangesRows (input : DeltaInput) (reader : StoreReader)
    (events : List (Event Digest32)) : Prop where
  newer : reader.generation < input.generation
  opened_valid : ∀ row ∈ input.opened, row.validFrom = input.generation ∧ row.validTo = 0
  opened_nodup : (input.opened.map (fun row => row.recordId)).Nodup
  opened_fresh : ∀ row ∈ input.opened, ∀ e ∈ events, e.1 ≠ row.recordId
  closures_open : ∀ c ∈ input.closures, c.2 = input.generation ∧
    (∃ row ∈ reader.rows, row.recordId = c.1) ∧ AssocMap.get reader.recordClosures c.1 = none

def DeltaInput.rowEvents (input : DeltaInput) : List (Event Digest32) :=
  stepEvents input.generation (input.closures.map Prod.fst)
    (input.opened.map (fun row => row.recordId))

inductive ChangeRun [Sha256] : Disk → List (Event Digest32) → Prop
  | base {disk disk' : Disk} {input : BaseInput} {roots : Roots} (opens : input.OpensRows)
      (write : writeBaseWithPending disk input = .ok (disk', roots)) :
      ChangeRun disk' (openEvents (input.rows.map RecordRow.opening))
  | partitioned {disk disk' : Disk} {partitions : Partitions} {deps : List DependencyRow}
      {dicts : Dictionaries} {generation : ℕ} {pendingSites : List PendingSiteRow} {roots : Roots}
      (opens : BaseInput.OpensRows ⟨partitions.rows, deps, dicts, generation, pendingSites⟩)
      (write : writeBasePartitionedWithPending disk partitions deps dicts generation pendingSites =
        .ok (disk', roots)) :
      ChangeRun disk' (openEvents (partitions.rows.map RecordRow.opening))
  | delta {disk disk' : Disk} {events : List (Event Digest32)} {reader : StoreReader}
      {input : DeltaInput}
      {roots : Roots} (before : ChangeRun disk events) (opened : StoreReader.open disk = .ok reader)
      (changes : input.ChangesRows reader events)
      (write : writeDeltaWithReaderAndPending disk reader input = .ok (disk', roots)) :
      ChangeRun disk' (events ++ input.rowEvents)
  | compact {disk disk' : Disk} {events : List (Event Digest32)} {reader : StoreReader}
      {newGeneration : ℕ}
      {roots : Roots} (before : ChangeRun disk events) (opened : StoreReader.open disk = .ok reader)
      (later : reader.generation ≤ newGeneration)
      (write : StructuralStore.compact disk newGeneration = .ok (disk', roots)) :
        ChangeRun disk' events

structure StoreReader.Logged (reader : StoreReader) (base : Segment)
    (events : List (Event Digest32)) : Prop where
  layers : ∃ deltas, reader.segments = deltas ++ [base] ∧
    ∀ seg ∈ deltas, ∀ row ∈ seg.rows, row.validFrom = seg.generation
  ids : reader.IdsUnique
  rows_valid : ∀ row ∈ reader.rows, row.validFrom ≤ reader.generation ∧ row.validTo = 0
  closures_nodup : (reader.recordClosures.map Prod.fst).Nodup
  closures_rows : ∀ c ∈ reader.recordClosures, ∃ row ∈ reader.rows, row.recordId = c.1
  closures_valid : ∀ c ∈ reader.recordClosures, 0 < c.2 ∧ c.2 ≤ reader.generation
  opened_events : ∀ row ∈ reader.rows, (row.recordId, row.validFrom, Kind.opened) ∈ events
  opened_once : ∀ row ∈ reader.rows, ∀ g, (row.recordId, g, Kind.opened) ∈ events →
    g = row.validFrom
  closed_events : ∀ c ∈ reader.recordClosures, (c.1, c.2, Kind.closed) ∈ events
  closed_once : ∀ row ∈ reader.rows, ∀ g, (row.recordId, g, Kind.closed) ∈ events →
    (row.recordId, g) ∈ reader.recordClosures
  deltas_le : ∀ g ∈ reader.manifest.deltas, g ≤ reader.generation

section Reports

variable {reader : StoreReader} {base : Segment} {events : List (Event Digest32)} {g1 g2 : ℕ}

theorem StoreReader.openedBetween_eq (reader : StoreReader) (g1 g2 : ℕ) :
    reader.openedBetween g1 g2 =
      reader.segments.flatMap (fun seg => if InWindow g1 g2 seg.generation then seg.rows
        else []) := by
  have hclosures : (reader.recordClosures.filterMap (fun c =>
      if InWindow g1 g2 c.2 then some (ChangeEntry.closed c.1 c.2) else none)).filterMap
        ChangeEntry.openedRow = [] := by
    rw [List.filterMap_filterMap, List.filterMap_eq_nil_iff]
    intro c _
    split <;> rfl
  rw [openedBetween, changedBetween, List.filterMap_append, hclosures, List.append_nil,
    List.filterMap_flatMap]
  refine List.flatMap_congr (fun seg _ => ?_)
  split
  · rw [List.filterMap_map]
    exact List.filterMap_some
  · rfl

theorem StoreReader.closedBetween_eq (reader : StoreReader) (g1 g2 : ℕ) :
    reader.closedBetween g1 g2 = reader.recordClosures.filter
      (fun c => decide (InWindow g1 g2 c.2)) := by
  have hopened : (reader.segments.flatMap (fun seg =>
      if InWindow g1 g2 seg.generation then seg.rows.map ChangeEntry.opened else [])).filterMap
        ChangeEntry.closure = [] := by
    rw [List.filterMap_eq_nil_iff]
    intro entry hentry
    obtain ⟨seg, -, hseg⟩ := List.mem_flatMap.mp hentry
    split at hseg
    · obtain ⟨row, -, rfl⟩ := List.mem_map.mp hseg
      rfl
    · cases hseg
  rw [closedBetween, changedBetween, List.filterMap_append, hopened, List.nil_append,
    List.filterMap_filterMap]
  induction reader.recordClosures with
  | nil => rfl
  | cons c closures ih =>
    rw [List.filterMap_cons, List.filter_cons, ih]
    by_cases hc : InWindow g1 g2 c.2
    · simp [hc, ChangeEntry.closure]
    · simp [hc]

theorem StoreReader.mem_openedBetween {row : StoredRow} :
    row ∈ reader.openedBetween g1 g2 ↔
      ∃ seg ∈ reader.segments, InWindow g1 g2 seg.generation ∧ row ∈ seg.rows := by
  rw [openedBetween_eq, List.mem_flatMap]
  refine exists_congr (fun seg => and_congr_right (fun _ => ?_))
  split
  · next hin => exact (and_iff_right hin).symm
  · next hout => exact iff_of_false (List.not_mem_nil) (fun h => hout h.1)

theorem StoreReader.openedBetween_subset {row : StoredRow} (h : row ∈ reader.openedBetween g1 g2) :
    row ∈ reader.rows := by
  obtain ⟨seg, hseg, -, hrow⟩ := mem_openedBetween.mp h
  exact List.mem_flatMap.mpr ⟨seg, hseg, hrow⟩

theorem StoreReader.openedBetween_sublist (reader : StoreReader) (g1 g2 : ℕ) :
    (reader.openedBetween g1 g2).Sublist reader.rows := by
  rw [openedBetween_eq, StoreReader.rows]
  induction reader.segments with
  | nil => exact List.Sublist.slnil
  | cons seg segments ih =>
    rw [List.flatMap_cons, List.flatMap_cons]
    refine List.Sublist.append ?_ ih
    split
    · exact List.Sublist.refl _
    · exact List.nil_sublist _

namespace StoreReader.Logged

theorem row_eq (h : reader.Logged base events) {row row' : StoredRow} (hrow : row ∈ reader.rows)
    (hrow' : row' ∈ reader.rows) (hid : row.recordId = row'.recordId) : row = row' :=
  List.inj_on_of_nodup_map h.ids hrow hrow' hid

theorem base_mem (h : reader.Logged base events) {row : StoredRow} (hrow : row ∈ base.rows) :
    row ∈ reader.rows := by
  obtain ⟨deltas, hsegments, -⟩ := h.layers
  rw [rows, hsegments, List.mem_flatMap]
  exact ⟨base, List.mem_append_right _ (List.mem_singleton_self base), hrow⟩

theorem opened_base (h : reader.Logged base events) {row : StoredRow} (hrow : row ∈ base.rows) :
    row ∈ reader.openedBetween g1 g2 ↔ InWindow g1 g2 base.generation := by
  obtain ⟨deltas, hsegments, -⟩ := h.layers
  have hnodup : reader.rows.Nodup := h.ids.of_map
  rw [rows, hsegments, List.flatMap_append, List.nodup_append] at hnodup
  have hapart : ∀ seg ∈ deltas, row ∉ seg.rows := by
    intro seg hseg hmem
    refine hnodup.2.2 row (List.mem_flatMap.mpr ⟨seg, hseg, hmem⟩) row ?_ rfl
    rw [List.flatMap_singleton]
    exact hrow
  rw [mem_openedBetween, hsegments]
  constructor
  · rintro ⟨seg, hseg, hin, hmem⟩
    rcases List.mem_append.mp hseg with hdelta | hbase
    · exact absurd hmem (hapart seg hdelta)
    · rw [List.mem_singleton.mp hbase] at hin
      exact hin
  · intro hin
    exact ⟨base, List.mem_append_right _ (List.mem_singleton_self base), hin, hrow⟩

theorem opened_iff (h : reader.Logged base events) (hbase : base.Aligned g1 g2) {row : StoredRow}
    (hrow : row ∈ reader.rows) : row ∈ reader.openedBetween g1 g2 ↔
      InWindow g1 g2 row.validFrom := by
  obtain ⟨deltas, hsegments, hdeltas⟩ := h.layers
  rw [rows, List.mem_flatMap] at hrow
  obtain ⟨seg, hseg, hmem⟩ := hrow
  rw [hsegments, List.mem_append, List.mem_singleton] at hseg
  rcases hseg with hdelta | rfl
  · constructor
    · intro hopened
      obtain ⟨seg', hseg', hin, hmem'⟩ := mem_openedBetween.mp hopened
      rw [hsegments, List.mem_append, List.mem_singleton] at hseg'
      rcases hseg' with hdelta' | rfl
      · rw [hdeltas seg' hdelta' row hmem']
        exact hin
      · exact (hbase row hmem').mp hin
    · intro hin
      rw [hdeltas seg hdelta row hmem] at hin
      rw [mem_openedBetween, hsegments]
      exact ⟨seg, List.mem_append_left _ hdelta, hin, hmem⟩
  · rw [h.opened_base hmem]
    exact hbase row hmem

theorem effective_of_closed (h : reader.Logged base events) {c : Digest32 × ℕ}
    (hc : c ∈ reader.recordClosures)
    {row : StoredRow} (hid : row.recordId = c.1) : reader.effective row = c.2 := by
  have hget : AssocMap.get reader.recordClosures c.1 = some c.2 :=
    AssocMap.get_of_mem h.closures_nodup hc
  rw [effective, effectiveValidTo, hid, hget]
  rfl

theorem closed_perm (h : reader.Logged base events) (g1 g2 : ℕ) : (reader.closedBetween g1 g2).Perm
    ((reader.rows.filter (fun row => decide (InWindow g1 g2 (reader.effective row)))).map
      (fun row => (row.recordId, reader.effective row))) := by
  rw [closedBetween_eq]
  have hrows : ((reader.rows.filter (fun row => decide (InWindow g1 g2 (reader.effective row)))).map
      (fun row => (row.recordId, reader.effective row))).Nodup := by
    refine List.Nodup.of_map Prod.fst ?_
    rw [List.map_map]
    exact h.ids.sublist (List.filter_sublist.map _)
  rw [List.perm_ext_iff_of_nodup (h.closures_nodup.of_map.filter _) hrows]
  intro c
  rw [List.mem_filter, List.mem_map, decide_eq_true_eq]
  constructor
  · rintro ⟨hc, hin⟩
    obtain ⟨row, hrow, hid⟩ := h.closures_rows c hc
    have heffective := h.effective_of_closed hc hid
    refine ⟨row, List.mem_filter.mpr ⟨hrow, decide_eq_true ?_⟩, Prod.ext hid heffective⟩
    rw [heffective]
    exact hin
  · rintro ⟨row, hrow, rfl⟩
    obtain ⟨hmem, hin⟩ := List.mem_filter.mp hrow
    have hin := of_decide_eq_true hin
    cases hget : AssocMap.get reader.recordClosures row.recordId with
    | none =>
      have hzero : reader.effective row = 0 := by
        rw [effective, effectiveValidTo, hget]
        exact (h.rows_valid row hmem).2
      rw [hzero] at hin
      exact absurd hin.1 (Nat.not_lt_zero _)
    | some validTo =>
      have hvalue : reader.effective row = validTo := by
        rw [effective, effectiveValidTo, hget]
        rfl
      rw [hvalue] at hin ⊢
      exact ⟨AssocMap.mem_of_get hget, hin⟩

theorem reportsRows_iff (h : reader.Logged base events) : reader.ReportsRows g1 g2 ↔
      base.Aligned g1 g2 := by
  constructor
  · intro hreports row hrow
    have hmem := hreports.opened.mem_iff (a := row)
    rw [h.opened_base hrow, List.mem_filter, decide_eq_true_eq] at hmem
    exact hmem.trans (and_iff_right (h.base_mem hrow))
  · intro hbase
    refine ⟨?_, h.closed_perm g1 g2⟩
    have hnodup : reader.rows.Nodup := h.ids.of_map
    rw [List.perm_ext_iff_of_nodup (hnodup.sublist (reader.openedBetween_sublist g1 g2))
      (hnodup.filter _)]
    intro row
    rw [List.mem_filter, decide_eq_true_eq]
    constructor
    · intro hopened
      have hrow := openedBetween_subset hopened
      exact ⟨hrow, (h.opened_iff hbase hrow).mp hopened⟩
    · rintro ⟨hrow, hin⟩
      exact (h.opened_iff hbase hrow).mpr hin

theorem closed_mem (h : reader.Logged base events) (hkeeps : reader.KeepsEvents events g1 g2)
    (id : Digest32)
    (g : ℕ) : (id, g) ∈ reader.closedBetween g1 g2 ↔ InWindow g1 g2 g ∧
      (id, g, Kind.closed) ∈ events := by
  rw [closedBetween_eq, List.mem_filter, decide_eq_true_eq, and_comm]
  refine and_congr_right (fun hin => ⟨h.closed_events (id, g), fun hevent => ?_⟩)
  obtain ⟨row, hrow, hid⟩ := hkeeps _ hevent hin
  obtain rfl : row.recordId = id := hid
  exact h.closed_once row hrow g hevent

theorem opened_mem (h : reader.Logged base events) (hbase : base.Aligned g1 g2)
    (hkeeps : reader.KeepsEvents events g1 g2) (id : Digest32) :
    id ∈ (reader.openedBetween g1 g2).map (fun row => row.recordId) ↔
      ∃ g, InWindow g1 g2 g ∧ (id, g, Kind.opened) ∈ events := by
  rw [List.mem_map]
  constructor
  · rintro ⟨row, hopened, rfl⟩
    have hrow := openedBetween_subset hopened
    exact ⟨row.validFrom, (h.opened_iff hbase hrow).mp hopened, h.opened_events row hrow⟩
  · rintro ⟨g, hin, hevent⟩
    obtain ⟨row, hrow, hid⟩ := hkeeps _ hevent hin
    obtain rfl : row.recordId = id := hid
    have hg := h.opened_once row hrow g hevent
    exact ⟨row, (h.opened_iff hbase hrow).mpr (hg ▸ hin), rfl⟩

theorem reportsEvents_iff (h : reader.Logged base events) :
    reader.ReportsEvents events g1 g2 ↔ base.Aligned g1 g2 ∧ reader.KeepsEvents events g1 g2 := by
  constructor
  · intro hreports
    constructor
    · intro row hrow
      have hmem := h.base_mem hrow
      rw [← h.opened_base hrow]
      constructor
      · intro hopened
        obtain ⟨g, hin, hevent⟩ := (hreports.opened row.recordId).mp (List.mem_map_of_mem hopened)
        rw [← h.opened_once row hmem g hevent]
        exact hin
      · intro hin
        have hreported := (hreports.opened row.recordId).mpr ⟨_, hin, h.opened_events row hmem⟩
        obtain ⟨row', hopened, hid⟩ := List.mem_map.mp hreported
        rw [← h.row_eq (openedBetween_subset hopened) hmem hid]
        exact hopened
    · rintro ⟨id, g, kind⟩ hevent hin
      cases kind with
      | opened =>
        obtain ⟨row, hopened, hid⟩ := List.mem_map.mp ((hreports.opened id).mpr ⟨g, hin, hevent⟩)
        exact ⟨row, openedBetween_subset hopened, hid⟩
      | closed =>
        have hclosed := (hreports.closed id g).mpr ⟨hin, hevent⟩
        rw [closedBetween_eq] at hclosed
        exact h.closures_rows _ (List.mem_filter.mp hclosed).1
  · rintro ⟨hbase, hkeeps⟩
    refine ⟨?_, h.opened_mem hbase hkeeps, ?_, h.closed_mem hkeeps⟩
    · exact h.ids.sublist ((reader.openedBetween_sublist g1 g2).map _)
    · rw [closedBetween_eq]
      exact h.closures_nodup.sublist (List.filter_sublist.map _)

end StoreReader.Logged

end Reports

section Steps

variable {events : List (Event Digest32)}

theorem mem_openEvents {rows : List (Digest32 × ℕ)} {id : Digest32} {g : ℕ} {kind : Kind} :
    (id, g, kind) ∈ openEvents rows ↔ (id, g) ∈ rows ∧ kind = .opened := by
  rw [openEvents, List.mem_map]
  constructor
  · rintro ⟨row, hrow, heq⟩
    obtain ⟨rfl, rfl, rfl⟩ : row.1 = id ∧ row.2 = g ∧ Kind.opened = kind := by simpa using heq
    exact ⟨hrow, rfl⟩
  · rintro ⟨hrow, rfl⟩
    exact ⟨(id, g), hrow, rfl⟩

theorem DeltaInput.mem_rowEvents {input : DeltaInput} {id : Digest32} {g : ℕ} {kind : Kind} :
    (id, g, kind) ∈ input.rowEvents ↔ g = input.generation ∧
      (kind = .closed ∧ id ∈ input.closures.map Prod.fst ∨
        kind = .opened ∧ id ∈ input.opened.map (fun row => row.recordId)) := by
  rw [rowEvents, stepEvents, List.mem_append, List.mem_map, List.mem_map]
  constructor
  · rintro (⟨id', hid, heq⟩ | ⟨id', hid, heq⟩)
    · obtain ⟨rfl, rfl, rfl⟩ : id' = id ∧ input.generation = g ∧ Kind.closed = kind := by
        simpa using heq
      exact ⟨rfl, Or.inl ⟨rfl, hid⟩⟩
    · obtain ⟨rfl, rfl, rfl⟩ : id' = id ∧ input.generation = g ∧ Kind.opened = kind := by
        simpa using heq
      exact ⟨rfl, Or.inr ⟨rfl, hid⟩⟩
  · rintro ⟨rfl, ⟨rfl, hid⟩ | ⟨rfl, hid⟩⟩
    · exact Or.inl ⟨id, hid, rfl⟩
    · exact Or.inr ⟨id, hid, rfl⟩

section Base

variable {input : BaseInput} {ordered : List RecordRow} {seg : Segment} {manifest : Manifest}

theorem BaseInput.Built.logged (h : input.Built ordered seg) (ho : input.OpensRows)
    (hgen : manifest.generation = input.generation) (hdeltas : manifest.deltas = [])
    (hopened : ∀ row ∈ input.rows, ∀ g, (row.recordId, g, Kind.opened) ∈ events ↔ g = row.validFrom)
    (hclosed : ∀ row ∈ input.rows, ∀ g, (row.recordId, g, Kind.closed) ∉ events) :
    (StoreReader.load manifest seg []).Logged seg events where
  layers := ⟨[], rfl, by simp⟩
  ids := h.idsUnique ho.ids
  rows_valid := by
    intro row hrow
    rw [h.load_rows] at hrow
    obtain ⟨orig, horig, heq⟩ := h.mem_rows hrow
    rw [heq]
    change orig.validFrom ≤ manifest.generation ∧ orig.validTo = 0
    rw [hgen]
    exact ho.rows_valid orig horig
  closures_nodup := by simp [StoreReader.load]
  closures_rows := by simp [StoreReader.load]
  closures_valid := by simp [StoreReader.load]
  opened_events := by
    intro row hrow
    rw [h.load_rows] at hrow
    obtain ⟨orig, horig, heq⟩ := h.mem_rows hrow
    rw [heq]
    exact (hopened orig horig _).mpr rfl
  opened_once := by
    intro row hrow g hevent
    rw [h.load_rows] at hrow
    obtain ⟨orig, horig, heq⟩ := h.mem_rows hrow
    rw [heq] at hevent ⊢
    exact (hopened orig horig g).mp hevent
  closed_events := by simp [StoreReader.load]
  closed_once := by
    intro row hrow g hevent
    rw [h.load_rows] at hrow
    obtain ⟨orig, horig, heq⟩ := h.mem_rows hrow
    rw [heq] at hevent
    exact absurd hevent (hclosed orig horig g)
  deltas_le := by simp [StoreReader.load, hdeltas]

theorem BaseInput.OpensRows.opened_iff (ho : input.OpensRows) {row : RecordRow}
    (hrow : row ∈ input.rows)
    (g : ℕ) : (row.recordId, g, Kind.opened) ∈ openEvents (input.rows.map RecordRow.opening) ↔
      g = row.validFrom := by
  rw [mem_openEvents, List.mem_map]
  constructor
  · rintro ⟨⟨row', hrow', heq⟩, -⟩
    obtain ⟨hid, rfl⟩ := Prod.mk.inj heq
    rw [List.inj_on_of_nodup_map ho.ids hrow' hrow hid]
  · rintro rfl
    exact ⟨⟨row, hrow, rfl⟩, rfl⟩

theorem BaseInput.not_closed (input : BaseInput) (id : Digest32) (g : ℕ) :
    (id, g, Kind.closed) ∉ openEvents (input.rows.map RecordRow.opening) := by
  rw [mem_openEvents]
  rintro ⟨-, hkind⟩
  cases hkind

end Base

section Delta

variable {input : DeltaInput} {reader : StoreReader} {base seg : Segment} {manifest : Manifest}

theorem StoreReader.Logged.id_known (hl : reader.Logged base events) {row : StoredRow}
    (hrow : row ∈ reader.rows) : ∃ e ∈ events, e.1 = row.recordId :=
  ⟨_, hl.opened_events row hrow, rfl⟩

theorem DeltaInput.ChangesRows.freshIds (hc : input.ChangesRows reader events)
    (hl : reader.Logged base events) : input.FreshIds reader := by
  refine ⟨hc.opened_nodup, fun row hrow old hold => ?_⟩
  obtain ⟨e, he, hid⟩ := hl.id_known hold
  rw [← hid]
  exact hc.opened_fresh row hrow e he

theorem DeltaInput.ChangesRows.mem_closures (hc : input.ChangesRows reader events)
    (h : input.Built reader manifest seg) (hl : reader.Logged base events) {c : Digest32 × ℕ} :
    c ∈ (reader.extend manifest seg).recordClosures ↔ c ∈ reader.recordClosures ∨
      c.1 ∈ input.closures.map Prod.fst ∧ c.2 = input.generation := by
  have hnodup : ((reader.extend manifest seg).recordClosures.map Prod.fst).Nodup :=
    AssocMap.nodup_insertAll hl.closures_nodup _
  have hconst : ∀ e ∈ seg.closuresRecords, e.2 = input.generation :=
    fun e he => (hc.closures_open e (h.closures_perm.mem_iff.mp he)).1
  have hkeys : ∀ {id}, id ∈ seg.closuresRecords.map Prod.fst ↔ id ∈ input.closures.map Prod.fst :=
    (h.closures_perm.map _).mem_iff
  have hmem : c ∈ (reader.extend manifest seg).recordClosures ↔
      AssocMap.get (reader.extend manifest seg).recordClosures c.1 = some c.2 :=
    ⟨fun hin => AssocMap.get_of_mem hnodup hin, fun hget => AssocMap.mem_of_get hget⟩
  have hold : c ∈ reader.recordClosures ↔ AssocMap.get reader.recordClosures c.1 = some c.2 :=
    ⟨fun hin => AssocMap.get_of_mem hl.closures_nodup hin, fun hget => AssocMap.mem_of_get hget⟩
  rw [hmem, hold]
  by_cases hclosed : c.1 ∈ input.closures.map Prod.fst
  · obtain ⟨c', hc', hid⟩ := List.mem_map.mp hclosed
    obtain ⟨-, -, hnone⟩ := hc.closures_open c' hc'
    have hget : AssocMap.get (reader.extend manifest seg).recordClosures c.1 =
        some input.generation :=
      AssocMap.get_insertAll_of_const _ _ (hkeys.mpr hclosed) hconst
    rw [hget, ← hid, hnone]
    constructor
    · intro heq
      exact Or.inr ⟨hid ▸ hclosed, (Option.some.inj heq).symm⟩
    · rintro (hcontra | ⟨-, heq⟩)
      · cases hcontra
      · rw [heq]
  · have hget : AssocMap.get (reader.extend manifest seg).recordClosures c.1 =
        AssocMap.get reader.recordClosures c.1 :=
      AssocMap.get_insertAll_of_notMem _ _ (fun hmem => hclosed (hkeys.mp hmem))
    rw [hget]
    exact ⟨Or.inl, fun hor => hor.resolve_right (fun hand => hclosed hand.1)⟩

theorem DeltaInput.Built.logged (h : input.Built reader manifest seg)
    (hc : input.ChangesRows reader events)
    (hgen : seg.generation = input.generation) (hl : reader.Logged base events) :
    (reader.extend manifest seg).Logged base (events ++ input.rowEvents) where
  layers := by
    obtain ⟨deltas, hsegments, hdeltas⟩ := hl.layers
    refine ⟨seg :: deltas, by simp [StoreReader.extend, hsegments], ?_⟩
    intro delta hdelta row hrow
    rcases List.mem_cons.mp hdelta with rfl | hold
    · obtain ⟨orig, horig, heq⟩ := h.mem_rows hrow
      rw [heq, hgen]
      exact (hc.opened_valid orig horig).1
    · exact hdeltas delta hold row hrow
  ids := (hc.freshIds hl).idsUnique h hl.ids
  rows_valid := by
    intro row hrow
    rw [StoreReader.extend_rows, List.mem_append] at hrow
    rw [StoreReader.extend_generation, h.manifest_generation]
    rcases hrow with hnew | hold
    · obtain ⟨orig, horig, heq⟩ := h.mem_rows hnew
      obtain ⟨hvf, hvt⟩ := hc.opened_valid orig horig
      rw [heq]
      exact ⟨hvf.le, hvt⟩
    · obtain ⟨hvf, hvt⟩ := hl.rows_valid row hold
      exact ⟨hvf.trans hc.newer.le, hvt⟩
  closures_nodup := AssocMap.nodup_insertAll hl.closures_nodup _
  closures_rows := by
    intro c hcmem
    rw [StoreReader.extend_rows]
    rcases (hc.mem_closures h hl).mp hcmem with hold | ⟨hnew, -⟩
    · obtain ⟨row, hrow, hid⟩ := hl.closures_rows c hold
      exact ⟨row, List.mem_append_right _ hrow, hid⟩
    · obtain ⟨c', hc', hkey⟩ := List.mem_map.mp hnew
      obtain ⟨-, ⟨row, hrow, hid⟩, -⟩ := hc.closures_open c' hc'
      exact ⟨row, List.mem_append_right _ hrow, hid.trans hkey⟩
  closures_valid := by
    intro c hcmem
    rw [StoreReader.extend_generation, h.manifest_generation]
    rcases (hc.mem_closures h hl).mp hcmem with hold | ⟨-, hnew⟩
    · obtain ⟨hpos, hle⟩ := hl.closures_valid c hold
      exact ⟨hpos, hle.trans hc.newer.le⟩
    · rw [hnew]
      exact ⟨(Nat.zero_le _).trans_lt hc.newer, le_rfl⟩
  opened_events := by
    intro row hrow
    rw [StoreReader.extend_rows, List.mem_append] at hrow
    rw [List.mem_append]
    rcases hrow with hnew | hold
    · obtain ⟨orig, horig, heq⟩ := h.mem_rows hnew
      rw [heq]
      exact Or.inr (DeltaInput.mem_rowEvents.mpr
        ⟨(hc.opened_valid orig horig).1, Or.inr ⟨rfl, List.mem_map_of_mem horig⟩⟩)
    · exact Or.inl (hl.opened_events row hold)
  opened_once := by
    intro row hrow g hevent
    rw [StoreReader.extend_rows, List.mem_append] at hrow
    rw [List.mem_append, DeltaInput.mem_rowEvents] at hevent
    rcases hrow with hnew | hold
    · obtain ⟨orig, horig, heq⟩ := h.mem_rows hnew
      rw [heq] at hevent ⊢
      rcases hevent with hbefore | ⟨hg, -⟩
      · exact absurd rfl (hc.opened_fresh orig horig _ hbefore)
      · rw [hg]
        exact (hc.opened_valid orig horig).1.symm
    · rcases hevent with hbefore | ⟨-, ⟨hkind, -⟩ | ⟨-, hopened⟩⟩
      · exact hl.opened_once row hold g hbefore
      · cases hkind
      · obtain ⟨orig, horig, hid⟩ := List.mem_map.mp hopened
        exact absurd hid.symm ((hc.freshIds hl).opened_fresh orig horig row hold)
  closed_events := by
    intro c hcmem
    rw [List.mem_append, DeltaInput.mem_rowEvents]
    rcases (hc.mem_closures h hl).mp hcmem with hold | ⟨hnew, hg⟩
    · exact Or.inl (hl.closed_events c hold)
    · exact Or.inr ⟨hg, Or.inl ⟨rfl, hnew⟩⟩
  closed_once := by
    intro row hrow g hevent
    rw [StoreReader.extend_rows, List.mem_append] at hrow
    rw [List.mem_append, DeltaInput.mem_rowEvents] at hevent
    rw [hc.mem_closures h hl]
    rcases hevent with hbefore | ⟨hg, ⟨-, hclosed⟩ | ⟨hkind, -⟩⟩
    · rcases hrow with hnew | hold
      · obtain ⟨orig, horig, heq⟩ := h.mem_rows hnew
        rw [heq] at hbefore
        exact absurd rfl (hc.opened_fresh orig horig _ hbefore)
      · exact Or.inl (hl.closed_once row hold g hbefore)
    · exact Or.inr ⟨hclosed, hg⟩
    · cases hkind
  deltas_le := by
    intro g hg
    have hlist : (reader.extend manifest seg).manifest.deltas =
        reader.manifest.deltas ++ [input.generation] := h.manifest_deltas
    rw [StoreReader.extend_generation, h.manifest_generation]
    rw [hlist, List.mem_append, List.mem_singleton] at hg
    rcases hg with hold | rfl
    · exact (hl.deltas_le g hold).trans hc.newer.le
    · exact le_rfl

end Delta

section Compact

variable {reader : StoreReader} {base : Segment} {generation : ℕ}

theorem StoreReader.Logged.not_closed_of_visible (hl : reader.Logged base events)
    (hg : reader.generation ≤ generation) {row : StoredRow}
    (hvisible : reader.isVisible row generation = true) :
    AssocMap.get reader.recordClosures row.recordId = none := by
  cases hget : AssocMap.get reader.recordClosures row.recordId with
  | none => rfl
  | some validTo =>
    obtain ⟨hpos, hle⟩ := hl.closures_valid _ (AssocMap.mem_of_get hget)
    simp only [isVisible, effectiveValidTo, hget, Option.getD_some, isVisibleAt, Bool.and_eq_true,
      Bool.or_eq_true, decide_eq_true_eq] at hvisible
    omega

theorem StoreReader.Logged.compacted_row (hl : reader.Logged base events)
    (hg : reader.generation ≤ generation) {row : RecordRow}
    (hrow : row ∈ (compactInput reader generation).rows) :
    ∃ stored ∈ reader.rows, AssocMap.get reader.recordClosures stored.recordId = none ∧
      row.toRecordFields = stored.toRecordFields := by
  obtain ⟨stored, hstored, rfl⟩ := List.mem_map.mp hrow
  obtain ⟨hmem, hvisible⟩ :=
    List.mem_filter.mp ((reader.iterVisible_perm generation).mem_iff.mp hstored)
  have hnone := hl.not_closed_of_visible hg hvisible
  refine ⟨stored, hmem, hnone, ?_⟩
  unfold viewToRow effectiveValidTo
  rw [hnone]
  rfl

theorem StoreReader.Logged.compactInput_opens (hl : reader.Logged base events)
    (hg : reader.generation ≤ generation) : (compactInput reader generation).OpensRows := by
  constructor
  · have hids : ((compactInput reader generation).rows.map (fun row => row.recordId)) =
        (reader.iterVisible generation).map (fun row => row.recordId) := by
      rw [compactInput, List.map_map]
      rfl
    rw [hids, ((reader.iterVisible_perm generation).map _).nodup_iff]
    exact hl.ids.sublist (List.filter_sublist.map _)
  · intro row hrow
    obtain ⟨stored, hstored, -, heq⟩ := hl.compacted_row hg hrow
    obtain ⟨hvf, hvt⟩ := hl.rows_valid stored hstored
    rw [heq]
    exact ⟨hvf.trans hg, hvt⟩

end Compact

end Steps

section Run

variable [Sha256] {disk disk' : Disk} {events : List (Event Digest32)} {roots : Roots}

theorem publishBase_logged {input : BaseInput} {ordered : List RecordRow}
    {hs : ordered.Pairwise (fun a b => a.recordId ≤ b.recordId)} (ho : input.OpensRows)
    (hopened : ∀ row ∈ input.rows, ∀ g, (row.recordId, g, Kind.opened) ∈ events ↔ g = row.validFrom)
    (hclosed : ∀ row ∈ input.rows, ∀ g, (row.recordId, g, Kind.closed) ∉ events)
    (hperm : ordered.Perm input.rows)
    (h : publishBase disk input (input.sections ordered hs) = .ok (disk', roots)) :
    ∃ reader base, StoreReader.open disk' = .ok reader ∧
      disk'.bases reader.manifest.base = some base ∧ reader.Logged base events := by
  obtain ⟨seg, hbuilt, hpub, -⟩ := publishBase_spec hperm h
  refine ⟨StoreReader.load (baseManifest input.generation roots) seg [], seg, ?_,
    hpub.opens.base_eq, ?_⟩
  · exact open_ok_iff.mpr ⟨_, seg, [], hpub.opens, rfl⟩
  · exact hbuilt.logged ho rfl rfl hopened hclosed

theorem ChangeRun.logged (h : ChangeRun disk events) :
    ∃ reader base, StoreReader.open disk = .ok reader ∧
      disk.bases reader.manifest.base = some base ∧ reader.Logged base events := by
  induction h with
  | base opens write =>
    exact publishBase_logged opens (fun row hrow g => opens.opened_iff hrow g)
      (fun row _ g => BaseInput.not_closed _ row.recordId g) (sortOn_perm _ _) write
  | partitioned opens write =>
    exact publishBase_logged opens (fun row hrow g => opens.opened_iff hrow g)
      (fun row _ g => BaseInput.not_closed ⟨_, [], Dictionaries.empty, 0, []⟩ row.recordId g)
      (List.Perm.refl _) write
  | @delta disk disk' events reader input roots before opened changes write ih =>
    obtain ⟨reader', base, hopen, hbase, hl⟩ := ih
    obtain rfl : reader' = reader := Except.ok.inj (hopen.symm.trans opened)
    have hfresh : input.generation ∉ reader'.manifest.deltas :=
      fun hmem => absurd (hl.deltas_le _ hmem) (not_le.mpr changes.newer)
    obtain ⟨seg, hbuilt, hopen'⟩ := open_written opened hfresh write
    obtain ⟨-, -, -, hbases, -⟩ := writeDelta_frame write
    refine ⟨_, base, hopen', ?_, hbuilt.logged changes ?_ hl⟩
    · rw [hbases]
      exact hbase
    · exact (SegmentInput.build_ok hbuilt.build).2.2.2.2.2.2.2.2
  | @compact disk disk' events reader newGeneration roots before opened later write ih =>
    obtain ⟨reader', base, hopen, hbase, hl⟩ := ih
    obtain rfl : reader' = reader := Except.ok.inj (hopen.symm.trans opened)
    unfold StructuralStore.compact at write
    rw [opened] at write
    refine publishBase_logged (hl.compactInput_opens later) ?_ ?_ (sortOn_perm _ _) write
    · intro row hrow g
      obtain ⟨stored, hstored, -, heq⟩ := hl.compacted_row later hrow
      rw [heq]
      refine ⟨hl.opened_once stored hstored g, ?_⟩
      rintro rfl
      exact hl.opened_events stored hstored
    · intro row hrow g hevent
      obtain ⟨stored, hstored, hnone, heq⟩ := hl.compacted_row later hrow
      rw [heq] at hevent
      have hclosure :=
        AssocMap.get_of_mem hl.closures_nodup (hl.closed_once stored hstored g hevent)
      rw [hnone] at hclosure
      cases hclosure

theorem changedBetween_reports_iff (h : ChangeRun disk events) :
    ∃ reader base, StoreReader.open disk = .ok reader ∧ disk.bases reader.manifest.base =
      some base ∧
      ∀ g1 g2, g1 < g2 → g2 ≤ reader.generation →
        (reader.ReportsRows g1 g2 ↔ base.Aligned g1 g2) ∧
        (reader.ReportsEvents events g1 g2 ↔ base.Aligned g1 g2 ∧
          reader.KeepsEvents events g1 g2) := by
  obtain ⟨reader, base, hopen, hbase, hl⟩ := h.logged
  exact ⟨reader, base, hopen, hbase, fun _ _ _ _ => ⟨hl.reportsRows_iff, hl.reportsEvents_iff⟩⟩

end Run

section Instances

instance (input : BaseInput) : Decidable input.OpensRows :=
  decidable_of_iff _ ⟨fun h => ⟨h.1, h.2⟩, fun h => And.intro h.ids h.rows_valid⟩

instance (input : DeltaInput) (reader : StoreReader) (events : List (Event Digest32)) :
    Decidable (input.ChangesRows reader events) :=
  decidable_of_iff
    (reader.generation < input.generation ∧
      (∀ row ∈ input.opened, row.validFrom = input.generation ∧ row.validTo = 0) ∧
      (input.opened.map (fun row => row.recordId)).Nodup ∧
      (∀ row ∈ input.opened, ∀ e ∈ events, e.1 ≠ row.recordId) ∧
      ∀ c ∈ input.closures, c.2 = input.generation ∧
        (∃ row ∈ reader.rows, row.recordId = c.1) ∧ AssocMap.get reader.recordClosures c.1 = none)
    ⟨fun ⟨h₁, h₂, h₃, h₄, h₅⟩ => ⟨h₁, h₂, h₃, h₄, h₅⟩, fun h => ⟨h.1, h.2, h.3, h.4, h.5⟩⟩

theorem replaced_then_compacted :
    ∃ (_ : Sha256) (disk : Disk) (events : List (Event Digest32)) (reader : StoreReader)
      (base : Segment),
      ChangeRun disk events ∧ StoreReader.open disk = .ok reader ∧
        disk.bases reader.manifest.base = some base ∧ 2 ≤ reader.generation ∧
          ¬ base.Aligned 0 2 := by
  refine ⟨fixedDigest, ?_⟩
  let _ := fixedDigest
  let base := entityBase [plainEntity (Block.fill 32 1) [] 0 1]
  let delta :=
    { entityDelta [plainEntity (Block.fill 32 2) [] 0 2] 2 with closures := [(Block.fill 32 1, 2)] }
  have hscript : (do
      let first ← writeBaseWithPending Disk.empty base
      let second ← replayDelta (fun reader input =>
        input.ChangesRows reader (openEvents (base.rows.map RecordRow.opening))) first delta
      let reader ← StoreReader.open second.1
      let third ← compact second.1 3
      let reader' ← StoreReader.open third.1
      Except.ok (decide (reader.generation ≤ 3), decide (2 ≤ reader'.generation),
        (third.1.bases reader'.manifest.base).map
          (fun seg : Segment => decide (seg.Aligned 0 2)))) =
      .ok (true, true, some false) := by
    decide +kernel
  obtain ⟨⟨disk, roots⟩, hbase, hscript⟩ := ExceptOk.bind_eq_ok hscript
  obtain ⟨⟨disk', roots'⟩, hdelta, hscript⟩ := ExceptOk.bind_eq_ok hscript
  obtain ⟨reader, hopen, hscript⟩ := ExceptOk.bind_eq_ok hscript
  obtain ⟨⟨disk'', roots''⟩, hcompact, hscript⟩ := ExceptOk.bind_eq_ok hscript
  obtain ⟨reader', hopen', hscript⟩ := ExceptOk.bind_eq_ok hscript
  obtain ⟨hle, hpair⟩ := Prod.mk.inj (Except.ok.inj hscript)
  obtain ⟨hgeneration, haligned⟩ := Prod.mk.inj hpair
  obtain ⟨seg, hseg, hfalse⟩ := Option.map_eq_some_iff.mp haligned
  obtain ⟨before, hbefore, hstep⟩ := ExceptOk.bind_eq_ok hdelta
  obtain ⟨hchanges, hwrite⟩ := ExceptOk.ite_eq_ok hstep
  have hopens : base.OpensRows := by decide +kernel
  have hrun := ((ChangeRun.base hopens hbase).delta hbefore hchanges hwrite).compact hopen
    (of_decide_eq_true hle) hcompact
  exact ⟨disk'', _, reader', seg, hrun, hopen', hseg, of_decide_eq_true hgeneration,
    of_decide_eq_false hfalse⟩

theorem changedBetween_reports_iff_compacted :
    ∃ (_ : Sha256) (disk : Disk) (events : List (Event Digest32)) (reader : StoreReader)
      (base : Segment),
      StoreReader.open disk = .ok reader ∧ disk.bases reader.manifest.base = some base ∧
        (reader.ReportsRows 0 2 ↔ base.Aligned 0 2) ∧
        (reader.ReportsEvents events 0 2 ↔ base.Aligned 0 2 ∧ reader.KeepsEvents events 0 2) := by
  obtain ⟨digest, disk, events, reader, base, hrun, hopen, hbase, hgeneration, -⟩ :=
    replaced_then_compacted
  obtain ⟨reader', base', hopen', hbase', hreports⟩ := changedBetween_reports_iff hrun
  obtain rfl : reader' = reader := Except.ok.inj (hopen'.symm.trans hopen)
  obtain rfl : base' = base := Option.some.inj (hbase'.symm.trans hbase)
  exact ⟨digest, disk, events, reader', base', hopen, hbase, hreports 0 2 (by decide) hgeneration⟩

theorem compacted_rows_not_reported :
    ∃ (_ : Sha256) (disk : Disk) (events : List (Event Digest32)) (reader : StoreReader),
      ChangeRun disk events ∧ StoreReader.open disk = .ok reader ∧ 2 ≤ reader.generation ∧
        ¬ reader.ReportsRows 0 2 ∧ ¬ reader.ReportsEvents events 0 2 := by
  obtain ⟨digest, disk, events, reader, base, hrun, hopen, hbase, hgeneration, hnot⟩ :=
    replaced_then_compacted
  obtain ⟨reader', base', hopen', hbase', hl⟩ := hrun.logged
  obtain rfl : reader' = reader := Except.ok.inj (hopen'.symm.trans hopen)
  obtain rfl : base' = base := Option.some.inj (hbase'.symm.trans hbase)
  refine ⟨digest, disk, events, reader', hrun, hopen, hgeneration, ?_, ?_⟩
  · exact fun hreports => hnot (hl.reportsRows_iff.mp hreports)
  · exact fun hreports => hnot (hl.reportsEvents_iff.mp hreports).1

end Instances

end StructuralStore
