import Urdira.StructuralStore.SnapshotReader
import Urdira.StructuralStore.CompactSpec
import Urdira.Lib.EventLedger

open ByteOrder KeyedSet MerkleBucket BinarySearch EventLedger

namespace StructuralStore

def DependencyRow.opening (dep : DependencyRow) : Digest32 × ℕ := (dep.dependencyId, dep.validFrom)

def PendingSiteRow.opening (site : PendingSiteRow) : PendingSiteKey × ℕ :=
  (site.key, site.validFrom)

structure BaseInput.Timed (input : BaseInput) : Prop where
  ids : (input.rows.map (fun row => row.recordId)).Nodup
  rows_valid : ∀ row ∈ input.rows, row.validFrom ≤ input.generation ∧ row.validTo = 0
  deps_valid : ∀ dep ∈ input.deps, dep.validFrom ≤ input.generation ∧ dep.validTo = 0
  pending_valid : ∀ site ∈ input.pendingSites, site.validFrom ≤ input.generation ∧ site.validTo = 0

structure DeltaInput.Timed (input : DeltaInput) (reader : StoreReader) : Prop where
  newer : reader.generation < input.generation
  opened_valid : ∀ row ∈ input.opened, row.validFrom = input.generation ∧ row.validTo = 0
  opened_nodup : (input.opened.map (fun row => row.recordId)).Nodup
  opened_fresh : ∀ row ∈ input.opened, ∀ old ∈ reader.rows, old.recordId ≠ row.recordId
  closures_known : ∀ c ∈ input.closures,
    c.2 = input.generation ∧ ∃ row ∈ reader.rows, row.recordId = c.1
  deps_valid : ∀ dep ∈ input.depsOpened, dep.validFrom = input.generation ∧ dep.validTo = 0
  depsClosures_at : ∀ c ∈ input.depsClosures, c.2 = input.generation
  pending_valid : ∀ site ∈ input.pendingOpened, site.validFrom = input.generation ∧ site.validTo = 0
  pendingClosures_at : ∀ c ∈ input.pendingClosures, c.2 = input.generation

def DeltaInput.depEvents (input : DeltaInput) : List (Event Digest32) :=
  stepEvents input.generation (input.depsClosures.map Prod.fst)
    (input.depsOpened.map DependencyRow.dependencyId)

def DeltaInput.pendingEvents (input : DeltaInput) : List (Event PendingSiteKey) :=
  stepEvents input.generation (input.pendingClosures.map Prod.fst)
    (input.pendingOpened.map PendingSiteRow.key)

inductive HistoryRun [Sha256] : Disk → List (Event Digest32) → List (Event PendingSiteKey) → Prop
  | base {disk disk' : Disk} {input : BaseInput} {roots : Roots} (timed : input.Timed)
      (write : writeBaseWithPending disk input = .ok (disk', roots)) :
      HistoryRun disk' (openEvents (input.deps.map DependencyRow.opening))
        (openEvents (input.pendingSites.map PendingSiteRow.opening))
  | partitioned {disk disk' : Disk} {partitions : Partitions} {deps : List DependencyRow}
      {dicts : Dictionaries} {generation : ℕ} {pendingSites : List PendingSiteRow} {roots : Roots}
      (timed : BaseInput.Timed ⟨partitions.rows, deps, dicts, generation, pendingSites⟩)
      (write : writeBasePartitionedWithPending disk partitions deps dicts generation pendingSites =
        .ok (disk', roots)) :
      HistoryRun disk' (openEvents (deps.map DependencyRow.opening))
        (openEvents (pendingSites.map PendingSiteRow.opening))
  | delta {disk disk' : Disk} {deps : List (Event Digest32)} {pending : List (Event PendingSiteKey)}
      {reader : StoreReader} {input : DeltaInput} {roots : Roots}
      (before : HistoryRun disk deps pending) (opened : StoreReader.open disk = .ok reader)
      (timed : input.Timed reader)
      (write : writeDeltaWithReaderAndPending disk reader input = .ok (disk', roots)) :
      HistoryRun disk' (deps ++ input.depEvents) (pending ++ input.pendingEvents)

structure StoreReader.Dated (reader : StoreReader) : Prop where
  ids : reader.IdsUnique
  rows_valid : ∀ row ∈ reader.rows, row.validFrom ≤ reader.generation ∧ row.validTo = 0
  closures_nodup : (reader.recordClosures.map Prod.fst).Nodup
  closures_rows : ∀ c ∈ reader.recordClosures, ∃ row ∈ reader.rows, row.recordId = c.1
  closures_after : ∀ row ∈ reader.rows, ∀ c,
    AssocMap.get reader.recordClosures row.recordId = some c → row.validFrom < c
  deps_open : ∀ dep ∈ reader.deps, dep.validTo = 0
  pending_open : ∀ site ∈ reader.pendingSites, site.validTo = 0
  deltas_le : ∀ g ∈ reader.manifest.deltas, g ≤ reader.generation

def StoreReader.depLedger (reader : StoreReader) : EventLedger.Ledger Digest32 :=
  ⟨reader.deps.map DependencyRow.opening, reader.depClosures⟩

def StoreReader.pendingLedger (reader : StoreReader) : EventLedger.Ledger PendingSiteKey :=
  ⟨reader.pendingSites.map PendingSiteRow.opening, reader.pendingClosures⟩

structure HistoryOk (disk : Disk) (reader : StoreReader) (deps : List (Event Digest32))
    (pending : List (Event PendingSiteKey)) : Prop where
  opens : StoreReader.open disk = .ok reader
  dated : reader.Dated
  deps_run : EventLedger.Run reader.depLedger deps reader.generation
  pending_run : EventLedger.Run reader.pendingLedger pending reader.generation

section Base

variable {input : BaseInput} {ordered : List RecordRow} {seg : Segment} {manifest : Manifest}

theorem BaseInput.Built.dated (h : input.Built ordered seg) (ht : input.Timed)
    (hgen : manifest.generation = input.generation) (hdeltas : manifest.deltas = []) :
    (StoreReader.load manifest seg []).Dated where
  ids := h.idsUnique ht.ids
  rows_valid := by
    intro row hrow
    rw [h.load_rows] at hrow
    obtain ⟨orig, horig, heq⟩ := h.mem_rows hrow
    rw [heq, StoreReader.generation]
    change orig.validFrom ≤ manifest.generation ∧ orig.validTo = 0
    rw [hgen]
    exact ht.rows_valid orig horig
  closures_nodup := by simp [StoreReader.load]
  closures_rows := by simp [StoreReader.load]
  closures_after := by simp [StoreReader.load, AssocMap.get]
  deps_open := by
    intro dep hdep
    refine (ht.deps_valid dep (h.deps_perm.mem_iff.mp ?_)).2
    simpa [StoreReader.deps, StoreReader.load] using hdep
  pending_open := by
    intro site hsite
    refine (ht.pending_valid site (h.pending_perm.mem_iff.mp ?_)).2
    simpa [StoreReader.pendingSites, StoreReader.load] using hsite
  deltas_le := by simp [StoreReader.load, hdeltas]

variable [Sha256]

theorem publishBase_history {disk disk' : Disk} {roots : Roots}
    {hs : ordered.Pairwise (fun a b => a.recordId ≤ b.recordId)} (ht : input.Timed)
    (hperm : ordered.Perm input.rows)
    (h : publishBase disk input (input.sections ordered hs) = .ok (disk', roots)) :
    ∃ reader, HistoryOk disk' reader (openEvents (input.deps.map DependencyRow.opening))
      (openEvents (input.pendingSites.map PendingSiteRow.opening)) := by
  obtain ⟨seg, hbuilt, hpub, -⟩ := publishBase_spec hperm h
  refine ⟨StoreReader.load (baseManifest input.generation roots) seg [], ?_,
    hbuilt.dated ht rfl rfl,
    EventLedger.Run.start ?_ rfl ?_, EventLedger.Run.start ?_ rfl ?_⟩
  · exact open_ok_iff.mpr ⟨_, seg, [], hpub.opens, rfl⟩
  · have hdeps : (StoreReader.load (baseManifest input.generation roots) seg []).deps =
        seg.deps := by
      simp [StoreReader.deps, StoreReader.load]
    change (List.map _ (StoreReader.load (baseManifest input.generation roots) seg []).deps).Perm _
    rw [hdeps]
    exact hbuilt.deps_perm.map _
  · intro row hrow
    obtain ⟨dep, hdep, rfl⟩ := List.mem_map.mp hrow
    exact (ht.deps_valid dep hdep).1
  · have hpending : (StoreReader.load (baseManifest input.generation roots) seg []).pendingSites =
        seg.pending := by
      simp [StoreReader.pendingSites, StoreReader.load]
    change (List.map _ (StoreReader.load (baseManifest input.generation roots) seg
      []).pendingSites).Perm _
    rw [hpending]
    exact hbuilt.pending_perm.map _
  · intro row hrow
    obtain ⟨site, hsite, rfl⟩ := List.mem_map.mp hrow
    exact (ht.pending_valid site hsite).1

end Base

section Delta

variable {input : DeltaInput} {reader : StoreReader} {manifest : Manifest} {seg : Segment}

theorem DeltaInput.Timed.freshIds (ht : input.Timed reader) : input.FreshIds reader :=
  ⟨ht.opened_nodup, ht.opened_fresh⟩

theorem DeltaInput.Timed.opened_not_closed (ht : input.Timed reader) {row : RecordRow}
    (hrow : row ∈ input.opened) : row.recordId ∉ input.closures.map Prod.fst := by
  intro hmem
  obtain ⟨c, hc, hid⟩ := List.mem_map.mp hmem
  obtain ⟨-, old, hold, hold'⟩ := ht.closures_known c hc
  exact ht.opened_fresh row hrow old hold (hold'.trans hid)

theorem DeltaInput.Timed.closures_get (ht : input.Timed reader)
    (h : input.Built reader manifest seg)
    {id : Digest32} (hid : id ∈ input.closures.map Prod.fst) :
    AssocMap.get (reader.extend manifest seg).recordClosures id = some input.generation :=
  AssocMap.get_insertAll_of_const _ _ ((h.closures_perm.map _).mem_iff.mpr hid)
    (fun c hc => (ht.closures_known c (h.closures_perm.mem_iff.mp hc)).1)

theorem DeltaInput.Built.dated (h : input.Built reader manifest seg) (ht : input.Timed reader)
    (hd : reader.Dated) : (reader.extend manifest seg).Dated where
  ids := ht.freshIds.idsUnique h hd.ids
  rows_valid := by
    intro row hrow
    rw [StoreReader.extend_rows, List.mem_append] at hrow
    rw [StoreReader.extend_generation, h.manifest_generation]
    rcases hrow with hnew | hold
    · obtain ⟨orig, horig, heq⟩ := h.mem_rows hnew
      obtain ⟨hvf, hvt⟩ := ht.opened_valid orig horig
      rw [heq]
      exact ⟨hvf.le, hvt⟩
    · obtain ⟨hvf, hvt⟩ := hd.rows_valid row hold
      exact ⟨hvf.trans ht.newer.le, hvt⟩
  closures_nodup := AssocMap.nodup_insertAll hd.closures_nodup _
  closures_rows := by
    intro c hc
    rcases (AssocMap.mem_keys_insertAll _ _ _).mp (List.mem_map_of_mem hc) with hold | hnew
    · obtain ⟨c', hc', hkey⟩ := List.mem_map.mp hold
      obtain ⟨row, hrow, hid⟩ := hd.closures_rows c' hc'
      exact ⟨row,
        by rw [StoreReader.extend_rows]; exact List.mem_append_right _ hrow, hid.trans hkey⟩
    · obtain ⟨c', hc', hkey⟩ := List.mem_map.mp hnew
      obtain ⟨-, row, hrow, hid⟩ := ht.closures_known c' (h.closures_perm.mem_iff.mp hc')
      exact ⟨row,
        by rw [StoreReader.extend_rows]; exact List.mem_append_right _ hrow, hid.trans hkey⟩
  closures_after := by
    intro row hrow c hc
    rw [StoreReader.extend_rows, List.mem_append] at hrow
    by_cases hclosed : row.recordId ∈ input.closures.map Prod.fst
    · rw [ht.closures_get h hclosed] at hc
      obtain rfl := Option.some.inj hc
      rcases hrow with hnew | hold
      · obtain ⟨orig, horig, heq⟩ := h.mem_rows hnew
        rw [heq] at hclosed
        exact absurd hclosed (ht.opened_not_closed horig)
      · exact (hd.rows_valid row hold).1.trans_lt ht.newer
    · rw [h.closures_get_old _ hclosed] at hc
      rcases hrow with hnew | hold
      · obtain ⟨orig, horig, heq⟩ := h.mem_rows hnew
        obtain ⟨old, hold, hid⟩ := hd.closures_rows _ (AssocMap.mem_of_get hc)
        rw [heq] at hid
        exact absurd hid (ht.opened_fresh orig horig old hold)
      · exact hd.closures_after row hold c hc
  deps_open := by
    intro dep hdep
    rw [StoreReader.extend_deps, List.mem_append] at hdep
    rcases hdep with hnew | hold
    · exact (ht.deps_valid dep (h.deps_perm.mem_iff.mp hnew)).2
    · exact hd.deps_open dep hold
  pending_open := by
    intro site hsite
    rw [StoreReader.extend_pendingSites, List.mem_append] at hsite
    rcases hsite with hnew | hold
    · exact (ht.pending_valid site (h.pending_perm.mem_iff.mp hnew)).2
    · exact hd.pending_open site hold
  deltas_le := by
    intro g hg
    have hlist : (reader.extend manifest seg).manifest.deltas =
        reader.manifest.deltas ++ [input.generation] := h.manifest_deltas
    rw [StoreReader.extend_generation, h.manifest_generation]
    rw [hlist, List.mem_append, List.mem_singleton] at hg
    rcases hg with hold | rfl
    · exact (hd.deltas_le g hold).trans ht.newer.le
    · exact le_rfl

theorem map_opening {R K : Type} {opening : R → K × ℕ} {rows : List R} {generation : ℕ}
    (h : ∀ row ∈ rows, (opening row).2 = generation) :
    rows.map opening = (rows.map (fun row => (opening row).1)).map (fun k => (k, generation)) := by
  rw [List.map_map]
  refine List.map_congr_left (fun row hrow => ?_)
  exact Prod.ext rfl (h row hrow)

theorem DeltaInput.Built.depRun (h : input.Built reader manifest seg) (ht : input.Timed reader)
    {deps : List (Event Digest32)}
    (hrun : EventLedger.Run reader.depLedger deps reader.generation) :
    EventLedger.Run (reader.extend manifest seg).depLedger (deps ++ input.depEvents)
      (reader.extend manifest seg).generation := by
  rw [StoreReader.extend_generation, h.manifest_generation]
  refine EventLedger.Run.step hrun ht.newer ?_ ?_
  · change ((reader.extend manifest seg).deps.map DependencyRow.opening).Perm _
    rw [StoreReader.extend_deps, List.map_append]
    refine List.Perm.append_right _ ((h.deps_perm.map _).trans (List.Perm.of_eq ?_))
    exact map_opening (fun dep hdep => (ht.deps_valid dep hdep).1)
  · refine List.Perm.append_left _ (h.depsClosures_perm.trans (List.Perm.of_eq ?_))
    conv_lhs => rw [← List.map_id input.depsClosures]
    exact map_opening ht.depsClosures_at

theorem DeltaInput.Built.pendingRun (h : input.Built reader manifest seg) (ht : input.Timed reader)
    {pending : List (Event PendingSiteKey)}
    (hrun : EventLedger.Run reader.pendingLedger pending reader.generation) :
    EventLedger.Run (reader.extend manifest seg).pendingLedger (pending ++ input.pendingEvents)
      (reader.extend manifest seg).generation := by
  rw [StoreReader.extend_generation, h.manifest_generation]
  refine EventLedger.Run.step hrun ht.newer ?_ ?_
  · change ((reader.extend manifest seg).pendingSites.map PendingSiteRow.opening).Perm _
    rw [StoreReader.extend_pendingSites, List.map_append]
    refine List.Perm.append_right _ ((h.pending_perm.map _).trans (List.Perm.of_eq ?_))
    exact map_opening (fun site hsite => (ht.pending_valid site hsite).1)
  · refine List.Perm.append_left _ (h.pendingClosures_perm.trans (List.Perm.of_eq ?_))
    conv_lhs => rw [← List.map_id input.pendingClosures]
    exact map_opening ht.pendingClosures_at

theorem HistoryRun.ok [Sha256] {disk : Disk} {deps : List (Event Digest32)}
    {pending : List (Event PendingSiteKey)} (h : HistoryRun disk deps pending) :
    ∃ reader, HistoryOk disk reader deps pending := by
  induction h with
  | base timed write => exact publishBase_history timed (sortOn_perm _ _) write
  | partitioned timed write => exact publishBase_history timed (List.Perm.refl _) write
  | @delta disk disk' deps pending reader input roots before opened timed write ih =>
    obtain ⟨reader', hok⟩ := ih
    obtain rfl : reader' = reader := Except.ok.inj (hok.opens.symm.trans opened)
    have hfresh : input.generation ∉ reader'.manifest.deltas :=
      fun hmem => absurd (hok.dated.deltas_le _ hmem) (not_le.mpr timed.newer)
    obtain ⟨seg, hbuilt, hopen⟩ := open_written opened hfresh write
    exact ⟨_, hopen, hbuilt.dated timed hok.dated, hbuilt.depRun timed hok.deps_run,
      hbuilt.pendingRun timed hok.pending_run⟩

end Delta

end StructuralStore
