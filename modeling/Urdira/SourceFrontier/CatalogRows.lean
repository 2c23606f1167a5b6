import Urdira.SourceFrontier.Delta
import Urdira.SourceFrontier.FrontierTrees

open ByteOrder KeyedSet MerkleBucket

namespace SourceFrontier

structure Content where
  artifactId : String
  artifactVersionId : String
  contentHash : String
  byteLength : ℕ
  metadataDigest : String
  deriving DecidableEq

def VersionRow.content (row : VersionRow) : Content :=
  ⟨row.artifactId, row.artifactVersionId, row.contentHash, row.byteLength, row.metadataDigest⟩

def FrontierEntry.content (entry : FrontierEntry) : Content :=
  ⟨entry.artifactId, entry.artifactVersionId, entry.contentHash, entry.byteLength,
    entry.metadataDigest⟩

def TombstoneRow.entry (row : TombstoneRow) : TombstoneEntry :=
  ⟨row.artifactId, row.artifactTombstoneId⟩

namespace Database

def Live (db : Database) (c : Content) : Prop :=
  ∃ row ∈ db.versions, row.validTo = none ∧ row.content = c

def Buried (db : Database) (tombstone : TombstoneEntry) : Prop :=
  ∃ row ∈ db.tombstones, row.validTo = none ∧ row.entry = tombstone

structure KeysUnique (db : Database) : Prop where
  versions : (db.versions.map VersionRow.artifactVersionId).Nodup
  tombstones : (db.tombstones.map TombstoneRow.artifactTombstoneId).Nodup

theorem live_unique {db : Database} (h : db.KeysUnique) {c c' : Content} (hc : db.Live c)
    (hc' : db.Live c') (hid : c.artifactVersionId = c'.artifactVersionId) : c = c' := by
  obtain ⟨row, hrow, -, rfl⟩ := hc
  obtain ⟨row', hrow', -, rfl⟩ := hc'
  rw [List.inj_on_of_nodup_map h.versions hrow hrow' hid]

theorem buried_unique {db : Database} (h : db.KeysUnique) {k k' : TombstoneEntry} (hk : db.Buried k)
    (hk' : db.Buried k') (hid : k.artifactTombstoneId = k'.artifactTombstoneId) : k = k' := by
  obtain ⟨row, hrow, -, rfl⟩ := hk
  obtain ⟨row', hrow', -, rfl⟩ := hk'
  rw [List.inj_on_of_nodup_map h.tombstones hrow hrow' hid]

section Updates

variable (db : Database) (id : String)

theorem live_updateVersions {set : VersionRow → VersionRow} {c : Content} :
    (db.updateVersions id set).Live c ↔
      (db.Live c ∧ c.artifactVersionId ≠ id) ∨
        ∃ row ∈ db.versions, row.validTo = none ∧ row.artifactVersionId = id ∧
          (set row).validTo = none ∧ (set row).content = c := by
  constructor
  · rintro ⟨row', hrow', hopen, rfl⟩
    obtain ⟨row, hrow, rfl⟩ := List.mem_map.mp hrow'
    split at hopen
    · next hmatch =>
      rw [if_pos hmatch]
      exact Or.inr ⟨row, hrow, hmatch.2, hmatch.1, hopen, rfl⟩
    · next hmatch =>
      rw [if_neg hmatch]
      exact Or.inl ⟨⟨row, hrow, hopen, rfl⟩, fun hid => hmatch ⟨hid, hopen⟩⟩
  · rintro (⟨⟨row, hrow, hopen, rfl⟩, hne⟩ | ⟨row, hrow, hopen, hid, hset, rfl⟩)
    · refine ⟨row, List.mem_map.mpr ⟨row, hrow, if_neg (fun h => hne h.1)⟩, hopen, rfl⟩
    · exact ⟨set row, List.mem_map.mpr ⟨row, hrow, if_pos ⟨hid, hopen⟩⟩, hset, rfl⟩

theorem updateVersions_ids {set : VersionRow → VersionRow}
    (hset : ∀ row, (set row).artifactVersionId = row.artifactVersionId) :
    (db.updateVersions id set).versions.map VersionRow.artifactVersionId =
      db.versions.map VersionRow.artifactVersionId := by
  rw [updateVersions, List.map_map]
  refine List.map_congr_left (fun row _ => ?_)
  simp only [Function.comp_apply]
  split
  · exact hset row
  · rfl

theorem live_closeVersion (generation : ℤ) {c : Content} :
    (db.updateVersions id (fun row => { row with validTo := some generation })).Live c ↔
      db.Live c ∧ c.artifactVersionId ≠ id := by
  rw [live_updateVersions]
  refine or_iff_left ?_
  rintro ⟨row, -, -, -, hopen, -⟩
  cases hopen

theorem live_refreshMetadata (metadataDigest : String) {c : Content} :
    (db.updateVersions id (fun row => { row with metadataDigest })).Live c ↔
      ∃ c', db.Live c' ∧ c = if c'.artifactVersionId = id then { c' with metadataDigest }
        else c' := by
  rw [live_updateVersions]
  constructor
  · rintro (⟨hlive, hne⟩ | ⟨row, hrow, hopen, hid, -, rfl⟩)
    · exact ⟨c, hlive, by rw [if_neg hne]⟩
    · refine ⟨row.content, ⟨row, hrow, hopen, rfl⟩, ?_⟩
      rw [if_pos (by exact hid)]
      rfl
  · rintro ⟨c', ⟨row, hrow, hopen, rfl⟩, rfl⟩
    by_cases hid : row.artifactVersionId = id
    · rw [if_pos (by exact hid)]
      exact Or.inr ⟨row, hrow, hopen, hid, hopen, rfl⟩
    · rw [if_neg (by exact hid)]
      exact Or.inl ⟨⟨row, hrow, hopen, rfl⟩, hid⟩

theorem buried_closeTombstone {generation : ℤ} {closing replacement : Option String}
    {k : TombstoneEntry} :
    (db.updateTombstones id (fun row =>
      { row with
        validTo := some generation
        closingArtifactChangeId := closing
        replacementArtifactVersionId := replacement })).Buried k ↔
      db.Buried k ∧ k.artifactTombstoneId ≠ id := by
  constructor
  · rintro ⟨row', hrow', hopen, rfl⟩
    obtain ⟨row, hrow, rfl⟩ := List.mem_map.mp hrow'
    split at hopen
    · cases hopen
    · next hmatch =>
      rw [if_neg hmatch]
      exact ⟨⟨row, hrow, hopen, rfl⟩, fun hid => hmatch ⟨hid, hopen⟩⟩
  · rintro ⟨⟨row, hrow, hopen, rfl⟩, hne⟩
    exact ⟨row, List.mem_map.mpr ⟨row, hrow, if_neg (fun h => hne h.1)⟩, hopen, rfl⟩

theorem updateTombstones_ids {set : TombstoneRow → TombstoneRow}
    (hset : ∀ row, (set row).artifactTombstoneId = row.artifactTombstoneId) :
    (db.updateTombstones id set).tombstones.map TombstoneRow.artifactTombstoneId =
      db.tombstones.map TombstoneRow.artifactTombstoneId := by
  rw [updateTombstones, List.map_map]
  refine List.map_congr_left (fun row _ => ?_)
  simp only [Function.comp_apply]
  split
  · exact hset row
  · rfl

end Updates

theorem insertVersion_ok {db db' : Database} {row : VersionRow}
    (h : db.insertVersion row = .ok db') :
    row.artifactVersionId ∉ db.versions.map VersionRow.artifactVersionId ∧
      db' = { db with versions := db.versions ++ [row] } := by
  unfold insertVersion at h
  split at h
  · cases h
  · split at h
    · cases h
    · next hfresh => exact ⟨hfresh, (Except.ok.inj h).symm⟩

theorem insertVersions_ok {db db' : Database} {rows : List VersionRow}
    (h : rows.foldlM insertVersion db = .ok db') (hkeys : db.KeysUnique) :
    db'.KeysUnique ∧ db' = { db with versions := db.versions ++ rows } := by
  induction rows generalizing db with
  | nil =>
    obtain rfl := Except.ok.inj h
    exact ⟨hkeys, by simp⟩
  | cons row rows ih =>
    rw [List.foldlM_cons] at h
    obtain ⟨db₁, hrow, hrows⟩ := ExceptOk.bind_eq_ok h
    obtain ⟨hfresh, rfl⟩ := insertVersion_ok hrow
    obtain ⟨hkeys', rfl⟩ := ih hrows ⟨by
      simp only [List.map_append, List.map_singleton]
      exact List.nodup_append.mpr ⟨hkeys.versions, List.nodup_singleton _,
        fun a ha b hb hab => hfresh (by rwa [← List.mem_singleton.mp hb, ← hab])⟩, hkeys.tombstones⟩
    exact ⟨hkeys', by simp⟩

theorem insertTombstone_ok {db db' : Database} {row : TombstoneRow}
    (h : db.insertTombstone row = .ok db')
    (hkeys : db.KeysUnique) :
    db'.KeysUnique ∧ db' = { db with tombstones := db.tombstones ++ [row] } := by
  unfold insertTombstone at h
  split at h
  · cases h
  · next hfresh =>
    obtain rfl := Except.ok.inj h
    refine ⟨⟨hkeys.versions, ?_⟩, rfl⟩
    simp only [List.map_append, List.map_singleton]
    exact List.nodup_append.mpr ⟨hkeys.tombstones, List.nodup_singleton _,
      fun a ha b hb hab => hfresh (by rwa [← List.mem_singleton.mp hb, ← hab])⟩

end Database

theorem execute_ok {sql : Sqlite} {db db' : Database} {statement : Statement}
    (h : sql.execute db statement = .ok db') : db.perform statement = .ok db' := by
  unfold Sqlite.execute at h
  cases hrefused : sql.refuses db statement with
  | some message =>
    simp only [hrefused] at h
    cases h
  | none =>
    simp only [hrefused] at h
    cases hperform : db.perform statement with
    | error message =>
      simp only [hperform] at h
      cases h
    | ok db'' =>
      simp only [hperform] at h
      exact congrArg Except.ok (Except.ok.inj h)

end SourceFrontier
