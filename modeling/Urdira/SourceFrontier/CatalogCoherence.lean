import Urdira.SourceFrontier.CatalogRows

open ByteOrder KeyedSet MerkleBucket

namespace SourceFrontier

def Frontier.Holds (f : Frontier) (uri : String) (c : Content) : Prop :=
  ∃ entry, (uri, entry) ∈ f.present ∧ entry.content = c

section Coherent

variable [Sha256]

structure Apart (workspaceId : String) (uris : Set String) : Prop where
  keys : KeysApart uris
  artifacts : ∀ uri ∈ uris, ∀ uri' ∈ uris, artifactId workspaceId uri =
    artifactId workspaceId uri' → uri = uri'

structure Coherent (workspaceId : String) (uris : Set String) (db : Database) (f : Frontier) :
    Prop where
  ok : f.Ok uris
  keys : db.KeysUnique
  artifacts : ∀ row ∈ db.artifacts, row.1 = artifactId workspaceId row.2
  known : ∀ uri, uri ∈ db.artifacts.map Prod.snd ↔ f.Knows uri
  presentIds : ∀ uri c, f.Holds uri c → c.artifactId = artifactId workspaceId uri
  absentIds : ∀ uri k, (uri, k) ∈ f.absent → k.artifactId = artifactId workspaceId uri
  live : ∀ c, db.Live c ↔ ∃ uri, f.Holds uri c
  buried : ∀ k, db.Buried k ↔ ∃ uri, (uri, k) ∈ f.absent

variable {workspaceId batchId : String} {generation : ℤ} {sql : Sqlite} {uris : Set String}
  {db db' : Database} {f f' : Frontier}

omit [Sha256] in
theorem holds_key {uri : String} {c : Content} (h : f.Holds uri c) :
    uri ∈ f.present.map Prod.fst := by
  obtain ⟨entry, hmem, -⟩ := h
  exact List.mem_map_of_mem hmem

omit [Sha256] in
theorem holds_insert {uri : String} {entry : FrontierEntry}
    (h : f'.present = AssocMap.insert f.present uri entry) (other : String) (c : Content) :
    f'.Holds other c ↔ (other = uri ∧ c = entry.content) ∨ (f.Holds other c ∧ other ≠ uri) := by
  unfold Frontier.Holds
  simp only [h, AssocMap.insert, List.mem_cons, List.mem_filter, decide_eq_true_eq]
  constructor
  · rintro ⟨entry', heq | ⟨hmem, hne⟩, rfl⟩
    · obtain ⟨rfl, rfl⟩ := Prod.mk.inj heq
      exact Or.inl ⟨rfl, rfl⟩
    · exact Or.inr ⟨⟨entry', hmem, rfl⟩, hne⟩
  · rintro (⟨rfl, rfl⟩ | ⟨⟨entry', hmem, rfl⟩, hne⟩)
    · exact ⟨entry, Or.inl rfl, rfl⟩
    · exact ⟨entry', Or.inr ⟨hmem, hne⟩, rfl⟩

omit [Sha256] in
theorem holds_erase {uri : String} (h : f'.present = AssocMap.erase f.present uri) (other : String)
    (c : Content) : f'.Holds other c ↔ f.Holds other c ∧ other ≠ uri := by
  unfold Frontier.Holds
  simp only [h, AssocMap.erase, List.mem_filter, decide_eq_true_eq]
  constructor
  · rintro ⟨entry, ⟨hmem, hne⟩, rfl⟩
    exact ⟨⟨entry, hmem, rfl⟩, hne⟩
  · rintro ⟨⟨entry, hmem, rfl⟩, hne⟩
    exact ⟨entry, ⟨hmem, hne⟩, rfl⟩

omit [Sha256] in
theorem live_append {db : Database} (rows : List VersionRow) (c : Content) :
    ({ db with versions := db.versions ++ rows } : Database).Live c ↔
      db.Live c ∨ ∃ row ∈ rows, row.validTo = none ∧ row.content = c := by
  unfold Database.Live
  simp only [List.mem_append, or_and_right, exists_or]

omit [Sha256] in
theorem buried_append {db : Database} (row : TombstoneRow) (hopen : row.validTo = none)
    (k : TombstoneEntry) :
    ({ db with tombstones := db.tombstones ++ [row] } : Database).Buried k ↔
      db.Buried k ∨ k = row.entry := by
  unfold Database.Buried
  simp only [List.mem_append, List.mem_singleton, or_and_right, exists_or, exists_eq_left,
    hopen, true_and]
  rw [eq_comm (a := row.entry)]

namespace Coherent

theorem uri_of_version (h : Coherent workspaceId uris db f) (hapart : Apart workspaceId uris)
    {uri uri' : String} {c c' : Content} (hc : f.Holds uri c) (hc' : f.Holds uri' c')
    (hid : c.artifactVersionId = c'.artifactVersionId) : uri = uri' := by
  have hsame : c = c' := Database.live_unique h.keys ((h.live c).mpr ⟨uri, hc⟩)
    ((h.live c').mpr ⟨uri', hc'⟩) hid
  refine hapart.artifacts uri (h.ok.presentUris uri (holds_key hc)) uri'
    (h.ok.presentUris uri' (holds_key hc')) ?_
  rw [← h.presentIds uri c hc, ← h.presentIds uri' c' hc', hsame]

theorem uri_of_tombstone (h : Coherent workspaceId uris db f) (hapart : Apart workspaceId uris)
    {uri uri' : String} {k k' : TombstoneEntry} (hk : (uri, k) ∈ f.absent)
    (hk' : (uri', k') ∈ f.absent)
    (hid : k.artifactTombstoneId = k'.artifactTombstoneId) : uri = uri' := by
  have hsame : k = k' := Database.buried_unique h.keys ((h.buried k).mpr ⟨uri, hk⟩)
    ((h.buried k').mpr ⟨uri', hk'⟩) hid
  refine hapart.artifacts uri (h.ok.absentUris uri (List.mem_map_of_mem hk)) uri'
    (h.ok.absentUris uri' (List.mem_map_of_mem hk')) ?_
  rw [← h.absentIds uri k hk, ← h.absentIds uri' k' hk', hsame]

theorem holds_other_version (h : Coherent workspaceId uris db f) (hapart : Apart workspaceId uris)
    {uri : String} {prior : FrontierEntry} (hprior : (uri, prior) ∈ f.present) {other : String}
    {c : Content} :
    f.Holds other c ∧ c.artifactVersionId ≠ prior.artifactVersionId ↔ f.Holds other c ∧
      other ≠ uri := by
  refine and_congr_right (fun hc => not_congr ⟨?_, ?_⟩)
  · exact h.uri_of_version hapart hc ⟨prior, hprior, rfl⟩
  · rintro rfl
    obtain ⟨entry, hmem, rfl⟩ := hc
    have hget := AssocMap.get_of_mem h.ok.presentKeys hmem
    rw [AssocMap.get_of_mem h.ok.presentKeys hprior] at hget
    rw [Option.some.inj hget]
    rfl

theorem buried_other_tombstone (h : Coherent workspaceId uris db f)
    (hapart : Apart workspaceId uris)
    {uri : String} {prior : TombstoneEntry} (hprior : (uri, prior) ∈ f.absent) {other : String}
    {k : TombstoneEntry} :
    (other, k) ∈ f.absent ∧ k.artifactTombstoneId ≠ prior.artifactTombstoneId ↔
      (other, k) ∈ f.absent ∧ other ≠ uri := by
  refine and_congr_right (fun hk => not_congr ⟨?_, ?_⟩)
  · exact h.uri_of_tombstone hapart hk hprior
  · rintro rfl
    have hget := AssocMap.get_of_mem h.ok.absentKeys hk
    rw [AssocMap.get_of_mem h.ok.absentKeys hprior] at hget
    rw [Option.some.inj hget]

theorem knows_uri (h : Coherent workspaceId uris db f) {uri : String} (hknows : f.Knows uri) :
    uri ∈ uris :=
  hknows.elim (h.ok.presentUris uri) (h.ok.absentUris uri)

end Coherent

section Rows

omit [Sha256] in
theorem closeVersion_ok {id : String} (h : sql.execute db (.closeVersion id generation) = .ok db')
    (hkeys : db.KeysUnique) :
    db'.KeysUnique ∧ db'.artifacts = db.artifacts ∧ (∀ k, db'.Buried k ↔ db.Buried k) ∧
      ∀ c, db'.Live c ↔ db.Live c ∧ c.artifactVersionId ≠ id := by
  obtain rfl := Except.ok.inj (execute_ok h)
  refine ⟨⟨?_, hkeys.tombstones⟩, rfl, fun k => Iff.rfl,
    fun c => db.live_closeVersion id generation⟩
  rw [Database.updateVersions_ids]
  · exact hkeys.versions
  · exact fun row => rfl

omit [Sha256] in
theorem closeTombstone_ok {id closing replacement : String}
    (h : sql.execute db (.closeTombstone id generation closing replacement) = .ok db')
    (hkeys : db.KeysUnique) :
    db'.KeysUnique ∧ db'.artifacts = db.artifacts ∧ (∀ c, db'.Live c ↔ db.Live c) ∧
      ∀ k, db'.Buried k ↔ db.Buried k ∧ k.artifactTombstoneId ≠ id := by
  obtain rfl := Except.ok.inj (execute_ok h)
  refine ⟨⟨hkeys.versions, ?_⟩, rfl, fun c => Iff.rfl, fun k => db.buried_closeTombstone id⟩
  rw [Database.updateTombstones_ids]
  · exact hkeys.tombstones
  · exact fun row => rfl

omit [Sha256] in
theorem insertVersion_rows_ok {rows : List VersionRow}
    (h : sql.execute db (.insertVersions rows) = .ok db')
    (hopen : ∀ row ∈ rows, row.validTo = none) (hkeys : db.KeysUnique) :
    db'.KeysUnique ∧ db'.artifacts = db.artifacts ∧ (∀ k, db'.Buried k ↔ db.Buried k) ∧
      ∀ c, db'.Live c ↔ db.Live c ∨ ∃ row ∈ rows, row.content = c := by
  obtain ⟨hkeys', rfl⟩ := Database.insertVersions_ok (execute_ok h) hkeys
  refine ⟨hkeys', rfl, fun k => Iff.rfl, fun c => (live_append rows c).trans (or_congr_right ?_)⟩
  exact exists_congr (fun row => and_congr_right (fun hrow => and_iff_right (hopen row hrow)))

theorem changedRows_split {artifactId : String} {present : Option FrontierEntry}
    {tombstone : Option TombstoneEntry} {o : Observation}
    (h : changedRows sql batchId generation db artifactId present tombstone o = .ok db') :
    ∃ db₁ db₂, present.elim (.ok db) (fun entry =>
        sql.execute db (.closeVersion entry.artifactVersionId generation)) = .ok db₁ ∧
      sql.execute db₁ (.insertVersions [versionRow batchId generation artifactId o]) = .ok db₂ ∧
      tombstone.elim (.ok db₂) (fun entry =>
        sql.execute db₂ (.closeTombstone entry.artifactTombstoneId
        generation (artifactChangeId "recreated" batchId artifactId)
        (versionRow batchId generation artifactId o).artifactVersionId)) = .ok db' := by
  have hbind : ∃ db₁, present.elim (.ok db) (fun entry =>
      sql.execute db (.closeVersion entry.artifactVersionId generation)) = .ok db₁ ∧
      changedRows sql batchId generation db₁ artifactId none tombstone o = .ok db' := by
    cases present with
    | none => exact ⟨db, rfl, h⟩
    | some entry => exact ExceptOk.bind_eq_ok h
  obtain ⟨db₁, hclose, hrest⟩ := hbind
  obtain ⟨_, hnone, hafterClose⟩ := ExceptOk.bind_eq_ok hrest
  obtain rfl := Except.ok.inj hnone
  obtain ⟨db₂, hobservations, hafterObservations⟩ := ExceptOk.bind_eq_ok hafterClose
  obtain ⟨db₃, hblobs, hafterBlobs⟩ := ExceptOk.bind_eq_ok hafterObservations
  obtain ⟨db₄, hversions, hafterVersions⟩ := ExceptOk.bind_eq_ok hafterBlobs
  obtain rfl := Except.ok.inj (execute_ok hobservations)
  obtain rfl := Except.ok.inj (execute_ok hblobs)
  refine ⟨db₁, db₄, hclose, hversions, ?_⟩
  cases tombstone with
  | none => exact hafterVersions
  | some entry => exact hafterVersions

theorem changedRows_ok {artifactId : String} {present : Option FrontierEntry}
    {tombstone : Option TombstoneEntry} {o : Observation}
    (h : changedRows sql batchId generation db artifactId present tombstone o = .ok db')
    (hkeys : db.KeysUnique) :
    db'.KeysUnique ∧ db'.artifacts = db.artifacts ∧
      (∀ c, db'.Live c ↔ (db.Live c ∧ ∀ e ∈ present, c.artifactVersionId ≠ e.artifactVersionId) ∨
        c = (versionRow batchId generation artifactId o).content) ∧
      ∀ k, db'.Buried k ↔ db.Buried k ∧ ∀ e ∈ tombstone,
        k.artifactTombstoneId ≠ e.artifactTombstoneId := by
  obtain ⟨db₁, db₄, hclose, hversions, h⟩ := changedRows_split h
  have hclosed : db₁.KeysUnique ∧ db₁.artifacts = db.artifacts ∧ (∀ k, db₁.Buried k ↔ db.Buried k) ∧
      ∀ c, db₁.Live c ↔ db.Live c ∧ ∀ e ∈ present, c.artifactVersionId ≠ e.artifactVersionId := by
    cases present with
    | none =>
      obtain rfl := Except.ok.inj hclose
      exact ⟨hkeys, rfl, fun k => Iff.rfl, fun c => by simp⟩
    | some entry => simpa using closeVersion_ok hclose hkeys
  obtain ⟨hkeys₁, hartifacts₁, hburied₁, hlive₁⟩ := hclosed
  obtain ⟨hkeys₄, hartifacts₄, hburied₄, hlive₄⟩ := insertVersion_rows_ok hversions
    (fun row hrow => by rw [List.mem_singleton.mp hrow]; rfl) hkeys₁
  have hlive : ∀ c, db₄.Live c ↔
      (db.Live c ∧ ∀ e ∈ present, c.artifactVersionId ≠ e.artifactVersionId) ∨
        c = (versionRow batchId generation artifactId o).content := by
    intro c
    rw [hlive₄, hlive₁]
    simp [eq_comm]
  have hburied : ∀ k, db₄.Buried k ↔ db.Buried k := fun k => (hburied₄ k).trans (hburied₁ k)
  cases tombstone with
  | none =>
    obtain rfl := Except.ok.inj h
    exact ⟨hkeys₄, hartifacts₄.trans hartifacts₁, hlive, fun k => by simp [hburied]⟩
  | some entry =>
    obtain ⟨hkeys₅, hartifacts₅, hlive₅, hburied₅⟩ := closeTombstone_ok h hkeys₄
    refine ⟨hkeys₅, hartifacts₅.trans (hartifacts₄.trans hartifacts₁), ?_, ?_⟩
    · exact fun c => (hlive₅ c).trans (hlive c)
    · exact fun k => by simp [hburied₅, hburied]

theorem deletedRows_ok {prior : FrontierEntry}
    (h : deletedRows sql batchId generation db prior = .ok db') (hkeys : db.KeysUnique) :
    db'.KeysUnique ∧ db'.artifacts = db.artifacts ∧
      (∀ c, db'.Live c ↔ db.Live c ∧ c.artifactVersionId ≠ prior.artifactVersionId) ∧
      ∀ k, db'.Buried k ↔ db.Buried k ∨
        k = ⟨prior.artifactId, artifactTombstoneId prior.artifactId batchId "deleted"⟩ := by
  unfold deletedRows at h
  obtain ⟨db₁, hclose, h⟩ := ExceptOk.bind_eq_ok h
  obtain ⟨hkeys₁, hartifacts₁, hburied₁, hlive₁⟩ := closeVersion_ok hclose hkeys
  obtain ⟨hkeys₂, rfl⟩ := Database.insertTombstone_ok (execute_ok h) hkeys₁
  refine ⟨hkeys₂, hartifacts₁, hlive₁, fun k => ?_⟩
  rw [buried_append _ rfl, hburied₁]
  rfl

theorem insertArtifact_ok (hapart : Apart workspaceId uris) {uri : String} (huri : uri ∈ uris)
    (hartifacts : ∀ row ∈ db.artifacts, row.1 = artifactId workspaceId row.2)
    (hin : ∀ row ∈ db.artifacts, row.2 ∈ uris) :
    let db' := db.insertArtifact (artifactId workspaceId uri, uri)
    (∀ row ∈ db'.artifacts, row.1 = artifactId workspaceId row.2) ∧
      (∀ row ∈ db'.artifacts, row.2 ∈ uris) ∧ db' = { db with artifacts := db'.artifacts } ∧
      ∀ other, other ∈ db'.artifacts.map Prod.snd ↔ other ∈ db.artifacts.map Prod.snd ∨
        other = uri := by
  simp only [Database.insertArtifact]
  split
  · next hseen =>
    refine ⟨hartifacts, hin, rfl, fun other => (or_iff_left_of_imp ?_).symm⟩
    rintro rfl
    rcases hseen with hid | hsame
    · obtain ⟨row, hrow, heq⟩ := List.mem_map.mp hid
      have hrowUri : row.2 = other := hapart.artifacts row.2 (hin row hrow) other huri
        ((hartifacts row hrow).symm.trans heq)
      exact List.mem_map.mpr ⟨row, hrow, hrowUri⟩
    · exact hsame
  · refine ⟨?_, ?_, rfl, fun other => by simp⟩
    · intro row hrow
      rcases List.mem_append.mp hrow with hrow | hrow
      · exact hartifacts row hrow
      · rw [List.mem_singleton.mp hrow]
    · intro row hrow
      rcases List.mem_append.mp hrow with hrow | hrow
      · exact hin row hrow
      · rw [List.mem_singleton.mp hrow]
        exact huri

theorem insertArtifacts_ok (hapart : Apart workspaceId uris) {added : List String}
    (hadded : ∀ uri ∈ added, uri ∈ uris)
    (hartifacts : ∀ row ∈ db.artifacts, row.1 = artifactId workspaceId row.2)
    (hin : ∀ row ∈ db.artifacts, row.2 ∈ uris) :
    let db' :=
  (added.map (fun uri => (artifactId workspaceId uri, uri))).foldl Database.insertArtifact db
    (∀ row ∈ db'.artifacts, row.1 = artifactId workspaceId row.2) ∧
      db' = { db with artifacts := db'.artifacts } ∧
      ∀ other, other ∈ db'.artifacts.map Prod.snd ↔ other ∈ db.artifacts.map Prod.snd ∨
        other ∈ added := by
  induction added generalizing db with
  | nil => exact ⟨hartifacts, rfl, fun other => by simp⟩
  | cons uri added ih =>
    obtain ⟨hartifacts₁, hin₁, hdb₁, hkeys₁⟩ :=
      insertArtifact_ok hapart (hadded uri (by simp)) hartifacts hin
    obtain ⟨hartifacts₂, hdb₂, hkeys₂⟩ :=
      ih (fun uri' h => hadded uri' (by simp [h])) hartifacts₁ hin₁
    refine ⟨hartifacts₂, ?_, ?_⟩
    · rw [List.map_cons, List.foldl_cons, hdb₂, hdb₁]
    · intro other
      rw [List.map_cons, List.foldl_cons, hkeys₂, hkeys₁, List.mem_cons, or_assoc]

theorem addedRows_ok (hapart : Apart workspaceId uris) {observations : List Observation}
    (hadded : ∀ o ∈ observations, o.normalizedUri ∈ uris)
    (h : addedRows sql workspaceId batchId generation db observations = .ok db')
    (hkeys : db.KeysUnique)
    (hartifacts : ∀ row ∈ db.artifacts, row.1 = artifactId workspaceId row.2)
    (hin : ∀ row ∈ db.artifacts, row.2 ∈ uris) :
    db'.KeysUnique ∧ (∀ row ∈ db'.artifacts, row.1 = artifactId workspaceId row.2) ∧
      (∀ uri, uri ∈ db'.artifacts.map Prod.snd ↔ uri ∈ db.artifacts.map Prod.snd ∨
        ∃ o ∈ observations, uri = o.normalizedUri) ∧
      (∀ k, db'.Buried k ↔ db.Buried k) ∧
      ∀ c, db'.Live c ↔ db.Live c ∨ ∃ o ∈ observations,
        c = (versionRow batchId generation (artifactId workspaceId o.normalizedUri) o).content := by
  unfold addedRows at h
  obtain ⟨db₁, hinserted, h⟩ := ExceptOk.bind_eq_ok h
  obtain ⟨db₂, hobservations, h⟩ := ExceptOk.bind_eq_ok h
  obtain ⟨db₃, hblobs, h⟩ := ExceptOk.bind_eq_ok h
  obtain rfl := Except.ok.inj (execute_ok hobservations)
  obtain rfl := Except.ok.inj (execute_ok hblobs)
  have hdb₁ := Except.ok.inj (execute_ok hinserted)
  have hmap :
      observations.map (fun o => (artifactId workspaceId o.normalizedUri, o.normalizedUri)) =
      (observations.map Observation.normalizedUri).map
        (fun uri => (artifactId workspaceId uri, uri)) := by
    rw [List.map_map]
    rfl
  have huris : ∀ uri ∈ observations.map Observation.normalizedUri, uri ∈ uris := by
    simpa using hadded
  obtain ⟨hartifacts₁, hsame₁, huris₁⟩ := insertArtifacts_ok hapart huris hartifacts hin
  rw [← hmap, hdb₁] at hartifacts₁ hsame₁ huris₁
  have hkeys₁ : db₁.KeysUnique := by
    rw [hsame₁]
    exact ⟨hkeys.versions, hkeys.tombstones⟩
  obtain ⟨hkeys', hartifacts', hburied, hlive⟩ := insertVersion_rows_ok h
    (by
      intro row hrow
      obtain ⟨o, -, rfl⟩ := List.mem_map.mp hrow
      rfl) hkeys₁
  refine ⟨hkeys', hartifacts' ▸ hartifacts₁, ?_, ?_, ?_⟩
  · intro uri
    rw [hartifacts', huris₁]
    simp [eq_comm]
  · intro k
    rw [hburied, hsame₁]
    rfl
  · intro c
    rw [hlive, hsame₁]
    refine or_congr Iff.rfl ?_
    simp [eq_comm]

end Rows

end Coherent

end SourceFrontier
