import Urdira.SourceFrontier.CatalogCoherence

open ByteOrder Chunks KeyedSet MerkleBucket

namespace SourceFrontier

section Steps

variable [Sha256] {workspaceId batchId : String} {generation : ℤ} {sql : Sqlite} {uris : Set String}
  {db db' : Database} {f f' : Frontier} {t t' : Transaction}

omit [Sha256] in
theorem executeAll_ok {result : Except Fault Database} (h : t.executeAll result = .ok t') :
    ∃ db, result = .ok db ∧ t' = { t with db } := by
  cases result with
  | error fault => cases h
  | ok db => exact ⟨db, rfl, (Except.ok.inj h).symm⟩

omit [Sha256] in
theorem update_eq_ok {result : Except Failure Frontier} (h : t.update result = .ok t') :
    ∃ frontier, result = .ok frontier ∧ t' = { t with frontier } := by
  cases result with
  | error failure => cases h
  | ok frontier => exact ⟨frontier, rfl, (Except.ok.inj h).symm⟩

omit [Sha256] in
theorem mem_present_iff {uri : String} : uri ∈ f.present.map Prod.fst ↔ ∃ c, f.Holds uri c := by
  constructor
  · intro hmem
    obtain ⟨⟨key, entry⟩, hentry, rfl⟩ := List.mem_map.mp hmem
    exact ⟨entry.content, entry, hentry, rfl⟩
  · rintro ⟨c, hc⟩
    exact holds_key hc

theorem Frontier.Ok.withOrdinal (hf : f.Ok uris) (nextOrdinal : ℕ) :
    ({ f with nextOrdinal } : Frontier).Ok uris :=
  ⟨hf.presentKeys, hf.absentKeys, hf.apart, hf.presentUris, hf.absentUris, hf.decodes,
    hf.presentTracks,
    hf.absentTracks⟩

theorem recordPresent_ok (hapart : KeysApart uris) (hf : f.Ok uris) {artifactId : String}
    {o : Observation}
    (huri : o.normalizedUri ∈ uris) (h : recordPresent batchId generation f artifactId o = .ok f') :
    f'.Ok uris ∧ f'.absent = AssocMap.erase f.absent o.normalizedUri ∧
      ∀ uri c, f'.Holds uri c ↔
        (uri = o.normalizedUri ∧ c = (versionRow batchId generation artifactId o).content) ∨
          (f.Holds uri c ∧ uri ≠ o.normalizedUri) := by
  obtain ⟨hok, hpresent, habsent, -⟩ :=
    Frontier.ok_setPresent hapart (hf.withOrdinal (f.nextOrdinal + 1)) huri h
  exact ⟨hok, habsent, fun uri c => holds_insert (f := f) hpresent uri c⟩

theorem recordAdded_ok (hapart : KeysApart uris) {observations : List Observation} (hf : f.Ok uris)
    (huris : ∀ o ∈ observations, o.normalizedUri ∈ uris)
    (hnew : ∀ o ∈ observations, ¬ f.Knows o.normalizedUri)
    (hnodup : (observations.map Observation.normalizedUri).Nodup)
    (h : recordAdded workspaceId batchId generation f observations = .ok f') :
    f'.Ok uris ∧ f'.absent = f.absent ∧
      ∀ uri c, f'.Holds uri c ↔ f.Holds uri c ∨ ∃ o ∈ observations, uri = o.normalizedUri ∧
        c = (versionRow batchId generation (artifactId workspaceId o.normalizedUri) o).content := by
  induction observations generalizing f with
  | nil =>
    obtain rfl := Except.ok.inj h
    exact ⟨hf, rfl, fun uri c => by simp⟩
  | cons o observations ih =>
    rw [recordAdded] at h
    obtain ⟨f₁, hfirst, hrest⟩ := ExceptOk.bind_eq_ok h
    obtain ⟨hok₁, habsent₁, hholds₁⟩ := recordPresent_ok hapart hf (huris o (by simp)) hfirst
    have hfresh : ¬ f.Knows o.normalizedUri := hnew o (by simp)
    have hsame : f₁.absent = f.absent :=
      habsent₁.trans (AssocMap.erase_of_notMem (fun hmem => hfresh (Or.inr hmem)))
    rw [List.map_cons, List.nodup_cons] at hnodup
    have hnew₁ : ∀ o' ∈ observations, ¬ f₁.Knows o'.normalizedUri := by
      rintro o' ho' (hpresent | habsent)
      · obtain ⟨c, hc⟩ := mem_present_iff.mp hpresent
        rcases (hholds₁ _ _).mp hc with ⟨heq, -⟩ | ⟨hc, -⟩
        · exact hnodup.1 (heq ▸ List.mem_map_of_mem ho')
        · exact hnew o' (by simp [ho']) (Or.inl (mem_present_iff.mpr ⟨c, hc⟩))
      · exact hnew o' (by simp [ho']) (Or.inr (hsame ▸ habsent))
    obtain ⟨hok, habsent, hholds⟩ :=
      ih hok₁ (fun o' ho' => huris o' (by simp [ho'])) hnew₁ hnodup.2 hrest
    refine ⟨hok, habsent.trans hsame, fun uri c => ?_⟩
    rw [hholds, hholds₁]
    constructor
    · rintro ((⟨rfl, rfl⟩ | ⟨hc, -⟩) | ⟨o', ho', heq⟩)
      · exact Or.inr ⟨o, by simp, rfl, rfl⟩
      · exact Or.inl hc
      · exact Or.inr ⟨o', by simp [ho'], heq⟩
    · rintro (hc | ⟨o', ho', heq⟩)
      · refine Or.inl (Or.inr ⟨hc, ?_⟩)
        rintro rfl
        exact hfresh (Or.inl (holds_key hc))
      · rcases List.mem_cons.mp ho' with rfl | ho'
        · exact Or.inl (Or.inl heq)
        · exact Or.inr ⟨o', ho', heq⟩

namespace Coherent

theorem insertAddedBatch (hapart : Apart workspaceId uris) {observations : List Observation}
    (h : Coherent workspaceId uris t.db t.frontier)
    (huris : ∀ o ∈ observations, o.normalizedUri ∈ uris)
    (hnew : ∀ o ∈ observations, ¬ t.frontier.Knows o.normalizedUri)
    (hnodup : (observations.map Observation.normalizedUri).Nodup)
    (hrun : insertAddedBatch sql workspaceId batchId generation t observations = .ok t') :
    Coherent workspaceId uris t'.db t'.frontier ∧ ∀ uri, t'.frontier.Knows uri ↔
      t.frontier.Knows uri ∨ ∃ o ∈ observations, uri = o.normalizedUri := by
  unfold SourceFrontier.insertAddedBatch at hrun
  split at hrun
  · next hempty =>
    obtain rfl := Except.ok.inj hrun
    obtain rfl := List.isEmpty_iff.mp hempty
    exact ⟨h, fun uri => by simp⟩
  · obtain ⟨t₁, hrows, hrecord⟩ := ExceptOk.bind_eq_ok hrun
    obtain ⟨db, hdb, rfl⟩ := executeAll_ok hrows
    obtain ⟨f, hf, rfl⟩ := update_eq_ok hrecord
    have hin : ∀ row ∈ t.db.artifacts, row.2 ∈ uris :=
      fun row hrow => h.knows_uri ((h.known row.2).mp (List.mem_map_of_mem hrow))
    obtain ⟨hkeys, hartifacts, hknown, hburied, hlive⟩ :=
      addedRows_ok hapart huris hdb h.keys h.artifacts hin
    obtain ⟨hok, habsent, hholds⟩ := recordAdded_ok hapart.keys h.ok huris hnew hnodup hf
    have hknows : ∀ uri, f.Knows uri ↔ t.frontier.Knows uri ∨ ∃ o ∈ observations,
        uri = o.normalizedUri := by
      intro uri
      unfold Frontier.Knows
      rw [mem_present_iff, mem_present_iff, habsent]
      simp only [hholds, exists_or]
      constructor
      · rintro ((hc | ⟨c, o, ho, heq, -⟩) | ha)
        · exact Or.inl (Or.inl hc)
        · exact Or.inr ⟨o, ho, heq⟩
        · exact Or.inl (Or.inr ha)
      · rintro ((hc | ha) | ⟨o, ho, heq⟩)
        · exact Or.inl (Or.inl hc)
        · exact Or.inr ha
        · exact Or.inl (Or.inr ⟨_, o, ho, heq, rfl⟩)
    refine ⟨⟨hok, hkeys, hartifacts, ?_, ?_, ?_, ?_, ?_⟩, hknows⟩
    · intro uri
      rw [hknown, h.known, hknows]
    · intro uri c hc
      rcases (hholds uri c).mp hc with hc | ⟨o, -, rfl, rfl⟩
      · exact h.presentIds uri c hc
      · rfl
    · exact fun uri k hk => h.absentIds uri k (habsent ▸ hk)
    · intro c
      rw [hlive, h.live]
      simp only [hholds, exists_or]
      refine or_congr Iff.rfl ⟨?_, ?_⟩
      · rintro ⟨o, ho, rfl⟩
        exact ⟨_, o, ho, rfl, rfl⟩
      · rintro ⟨_, o, ho, -, rfl⟩
        exact ⟨o, ho, rfl⟩
    · intro k
      rw [hburied, h.buried, habsent]

theorem recreatedRows (h : Coherent workspaceId uris db f) (hapart : Apart workspaceId uris)
    {uri : String} {present : Option FrontierEntry} {tombstone : Option TombstoneEntry}
    {row : Content}
    (hpresent : AssocMap.get f.present uri = present)
    (htombstone : AssocMap.get f.absent uri = tombstone)
    (hlive : ∀ c, db'.Live c ↔
      (db.Live c ∧ ∀ e ∈ present, c.artifactVersionId ≠ e.artifactVersionId) ∨ c = row)
    (hburied : ∀ k, db'.Buried k ↔
      db.Buried k ∧ ∀ e ∈ tombstone, k.artifactTombstoneId ≠ e.artifactTombstoneId) :
    (∀ c, db'.Live c ↔ (∃ other, f.Holds other c ∧ other ≠ uri) ∨ c = row) ∧
      ∀ k, db'.Buried k ↔ ∃ other, (other, k) ∈ f.absent ∧ other ≠ uri := by
  constructor
  · intro c
    rw [hlive, h.live, ← exists_and_right]
    refine or_congr_left (exists_congr (fun other => ?_))
    cases present with
    | some prior => simpa using h.holds_other_version hapart (AssocMap.mem_of_get hpresent)
    | none =>
      refine and_congr_right (fun hc => ?_)
      simp only [Option.not_mem_none, false_implies, implies_true, true_iff]
      rintro rfl
      exact (AssocMap.get_eq_none_iff _ _).mp hpresent (holds_key hc)
  · intro k
    rw [hburied, h.buried, ← exists_and_right]
    refine exists_congr (fun other => ?_)
    cases tombstone with
    | some prior => simpa using h.buried_other_tombstone hapart (AssocMap.mem_of_get htombstone)
    | none =>
      refine and_congr_right (fun hk => ?_)
      simp only [Option.not_mem_none, false_implies, implies_true, true_iff]
      rintro rfl
      exact (AssocMap.get_eq_none_iff _ _).mp htombstone (List.mem_map_of_mem hk)

omit [Sha256] in
theorem priorOf_some {uri artifactId : String} {present : Option FrontierEntry}
    {tombstone : Option TombstoneEntry}
    (hapart : ∀ uri ∈ f.present.map Prod.fst, uri ∉ f.absent.map Prod.fst)
    (h : priorOf f uri = some (artifactId, present, tombstone)) :
    AssocMap.get f.present uri = present ∧ AssocMap.get f.absent uri = tombstone ∧
      ((∃ entry, present = some entry ∧ entry.artifactId = artifactId) ∨
        ∃ entry, tombstone = some entry ∧ entry.artifactId = artifactId) := by
  unfold priorOf at h
  split at h
  · next entry hentry =>
    obtain ⟨rfl, rfl, rfl⟩ := by simpa using h
    have hmem : uri ∈ f.present.map Prod.fst := List.mem_map_of_mem (AssocMap.mem_of_get hentry)
    exact ⟨hentry, (AssocMap.get_eq_none_iff _ _).mpr (hapart uri hmem), Or.inl ⟨entry, rfl, rfl⟩⟩
  · next entry hpresent hentry =>
    obtain ⟨rfl, rfl, rfl⟩ := by simpa using h
    exact ⟨hpresent, hentry, Or.inr ⟨entry, rfl, rfl⟩⟩
  · cases h

theorem priorOf_known (h : Coherent workspaceId uris db f) {uri artifactId : String}
    {present : Option FrontierEntry} {tombstone : Option TombstoneEntry}
    (hprior : priorOf f uri = some (artifactId, present, tombstone)) :
    f.Knows uri ∧ artifactId = SourceFrontier.artifactId workspaceId uri := by
  obtain ⟨hpresent, htombstone, ⟨entry, rfl, rfl⟩ | ⟨entry, rfl, rfl⟩⟩ :=
    priorOf_some h.ok.apart hprior
  · have hmem := AssocMap.mem_of_get hpresent
    exact ⟨Or.inl (List.mem_map_of_mem hmem), h.presentIds uri entry.content ⟨entry, hmem, rfl⟩⟩
  · have hmem := AssocMap.mem_of_get htombstone
    exact ⟨Or.inr (List.mem_map_of_mem hmem), h.absentIds uri entry hmem⟩

omit [Sha256] in
theorem mem_erase_iff {V : Type} {m : List (String × V)} {uri other : String} {v : V} :
    (other, v) ∈ AssocMap.erase m uri ↔ (other, v) ∈ m ∧ other ≠ uri := by
  simp [AssocMap.erase, List.mem_filter]

theorem applyChanged (hapart : Apart workspaceId uris) {o : Observation}
    (h : Coherent workspaceId uris t.db t.frontier)
    (hrun : applyChanged sql batchId generation t o = .ok t') :
    Coherent workspaceId uris t'.db t'.frontier ∧ ∀ uri, t'.frontier.Knows uri ↔
      t.frontier.Knows uri := by
  unfold SourceFrontier.applyChanged at hrun
  cases hprior : priorOf t.frontier o.normalizedUri with
  | none =>
    simp only [hprior] at hrun
    cases hrun
  | some prior =>
    obtain ⟨artifactId, present, tombstone⟩ := prior
    simp only [hprior] at hrun
    obtain ⟨t₁, hrows, hrecord⟩ := ExceptOk.bind_eq_ok hrun
    obtain ⟨db, hdb, rfl⟩ := executeAll_ok hrows
    obtain ⟨f, hf, rfl⟩ := update_eq_ok hrecord
    obtain ⟨hknows, rfl⟩ := h.priorOf_known hprior
    obtain ⟨hpresent, htombstone, -⟩ := priorOf_some h.ok.apart hprior
    obtain ⟨hkeys, hartifacts, hlive, hburied⟩ := changedRows_ok hdb h.keys
    obtain ⟨hlive, hburied⟩ := h.recreatedRows hapart hpresent htombstone hlive hburied
    obtain ⟨hok, habsent, hholds⟩ := recordPresent_ok hapart.keys h.ok (h.knows_uri hknows) hf
    have hsame : ∀ uri, f.Knows uri ↔ t.frontier.Knows uri := by
      intro uri
      by_cases huri : uri = o.normalizedUri
      · rw [huri]
        exact iff_of_true (Or.inl (mem_present_iff.mpr ⟨_, (hholds _ _).mpr (Or.inl ⟨rfl, rfl⟩)⟩))
          hknows
      · unfold Frontier.Knows
        rw [mem_present_iff, mem_present_iff, habsent, AssocMap.mem_keys_erase]
        simp [hholds, huri]
    refine ⟨⟨hok, hkeys, hartifacts ▸ h.artifacts, ?_, ?_, ?_, ?_, ?_⟩, hsame⟩
    · intro uri
      rw [hartifacts, h.known, hsame]
    · intro uri c hc
      rcases (hholds uri c).mp hc with ⟨rfl, rfl⟩ | ⟨hc, -⟩
      · rfl
      · exact h.presentIds uri c hc
    · intro uri k hk
      rw [habsent] at hk
      exact h.absentIds uri k (mem_erase_iff.mp hk).1
    · intro c
      rw [hlive]
      simp only [hholds, exists_or]
      rw [or_comm]
      refine or_congr ⟨fun hc => ⟨_, rfl, hc⟩, ?_⟩ Iff.rfl
      rintro ⟨_, -, hc⟩
      exact hc
    · intro k
      rw [hburied, habsent]
      simp only [mem_erase_iff]

theorem applyDeleted (hapart : Apart workspaceId uris) {uri : String}
    (h : Coherent workspaceId uris t.db t.frontier)
    (hrun : applyDeleted sql batchId generation t uri = .ok t') :
    Coherent workspaceId uris t'.db t'.frontier ∧ ∀ other, t'.frontier.Knows other ↔
      t.frontier.Knows other := by
  unfold SourceFrontier.applyDeleted at hrun
  cases hprior : AssocMap.get t.frontier.present uri with
  | none =>
    simp only [hprior] at hrun
    cases hrun
  | some prior =>
    simp only [hprior] at hrun
    obtain ⟨t₁, hrows, hrecord⟩ := ExceptOk.bind_eq_ok hrun
    obtain ⟨db, hdb, rfl⟩ := executeAll_ok hrows
    obtain ⟨f, hf, rfl⟩ := update_eq_ok hrecord
    have hmem := AssocMap.mem_of_get hprior
    have hknows : t.frontier.Knows uri := Or.inl (List.mem_map_of_mem hmem)
    have hid : prior.artifactId = artifactId workspaceId uri :=
      h.presentIds uri prior.content ⟨prior, hmem, rfl⟩
    obtain ⟨hkeys, hartifacts, hlive, hburied⟩ := deletedRows_ok hdb h.keys
    obtain ⟨hok, hpresent, habsent, -⟩ :=
      Frontier.ok_setAbsent hapart.keys h.ok (h.knows_uri hknows) hf
    have hholds := holds_erase (f := t.frontier) hpresent
    have hmemAbsent : ∀ other k, (other, k) ∈ f.absent ↔ (other = uri ∧
        k = ⟨prior.artifactId, artifactTombstoneId prior.artifactId batchId "deleted"⟩) ∨
        (other, k) ∈ t.frontier.absent ∧ other ≠ uri := by
      intro other k
      rw [habsent, AssocMap.insert, List.mem_cons, Prod.mk.injEq]
      exact or_congr Iff.rfl mem_erase_iff
    have hsame : ∀ other, f.Knows other ↔ t.frontier.Knows other := by
      intro other
      by_cases hother : other = uri
      · rw [hother]
        refine iff_of_true (Or.inr ?_) hknows
        rw [habsent, AssocMap.mem_keys_insert]
        exact Or.inl rfl
      · unfold Frontier.Knows
        rw [hpresent, habsent, AssocMap.mem_keys_erase, AssocMap.mem_keys_insert]
        simp [hother]
    refine ⟨⟨hok, hkeys, hartifacts ▸ h.artifacts, ?_, ?_, ?_, ?_, ?_⟩, hsame⟩
    · intro other
      rw [hartifacts, h.known, hsame]
    · exact fun other c hc => h.presentIds other c ((hholds other c).mp hc).1
    · intro other k hk
      rcases (hmemAbsent other k).mp hk with ⟨rfl, rfl⟩ | ⟨hk, -⟩
      · exact hid
      · exact h.absentIds other k hk
    · intro c
      rw [hlive, h.live, ← exists_and_right]
      refine exists_congr (fun other => ?_)
      rw [hholds, h.holds_other_version hapart hmem]
    · intro k
      rw [hburied, h.buried]
      simp only [hmemAbsent, exists_or]
      rw [or_comm]
      refine or_congr ⟨fun hk => ⟨uri, rfl, hk⟩, ?_⟩ ⟨?_, ?_⟩
      · rintro ⟨_, -, hk⟩
        exact hk
      · rintro ⟨other, hk⟩
        refine ⟨other, hk, ?_⟩
        rintro rfl
        exact h.ok.apart other (List.mem_map_of_mem hmem) (List.mem_map_of_mem hk)
      · rintro ⟨other, hk, -⟩
        exact ⟨other, hk⟩

omit [Sha256] in
theorem holds_refresh (f : Frontier) (uri metadataDigest other : String) (c : Content) :
    (f.refresh uri metadataDigest).Holds other c ↔
      ∃ c', f.Holds other c' ∧ c = if other = uri then { c' with metadataDigest } else c' := by
  constructor
  · rintro ⟨entry, hmem, rfl⟩
    obtain ⟨entry', hmem', rfl⟩ := Frontier.mem_refresh.mp hmem
    refine ⟨entry'.content, ⟨entry', hmem', rfl⟩, ?_⟩
    split <;> rfl
  · rintro ⟨c', ⟨entry', hmem', rfl⟩, rfl⟩
    refine ⟨_, Frontier.mem_refresh.mpr ⟨entry', hmem', rfl⟩, ?_⟩
    split <;> rfl

theorem refreshOne (hapart : Apart workspaceId uris) {uri metadataDigest : String}
    {entry : FrontierEntry}
    (h : Coherent workspaceId uris db f) (hentry : AssocMap.get f.present uri = some entry)
    (hrow : sql.execute db (.refreshMetadata entry.artifactVersionId metadataDigest) = .ok db') :
    Coherent workspaceId uris db' (f.refresh uri metadataDigest) ∧
      ∀ other, (f.refresh uri metadataDigest).Knows other ↔ f.Knows other := by
  obtain rfl := Except.ok.inj (execute_ok hrow)
  have hknows : ∀ other, (f.refresh uri metadataDigest).Knows other ↔ f.Knows other := by
    intro other
    unfold Frontier.Knows
    rw [Frontier.refresh_keys]
    rfl
  refine ⟨⟨Frontier.ok_refresh h.ok uri metadataDigest, ⟨?_, h.keys.tombstones⟩,
    h.artifacts, ?_, ?_,
    h.absentIds, ?_, h.buried⟩, hknows⟩
  · rw [Database.updateVersions_ids]
    · exact h.keys.versions
    · exact fun row => rfl
  · exact fun other => (h.known other).trans (hknows other).symm
  · intro other c hc
    obtain ⟨c', hc', rfl⟩ := (holds_refresh _ _ _ _ _).mp hc
    have hid := h.presentIds other c' hc'
    split <;> exact hid
  · intro c
    rw [Database.live_refreshMetadata]
    simp only [holds_refresh, h.live, exists_and_right.symm]
    rw [exists_comm]
    refine exists_congr (fun other => exists_congr (fun c' => and_congr_right (fun hc' => ?_)))
    have hversion : c'.artifactVersionId = entry.artifactVersionId ↔ other = uri := by
      have hiff : f.Holds other c' ∧ c'.artifactVersionId ≠ entry.artifactVersionId ↔
          f.Holds other c' ∧ other ≠ uri :=
            h.holds_other_version hapart (AssocMap.mem_of_get hentry)
      simpa [hc', not_iff_not] using hiff
    simp only [hversion]

theorem applyMetadataRefresh (hapart : Apart workspaceId uris) {refreshed : List (String × String)}
    (h : Coherent workspaceId uris t.db t.frontier)
    (hrun : applyMetadataRefresh sql t refreshed = .ok t') :
    Coherent workspaceId uris t'.db t'.frontier ∧ ∀ uri, t'.frontier.Knows uri ↔
      t.frontier.Knows uri := by
  induction refreshed generalizing t with
  | nil =>
    obtain rfl := Except.ok.inj hrun
    exact ⟨h, fun uri => Iff.rfl⟩
  | cons pair refreshed ih =>
    obtain ⟨uri, metadataDigest⟩ := pair
    rw [SourceFrontier.applyMetadataRefresh] at hrun
    cases hentry : AssocMap.get t.frontier.present uri with
    | none =>
      simp only [hentry] at hrun
      exact ih h hrun
    | some entry =>
      simp only [hentry] at hrun
      obtain ⟨t₁, hrow, hrest⟩ := ExceptOk.bind_eq_ok hrun
      obtain ⟨db, hdb, rfl⟩ := executeAll_ok hrow
      obtain ⟨hstep, hknows⟩ := h.refreshOne hapart hentry hdb
      obtain ⟨hlast, hsame⟩ := ih hstep hrest
      exact ⟨hlast, fun other => (hsame other).trans (hknows other)⟩

theorem foldlM {β : Type} {step : Transaction → β → Except Failure Transaction}
    (hstep : ∀ {t b t'}, Coherent workspaceId uris t.db t.frontier → step t b = .ok t' →
      Coherent workspaceId uris t'.db t'.frontier ∧ ∀ uri, t'.frontier.Knows uri ↔
        t.frontier.Knows uri)
    {xs : List β} (h : Coherent workspaceId uris t.db t.frontier)
    (hrun : xs.foldlM step t = .ok t') :
    Coherent workspaceId uris t'.db t'.frontier ∧ ∀ uri, t'.frontier.Knows uri ↔
      t.frontier.Knows uri := by
  induction xs generalizing t with
  | nil =>
    obtain rfl := Except.ok.inj hrun
    exact ⟨h, fun uri => Iff.rfl⟩
  | cons b xs ih =>
    rw [List.foldlM_cons] at hrun
    obtain ⟨t₁, hfirst, hrest⟩ := ExceptOk.bind_eq_ok hrun
    obtain ⟨h₁, hknows₁⟩ := hstep h hfirst
    obtain ⟨h₂, hknows₂⟩ := ih h₁ hrest
    exact ⟨h₂, fun uri => (hknows₂ uri).trans (hknows₁ uri)⟩

theorem insertAddedBatches (hapart : Apart workspaceId uris) {batches : List (List Observation)}
    (h : Coherent workspaceId uris t.db t.frontier)
    (huris : ∀ o ∈ batches.flatten, o.normalizedUri ∈ uris)
    (hnew : ∀ o ∈ batches.flatten, ¬ t.frontier.Knows o.normalizedUri)
    (hnodup : (batches.flatten.map Observation.normalizedUri).Nodup)
    (hrun : batches.foldlM (fun t batch =>
      SourceFrontier.insertAddedBatch sql workspaceId batchId generation t batch) t = .ok t') :
    Coherent workspaceId uris t'.db t'.frontier ∧ ∀ uri, t'.frontier.Knows uri ↔
      t.frontier.Knows uri ∨ ∃ o ∈ batches.flatten, uri = o.normalizedUri := by
  induction batches generalizing t with
  | nil =>
    obtain rfl := Except.ok.inj hrun
    exact ⟨h, fun uri => by simp⟩
  | cons batch batches ih =>
    rw [List.foldlM_cons] at hrun
    obtain ⟨t₁, hfirst, hrest⟩ := ExceptOk.bind_eq_ok hrun
    simp only [List.flatten_cons, List.mem_append, List.map_append] at huris hnew hnodup
    obtain ⟨hnodupFirst, hnodupRest, hdisjoint⟩ := List.nodup_append.mp hnodup
    obtain ⟨h₁, hknows₁⟩ := h.insertAddedBatch hapart (fun o ho => huris o (Or.inl ho))
      (fun o ho => hnew o (Or.inl ho)) hnodupFirst hfirst
    have hnew₁ : ∀ o ∈ batches.flatten, ¬ t₁.frontier.Knows o.normalizedUri := by
      intro o ho hknows
      rcases (hknows₁ _).mp hknows with hknows | ⟨o', ho', heq⟩
      · exact hnew o (Or.inr ho) hknows
      · exact hdisjoint o'.normalizedUri (List.mem_map_of_mem ho') o.normalizedUri
          (List.mem_map_of_mem ho) heq.symm
    obtain ⟨h₂, hknows₂⟩ := ih h₁ (fun o ho => huris o (Or.inr ho)) hnew₁ hnodupRest hrest
    refine ⟨h₂, fun uri => ?_⟩
    rw [hknows₂, hknows₁, or_assoc, List.flatten_cons]
    simp only [List.mem_append, or_and_right, exists_or]

end Coherent

namespace Coherent

theorem ofRows (h : Coherent workspaceId uris db f) (hartifacts : db'.artifacts = db.artifacts)
    (hversions : db'.versions = db.versions) (htombstones : db'.tombstones = db.tombstones) :
    Coherent workspaceId uris db' f := by
  have hlive : ∀ c, db'.Live c ↔ db.Live c := fun c => by rw [Database.Live, hversions]; rfl
  have hburied : ∀ k, db'.Buried k ↔ db.Buried k :=
    fun k => by rw [Database.Buried, htombstones]; rfl
  refine ⟨h.ok, ⟨?_, ?_⟩, ?_, ?_, h.presentIds, h.absentIds, ?_, ?_⟩
  · rw [hversions]
    exact h.keys.versions
  · rw [htombstones]
    exact h.keys.tombstones
  · rw [hartifacts]
    exact h.artifacts
  · rw [hartifacts]
    exact h.known
  · exact fun c => (hlive c).trans (h.live c)
  · exact fun k => (hburied k).trans (h.buried k)

theorem applyUris (hapart : Apart workspaceId uris) {delta : Delta}
    (h : Coherent workspaceId uris t.db t.frontier)
    (huris : ∀ o ∈ delta.added, o.normalizedUri ∈ uris)
    (hnew : ∀ o ∈ delta.added, ¬ t.frontier.Knows o.normalizedUri)
    (hnodup : (delta.added.map Observation.normalizedUri).Nodup)
    (hrun : Delta.applyUris sql workspaceId batchId generation t delta = .ok t') :
    Coherent workspaceId uris t'.db t'.frontier ∧ ∀ uri, t'.frontier.Knows uri ↔
      t.frontier.Knows uri ∨ ∃ o ∈ delta.added, uri = o.normalizedUri := by
  unfold Delta.applyUris at hrun
  obtain ⟨t₁, hadded, hrun₁⟩ := ExceptOk.bind_eq_ok hrun
  obtain ⟨t₂, hchanged, hrun₂⟩ := ExceptOk.bind_eq_ok hrun₁
  obtain ⟨t₃, hdeleted, hrefreshed⟩ := ExceptOk.bind_eq_ok hrun₂
  have hflat : (chunks addedBatchRows delta.added).flatten = delta.added :=
    chunks_flatten (by decide) _
  obtain ⟨h₁, hknows₁⟩ := h.insertAddedBatches hapart (hflat.symm ▸ huris) (hflat.symm ▸ hnew)
    (hflat.symm ▸ hnodup) hadded
  obtain ⟨h₂, hknows₂⟩ := h₁.foldlM (fun ht hstep => ht.applyChanged hapart hstep) hchanged
  obtain ⟨h₃, hknows₃⟩ := h₂.foldlM (fun ht hstep => ht.applyDeleted hapart hstep) hdeleted
  obtain ⟨h₄, hknows₄⟩ := h₃.applyMetadataRefresh hapart hrefreshed
  refine ⟨h₄, fun uri => ?_⟩
  rw [hknows₄, hknows₃, hknows₂, hknows₁, hflat]

end Coherent

theorem opening_ok {delta : Delta} (h : opening sql batchId db delta = .ok db') : db' = db := by
  unfold opening at h
  obtain ⟨db₁, hbegin, hbatch⟩ := ExceptOk.bind_eq_ok h
  obtain rfl := Except.ok.inj (execute_ok hbegin)
  exact (Except.ok.inj (execute_ok hbatch)).symm

theorem closing_ok {revision : ℤ} (h : closing sql workspaceId generation t = .ok (t', revision)) :
    t'.frontier = t.frontier ∧ t'.db.artifacts = t.db.artifacts ∧ t'.db.versions = t.db.versions ∧
      t'.db.tombstones = t.db.tombstones := by
  simp only [closing] at h
  split at h
  · next db revision' hrows =>
    obtain ⟨rfl, rfl⟩ := Prod.mk.inj (Except.ok.inj h)
    obtain ⟨⟨db₁, revision₁⟩, hstate, hrest⟩ := ExceptOk.bind_eq_ok hrows
    obtain ⟨db₂, hcommit, hpure⟩ := ExceptOk.bind_eq_ok hrest
    obtain ⟨rfl, rfl⟩ := Prod.mk.inj (Except.ok.inj hpure)
    obtain rfl := Except.ok.inj (execute_ok hcommit)
    obtain ⟨db₃, hread, hrest₃⟩ := ExceptOk.bind_eq_ok hstate
    obtain ⟨db₄, hwrite, hpure₄⟩ := ExceptOk.bind_eq_ok hrest₃
    obtain ⟨rfl, rfl⟩ := Prod.mk.inj (Except.ok.inj hpure₄)
    obtain rfl := Except.ok.inj (execute_ok hread)
    obtain rfl := Except.ok.inj (execute_ok hwrite)
    exact ⟨rfl, rfl, rfl, rfl⟩
  · cases h

theorem Coherent.apply (hapart : Apart workspaceId uris) {delta : Delta} {applied : AppliedCatalog}
    (h : Coherent workspaceId uris t.db t.frontier)
    (hrun : Catalog.apply sql t.db workspaceId t.frontier delta generation = .ok (t', applied))
    (huris : ∀ o ∈ delta.added, o.normalizedUri ∈ uris)
    (hnew : ∀ o ∈ delta.added, ¬ t.frontier.Knows o.normalizedUri)
    (hnodup : (delta.added.map Observation.normalizedUri).Nodup) :
    Coherent workspaceId uris t'.db t'.frontier ∧ ∀ uri, t'.frontier.Knows uri ↔
      t.frontier.Knows uri ∨ ∃ o ∈ delta.added, uri = o.normalizedUri := by
  unfold Catalog.apply at hrun
  obtain ⟨t₁, hopened, hrun₁⟩ := ExceptOk.bind_eq_ok hrun
  obtain ⟨db, hdb, rfl⟩ := executeAll_ok hopened
  obtain rfl := opening_ok hdb
  obtain ⟨t₂, huriRun, hrun₂⟩ := ExceptOk.bind_eq_ok hrun₁
  obtain ⟨⟨t₃, revision⟩, hclosed, hpure⟩ := ExceptOk.bind_eq_ok hrun₂
  obtain ⟨rfl, -⟩ := Prod.mk.inj (Except.ok.inj hpure)
  obtain ⟨h₂, hknows⟩ := h.applyUris hapart huris hnew hnodup huriRun
  obtain ⟨hfrontier, hartifacts, hversions, htombstones⟩ := closing_ok hclosed
  rw [hfrontier]
  exact ⟨h₂.ofRows hartifacts hversions htombstones, hknows⟩

theorem Coherent.refreshMetadata (hapart : Apart workspaceId uris)
    {refreshed : List (String × String)}
    (h : Coherent workspaceId uris t.db t.frontier)
    (hrun : Catalog.refreshMetadata sql t.db t.frontier refreshed = .ok t') :
    Coherent workspaceId uris t'.db t'.frontier ∧ ∀ uri, t'.frontier.Knows uri ↔
      t.frontier.Knows uri := by
  unfold Catalog.refreshMetadata at hrun
  split at hrun
  · obtain rfl := Except.ok.inj hrun
    exact ⟨h, fun uri => Iff.rfl⟩
  · obtain ⟨t₁, hbegin, hrun₁⟩ := ExceptOk.bind_eq_ok hrun
    obtain ⟨db, hdb, rfl⟩ := executeAll_ok hbegin
    obtain rfl := Except.ok.inj (execute_ok hdb)
    obtain ⟨t₂, hrefresh, hcommit⟩ := ExceptOk.bind_eq_ok hrun₁
    obtain ⟨db₂, hdb₂, rfl⟩ := executeAll_ok hcommit
    obtain rfl := Except.ok.inj (execute_ok hdb₂)
    exact h.applyMetadataRefresh hapart hrefresh

end Steps

section Run

variable [Sha256]

inductive Reaches (workspaceId : String) : List Batch → Transaction → Prop
  | start : Reaches workspaceId [] ⟨.empty, .empty⟩
  | apply {batches : List Batch} {t t' : Transaction} (before : Reaches workspaceId batches t)
      (sql : Sqlite)
      (batch : Batch) (generation : ℤ) (deleted : List String) (applied : AppliedCatalog)
      (once : batch.named.Nodup) (order : deleted.Perm (batch.delta t.frontier).deleted)
      (succeeds : Catalog.apply sql t.db workspaceId t.frontier
        { batch.delta t.frontier with deleted } generation = .ok (t', applied)) :
      Reaches workspaceId (batches ++ [batch]) t'
  | refreshMetadata {batches : List Batch} {t t' : Transaction}
      (before : Reaches workspaceId batches t)
      (sql : Sqlite) (refreshed : List (String × String))
      (succeeds : Catalog.refreshMetadata sql t.db t.frontier refreshed = .ok t') :
      Reaches workspaceId batches t'

def seen (batches : List Batch) : List String :=
  batches.flatMap (fun batch => batch.observed.map Observation.normalizedUri)

theorem coherent_start (workspaceId : String) (uris : Set String) :
    Coherent workspaceId uris .empty .empty where
  ok := Frontier.empty_ok uris
  keys := ⟨List.nodup_nil, List.nodup_nil⟩
  artifacts := by simp [Database.empty]
  known := by simp [Database.empty, Frontier.Knows, Frontier.empty]
  presentIds := by simp [Frontier.Holds, Frontier.empty]
  absentIds := by simp [Frontier.empty]
  live := by simp [Database.Live, Database.empty, Frontier.Holds, Frontier.empty]
  buried := by simp [Database.Buried, Database.empty, Frontier.empty]

theorem coherent_of_reaches {workspaceId : String} {batches : List Batch} {t : Transaction}
    (hrun : Reaches workspaceId batches t) {uris : Set String} (hapart : Apart workspaceId uris)
    (huris : ∀ uri ∈ seen batches, uri ∈ uris) :
    Coherent workspaceId uris t.db t.frontier ∧ ∀ uri, t.frontier.Knows uri ↔
      uri ∈ seen batches := by
  induction hrun with
  | start =>
    refine ⟨coherent_start workspaceId uris, fun uri => ?_⟩
    simp [seen, Frontier.Knows, Frontier.empty]
  | @apply batches t t' _ sql batch generation deleted applied once order succeeds ih =>
    have hsplit : ∀ uri, uri ∈ seen (batches ++ [batch]) ↔
        uri ∈ seen batches ∨ uri ∈ batch.observed.map Observation.normalizedUri := by
      simp [seen]
    obtain ⟨h, hknows⟩ := ih (fun uri huri => huris uri ((hsplit uri).mpr (Or.inl huri)))
    have hadded := Batch.delta_added t.frontier batch
    have hmem : ∀ o, o ∈ (batch.delta t.frontier).added ↔
        o ∈ batch.observed ∧ ¬ t.frontier.Knows o.normalizedUri := by
      intro o
      rw [hadded, List.mem_filter, decide_eq_true_eq]
    have hsub : ((batch.delta t.frontier).added.map Observation.normalizedUri).Sublist
        batch.named := by
      rw [hadded]
      exact (List.filter_sublist.map _).trans batch.observed_sublist
    obtain ⟨h', hknows'⟩ := h.apply hapart succeeds
      (fun o ho => huris _ ((hsplit _).mpr (Or.inr (List.mem_map_of_mem ((hmem o).mp ho).1))))
      (fun o ho => ((hmem o).mp ho).2) (once.sublist hsub)
    refine ⟨h', fun uri => ?_⟩
    rw [hknows', hsplit, ← hknows]
    constructor
    · rintro (hold | ⟨o, ho, rfl⟩)
      · exact Or.inl hold
      · exact Or.inr (List.mem_map_of_mem ((hmem o).mp ho).1)
    · rintro (hold | hobserved)
      · exact Or.inl hold
      · obtain ⟨o, ho, rfl⟩ := List.mem_map.mp hobserved
        by_cases hold : t.frontier.Knows o.normalizedUri
        · exact Or.inl hold
        · exact Or.inr ⟨o, (hmem o).mpr ⟨ho, hold⟩, rfl⟩
  | @refreshMetadata batches t t' _ sql refreshed succeeds ih =>
    obtain ⟨h, hknows⟩ := ih huris
    obtain ⟨h', hknows'⟩ := h.refreshMetadata hapart succeeds
    exact ⟨h', fun uri => (hknows' uri).trans (hknows uri)⟩

end Run

end SourceFrontier
