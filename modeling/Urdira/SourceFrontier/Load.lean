import Urdira.Lib.Sha2
import Urdira.SourceFrontier.CatalogRun

open ByteOrder KeyedSet MerkleBucket NativeCore

namespace AssocMap

variable {K V W : Type} [DecidableEq K]

theorem mem_of_get_insertAll {entries m : List (K × V)} {k : K} {v : V}
    (h : get (insertAll m entries) k = some v) : (k, v) ∈ entries ∨ get m k = some v := by
  induction entries generalizing m with
  | nil => exact Or.inr h
  | cons e entries ih =>
    rcases ih h with hmem | hget
    · exact Or.inl (List.mem_cons_of_mem _ hmem)
    · by_cases hk : k = e.1
      · rw [hk, get_insert_self] at hget
        refine Or.inl (List.mem_cons.mpr (Or.inl ?_))
        rw [hk, ← Option.some.inj hget]
      · rw [get_insert_ne _ _ hk] at hget
        exact Or.inr hget

theorem get_insertAll_nil_iff {entries : List (K × V)} {view : V → W} {R : K → W → Prop}
    (hsound : ∀ k v, (k, v) ∈ entries → R k (view v))
    (hcomplete : ∀ k w, R k w → k ∈ entries.map Prod.fst)
    (hunique : ∀ k w w', R k w → R k w' → w = w') (k : K) (w : W) :
    (get (insertAll [] entries) k).map view = some w ↔ R k w := by
  have hmem : ∀ v, get (insertAll [] entries) k = some v → R k (view v) := by
    intro v hget
    rcases mem_of_get_insertAll hget with hmem | hnil
    · exact hsound k v hmem
    · cases hnil
  rw [Option.map_eq_some_iff]
  constructor
  · rintro ⟨v, hget, rfl⟩
    exact hmem v hget
  · intro hw
    cases hget : get (insertAll [] entries) k with
    | none =>
      rw [get_eq_none_iff, mem_keys_insertAll] at hget
      exact absurd (Or.inr (hcomplete k w hw)) hget
    | some v => exact ⟨v, rfl, hunique k _ _ (hmem v hget) hw⟩

end AssocMap

namespace SourceFrontier

def Database.liveVersions (db : Database) : List ((String × String) × VersionRow) :=
  (db.versions.filter (fun row => decide (row.validTo = none))).flatMap (fun row =>
    (db.artifacts.filter (fun artifact => decide (artifact.1 = row.artifactId))).map
      (fun artifact => (artifact, row)))

def Database.liveTombstones (db : Database) : List ((String × String) × TombstoneRow) :=
  (db.tombstones.filter (fun row => decide (row.validTo = none))).flatMap (fun row =>
    (db.artifacts.filter (fun artifact => decide (artifact.1 = row.artifactId))).map
      (fun artifact => (artifact, row)))

section Load

variable [Sha256]

namespace Frontier

def loadedPresent (db : Database) : List (String × FrontierEntry) :=
  db.liveVersions.zipIdx.map (fun r =>
    (r.1.1.2,
      { artifactId := r.1.1.1
        artifactVersionId := r.1.2.artifactVersionId
        contentHash := r.1.2.contentHash
        byteLength := r.1.2.byteLength
        metadataDigest := r.1.2.metadataDigest
        artifactOrdinal := r.2 }))

def loadedAbsent (db : Database) : List (String × TombstoneEntry) :=
  db.liveTombstones.map (fun r => (r.1.2, ⟨r.1.1, r.2.artifactTombstoneId⟩))

def load (db : Database) : Except Fault Frontier := do
  let present := AssocMap.insertAll [] (loadedPresent db)
  let absent := AssocMap.insertAll [] (loadedAbsent db)
  let presentEntries ← presentEntries present
  let presentTree ← BucketedMerkleSet.fromSorted presentEntries
  let absentTree ← BucketedMerkleSet.fromSorted (absentEntries absent)
  pure
    { present
      absent
      presentTree
      absentTree
      presentBucketIndex := buildBucketIndex presentEntries
      absentBucketIndex := buildBucketIndex (absentEntries absent)
      nextOrdinal := db.liveVersions.length }

end Frontier

variable {workspaceId : String} {uris : Set String} {db : Database} {f : Frontier}

omit [Sha256] in
theorem mem_liveVersions {artifact : String × String} {row : VersionRow} :
    (artifact, row) ∈ db.liveVersions ↔ row ∈ db.versions ∧ row.validTo = none ∧
      artifact ∈ db.artifacts ∧
      artifact.1 = row.artifactId := by
  simp only [Database.liveVersions, List.mem_flatMap, List.mem_filter, decide_eq_true_eq,
    List.mem_map]
  constructor
  · rintro ⟨row', ⟨hrow, hopen⟩, artifact', ⟨hartifact, hid⟩, heq⟩
    obtain ⟨rfl, rfl⟩ := Prod.mk.inj heq
    exact ⟨hrow, hopen, hartifact, hid⟩
  · rintro ⟨hrow, hopen, hartifact, hid⟩
    exact ⟨row, ⟨hrow, hopen⟩, artifact, ⟨hartifact, hid⟩, rfl⟩

omit [Sha256] in
theorem mem_liveTombstones {artifact : String × String} {row : TombstoneRow} :
    (artifact, row) ∈ db.liveTombstones ↔ row ∈ db.tombstones ∧ row.validTo = none ∧
      artifact ∈ db.artifacts ∧ artifact.1 = row.artifactId := by
  simp only [Database.liveTombstones, List.mem_flatMap, List.mem_filter, decide_eq_true_eq,
    List.mem_map]
  constructor
  · rintro ⟨row', ⟨hrow, hopen⟩, artifact', ⟨hartifact, hid⟩, heq⟩
    obtain ⟨rfl, rfl⟩ := Prod.mk.inj heq
    exact ⟨hrow, hopen, hartifact, hid⟩
  · rintro ⟨hrow, hopen, hartifact, hid⟩
    exact ⟨row, ⟨hrow, hopen⟩, artifact, ⟨hartifact, hid⟩, rfl⟩

theorem holds_unique (hf : f.Ok uris) {uri : String} {c c' : Content} (hc : f.Holds uri c)
    (hc' : f.Holds uri c') : c = c' := by
  obtain ⟨entry, hmem, rfl⟩ := hc
  obtain ⟨entry', hmem', rfl⟩ := hc'
  have hget := AssocMap.get_of_mem hf.presentKeys hmem
  rw [AssocMap.get_of_mem hf.presentKeys hmem'] at hget
  rw [Option.some.inj hget]

omit [Sha256] in
theorem holds_iff_get (hkeys : (f.present.map Prod.fst).Nodup) (uri : String) (c : Content) :
    (AssocMap.get f.present uri).map FrontierEntry.content = some c ↔ f.Holds uri c := by
  rw [Option.map_eq_some_iff]
  constructor
  · rintro ⟨entry, hget, rfl⟩
    exact ⟨entry, AssocMap.mem_of_get hget, rfl⟩
  · rintro ⟨entry, hmem, rfl⟩
    exact ⟨entry, AssocMap.get_of_mem hkeys hmem, rfl⟩

theorem mem_pairs_content {present present' : List (String × FrontierEntry)}
    (h : ∀ uri c, (∃ entry, (uri, entry) ∈ present ∧ entry.content = c) →
      ∃ entry, (uri, entry) ∈ present' ∧ entry.content = c) {e : Digest32 × Digest32}
    (he : e ∈ pairs contentDigest present) : e ∈ pairs contentDigest present' := by
  obtain ⟨uri, entry, hmem, rfl⟩ := mem_pairs.mp he
  obtain ⟨entry', hmem', hcontent⟩ := h uri entry.content ⟨entry, hmem, rfl⟩
  refine mem_pairs.mpr ⟨uri, entry', hmem', ?_⟩
  have hhash : entry'.contentHash = entry.contentHash := congrArg Content.contentHash hcontent
  rw [contentDigest, contentDigest, hhash]

namespace Coherent

theorem artifact_of (h : Coherent workspaceId uris db f) {uri : String} (hknows : f.Knows uri) :
    (artifactId workspaceId uri, uri) ∈ db.artifacts := by
  obtain ⟨row, hrow, rfl⟩ := List.mem_map.mp ((h.known uri).mpr hknows)
  rw [← h.artifacts row hrow]
  exact hrow

theorem uri_of_artifact (h : Coherent workspaceId uris db f) (hapart : Apart workspaceId uris)
    {artifact : String × String} (hartifact : artifact ∈ db.artifacts) {uri : String}
    (hknows : f.Knows uri)
    (hid : artifact.1 = artifactId workspaceId uri) : artifact.2 = uri := by
  have hin : artifact.2 ∈ uris := h.knows_uri ((h.known _).mp (List.mem_map_of_mem hartifact))
  exact hapart.artifacts _ hin _ (h.knows_uri hknows)
    ((h.artifacts artifact hartifact).symm.trans hid)

theorem get_loadedPresent (h : Coherent workspaceId uris db f) (hapart : Apart workspaceId uris)
    (uri : String) (c : Content) :
    (AssocMap.get (AssocMap.insertAll [] (Frontier.loadedPresent db)) uri).map
      FrontierEntry.content = some c ↔
      f.Holds uri c := by
  refine AssocMap.get_insertAll_nil_iff (R := f.Holds) ?_ ?_ (fun _ _ _ => holds_unique h.ok) uri c
  · intro uri entry hmem
    obtain ⟨⟨⟨artifact, row⟩, ordinal⟩, hrow, heq⟩ := List.mem_map.mp hmem
    obtain ⟨hlive, hopen, hartifact, hid⟩ := mem_liveVersions.mp
      (List.fst_mem_of_mem_zipIdx hrow)
    obtain ⟨rfl, rfl⟩ := Prod.mk.inj heq
    obtain ⟨uri, hholds⟩ := (h.live row.content).mp ⟨row, hlive, hopen, rfl⟩
    have huri : artifact.2 = uri := h.uri_of_artifact hapart hartifact (Or.inl (holds_key hholds))
      (hid.trans (h.presentIds uri _ hholds))
    rw [← huri] at hholds
    have hcontent : (⟨artifact.1, row.artifactVersionId, row.contentHash, row.byteLength,
        row.metadataDigest⟩ : Content) = row.content := by rw [hid]; rfl
    rw [← hcontent] at hholds
    exact hholds
  · intro uri c hc
    obtain ⟨row, hrow, hopen, rfl⟩ := (h.live c).mpr ⟨uri, hc⟩
    have hartifact := h.artifact_of (Or.inl (holds_key hc))
    have hmem : ((artifactId workspaceId uri, uri), row) ∈ db.liveVersions :=
      mem_liveVersions.mpr ⟨hrow, hopen, hartifact, (h.presentIds uri _ hc).symm⟩
    obtain ⟨ordinal, hordinal⟩ : ∃ ordinal, (((artifactId workspaceId uri, uri), row), ordinal) ∈
        db.liveVersions.zipIdx := by
      obtain ⟨i, hi, hget⟩ := List.mem_iff_getElem.mp hmem
      exact ⟨i, List.mem_zipIdx_iff_getElem?.mpr (by rw [List.getElem?_eq_getElem hi, hget])⟩
    exact List.mem_map.mpr ⟨_, List.mem_map_of_mem hordinal, rfl⟩

theorem get_loadedAbsent (h : Coherent workspaceId uris db f) (hapart : Apart workspaceId uris)
    (uri : String) (k : TombstoneEntry) :
    (AssocMap.get (AssocMap.insertAll [] (Frontier.loadedAbsent db)) uri).map id = some k ↔
      (uri, k) ∈ f.absent := by
  refine AssocMap.get_insertAll_nil_iff (R := fun uri k => (uri, k) ∈ f.absent) ?_ ?_ ?_ uri k
  · intro uri entry hmem
    obtain ⟨⟨artifact, row⟩, hrow, heq⟩ := List.mem_map.mp hmem
    obtain ⟨hlive, hopen, hartifact, hid⟩ := mem_liveTombstones.mp hrow
    obtain ⟨rfl, rfl⟩ := Prod.mk.inj heq
    obtain ⟨uri, hburied⟩ := (h.buried row.entry).mp ⟨row, hlive, hopen, rfl⟩
    have huri : artifact.2 = uri := h.uri_of_artifact hapart hartifact
      (Or.inr (List.mem_map_of_mem hburied)) (hid.trans (h.absentIds uri _ hburied))
    have hentry : (⟨artifact.1, row.artifactTombstoneId⟩ : TombstoneEntry) = row.entry := by
      rw [hid]; rfl
    simp only [huri, hentry]
    exact hburied
  · intro uri k hk
    obtain ⟨row, hrow, hopen, rfl⟩ := (h.buried k).mpr ⟨uri, hk⟩
    have hartifact := h.artifact_of (Or.inr (List.mem_map_of_mem hk))
    have hmem : ((artifactId workspaceId uri, uri), row) ∈ db.liveTombstones :=
      mem_liveTombstones.mpr ⟨hrow, hopen, hartifact, (h.absentIds uri _ hk).symm⟩
    exact List.mem_map.mpr ⟨_, List.mem_map_of_mem hmem, rfl⟩
  · intro uri k k' hk hk'
    have hget := AssocMap.get_of_mem h.ok.absentKeys hk
    rw [AssocMap.get_of_mem h.ok.absentKeys hk'] at hget
    exact (Option.some.inj hget).symm

theorem mem_loadedPresent (h : Coherent workspaceId uris db f) (hapart : Apart workspaceId uris)
    (uri : String) (c : Content) :
    (∃ entry, (uri, entry) ∈ AssocMap.insertAll [] (Frontier.loadedPresent db) ∧
      entry.content = c) ↔
      f.Holds uri c := by
  rw [← h.get_loadedPresent hapart, Option.map_eq_some_iff]
  have hkeys : ((AssocMap.insertAll [] (Frontier.loadedPresent db)).map Prod.fst).Nodup :=
    AssocMap.nodup_insertAll (m := []) List.nodup_nil _
  refine exists_congr (fun entry => and_congr_left (fun _ => ⟨?_, ?_⟩))
  · exact AssocMap.get_of_mem hkeys
  · exact AssocMap.mem_of_get

theorem mem_loadedAbsent (h : Coherent workspaceId uris db f) (hapart : Apart workspaceId uris)
    (uri : String) (k : TombstoneEntry) :
    (uri, k) ∈ AssocMap.insertAll [] (Frontier.loadedAbsent db) ↔ (uri, k) ∈ f.absent := by
  rw [← h.get_loadedAbsent hapart, Option.map_id_fun, id_eq]
  exact ⟨AssocMap.get_of_mem (AssocMap.nodup_insertAll (m := []) List.nodup_nil _),
    AssocMap.mem_of_get⟩

theorem load_ok (h : Coherent workspaceId uris db f) (hapart : Apart workspaceId uris) :
    ∃ loaded, Frontier.load db = .ok loaded ∧
      (∀ uri, (AssocMap.get loaded.present uri).map FrontierEntry.content =
        (AssocMap.get f.present uri).map FrontierEntry.content) ∧
      (∀ uri, AssocMap.get loaded.absent uri = AssocMap.get f.absent uri) ∧
      loaded.sourceStateDigest = f.sourceStateDigest := by
  have hpresent := h.mem_loadedPresent hapart
  have habsent := h.mem_loadedAbsent hapart
  have hdecodes : ∀ e ∈ AssocMap.insertAll [] (Frontier.loadedPresent db),
      ∃ logical, decodeSha256Hex e.2.contentHash = .ok logical := by
    rintro ⟨uri, entry⟩ he
    obtain ⟨entry', hmem', hcontent⟩ := (hpresent uri entry.content).mp ⟨entry, he, rfl⟩
    obtain ⟨logical, hlogical⟩ := h.ok.decodes _ hmem'
    have hhash : entry'.contentHash = entry.contentHash := congrArg Content.contentHash hcontent
    exact ⟨logical, hhash ▸ hlogical⟩
  have hpairs : ∀ e, e ∈ pairs contentDigest (AssocMap.insertAll [] (Frontier.loadedPresent db)) ↔
      e ∈ pairs contentDigest f.present := by
    intro e
    exact ⟨mem_pairs_content (fun uri c => (hpresent uri c).mp),
      mem_pairs_content (fun uri c => (hpresent uri c).mpr)⟩
  have htombstones :
      ∀ e, e ∈ pairs tombstoneDigest (AssocMap.insertAll [] (Frontier.loadedAbsent db)) ↔
      e ∈ pairs tombstoneDigest f.absent := by
    intro e
    simp only [mem_pairs, habsent]
  obtain ⟨presentTree, hpresentTree, hp⟩ := BucketedMerkleSet.fromSorted_ok
    (h.ok.presentTracks.represents.functional.mono (fun e => (hpairs e).mp))
  obtain ⟨absentTree, habsentTree, ha⟩ := BucketedMerkleSet.fromSorted_ok
    (h.ok.absentTracks.represents.functional.mono (fun e => (htombstones e).mp))
  have hentries : Frontier.absentEntries (AssocMap.insertAll [] (Frontier.loadedAbsent db)) =
      pairs tombstoneDigest (AssocMap.insertAll [] (Frontier.loadedAbsent db)) := rfl
  simp only [Frontier.load, Frontier.presentEntries_eq hdecodes, hentries, bind, Except.bind,
    hpresentTree,
    habsentTree, pure, Except.pure]
  refine ⟨_, rfl, ?_, ?_, ?_⟩
  · intro uri
    refine Option.ext (fun c => ?_)
    rw [h.get_loadedPresent hapart, holds_iff_get h.ok.presentKeys]
  · intro uri
    refine Option.ext (fun k => ?_)
    have hget := h.get_loadedAbsent hapart uri k
    rw [Option.map_id_fun, id_eq] at hget
    rw [hget]
    exact ⟨AssocMap.get_of_mem h.ok.absentKeys, AssocMap.mem_of_get⟩
  · exact Frontier.sourceStateDigest_eq hp h.ok.presentTracks.represents ha
      h.ok.absentTracks.represents
      hpairs htombstones

end Coherent

def hashedStrings (workspaceId : String) (uris : List String) : Set Bytes :=
  { bytes | ∃ uri ∈ uris, bytes = utf8 uri ∨ bytes = logicalFrame (artifactFields workspaceId uri) }

theorem apart_of_injOn {workspaceId : String} {uris : List String}
    (hsha : Set.InjOn Sha256.digest (hashedStrings workspaceId uris)) :
    Apart workspaceId { uri | uri ∈ uris } where
  keys := by
    intro uri huri uri' huri' heq
    exact utf8_injective (hsha ⟨uri, huri, Or.inl rfl⟩ ⟨uri', huri', Or.inl rfl⟩ heq)
  artifacts := by
    intro uri huri uri' huri' heq
    exact artifactId_injective (fun hdigest =>
      hsha ⟨uri, huri, Or.inr rfl⟩ ⟨uri', huri', Or.inr rfl⟩ hdigest) heq

theorem incremental_frontier_eq_reloaded {workspaceId : String} {batches : List Batch}
    {t : Transaction}
    (hrun : Reaches workspaceId batches t)
    (hsha : Set.InjOn Sha256.digest (hashedStrings workspaceId (seen batches))) :
    (∀ uri, uri ∈ seen batches ↔
      uri ∈ t.frontier.present.map Prod.fst ∨ uri ∈ t.frontier.absent.map Prod.fst) ∧
    (∀ uri, ¬ (uri ∈ t.frontier.present.map Prod.fst ∧ uri ∈ t.frontier.absent.map Prod.fst)) ∧
    t.frontier.fromScratchDigest = .ok t.frontier.sourceStateDigest ∧
    ∃ loaded, Frontier.load t.db = .ok loaded ∧
      (∀ uri, (AssocMap.get loaded.present uri).map FrontierEntry.content =
        (AssocMap.get t.frontier.present uri).map FrontierEntry.content) ∧
      (∀ uri, AssocMap.get loaded.absent uri = AssocMap.get t.frontier.absent uri) ∧
      loaded.sourceStateDigest = t.frontier.sourceStateDigest := by
  have hapart := apart_of_injOn hsha
  obtain ⟨hcoherent, hknows⟩ := coherent_of_reaches hrun hapart (fun uri huri => huri)
  refine ⟨fun uri => (hknows uri).symm, ?_, Frontier.fromScratchDigest_eq hcoherent.ok,
    hcoherent.load_ok hapart⟩
  rintro uri ⟨hpresent, habsent⟩
  exact hcoherent.ok.apart uri hpresent habsent

end Load

section Deleted

abbrev sha2 : Sha256 where
  digest := Sha2.sha256

abbrev accepting : Sqlite where
  refuses _ _ := none

abbrev emptyFile : Observation :=
  ⟨"src/a.ts", "sha256:e3b0c44298fc1c149afbf4c8996fb92427ae41e4649b934ca495991b7852b855", 0, "m"⟩

def applied [Sha256] (t : Transaction) (batch : Batch) (generation : ℤ) :
    Except Failure (Transaction × AppliedCatalog) :=
  Catalog.apply accepting t.db "w" t.frontier (batch.delta t.frontier) generation

theorem reaches_applied [Sha256] {batches : List Batch} {t : Transaction}
    (before : Reaches "w" batches t)
    {batch : Batch} (once : batch.named.Nodup) {generation : ℤ} {t' : Transaction × AppliedCatalog}
    (h : applied t batch generation = .ok t') : Reaches "w" (batches ++ [batch]) t'.1 :=
  .apply before accepting batch generation _ t'.2 once (List.Perm.refl _) h

theorem incremental_frontier_eq_reloaded_deleted :
    let _ : Sha256 := sha2
    let batches : List Batch := [.paths [.present emptyFile], .scan []]
    ∃ t, Reaches "w" batches t ∧ Set.InjOn Sha256.digest (hashedStrings "w" (seen batches)) ∧
      t.frontier.fromScratchDigest = .ok t.frontier.sourceStateDigest ∧
      ∃ loaded, Frontier.load t.db = .ok loaded ∧ loaded.sourceStateDigest =
        t.frontier.sourceStateDigest := by
  intro _ batches
  have hruns : (do
      let t ← applied ⟨.empty, .empty⟩ (.paths [.present emptyFile]) 1
      applied t.1 (.scan []) 2).toOption.isSome = true := by decide +kernel
  obtain ⟨t', ht'⟩ := ExceptOk.exists_of_isSome hruns
  obtain ⟨t, hfirst, hsecond⟩ := ExceptOk.bind_eq_ok ht'
  have hrun : Reaches "w" batches t'.1 :=
    reaches_applied (reaches_applied .start (by decide) hfirst) (by decide) hsecond
  have hsha : Set.InjOn Sha256.digest (hashedStrings "w" (seen batches)) := by
    have hne : Sha2.sha256 (utf8 "src/a.ts") ≠
        Sha2.sha256 (logicalFrame (artifactFields "w" "src/a.ts")) := by decide +kernel
    have honly : ∀ bytes ∈ hashedStrings "w" (seen batches),
        bytes = utf8 "src/a.ts" ∨ bytes = logicalFrame (artifactFields "w" "src/a.ts") := by
      rintro bytes ⟨uri, huri, hbytes⟩
      rwa [List.mem_singleton.mp huri] at hbytes
    intro a ha b hb hab
    rcases honly a ha with rfl | rfl
    · rcases honly b hb with rfl | rfl
      · rfl
      · exact absurd hab hne
    · rcases honly b hb with rfl | rfl
      · exact absurd hab.symm hne
      · rfl
  obtain ⟨-, -, hdigest, loaded, hload, -, -, hsame⟩ := incremental_frontier_eq_reloaded hrun hsha
  exact ⟨t'.1, hrun, hsha, hdigest, loaded, hload, hsame⟩

end Deleted

end SourceFrontier
