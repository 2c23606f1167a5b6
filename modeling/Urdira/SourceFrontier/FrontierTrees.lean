import Urdira.IndexingCore.MerkleHistory
import Urdira.Lib.ExceptOk
import Urdira.SourceFrontier.Catalog

open ByteOrder KeyedSet MerkleBucket

namespace SourceFrontier

section Tracks

variable [Sha256]

structure Tracks (tree : BucketedMerkleSet) (index : BucketIndexMap)
    (S : List (Digest32 × Digest32)) :
    Prop where
  represents : tree.Represents S
  mem : ∀ bucket e, e ∈ index bucket ↔ e ∈ bucketOf S bucket
  nodup : ∀ bucket, ((index bucket).map Prod.fst).Nodup

omit [Sha256] in
theorem length_canonOn_of_nodup {xs : List (Digest32 × Digest32)} (h : (xs.map Prod.fst).Nodup) :
    (canonOn Prod.fst xs).length = xs.length := by
  refine ((List.perm_ext_iff_of_nodup (canonOn_nodup _ _) (List.Nodup.of_map _ h)).mpr ?_).length_eq
  exact fun e => mem_canonOn (functional_of_nodup h) e

namespace Tracks

variable {tree : BucketedMerkleSet} {index : BucketIndexMap} {S S' : List (Digest32 × Digest32)}

theorem congr (h : Tracks tree index S) (hS : ∀ e, e ∈ S ↔ e ∈ S') : Tracks tree index S' where
  represents := h.represents.congr hS
  mem := fun bucket e => (h.mem bucket e).trans (bucketOf_congr hS bucket e)
  nodup := h.nodup

theorem empty : Tracks .empty (fun _ => []) [] where
  represents := BucketedMerkleSet.empty_represents
  mem := fun _ _ => by simp [bucketOf]
  nodup := fun _ => List.nodup_nil

end Tracks

def changeEntries (S : List (Digest32 × Digest32)) (change : Change) : List (Digest32 × Digest32) :=
  let kept := S.filter (fun e => decide (e.1 ≠ change.key))
  match change with
  | .set key logical => kept ++ [(key, logical)]
  | .delete _ => kept

omit [Sha256] in
theorem changeEntries_set (S : List (Digest32 × Digest32)) (key logical : Digest32) :
    changeEntries S (.set key logical) =
      S.filter (fun e => decide (e.1 ≠ key)) ++ [(key, logical)] := rfl

omit [Sha256] in
theorem changeEntries_delete (S : List (Digest32 × Digest32)) (key : Digest32) :
    changeEntries S (.delete key) = S.filter (fun e => decide (e.1 ≠ key)) := rfl

omit [Sha256] in
theorem mem_changeEntries {S : List (Digest32 × Digest32)} {change : Change}
    {e : Digest32 × Digest32} :
    e ∈ changeEntries S change ↔
      e ∈ S ∧ e.1 ≠ change.key ∨ ∃ key logical, change = .set key logical ∧ e = (key, logical) := by
  cases change with
  | set key logical =>
    rw [changeEntries_set, List.mem_append, List.mem_filter, decide_eq_true_eq, List.mem_singleton]
    refine or_congr Iff.rfl ⟨fun he => ⟨key, logical, rfl, he⟩, ?_⟩
    rintro ⟨key', logical', hset, he⟩
    cases hset
    exact he
  | delete key =>
    rw [changeEntries_delete, List.mem_filter, decide_eq_true_eq]
    exact ⟨Or.inl, fun h => h.resolve_right (by rintro ⟨_, _, hset, -⟩; cases hset)⟩

omit [Sha256] in
theorem changedBucket_eq (index : BucketIndexMap) (change : Change) :
    changedBucket index change = changeEntries (index (bucketIndex change.key)) change := by
  cases change <;> rfl

omit [Sha256] in
theorem functional_changeEntries {S : List (Digest32 × Digest32)} (h : Functional Prod.fst S)
    (change : Change) : Functional Prod.fst (changeEntries S change) := by
  intro a ha b hb hab
  rcases mem_changeEntries.mp ha with ⟨haS, hane⟩ | ⟨key, logical, rfl, rfl⟩
  · rcases mem_changeEntries.mp hb with ⟨hbS, -⟩ | ⟨key, logical, rfl, rfl⟩
    · exact h a haS b hbS hab
    · exact absurd hab hane
  · rcases mem_changeEntries.mp hb with ⟨-, hbne⟩ | ⟨key', logical', hset, rfl⟩
    · exact absurd hab.symm hbne
    · cases hset
      rfl

omit [Sha256] in
theorem nodup_changeEntries {S : List (Digest32 × Digest32)} (h : (S.map Prod.fst).Nodup)
    (change : Change) : ((changeEntries S change).map Prod.fst).Nodup := by
  cases change with
  | delete key =>
    rw [changeEntries_delete]
    exact h.sublist (List.filter_sublist.map Prod.fst)
  | set key logical =>
    rw [changeEntries_set, List.map_append, List.map_singleton]
    refine (h.sublist (List.filter_sublist.map Prod.fst)).append (List.nodup_singleton _) ?_
    intro k hk hkey
    obtain ⟨e, he, rfl⟩ := List.mem_map.mp hk
    rw [List.mem_filter, decide_eq_true_eq] at he
    exact he.2 (List.mem_singleton.mp hkey)

theorem applyBucketChange_ok {tree : BucketedMerkleSet} {index : BucketIndexMap}
    {S : List (Digest32 × Digest32)} (h : Tracks tree index S) (change : Change) :
    ∃ tree', (applyBucketChange tree index change).2 = .ok tree' ∧
      Tracks tree' (applyBucketChange tree index change).1 (changeEntries S change) := by
  have hfun := functional_changeEntries h.represents.functional change
  have htouched : ∀ idx, idx ∈ BucketedMerkleSet.touchedBuckets [change] ↔
      idx = bucketIndex change.key := by
    intro idx
    rw [BucketedMerkleSet.mem_touchedBuckets]
    simp [eq_comm]
  have hsets : Functional Prod.fst (BucketedMerkleSet.setEntries [change]) := by
    cases change <;> simp [BucketedMerkleSet.setEntries, Functional]
  have hnew : ∀ e, e ∈ changedBucket index change ↔
      e ∈ bucketOf (changeEntries S change) (bucketIndex change.key) := by
    intro e
    rw [changedBucket_eq, mem_changeEntries, h.mem, mem_bucketOf, mem_bucketOf, mem_changeEntries]
    constructor
    · rintro (⟨⟨hS, hb⟩, hne⟩ | ⟨key, logical, rfl, rfl⟩)
      · exact ⟨Or.inl ⟨hS, hne⟩, hb⟩
      · exact ⟨Or.inr ⟨key, logical, rfl, rfl⟩, rfl⟩
    · rintro ⟨⟨hS, hne⟩ | ⟨key, logical, rfl, rfl⟩, hb⟩
      · exact Or.inl ⟨⟨hS, hb⟩, hne⟩
      · exact Or.inr ⟨key, logical, rfl, rfl⟩
  have hkeep : ∀ e, bucketIndex e.1 ≠ bucketIndex change.key →
      (e ∈ S ↔ e ∈ changeEntries S change) := by
    intro e hb
    rw [mem_changeEntries]
    constructor
    · exact fun hS => Or.inl ⟨hS, fun hkey => hb (by rw [hkey])⟩
    · rintro (⟨hS, -⟩ | ⟨key, logical, rfl, rfl⟩)
      · exact hS
      · exact absurd rfl hb
  obtain ⟨tree', htree', hrep⟩ : ∃ tree', tree.update [change]
      (fun _ => ((index (bucketIndex change.key)).length, changedBucket index change)) = .ok tree' ∧
      tree'.Represents (changeEntries S change) := by
    refine BucketedMerkleSet.update_ok h.represents hfun hsets ?_ ?_ ?_
    · intro idx hidx
      obtain rfl := (htouched idx).mp hidx
      rw [← canonOn_congr (functional_of_nodup (h.nodup _)) (h.mem _),
        length_canonOn_of_nodup (h.nodup _)]
    · intro idx hidx e
      obtain rfl := (htouched idx).mp hidx
      exact hnew e
    · exact fun e he => hkeep e (fun hb => he ((htouched _).mpr hb))
  refine ⟨tree', htree', hrep, ?_, ?_⟩
  · intro bucket e
    simp only [applyBucketChange, Function.update_apply]
    split
    · next hbucket => rw [hbucket, hnew]
    · next hbucket =>
      rw [h.mem, mem_bucketOf, mem_bucketOf]
      exact and_congr_left (fun hb => hkeep e (hb ▸ hbucket))
  · intro bucket
    simp only [applyBucketChange, Function.update_apply]
    split
    · rw [changedBucket_eq]
      exact nodup_changeEntries (h.nodup _) change
    · exact h.nodup bucket

end Tracks

section Pairs

variable [Sha256] {V : Type} (value : V → Digest32)

def pairs (m : List (String × V)) : List (Digest32 × Digest32) :=
  m.map (fun e => (sha256Bytes e.1, value e.2))

def KeysApart (uris : Set String) : Prop :=
  ∀ uri ∈ uris, ∀ uri' ∈ uris, sha256Bytes uri = sha256Bytes uri' → uri = uri'

variable {value} {uris : Set String} {m : List (String × V)}

theorem mem_pairs {e : Digest32 × Digest32} :
    e ∈ pairs value m ↔ ∃ uri v, (uri, v) ∈ m ∧ e = (sha256Bytes uri, value v) := by
  rw [pairs, List.mem_map]
  constructor
  · rintro ⟨⟨uri, v⟩, hmem, rfl⟩
    exact ⟨uri, v, hmem, rfl⟩
  · rintro ⟨uri, v, hmem, rfl⟩
    exact ⟨(uri, v), hmem, rfl⟩

theorem mem_pairs_erase (hapart : KeysApart uris) (hm : ∀ uri ∈ m.map Prod.fst, uri ∈ uris)
    {uri : String} (huri : uri ∈ uris) (e : Digest32 × Digest32) :
    e ∈ pairs value (AssocMap.erase m uri) ↔ e ∈ pairs value m ∧ e.1 ≠ sha256Bytes uri := by
  simp only [mem_pairs, AssocMap.erase, List.mem_filter, decide_eq_true_eq]
  constructor
  · rintro ⟨uri', v, ⟨hmem, hne⟩, rfl⟩
    refine ⟨⟨uri', v, hmem, rfl⟩, fun hkey => hne ?_⟩
    exact hapart uri' (hm uri' (List.mem_map_of_mem hmem)) uri huri hkey
  · rintro ⟨⟨uri', v, hmem, rfl⟩, hne⟩
    exact ⟨uri', v, ⟨hmem, fun heq => hne (by rw [heq])⟩, rfl⟩

theorem mem_pairs_delete (hapart : KeysApart uris) (hm : ∀ uri ∈ m.map Prod.fst, uri ∈ uris)
    {uri : String} (huri : uri ∈ uris) (e : Digest32 × Digest32) :
    e ∈ changeEntries (pairs value m) (.delete (sha256Bytes uri)) ↔
      e ∈ pairs value (AssocMap.erase m uri) := by
  rw [changeEntries_delete, List.mem_filter, decide_eq_true_eq, mem_pairs_erase hapart hm huri]

theorem mem_pairs_set (hapart : KeysApart uris) (hm : ∀ uri ∈ m.map Prod.fst, uri ∈ uris)
    {uri : String} (huri : uri ∈ uris) (v : V) (e : Digest32 × Digest32) :
    e ∈ changeEntries (pairs value m) (.set (sha256Bytes uri) (value v)) ↔
      e ∈ pairs value (AssocMap.insert m uri v) := by
  have hcons : pairs value (AssocMap.insert m uri v) =
      (sha256Bytes uri, value v) :: pairs value (AssocMap.erase m uri) := rfl
  rw [changeEntries_set, List.mem_append, List.mem_filter, decide_eq_true_eq,
    List.mem_singleton, hcons,
    List.mem_cons, mem_pairs_erase hapart hm huri]
  exact or_comm

end Pairs

section FrontierOk

variable [Sha256]

def contentDigest (entry : FrontierEntry) : Digest32 :=
  (decodeSha256Hex entry.contentHash).toOption.getD zero

def tombstoneDigest (tombstone : TombstoneEntry) : Digest32 :=
  sha256Bytes tombstone.artifactTombstoneId

structure Frontier.Ok (uris : Set String) (f : Frontier) : Prop where
  presentKeys : (f.present.map Prod.fst).Nodup
  absentKeys : (f.absent.map Prod.fst).Nodup
  apart : ∀ uri ∈ f.present.map Prod.fst, uri ∉ f.absent.map Prod.fst
  presentUris : ∀ uri ∈ f.present.map Prod.fst, uri ∈ uris
  absentUris : ∀ uri ∈ f.absent.map Prod.fst, uri ∈ uris
  decodes : ∀ e ∈ f.present, ∃ logical, decodeSha256Hex e.2.contentHash = .ok logical
  presentTracks : Tracks f.presentTree f.presentBucketIndex (pairs contentDigest f.present)
  absentTracks : Tracks f.absentTree f.absentBucketIndex (pairs tombstoneDigest f.absent)

namespace Frontier

variable {uris : Set String} {f f' : Frontier}

theorem empty_ok (uris : Set String) : Frontier.empty.Ok uris where
  presentKeys := List.nodup_nil
  absentKeys := List.nodup_nil
  apart := by simp [Frontier.empty]
  presentUris := by simp [Frontier.empty]
  absentUris := by simp [Frontier.empty]
  decodes := by simp [Frontier.empty]
  presentTracks := Tracks.empty
  absentTracks := Tracks.empty

theorem changePresent_ok {S : List (Digest32 × Digest32)}
    (h : Tracks f.presentTree f.presentBucketIndex S)
    (change : Change) : ∃ tree index, f.changePresent change =
      .ok { f with presentTree := tree, presentBucketIndex := index } ∧
      Tracks tree index (changeEntries S change) := by
  obtain ⟨tree, htree, htracks⟩ := applyBucketChange_ok h change
  refine ⟨tree, _, ?_, htracks⟩
  simp only [changePresent, htree]

theorem changeAbsent_ok {S : List (Digest32 × Digest32)}
    (h : Tracks f.absentTree f.absentBucketIndex S)
    (change : Change) : ∃ tree index, f.changeAbsent change =
      .ok { f with absentTree := tree, absentBucketIndex := index } ∧
      Tracks tree index (changeEntries S change) := by
  obtain ⟨tree, htree, htracks⟩ := applyBucketChange_ok h change
  refine ⟨tree, _, ?_, htracks⟩
  simp only [changeAbsent, htree]

structure Became (f' : Frontier) (present : List (String × FrontierEntry))
    (absent : List (String × TombstoneEntry)) (nextOrdinal : ℕ) : Prop where
  present_eq : f'.present = present
  absent_eq : f'.absent = absent
  ordinal_eq : f'.nextOrdinal = nextOrdinal
  presentTracks : Tracks f'.presentTree f'.presentBucketIndex (pairs contentDigest f'.present)
  absentTracks : Tracks f'.absentTree f'.absentBucketIndex (pairs tombstoneDigest f'.absent)

theorem setPresent_became (hapart : KeysApart uris) (hf : f.Ok uris) {uri : String}
    (huri : uri ∈ uris)
    {entry : FrontierEntry} {logical : Digest32}
    (hlogical : decodeSha256Hex entry.contentHash = .ok logical) :
    ∃ f', f.setPresent uri entry = .ok f' ∧
      f'.Became (AssocMap.insert f.present uri entry) (AssocMap.erase f.absent uri)
        f.nextOrdinal := by
  have hcontent : contentDigest entry = logical := by
    simp [contentDigest, hlogical, Except.toOption]
  obtain ⟨tree, index, hchange, htracks⟩ := changePresent_ok
    (f := { f with present := AssocMap.insert f.present uri entry }) hf.presentTracks
    (.set (sha256Bytes uri) (contentDigest entry))
  have hpresent := htracks.congr (mem_pairs_set hapart hf.presentUris huri entry)
  simp only [setPresent, hlogical]
  rw [← hcontent, hchange]
  change ∃ f', (ite _ _ _) = _ ∧ _
  split
  · obtain ⟨tree', index', hdelete, htracks'⟩ := changeAbsent_ok
      (f := { f with
        present := AssocMap.insert f.present uri entry
        presentTree := tree
        presentBucketIndex := index
        absent := AssocMap.erase f.absent uri }) hf.absentTracks (.delete (sha256Bytes uri))
    exact ⟨_, hdelete, rfl, rfl, rfl, hpresent,
      htracks'.congr (mem_pairs_delete hapart hf.absentUris huri)⟩
  · next habsent =>
    have hnone : AssocMap.get f.absent uri = none := by simpa using habsent
    have herase := AssocMap.erase_of_notMem ((AssocMap.get_eq_none_iff _ _).mp hnone)
    exact ⟨_, rfl, rfl, herase.symm, rfl, hpresent, hf.absentTracks⟩

theorem setAbsent_became (hapart : KeysApart uris) (hf : f.Ok uris) {uri : String}
    (huri : uri ∈ uris)
    (tombstone : TombstoneEntry) :
    ∃ f', f.setAbsent uri tombstone = .ok f' ∧
      f'.Became (AssocMap.erase f.present uri) (AssocMap.insert f.absent uri tombstone)
        f.nextOrdinal := by
  obtain ⟨tree, index, hchange, htracks⟩ := changeAbsent_ok
    (f := { f with absent := AssocMap.insert f.absent uri tombstone }) hf.absentTracks
    (.set (sha256Bytes uri) (tombstoneDigest tombstone))
  have habsent := htracks.congr (mem_pairs_set hapart hf.absentUris huri tombstone)
  unfold setAbsent
  change ∃ f', (changeAbsent _ (.set (sha256Bytes uri) (tombstoneDigest tombstone)) >>= _) = _ ∧ _
  rw [hchange]
  change ∃ f', (ite _ _ _) = _ ∧ _
  split
  · obtain ⟨tree', index', hdelete, htracks'⟩ := changePresent_ok
      (f := { f with
        absent := AssocMap.insert f.absent uri tombstone
        absentTree := tree
        absentBucketIndex := index
        present := AssocMap.erase f.present uri }) hf.presentTracks (.delete (sha256Bytes uri))
    exact ⟨_, hdelete, rfl, rfl, rfl, htracks'.congr (mem_pairs_delete hapart hf.presentUris huri),
      habsent⟩
  · next hpresent =>
    have hnone : AssocMap.get f.present uri = none := by simpa using hpresent
    have herase := AssocMap.erase_of_notMem ((AssocMap.get_eq_none_iff _ _).mp hnone)
    exact ⟨_, rfl, herase.symm, rfl, rfl, hf.presentTracks, habsent⟩

theorem ok_setPresent (hapart : KeysApart uris) (hf : f.Ok uris) {uri : String} (huri : uri ∈ uris)
    {entry : FrontierEntry} (h : f.setPresent uri entry = .ok f') :
    f'.Ok uris ∧ f'.present = AssocMap.insert f.present uri entry ∧
      f'.absent = AssocMap.erase f.absent uri ∧ f'.nextOrdinal = f.nextOrdinal := by
  cases hlogical : decodeSha256Hex entry.contentHash with
  | error fault =>
    simp only [setPresent, hlogical] at h
    cases h
  | ok logical =>
    obtain ⟨f'', hf'', hbecame⟩ := setPresent_became hapart hf huri hlogical
    obtain rfl := Except.ok.inj (hf''.symm.trans h)
    refine ⟨?_, hbecame.present_eq, hbecame.absent_eq, hbecame.ordinal_eq⟩
    constructor
    · rw [hbecame.present_eq]
      exact AssocMap.nodup_insert hf.presentKeys _ _
    · rw [hbecame.absent_eq]
      exact hf.absentKeys.sublist (List.filter_sublist.map _)
    · rw [hbecame.present_eq, hbecame.absent_eq]
      intro other hother hmem
      obtain ⟨habsent, hne⟩ := (AssocMap.mem_keys_erase _ _ _).mp hmem
      rcases (AssocMap.mem_keys_insert _ _ _ _).mp hother with rfl | hother
      · exact hne rfl
      · exact hf.apart other hother habsent
    · rw [hbecame.present_eq]
      intro other hother
      rcases (AssocMap.mem_keys_insert _ _ _ _).mp hother with rfl | hother
      · exact huri
      · exact hf.presentUris other hother
    · rw [hbecame.absent_eq]
      exact fun other hother => hf.absentUris other ((AssocMap.mem_keys_erase _ _ _).mp hother).1
    · rw [hbecame.present_eq]
      intro e he
      rcases List.mem_cons.mp he with rfl | he
      · exact ⟨logical, hlogical⟩
      · exact hf.decodes e (List.mem_filter.mp he).1
    · exact hbecame.presentTracks
    · exact hbecame.absentTracks

theorem ok_setAbsent (hapart : KeysApart uris) (hf : f.Ok uris) {uri : String} (huri : uri ∈ uris)
    {tombstone : TombstoneEntry} (h : f.setAbsent uri tombstone = .ok f') :
    f'.Ok uris ∧ f'.present = AssocMap.erase f.present uri ∧
      f'.absent = AssocMap.insert f.absent uri tombstone ∧ f'.nextOrdinal = f.nextOrdinal := by
  obtain ⟨f'', hf'', hbecame⟩ := setAbsent_became hapart hf huri tombstone
  obtain rfl := Except.ok.inj (hf''.symm.trans h)
  refine ⟨?_, hbecame.present_eq, hbecame.absent_eq, hbecame.ordinal_eq⟩
  constructor
  · rw [hbecame.present_eq]
    exact hf.presentKeys.sublist (List.filter_sublist.map _)
  · rw [hbecame.absent_eq]
    exact AssocMap.nodup_insert hf.absentKeys _ _
  · rw [hbecame.present_eq, hbecame.absent_eq]
    intro other hother hmem
    obtain ⟨hpresent, hne⟩ := (AssocMap.mem_keys_erase _ _ _).mp hother
    rcases (AssocMap.mem_keys_insert _ _ _ _).mp hmem with rfl | hmem
    · exact hne rfl
    · exact hf.apart other hpresent hmem
  · rw [hbecame.present_eq]
    exact fun other hother => hf.presentUris other ((AssocMap.mem_keys_erase _ _ _).mp hother).1
  · rw [hbecame.absent_eq]
    intro other hother
    rcases (AssocMap.mem_keys_insert _ _ _ _).mp hother with rfl | hother
    · exact huri
    · exact hf.absentUris other hother
  · rw [hbecame.present_eq]
    exact fun e he => hf.decodes e (List.mem_filter.mp he).1
  · exact hbecame.presentTracks
  · exact hbecame.absentTracks

omit [Sha256] in
theorem refresh_keys (f : Frontier) (uri metadataDigest : String) :
    (f.refresh uri metadataDigest).present.map Prod.fst = f.present.map Prod.fst := by
  rw [refresh, List.map_map]
  refine List.map_congr_left (fun e _ => ?_)
  simp only [Function.comp_apply]
  split <;> rfl

omit [Sha256] in
theorem mem_refresh {f : Frontier} {uri metadataDigest uri' : String} {entry : FrontierEntry} :
    (uri', entry) ∈ (f.refresh uri metadataDigest).present ↔ ∃ entry', (uri', entry') ∈ f.present ∧
      entry = if uri' = uri then { entry' with metadataDigest } else entry' := by
  simp only [refresh, List.mem_map, Prod.exists]
  constructor
  · rintro ⟨key, entry', hmem, heq⟩
    by_cases hkey : key = uri
    · rw [if_pos hkey] at heq
      obtain ⟨rfl, rfl⟩ := Prod.mk.inj heq
      exact ⟨entry', hmem, by rw [if_pos hkey]⟩
    · rw [if_neg hkey] at heq
      obtain ⟨rfl, rfl⟩ := Prod.mk.inj heq
      exact ⟨entry', hmem, by rw [if_neg hkey]⟩
  · rintro ⟨entry', hmem, rfl⟩
    refine ⟨uri', entry', hmem, ?_⟩
    split <;> rfl

theorem refresh_pairs (f : Frontier) (uri metadataDigest : String) :
    pairs contentDigest (f.refresh uri metadataDigest).present = pairs contentDigest f.present := by
  rw [pairs, pairs, refresh, List.map_map]
  refine List.map_congr_left (fun e _ => ?_)
  simp only [Function.comp_apply]
  split <;> rfl

theorem ok_refresh (hf : f.Ok uris) (uri metadataDigest : String) :
    (f.refresh uri metadataDigest).Ok uris := by
  constructor
  · rw [refresh_keys]
    exact hf.presentKeys
  · exact hf.absentKeys
  · rw [refresh_keys]
    exact hf.apart
  · rw [refresh_keys]
    exact hf.presentUris
  · exact hf.absentUris
  · rintro ⟨uri', entry⟩ he
    obtain ⟨entry', hmem, rfl⟩ := mem_refresh.mp he
    obtain ⟨logical, hlogical⟩ := hf.decodes (uri', entry') hmem
    refine ⟨logical, ?_⟩
    simp only
    split <;> exact hlogical
  · rw [refresh_pairs]
    exact hf.presentTracks
  · exact hf.absentTracks

theorem presentEntries_eq {present : List (String × FrontierEntry)}
    (h : ∀ e ∈ present, ∃ logical, decodeSha256Hex e.2.contentHash = .ok logical) :
    presentEntries present = .ok (pairs contentDigest present) := by
  refine ExceptOk.mapM_eq_ok (fun e he => ?_)
  obtain ⟨logical, hlogical⟩ := h e he
  simp only [hlogical, contentDigest, Except.toOption, Option.getD_some]
  rfl

theorem trees_agree {tree tree' : BucketedMerkleSet} {S S' : List (Digest32 × Digest32)}
    (h : tree.Represents S) (h' : tree'.Represents S') (hS : ∀ e, e ∈ S ↔ e ∈ S') :
    tree.root = tree'.root ∧ tree.count = tree'.count := by
  have hcongr := h.congr hS
  exact ⟨hcongr.root_eq.trans h'.root_eq.symm, hcongr.count.trans h'.count.symm⟩

theorem sourceStateDigest_eq {present present' absent absent' : BucketedMerkleSet}
    {S S' T T' : List (Digest32 × Digest32)} (hp : present.Represents S)
    (hp' : present'.Represents S')
    (ha : absent.Represents T) (ha' : absent'.Represents T') (hS : ∀ e, e ∈ S ↔ e ∈ S')
    (hT : ∀ e, e ∈ T ↔ e ∈ T') :
    computeSourceStateDigest present absent = computeSourceStateDigest present' absent' := by
  obtain ⟨hroot, hcount⟩ := trees_agree hp hp' hS
  obtain ⟨hroot', hcount'⟩ := trees_agree ha ha' hT
  rw [computeSourceStateDigest, computeSourceStateDigest, hroot, hcount, hroot', hcount']

theorem fromScratchDigest_eq (hf : f.Ok uris) : f.fromScratchDigest = .ok f.sourceStateDigest := by
  obtain ⟨present, hpresent, hp⟩ :=
    BucketedMerkleSet.fromSorted_ok hf.presentTracks.represents.functional
  obtain ⟨absent, habsent, ha⟩ :=
    BucketedMerkleSet.fromSorted_ok hf.absentTracks.represents.functional
  have habsentEntries : absentEntries f.absent = pairs tombstoneDigest f.absent := rfl
  rw [fromScratchDigest, presentEntries_eq hf.decodes, habsentEntries]
  simp only [bind, Except.bind, hpresent, habsent, pure, Except.pure]
  exact congrArg Except.ok (sourceStateDigest_eq hp hf.presentTracks.represents ha
    hf.absentTracks.represents (fun _ => Iff.rfl) (fun _ => Iff.rfl))

end Frontier

end FrontierOk

end SourceFrontier
