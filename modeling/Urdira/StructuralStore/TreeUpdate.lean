import Urdira.StructuralStore.StoreSpec
import Urdira.IndexingCore.MerkleTreeFile

open ByteOrder KeyedSet MerkleBucket BucketedMerkleSet

namespace StructuralStore

theorem foldl_deletes {idx : ℕ} {keys : List Digest32} {S : List (Digest32 × Digest32)}
    (hkeys : ∀ k ∈ keys, bucketIndex k = idx) (e : Digest32 × Digest32) :
    e ∈ (keys.map Change.delete).foldl (applyChange idx) S ↔ e ∈ S ∧ e.1 ∉ keys := by
  induction keys generalizing S with
  | nil => simp
  | cons k keys ih =>
    rw [List.map_cons, List.foldl_cons, ih (fun k' hk' => hkeys k' (by simp [hk'])), applyChange,
      if_pos (show bucketIndex (Change.delete k).key = idx from hkeys k (by simp))]
    simp only [List.mem_filter, decide_eq_true_eq, List.mem_cons]
    tauto

theorem foldl_sets {idx : ℕ} {entries S : List (Digest32 × Digest32)}
    (hf : Functional Prod.fst entries) (hentries : ∀ x ∈ entries, bucketIndex x.1 = idx)
    (e : Digest32 × Digest32) :
    e ∈ (entries.map (fun x => Change.set x.1 x.2)).foldl (applyChange idx) S ↔
      (e ∈ S ∧ e.1 ∉ entries.map Prod.fst) ∨ e ∈ entries := by
  induction entries generalizing S with
  | nil => simp
  | cons x entries ih =>
    rw [List.map_cons, List.foldl_cons,
      ih (hf.mono (fun a ha => by simp [ha])) (fun y hy => hentries y (by simp [hy])), applyChange,
      if_pos (show bucketIndex (Change.set x.1 x.2).key = idx from hentries x (by simp))]
    simp only [List.mem_append, List.mem_filter, decide_eq_true_eq, List.map_cons, List.mem_cons,
      List.not_mem_nil, or_false]
    constructor
    · rintro (⟨⟨he, hne⟩ | rfl, hnot⟩ | he)
      · exact Or.inl ⟨he, fun hor => hor.elim hne hnot⟩
      · exact Or.inr (Or.inl rfl)
      · exact Or.inr (Or.inr he)
    · rintro (⟨he, hnot⟩ | rfl | he)
      · exact Or.inl ⟨Or.inl ⟨he, fun hx => hnot (Or.inl hx)⟩, fun hm => hnot (Or.inr hm)⟩
      · by_cases hmem : e.1 ∈ entries.map Prod.fst
        · obtain ⟨y, hy, hyk⟩ := List.mem_map.mp hmem
          have : e = y := hf e (by simp) y (by simp [hy]) hyk.symm
          exact Or.inr (this ▸ hy)
        · exact Or.inl ⟨Or.inr rfl, hmem⟩
      · exact Or.inr he

theorem groupChanges_deletes (keys : List Digest32) (idx : ℕ) :
    groupChangesByBucket (keys.map Change.delete) idx =
      (keys.filter (fun k => decide (bucketIndex k = idx))).map Change.delete := by
  rw [groupChangesByBucket, List.filter_map]
  rfl

theorem groupChanges_sets (entries : List (Digest32 × Digest32)) (idx : ℕ) :
    groupChangesByBucket (entries.map (fun x => Change.set x.1 x.2)) idx =
      (bucketOf entries idx).map (fun x => Change.set x.1 x.2) := by
  rw [groupChangesByBucket, List.filter_map]
  rfl

theorem groupChanges_append (cs ds : List Change) (idx : ℕ) :
    groupChangesByBucket (cs ++ ds) idx =
      groupChangesByBucket cs idx ++ groupChangesByBucket ds idx :=
  List.filter_append _ _

theorem setEntries_append (cs ds : List Change) :
    setEntries (cs ++ ds) = setEntries cs ++ setEntries ds :=
  List.filterMap_append

theorem setEntries_sets (entries : List (Digest32 × Digest32)) :
    setEntries (entries.map (fun x => Change.set x.1 x.2)) = entries := by
  rw [setEntries, List.filterMap_map]
  exact List.filterMap_some

theorem setEntries_deletes (keys : List Digest32) : setEntries (keys.map Change.delete) = [] := by
  rw [setEntries, List.filterMap_map, List.filterMap_eq_nil_iff]
  exact fun _ _ => rfl

def Disk.withTree (disk : Disk) (kind : SetKind) (file : TreeFile) : Disk :=
  { disk with trees := Function.update disk.trees kind (some file) }

theorem run_tree_steps (disk : Disk) (kind : SetKind) (writes : List TreeWrite) {file : TreeFile}
    (h : disk.trees kind = some file) :
    disk.run (writes.map (FsStep.tree kind)) =
      disk.withTree kind (writes.foldl TreeFile.apply file) := by
  induction writes generalizing disk file with
  | nil =>
    rw [List.map_nil, List.foldl_nil, Disk.withTree, ← h, Function.update_eq_self]
    rfl
  | cons w writes ih =>
    rw [List.map_cons, List.foldl_cons]
    change (disk.apply (.tree kind w)).run _ = _
    have hfile : (disk.apply (.tree kind w)).trees kind = some (file.apply w) := by
      simp [Disk.apply, h]
    rw [ih (disk.apply (.tree kind w)) hfile]
    simp [Disk.apply, Disk.withTree]

section Update

variable [Sha256]

structure TreeStep (disk : Disk) (kind : SetKind) (changes : List Change)
    (entriesInBucket : ℕ → List (Digest32 × Digest32)) (S S' : List (Digest32 × Digest32)) :
    Prop where
  tree : ∃ file, disk.trees kind = some file ∧ (readFrom file).1.Represents S
  entries : ∀ idx < 1048576, entriesInBucket idx = bucketOf S idx
  distinct : ∀ change ∈ changes, ((bucketOf S (bucketIndex change.key)).map Prod.fst).Nodup
  functional : Functional Prod.fst S'
  sets : Functional Prod.fst (setEntries changes)
  touched : ∀ idx < 1048576, ∀ e,
    e ∈ (groupChangesByBucket changes idx).foldl (applyChange idx) (bucketOf S idx) ↔
      e ∈ bucketOf S' idx
  untouched : ∀ e, (∀ change ∈ changes, change.key ≠ e.1) → (e ∈ S ↔ e ∈ S')

theorem updateTree_ok {disk : Disk} {kind : SetKind} {changes : List Change}
    {entriesInBucket : ℕ → List (Digest32 × Digest32)} {S S' : List (Digest32 × Digest32)}
    (h : TreeStep disk kind changes entriesInBucket S S') (generation : ℕ) :
    ∃ steps file', updateTree disk kind changes entriesInBucket generation =
        .ok (steps, specRoot S') ∧ (readFrom file').1.Represents S' ∧
      ∀ d : Disk, d.trees kind = disk.trees kind → d.run steps = d.withTree kind file' := by
  obtain ⟨file, hfile, hrep⟩ := h.tree
  by_cases hempty : changes.isEmpty = true
  · have hnil : changes = [] := List.isEmpty_iff.mp hempty
    have hsame : ∀ e, e ∈ S ↔ e ∈ S' := fun e => h.untouched e (by simp [hnil])
    have hrep' := hrep.congr hsame
    refine ⟨[], file, ?_, hrep', ?_⟩
    · unfold updateTree readRoot readTree
      rw [if_pos hempty, hfile, ← hrep'.root_eq]
      rfl
    · intro d hd
      rw [Disk.withTree, ← hfile, ← hd, Function.update_eq_self]
      rfl
  · have hlt : ∀ idx ∈ touchedBuckets changes, idx < 1048576 := by
      intro idx hidx
      obtain ⟨change, _, rfl⟩ := mem_touchedBuckets.mp hidx
      exact bucketIndex_lt _
    let bucketEntries := fun idx =>
      applyChangesInBucket (entriesInBucket idx) (groupChangesByBucket changes idx) idx
    have hpre : ∀ idx ∈ touchedBuckets changes,
        (bucketEntries idx).1 = (canonOn Prod.fst (bucketOf S idx)).length := by
      intro idx hidx
      have hnd : ((bucketOf S idx).map Prod.fst).Nodup := by
        obtain ⟨change, hchange, rfl⟩ := mem_touchedBuckets.mp hidx
        exact h.distinct change hchange
      simp only [bucketEntries, applyChangesInBucket, h.entries idx (hlt idx hidx)]
      exact (canonOn_perm hnd).length_eq.symm
    have hpost : ∀ idx ∈ touchedBuckets changes, ∀ e,
        e ∈ (bucketEntries idx).2 ↔ e ∈ bucketOf S' idx := by
      intro idx hidx e
      simp only [bucketEntries, applyChangesInBucket, h.entries idx (hlt idx hidx)]
      exact h.touched idx (hlt idx hidx) e
    have hrest : ∀ e, bucketIndex e.1 ∉ touchedBuckets changes → (e ∈ S ↔ e ∈ S') := by
      intro e he
      refine h.untouched e (fun change hchange hkey => he ?_)
      rw [← hkey]
      exact mem_touchedBuckets.mpr ⟨change, hchange, rfl⟩
    obtain ⟨set', hset', hrep'⟩ := update_ok hrep h.functional h.sets hpre hpost hrest
    have hread := hrep'.readFrom_writeTo kind generation
    refine ⟨persistSlots set' (touchedBuckets changes) kind generation,
      set'.writeTo kind generation, ?_, hread, ?_⟩
    · have hload : loadAndUpdate disk kind changes bucketEntries =
          .ok (set', touchedBuckets changes) := by
        unfold loadAndUpdate readTree
        rw [hfile]
        simp only [bind, Except.bind, hset']
      unfold updateTree
      rw [if_neg hempty, ← hrep'.root_eq]
      simp only [bind, Except.bind, bucketEntries] at hload ⊢
      rw [hload]
    · intro d hd
      rw [persistSlots, run_tree_steps d kind _ (hd.trans hfile), apply_writeSlots hset']

theorem treeStep_sets_deletes {disk : Disk} {kind : SetKind}
    {entriesInBucket : ℕ → List (Digest32 × Digest32)} {S S' opened : List (Digest32 × Digest32)}
    {closed : List Digest32}
    (tree : ∃ file, disk.trees kind = some file ∧ (readFrom file).1.Represents S)
    (entries : ∀ idx < 1048576, entriesInBucket idx = bucketOf S idx)
    (distinct : ∀ key ∈ opened.map Prod.fst ++ closed,
      ((bucketOf S (bucketIndex key)).map Prod.fst).Nodup)
    (hopened : Functional Prod.fst opened) (hfresh : ∀ e ∈ S, e.1 ∉ opened.map Prod.fst)
    (hnot : ∀ e ∈ opened, e.1 ∉ closed)
    (hmem : ∀ e, e ∈ S' ↔ e ∈ opened ∨ (e ∈ S ∧ e.1 ∉ closed)) :
    TreeStep disk kind (opened.map (fun x => Change.set x.1 x.2) ++ closed.map Change.delete)
      entriesInBucket S S' := by
  obtain ⟨file, hfile, hrep⟩ := tree
  refine ⟨⟨file, hfile, hrep⟩, entries, ?_, ?_, ?_, ?_, ?_⟩
  · intro change hchange
    refine distinct change.key ?_
    rcases List.mem_append.mp hchange with hset | hdelete
    · obtain ⟨x, hx, rfl⟩ := List.mem_map.mp hset
      exact List.mem_append_left _ (List.mem_map_of_mem hx)
    · obtain ⟨key, hkey, rfl⟩ := List.mem_map.mp hdelete
      exact List.mem_append_right _ hkey
  · intro a ha b hb hab
    rcases (hmem a).mp ha with ha | ha <;> rcases (hmem b).mp hb with hb | hb
    · exact hopened a ha b hb hab
    · exact absurd (List.mem_map.mpr ⟨a, ha, hab⟩) (hfresh b hb.1)
    · exact absurd (List.mem_map.mpr ⟨b, hb, hab.symm⟩) (hfresh a ha.1)
    · exact hrep.functional a ha.1 b hb.1 hab
  · rw [setEntries_append, setEntries_sets, setEntries_deletes, List.append_nil]
    exact hopened
  · intro idx hidx e
    rw [groupChanges_append, groupChanges_sets, groupChanges_deletes, List.foldl_append,
      foldl_deletes (fun k hk => by simpa using (List.mem_filter.mp hk).2),
      foldl_sets (functional_bucketOf hopened idx) (fun x hx => (mem_bucketOf.mp hx).2),
        mem_bucketOf,
      mem_bucketOf, mem_bucketOf, hmem, List.mem_filter, decide_eq_true_eq]
    constructor
    · rintro ⟨⟨⟨hS, hidx⟩, hnotset⟩ | ⟨hset, hidx⟩, hkeep⟩
      · exact ⟨Or.inr ⟨hS, fun hc => hkeep ⟨hc, hidx⟩⟩, hidx⟩
      · exact ⟨Or.inl hset, hidx⟩
    · rintro ⟨hset | ⟨hS, hkeep⟩, hidx⟩
      · exact ⟨Or.inr ⟨hset, hidx⟩, fun hc => hnot e hset hc.1⟩
      · refine ⟨Or.inl ⟨⟨hS, hidx⟩, ?_⟩, fun hc => hkeep hc.1⟩
        intro hkey
        obtain ⟨x, hx, hxk⟩ := List.mem_map.mp hkey
        exact hfresh e hS (List.mem_map.mpr ⟨x, (mem_bucketOf.mp hx).1, hxk⟩)
  · intro e hnone
    rw [hmem]
    constructor
    · intro hS
      exact Or.inr ⟨hS, fun hc =>
        hnone (.delete e.1) (List.mem_append_right _ (List.mem_map_of_mem hc)) rfl⟩
    · rintro (hset | ⟨hS, -⟩)
      · exact absurd rfl (hnone (.set e.1 e.2)
          (List.mem_append_left _ (List.mem_map.mpr ⟨e, hset, rfl⟩)))
      · exact hS

end Update

end StructuralStore
