import Urdira.IndexingCore.MerkleTreeFile

open ByteOrder KeyedSet

namespace MerkleBucket

namespace BucketedMerkleSet

section Consistent

structure Consistent (changes : List Change) (bucketEntries : ℕ → ℕ × List (Digest32 × Digest32))
    (S S' : List (Digest32 × Digest32)) : Prop where
  functional : Functional Prod.fst S'
  old : ∀ idx ∈ touchedBuckets changes,
    (bucketEntries idx).1 = (canonOn Prod.fst (bucketOf S idx)).length
  new : ∀ idx ∈ touchedBuckets changes, ∀ e, e ∈ (bucketEntries idx).2 ↔ e ∈ bucketOf S' idx
  rest : ∀ e, bucketIndex e.1 ∉ touchedBuckets changes → (e ∈ S ↔ e ∈ S')

end Consistent

section History

variable [Sha256]

inductive History : BucketedMerkleSet → Option TreeFile → List ℕ → List (Digest32 × Digest32) → Prop
  | empty : History empty none [] []
  | fromSorted {S : List (Digest32 × Digest32)} {set : BucketedMerkleSet}
      (built : fromSorted S = .ok set) : History set none [] S
  | update {set set' : BucketedMerkleSet} {file : Option TreeFile} {dirty : List ℕ}
      {S S' : List (Digest32 × Digest32)} {changes : List Change}
      {bucketEntries : ℕ → ℕ × List (Digest32 × Digest32)} (before : History set file dirty S)
      (consistent : Consistent changes bucketEntries S S')
      (updated : set.update changes bucketEntries = .ok set') :
      History set' file (touchedBuckets changes ++ dirty) S'
  | writeTo {set : BucketedMerkleSet} {file : Option TreeFile} {dirty : List ℕ}
      {S : List (Digest32 × Digest32)} (before : History set file dirty S) (kind : SetKind)
      (generation : ℕ) : History set (some (set.writeTo kind generation)) [] S
  | writeSlots {set : BucketedMerkleSet} {file : TreeFile} {dirty touched : List ℕ}
      {S : List (Digest32 × Digest32)} (before : History set (some file) dirty S)
      (covers : ∀ idx ∈ dirty, idx ∈ touched) (inRange : ∀ idx ∈ touched,
        idx < MerkleBucket.bucketCount)
      (kind : SetKind) (generation : ℕ) :
      History set (some ((set.writeSlots touched kind generation).foldl TreeFile.apply file)) [] S
  | readFrom {set : BucketedMerkleSet} {file : TreeFile} {S : List (Digest32 × Digest32)}
      (before : History set (some file) [] S) : History (readFrom file).1 (some file) [] S

structure Synced (set : BucketedMerkleSet) (file : TreeFile) (dirty : List ℕ) : Prop where
  nodes : ∀ depth idx, ¬ NodeTouched dirty depth idx →
    file.nodeLevels depth idx = set.nodeLevels depth idx
  buckets : ∀ idx, idx ∉ dirty → file.bucketLevel idx = set.bucketLevel idx
  count : dirty = [] → file.count = set.count

theorem empty_represents : (empty : BucketedMerkleSet).Represents [] where
  functional := by simp [Functional]
  buckets := fun idx _ => rfl
  nodes := by
    intro depth hdepth idx _
    interval_cases depth <;> rfl
  count := rfl

omit [Sha256] in
theorem synced_writeTo (set : BucketedMerkleSet) (kind : SetKind) (generation : ℕ) :
    Synced set (set.writeTo kind generation) [] :=
  ⟨fun _ _ _ => rfl, fun _ _ => rfl, fun _ => rfl⟩

theorem Synced.update {set set' : BucketedMerkleSet} {file : TreeFile} {dirty : List ℕ}
    {changes : List Change} {bucketEntries : ℕ → ℕ × List (Digest32 × Digest32)}
    (h : Synced set file dirty) (updated : set.update changes bucketEntries = .ok set') :
    Synced set' file (touchedBuckets changes ++ dirty) where
  nodes := by
    intro depth idx hnot
    rw [h.nodes depth idx (fun ⟨hd, b, hb, he⟩ => hnot ⟨hd, b, List.mem_append_right _ hb, he⟩)]
    refine ((update_frame updated).1 depth idx (fun ht => hnot ?_)).symm
    obtain ⟨hd, b, hb, he⟩ := ht
    exact ⟨hd, b, List.mem_append_left _ hb, he⟩
  buckets := by
    intro idx hnot
    rw [h.buckets idx (fun hmem => hnot (List.mem_append_right _ hmem))]
    exact ((update_frame updated).2 idx (fun hmem => hnot (List.mem_append_left _ hmem))).symm
  count := by
    intro hnil
    obtain ⟨htouched, hdirty⟩ := List.append_eq_nil_iff.mp hnil
    rw [BucketedMerkleSet.update, htouched] at updated
    cases hc : checkIntended changes [] with
    | error e => rw [hc] at updated; cases updated
    | ok u =>
      rw [hc] at updated
      cases updated
      exact h.count hdirty

omit [Sha256] in
theorem Synced.writeSlots {set : BucketedMerkleSet} {file : TreeFile} {dirty touched : List ℕ}
    (h : Synced set file dirty) (covers : ∀ idx ∈ dirty, idx ∈ touched)
    (inRange : ∀ idx ∈ touched, idx < MerkleBucket.bucketCount) (kind : SetKind) (generation : ℕ) :
    Synced set ((set.writeSlots touched kind generation).foldl TreeFile.apply file) [] := by
  have hlt : ∀ idx ∈ touched, idx < 1048576 := by
    simpa [MerkleBucket.bucketCount] using inRange
  have hmem := fun slot => mem_canonOn (functional_slotByteOffset hlt) slot
  have hrun : (set.writeSlots touched kind generation).foldl TreeFile.apply file =
      (((canonOn slotByteOffset (touched.flatMap touchedSlots)).map set.slotWrite).foldl
        TreeFile.apply file).apply (.header kind generation set.count set.root) := by
    rw [BucketedMerkleSet.writeSlots, List.foldl_append, List.foldl_cons, List.foldl_nil]
  rw [hrun]
  refine ⟨?_, ?_, fun _ => rfl⟩
  · intro depth idx _
    change (((canonOn slotByteOffset (touched.flatMap touchedSlots)).map set.slotWrite).foldl
      TreeFile.apply file).nodeLevels depth idx = _
    rw [apply_slotWrites_nodeLevels]
    split
    · rfl
    · rename_i hslot
      refine h.nodes depth idx ?_
      rintro ⟨hd, b, hb, he⟩
      refine hslot ⟨by omega, (hmem _).mpr ?_⟩
      exact mem_touchedSlots.mpr (Or.inr ⟨hd, b, covers b hb, he⟩)
  · intro idx _
    change (((canonOn slotByteOffset (touched.flatMap touchedSlots)).map set.slotWrite).foldl
      TreeFile.apply file).bucketLevel idx = _
    rw [apply_slotWrites_bucketLevel]
    split
    · rfl
    · rename_i hslot
      refine h.buckets idx (fun hd => hslot ((hmem _).mpr ?_))
      exact mem_touchedSlots.mpr (Or.inl ⟨rfl, covers idx hd⟩)

omit [Sha256] in
theorem readFrom_childLevel {set : BucketedMerkleSet} {file : TreeFile} (h : Synced set file [])
    (depth idx : ℕ) : (readFrom file).1.childLevel depth idx = set.childLevel depth idx := by
  unfold childLevel
  split
  · exact h.buckets idx (by simp)
  · exact h.nodes (depth + 1) idx (by simp [NodeTouched])

theorem Represents.readFrom {set : BucketedMerkleSet} {file : TreeFile}
    {S : List (Digest32 × Digest32)} (h : set.Represents S) (hs : Synced set file []) :
    (readFrom file).1.Represents S where
  functional := h.functional
  buckets := fun idx hidx => (hs.buckets idx (by simp)).trans (h.buckets idx hidx)
  nodes := by
    intro depth hdepth idx hidx
    have hnode := h.nodes depth hdepth idx hidx
    unfold NodeOk at hnode ⊢
    have hfile : (BucketedMerkleSet.readFrom file).1.nodeLevels depth idx =
        set.nodeLevels depth idx :=
      hs.nodes depth idx (by simp [NodeTouched])
    rw [hfile, hnode]
    congr 1
    funext digit
    exact (readFrom_childLevel hs depth _).symm
  count := (hs.count rfl).trans h.count

theorem Represents.update {set set' : BucketedMerkleSet} {S S' : List (Digest32 × Digest32)}
    {changes : List Change} {bucketEntries : ℕ → ℕ × List (Digest32 × Digest32)}
    (h : set.Represents S) (consistent : Consistent changes bucketEntries S S')
    (updated : set.update changes bucketEntries = .ok set') : set'.Represents S' := by
  obtain ⟨set'', hset'', hrep⟩ := updateTouched_ok h consistent.functional consistent.old
    consistent.new consistent.rest
  unfold BucketedMerkleSet.update at updated
  cases hc : checkIntended changes [] with
  | error e => rw [hc] at updated; cases updated
  | ok u =>
    rw [hc] at updated
    obtain rfl := Except.ok.inj (hset''.symm.trans updated)
    exact hrep

theorem History.represents {set : BucketedMerkleSet} {file : Option TreeFile} {dirty : List ℕ}
    {S : List (Digest32 × Digest32)} (h : History set file dirty S) :
    set.Represents S ∧ ∀ f, file = some f → Synced set f dirty := by
  induction h with
  | empty => exact ⟨empty_represents, by simp⟩
  | @fromSorted S set built =>
    by_cases hconf : hasConflict (sortOn Prod.fst S) = true
    · unfold BucketedMerkleSet.fromSorted at built
      simp only [hconf, if_true] at built
      cases built
    · obtain ⟨set', hset', hrep⟩ := fromSorted_ok ((hasConflict_sortOn S).mp (by simpa using hconf))
      obtain rfl := Except.ok.inj (built.symm.trans hset')
      exact ⟨hrep, by simp⟩
  | update before consistent updated ih =>
    exact ⟨ih.1.update consistent updated, fun f hf => (ih.2 f hf).update updated⟩
  | writeTo before kind generation ih =>
    refine ⟨ih.1, fun f hf => ?_⟩
    obtain rfl := Option.some.inj hf
    exact synced_writeTo _ kind generation
  | writeSlots before covers inRange kind generation ih =>
    refine ⟨ih.1, fun f hf => ?_⟩
    obtain rfl := Option.some.inj hf
    exact (ih.2 _ rfl).writeSlots covers inRange kind generation
  | readFrom before ih =>
    have hs := ih.2 _ rfl
    refine ⟨ih.1.readFrom hs, fun f hf => ?_⟩
    obtain rfl := Option.some.inj hf
    exact ⟨fun _ _ _ => rfl, fun _ _ => rfl, fun _ => rfl⟩

theorem history_independent {set : BucketedMerkleSet} {file : Option TreeFile} {dirty : List ℕ}
    {S : List (Digest32 × Digest32)} (h : History set file dirty S) :
    (∃ built, fromSorted S = .ok built ∧ set.root = built.root ∧ set.count = built.count) ∧
      (∀ set₂ file₂ dirty₂ S₂, History set₂ file₂ dirty₂ S₂ → (∀ e, e ∈ S ↔ e ∈ S₂) →
        set.root = set₂.root ∧ set.count = set₂.count) ∧
      ∀ changes bucketEntries S', Consistent changes bucketEntries S S' →
        Functional Prod.fst (setEntries changes) →
        ∃ set', set.update changes bucketEntries = .ok set' := by
  obtain ⟨hrep, -⟩ := h.represents
  refine ⟨?_, ?_, ?_⟩
  · obtain ⟨built, hbuilt, hrep'⟩ := fromSorted_ok hrep.functional
    exact ⟨built, hbuilt, hrep.root_eq.trans hrep'.root_eq.symm, hrep.count.trans hrep'.count.symm⟩
  · intro set₂ file₂ dirty₂ S₂ h₂ hsame
    obtain ⟨hrep₂, -⟩ := h₂.represents
    have hrep' := hrep.congr hsame
    exact ⟨hrep'.root_eq.trans hrep₂.root_eq.symm, hrep'.count.trans hrep₂.count.symm⟩
  · intro changes bucketEntries S' hc hsets
    obtain ⟨set', hset', -⟩ := update_ok hrep hc.functional hsets hc.old hc.new hc.rest
    exact ⟨set', hset'⟩

end History

section Instance

abbrev constantDigest : Sha256 where
  digest := fun _ => Block.fill 32 1

theorem consistent_insert (key logical : Digest32) :
    Consistent [.set key logical] (fun _ => (0, [(key, logical)])) [] [(key, logical)] where
  functional := by simp [Functional]
  old := fun _ _ => rfl
  new := by
    intro idx hidx e
    obtain ⟨change, hchange, rfl⟩ := mem_touchedBuckets.mp hidx
    obtain rfl := List.mem_singleton.mp hchange
    rw [mem_bucketOf, List.mem_singleton]
    constructor
    · rintro rfl
      exact ⟨rfl, rfl⟩
    · exact fun h => h.1
  rest := by
    intro e he
    simp only [List.not_mem_nil, List.mem_singleton, false_iff]
    rintro rfl
    exact he (mem_touchedBuckets.mpr ⟨_, List.mem_singleton.mpr rfl, rfl⟩)

theorem consistent_remove (key logical : Digest32) :
    Consistent [.delete key] (fun _ => (1, [])) [(key, logical)] [] where
  functional := by simp [Functional]
  old := by
    intro idx hidx
    obtain ⟨change, hchange, rfl⟩ := mem_touchedBuckets.mp hidx
    obtain rfl := List.mem_singleton.mp hchange
    have hbucket : bucketOf [(key, logical)] (bucketIndex (Change.delete key).key) =
        [(key, logical)] := by
      simp [bucketOf, Change.key]
    rw [hbucket]
    rfl
  new := fun _ _ e => by simp
  rest := by
    intro e he
    simp only [List.not_mem_nil, List.mem_singleton, iff_false]
    rintro rfl
    exact he (mem_touchedBuckets.mpr ⟨_, List.mem_singleton.mpr rfl, rfl⟩)

theorem history_independent_emptied :
    ∃ set file, @History constantDigest set (some file) [] [] ∧ set.root = zero ∧
      set.count = 0 := by
  let _ := constantDigest
  have h₀ : History empty (some (empty.writeTo .records 1)) [] [] :=
    History.empty.writeTo .records 1
  obtain ⟨-, -, hnext⟩ := history_independent h₀
  obtain ⟨set₁, hset₁⟩ :=
    hnext _ _ _ (consistent_insert (Block.fill 32 2) (Block.fill 32 3))
      (by simp [Functional, setEntries])
  have h₁ := h₀.update (consistent_insert _ _) hset₁
  have h₂ := (h₁.writeSlots (fun _ h => h) (by decide) .records 2).readFrom
  obtain ⟨-, -, hnext⟩ := history_independent h₂
  obtain ⟨set₂, hset₂⟩ :=
    hnext _ _ _ (consistent_remove (Block.fill 32 2) (Block.fill 32 3))
      (by simp [Functional, setEntries])
  have h₃ := (h₂.update (consistent_remove _ _) hset₂).writeTo .records 3
  obtain ⟨⟨built, hbuilt, hroot, hcount⟩, -⟩ := history_independent h₃
  have hempty : (fromSorted []).map (fun set => (set.root, set.count)) = .ok (zero, 0) := by
    decide +kernel
  rw [hbuilt] at hempty
  obtain ⟨hr, hc⟩ := Prod.mk.inj (Except.ok.inj hempty)
  exact ⟨_, _, h₃, hroot.trans hr, hcount.trans hc⟩

end Instance

end BucketedMerkleSet

end MerkleBucket
