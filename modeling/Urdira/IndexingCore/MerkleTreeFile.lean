import Urdira.IndexingCore.MerkleBucketUpdate

open ByteOrder KeyedSet

namespace MerkleBucket

namespace BucketedMerkleSet

def NodeTouched (touched : List ℕ) (depth idx : ℕ) : Prop :=
  depth ≤ 4 ∧ ∃ bucketIdx ∈ touched, idx = parentIndex bucketIdx depth

theorem mem_touchedSlots {touched : List ℕ} {depth idx : ℕ} :
    (depth, idx) ∈ touched.flatMap touchedSlots ↔
      (depth = 5 ∧ idx ∈ touched) ∨ NodeTouched touched depth idx := by
  simp only [List.mem_flatMap, touchedSlots, List.map_cons, List.map_nil, List.mem_cons,
    Prod.mk.injEq, List.not_mem_nil, or_false, NodeTouched]
  constructor
  · rintro ⟨b, hb, ⟨rfl, rfl⟩ | ⟨rfl, rfl⟩ | ⟨rfl, rfl⟩ | ⟨rfl, rfl⟩ | ⟨rfl, rfl⟩ | ⟨rfl, rfl⟩⟩
    · exact Or.inl ⟨rfl, hb⟩
    all_goals exact Or.inr ⟨by omega, b, hb, rfl⟩
  · rintro (⟨rfl, h⟩ | ⟨hd, b, hb, rfl⟩)
    · exact ⟨idx, h, Or.inl ⟨rfl, rfl⟩⟩
    · refine ⟨b, hb, ?_⟩
      interval_cases depth <;> simp

theorem parentIndex_lt {bucketIdx depth : ℕ} (hb : bucketIdx < 1048576) (hd : depth ≤ 4) :
    parentIndex bucketIdx depth < 16 ^ depth := by
  unfold parentIndex
  rw [Nat.shiftRight_eq_div_pow, Nat.div_lt_iff_lt_mul (by positivity)]
  interval_cases depth <;> omega

theorem functional_slotByteOffset {touched : List ℕ} (h : ∀ b ∈ touched, b < 1048576) :
    Functional slotByteOffset (touched.flatMap touchedSlots) := by
  have hbound : ∀ depth idx, (depth, idx) ∈ touched.flatMap touchedSlots →
      depth ≤ 5 ∧ idx < 16 ^ depth := by
    intro depth idx hmem
    rcases mem_touchedSlots.mp hmem with ⟨rfl, hidx⟩ | ⟨hd, b, hb, rfl⟩
    · exact ⟨le_rfl, h idx hidx⟩
    · exact ⟨by omega, parentIndex_lt (h b hb) hd⟩
  rintro ⟨d, i⟩ ha ⟨d', i'⟩ hb hab
  obtain ⟨hd, hi⟩ := hbound d i ha
  obtain ⟨hd', hi'⟩ := hbound d' i' hb
  simp only [slotByteOffset] at hab
  have hsum : levelSlotOffset d + i = levelSlotOffset d' + i' := by omega
  interval_cases d <;> interval_cases d' <;> simp [levelSlotOffset] at hsum hi hi' ⊢ <;> omega

section Apply

theorem apply_slotWrites_nodeLevels (set : BucketedMerkleSet) (slots : List (ℕ × ℕ))
    (file : TreeFile)
    (depth idx : ℕ) :
    ((slots.map set.slotWrite).foldl TreeFile.apply file).nodeLevels depth idx =
      if depth ≠ 5 ∧ (depth, idx) ∈ slots then set.nodeLevels depth idx
      else file.nodeLevels depth idx := by
  induction slots generalizing file with
  | nil => simp
  | cons slot slots ih =>
    obtain ⟨d, i⟩ := slot
    rw [List.map_cons, List.foldl_cons, ih]
    by_cases hd : d = 5
    · subst hd
      by_cases hdepth : depth = 5 <;> simp [slotWrite, TreeFile.apply, hdepth]
    · by_cases hslot : depth = d ∧ idx = i
      · obtain ⟨rfl, rfl⟩ := hslot
        simp [slotWrite, TreeFile.apply, hd]
      · have hne : (depth, idx) ≠ (d, i) := fun he => hslot (Prod.mk.inj he)
        have hfile : (file.apply (set.slotWrite (d, i))).nodeLevels depth idx =
            file.nodeLevels depth idx := by
          simp only [slotWrite, if_neg hd, TreeFile.apply]
          by_cases hdd : depth = d
          · subst hdd
            have hidx : idx ≠ i := fun he => hslot ⟨rfl, he⟩
            simp [Function.update_of_ne hidx]
          · simp [Function.update_of_ne hdd]
        simp only [List.mem_cons, hne, false_or, hfile]

theorem apply_slotWrites_bucketLevel (set : BucketedMerkleSet) (slots : List (ℕ × ℕ))
    (file : TreeFile)
    (idx : ℕ) :
    ((slots.map set.slotWrite).foldl TreeFile.apply file).bucketLevel idx =
      if (5, idx) ∈ slots then set.bucketLevel idx else file.bucketLevel idx := by
  induction slots generalizing file with
  | nil => simp
  | cons slot slots ih =>
    obtain ⟨d, i⟩ := slot
    rw [List.map_cons, List.foldl_cons, ih]
    by_cases hd : d = 5
    · subst hd
      by_cases hidx : idx = i
      · subst hidx
        simp [slotWrite, TreeFile.apply]
      · have hfile : (file.apply (set.slotWrite (5, i))).bucketLevel idx =
            file.bucketLevel idx := by
          simp [slotWrite, TreeFile.apply, Function.update_of_ne hidx]
        simp [hidx, hfile]
    · have hfile : (file.apply (set.slotWrite (d, i))).bucketLevel idx = file.bucketLevel idx := by
        simp [slotWrite, TreeFile.apply, hd]
      have hne : (5 : ℕ) ≠ d := fun he => hd he.symm
      simp [hne, hfile]

end Apply

section Frame

variable [Sha256]

theorem recomputeAncestors_nodeLevels (set : BucketedMerkleSet) (bucketIdx depth idx : ℕ)
    (h : ¬ (depth ≤ 4 ∧ idx = parentIndex bucketIdx depth)) :
    (set.recomputeAncestors bucketIdx).nodeLevels depth idx = set.nodeLevels depth idx := by
  have hstep : ∀ (t : BucketedMerkleSet) (d : ℕ), d ≤ 4 →
      (t.recomputeNode bucketIdx d).nodeLevels depth idx = t.nodeLevels depth idx := by
    intro t d hd
    unfold recomputeNode
    by_cases hdd : depth = d
    · subst hdd
      have hne : idx ≠ parentIndex bucketIdx depth := fun he => h ⟨hd, he⟩
      simp [Function.update_of_ne hne]
    · simp [Function.update_of_ne hdd]
  simp only [recomputeAncestors, List.foldl_cons, List.foldl_nil]
  rw [hstep _ 0 (by omega), hstep _ 1 (by omega), hstep _ 2 (by omega), hstep _ 3 (by omega),
    hstep _ 4 (by omega)]

theorem updateBucket_frame {set set' : BucketedMerkleSet} {bucketIdx oldCount : ℕ}
    {entries : List (Digest32 × Digest32)}
    (h : set.updateBucket bucketIdx oldCount entries = .ok set') :
    (∀ depth idx, ¬ (depth ≤ 4 ∧ idx = parentIndex bucketIdx depth) →
        set'.nodeLevels depth idx = set.nodeLevels depth idx) ∧
      ∀ idx, idx ≠ bucketIdx → set'.bucketLevel idx = set.bucketLevel idx := by
  unfold updateBucket at h
  dsimp only at h
  split at h
  · cases h
  · split at h
    · cases h
    · obtain rfl := Except.ok.inj h
      constructor
      · intro depth idx hnot
        rw [recomputeAncestors_nodeLevels _ _ _ _ hnot]
      · intro idx hne
        rw [recomputeAncestors_bucketLevel]
        exact Function.update_of_ne hne _ _

theorem updateBuckets_frame {bucketEntries : ℕ → ℕ × List (Digest32 × Digest32)} {touched : List ℕ}
    {set set' : BucketedMerkleSet}
    (h : touched.foldlM
      (fun t idx => t.updateBucket idx (bucketEntries idx).1 (bucketEntries idx).2) set =
        .ok set') :
    (∀ depth idx, ¬ NodeTouched touched depth idx →
        set'.nodeLevels depth idx = set.nodeLevels depth idx) ∧
      ∀ idx, idx ∉ touched → set'.bucketLevel idx = set.bucketLevel idx := by
  induction touched generalizing set with
  | nil =>
    obtain rfl := Except.ok.inj h
    simp
  | cons b touched ih =>
    rw [List.foldlM_cons] at h
    cases hb : set.updateBucket b (bucketEntries b).1 (bucketEntries b).2 with
    | error e => rw [hb] at h; cases h
    | ok set₁ =>
      rw [hb] at h
      obtain ⟨hn, hl⟩ := ih h
      obtain ⟨hn₁, hl₁⟩ := updateBucket_frame hb
      constructor
      · intro depth idx hnot
        rw [hn depth idx (fun ⟨hd, c, hc, he⟩ => hnot ⟨hd, c, by simp [hc], he⟩)]
        exact hn₁ depth idx (fun ⟨hd, he⟩ => hnot ⟨hd, b, by simp, he⟩)
      · intro idx hnot
        rw [hl idx (fun hc => hnot (by simp [hc]))]
        exact hl₁ idx (fun he => hnot (by simp [he]))

theorem update_frame {set set' : BucketedMerkleSet} {changes : List Change}
    {bucketEntries : ℕ → ℕ × List (Digest32 × Digest32)}
    (h : set.update changes bucketEntries = .ok set') :
    (∀ depth idx, ¬ NodeTouched (touchedBuckets changes) depth idx →
        set'.nodeLevels depth idx = set.nodeLevels depth idx) ∧
      ∀ idx, idx ∉ touchedBuckets changes → set'.bucketLevel idx = set.bucketLevel idx := by
  rw [update] at h
  cases hc : checkIntended changes [] with
  | error e => rw [hc] at h; cases h
  | ok u =>
    rw [hc] at h
    exact updateBuckets_frame h

theorem apply_writeSlots {file : TreeFile} {set' : BucketedMerkleSet} {changes : List Change}
    {bucketEntries : ℕ → ℕ × List (Digest32 × Digest32)}
    (h : (readFrom file).1.update changes bucketEntries = .ok set') (kind : SetKind)
    (generation : ℕ) :
    (set'.writeSlots (touchedBuckets changes) kind generation).foldl TreeFile.apply file =
      set'.writeTo kind generation := by
  obtain ⟨hn, hl⟩ := update_frame h
  have hlt : ∀ b ∈ touchedBuckets changes, b < 1048576 := by
    intro b hb
    obtain ⟨change, _, rfl⟩ := mem_touchedBuckets.mp hb
    exact bucketIndex_lt _
  have hmem := fun slot => mem_canonOn (functional_slotByteOffset hlt) slot
  have hnodes : ∀ depth idx, ((((canonOn slotByteOffset
      ((touchedBuckets changes).flatMap touchedSlots)).map set'.slotWrite).foldl
        TreeFile.apply file).nodeLevels depth idx) = set'.nodeLevels depth idx := by
    intro depth idx
    rw [apply_slotWrites_nodeLevels]
    split
    · rfl
    · rename_i hnot
      refine (hn depth idx (fun ht => hnot
        ⟨?_, (hmem _).mpr (mem_touchedSlots.mpr (Or.inr ht))⟩)).symm
      have := ht.1
      omega
  have hbuckets : ∀ idx, ((((canonOn slotByteOffset
      ((touchedBuckets changes).flatMap touchedSlots)).map set'.slotWrite).foldl
        TreeFile.apply file).bucketLevel idx) = set'.bucketLevel idx := by
    intro idx
    rw [apply_slotWrites_bucketLevel]
    split
    · rfl
    · rename_i hnot
      exact (hl idx (fun ht => hnot ((hmem _).mpr (mem_touchedSlots.mpr (Or.inl ⟨rfl, ht⟩))))).symm
  rw [writeSlots, List.foldl_append, List.foldl_cons, List.foldl_nil, TreeFile.apply, writeTo,
    TreeFile.mk.injEq]
  exact ⟨rfl, rfl, rfl, rfl, funext fun depth => funext fun idx => hnodes depth idx,
    funext hbuckets⟩

theorem Represents.readFrom_writeTo {set : BucketedMerkleSet} {S : List (Digest32 × Digest32)}
    (h : set.Represents S) (kind : SetKind) (generation : ℕ) :
    (readFrom (set.writeTo kind generation)).1.Represents S :=
  ⟨h.functional, h.buckets, h.nodes, h.count⟩

end Frame

end BucketedMerkleSet

end MerkleBucket
