import Urdira.IndexingCore.MerkleBucketSpec

open ByteOrder KeyedSet

namespace MerkleBucket

namespace BucketedMerkleSet

theorem parentIndex_succ (bucketIdx depth : ℕ) (hd : depth < 5) :
    parentIndex bucketIdx depth = parentIndex bucketIdx (depth + 1) / 16 := by
  unfold parentIndex
  rw [Nat.shiftRight_eq_div_pow, Nat.shiftRight_eq_div_pow, Nat.div_div_eq_div_mul]
  congr 1
  have : 4 * (5 - depth) = 4 * (5 - (depth + 1)) + 4 := by omega
  rw [this, pow_add]
  norm_num

theorem parentIndex_five (bucketIdx : ℕ) : parentIndex bucketIdx 5 = bucketIdx := by
  simp [parentIndex]

variable [Sha256]

def NodesOkBut (set : BucketedMerkleSet) (bucketIdx below : ℕ) : Prop :=
  ∀ depth ≤ 4, ∀ idx < 16 ^ depth,
    (depth < below ∧ idx = parentIndex bucketIdx depth) ∨ set.NodeOk depth idx

theorem recomputeNode_nodes {set : BucketedMerkleSet} {bucketIdx depth : ℕ} (hd : depth ≤ 4)
    (h : set.NodesOkBut bucketIdx (depth + 1)) :
    (set.recomputeNode bucketIdx depth).NodesOkBut bucketIdx depth := by
  intro d hd4 idx hidx
  have hchild : ∀ i, (d + 1, i) ≠ (depth, parentIndex bucketIdx depth) →
      (set.recomputeNode bucketIdx depth).childLevel d i = set.childLevel d i := by
    intro i hi
    unfold childLevel recomputeNode
    split
    · rfl
    · by_cases hdd : d + 1 = depth
      · subst hdd
        have hne : i ≠ parentIndex bucketIdx (d + 1) := fun he => hi (by rw [he])
        simp [Function.update_of_ne hne]
      · simp [Function.update_of_ne hdd]
  by_cases hself : d = depth ∧ idx = parentIndex bucketIdx depth
  · obtain ⟨rfl, rfl⟩ := hself
    right
    unfold NodeOk
    have hfun : (fun digit : Fin 16 => (set.recomputeNode bucketIdx d).childLevel d
        (parentIndex bucketIdx d * 16 + digit)) =
        fun digit : Fin 16 => set.childLevel d (parentIndex bucketIdx d * 16 + digit) := by
      funext digit
      refine hchild _ ?_
      intro heq
      have := congrArg Prod.fst heq
      simp at this
    rw [hfun]
    simp [recomputeNode]
  · have hsame : (set.recomputeNode bucketIdx depth).nodeLevels d idx = set.nodeLevels d idx := by
      unfold recomputeNode
      by_cases hdd : d = depth
      · subst hdd
        have hne : idx ≠ parentIndex bucketIdx d := fun he => hself ⟨rfl, he⟩
        simp [Function.update_of_ne hne]
      · simp [Function.update_of_ne hdd]
    by_cases hanc : d + 1 = depth ∧ idx = parentIndex bucketIdx d
    · exact Or.inl ⟨by omega, hanc.2⟩
    · have hok : set.NodeOk d idx ∨ (d < depth ∧ idx = parentIndex bucketIdx d) := by
        rcases h d hd4 idx hidx with ⟨hlt, he⟩ | hok
        · rcases Nat.lt_succ_iff_lt_or_eq.mp hlt with hlt | rfl
          · exact Or.inr ⟨hlt, he⟩
          · exact absurd ⟨rfl, he⟩ hself
        · exact Or.inl hok
      rcases hok with hok | hbad
      · right
        unfold NodeOk at hok ⊢
        rw [hsame, hok]
        congr 1
        funext digit
        refine (hchild _ ?_).symm
        intro heq
        obtain ⟨hd1, hi⟩ := Prod.mk.inj heq
        refine hanc ⟨hd1, ?_⟩
        rw [parentIndex_succ bucketIdx d (by omega), hd1, ← hi]
        omega
      · exact Or.inl hbad

theorem recomputeAncestors_nodes {set : BucketedMerkleSet} {bucketIdx : ℕ}
    (h : set.NodesOkBut bucketIdx 5) :
    ∀ depth ≤ 4, ∀ idx < 16 ^ depth, (set.recomputeAncestors bucketIdx).NodeOk depth idx := by
  have h₄ := recomputeNode_nodes (by omega) h
  have h₃ := recomputeNode_nodes (by omega) h₄
  have h₂ := recomputeNode_nodes (by omega) h₃
  have h₁ := recomputeNode_nodes (by omega) h₂
  have h₀ := recomputeNode_nodes (by omega) h₁
  intro depth hd idx hidx
  rcases h₀ depth hd idx hidx with ⟨hlt, _⟩ | hok
  · omega
  · exact hok

theorem recomputeAncestors_bucketLevel (set : BucketedMerkleSet) (bucketIdx : ℕ) :
    (set.recomputeAncestors bucketIdx).bucketLevel = set.bucketLevel := rfl

theorem recomputeAncestors_count (set : BucketedMerkleSet) (bucketIdx : ℕ) :
    (set.recomputeAncestors bucketIdx).count = set.count := rfl

omit [Sha256] in
theorem childLevel_bucketLevel_update {set : BucketedMerkleSet} {bucketIdx : ℕ} {value : Digest32}
    {c : ℕ} {bc : ℕ → ℕ} (depth idx : ℕ) (h : ¬ (depth = 4 ∧ idx = bucketIdx)) :
    BucketedMerkleSet.childLevel
      { set with
        count := c
        bucketCount := bc
        bucketLevel := Function.update set.bucketLevel bucketIdx value } depth idx =
      set.childLevel depth idx := by
  unfold childLevel
  split
  · rename_i hdepth
    exact Function.update_of_ne (fun he => h ⟨hdepth, he⟩) _ _
  · rfl

theorem nodesOkBut_of_bucket {set : BucketedMerkleSet} {bucketIdx : ℕ} {value : Digest32} {c : ℕ}
    {bc : ℕ → ℕ} (h : ∀ depth ≤ 4, ∀ idx < 16 ^ depth, set.NodeOk depth idx) :
    NodesOkBut
      { set with
        count := c
        bucketCount := bc
        bucketLevel := Function.update set.bucketLevel bucketIdx value } bucketIdx 5 := by
  intro depth hd idx hidx
  by_cases hanc : idx = parentIndex bucketIdx depth
  · exact Or.inl ⟨by omega, hanc⟩
  · right
    have hok := h depth hd idx hidx
    unfold NodeOk at hok ⊢
    refine hok.trans (congrArg (nodeDigest depth) (funext fun digit => ?_))
    refine (childLevel_bucketLevel_update _ _ ?_).symm
    rintro ⟨rfl, he⟩
    apply hanc
    rw [parentIndex_succ bucketIdx 4 (by omega), parentIndex_five, ← he]
    omega

def replaceBucket (S : List (Digest32 × Digest32)) (idx : ℕ)
    (entries : List (Digest32 × Digest32)) :
    List (Digest32 × Digest32) :=
  S.filter (fun e => !decide (bucketIndex e.1 = idx)) ++ entries

omit [Sha256] in
theorem mem_replaceBucket {S entries : List (Digest32 × Digest32)} {idx : ℕ}
    {e : Digest32 × Digest32} :
    e ∈ replaceBucket S idx entries ↔ (e ∈ S ∧ bucketIndex e.1 ≠ idx) ∨ e ∈ entries := by
  simp [replaceBucket]

omit [Sha256] in
theorem bucketOf_replaceBucket_self {S entries : List (Digest32 × Digest32)} {idx : ℕ}
    (he : ∀ e ∈ entries, bucketIndex e.1 = idx) :
    bucketOf (replaceBucket S idx entries) idx = entries := by
  have hnone : (S.filter (fun e => !decide (bucketIndex e.1 = idx))).filter
      (fun e => decide (bucketIndex e.1 = idx)) = [] := by
    rw [List.filter_filter, List.filter_eq_nil_iff]
    simp
  have hall : entries.filter (fun e => decide (bucketIndex e.1 = idx)) = entries := by
    rw [List.filter_eq_self]
    intro e hmem
    simpa using he e hmem
  rw [bucketOf, replaceBucket, List.filter_append, hnone, hall, List.nil_append]

omit [Sha256] in
theorem bucketOf_replaceBucket_ne {S entries : List (Digest32 × Digest32)} {idx other : ℕ}
    (he : ∀ e ∈ entries, bucketIndex e.1 = idx) (hne : other ≠ idx) :
    bucketOf (replaceBucket S idx entries) other = bucketOf S other := by
  have hnone : entries.filter (fun e => decide (bucketIndex e.1 = other)) = [] := by
    rw [List.filter_eq_nil_iff]
    intro e hmem
    simp [he e hmem, hne.symm]
  rw [bucketOf, replaceBucket, List.filter_append, hnone, List.append_nil,
    List.filter_filter, bucketOf]
  refine List.filter_congr (fun e _ => ?_)
  by_cases h : bucketIndex e.1 = other
  · simp [h, hne]
  · simp [h]

omit [Sha256] in
theorem functional_replaceBucket {S entries : List (Digest32 × Digest32)} {idx : ℕ}
    (hf : Functional Prod.fst S) (hfe : Functional Prod.fst entries)
    (he : ∀ e ∈ entries, bucketIndex e.1 = idx) :
    Functional Prod.fst (replaceBucket S idx entries) := by
  intro a ha b hb hab
  have hidx : bucketIndex a.1 = bucketIndex b.1 := by rw [hab]
  rcases mem_replaceBucket.mp ha with ⟨ha, hai⟩ | ha <;>
    rcases mem_replaceBucket.mp hb with ⟨hb, hbi⟩ | hb
  · exact hf a ha b hb hab
  · exact absurd (hidx.trans (he b hb)) hai
  · exact absurd (hidx.symm.trans (he a ha)) hbi
  · exact hfe a ha b hb hab

theorem updateBucket_ok {set : BucketedMerkleSet} {S entries : List (Digest32 × Digest32)}
    {idx oldCount : ℕ} (h : set.Represents S)
    (hold : oldCount = (canonOn Prod.fst (bucketOf S idx)).length)
    (he : ∀ e ∈ entries, bucketIndex e.1 = idx) (hfe : Functional Prod.fst entries) :
    ∃ set', set.updateBucket idx oldCount entries = .ok set' ∧
      set'.Represents (replaceBucket S idx entries) := by
  have hconf : hasConflict (sortOn Prod.fst entries) = false := (hasConflict_sortOn entries).mpr hfe
  have hf' := functional_replaceBucket h.functional hfe he
  have hsplit := length_canonOn_filter h.functional (fun e => decide (bucketIndex e.1 = idx))
  have hsplit' := length_canonOn_filter hf' (fun e => decide (bucketIndex e.1 = idx))
  have hrest : (replaceBucket S idx entries).filter (fun e => !decide (bucketIndex e.1 = idx)) =
      S.filter (fun e => !decide (bucketIndex e.1 = idx)) := by
    have hnone : entries.filter (fun e => !decide (bucketIndex e.1 = idx)) = [] := by
      rw [List.filter_eq_nil_iff]
      intro e hmem
      simp [he e hmem]
    rw [replaceBucket, List.filter_append, hnone, List.append_nil, List.filter_filter]
    simp
  have hself := bucketOf_replaceBucket_self (S := S) he
  rw [bucketOf] at hold hself
  rw [hrest, hself] at hsplit'
  unfold updateBucket
  simp only [hconf, Bool.false_eq_true, if_false]
  rw [if_neg (by rw [h.count, hold]; omega)]
  refine ⟨_, rfl, hf', ?_, ?_, ?_⟩
  · intro other hother
    rw [recomputeAncestors_bucketLevel]
    by_cases hother' : other = idx
    · subst hother'
      rw [bucketOf_replaceBucket_self he]
      exact Function.update_self _ _ _
    · rw [bucketOf_replaceBucket_ne he hother', ← h.buckets other hother]
      exact Function.update_of_ne hother' _ _
  · exact recomputeAncestors_nodes (nodesOkBut_of_bucket h.nodes)
  · rw [recomputeAncestors_count]
    change set.count - oldCount + (canonOn Prod.fst entries).length = _
    rw [h.count, hold]
    omega

theorem updateBuckets_ok {bucketEntries : ℕ → ℕ × List (Digest32 × Digest32)} {touched : List ℕ}
    {set : BucketedMerkleSet} {S : List (Digest32 × Digest32)} (h : set.Represents S)
    (hnodup : touched.Nodup)
    (hpre : ∀ idx ∈ touched, (bucketEntries idx).1 = (canonOn Prod.fst (bucketOf S idx)).length)
    (hmem : ∀ idx ∈ touched, ∀ e ∈ (bucketEntries idx).2, bucketIndex e.1 = idx)
    (hfun : ∀ idx ∈ touched, Functional Prod.fst (bucketEntries idx).2) :
    ∃ set', touched.foldlM
        (fun t idx => t.updateBucket idx (bucketEntries idx).1 (bucketEntries idx).2) set =
          .ok set' ∧
      set'.Represents (touched.foldl (fun S idx => replaceBucket S idx (bucketEntries idx).2)
        S) := by
  induction touched generalizing set S with
  | nil => exact ⟨set, rfl, h⟩
  | cons idx touched ih =>
    obtain ⟨hnot, hnodup'⟩ := List.nodup_cons.mp hnodup
    obtain ⟨set₁, hset₁, hrep₁⟩ := updateBucket_ok h (hpre idx (by simp)) (hmem idx (by simp))
      (hfun idx (by simp))
    obtain ⟨set', hset', hrep'⟩ := ih hrep₁ hnodup'
      (by
        intro other hother
        have hne : other ≠ idx := fun heq => hnot (heq ▸ hother)
        rw [bucketOf_replaceBucket_ne (hmem idx (by simp)) hne]
        exact hpre other (by simp [hother]))
      (fun other hother => hmem other (by simp [hother]))
      (fun other hother => hfun other (by simp [hother]))
    refine ⟨set', ?_, hrep'⟩
    rw [List.foldlM_cons, hset₁]
    exact hset'

omit [Sha256] in
theorem mem_foldl_replaceBucket {bucketEntries : ℕ → ℕ × List (Digest32 × Digest32)}
    {touched : List ℕ}
    {S : List (Digest32 × Digest32)}
    (hmem : ∀ idx ∈ touched, ∀ e ∈ (bucketEntries idx).2, bucketIndex e.1 = idx)
    (e : Digest32 × Digest32) :
    e ∈ touched.foldl (fun S idx => replaceBucket S idx (bucketEntries idx).2) S ↔
      (bucketIndex e.1 ∉ touched ∧ e ∈ S) ∨
        (bucketIndex e.1 ∈ touched ∧ e ∈ (bucketEntries (bucketIndex e.1)).2) := by
  induction touched generalizing S with
  | nil => simp
  | cons idx touched ih =>
    rw [List.foldl_cons, ih (fun other hother => hmem other (by simp [hother])), mem_replaceBucket]
    have hin := hmem idx (by simp) e
    by_cases hidx : bucketIndex e.1 = idx
    · subst hidx
      by_cases ht : bucketIndex e.1 ∈ touched <;> simp [ht]
    · have hnot : e ∉ (bucketEntries idx).2 := fun hc => hidx (hin hc)
      simp [hidx, hnot]

def setEntries (changes : List Change) : List (Digest32 × Digest32) :=
  changes.filterMap (fun change =>
    match change with
    | .set key logical => some (key, logical)
    | .delete _ => none)

omit [Sha256] in
theorem checkIntended_ok {changes : List Change} {intended : List (Digest32 × Digest32)}
    (h : Functional Prod.fst (intended ++ setEntries changes)) :
    checkIntended changes intended = .ok () := by
  induction changes generalizing intended with
  | nil => rfl
  | cons change changes ih =>
    cases change with
    | delete key => exact ih (by simpa [setEntries] using h)
    | set key logical =>
      have hsets : setEntries (.set key logical :: changes) =
          (key, logical) :: setEntries changes := by
        simp [setEntries]
      rw [hsets] at h
      rw [checkIntended]
      cases hl : intended.lookup key with
      | none =>
        refine ih (h.mono (fun e he => ?_))
        simp only [List.cons_append, List.mem_cons, List.mem_append] at he ⊢
        tauto
      | some previous =>
        obtain ⟨l₁, l₂, hsplit, -⟩ := List.lookup_eq_some_iff.mp hl
        have hprev : previous = logical := by
          have := h (key, previous) (by simp [hsplit]) (key, logical) (by simp) rfl
          exact congrArg Prod.snd this
        simp only [hprev, ne_eq, not_true_eq_false, if_false]
        refine ih (h.mono (fun e he => ?_))
        simp only [List.mem_cons, List.mem_append] at he ⊢
        tauto

omit [Sha256] in
theorem mem_touchedBuckets {changes : List Change} {idx : ℕ} :
    idx ∈ touchedBuckets changes ↔ ∃ change ∈ changes, bucketIndex change.key = idx := by
  rw [touchedBuckets, mem_canonOn (functional_id _), List.mem_map]

omit [Sha256] in
theorem touchedBuckets_nodup (changes : List Change) : (touchedBuckets changes).Nodup :=
  canonOn_nodup id _

theorem updateTouched_ok {set : BucketedMerkleSet} {S S' : List (Digest32 × Digest32)}
    {changes : List Change} {bucketEntries : ℕ → ℕ × List (Digest32 × Digest32)}
    (h : set.Represents S)
    (hS' : Functional Prod.fst S')
    (hpre : ∀ idx ∈ touchedBuckets changes,
      (bucketEntries idx).1 = (canonOn Prod.fst (bucketOf S idx)).length)
    (hpost : ∀ idx ∈ touchedBuckets changes, ∀ e, e ∈ (bucketEntries idx).2 ↔ e ∈ bucketOf S' idx)
    (hrest : ∀ e, bucketIndex e.1 ∉ touchedBuckets changes → (e ∈ S ↔ e ∈ S')) :
    ∃ set', (touchedBuckets changes).foldlM
      (fun t idx => t.updateBucket idx (bucketEntries idx).1 (bucketEntries idx).2) set = .ok set' ∧
      set'.Represents S' := by
  have hmem : ∀ idx ∈ touchedBuckets changes, ∀ e ∈ (bucketEntries idx).2, bucketIndex e.1 = idx :=
    fun idx hidx e he => (mem_bucketOf.mp ((hpost idx hidx e).mp he)).2
  have hfun : ∀ idx ∈ touchedBuckets changes, Functional Prod.fst (bucketEntries idx).2 :=
    fun idx hidx => (functional_bucketOf hS' idx).mono (fun e he => (hpost idx hidx e).mp he)
  obtain ⟨set', hset', hrep⟩ := updateBuckets_ok h (touchedBuckets_nodup changes) hpre hmem hfun
  refine ⟨set', hset', hrep.congr ?_⟩
  intro e
  rw [mem_foldl_replaceBucket hmem]
  by_cases ht : bucketIndex e.1 ∈ touchedBuckets changes
  · simp [ht, hpost _ ht e]
  · simp [ht, hrest e ht]

theorem update_ok {set : BucketedMerkleSet} {S S' : List (Digest32 × Digest32)}
    {changes : List Change}
    {bucketEntries : ℕ → ℕ × List (Digest32 × Digest32)} (h : set.Represents S)
    (hS' : Functional Prod.fst S') (hsets : Functional Prod.fst (setEntries changes))
    (hpre : ∀ idx ∈ touchedBuckets changes,
      (bucketEntries idx).1 = (canonOn Prod.fst (bucketOf S idx)).length)
    (hpost : ∀ idx ∈ touchedBuckets changes, ∀ e, e ∈ (bucketEntries idx).2 ↔ e ∈ bucketOf S' idx)
    (hrest : ∀ e, bucketIndex e.1 ∉ touchedBuckets changes → (e ∈ S ↔ e ∈ S')) :
    ∃ set', set.update changes bucketEntries = .ok set' ∧ set'.Represents S' := by
  obtain ⟨set', hset', hrep⟩ := updateTouched_ok h hS' hpre hpost hrest
  refine ⟨set', ?_, hrep⟩
  rw [update, checkIntended_ok (by simpa using hsets)]
  exact hset'

end BucketedMerkleSet

end MerkleBucket
