import Urdira.Canonical.NibblePath

open ByteOrder KeyedSet MerkleBucket

namespace Canonical

section Agree

structure Agrees (a b : MerkleBucket.BucketedMerkleSet) : Prop where
  nodes : ∀ depth ≤ 4, ∀ idx < 16 ^ depth, a.nodeLevels depth idx = b.nodeLevels depth idx
  buckets : ∀ idx < 1048576, a.bucketLevel idx = b.bucketLevel idx
  count : a.count = b.count

variable {a b : MerkleBucket.BucketedMerkleSet}

theorem Agrees.childLevel (h : Agrees a b) {depth idx : ℕ} (hdepth : depth ≤ 4)
    (hidx : idx < 16 ^ depth)
    (digit : Fin 16) :
    a.childLevel depth (idx * 16 + digit) = b.childLevel depth (idx * 16 + digit) := by
  have hpow : (16 : ℕ) ^ (depth + 1) = 16 ^ depth * 16 := pow_succ _ _
  unfold MerkleBucket.BucketedMerkleSet.childLevel
  split
  · rename_i hd
    subst hd
    refine h.buckets _ ?_
    norm_num at hidx
    omega
  · exact h.nodes _ (by omega) _ (by omega)

variable [Sha256]

theorem Agrees.recomputeNode (h : Agrees a b) {bucketIdx depth : ℕ} (hidx : bucketIdx < 1048576)
    (hdepth : depth ≤ 4) :
    Agrees (a.recomputeNode bucketIdx depth) (b.recomputeNode bucketIdx depth) := by
  refine ⟨?_, h.buckets, h.count⟩
  intro d hd idx hi
  have hparent : MerkleBucket.BucketedMerkleSet.parentIndex bucketIdx depth < 16 ^ depth := by
    unfold MerkleBucket.BucketedMerkleSet.parentIndex
    rw [Nat.shiftRight_eq_div_pow, Nat.div_lt_iff_lt_mul (by positivity)]
    interval_cases depth <;> omega
  unfold MerkleBucket.BucketedMerkleSet.recomputeNode
  by_cases hdd : d = depth
  · subst hdd
    by_cases hii : idx = MerkleBucket.BucketedMerkleSet.parentIndex bucketIdx d
    · subst hii
      simp only [Function.update_self]
      congr 1
      funext digit
      exact h.childLevel hd hparent digit
    · simp only [Function.update_self, Function.update_of_ne hii]
      exact h.nodes d hd idx hi
  · simp only [Function.update_of_ne hdd]
    exact h.nodes d hd idx hi

theorem Agrees.represents (h : Agrees a b) {S : List (Digest32 × Digest32)}
    (hrep : a.Represents S) :
    b.Represents S where
  functional := hrep.functional
  buckets := fun idx hidx => (h.buckets idx hidx).symm.trans (hrep.buckets idx hidx)
  nodes := by
    intro depth hdepth idx hidx
    have hnode := hrep.nodes depth hdepth idx hidx
    unfold MerkleBucket.BucketedMerkleSet.NodeOk at hnode ⊢
    rw [← h.nodes depth hdepth idx hidx, hnode]
    congr 1
    funext digit
    exact h.childLevel hdepth hidx digit
  count := h.count.symm.trans hrep.count

end Agree

section Dense

variable [Sha256]

theorem emptyNodeDigest_eq {depth : ℕ} (h : depth ≤ 4) :
    emptyNodeDigest depth = emptyNodeDigests depth := by
  interval_cases depth <;> rfl

theorem emptyNodeDigests_eq {depth : ℕ} (h : depth ≤ 4) :
    emptyNodeDigests depth =
      nodeDigest depth (fun _ => if depth = 4 then zero else emptyNodeDigests (depth + 1)) := by
  interval_cases depth <;> rfl

def dense (buckets nodes : List (Hex × Digest32)) (count : ℕ) : MerkleBucket.BucketedMerkleSet where
  nodeLevels :=
    fun depth idx => (AssocMap.get nodes (pathOf depth idx)).getD (emptyNodeDigests depth)
  bucketLevel := fun idx => (AssocMap.get buckets (pathOf 5 idx)).getD zero
  bucketCount := fun _ => 0
  count := count

variable {buckets nodes : List (Hex × Digest32)} {count : ℕ}

theorem computeNode_eq {depth : ℕ} (h : depth ≤ 4) (idx count : ℕ) :
    computeNode buckets nodes depth (pathOf depth idx) =
      nodeDigest depth (fun digit => (dense buckets nodes count).childLevel depth
        (idx * 16 + digit)) := by
  unfold computeNode
  change nodeDigest depth _ = _
  congr 1
  funext digit
  simp only [pathOf_child]
  unfold MerkleBucket.BucketedMerkleSet.childLevel dense
  split
  · rename_i hdepth
    subst hdepth
    rfl
  · rw [emptyNodeDigest_eq (by omega)]

theorem agrees_insert_node {bucketIdx depth : ℕ} (hidx : bucketIdx < 1048576) (hdepth : depth ≤ 4) :
    Agrees ((dense buckets nodes count).recomputeNode bucketIdx depth)
      (dense buckets (AssocMap.insert nodes ((pathOf 5 bucketIdx).take depth)
        (computeNode buckets nodes depth ((pathOf 5 bucketIdx).take depth))) count) := by
  have hparent : MerkleBucket.BucketedMerkleSet.parentIndex bucketIdx depth < 16 ^ depth := by
    unfold MerkleBucket.BucketedMerkleSet.parentIndex
    rw [Nat.shiftRight_eq_div_pow, Nat.div_lt_iff_lt_mul (by positivity)]
    interval_cases depth <;> omega
  rw [take_pathOf_bucket (by omega)]
  refine ⟨?_, fun _ _ => rfl, rfl⟩
  intro d hd idx hi
  rw [computeNode_eq hdepth _ count]
  unfold MerkleBucket.BucketedMerkleSet.recomputeNode
  by_cases hdd : d = depth
  · subst hdd
    by_cases hii : idx = MerkleBucket.BucketedMerkleSet.parentIndex bucketIdx d
    · subst hii
      simp only [Function.update_self, dense, AssocMap.get_insert_self, Option.getD_some]
    · have hne : pathOf d idx ≠ pathOf d (MerkleBucket.BucketedMerkleSet.parentIndex bucketIdx d) :=
        fun he => hii (pathOf_injective hi hparent he)
      simp only [Function.update_self, Function.update_of_ne hii, dense,
        AssocMap.get_insert_ne _ _ hne]
  · have hne : pathOf d idx ≠ pathOf depth
        (MerkleBucket.BucketedMerkleSet.parentIndex bucketIdx depth) := by
      intro he
      have := congrArg List.length he
      simp at this
      exact hdd this
    simp only [Function.update_of_ne hdd, dense, AssocMap.get_insert_ne _ _ hne]

omit [Sha256] in
theorem Agrees.trans {a b c : MerkleBucket.BucketedMerkleSet} (h : Agrees a b) (h' : Agrees b c) :
    Agrees a c :=
  ⟨fun d hd i hi => (h.nodes d hd i hi).trans (h'.nodes d hd i hi),
    fun i hi => (h.buckets i hi).trans (h'.buckets i hi), h.count.trans h'.count⟩

theorem agrees_recompute {a : MerkleBucket.BucketedMerkleSet} {bucketIdx : ℕ}
    (hidx : bucketIdx < 1048576)
    (h : Agrees a (dense buckets nodes count)) (depths : List ℕ) (hdepths : ∀ d ∈ depths, d ≤ 4) :
    Agrees (depths.foldl (fun t depth => t.recomputeNode bucketIdx depth) a)
      (dense buckets (depths.foldl (fun nodes depth =>
        AssocMap.insert nodes ((pathOf 5 bucketIdx).take depth)
          (computeNode buckets nodes depth ((pathOf 5 bucketIdx).take depth))) nodes) count) := by
  induction depths generalizing a nodes with
  | nil => exact h
  | cons depth depths ih =>
    have hd : depth ≤ 4 := hdepths depth (by simp)
    exact ih ((h.recomputeNode hidx hd).trans (agrees_insert_node hidx hd))
      (fun d hmem => hdepths d (by simp [hmem]))

end Dense

section Levels

variable [Sha256] {buckets nodes nodes' : List (Hex × Digest32)} {prefixes : List Hex}

theorem computeNode_congr {depth : ℕ} {path : Hex} (hpath : path.length = depth)
    (h : ∀ p : Hex, p.length = depth + 1 → AssocMap.get nodes p = AssocMap.get nodes' p) :
    computeNode buckets nodes depth path = computeNode buckets nodes' depth path := by
  unfold computeNode
  congr 1
  funext digit
  simp only [h (path ++ [digit]) (by simp [hpath])]

theorem get_insertNodes (depth : ℕ) (paths : List Hex) (hpaths : ∀ p ∈ paths, p.length = depth)
    (p : Hex) :
    AssocMap.get (paths.foldl (fun nodes path =>
        AssocMap.insert nodes path (computeNode buckets nodes depth path)) nodes) p =
      if p ∈ paths then some (computeNode buckets nodes depth p) else AssocMap.get nodes p := by
  induction paths generalizing nodes with
  | nil => simp
  | cons path paths ih =>
    have hlen : path.length = depth := hpaths path (by simp)
    have hother : ∀ q : Hex, q.length = depth + 1 →
        AssocMap.get (AssocMap.insert nodes path (computeNode buckets nodes depth path)) q =
          AssocMap.get nodes q := by
      intro q hq
      refine AssocMap.get_insert_ne _ _ ?_
      rintro rfl
      omega
    rw [List.foldl_cons, ih (fun q hq => hpaths q (by simp [hq]))]
    by_cases hmem : p ∈ paths
    · rw [if_pos hmem, if_pos (by simp [hmem])]
      rw [computeNode_congr (hpaths p (by simp [hmem])) hother]
    · rw [if_neg hmem]
      by_cases hp : p = path
      · subst hp
        rw [AssocMap.get_insert_self, if_pos (by simp)]
      · rw [AssocMap.get_insert_ne _ _ hp, if_neg (by simp [hp, hmem])]

structure LevelsFrom (buckets nodes : List (Hex × Digest32)) (prefixes : List Hex) (start : ℕ) :
    Prop where
  absent : ∀ p : Hex, p.length < start → AssocMap.get nodes p = none
  present : ∀ depth, start ≤ depth → depth ≤ 4 → ∀ p : Hex, p.length = depth →
    AssocMap.get nodes p =
      if p ∈ prefixes.map (fun path => path.take depth) then some
        (computeNode buckets nodes depth p)
      else none

theorem LevelsFrom.computeLevel {depth : ℕ} (h : LevelsFrom buckets nodes prefixes (depth + 1))
    (hlen : ∀ p ∈ prefixes, p.length = bucketNibbles) (hdepth : depth ≤ 4) :
    LevelsFrom buckets (computeLevel buckets prefixes nodes depth) prefixes depth := by
  have hpaths : ∀ p ∈ (prefixes.map (fun path => path.take depth)).dedup, p.length = depth := by
    intro p hp
    obtain ⟨q, hq, rfl⟩ := List.mem_map.mp (List.mem_dedup.mp hp)
    have hq5 : q.length = 5 := hlen q hq
    simp only [List.length_take]
    omega
  have hget : ∀ p, AssocMap.get (Canonical.computeLevel buckets prefixes nodes depth) p =
      if p ∈ prefixes.map (fun path => path.take depth) then some
        (computeNode buckets nodes depth p)
      else AssocMap.get nodes p := by
    intro p
    unfold Canonical.computeLevel
    rw [get_insertNodes depth _ hpaths]
    simp only [List.mem_dedup]
  have hframe : ∀ p : Hex, p.length ≠ depth →
      AssocMap.get (Canonical.computeLevel buckets prefixes nodes depth) p =
        AssocMap.get nodes p := by
    intro p hp
    rw [hget, if_neg (fun hmem => hp (hpaths p (List.mem_dedup.mpr hmem)))]
  refine ⟨?_, ?_⟩
  · intro p hp
    rw [hframe p (by omega)]
    exact h.absent p (by omega)
  · intro d hd hd4 p hp
    have hnode : computeNode buckets (Canonical.computeLevel buckets prefixes nodes depth) d p =
        computeNode buckets nodes d p :=
      computeNode_congr hp (fun q hq => hframe q (by omega))
    rw [hnode]
    by_cases hdd : d = depth
    · subst hdd
      rw [hget]
      split
      · rfl
      · exact h.absent p (by omega)
    · rw [hframe p (by omega)]
      exact h.present d (by omega) hd4 p hp

theorem computeLevels_present (hlen : ∀ p ∈ prefixes, p.length = bucketNibbles) :
    LevelsFrom buckets (computeLevels buckets prefixes) prefixes 0 := by
  have h₅ : LevelsFrom buckets [] prefixes 5 :=
    ⟨fun _ _ => rfl, fun _ h h4 => absurd (h.trans h4) (by decide)⟩
  exact ((((h₅.computeLevel hlen le_rfl).computeLevel hlen (by omega)).computeLevel hlen
    (by omega)).computeLevel hlen (by omega)).computeLevel hlen (by omega)

omit [Sha256] in
theorem child_notMem {depth : ℕ} {p : Hex} (hp : p.length = depth)
    (h : p ∉ prefixes.map (fun path => path.take depth)) (digit : Fin 16) :
    p ++ [digit] ∉ prefixes.map (fun path => path.take (depth + 1)) := by
  intro hmem
  obtain ⟨q, hq, heq⟩ := List.mem_map.mp hmem
  refine h (List.mem_map.mpr ⟨q, hq, ?_⟩)
  have htake := congrArg (List.take depth) heq
  simpa [List.take_take, hp] using htake

theorem computeLevels_nodes (hlen : ∀ p ∈ prefixes, p.length = bucketNibbles)
    (hkeys : ∀ p ∈ buckets.map Prod.fst, p ∈ prefixes) (count : ℕ) :
    ∀ depth ≤ 4, ∀ idx < 16 ^ depth,
      (dense buckets (computeLevels buckets prefixes) count).NodeOk depth idx := by
  intro depth hdepth idx _
  have h : LevelsFrom buckets (computeLevels buckets prefixes) prefixes 0 :=
    computeLevels_present hlen
  have hself := h.present depth (by omega) hdepth (pathOf depth idx) (length_pathOf depth idx)
  unfold MerkleBucket.BucketedMerkleSet.NodeOk
  rw [← computeNode_eq hdepth]
  by_cases hmem : pathOf depth idx ∈ prefixes.map (fun path => path.take depth)
  · rw [if_pos hmem] at hself
    simp only [dense, hself, Option.getD_some]
  · rw [if_neg hmem] at hself
    simp only [dense, hself, Option.getD_none]
    rw [emptyNodeDigests_eq hdepth]
    change MerkleBucket.nodeDigest depth _ = MerkleBucket.nodeDigest depth _
    congr 1
    funext digit
    have hchild := child_notMem (length_pathOf depth idx) hmem digit
    by_cases hd : depth = 4
    · subst hd
      have hnone : AssocMap.get buckets (pathOf 4 idx ++ [digit]) = none := by
        rw [AssocMap.get_eq_none_iff]
        intro hk
        have hin := hkeys _ hk
        refine hchild (List.mem_map.mpr ⟨_, hin, ?_⟩)
        exact List.take_of_length_le (by simp)
      simp only [if_true, hnone, Option.getD_none]
    · have hnone :=
        h.present (depth + 1) (by omega) (by omega) (pathOf depth idx ++ [digit]) (by simp)
      rw [if_neg hchild] at hnone
      simp only [if_neg hd, hnone, Option.getD_none]
      exact (emptyNodeDigest_eq (by omega)).symm

end Levels

end Canonical
