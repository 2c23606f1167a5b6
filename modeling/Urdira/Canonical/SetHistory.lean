import Urdira.Canonical.DenseTree

open ByteOrder KeyedSet MerkleBucket

namespace Canonical

section Contents

theorem Logical.ext_text {a b : Logical} (h : a.text = b.text) : a = b := by
  obtain ⟨ta, ba, ha⟩ := a
  obtain ⟨tb, bb, hb⟩ := b
  obtain rfl : ta = tb := h
  obtain rfl : ba = bb := Except.ok.inj (ha.symm.trans hb)
  rfl

theorem Logical.parse_text (logical : Logical) : Logical.parse logical.text = .ok logical := by
  unfold Logical.parse
  split
  · exact congrArg Except.ok (Logical.ext_text rfl)
  · rename_i fault h
    rw [logical.parsed] at h
    cases h

theorem Logical.text_of_parse {text : JsString} {logical : Logical}
    (h : Logical.parse text = .ok logical) :
    logical.text = text := by
  unfold Logical.parse at h
  split at h
  · obtain rfl := Except.ok.inj h
    rfl
  · cases h

abbrev Contents := List (Digest32 × Logical)

def hexMember (m : Digest32 × Logical) : Hex × Logical := (nibbles m.1.bytes, m.2)

def digestMember (m : Digest32 × Logical) : Digest32 × Digest32 := (m.1, m.2.bytes)

def bucketPath (m : Digest32 × Logical) : Hex := (nibbles m.1.bytes).take bucketNibbles

def membersAt (M : Contents) (path : Hex) : Contents :=
  M.filter (fun m => decide (bucketPath m = path))

theorem nibbles_digest_injective : Function.Injective (fun d : Digest32 => nibbles d.bytes) :=
  fun _ _ h => Block.bytes_injective (nibbles_injective h)

theorem bucketPath_eq (m : Digest32 × Logical) : bucketPath m = pathOf 5 (bucketIndex m.1) :=
  take_nibbles m.1

theorem bucketPath_eq_iff {m : Digest32 × Logical} {idx : ℕ} (hidx : idx < 1048576) :
    bucketPath m = pathOf 5 idx ↔ bucketIndex m.1 = idx := by
  rw [bucketPath_eq]
  constructor
  · exact fun h => pathOf_injective (by simpa using bucketIndex_lt m.1) (by simpa using hidx) h
  · exact congrArg (pathOf 5)

@[simp] theorem mem_membersAt {M : Contents} {path : Hex} {m : Digest32 × Logical} :
    m ∈ membersAt M path ↔ m ∈ M ∧ bucketPath m = path := by
  simp [membersAt]

theorem map_membersAt (M : Contents) {idx : ℕ} (hidx : idx < 1048576) :
    (membersAt M (pathOf 5 idx)).map digestMember = bucketOf (M.map digestMember) idx := by
  rw [bucketOf, List.filter_map, membersAt]
  congr 1
  refine List.filter_congr (fun m _ => ?_)
  exact decide_eq_decide.mpr (bucketPath_eq_iff hidx)

theorem nodup_digestMembers {M : Contents} (h : (M.map Prod.fst).Nodup) :
    ((M.map digestMember).map Prod.fst).Nodup := by
  rw [List.map_map]
  exact h

theorem nodup_hexMembers {M : Contents} (h : (M.map Prod.fst).Nodup) :
    ((M.map hexMember).map Prod.fst).Nodup := by
  rw [List.map_map]
  have hmap : M.map (Prod.fst ∘ hexMember) = (M.map Prod.fst).map (fun d => nibbles d.bytes) := by
    rw [List.map_map]
    rfl
  rw [hmap]
  exact h.map nibbles_digest_injective

end Contents

section BucketDigest

variable [Sha256]

omit [Sha256] in
theorem sorted_keys_eq {members : List (Hex × Logical)} {L : Contents}
    (h : members.Perm (L.map hexMember)) (hnodup : (L.map Prod.fst).Nodup) :
    sortOn id (members.map Prod.fst) =
      (canonOn Prod.fst (L.map digestMember)).map (fun e => nibbles e.1.bytes) := by
  have hcanon := canonOn_perm (nodup_digestMembers hnodup)
  refine perm_eq_of_sorted (functional_id _) (sortOn_pairwise id _) ?_ ?_
  · rw [List.pairwise_map]
    refine (canonOn_pairwise Prod.fst (L.map digestMember)).imp (fun {a b} hlt => le_of_lt ?_)
    exact (nibbles_lt_iff (a.1.size.trans b.1.size.symm)).mpr hlt
  · refine (sortOn_perm id _).trans ((h.map Prod.fst).trans ?_)
    refine List.Perm.trans ?_ (hcanon.map _).symm
    rw [List.map_map, List.map_map]
    exact List.Perm.refl _

theorem computeBucketDigest_eq {members : List (Hex × Logical)} {L : Contents}
    (h : members.Perm (L.map hexMember)) (hnodup : (L.map Prod.fst).Nodup) (hne : L ≠ []) :
    computeBucketDigest members = MerkleBucket.bucketDigest
      (canonOn Prod.fst (L.map digestMember)) := by
  have hfun := functional_of_nodup (nodup_digestMembers hnodup)
  have hmembers : (members.map Prod.fst).Nodup :=
    (h.map Prod.fst).nodup_iff.mpr (nodup_hexMembers hnodup)
  have hcanon : (canonOn Prod.fst (L.map digestMember)).isEmpty = false := by
    rw [Bool.eq_false_iff, ne_eq, List.isEmpty_iff, canonOn_eq_nil hfun]
    simpa using hne
  unfold computeBucketDigest MerkleBucket.bucketDigest
  rw [sorted_keys_eq h hnodup, hcanon]
  simp only [Bool.false_eq_true, if_false, List.length_map]
  have hleaves : ((canonOn Prod.fst (L.map digestMember)).map (fun e => nibbles e.1.bytes)).flatMap
      (fun key => hexBytes key ++
        ((AssocMap.get members key).map (fun logical => logical.bytes.bytes)).getD []) =
      (canonOn Prod.fst (L.map digestMember)).flatMap (fun e => e.1.bytes ++ e.2.bytes) := by
    rw [List.flatMap_map]
    refine List.flatMap_congr (fun e he => ?_)
    obtain ⟨m, hm, rfl⟩ := List.mem_map.mp ((mem_canonOn hfun e).mp he)
    have hmem : hexMember m ∈ members := h.mem_iff.mpr (List.mem_map_of_mem hm)
    have hget : AssocMap.get members (nibbles m.1.bytes) = some m.2 :=
      AssocMap.get_of_mem hmembers hmem
    simp only [digestMember, hget, hexBytes_nibbles, Option.map_some, Option.getD_some]
  rw [hleaves]
  rfl

end BucketDigest

section Holds

variable [Sha256]

structure Holds (tree : BucketedMerkleSet) (M : Contents) : Prop where
  nodup : (M.map Prod.fst).Nodup
  buckets : ∀ path, ((AssocMap.get tree.membersByBucket path).getD []).Perm
    ((membersAt M path).map hexMember)
  keys : ∀ path, path ∈ tree.bucketDigest.map Prod.fst ↔ membersAt M path ≠ []
  represents : (dense tree.bucketDigest tree.nodeDigest tree.count).Represents (M.map digestMember)

theorem Holds.root_eq {tree : BucketedMerkleSet} {M : Contents} (h : Holds tree M) :
    tree.root = specRoot (M.map digestMember) := by
  rw [← h.represents.root_eq]
  unfold BucketedMerkleSet.root MerkleBucket.BucketedMerkleSet.root
  rw [emptyNodeDigest_eq (by omega)]
  rfl

theorem holds_empty : Holds BucketedMerkleSet.empty [] where
  nodup := List.nodup_nil
  buckets := fun _ => List.Perm.refl _
  keys := by simp [BucketedMerkleSet.empty, membersAt]
  represents := by
    refine ⟨by simp [Functional], fun _ _ => rfl, ?_, rfl⟩
    intro depth hdepth idx _
    interval_cases depth <;> rfl

theorem updateBucket_eq {set set' : MerkleBucket.BucketedMerkleSet} {idx oldCount : ℕ}
    {entries : List (Digest32 × Digest32)} (h : set.updateBucket idx oldCount entries = .ok set') :
    set' = MerkleBucket.BucketedMerkleSet.recomputeAncestors
      { set with
        count := set.count - oldCount + (canonOn Prod.fst entries).length
        bucketCount := Function.update set.bucketCount idx (canonOn Prod.fst entries).length
        bucketLevel := Function.update set.bucketLevel idx
          (MerkleBucket.bucketDigest (canonOn Prod.fst entries)) } idx := by
  unfold MerkleBucket.BucketedMerkleSet.updateBucket at h
  dsimp only at h
  split at h
  · cases h
  · split at h
    · cases h
    · exact (Except.ok.inj h).symm

theorem represents_recompute {buckets buckets' nodes : List (Hex × Digest32)} {M M' : Contents}
    {count idx : ℕ} (h : (dense buckets nodes count).Represents (M.map digestMember))
    (hidx : idx < 1048576) (hnodup : (M'.map Prod.fst).Nodup)
    (hrest : ∀ path ≠ pathOf 5 idx, membersAt M' path = membersAt M path)
    (hself : (AssocMap.get buckets' (pathOf 5 idx)).getD zero =
      MerkleBucket.bucketDigest (canonOn Prod.fst ((membersAt M' (pathOf 5 idx)).map digestMember)))
    (hother : ∀ path ≠ pathOf 5 idx, AssocMap.get buckets' path = AssocMap.get buckets path) :
    (dense buckets' ([4, 3, 2, 1, 0].foldl (fun nodes depth =>
      AssocMap.insert nodes ((pathOf 5 idx).take depth)
        (computeNode buckets' nodes depth ((pathOf 5 idx).take depth))) nodes) M'.length).Represents
      (M'.map digestMember) := by
  have hfun' := functional_of_nodup (nodup_digestMembers hnodup)
  have hmem : ∀ e ∈ bucketOf (M'.map digestMember) idx, bucketIndex e.1 = idx :=
    fun e he => (mem_bucketOf.mp he).2
  obtain ⟨set', hset', hrep⟩ := MerkleBucket.BucketedMerkleSet.updateBucket_ok h rfl hmem
    (functional_bucketOf hfun' idx)
  have hcontents : ∀ e, e ∈ MerkleBucket.BucketedMerkleSet.replaceBucket (M.map digestMember) idx
      (bucketOf (M'.map digestMember) idx) ↔ e ∈ M'.map digestMember := by
    intro e
    rw [MerkleBucket.BucketedMerkleSet.mem_replaceBucket, mem_bucketOf]
    have hsplit : bucketIndex e.1 ≠ idx → (e ∈ M.map digestMember ↔ e ∈ M'.map digestMember) := by
      intro hne
      simp only [List.mem_map]
      refine exists_congr (fun m => and_congr_left ?_)
      rintro rfl
      have hpath : bucketPath m ≠ pathOf 5 idx := fun hp => hne ((bucketPath_eq_iff hidx).mp hp)
      have hm : m ∈ membersAt M' (bucketPath m) ↔ m ∈ membersAt M (bucketPath m) := by
        rw [hrest _ hpath]
      simpa using hm.symm
    by_cases hb : bucketIndex e.1 = idx
    · simp [hb]
    · simp [hb, hsplit hb]
  have hrep' := hrep.congr hcontents
  have hset'' := updateBucket_eq hset'
  have hcount : set'.count = M'.length := by
    rw [hrep'.count, (canonOn_perm (nodup_digestMembers hnodup)).length_eq, List.length_map]
  have hagrees : Agrees
      { dense buckets nodes count with
        count := (dense buckets nodes count).count -
          (canonOn Prod.fst (bucketOf (M.map digestMember) idx)).length +
          (canonOn Prod.fst (bucketOf (M'.map digestMember) idx)).length
        bucketCount := Function.update (dense buckets nodes count).bucketCount idx
          (canonOn Prod.fst (bucketOf (M'.map digestMember) idx)).length
        bucketLevel := Function.update (dense buckets nodes count).bucketLevel idx
          (MerkleBucket.bucketDigest (canonOn Prod.fst (bucketOf (M'.map digestMember) idx))) }
      (dense buckets' nodes M'.length) := by
    rw [hset'', MerkleBucket.BucketedMerkleSet.recomputeAncestors_count] at hcount
    refine ⟨fun _ _ _ _ => rfl, ?_, hcount⟩
    intro other hlt
    by_cases hother' : other = idx
    · subst hother'
      simp only [Function.update_self, dense, hself, map_membersAt M' hidx]
    · have hne : pathOf 5 other ≠ pathOf 5 idx :=
        fun he => hother' (pathOf_injective (by simpa using hlt) (by simpa using hidx) he)
      simp only [Function.update_of_ne hother', dense, hother _ hne]
  have hall := agrees_recompute hidx hagrees [4, 3, 2, 1, 0] (by simp)
  rw [hset''] at hrep'
  exact hall.represents hrep'

theorem recompute_holds {tree : BucketedMerkleSet} {M M' : Contents} {idx : ℕ}
    {members : List (Hex × List (Hex × Logical))} (h : Holds tree M) (hidx : idx < 1048576)
    (hnodup : (M'.map Prod.fst).Nodup)
    (hsame : ∀ path ≠ pathOf 5 idx, AssocMap.get members path =
      AssocMap.get tree.membersByBucket path)
    (hbucket : ((AssocMap.get members (pathOf 5 idx)).getD []).Perm
      ((membersAt M' (pathOf 5 idx)).map hexMember))
    (hrest : ∀ path ≠ pathOf 5 idx, membersAt M' path = membersAt M path) :
    Holds (BucketedMerkleSet.recompute { tree with membersByBucket := members, count := M'.length }
      (pathOf 5 idx)) M' := by
  have hnodupAt : ((membersAt M' (pathOf 5 idx)).map Prod.fst).Nodup :=
    hnodup.sublist (List.filter_sublist.map _)
  have hdigests : ∃ buckets', (BucketedMerkleSet.recompute
        { tree with membersByBucket := members, count := M'.length } (pathOf 5 idx)).bucketDigest =
          buckets' ∧
      (AssocMap.get buckets' (pathOf 5 idx)).getD zero =
        MerkleBucket.bucketDigest (canonOn Prod.fst
          ((membersAt M' (pathOf 5 idx)).map digestMember)) ∧
      (∀ path ≠ pathOf 5 idx, AssocMap.get buckets' path = AssocMap.get tree.bucketDigest path) ∧
      ∀ path, path ∈ buckets'.map Prod.fst ↔
        (path = pathOf 5 idx ∧ membersAt M' (pathOf 5 idx) ≠ []) ∨
          (path ≠ pathOf 5 idx ∧ path ∈ tree.bucketDigest.map Prod.fst) := by
    refine ⟨_, rfl, ?_⟩
    by_cases hnil : membersAt M' (pathOf 5 idx) = []
    · have herase : (BucketedMerkleSet.recompute
          { tree with membersByBucket := members, count := M'.length }
            (pathOf 5 idx)).bucketDigest =
          AssocMap.erase tree.bucketDigest (pathOf 5 idx) := by
        rw [hnil] at hbucket
        unfold BucketedMerkleSet.recompute
        dsimp only
        split
        · rename_i bucket hget
          rw [hget] at hbucket
          obtain rfl : bucket = [] := hbucket.eq_nil
          rfl
        · rfl
      rw [herase, hnil]
      refine ⟨by rw [AssocMap.get_erase_self]; rfl, fun path hp => AssocMap.get_erase_ne _ hp, ?_⟩
      intro path
      rw [AssocMap.mem_keys_erase]
      simp [and_comm]
    · have hinsert : (BucketedMerkleSet.recompute
          { tree with membersByBucket := members, count := M'.length }
            (pathOf 5 idx)).bucketDigest =
          AssocMap.insert tree.bucketDigest (pathOf 5 idx) (MerkleBucket.bucketDigest
            (canonOn Prod.fst ((membersAt M' (pathOf 5 idx)).map digestMember))) := by
        unfold BucketedMerkleSet.recompute
        dsimp only
        split
        · rename_i bucket hget
          rw [hget] at hbucket
          have hne : bucket.isEmpty = false := by
            rw [Bool.eq_false_iff, ne_eq, List.isEmpty_iff]
            rintro rfl
            exact hnil (List.map_eq_nil_iff.mp hbucket.symm.eq_nil)
          rw [hne, ← computeBucketDigest_eq hbucket hnodupAt hnil]
          rfl
        · rename_i hget
          rw [hget] at hbucket
          exact absurd (List.map_eq_nil_iff.mp hbucket.symm.eq_nil) hnil
      rw [hinsert]
      refine ⟨by rw [AssocMap.get_insert_self]; rfl, fun path hp => AssocMap.get_insert_ne _ _ hp,
        ?_⟩
      intro path
      rw [AssocMap.mem_keys_insert]
      by_cases hp : path = pathOf 5 idx
      · simp [hp, hnil]
      · simp [hp]
  obtain ⟨buckets', hbuckets', hself, hother, hkeys⟩ := hdigests
  refine ⟨hnodup, ?_, ?_, ?_⟩
  · intro path
    by_cases hp : path = pathOf 5 idx
    · subst hp
      exact hbucket
    · change ((AssocMap.get members path).getD []).Perm _
      rw [hsame path hp, hrest path hp]
      exact h.buckets path
  · intro path
    rw [hbuckets', hkeys]
    by_cases hp : path = pathOf 5 idx
    · subst hp
      simp
    · rw [hrest path hp, ← h.keys path]
      simp [hp]
  · have hrep := represents_recompute h.represents hidx hnodup hrest hself hother
    rw [← hbuckets'] at hrep
    exact hrep

end Holds

section Run

inductive Op where
  | set (memberDigest logicalDigest : JsString)
  | delete (memberDigest : JsString)

def Op.track (M : Contents) : Op → Contents
  | .set memberDigest logicalDigest =>
    match digestBytes memberDigest, Logical.parse logicalDigest with
    | .ok key, .ok logical => if key ∈ M.map Prod.fst then M else (key, logical) :: M
    | _, _ => M
  | .delete memberDigest =>
    match digestBytes memberDigest with
    | .ok key => M.filter (fun m => decide (m.1 ≠ key))
    | .error _ => M

def contents (ops : List Op) : Contents := ops.foldl Op.track []

variable [Sha256]

def Op.apply (tree : BucketedMerkleSet) : Op → Except Fault BucketedMerkleSet
  | .set memberDigest logicalDigest => tree.set memberDigest logicalDigest
  | .delete memberDigest => tree.delete memberDigest

def Op.call (tree : BucketedMerkleSet) (op : Op) : BucketedMerkleSet :=
  match op.apply tree with
  | .ok tree' => tree'
  | .error _ => tree

def run (ops : List Op) : BucketedMerkleSet := ops.foldl Op.call BucketedMerkleSet.empty

variable {tree : BucketedMerkleSet} {M : Contents}

theorem Holds.count_eq (h : Holds tree M) : tree.count = M.length := by
  have hlen : tree.count = (canonOn Prod.fst (M.map digestMember)).length := h.represents.count
  rw [hlen, (canonOn_perm (nodup_digestMembers h.nodup)).length_eq, List.length_map]

theorem Holds.get_eq_some (h : Holds tree M) {key : Digest32} {logical : Logical} :
    AssocMap.get ((AssocMap.get tree.membersByBucket ((nibbles key.bytes).take bucketNibbles)).getD
      [])
      (nibbles key.bytes) = some logical ↔ (key, logical) ∈ M := by
  have hperm := h.buckets ((nibbles key.bytes).take bucketNibbles)
  have hnodupAt : ((membersAt M ((nibbles key.bytes).take bucketNibbles)).map Prod.fst).Nodup :=
    h.nodup.sublist (List.filter_sublist.map _)
  have hnodup := (hperm.map Prod.fst).nodup_iff.mpr (nodup_hexMembers hnodupAt)
  constructor
  · intro hget
    obtain ⟨m, hm, hhex⟩ := List.mem_map.mp (hperm.mem_iff.mp (AssocMap.mem_of_get hget))
    obtain ⟨hkey, hlogical⟩ := Prod.mk.inj hhex
    have hmk : m = (key, logical) := Prod.ext (nibbles_digest_injective hkey) hlogical
    rw [← hmk]
    exact (mem_membersAt.mp hm).1
  · intro hmem
    refine AssocMap.get_of_mem hnodup (hperm.mem_iff.mpr
      (List.mem_map.mpr ⟨(key, logical), ?_, rfl⟩))
    exact mem_membersAt.mpr ⟨hmem, rfl⟩

theorem Holds.get_eq_none (h : Holds tree M) {key : Digest32} :
    AssocMap.get ((AssocMap.get tree.membersByBucket ((nibbles key.bytes).take bucketNibbles)).getD
      [])
      (nibbles key.bytes) = none ↔ key ∉ M.map Prod.fst := by
  rw [Option.eq_none_iff_forall_ne_some]
  constructor
  · intro hnone hmem
    obtain ⟨⟨key', logical⟩, hm, rfl⟩ := List.mem_map.mp hmem
    exact hnone logical (h.get_eq_some.mpr hm)
  · intro hnot logical hsome
    exact hnot (List.mem_map_of_mem (h.get_eq_some.mp hsome))

omit [Sha256] in
theorem bind_get (bucket : Option (List (Hex × Logical))) (key : Hex) :
    (bucket.bind (fun bucket => AssocMap.get bucket key)) = AssocMap.get (bucket.getD []) key := by
  cases bucket <;> rfl

theorem Holds.insert (h : Holds tree M) {key : Digest32} {logical : Logical}
    (hnot : key ∉ M.map Prod.fst) :
    Holds (BucketedMerkleSet.recompute
      { tree with
        membersByBucket :=
  AssocMap.insert tree.membersByBucket ((nibbles key.bytes).take bucketNibbles)
          (AssocMap.insert ((AssocMap.get tree.membersByBucket
            ((nibbles key.bytes).take bucketNibbles)).getD []) (nibbles key.bytes) logical)
        count := tree.count + 1 } ((nibbles key.bytes).take bucketNibbles))
          ((key, logical) :: M) := by
  have hnone := (AssocMap.get_eq_none_iff _ _).mp (h.get_eq_none.mpr hnot)
  have hperm := h.buckets ((nibbles key.bytes).take bucketNibbles)
  rw [h.count_eq, AssocMap.insert_of_notMem hnone]
  rw [take_nibbles] at hperm ⊢
  have hnodup : (((key, logical) :: M).map Prod.fst).Nodup := List.nodup_cons.mpr ⟨hnot, h.nodup⟩
  refine recompute_holds h (bucketIndex_lt key) hnodup ?_ ?_ ?_
  · exact fun path hp => AssocMap.get_insert_ne _ _ hp
  · rw [AssocMap.get_insert_self, membersAt, List.filter_cons_of_pos (by simp [bucketPath_eq])]
    exact hperm.cons _
  · intro path hp
    rw [membersAt, List.filter_cons_of_neg (by simpa [bucketPath_eq] using hp.symm)]
    rfl

theorem Holds.remove (h : Holds tree M) {key : Digest32} {bucket : List (Hex × Logical)}
    (hbucket : AssocMap.get tree.membersByBucket ((nibbles key.bytes).take bucketNibbles) =
      some bucket)
    (hmem : key ∈ M.map Prod.fst) :
    Holds (BucketedMerkleSet.recompute
      { tree with
        membersByBucket :=
          if (AssocMap.erase bucket (nibbles key.bytes)).isEmpty then
            AssocMap.erase tree.membersByBucket ((nibbles key.bytes).take bucketNibbles)
          else
            AssocMap.insert tree.membersByBucket ((nibbles key.bytes).take bucketNibbles)
              (AssocMap.erase bucket (nibbles key.bytes))
        count := tree.count - 1 } ((nibbles key.bytes).take bucketNibbles))
      (M.filter (fun m => decide (m.1 ≠ key))) := by
  have hcount : tree.count - 1 = (M.filter (fun m => decide (m.1 ≠ key))).length := by
    have hlen := h.count_eq
    have hone := length_filter_keys h.nodup (List.nodup_singleton key)
      (fun k hk => List.mem_map.mp (List.mem_singleton.mp hk ▸ hmem))
    have hsplit := List.length_eq_length_filter_add (l := M) (fun m => decide (m.1 ∈ [key]))
    simp only [List.mem_singleton, List.length_singleton] at hone hsplit
    have hneg : (M.filter (fun m => !decide (m.1 = key))) =
        M.filter (fun m => decide (m.1 ≠ key)) :=
      List.filter_congr (fun m _ => by simp)
    rw [hneg] at hsplit
    omega
  have hperm := h.buckets ((nibbles key.bytes).take bucketNibbles)
  rw [hbucket, Option.getD_some] at hperm
  rw [hcount]
  rw [take_nibbles] at hperm hbucket ⊢
  have hrest : (AssocMap.erase bucket (nibbles key.bytes)).Perm
      ((membersAt (M.filter (fun m => decide (m.1 ≠ key))) (pathOf 5 (bucketIndex key))).map
        hexMember) := by
    refine (hperm.filter _).trans ?_
    rw [List.filter_map]
    refine List.Perm.of_eq (congrArg _ ?_)
    simp only [membersAt, List.filter_filter]
    refine List.filter_congr (fun m _ => ?_)
    simp only [Function.comp_apply, hexMember, ne_eq, nibbles_digest_injective.eq_iff,
      Bool.and_comm]
  refine recompute_holds h (bucketIndex_lt key) (h.nodup.sublist (List.filter_sublist.map _)) ?_ ?_
    ?_
  · intro path hp
    split
    · exact AssocMap.get_erase_ne _ hp
    · exact AssocMap.get_insert_ne _ _ hp
  · split
    · rename_i hempty
      rw [List.isEmpty_iff.mp hempty] at hrest
      rw [AssocMap.get_erase_self]
      exact hrest
    · rw [AssocMap.get_insert_self]
      exact hrest
  · intro path hp
    simp only [membersAt, List.filter_filter]
    refine List.filter_congr (fun m _ => ?_)
    by_cases hm : bucketPath m = path
    · have hne : m.1 ≠ key := by
        rintro rfl
        exact hp (hm ▸ bucketPath_eq m)
      simp [hm, hne]
    · simp [hm]

theorem Holds.set (h : Holds tree M) (memberDigest logicalDigest : JsString) :
    Holds (Op.call tree (.set memberDigest logicalDigest))
      (Op.track M (.set memberDigest logicalDigest)) := by
  simp only [Op.call, Op.apply, Op.track, BucketedMerkleSet.set, keyHex]
  cases hkey : digestBytes memberDigest with
  | error fault => exact h
  | ok key =>
    cases hlogical : Logical.parse logicalDigest with
    | error fault => exact h
    | ok logical =>
      simp only [Except.map, bind, Except.bind]
      rw [bind_get]
      cases hget : AssocMap.get ((AssocMap.get tree.membersByBucket
          ((nibbles key.bytes).take bucketNibbles)).getD []) (nibbles key.bytes) with
      | some existing =>
        have hmem : key ∈ M.map Prod.fst := List.mem_map_of_mem (h.get_eq_some.mp hget)
        rw [if_pos hmem]
        by_cases htext : existing.text ≠ logicalDigest
        · simp only [if_pos htext]
          exact h
        · simp only [if_neg htext]
          exact h
      | none =>
        have hnot := h.get_eq_none.mp hget
        rw [if_neg hnot]
        exact h.insert hnot

theorem Holds.delete (h : Holds tree M) (memberDigest : JsString) :
    Holds (Op.call tree (.delete memberDigest)) (Op.track M (.delete memberDigest)) := by
  simp only [Op.call, Op.apply, Op.track, BucketedMerkleSet.delete, keyHex]
  cases hkey : digestBytes memberDigest with
  | error fault => exact h
  | ok key =>
    simp only [Except.map, bind, Except.bind]
    have habsent : key ∉ M.map Prod.fst → M.filter (fun m => decide (m.1 ≠ key)) = M :=
      AssocMap.erase_of_notMem
    cases hbucket : AssocMap.get tree.membersByBucket ((nibbles key.bytes).take bucketNibbles) with
    | none =>
      have hnot :=
        h.get_eq_none.mp (by rw [hbucket]; rfl : AssocMap.get ((AssocMap.get tree.membersByBucket
        ((nibbles key.bytes).take bucketNibbles)).getD []) (nibbles key.bytes) = none)
      rw [habsent hnot]
      exact h
    | some bucket =>
      dsimp only
      have hsome : AssocMap.get ((AssocMap.get tree.membersByBucket
          ((nibbles key.bytes).take bucketNibbles)).getD []) (nibbles key.bytes) =
          AssocMap.get bucket (nibbles key.bytes) := by rw [hbucket]; rfl
      cases hget : AssocMap.get bucket (nibbles key.bytes) with
      | none =>
        rw [habsent (h.get_eq_none.mp (hsome.trans hget))]
        exact h
      | some logical =>
        exact h.remove hbucket (List.mem_map_of_mem (h.get_eq_some.mp (hsome.trans hget)))

theorem run_holds (ops : List Op) : Holds (run ops) (contents ops) := by
  suffices h : ∀ tree M, Holds tree M → Holds (ops.foldl Op.call tree) (ops.foldl Op.track M) from
    h _ _ holds_empty
  induction ops with
  | nil => exact fun _ _ h => h
  | cons op ops ih =>
    intro tree M h
    cases op with
    | set memberDigest logicalDigest => exact ih _ _ (h.set memberDigest logicalDigest)
    | delete memberDigest => exact ih _ _ (h.delete memberDigest)

end Run

end Canonical
