import Urdira.Canonical.SetHistory
import Urdira.IndexingCore.MerkleHistory

open ByteOrder KeyedSet MerkleBucket

namespace Canonical

section Grouped

structure Grouped (membersByBucket : List (Hex × List (Hex × Logical))) (S : List (Hex × Logical)) :
    Prop where
  buckets : ∀ path, ((AssocMap.get membersByBucket path).getD []).Perm
    (S.filter (fun x => decide (x.1.take bucketNibbles = path)))
  keys : ∀ path, path ∈ membersByBucket.map Prod.fst ↔ ∃ x ∈ S, x.1.take bucketNibbles = path

variable {membersByBucket : List (Hex × List (Hex × Logical))} {S S' : List (Hex × Logical)}

theorem Grouped.perm (h : Grouped membersByBucket S) (hS : S.Perm S') :
    Grouped membersByBucket S' where
  buckets := fun path => (h.buckets path).trans (hS.filter _)
  keys := by
    intro path
    rw [h.keys]
    exact exists_congr (fun x => and_congr_left' hS.mem_iff)

theorem Grouped.addMember (h : Grouped membersByBucket S) {member : Hex × Logical}
    (hnot : member.1 ∉ S.map Prod.fst) :
    Grouped (BucketedMerkleSet.addMember membersByBucket member) (member :: S) where
  buckets := by
    intro path
    unfold BucketedMerkleSet.addMember
    by_cases hp : path = member.1.take bucketNibbles
    · subst hp
      have hperm := h.buckets (member.1.take bucketNibbles)
      have habsent : member.1 ∉ ((AssocMap.get membersByBucket
          (member.1.take bucketNibbles)).getD []).map Prod.fst := by
        intro hmem
        obtain ⟨x, hx, hkey⟩ := List.mem_map.mp ((hperm.map Prod.fst).mem_iff.mp hmem)
        exact hnot (hkey ▸ List.mem_map_of_mem (List.mem_filter.mp hx).1)
      rw [AssocMap.get_insert_self, Option.getD_some, AssocMap.insert_of_notMem habsent,
        List.filter_cons_of_pos (by simp)]
      exact hperm.cons _
    · rw [AssocMap.get_insert_ne _ _ hp, List.filter_cons_of_neg (by simpa using Ne.symm hp)]
      exact h.buckets path
  keys := by
    intro path
    unfold BucketedMerkleSet.addMember
    rw [AssocMap.mem_keys_insert, h.keys]
    simp only [List.mem_cons, exists_eq_or_imp]
    exact or_congr_left eq_comm

theorem grouped_addMembers (members : List (Hex × Logical)) (h : Grouped membersByBucket S)
    (hnodup : ((members ++ S).map Prod.fst).Nodup) :
    Grouped (members.foldl BucketedMerkleSet.addMember membersByBucket) (members ++ S) := by
  induction members generalizing membersByBucket S with
  | nil => exact h
  | cons member members ih =>
    have hmiddle : (members ++ member :: S).Perm (member :: members ++ S) := List.perm_middle
    have hnot : member.1 ∉ S.map Prod.fst := by
      intro hmem
      obtain ⟨x, hx, hkey⟩ := List.mem_map.mp hmem
      refine (List.nodup_cons.mp hnodup).1 ?_
      exact List.mem_map.mpr ⟨x, List.mem_append_right _ hx, hkey⟩
    have hnext := ih (h.addMember hnot) ((hmiddle.map Prod.fst).nodup_iff.mpr hnodup)
    exact hnext.perm hmiddle

end Grouped

section Entries

structure Lists (entries : List Entry) (M : Contents) : Prop where
  sound : ∀ e ∈ entries, ∃ m ∈ M, digestBytes e.memberDigest = .ok m.1 ∧ e.logicalDigest = m.2.text
  complete : ∀ m ∈ M, ∃ e ∈ entries, digestBytes e.memberDigest = .ok m.1 ∧
    e.logicalDigest = m.2.text

variable {M : Contents}

theorem lists_of_map {entries : List Entry}
    (h : entries.map (fun e => (digestBytes e.memberDigest, e.logicalDigest)) =
      M.map (fun m => ((.ok m.1 : Except Fault Digest32), m.2.text))) : Lists entries M where
  sound := by
    intro e he
    obtain ⟨m, hm, heq⟩ := List.mem_map.mp (h ▸ List.mem_map.mpr ⟨e, he, rfl⟩)
    obtain ⟨hkey, htext⟩ := Prod.mk.inj heq
    exact ⟨m, hm, hkey.symm, htext.symm⟩
  complete := by
    intro m hm
    obtain ⟨e, he, heq⟩ := List.mem_map.mp (h.symm ▸ List.mem_map.mpr ⟨m, hm, rfl⟩)
    obtain ⟨hkey, htext⟩ := Prod.mk.inj heq
    exact ⟨e, he, hkey, htext⟩

theorem readEntry_eq {logicalByKey : List (Hex × Logical)} {entry : Entry} {m : Digest32 × Logical}
    (hnodup : (M.map Prod.fst).Nodup) (hsub : ∀ x ∈ logicalByKey, x ∈ M.map hexMember) (hm : m ∈ M)
    (hkey : digestBytes entry.memberDigest = .ok m.1) (htext : entry.logicalDigest = m.2.text) :
    BucketedMerkleSet.readEntry logicalByKey entry =
      .ok (AssocMap.insert logicalByKey (nibbles m.1.bytes) m.2) := by
  simp only [BucketedMerkleSet.readEntry, keyHex, hkey, htext, Logical.parse_text, Except.map, bind,
    Except.bind]
  cases hget : AssocMap.get logicalByKey (nibbles m.1.bytes) with
  | none => rfl
  | some previous =>
    obtain ⟨m', hm', hhex⟩ := List.mem_map.mp (hsub _ (AssocMap.mem_of_get hget))
    obtain ⟨hk, hl⟩ := Prod.mk.inj hhex
    have hmm : m' = m := functional_of_nodup hnodup m' hm' m hm (nibbles_digest_injective hk)
    have hprev : previous = m.2 := by rw [← hl, hmm]
    simp [hprev]

theorem readEntries_ok (hnodup : (M.map Prod.fst).Nodup) {entries : List Entry}
    (hsound : ∀ e ∈ entries, ∃ m ∈ M, digestBytes e.memberDigest = .ok m.1 ∧
      e.logicalDigest = m.2.text)
    {logicalByKey : List (Hex × Logical)} (hkeys : (logicalByKey.map Prod.fst).Nodup)
    (hsub : ∀ x ∈ logicalByKey, x ∈ M.map hexMember) :
    ∃ result, entries.foldlM BucketedMerkleSet.readEntry logicalByKey = .ok result ∧
      (result.map Prod.fst).Nodup ∧ (∀ x ∈ result, x ∈ M.map hexMember) ∧
      ∀ k, k ∈ result.map Prod.fst ↔ k ∈ logicalByKey.map Prod.fst ∨
        ∃ e ∈ entries, keyHex e.memberDigest = .ok k := by
  induction entries generalizing logicalByKey with
  | nil => exact ⟨logicalByKey, rfl, hkeys, hsub, by simp⟩
  | cons entry entries ih =>
    obtain ⟨m, hm, hkey, htext⟩ := hsound entry (by simp)
    have hsub' : ∀ x ∈ AssocMap.insert logicalByKey (nibbles m.1.bytes) m.2,
        x ∈ M.map hexMember := by
      intro x hx
      rcases List.mem_cons.mp hx with rfl | hx
      · exact List.mem_map.mpr ⟨m, hm, rfl⟩
      · exact hsub x (List.mem_filter.mp hx).1
    obtain ⟨result, hresult, hrkeys, hrsub, hrmem⟩ := ih (fun e he => hsound e (by simp [he]))
      (AssocMap.nodup_insert hkeys (nibbles m.1.bytes) m.2) hsub'
    refine ⟨result, ?_, hrkeys, hrsub, ?_⟩
    · rw [List.foldlM_cons, readEntry_eq hnodup hsub hm hkey htext]
      exact hresult
    · intro k
      have hhead : keyHex entry.memberDigest = .ok k ↔ k = nibbles m.1.bytes := by
        rw [keyHex, hkey]
        exact ⟨fun h => (Except.ok.inj h).symm, fun h => congrArg Except.ok h.symm⟩
      rw [hrmem, AssocMap.mem_keys_insert]
      simp only [List.mem_cons, exists_eq_or_imp, hhead]
      tauto

theorem Lists.read {entries : List Entry} (h : Lists entries M) (hnodup : (M.map Prod.fst).Nodup) :
    ∃ result, entries.foldlM BucketedMerkleSet.readEntry [] = .ok result ∧
      result.Perm (M.map hexMember) := by
  have hstart : (([] : List (Hex × Logical)).map Prod.fst).Nodup := List.nodup_nil
  obtain ⟨result, hresult, hkeys, hsub, hmem⟩ := readEntries_ok hnodup h.sound hstart (by simp)
  have hhex := nodup_hexMembers hnodup
  refine ⟨result, hresult, (List.perm_ext_iff_of_nodup hkeys.of_map hhex.of_map).mpr ?_⟩
  refine fun x => ⟨hsub x, fun hx => ?_⟩
  obtain ⟨m, hm, rfl⟩ := List.mem_map.mp hx
  obtain ⟨e, he, hkey, -⟩ := h.complete m hm
  have hk : (hexMember m).1 ∈ result.map Prod.fst := by
    rw [hmem]
    exact Or.inr ⟨e, he, by rw [keyHex, hkey]; rfl⟩
  obtain ⟨y, hy, hyk⟩ := List.mem_map.mp hk
  rw [← functional_of_nodup hhex y (hsub y hy) _ hx hyk]
  exact hy

end Entries

section Root

variable {M : Contents}

theorem filter_hexMembers (M : Contents) (path : Hex) :
    (M.map hexMember).filter (fun x => decide (x.1.take bucketNibbles = path)) =
      (membersAt M path).map hexMember := by
  rw [List.filter_map]
  rfl

theorem bucketPath_length (m : Digest32 × Logical) : (bucketPath m).length = bucketNibbles := by
  rw [bucketPath_eq, length_pathOf]
  rfl

theorem membersAt_ne_nil {path : Hex} : membersAt M path ≠ [] ↔ ∃ m ∈ M, bucketPath m = path := by
  rw [← List.isEmpty_eq_false_iff, List.isEmpty_eq_false_iff_exists_mem]
  simp only [mem_membersAt]

variable [Sha256]

theorem fromSorted_holds {entries : List Entry} (h : Lists entries M)
    (hnodup : (M.map Prod.fst).Nodup) :
    ∃ built, BucketedMerkleSet.fromSorted entries = .ok built ∧ Holds built M := by
  obtain ⟨members, hread, hperm⟩ := h.read hnodup
  have hkeysNodup : ((members ++ []).map Prod.fst).Nodup := by
    rw [List.append_nil]
    exact (hperm.map Prod.fst).nodup_iff.mpr (nodup_hexMembers hnodup)
  have hempty : Grouped [] [] := ⟨fun _ => List.Perm.refl _, by simp⟩
  have hgrouped := grouped_addMembers members hempty hkeysNodup
  rw [List.append_nil] at hgrouped
  have hgroup := hgrouped.perm hperm
  generalize hbuckets : members.foldl BucketedMerkleSet.addMember [] = membersByBucket at hgroup
  have hat : ∀ path, ((AssocMap.get membersByBucket path).getD []).Perm
      ((membersAt M path).map hexMember) := by
    intro path
    rw [← filter_hexMembers]
    exact hgroup.buckets path
  have hkeys : ∀ path, path ∈ membersByBucket.map Prod.fst ↔ membersAt M path ≠ [] := by
    intro path
    rw [hgroup.keys, membersAt_ne_nil]
    constructor
    · rintro ⟨x, hx, rfl⟩
      obtain ⟨m, hm, rfl⟩ := List.mem_map.mp hx
      exact ⟨m, hm, rfl⟩
    · rintro ⟨m, hm, rfl⟩
      exact ⟨hexMember m, List.mem_map_of_mem hm, rfl⟩
  have hmapKeys : (membersByBucket.map (fun bucket => (bucket.1, computeBucketDigest bucket.2))).map
      Prod.fst = membersByBucket.map Prod.fst := by
    rw [List.map_map]
    rfl
  have hlen : ∀ p ∈ membersByBucket.map Prod.fst, p.length = bucketNibbles := by
    intro p hp
    obtain ⟨m, -, rfl⟩ := membersAt_ne_nil.mp ((hkeys p).mp hp)
    exact bucketPath_length m
  have hfun := functional_of_nodup (nodup_digestMembers hnodup)
  have hcount : members.length = (canonOn Prod.fst (M.map digestMember)).length := by
    rw [hperm.length_eq, (canonOn_perm (nodup_digestMembers hnodup)).length_eq, List.length_map,
      List.length_map]
  refine ⟨_, by
    rw [BucketedMerkleSet.fromSorted, hread]
    rfl, hnodup, ?_, ?_, ?_⟩
  · rw [hbuckets]
    exact hat
  · intro path
    rw [← hkeys, hbuckets, hmapKeys]
  · rw [hbuckets]
    refine ⟨hfun, ?_, computeLevels_nodes hlen (fun p hp => hmapKeys ▸ hp) _, hcount⟩
    intro idx hidx
    rw [← map_membersAt M hidx]
    have hperm := hat (pathOf 5 idx)
    simp only [dense, AssocMap.get_map_values]
    by_cases hnil : membersAt M (pathOf 5 idx) = []
    · have hnone : AssocMap.get membersByBucket (pathOf 5 idx) = none := by
        rw [AssocMap.get_eq_none_iff, hkeys, hnil]
        simp
      rw [hnone, hnil]
      rfl
    · cases hget : AssocMap.get membersByBucket (pathOf 5 idx) with
      | none =>
        rw [AssocMap.get_eq_none_iff, hkeys] at hget
        exact absurd hnil hget
      | some bucket =>
        rw [hget] at hperm
        exact computeBucketDigest_eq hperm (hnodup.sublist (List.filter_sublist.map _)) hnil

theorem rootFromBucketDigests_eq {tree : BucketedMerkleSet} (h : Holds tree M) :
    rootFromBucketDigests tree.bucketDigests = .ok (specRoot (M.map digestMember)) := by
  have hnil : tree.bucketDigest = [] ↔ M = [] := by
    constructor
    · intro hb
      rw [List.eq_nil_iff_forall_not_mem]
      intro m hm
      have hkey := (h.keys (bucketPath m)).mpr (membersAt_ne_nil.mpr ⟨m, hm, rfl⟩)
      rw [hb] at hkey
      exact absurd hkey (by simp)
    · rintro rfl
      rw [← List.map_eq_nil_iff (f := Prod.fst), List.eq_nil_iff_forall_not_mem]
      exact fun path hpath => (h.keys path).mp hpath rfl
  unfold rootFromBucketDigests BucketedMerkleSet.bucketDigests specRoot
  by_cases hM : M = []
  · rw [hnil.mpr hM, hM]
    rfl
  · have hlen : ∀ p ∈ tree.bucketDigest.map Prod.fst, p.length = bucketNibbles := by
      intro p hp
      obtain ⟨m, -, rfl⟩ := membersAt_ne_nil.mp ((h.keys p).mp hp)
      exact bucketPath_length m
    have hall : tree.bucketDigest.all (fun bucket => decide (bucket.1.length = bucketNibbles)) =
        true := by
      rw [List.all_eq_true]
      intro bucket hbucket
      simpa using hlen bucket.1 (List.mem_map_of_mem hbucket)
    have hrep : (dense tree.bucketDigest (computeLevels tree.bucketDigest
        (tree.bucketDigest.map Prod.fst)) tree.count).Represents (M.map digestMember) :=
      ⟨h.represents.functional, h.represents.buckets,
        computeLevels_nodes hlen (fun _ hp => hp) tree.count, h.represents.count⟩
    have hroot := hrep.nodeLevels_eq 4 le_rfl 0 (by norm_num)
    rw [if_neg (by simpa using fun hb => hM (hnil.mp hb)), if_pos hall,
      if_neg (by simpa using hM), ← hroot, emptyNodeDigest_eq (by omega)]
    rfl

theorem root_agrees (ops : List Op) :
    (∀ entries, Lists entries (contents ops) →
      ∃ built, BucketedMerkleSet.fromSorted entries = .ok built ∧ built.root = (run ops).root) ∧
    rootFromBucketDigests (run ops).bucketDigests = .ok (run ops).root ∧
    ∀ S, (∀ e, e ∈ S ↔ e ∈ (contents ops).map digestMember) →
      ∃ built, MerkleBucket.BucketedMerkleSet.fromSorted S = .ok built ∧
        built.root = (run ops).root := by
  have h := run_holds ops
  have hfun := functional_of_nodup (nodup_digestMembers h.nodup)
  refine ⟨?_, ?_, ?_⟩
  · intro entries hlists
    obtain ⟨built, hbuilt, hholds⟩ := fromSorted_holds hlists h.nodup
    exact ⟨built, hbuilt, hholds.root_eq.trans h.root_eq.symm⟩
  · rw [rootFromBucketDigests_eq h, h.root_eq]
  · intro S hS
    obtain ⟨built, hbuilt, hrep⟩ := MerkleBucket.BucketedMerkleSet.fromSorted_ok
      (hfun.mono (fun e he => (hS e).mp he))
    refine ⟨built, hbuilt, ?_⟩
    rw [hrep.root_eq, h.root_eq]
    exact (specRoot_congr hfun (fun e => (hS e).symm)).symm

end Root

section Instance

def memberA : JsString := List.replicate 64 'a'

def memberB : JsString := "sha256:".toList ++ List.replicate 64 'B'

theorem root_agrees_deleted :
    ∃ built, @BucketedMerkleSet.fromSorted MerkleBucket.BucketedMerkleSet.constantDigest
        [⟨memberB, memberA⟩] = .ok built ∧
      @BucketedMerkleSet.root MerkleBucket.BucketedMerkleSet.constantDigest built =
        @BucketedMerkleSet.root MerkleBucket.BucketedMerkleSet.constantDigest
          (@run MerkleBucket.BucketedMerkleSet.constantDigest
            [.set memberA memberB, .set memberA memberA, .set memberB memberA,
              .delete memberA]) := by
  let _ := MerkleBucket.BucketedMerkleSet.constantDigest
  exact (root_agrees _).1 _ (lists_of_map (by decide +kernel))

end Instance

end Canonical
