import Urdira.Canonical.MerkleRadix

open ByteOrder KeyedSet MerkleBucket PrefixTree

namespace Canonical

structure Sha256Key where
  digits : Hex
  size : digits.length = 64
  deriving DecidableEq

def hexChar (d : Fin 16) : Char := Char.ofNat (if d.val < 10 then 48 + d.val else 87 + d.val)

def sha256Text (digits : Hex) : JsString := "sha256:".toList ++ digits.map hexChar

abbrev Bits := List (Fin 2)

def nibbleBits (d : Fin 16) : Bits :=
  [Fin.ofNat 2 (d.val / 8), Fin.ofNat 2 (d.val / 4), Fin.ofNat 2 (d.val / 2), Fin.ofNat 2 d.val]

def bits (key : Sha256Key) : Bits := key.digits.flatMap nibbleBits

structure SparseMerkleSet where
  leaves : List (Sha256Key × Digest32)
  nodes : List (Bits × Digest32)
  prefixCounts : List (Bits × ℕ)

namespace SparseMerkleSet

def textBytes (value : JsString) : Bytes := utf8 (String.ofList value)

def empty : SparseMerkleSet := ⟨[], [], []⟩

variable [Sha256]

def leafDigest (memberDigest : Sha256Key) (logicalDigest : JsString) : Digest32 :=
  Sha256.digest (utf8 "urdira:merkle:leaf\x00" ++ textBytes (sha256Text memberDigest.digits) ++
    textBytes logicalDigest)

def hashChildren (depth : ℕ) (left right : Digest32) : Digest32 :=
  Sha256.digest (utf8 "urdira:merkle:node\x00" ++ utf8 (toString depth) ++
    textBytes (sha256Text (nibbles left.bytes)) ++ textBytes (sha256Text (nibbles right.bytes)))

omit [Sha256] in
def side (prefixCounts : List (Bits × ℕ)) (path : Bits) (depth : ℕ) (nodes : List (Bits × Digest32))
    (bit : Fin 2) : Digest32 :=
  let sidePath := path.take (depth - 1) ++ [bit]
  if (AssocMap.get prefixCounts sidePath).getD 0 = 0 then zero
  else if path[depth - 1]? = some bit then (AssocMap.get nodes (path.take depth)).getD zero
  else (AssocMap.get nodes sidePath).getD zero

def recomputeFrom (prefixCounts : List (Bits × ℕ)) (path : Bits) :
    ℕ → List (Bits × Digest32) → List (Bits × Digest32)
  | 0, nodes => nodes
  | depth + 1, nodes =>
    let parent := path.take depth
    let left := side prefixCounts path (depth + 1) nodes 0
    let right := side prefixCounts path (depth + 1) nodes 1
    recomputeFrom prefixCounts path depth
      (if (AssocMap.get prefixCounts parent).getD 0 = 0 then AssocMap.erase nodes parent
      else AssocMap.insert nodes parent (hashChildren depth left right))

def recompute (self : SparseMerkleSet) (memberDigest : Sha256Key) : SparseMerkleSet :=
  { self with
    nodes := recomputeFrom self.prefixCounts (bits memberDigest) 256
      (match AssocMap.get self.leaves memberDigest with
      | some leaf => AssocMap.insert self.nodes (bits memberDigest) leaf
      | none => AssocMap.erase self.nodes (bits memberDigest)) }

def set (self : SparseMerkleSet) (memberDigest : Sha256Key) (logicalDigest : JsString) :
    SparseMerkleSet :=
  recompute
    { self with
      prefixCounts :=
        if (AssocMap.get self.leaves memberDigest).isSome then self.prefixCounts
        else bump 256 self.prefixCounts (bits memberDigest)
      leaves := AssocMap.insert self.leaves memberDigest (leafDigest memberDigest logicalDigest) }
        memberDigest

def delete (self : SparseMerkleSet) (memberDigest : Sha256Key) : SparseMerkleSet :=
  if (AssocMap.get self.leaves memberDigest).isSome then
    recompute
      { self with
        prefixCounts := drop 256 self.prefixCounts (bits memberDigest)
        leaves := AssocMap.erase self.leaves memberDigest } memberDigest
  else self

omit [Sha256] in
def root (self : SparseMerkleSet) : Digest32 :=
  if self.leaves.length = 0 then zero else (AssocMap.get self.nodes []).getD zero

section Paths

omit [Sha256]

theorem nibbleBits_injective : Function.Injective nibbleBits := by decide

theorem length_flatMap_nibbleBits (digits : Hex) :
    (digits.flatMap nibbleBits).length = 4 * digits.length := by
  induction digits with
  | nil => rfl
  | cons d digits ih =>
    rw [List.flatMap_cons, List.length_append, ih, List.length_cons]
    change 4 + 4 * digits.length = _
    omega

theorem length_bits (key : Sha256Key) : (bits key).length = 256 := by
  rw [bits, length_flatMap_nibbleBits, key.size]

theorem flatMap_nibbleBits_injective :
    Function.Injective (fun digits : Hex => digits.flatMap nibbleBits) := by
  intro digits
  induction digits with
  | nil =>
    intro other h
    cases other with
    | nil => rfl
    | cons d other => cases h
  | cons d digits ih =>
    intro other h
    cases other with
    | nil => cases h
    | cons d' other =>
      have happend : nibbleBits d ++ digits.flatMap nibbleBits =
          nibbleBits d' ++ other.flatMap nibbleBits := h
      obtain ⟨hhead, htail⟩ := List.append_inj happend rfl
      rw [nibbleBits_injective hhead, ih htail]

theorem bits_injective : Function.Injective bits := by
  intro key other h
  have hdigits := flatMap_nibbleBits_injective h
  cases key
  cases other
  cases hdigits
  rfl

end Paths

def nodeDigest (path : Bits) (child : Fin 2 → Option Digest32) : Digest32 :=
  hashChildren path.length ((child 0).getD zero) ((child 1).getD zero)

def sideOf (prefixCounts : List (Bits × ℕ)) (nodes : List (Bits × Digest32)) (parent : Bits)
    (bit : Fin 2) :
    Digest32 :=
  if (AssocMap.get prefixCounts (parent ++ [bit])).getD 0 = 0 then zero
  else (AssocMap.get nodes (parent ++ [bit])).getD zero

def parentValue (prefixCounts : List (Bits × ℕ)) (nodes : List (Bits × Digest32)) (parent : Bits) :
    Option Digest32 :=
  if (AssocMap.get prefixCounts parent).getD 0 = 0 then none
  else some (hashChildren parent.length (sideOf prefixCounts nodes parent 0)
    (sideOf prefixCounts nodes parent 1))

omit [Sha256] in
theorem side_eq (prefixCounts : List (Bits × ℕ)) (path : Bits) (depth : ℕ)
    (nodes : List (Bits × Digest32))
    (bit : Fin 2) :
    side prefixCounts path (depth + 1) nodes bit =
      sideOf prefixCounts nodes (path.take depth) bit := by
  unfold side sideOf
  rw [Nat.add_sub_cancel]
  refine if_congr Iff.rfl rfl ?_
  split
  · rename_i hbit
    have htake : path.take (depth + 1) = path.take depth ++ [bit] := by
      rw [List.take_add_one, hbit]
      rfl
    rw [htake]
  · rfl

theorem recomputeFrom_eq (prefixCounts : List (Bits × ℕ)) (path : Bits) {depth : ℕ}
    (hdepth : depth ≤ path.length)
    (nodes : List (Bits × Digest32)) :
    recomputeFrom prefixCounts path depth nodes =
      climb (parentValue prefixCounts) path depth nodes := by
  induction depth generalizing nodes with
  | zero => rfl
  | succ depth ih =>
    have hlength : (path.take depth).length = depth := by
      rw [List.length_take]
      omega
    unfold recomputeFrom climb
    dsimp only
    rw [ih (Nat.le_of_succ_le hdepth), side_eq, side_eq]
    refine congrArg (climb (parentValue prefixCounts) path depth) ?_
    unfold parentValue
    rw [hlength]
    split
    · rfl
    · rfl

theorem parentValue_counted : Counted nodeDigest 256 parentValue := by
  intro leaf keys counts hkeys hcounts
  refine valueOk_counted hkeys hcounts (fun nodes path _ hchildren => ?_)
  have hside : ∀ bit, sideOf counts nodes path bit =
      (expected nodeDigest 256 leaf (path ++ [bit])).getD zero := by
    intro bit
    unfold sideOf
    rw [hchildren bit]
    split
    · rename_i hzero
      have hnone : expected nodeDigest 256 leaf (path ++ [bit]) = none := by
        rw [← Option.not_isSome_iff_eq_none, expected_isSome hkeys.leaf_length, hkeys.exists_iff]
        exact (hcounts.eq_zero _).mp hzero
      rw [hnone]
      rfl
    · rfl
  rw [hside, hside]
  rfl

section Run

inductive Call where
  | set (memberDigest : Sha256Key) (logicalDigest : JsString)
  | delete (memberDigest : Sha256Key)

abbrev Entries := List (Sha256Key × JsString)

def overwrite (M : Entries) : Call → Entries
  | .set memberDigest logicalDigest => AssocMap.insert M memberDigest logicalDigest
  | .delete memberDigest => AssocMap.erase M memberDigest

def finalEntries (calls : List Call) : Entries := calls.foldl overwrite []

def call (self : SparseMerkleSet) : Call → SparseMerkleSet
  | .set memberDigest logicalDigest => self.set memberDigest logicalDigest
  | .delete memberDigest => self.delete memberDigest

def run (calls : List Call) : SparseMerkleSet := calls.foldl call empty

def insertAll (entries : Entries) : SparseMerkleSet :=
  entries.foldl (fun self entry => self.set entry.1 entry.2) empty

def pathLeaves (leaves : List (Sha256Key × Digest32)) : List (Bits × Digest32) :=
  leaves.map (fun e => (bits e.1, e.2))

def leavesOf (M : Entries) : List (Bits × Digest32) :=
  M.map (fun m => (bits m.1, leafDigest m.1 m.2))

structure Tracks (tree : SparseMerkleSet) (M : Entries) : Prop where
  holds : PrefixTree.Holds nodeDigest 256 (AssocMap.get (pathLeaves tree.leaves))
    ((pathLeaves tree.leaves).map Prod.fst) tree.prefixCounts tree.nodes
  nodup : (M.map Prod.fst).Nodup
  leaves : AssocMap.get (pathLeaves tree.leaves) = AssocMap.get (leavesOf M)

omit [Sha256] in
theorem pathLeaves_insert (leaves : List (Sha256Key × Digest32)) (key : Sha256Key)
    (leaf : Digest32) :
    pathLeaves (AssocMap.insert leaves key leaf) =
      AssocMap.insert (pathLeaves leaves) (bits key) leaf :=
  map_insert (fun (_ : Sha256Key) (leaf : Digest32) => leaf) bits_injective leaves key leaf

omit [Sha256] in
theorem pathLeaves_erase (leaves : List (Sha256Key × Digest32)) (key : Sha256Key) :
    pathLeaves (AssocMap.erase leaves key) = AssocMap.erase (pathLeaves leaves) (bits key) :=
  map_erase (fun (_ : Sha256Key) (leaf : Digest32) => leaf) bits_injective leaves key

theorem leavesOf_insert (M : Entries) (key : Sha256Key) (logical : JsString) :
    leavesOf (AssocMap.insert M key logical) =
      AssocMap.insert (leavesOf M) (bits key) (leafDigest key logical) :=
  map_insert leafDigest bits_injective M key logical

theorem leavesOf_erase (M : Entries) (key : Sha256Key) :
    leavesOf (AssocMap.erase M key) = AssocMap.erase (leavesOf M) (bits key) :=
  map_erase leafDigest bits_injective M key

omit [Sha256] in
theorem get_pathLeaves (leaves : List (Sha256Key × Digest32)) (key : Sha256Key) :
    AssocMap.get (pathLeaves leaves) (bits key) = AssocMap.get leaves key := by
  unfold pathLeaves
  rw [get_map (fun (_ : Sha256Key) (leaf : Digest32) => leaf) bits_injective]
  exact Option.map_id'

variable {tree other : SparseMerkleSet} {M : Entries}

theorem recompute_nodes (tree : SparseMerkleSet) (key : Sha256Key) :
    (recompute tree key).nodes = climb (parentValue tree.prefixCounts) (bits key) 256
      (put tree.nodes (bits key) (AssocMap.get tree.leaves key)) := by
  unfold recompute
  dsimp only
  rw [recomputeFrom_eq _ _ (length_bits key).ge]
  refine congrArg (climb (parentValue tree.prefixCounts) (bits key) 256) ?_
  cases AssocMap.get tree.leaves key with
  | none => rfl
  | some leaf => rfl

theorem recompute_prefixCounts (tree : SparseMerkleSet) (key : Sha256Key) :
    (recompute tree key).prefixCounts = tree.prefixCounts := by
  unfold recompute
  dsimp only

theorem Tracks.set (h : Tracks tree M) (key : Sha256Key) (logical : JsString) :
    Tracks (tree.set key logical) (AssocMap.insert M key logical) := by
  refine ⟨?_, AssocMap.nodup_insert h.nodup key logical, ?_⟩
  · unfold SparseMerkleSet.set
    rw [recompute_nodes, recompute_prefixCounts]
    dsimp only
    rw [AssocMap.get_insert_self]
    change PrefixTree.Holds _ _ (AssocMap.get (pathLeaves (AssocMap.insert tree.leaves key _)))
      ((pathLeaves (AssocMap.insert tree.leaves key _)).map Prod.fst) _ _
    rw [pathLeaves_insert]
    refine h.holds.setLeaf parentValue_counted (length_bits key) _ ?_
    rw [get_pathLeaves]
  · change AssocMap.get (pathLeaves (AssocMap.insert tree.leaves key _)) = _
    rw [pathLeaves_insert, leavesOf_insert, get_insert_eq_update, get_insert_eq_update, h.leaves]

theorem Tracks.delete (h : Tracks tree M) (key : Sha256Key) :
    Tracks (tree.delete key) (AssocMap.erase M key) := by
  have hnodup : ((AssocMap.erase M key).map Prod.fst).Nodup :=
    h.nodup.sublist (List.filter_sublist.map _)
  unfold SparseMerkleSet.delete
  by_cases hold : (AssocMap.get tree.leaves key).isSome
  · rw [if_pos hold]
    refine ⟨?_, hnodup, ?_⟩
    · rw [recompute_nodes, recompute_prefixCounts]
      dsimp only
      rw [AssocMap.get_erase_self]
      change PrefixTree.Holds _ _ (AssocMap.get (pathLeaves (AssocMap.erase tree.leaves key)))
        ((pathLeaves (AssocMap.erase tree.leaves key)).map Prod.fst) _ _
      rw [pathLeaves_erase]
      rw [← get_pathLeaves] at hold
      exact h.holds.eraseLeaf parentValue_counted hold
    · change AssocMap.get (pathLeaves (AssocMap.erase tree.leaves key)) = _
      rw [pathLeaves_erase, leavesOf_erase, get_erase_eq_update, get_erase_eq_update, h.leaves]
  · rw [if_neg hold]
    refine ⟨h.holds, hnodup, ?_⟩
    have hnone : AssocMap.get (leavesOf M) (bits key) = none := by
      rw [← h.leaves, get_pathLeaves]
      exact Option.not_isSome_iff_eq_none.mp hold
    rw [leavesOf_erase, get_erase_eq_update, ← hnone, Function.update_eq_self, h.leaves]

theorem empty_tracks : Tracks empty [] := ⟨holds_nil nodeDigest 256, List.nodup_nil, rfl⟩

theorem run_tracks (calls : List Call) : Tracks (run calls) (finalEntries calls) := by
  have hrun : ∀ (tree : SparseMerkleSet) (M : Entries), Tracks tree M →
      Tracks (calls.foldl call tree) (calls.foldl overwrite M) := by
    induction calls with
    | nil => exact fun tree M h => h
    | cons c calls ih =>
      intro tree M h
      refine ih _ _ ?_
      cases c with
      | set key logical => exact h.set key logical
      | delete key => exact h.delete key
  exact hrun empty [] empty_tracks

theorem insertAll_tracks (entries : Entries) :
    Tracks (insertAll entries) (AssocMap.insertAll [] entries) := by
  have hrun : ∀ (tree : SparseMerkleSet) (M : Entries), Tracks tree M →
      Tracks (entries.foldl (fun tree entry => tree.set entry.1 entry.2) tree)
        (AssocMap.insertAll M entries) := by
    induction entries with
    | nil => exact fun tree M h => h
    | cons entry entries ih => exact fun tree M h => ih _ _ (h.set entry.1 entry.2)
  exact hrun empty [] empty_tracks

omit [Sha256] in
theorem root_eq (tree : SparseMerkleSet) :
    tree.root = rootOf zero (pathLeaves tree.leaves) tree.nodes := by
  unfold root rootOf pathLeaves
  rw [List.length_map]

theorem Tracks.root_congr {M' : Entries} (h : Tracks tree M) (h' : Tracks other M')
    (hM : M.Perm M') :
    tree.root = other.root := by
  have hkeys : ((leavesOf M).map Prod.fst).Nodup := by
    rw [leavesOf, List.map_map]
    have hmap := h.nodup.map bits_injective
    rw [List.map_map] at hmap
    exact hmap
  have hleaves : AssocMap.get (leavesOf M) = AssocMap.get (leavesOf M') := get_perm hkeys (hM.map _)
  rw [root_eq, root_eq]
  exact h.holds.rootOf_congr zero h'.holds (h.leaves.trans (hleaves.trans h'.leaves.symm))

theorem Tracks.isSome_iff (h : Tracks tree M) (path : Bits) :
    (AssocMap.get tree.nodes path).isSome ↔ ∃ m ∈ M, path <+: bits m.1 := by
  rw [h.holds.isSome_iff]
  constructor
  · rintro ⟨key, hkey, hbefore⟩
    rw [mem_keys_iff_isSome, h.leaves, ← mem_keys_iff_isSome, leavesOf, List.map_map] at hkey
    obtain ⟨m, hm, rfl⟩ := List.mem_map.mp hkey
    exact ⟨m, hm, hbefore⟩
  · rintro ⟨m, hm, hbefore⟩
    refine ⟨bits m.1, ?_, hbefore⟩
    rw [mem_keys_iff_isSome, h.leaves, ← mem_keys_iff_isSome, leavesOf, List.map_map]
    exact List.mem_map.mpr ⟨m, hm, rfl⟩

omit [Sha256] in
theorem insertAll_perm {entries : Entries} (hnodup : (entries.map Prod.fst).Nodup) :
    (AssocMap.insertAll [] entries).Perm entries := by
  have hreverse : ((entries.reverse ++ []).map Prod.fst).Nodup := by
    rw [List.append_nil, List.map_reverse, List.nodup_reverse]
    exact hnodup
  rw [insertAll_eq_reverse hreverse, List.append_nil]
  exact List.reverse_perm entries

end Run

end SparseMerkleSet

section History

variable [Sha256]

theorem merkle_sets_history_independent (ops : List Op) (calls : List SparseMerkleSet.Call) :
    ((∀ entries, Lists entries (MerkleRadixSet.finalEntries ops) →
        ∃ built, MerkleRadixSet.from entries = .ok built ∧
          built.root = (MerkleRadixSet.run ops).root) ∧
      ∀ path, (AssocMap.get (MerkleRadixSet.run ops).nodes path).isSome ↔
        ∃ m ∈ MerkleRadixSet.finalEntries ops, path <+: nibbles m.1.bytes) ∧
    (∀ entries, entries.Perm (SparseMerkleSet.finalEntries calls) →
      (SparseMerkleSet.insertAll entries).root = (SparseMerkleSet.run calls).root) ∧
    ∀ path, (AssocMap.get (SparseMerkleSet.run calls).nodes path).isSome ↔
      ∃ m ∈ SparseMerkleSet.finalEntries calls, path <+: bits m.1 := by
  have hradix := MerkleRadixSet.run_tracks ops
  have hsparse := SparseMerkleSet.run_tracks calls
  refine ⟨⟨fun entries hentries => ?_, hradix.isSome_iff⟩, fun entries hentries => ?_,
    hsparse.isSome_iff⟩
  · obtain ⟨built, hbuilt, htracks⟩ := MerkleRadixSet.from_tracks hentries hradix.nodup
    exact ⟨built, hbuilt, htracks.ok.root_congr hradix.ok (htracks.leaves.trans hradix.leaves.symm)⟩
  · have hnodup : (entries.map Prod.fst).Nodup :=
      (hentries.map Prod.fst).nodup_iff.mpr hsparse.nodup
    exact (SparseMerkleSet.insertAll_tracks entries).root_congr hsparse
      ((SparseMerkleSet.insertAll_perm hnodup).trans hentries)

def filledKey (d : Fin 16) : Sha256Key := ⟨List.replicate 64 d, List.length_replicate⟩

omit [Sha256] in
theorem merkle_sets_history_independent_deleted :
    ∃ _ : Sha256, (∃ built, MerkleRadixSet.from [⟨memberB, memberA⟩] = .ok built ∧
        built.root = (MerkleRadixSet.run
          [.set memberA memberB, .set memberB memberB, .set memberB memberA,
            .delete memberA]).root) ∧
      (SparseMerkleSet.insertAll [(filledKey 1, memberA), (filledKey 2, memberB)]).root =
        (SparseMerkleSet.run [.set (filledKey 1) memberB, .set (filledKey 3) memberA,
          .set (filledKey 2) memberB, .delete (filledKey 3), .set (filledKey 1) memberA]).root := by
  let _ := MerkleBucket.BucketedMerkleSet.constantDigest
  have hagree := merkle_sets_history_independent
    [.set memberA memberB, .set memberB memberB, .set memberB memberA, .delete memberA]
    [.set (filledKey 1) memberB, .set (filledKey 3) memberA, .set (filledKey 2) memberB,
      .delete (filledKey 3), .set (filledKey 1) memberA]
  exact ⟨_, hagree.1.1 _ (lists_of_map (by decide +kernel)), hagree.2.1 _ (by decide +kernel)⟩

end History

end Canonical
