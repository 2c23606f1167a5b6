import Urdira.Canonical.SetRoot
import Urdira.Lib.PrefixTree
import Urdira.Lib.ExceptOk

open ByteOrder KeyedSet MerkleBucket PrefixTree

namespace Canonical

def radixTypeError : Fault := .error "Merkle radix keys and values must be sha256 digests."

def radixConflictError : Fault :=
  .error "Merkle radix duplicate member has conflicting logical digests."

def radixDomainLeaf : Bytes := utf8 "urdira:merkle-radix:leaf\x00"

def radixDomainNode : Bytes := utf8 "urdira:merkle-radix:node\x00"

structure MerkleRadixSet where
  leaves : List (Hex × Digest32)
  nodes : List (Hex × Digest32)
  prefixCounts : List (Hex × ℕ)

namespace MerkleRadixSet

def digestBytes (value : JsString) : Except Fault Digest32 :=
  (Canonical.digestBytes value).mapError (fun _ => radixTypeError)

def keyHex (value : JsString) : Except Fault Hex :=
  (digestBytes value).map (fun d => nibbles d.bytes)

def empty : MerkleRadixSet := ⟨[], [], []⟩

def readEntry (logicalByKey : List (Hex × JsString)) (entry : Entry) :
    Except Fault (List (Hex × JsString)) := do
  let member ← keyHex entry.memberDigest
  let _ ← digestBytes entry.logicalDigest
  match AssocMap.get logicalByKey member with
  | some previous =>
    if previous ≠ entry.logicalDigest then .error radixConflictError
    else .ok (AssocMap.insert logicalByKey member entry.logicalDigest)
  | none => .ok (AssocMap.insert logicalByKey member entry.logicalDigest)

section Digests

variable [Sha256]

def leafDigest (member : Bytes) (logical : Digest32) : Digest32 :=
  Sha256.digest (radixDomainLeaf ++ member ++ logical.bytes)

-- the label of a node is the number of nibbles of its path and one more
def nodeDigest (path : Hex) (child : Fin 16 → Option Digest32) : Digest32 :=
  Sha256.digest (radixDomainNode ++ [Fin.ofNat 256 (path.length + 1)] ++
    (List.ofFn child).flatMap (fun digest => (digest.getD zero).bytes))

def parentValue (prefixCounts : List (Hex × ℕ)) (nodes : List (Hex × Digest32)) (parent : Hex) :
    Option Digest32 :=
  if (AssocMap.get prefixCounts parent).getD 0 = 0 then none
  else some (nodeDigest parent (fun digit => AssocMap.get nodes (parent ++ [digit])))

def recompute (self : MerkleRadixSet) (key : Hex) : MerkleRadixSet :=
  { self with
    nodes :=
      climb (parentValue self.prefixCounts) key 64
        (put self.nodes key (AssocMap.get self.leaves key)) }

def set (self : MerkleRadixSet) (memberDigest logicalDigest : JsString) :
    Except Fault MerkleRadixSet := do
  let key ← keyHex memberDigest
  let logical ← digestBytes logicalDigest
  let member ← digestBytes memberDigest
  .ok (recompute
    { self with
      prefixCounts :=
        if (AssocMap.get self.leaves key).isSome then self.prefixCounts
        else bump 64 self.prefixCounts key
      leaves := AssocMap.insert self.leaves key (leafDigest member.bytes logical) } key)

def delete (self : MerkleRadixSet) (memberDigest : JsString) : Except Fault MerkleRadixSet := do
  let key ← keyHex memberDigest
  if (AssocMap.get self.leaves key).isSome then
    .ok (recompute
      { self with
        prefixCounts := drop 64 self.prefixCounts key
        leaves := AssocMap.erase self.leaves key } key)
  else .ok self

omit [Sha256] in
def root (self : MerkleRadixSet) : Digest32 :=
  if self.leaves.length = 0 then zero else (AssocMap.get self.nodes []).getD zero

def addLeaf (tree : MerkleRadixSet) (entry : Hex × JsString) : Except Fault MerkleRadixSet := do
  let logical ← digestBytes entry.2
  .ok
    { tree with
      leaves := AssocMap.insert tree.leaves entry.1 (leafDigest (hexBytes entry.1) logical)
      prefixCounts := bump 64 tree.prefixCounts entry.1 }

omit [Sha256] in
def parentPrefixes (keys : List Hex) : List Hex :=
  sortOn (fun path => toLex (64 - path.length, path))
    (keys.flatMap (fun key => (List.range 64).map key.take)).dedup

def buildNodes (leaves : List (Hex × Digest32)) : List (Hex × Digest32) :=
  (parentPrefixes (leaves.map Prod.fst)).foldl (fun nodes path =>
    AssocMap.insert nodes path (nodeDigest path
      (fun digit => AssocMap.get nodes (path ++ [digit]))))
    (AssocMap.insertAll [] leaves)

def «from» (entries : List Entry) : Except Fault MerkleRadixSet := do
  let logicalByKey ← entries.foldlM readEntry []
  let tree ← logicalByKey.foldlM addLeaf empty
  .ok { tree with nodes := buildNodes tree.leaves }

end Digests

section Holds

variable [Sha256] {tree : MerkleRadixSet} {key : Hex} {v : Digest32}

def Ok (tree : MerkleRadixSet) : Prop :=
  PrefixTree.Holds nodeDigest 64 (AssocMap.get tree.leaves) (tree.leaves.map Prod.fst)
    tree.prefixCounts tree.nodes

theorem parentValue_counted : Counted nodeDigest 64 parentValue := by
  intro leaf keys counts hkeys hcounts
  refine valueOk_counted hkeys hcounts (fun nodes path _ hchildren => ?_)
  exact congrArg (nodeDigest path) (funext hchildren)

theorem empty_ok : Ok empty := holds_nil nodeDigest 64

theorem Ok.setLeaf (h : Ok tree) (hkey : key.length = 64) (v : Digest32) :
    Ok (recompute
      { tree with
        prefixCounts :=
          if (AssocMap.get tree.leaves key).isSome then tree.prefixCounts
          else bump 64 tree.prefixCounts key
        leaves := AssocMap.insert tree.leaves key v } key) := by
  unfold Ok recompute
  dsimp only
  rw [AssocMap.get_insert_self]
  exact PrefixTree.Holds.setLeaf h parentValue_counted hkey v rfl

theorem Ok.eraseLeaf (h : Ok tree) (hold : (AssocMap.get tree.leaves key).isSome) :
    Ok (recompute
      { tree with
        prefixCounts := drop 64 tree.prefixCounts key
        leaves := AssocMap.erase tree.leaves key } key) := by
  unfold Ok recompute
  dsimp only
  rw [AssocMap.get_erase_self]
  exact PrefixTree.Holds.eraseLeaf h parentValue_counted hold

theorem Ok.root_congr {tree' : MerkleRadixSet} (h : Ok tree) (h' : Ok tree')
    (hleaves : AssocMap.get tree.leaves = AssocMap.get tree'.leaves) : tree.root = tree'.root :=
  PrefixTree.Holds.rootOf_congr zero h h' hleaves

end Holds

section Run

theorem length_nibbles (d : Digest32) : (nibbles d.bytes).length = 64 := by
  have htwice : ∀ bytes : Bytes, (nibbles bytes).length = 2 * bytes.length := by
    intro bytes
    induction bytes with
    | nil => rfl
    | cons b bytes ih =>
      change (nibbles bytes).length + 2 = 2 * (bytes.length + 1)
      omega
  rw [htwice, d.size]

def overwrite (M : Contents) : Op → Contents
  | .set memberDigest logicalDigest =>
    match Canonical.digestBytes memberDigest, Logical.parse logicalDigest with
    | .ok key, .ok logical => AssocMap.insert M key logical
    | _, _ => M
  | .delete memberDigest =>
    match Canonical.digestBytes memberDigest with
    | .ok key => AssocMap.erase M key
    | .error _ => M

def finalEntries (ops : List Op) : Contents := ops.foldl overwrite []

variable [Sha256]

def apply (tree : MerkleRadixSet) : Op → Except Fault MerkleRadixSet
  | .set memberDigest logicalDigest => tree.set memberDigest logicalDigest
  | .delete memberDigest => tree.delete memberDigest

def call (tree : MerkleRadixSet) (op : Op) : MerkleRadixSet :=
  match tree.apply op with
  | .ok tree' => tree'
  | .error _ => tree

def run (ops : List Op) : MerkleRadixSet := ops.foldl call empty

def leavesOf (M : Contents) : List (Hex × Digest32) :=
  M.map (fun m => (nibbles m.1.bytes, leafDigest m.1.bytes m.2.bytes))

structure Tracks (tree : MerkleRadixSet) (M : Contents) : Prop where
  ok : Ok tree
  nodup : (M.map Prod.fst).Nodup
  leaves : AssocMap.get tree.leaves = AssocMap.get (leavesOf M)

theorem leavesOf_insert (M : Contents) (key : Digest32) (logical : Logical) :
    leavesOf (AssocMap.insert M key logical) =
      AssocMap.insert (leavesOf M) (nibbles key.bytes) (leafDigest key.bytes logical.bytes) :=
  map_insert (fun (key : Digest32) (logical : Logical) => leafDigest key.bytes logical.bytes)
    nibbles_digest_injective M key logical

theorem leavesOf_erase (M : Contents) (key : Digest32) :
    leavesOf (AssocMap.erase M key) = AssocMap.erase (leavesOf M) (nibbles key.bytes) :=
  map_erase (fun (key : Digest32) (logical : Logical) => leafDigest key.bytes logical.bytes)
    nibbles_digest_injective M key

variable {tree : MerkleRadixSet} {M : Contents} {memberDigest logicalDigest : JsString}
  {key : Digest32}

omit [Sha256] in
theorem digestBytes_of_parse {text : JsString} {logical : Logical}
    (h : Logical.parse text = .ok logical) :
    Canonical.digestBytes text = .ok logical.bytes := by
  rw [← Logical.text_of_parse h]
  exact logical.parsed

omit [Sha256] in
theorem digestBytes_of_parse_error {text : JsString} {fault : Fault}
    (h : Logical.parse text = .error fault) :
    Canonical.digestBytes text = .error fault := by
  unfold Logical.parse at h
  split at h
  · cases h
  · rename_i fault' hbytes
    cases h
    exact hbytes

theorem set_of_parse (tree : MerkleRadixSet) {logical : Logical}
    (hkey : Canonical.digestBytes memberDigest = .ok key)
    (hlogical : Logical.parse logicalDigest = .ok logical) :
    tree.set memberDigest logicalDigest = .ok (recompute
      { tree with
        prefixCounts :=
          if (AssocMap.get tree.leaves (nibbles key.bytes)).isSome then tree.prefixCounts
          else bump 64 tree.prefixCounts (nibbles key.bytes)
        leaves :=
          AssocMap.insert tree.leaves (nibbles key.bytes) (leafDigest key.bytes logical.bytes) }
      (nibbles key.bytes)) := by
  unfold MerkleRadixSet.set keyHex digestBytes
  rw [hkey, digestBytes_of_parse hlogical]
  rfl

theorem set_of_key_error (tree : MerkleRadixSet) {fault : Fault}
    (hkey : Canonical.digestBytes memberDigest = .error fault) :
    tree.set memberDigest logicalDigest = .error radixTypeError := by
  unfold MerkleRadixSet.set keyHex digestBytes
  rw [hkey]
  rfl

theorem set_of_logical_error (tree : MerkleRadixSet) {fault : Fault}
    (hkey : Canonical.digestBytes memberDigest = .ok key)
    (hlogical : Logical.parse logicalDigest = .error fault) :
    tree.set memberDigest logicalDigest = .error radixTypeError := by
  unfold MerkleRadixSet.set keyHex digestBytes
  rw [hkey, digestBytes_of_parse_error hlogical]
  rfl

theorem delete_of_key (tree : MerkleRadixSet)
    (hkey : Canonical.digestBytes memberDigest = .ok key) :
    tree.delete memberDigest =
      if (AssocMap.get tree.leaves (nibbles key.bytes)).isSome then
        .ok (recompute
          { tree with
            prefixCounts := drop 64 tree.prefixCounts (nibbles key.bytes)
            leaves := AssocMap.erase tree.leaves (nibbles key.bytes) } (nibbles key.bytes))
      else .ok tree := by
  unfold MerkleRadixSet.delete keyHex digestBytes
  rw [hkey]
  rfl

theorem delete_of_error (tree : MerkleRadixSet) {fault : Fault}
    (hkey : Canonical.digestBytes memberDigest = .error fault) :
    tree.delete memberDigest = .error radixTypeError := by
  unfold MerkleRadixSet.delete keyHex digestBytes
  rw [hkey]
  rfl

theorem Tracks.set (h : Tracks tree M) (memberDigest logicalDigest : JsString) :
    Tracks (tree.call (.set memberDigest logicalDigest))
      (overwrite M (.set memberDigest logicalDigest)) := by
  unfold call apply overwrite
  dsimp only
  cases hkey : Canonical.digestBytes memberDigest with
  | error fault =>
    rw [set_of_key_error tree hkey]
    exact h
  | ok key =>
    cases hlogical : Logical.parse logicalDigest with
    | error fault =>
      rw [set_of_logical_error tree hkey hlogical]
      exact h
    | ok logical =>
      rw [set_of_parse tree hkey hlogical]
      refine ⟨h.ok.setLeaf (length_nibbles key) _, AssocMap.nodup_insert h.nodup key logical, ?_⟩
      change AssocMap.get (AssocMap.insert tree.leaves _ _) = _
      rw [leavesOf_insert, get_insert_eq_update, get_insert_eq_update, h.leaves]

theorem Tracks.delete (h : Tracks tree M) (memberDigest : JsString) :
    Tracks (tree.call (.delete memberDigest)) (overwrite M (.delete memberDigest)) := by
  unfold call apply overwrite
  dsimp only
  cases hkey : Canonical.digestBytes memberDigest with
  | error fault =>
    rw [delete_of_error tree hkey]
    exact h
  | ok key =>
    have hnodup : ((AssocMap.erase M key).map Prod.fst).Nodup :=
      h.nodup.sublist (List.filter_sublist.map _)
    rw [delete_of_key tree hkey]
    by_cases hold : (AssocMap.get tree.leaves (nibbles key.bytes)).isSome
    · rw [if_pos hold]
      refine ⟨h.ok.eraseLeaf hold, hnodup, ?_⟩
      change AssocMap.get (AssocMap.erase tree.leaves _) = _
      rw [leavesOf_erase, get_erase_eq_update, get_erase_eq_update, h.leaves]
    · rw [if_neg hold]
      refine ⟨h.ok, hnodup, ?_⟩
      have hnone : AssocMap.get (leavesOf M) (nibbles key.bytes) = none := by
        rw [← h.leaves]
        exact Option.not_isSome_iff_eq_none.mp hold
      rw [leavesOf_erase, get_erase_eq_update, ← hnone, Function.update_eq_self, h.leaves]

theorem Tracks.isSome_iff (h : Tracks tree M) (path : Hex) :
    (AssocMap.get tree.nodes path).isSome ↔ ∃ m ∈ M, path <+: nibbles m.1.bytes := by
  rw [PrefixTree.Holds.isSome_iff h.ok]
  constructor
  · rintro ⟨key, hkey, hbefore⟩
    rw [mem_keys_iff_isSome, h.leaves, ← mem_keys_iff_isSome, leavesOf, List.map_map] at hkey
    obtain ⟨m, hm, rfl⟩ := List.mem_map.mp hkey
    exact ⟨m, hm, hbefore⟩
  · rintro ⟨m, hm, hbefore⟩
    refine ⟨nibbles m.1.bytes, ?_, hbefore⟩
    rw [mem_keys_iff_isSome, h.leaves, ← mem_keys_iff_isSome, leavesOf, List.map_map]
    exact List.mem_map.mpr ⟨m, hm, rfl⟩

theorem run_tracks (ops : List Op) : Tracks (run ops) (finalEntries ops) := by
  have hrun : ∀ (tree : MerkleRadixSet) (M : Contents), Tracks tree M →
      Tracks (ops.foldl call tree) (ops.foldl overwrite M) := by
    induction ops with
    | nil => exact fun tree M h => h
    | cons op ops ih =>
      intro tree M h
      refine ih _ _ ?_
      cases op with
      | set memberDigest logicalDigest => exact h.set memberDigest logicalDigest
      | delete memberDigest => exact h.delete memberDigest
  exact hrun empty [] ⟨empty_ok, List.nodup_nil, rfl⟩

end Run

section Build

variable [Sha256] {M : Contents}

def logicalTexts (members : List (Hex × Logical)) : List (Hex × JsString) :=
  members.map (fun m => (m.1, m.2.text))

omit [Sha256] in
theorem readEntry_of_bucket {logicalByKey result : List (Hex × Logical)} {entry : Entry}
    (h : BucketedMerkleSet.readEntry logicalByKey entry = .ok result) :
    readEntry (logicalTexts logicalByKey) entry = .ok (logicalTexts result) := by
  unfold BucketedMerkleSet.readEntry at h
  obtain ⟨key, hkey, h⟩ := ExceptOk.bind_eq_ok h
  obtain ⟨logical, hlogical, h⟩ := ExceptOk.bind_eq_ok h
  obtain ⟨digest, hdigest, rfl⟩ := ExceptOk.map_eq_ok hkey
  have htext := Logical.text_of_parse hlogical
  have hget : AssocMap.get (logicalTexts logicalByKey) (nibbles digest.bytes) =
      (AssocMap.get logicalByKey (nibbles digest.bytes)).map Logical.text :=
    AssocMap.get_map_values Logical.text logicalByKey (nibbles digest.bytes)
  have hinsert : logicalTexts (AssocMap.insert logicalByKey (nibbles digest.bytes) logical) =
      AssocMap.insert (logicalTexts logicalByKey) (nibbles digest.bytes) entry.logicalDigest := by
    rw [← htext]
    exact map_insert (fun (_ : Hex) (logical : Logical) => logical.text) Function.injective_id _ _ _
  unfold readEntry keyHex digestBytes
  rw [hdigest, digestBytes_of_parse hlogical]
  change (match AssocMap.get (logicalTexts logicalByKey) (nibbles digest.bytes) with
    | some previous => _
    | none => _) = _
  rw [hget]
  cases hprevious : AssocMap.get logicalByKey (nibbles digest.bytes) with
  | none =>
    rw [hprevious] at h
    cases h
    exact congrArg Except.ok hinsert.symm
  | some previous =>
    rw [hprevious] at h
    dsimp only at h
    dsimp only [Option.map_some]
    split at h
    · cases h
    · rename_i hsame
      cases h
      rw [htext] at hsame
      rw [if_neg hsame]
      exact congrArg Except.ok hinsert.symm

omit [Sha256] in
theorem readEntries_of_bucket {logicalByKey result : List (Hex × Logical)} {entries : List Entry}
    (h : entries.foldlM BucketedMerkleSet.readEntry logicalByKey = .ok result) :
    entries.foldlM readEntry (logicalTexts logicalByKey) = .ok (logicalTexts result) := by
  induction entries generalizing logicalByKey with
  | nil =>
    cases h
    rfl
  | cons entry entries ih =>
    rw [List.foldlM_cons] at h ⊢
    obtain ⟨next, hnext, h⟩ := ExceptOk.bind_eq_ok h
    rw [readEntry_of_bucket hnext]
    exact ih h

def addMember (tree : MerkleRadixSet) (m : Hex × Logical) : MerkleRadixSet :=
  { tree with
    leaves := AssocMap.insert tree.leaves m.1 (leafDigest (hexBytes m.1) m.2.bytes)
    prefixCounts := bump 64 tree.prefixCounts m.1 }

theorem addLeaves_eq (members : List (Hex × Logical)) (tree : MerkleRadixSet) :
    (logicalTexts members).foldlM addLeaf tree = .ok (members.foldl addMember tree) := by
  induction members generalizing tree with
  | nil => rfl
  | cons m members ih =>
    have hleaf : addLeaf tree (m.1, m.2.text) = .ok (addMember tree m) := by
      unfold addLeaf digestBytes
      rw [m.2.parsed]
      rfl
    change ((logicalTexts (m :: members)).foldlM addLeaf tree) = _
    rw [logicalTexts, List.map_cons, List.foldlM_cons, hleaf]
    exact ih (addMember tree m)

structure Collected (tree : MerkleRadixSet) (members : List (Hex × Logical)) : Prop where
  leaves : tree.leaves = members.map (fun m => (m.1, leafDigest (hexBytes m.1) m.2.bytes))
  counts : Counts tree.prefixCounts (members.map Prod.fst)

theorem addMembers_collected {members seen : List (Hex × Logical)} {tree : MerkleRadixSet}
    (h : Collected tree seen) (hnodup : ((members.reverse ++ seen).map Prod.fst).Nodup)
    (hlengths : ∀ m ∈ members, m.1.length = 64) :
    Collected (members.foldl addMember tree) (members.reverse ++ seen) := by
  induction members generalizing tree seen with
  | nil => exact h
  | cons m members ih =>
    rw [List.reverse_cons, List.append_assoc, List.singleton_append] at hnodup ⊢
    refine ih ⟨?_, ?_⟩ hnodup (fun m' hm' => hlengths m' (List.mem_cons_of_mem _ hm'))
    · have hnew : m.1 ∉ tree.leaves.map Prod.fst := by
        rw [List.map_append, List.map_cons] at hnodup
        rw [h.leaves, List.map_map]
        exact (List.nodup_cons.mp (List.nodup_append.mp hnodup).2.1).1
      change AssocMap.insert tree.leaves m.1 _ = _
      rw [AssocMap.insert_of_notMem hnew, h.leaves, List.map_cons]
    · exact h.counts.bump (hlengths m (List.mem_cons_self ..))

omit [Sha256] in
theorem mem_parentPrefixes (keys : List Hex) (path : Hex) :
    path ∈ parentPrefixes keys ↔ path.length < 64 ∧ ∃ key ∈ keys, path <+: key := by
  unfold parentPrefixes
  rw [mem_sortOn, List.mem_dedup, List.mem_flatMap]
  constructor
  · rintro ⟨key, hkey, hpath⟩
    obtain ⟨depth, hdepth, rfl⟩ := List.mem_map.mp hpath
    rw [List.mem_range] at hdepth
    refine ⟨?_, key, hkey, List.take_prefix depth key⟩
    rw [List.length_take]
    omega
  · rintro ⟨hlt, key, hkey, hbefore⟩
    exact ⟨key, hkey, List.mem_map.mpr ⟨path.length, List.mem_range.mpr hlt,
      (List.prefix_iff_eq_take.mp hbefore).symm⟩⟩

omit [Sha256] in
theorem parentPrefixes_sorted (keys : List Hex) :
    (parentPrefixes keys).Pairwise (fun a b => b.length ≤ a.length) := by
  refine (sortOn_pairwise _ _).imp_of_mem ?_
  intro a b ha hb hle
  have halt := ((mem_parentPrefixes keys a).mp ha).1
  have hblt := ((mem_parentPrefixes keys b).mp hb).1
  have hfirst : 64 - a.length ≤ 64 - b.length := Prod.Lex.monotone_fst _ _ hle
  omega

theorem get_buildNodes {leaves : List (Hex × Digest32)}
    (hkeys : KeysOf 64 (AssocMap.get leaves) (leaves.map Prod.fst)) (path : Hex) :
    AssocMap.get (buildNodes leaves) path = expected nodeDigest 64 (AssocMap.get leaves) path := by
  have hmem := mem_parentPrefixes (leaves.map Prod.fst)
  have hnodup : (parentPrefixes (leaves.map Prod.fst)).Nodup :=
    (sortOn_perm _ _).nodup_iff.mpr (List.nodup_dedup _)
  refine built_foldl (fun nodes path =>
    some (nodeDigest path (fun digit => AssocMap.get nodes (path ++ [digit])))) ?_ ⟨?_, ?_⟩
    (parentPrefixes_sorted _) hnodup path
  · intro nodes path hpath hchildren
    obtain ⟨hlt, hkey⟩ := (hmem path).mp hpath
    classical
    rw [expected_parent hkeys.leaf_length hlt, if_pos ((hkeys.exists_iff path).mpr hkey)]
    exact congrArg (fun child => some (nodeDigest path child)) (funext hchildren)
  · intro path hpath
    have hget : AssocMap.get (AssocMap.insertAll [] leaves) path = AssocMap.get leaves path := by
      cases hleaf : AssocMap.get leaves path with
      | none =>
        rw [AssocMap.get_insertAll_of_notMem [] leaves ((AssocMap.get_eq_none_iff _ _).mp hleaf)]
        rfl
      | some digest => exact AssocMap.get_insertAll_of_mem hkeys.nodup _ (AssocMap.mem_of_get hleaf)
    rw [hget]
    by_cases hlength : path.length = 64
    · exact (expected_leaf hlength).symm
    · have hnone : AssocMap.get leaves path = none := by
        rw [← Option.not_isSome_iff_eq_none]
        exact fun hsome => hlength (hkeys.leaf_length path hsome)
      have hexpected : expected nodeDigest 64 (AssocMap.get leaves) path = none := by
        rw [← Option.not_isSome_iff_eq_none, expected_isSome hkeys.leaf_length, hkeys.exists_iff]
        rintro ⟨key, hkey, hbefore⟩
        have hle := hkeys.lengths key hkey ▸ hbefore.length_le
        exact hpath ((hmem path).mpr ⟨by omega, key, hkey, hbefore⟩)
      rw [hnone, hexpected]
  · exact fun path hpath => ((hmem path).mp hpath).1

theorem from_tracks {entries : List Entry} (h : Lists entries M) (hnodup : (M.map Prod.fst).Nodup) :
    ∃ built, «from» entries = .ok built ∧ Tracks built M := by
  obtain ⟨members, hread, hperm⟩ := h.read hnodup
  have hkeysNodup : (members.map Prod.fst).Nodup :=
    (hperm.map Prod.fst).nodup_iff.mpr (nodup_hexMembers hnodup)
  have hlengths : ∀ m ∈ members, m.1.length = 64 := by
    intro m hm
    obtain ⟨d, -, rfl⟩ := List.mem_map.mp (hperm.mem_iff.mp hm)
    exact length_nibbles d.1
  have hreverse : ((members.reverse ++ []).map Prod.fst).Nodup := by
    rw [List.append_nil, List.map_reverse, List.nodup_reverse]
    exact hkeysNodup
  have hempty : Collected empty [] := ⟨rfl, fun path => rfl⟩
  have hcollected := addMembers_collected hempty hreverse hlengths
  rw [List.append_nil] at hcollected hreverse
  generalize htree : members.foldl addMember empty = tree at hcollected
  have hkeyList : tree.leaves.map Prod.fst = members.reverse.map Prod.fst := by
    rw [hcollected.leaves, List.map_map]
    rfl
  have hkeysOf : KeysOf 64 (AssocMap.get tree.leaves) (tree.leaves.map Prod.fst) := by
    refine ⟨hkeyList ▸ hreverse, mem_keys_iff_isSome tree.leaves, fun key hkey => ?_⟩
    rw [hkeyList] at hkey
    obtain ⟨m, hm, rfl⟩ := List.mem_map.mp hkey
    exact hlengths m (List.mem_reverse.mp hm)
  have hleaves : tree.leaves.Perm (leavesOf M) := by
    rw [hcollected.leaves, leavesOf]
    refine (((List.reverse_perm members).trans hperm).map _).trans (List.Perm.of_eq ?_)
    rw [List.map_map]
    refine List.map_congr_left (fun m _ => ?_)
    exact congrArg (fun bytes => (nibbles m.1.bytes, leafDigest bytes m.2.bytes))
      (hexBytes_nibbles m.1.bytes)
  refine ⟨{ tree with nodes := buildNodes tree.leaves }, ?_, ⟨hkeysOf, ?_, get_buildNodes hkeysOf⟩,
    hnodup,
    get_perm hkeysOf.nodup hleaves⟩
  · unfold «from»
    rw [show entries.foldlM readEntry [] =
      .ok (logicalTexts members) from readEntries_of_bucket hread]
    change (logicalTexts members).foldlM addLeaf empty >>= _ = _
    rw [addLeaves_eq, htree]
    rfl
  · rw [hkeyList]
    exact hcollected.counts

end Build

end MerkleRadixSet

end Canonical
