import Urdira.Lib.AssocMap

namespace PrefixTree

open AssocMap

variable {D V : Type}

section Maps

variable {K : Type} [DecidableEq K]

theorem get_insert_eq_update (m : List (K × V)) (k : K) (v : V) :
    get (insert m k v) = Function.update (get m) k (some v) := by
  funext k'
  by_cases h : k' = k
  · rw [h, get_insert_self, Function.update_self]
  · rw [get_insert_ne m v h, Function.update_of_ne h]

theorem get_erase_eq_update (m : List (K × V)) (k : K) :
    get (erase m k) = Function.update (get m) k none := by
  funext k'
  by_cases h : k' = k
  · rw [h, get_erase_self, Function.update_self]
  · rw [get_erase_ne m h, Function.update_of_ne h]

theorem keys_erase_perm {m : List (K × V)} (hnodup : (m.map Prod.fst).Nodup) {k : K}
    (hk : k ∈ m.map Prod.fst) : (m.map Prod.fst).Perm (k :: (erase m k).map Prod.fst) := by
  refine (List.perm_ext_iff_of_nodup hnodup ?_).mpr (fun k' => ?_)
  · refine List.nodup_cons.mpr ⟨fun hmem => ?_, hnodup.sublist (List.filter_sublist.map _)⟩
    exact ((mem_keys_erase m k k).mp hmem).2 rfl
  · rw [List.mem_cons, mem_keys_erase]
    by_cases h : k' = k
    · rw [h]
      exact iff_of_true hk (Or.inl rfl)
    · rw [or_iff_right h, and_iff_left h]

theorem keys_insert_perm {m : List (K × V)} (hnodup : (m.map Prod.fst).Nodup) {k : K} (v : V)
    (hk : k ∈ m.map Prod.fst) : (m.map Prod.fst).Perm ((insert m k v).map Prod.fst) :=
  keys_erase_perm hnodup hk

theorem mem_keys_iff_isSome (m : List (K × V)) (k : K) : k ∈ m.map Prod.fst ↔ (get m k).isSome := by
  rw [← not_iff_not, ← get_eq_none_iff, Option.not_isSome_iff_eq_none]

theorem insertAll_eq_reverse {m entries : List (K × V)}
    (hnodup : ((entries.reverse ++ m).map Prod.fst).Nodup) :
    insertAll m entries = entries.reverse ++ m := by
  induction entries generalizing m with
  | nil => rfl
  | cons e entries ih =>
    rw [List.reverse_cons, List.append_assoc, List.singleton_append] at hnodup ⊢
    have hnew : e.1 ∉ m.map Prod.fst := by
      rw [List.map_append, List.map_cons] at hnodup
      exact (List.nodup_cons.mp (List.nodup_append.mp hnodup).2.1).1
    change insertAll (insert m e.1 e.2) entries = _
    rw [insert_of_notMem hnew]
    exact ih hnodup

theorem get_perm {m m' : List (K × V)} (hnodup : (m.map Prod.fst).Nodup) (hperm : m.Perm m') :
    get m = get m' := by
  funext k
  cases hget : get m k with
  | none =>
    rw [get_eq_none_iff, (hperm.map Prod.fst).mem_iff] at hget
    exact ((get_eq_none_iff m' k).mpr hget).symm
  | some v =>
    have hnodup' := (hperm.map Prod.fst).nodup_iff.mp hnodup
    exact (get_of_mem hnodup' (hperm.mem_iff.mp (mem_of_get hget))).symm

section Renamed

variable {K' W : Type} [DecidableEq K'] {f : K → K'} (g : K → V → W)

theorem map_erase (hf : Function.Injective f) (m : List (K × V)) (k : K) :
    (erase m k).map (fun e => (f e.1, g e.1 e.2)) =
      erase (m.map (fun e => (f e.1, g e.1 e.2))) (f k) := by
  unfold erase
  rw [List.filter_map]
  refine congrArg (List.map _) (List.filter_congr (fun e _ => ?_))
  exact decide_eq_decide.mpr (not_congr hf.eq_iff.symm)

theorem map_insert (hf : Function.Injective f) (m : List (K × V)) (k : K) (v : V) :
    (insert m k v).map (fun e => (f e.1, g e.1 e.2)) =
      insert (m.map (fun e => (f e.1, g e.1 e.2))) (f k) (g k v) :=
  congrArg (List.cons _) (map_erase g hf m k)

theorem get_map (hf : Function.Injective f) (m : List (K × V)) (k : K) :
    get (m.map (fun e => (f e.1, g e.1 e.2))) (f k) = (get m k).map (g k) := by
  unfold AssocMap.get
  induction m with
  | nil => rfl
  | cons e m ih =>
    rw [List.map_cons, List.lookup_cons, List.lookup_cons, ih]
    by_cases heq : k = e.1
    · rw [heq, beq_self_eq_true, beq_self_eq_true]
      rfl
    · rw [beq_false_of_ne heq, beq_false_of_ne (fun hsame => heq (hf hsame))]

end Renamed

end Maps

section Expected

variable (combine : List D → (D → Option V) → V) (depth : ℕ) (leaf : List D → Option V)

open Classical in
noncomputable def node : ℕ → List D → Option V
  | 0, path => leaf path
  | n + 1, path =>
    if ∃ d, (node n (path ++ [d])).isSome then some (combine path (fun d => node n (path ++ [d])))
    else none

noncomputable def expected (path : List D) : Option V :=
  if path.length ≤ depth then node combine leaf (depth - path.length) path else none

variable {combine depth leaf}

theorem node_isSome {n : ℕ} {path : List D} :
    (node combine leaf n path).isSome ↔ ∃ tail, tail.length = n ∧ (leaf (path ++ tail)).isSome := by
  induction n generalizing path with
  | zero =>
    rw [node]
    constructor
    · intro h
      refine ⟨[], rfl, ?_⟩
      rw [List.append_nil]
      exact h
    · rintro ⟨tail, hlength, h⟩
      rw [List.length_eq_zero_iff.mp hlength, List.append_nil] at h
      exact h
  | succ n ih =>
    have hsome : (node combine leaf (n + 1) path).isSome ↔
        ∃ d, (node combine leaf n (path ++ [d])).isSome := by
      rw [node]
      split
      · rename_i h
        exact iff_of_true rfl h
      · rename_i h
        exact iff_of_false Bool.false_ne_true h
    rw [hsome]
    constructor
    · rintro ⟨d, h⟩
      obtain ⟨tail, hlength, h⟩ := ih.mp h
      refine ⟨d :: tail, congrArg Nat.succ hlength, ?_⟩
      rw [List.append_assoc] at h
      exact h
    · rintro ⟨tail, hlength, h⟩
      obtain ⟨d, tail, rfl⟩ := List.exists_cons_of_length_eq_add_one hlength
      refine ⟨d, ih.mpr ⟨tail, Nat.succ.inj hlength, ?_⟩⟩
      rw [List.append_assoc]
      exact h

theorem expected_isSome (hleaf : ∀ key, (leaf key).isSome → key.length = depth) {path : List D} :
    (expected combine depth leaf path).isSome ↔ ∃ key, (leaf key).isSome ∧ path <+: key := by
  unfold expected
  split
  · rename_i hle
    rw [node_isSome]
    constructor
    · rintro ⟨tail, -, h⟩
      exact ⟨path ++ tail, h, List.prefix_append path tail⟩
    · rintro ⟨key, h, tail, rfl⟩
      have hlength := hleaf _ h
      rw [List.length_append] at hlength
      exact ⟨tail, by omega, h⟩
  · rename_i hgt
    refine iff_of_false Bool.false_ne_true ?_
    rintro ⟨key, h, hbefore⟩
    exact hgt (hleaf key h ▸ hbefore.length_le)

theorem expected_leaf {key : List D} (hkey : key.length = depth) :
    expected combine depth leaf key = leaf key := by
  rw [expected, if_pos hkey.le, hkey, Nat.sub_self, node]

open Classical in
theorem expected_parent (hleaf : ∀ key, (leaf key).isSome → key.length = depth) {path : List D}
    (hlt : path.length < depth) :
    expected combine depth leaf path = if ∃ key, (leaf key).isSome ∧ path <+: key then
      some (combine path (fun d => expected combine depth leaf (path ++ [d]))) else none := by
  obtain ⟨n, hn⟩ : ∃ n, depth - path.length = n + 1 := ⟨depth - path.length - 1, by omega⟩
  have hchild : ∀ d, expected combine depth leaf (path ++ [d]) =
      node combine leaf n (path ++ [d]) := by
    intro d
    have hlength : (path ++ [d]).length = path.length + 1 := List.length_append
    have hrest : depth - (path ++ [d]).length = n := by omega
    rw [expected, if_pos (by omega), hrest]
  have hexpected : expected combine depth leaf path = node combine leaf (n + 1) path := by
    rw [expected, if_pos hlt.le, hn]
  have hsome : (expected combine depth leaf path).isSome ↔ _ := expected_isSome hleaf
  rw [hexpected] at hsome ⊢
  rw [← hsome]
  simp only [hchild]
  rw [node]
  split
  · exact (if_pos rfl).symm
  · exact (if_neg Bool.false_ne_true).symm

theorem node_update [DecidableEq D] {n : ℕ} {path key : List D} (value : Option V)
    (h : ¬ path <+: key) :
    node combine (Function.update leaf key value) n path = node combine leaf n path := by
  induction n generalizing path with
  | zero =>
    rw [node, node, Function.update_of_ne]
    rintro rfl
    exact h (List.prefix_refl _)
  | succ n ih =>
    have hchild : ∀ d, node combine (Function.update leaf key value) n (path ++ [d]) =
        node combine leaf n (path ++ [d]) :=
      fun d => ih (fun hbefore => h ((List.prefix_append path [d]).trans hbefore))
    rw [node, node]
    classical
    refine if_congr (exists_congr (fun d => by rw [hchild d])) ?_ rfl
    exact congrArg (fun child => some (combine path child)) (funext hchild)

theorem expected_update [DecidableEq D] {path key : List D} (value : Option V)
    (h : ¬ path <+: key) :
    expected combine depth (Function.update leaf key value) path =
      expected combine depth leaf path := by
  rw [expected, expected, node_update value h]

end Expected

section Climb

variable [DecidableEq D]

def put (m : List (List D × V)) (path : List D) : Option V → List (List D × V)
  | some v => insert m path v
  | none => erase m path

theorem get_put (m : List (List D × V)) (path path' : List D) (value : Option V) :
    get (put m path value) path' = if path' = path then value else get m path' := by
  by_cases h : path' = path
  · rw [if_pos h, h]
    cases value with
    | none => exact get_erase_self m path
    | some v => exact get_insert_self m path v
  · rw [if_neg h]
    cases value with
    | none => exact get_erase_ne m h
    | some v => exact get_insert_ne m v h

def climb (value : List (List D × V) → List D → Option V) (key : List D) :
    ℕ → List (List D × V) → List (List D × V)
  | 0, nodes => nodes
  | depth + 1, nodes =>
      climb value key depth (put nodes (key.take depth) (value nodes (key.take depth)))

variable {combine : List D → (D → Option V) → V} {depth : ℕ} {leaf : List D → Option V}
  {nodes : List (List D × V)} {key : List D} {value : List (List D × V) → List D → Option V}

def ValueOk (combine : List D → (D → Option V) → V) (depth : ℕ) (leaf : List D → Option V)
    (value : List (List D × V) → List D → Option V) : Prop :=
  ∀ nodes path, path.length < depth →
    (∀ d, get nodes (path ++ [d]) = expected combine depth leaf (path ++ [d])) →
    value nodes path = expected combine depth leaf path

theorem climb_spec (hvalue : ValueOk combine depth leaf value) (hkey : key.length = depth) {m : ℕ}
    (hm : m ≤ depth)
    (hnodes : ∀ path, ¬ (path <+: key ∧ path.length < m) →
      get nodes path = expected combine depth leaf path) :
    ∀ path, get (climb value key m nodes) path = expected combine depth leaf path := by
  induction m generalizing nodes with
  | zero => exact fun path => hnodes path (fun h => Nat.not_lt_zero _ h.2)
  | succ m ih =>
    refine ih (Nat.le_of_succ_le hm) (fun path hpath => ?_)
    have htake : (key.take m).length = m := by
      rw [List.length_take]
      omega
    rw [get_put]
    split
    · rename_i heq
      rw [heq]
      refine hvalue nodes (key.take m) (by omega) (fun d => hnodes _ (fun h => ?_))
      have hlength : (key.take m ++ [d]).length = m + 1 := by
        rw [List.length_append, htake]
        rfl
      omega
    · rename_i hne
      refine hnodes path (fun h => hpath ⟨h.1, ?_⟩)
      refine lt_of_le_of_ne (Nat.le_of_lt_succ h.2) (fun hlength => hne ?_)
      rw [List.prefix_iff_eq_take.mp h.1, hlength]

theorem climb_update {v : Option V}
    (hvalue : ValueOk combine depth (Function.update leaf key v) value)
    (hkey : key.length = depth) (hnodes : ∀ path,
      get nodes path = expected combine depth leaf path) :
    ∀ path, get (climb value key depth (put nodes key v)) path =
      expected combine depth (Function.update leaf key v) path := by
  refine climb_spec hvalue hkey le_rfl (fun path hpath => ?_)
  rw [get_put]
  split
  · rename_i heq
    rw [heq, expected_leaf hkey, Function.update_self]
  · rename_i hne
    rw [hnodes path, expected_update v]
    intro hbefore
    refine hpath ⟨hbefore, lt_of_le_of_ne (hkey ▸ hbefore.length_le) (fun hlength => hne ?_)⟩
    exact hbefore.eq_of_length (hlength.trans hkey.symm)

end Climb

section Counts

variable [DecidableEq D]

def touch (f : Option ℕ → Option ℕ) (m : List (List D × ℕ)) (paths : List (List D)) :
    List (List D × ℕ) :=
  paths.foldl (fun m path => put m path (f (get m path))) m

theorem get_touch (f : Option ℕ → Option ℕ) (m : List (List D × ℕ)) {paths : List (List D)}
    (hpaths : paths.Nodup) (path : List D) :
    get (touch f m paths) path = if path ∈ paths then f (get m path) else get m path := by
  induction paths generalizing m with
  | nil => rw [if_neg List.not_mem_nil, touch, List.foldl_nil]
  | cons first paths ih =>
    obtain ⟨hfirst, hpaths⟩ := List.nodup_cons.mp hpaths
    change get (touch f (put m first (f (get m first))) paths) path = _
    rw [ih _ hpaths, get_put]
    by_cases heq : path = first
    · rw [if_pos heq, heq, if_neg hfirst, if_pos (List.mem_cons_self ..)]
    · rw [if_neg heq]
      exact if_congr (by rw [List.mem_cons, or_iff_right heq]) rfl rfl

def prefixes (depth : ℕ) (key : List D) : List (List D) := (List.range (depth + 1)).map key.take

variable {depth : ℕ} {key path : List D} {counts : List (List D × ℕ)} {keys : List (List D)}

omit [DecidableEq D] in
theorem nodup_prefixes (hkey : key.length = depth) : (prefixes depth key).Nodup := by
  refine List.Nodup.map_on (fun i hi j hj heq => ?_) List.nodup_range
  have hlength := congrArg List.length heq
  rw [List.length_take, List.length_take] at hlength
  rw [List.mem_range] at hi hj
  omega

omit [DecidableEq D] in
theorem mem_prefixes (hkey : key.length = depth) : path ∈ prefixes depth key ↔ path <+: key := by
  unfold prefixes
  rw [List.mem_map]
  constructor
  · rintro ⟨i, -, rfl⟩
    exact List.take_prefix i key
  · intro h
    refine ⟨path.length, List.mem_range.mpr ?_, (List.prefix_iff_eq_take.mp h).symm⟩
    have hle := h.length_le
    omega

def Counts (counts : List (List D × ℕ)) (keys : List (List D)) : Prop :=
  ∀ path, (get counts path).getD 0 = keys.countP (fun key => path.isPrefixOf key)

def bump (depth : ℕ) (counts : List (List D × ℕ)) (key : List D) : List (List D × ℕ) :=
  touch (fun count => some (count.getD 0 + 1)) counts (prefixes depth key)

def drop (depth : ℕ) (counts : List (List D × ℕ)) (key : List D) : List (List D × ℕ) :=
  touch (fun count => if count.getD 1 - 1 = 0 then none else some (count.getD 1 - 1)) counts
    (prefixes depth key)

theorem Counts.bump (h : Counts counts keys) (hkey : key.length = depth) :
    Counts (bump depth counts key) (key :: keys) := by
  intro path
  rw [PrefixTree.bump, get_touch _ _ (nodup_prefixes hkey), List.countP_cons, ← h path]
  by_cases hbefore : path <+: key
  · rw [if_pos ((mem_prefixes hkey).mpr hbefore), if_pos (List.isPrefixOf_iff_prefix.mpr hbefore)]
    rfl
  · rw [if_neg (fun hmem => hbefore ((mem_prefixes hkey).mp hmem)),
      if_neg (fun hmem => hbefore (List.isPrefixOf_iff_prefix.mp hmem))]
    rfl

theorem Counts.drop (h : Counts counts (key :: keys)) (hkey : key.length = depth) :
    Counts (drop depth counts key) keys := by
  intro path
  have hcount := h path
  rw [List.countP_cons] at hcount
  rw [PrefixTree.drop, get_touch _ _ (nodup_prefixes hkey)]
  by_cases hbefore : path <+: key
  · rw [if_pos (List.isPrefixOf_iff_prefix.mpr hbefore)] at hcount
    rw [if_pos ((mem_prefixes hkey).mpr hbefore)]
    cases hget : get counts path with
    | none =>
      rw [hget, Option.getD_none] at hcount
      omega
    | some count =>
      rw [hget, Option.getD_some] at hcount
      rw [Option.getD_some]
      split
      · rw [Option.getD_none]
        omega
      · rw [Option.getD_some]
        omega
  · rw [if_neg (fun hmem => hbefore (List.isPrefixOf_iff_prefix.mp hmem))] at hcount
    rw [if_neg (fun hmem => hbefore ((mem_prefixes hkey).mp hmem))]
    exact hcount

theorem Counts.perm {keys' : List (List D)} (h : Counts counts keys) (hperm : keys.Perm keys') :
    Counts counts keys' :=
  fun path => (h path).trans (hperm.countP_eq _)

theorem Counts.eq_zero (h : Counts counts keys) (path : List D) :
    (get counts path).getD 0 = 0 ↔ ¬ ∃ key ∈ keys, path <+: key := by
  rw [h path, List.countP_eq_zero]
  simp only [List.isPrefixOf_iff_prefix, not_exists, not_and]

end Counts

section Holds

variable [DecidableEq D] {combine : List D → (D → Option V) → V} {depth : ℕ}
  {leaf : List D → Option V}
  {keys keys' : List (List D)} {counts counts' : List (List D × ℕ)} {nodes : List (List D × V)}
  {key : List D}
  {value : List (List D × ℕ) → List (List D × V) → List D → Option V}

structure KeysOf (depth : ℕ) (leaf : List D → Option V) (keys : List (List D)) : Prop where
  nodup : keys.Nodup
  mem_iff : ∀ key, key ∈ keys ↔ (leaf key).isSome
  lengths : ∀ key ∈ keys, key.length = depth

structure Holds (combine : List D → (D → Option V) → V) (depth : ℕ) (leaf : List D → Option V)
    (keys : List (List D)) (counts : List (List D × ℕ)) (nodes : List (List D × V)) : Prop where
  keysOf : KeysOf depth leaf keys
  countsOf : Counts counts keys
  nodesOf : ∀ path, get nodes path = expected combine depth leaf path

omit [DecidableEq D] in
theorem KeysOf.leaf_length (h : KeysOf depth leaf keys) (key : List D) (hkey : (leaf key).isSome) :
    key.length = depth :=
  h.lengths key ((h.mem_iff key).mpr hkey)

omit [DecidableEq D] in
theorem KeysOf.exists_iff (h : KeysOf depth leaf keys) (path : List D) :
    (∃ key, (leaf key).isSome ∧ path <+: key) ↔ ∃ key ∈ keys, path <+: key :=
  exists_congr (fun key => and_congr_left' (h.mem_iff key).symm)

theorem Holds.isSome_iff (h : Holds combine depth leaf keys counts nodes) (path : List D) :
    (get nodes path).isSome ↔ ∃ key ∈ keys, path <+: key := by
  rw [h.nodesOf path, expected_isSome h.keysOf.leaf_length, h.keysOf.exists_iff]

theorem Holds.congr {counts'' : List (List D × ℕ)} {nodes'' : List (List D × V)}
    (h : Holds combine depth leaf keys counts nodes)
    (h' : Holds combine depth leaf keys' counts'' nodes'')
    (path : List D) : get nodes path = get nodes'' path :=
  (h.nodesOf path).trans (h'.nodesOf path).symm

theorem valueOk_counted {make : List (List D × V) → List D → V} (hkeys : KeysOf depth leaf keys)
    (hcounts : Counts counts keys)
    (hmake : ∀ nodes path, path.length < depth →
      (∀ d, get nodes (path ++ [d]) = expected combine depth leaf (path ++ [d])) →
      make nodes path = combine path (fun d => expected combine depth leaf (path ++ [d]))) :
    ValueOk combine depth leaf
      (fun nodes path => if (get counts path).getD 0 = 0 then none
        else some (make nodes path)) := by
  intro nodes path hlt hchildren
  classical
  dsimp only
  rw [expected_parent hkeys.leaf_length hlt, hmake nodes path hlt hchildren]
  by_cases hkey : ∃ key ∈ keys, path <+: key
  · rw [if_neg (fun hzero => (hcounts.eq_zero path).mp hzero hkey),
      if_pos ((hkeys.exists_iff path).mpr hkey)]
  · rw [if_pos ((hcounts.eq_zero path).mpr hkey),
      if_neg (fun h => hkey ((hkeys.exists_iff path).mp h))]

def Counted (combine : List D → (D → Option V) → V) (depth : ℕ)
    (value : List (List D × ℕ) → List (List D × V) → List D → Option V) : Prop :=
  ∀ leaf keys counts, KeysOf depth leaf keys → Counts counts keys →
    ValueOk combine depth leaf (value counts)

theorem KeysOf.insert {v : V} (h : KeysOf depth leaf keys) (hkey : key.length = depth)
    (hnew : key ∉ keys) :
    KeysOf depth (Function.update leaf key (some v)) (key :: keys) where
  nodup := List.nodup_cons.mpr ⟨hnew, h.nodup⟩
  mem_iff := by
    intro other
    rw [List.mem_cons, h.mem_iff]
    by_cases heq : other = key
    · rw [heq, Function.update_self]
      exact iff_of_true (Or.inl rfl) rfl
    · rw [Function.update_of_ne heq, or_iff_right heq]
  lengths := by
    intro other hother
    rcases List.mem_cons.mp hother with rfl | hother
    · exact hkey
    · exact h.lengths other hother

theorem KeysOf.overwrite {v : V} (h : KeysOf depth leaf keys) (hold : key ∈ keys) :
    KeysOf depth (Function.update leaf key (some v)) keys where
  nodup := h.nodup
  mem_iff := by
    intro other
    by_cases heq : other = key
    · rw [heq, Function.update_self]
      exact iff_of_true hold rfl
    · rw [Function.update_of_ne heq, h.mem_iff]
  lengths := h.lengths

theorem KeysOf.erase (h : KeysOf depth leaf (key :: keys)) :
    KeysOf depth (Function.update leaf key none) keys where
  nodup := (List.nodup_cons.mp h.nodup).2
  mem_iff := by
    intro other
    by_cases heq : other = key
    · rw [heq, Function.update_self]
      exact iff_of_false (List.nodup_cons.mp h.nodup).1 Bool.false_ne_true
    · rw [Function.update_of_ne heq, ← h.mem_iff, List.mem_cons, or_iff_right heq]
  lengths := fun other hother => h.lengths other (List.mem_cons_of_mem _ hother)

omit [DecidableEq D] in
theorem KeysOf.perm (h : KeysOf depth leaf keys) (hperm : keys.Perm keys') :
    KeysOf depth leaf keys' where
  nodup := hperm.nodup_iff.mp h.nodup
  mem_iff := fun key => hperm.mem_iff.symm.trans (h.mem_iff key)
  lengths := fun key hkey => h.lengths key (hperm.mem_iff.mpr hkey)

theorem Holds.update {v : Option V} (h : Holds combine depth leaf keys counts nodes)
    (hvalue : Counted combine depth value) (hkey : key.length = depth)
    (hkeys : KeysOf depth (Function.update leaf key v) keys') (hcounts : Counts counts' keys') :
    Holds combine depth (Function.update leaf key v) keys' counts'
      (climb (value counts') key depth (put nodes key v)) :=
  ⟨hkeys, hcounts, climb_update (hvalue _ _ _ hkeys hcounts) hkey h.nodesOf⟩

theorem Holds.insert {v : V} (h : Holds combine depth leaf keys counts nodes)
    (hvalue : Counted combine depth value) (hkey : key.length = depth) (hnew : key ∉ keys) :
    Holds combine depth (Function.update leaf key (some v)) (key :: keys) (bump depth counts key)
      (climb (value (bump depth counts key)) key depth (put nodes key (some v))) :=
  h.update hvalue hkey (h.keysOf.insert hkey hnew) (h.countsOf.bump hkey)

theorem Holds.overwrite {v : V} (h : Holds combine depth leaf keys counts nodes)
    (hvalue : Counted combine depth value) (hold : key ∈ keys) :
    Holds combine depth (Function.update leaf key (some v)) keys counts
      (climb (value counts) key depth (put nodes key (some v))) :=
  h.update hvalue (h.keysOf.lengths key hold) (h.keysOf.overwrite hold) h.countsOf

theorem Holds.erase (h : Holds combine depth leaf keys counts nodes)
    (hvalue : Counted combine depth value)
    (hkeys : keys.Perm (key :: keys')) :
    Holds combine depth (Function.update leaf key none) keys' (drop depth counts key)
      (climb (value (drop depth counts key)) key depth (put nodes key none)) := by
  have hkeysOf := h.keysOf.perm hkeys
  have hkey := hkeysOf.lengths key (List.mem_cons_self ..)
  exact h.update hvalue hkey hkeysOf.erase ((h.countsOf.perm hkeys).drop hkey)

theorem Holds.perm (h : Holds combine depth leaf keys counts nodes) (hperm : keys.Perm keys') :
    Holds combine depth leaf keys' counts nodes :=
  ⟨h.keysOf.perm hperm, h.countsOf.perm hperm, h.nodesOf⟩

section Leaves

variable {leaves leaves' : List (List D × V)} {nodes' : List (List D × V)}

theorem holds_nil (combine : List D → (D → Option V) → V) (depth : ℕ) :
    Holds combine depth (get ([] : List (List D × V))) [] [] [] := by
  have hkeys : KeysOf depth (get ([] : List (List D × V))) [] :=
    ⟨List.nodup_nil, fun key => iff_of_false List.not_mem_nil Bool.false_ne_true,
      fun key hkey => absurd hkey List.not_mem_nil⟩
  refine ⟨hkeys, fun path => rfl, fun path => ?_⟩
  cases hpath : expected combine depth (get ([] : List (List D × V))) path with
  | none => rfl
  | some value =>
    obtain ⟨key, hkey, -⟩ := (expected_isSome hkeys.leaf_length).mp (Option.isSome_of_eq_some hpath)
    cases hkey

theorem Holds.setLeaf (h : Holds combine depth (get leaves) (leaves.map Prod.fst) counts nodes)
    (hvalue : Counted combine depth value) (hkey : key.length = depth) (v : V)
    (hcounts : counts' = if (get leaves key).isSome then counts else bump depth counts key) :
    Holds combine depth (get (AssocMap.insert leaves key v))
      ((AssocMap.insert leaves key v).map Prod.fst)
      counts' (climb (value counts') key depth (put nodes key (some v))) := by
  rw [hcounts, get_insert_eq_update]
  by_cases hold : key ∈ leaves.map Prod.fst
  · rw [if_pos ((mem_keys_iff_isSome _ _).mp hold)]
    exact (h.overwrite hvalue hold).perm (keys_insert_perm h.keysOf.nodup v hold)
  · rw [if_neg (fun hsome => hold ((mem_keys_iff_isSome _ _).mpr hsome)),
      AssocMap.insert_of_notMem hold]
    exact h.insert hvalue hkey hold

theorem Holds.eraseLeaf (h : Holds combine depth (get leaves) (leaves.map Prod.fst) counts nodes)
    (hvalue : Counted combine depth value) (hold : (get leaves key).isSome) :
    Holds combine depth (get (AssocMap.erase leaves key)) ((AssocMap.erase leaves key).map Prod.fst)
      (drop depth counts key) (climb (value (drop depth counts key)) key depth
        (put nodes key none)) := by
  rw [get_erase_eq_update]
  exact h.erase hvalue (keys_erase_perm h.keysOf.nodup ((mem_keys_iff_isSome _ _).mpr hold))

def rootOf (zero : V) (leaves nodes : List (List D × V)) : V :=
  if leaves.length = 0 then zero else (get nodes []).getD zero

theorem Holds.rootOf_congr (zero : V)
    (h : Holds combine depth (get leaves) (leaves.map Prod.fst) counts nodes)
    (h' : Holds combine depth (get leaves') (leaves'.map Prod.fst) counts' nodes')
    (hleaves : get leaves = get leaves') :
    rootOf zero leaves nodes = rootOf zero leaves' nodes' := by
  have hnil : ∀ m : List (List D × V), m.length = 0 ↔ ∀ key, get m key = none := by
    intro m
    rw [List.length_eq_zero_iff]
    constructor
    · rintro rfl key
      rfl
    · intro hnone
      rw [← List.map_eq_nil_iff, List.eq_nil_iff_forall_not_mem]
      exact fun key => (get_eq_none_iff m key).mp (hnone key)
  have hempty : leaves.length = 0 ↔ leaves'.length = 0 := by
    rw [hnil, hnil, hleaves]
  rw [hleaves] at h
  unfold rootOf
  rw [h.congr h' []]
  exact if_congr hempty rfl rfl

end Leaves

end Holds

section Build

variable [DecidableEq D] {combine : List D → (D → Option V) → V} {depth : ℕ}
  {leaf : List D → Option V}

structure Built (combine : List D → (D → Option V) → V) (depth : ℕ) (leaf : List D → Option V)
    (todo : List (List D)) (nodes : List (List D × V)) : Prop where
  done : ∀ path, path ∉ todo → get nodes path = expected combine depth leaf path
  left : ∀ path ∈ todo, path.length < depth

theorem built_foldl {todo : List (List D)} {nodes : List (List D × V)}
    (value : List (List D × V) → List D → Option V) (hvalue : ∀ nodes, ∀ path ∈ todo,
      (∀ d, get nodes (path ++ [d]) = expected combine depth leaf (path ++ [d])) →
      value nodes path = expected combine depth leaf path)
    (h : Built combine depth leaf todo nodes)
    (hsorted : todo.Pairwise (fun a b => b.length ≤ a.length)) (hnodup : todo.Nodup)
    (path : List D) :
    get (todo.foldl (fun nodes path => put nodes path (value nodes path)) nodes) path =
      expected combine depth leaf path := by
  induction todo generalizing nodes with
  | nil => exact h.done path List.not_mem_nil
  | cons first todo ih =>
    obtain ⟨hfirst, hsorted⟩ := List.pairwise_cons.mp hsorted
    obtain ⟨hnew, hnodup⟩ := List.nodup_cons.mp hnodup
    refine ih (fun nodes path hpath => hvalue nodes path (List.mem_cons_of_mem _ hpath))
      ⟨fun path hpath => ?_, fun path hpath => h.left path (List.mem_cons_of_mem _ hpath)⟩
        hsorted hnodup
    rw [get_put]
    split
    · rename_i heq
      rw [heq]
      refine hvalue nodes first (List.mem_cons_self ..) (fun d => h.done _ ?_)
      have hlength : (first ++ [d]).length = first.length + 1 := List.length_append
      rintro hmem
      rcases List.mem_cons.mp hmem with hself | hlater
      · have hsame := congrArg List.length hself
        omega
      · have hle := hfirst _ hlater
        omega
    · rename_i hne
      refine h.done path (fun hmem => ?_)
      rcases List.mem_cons.mp hmem with heq | hlater
      · exact hne heq
      · exact hpath hlater

end Build

end PrefixTree
