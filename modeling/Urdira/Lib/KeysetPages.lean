import Urdira.Lib.KeyedSet

namespace KeysetPages

open KeyedSet

section Smallest

variable {E K R : Type} [LinearOrder K] [LinearOrder R]

def keepSmallest [BEq E] (limit : ℕ) (same : E → E → Bool) (key : E → K) (rank : E → R)
    (heap : List E)
    (entry : E) : List E :=
  if heap.any (same entry) then heap
  else if heap.length < limit then entry :: heap
  else
    match heap.argmax rank with
    | some greatest => if key entry < key greatest then entry :: heap.erase greatest else heap
    | none => heap

structure Keeps (limit : ℕ) (key : E → K) (heap rest seen : List E) : Prop where
  perm : (heap ++ rest).Perm seen
  below : ∀ a ∈ heap, ∀ b ∈ rest, key a < key b
  small : heap.length ≤ limit
  full : rest ≠ [] → heap.length = limit

variable {limit : ℕ} {same : E → E → Bool} {key : E → K} {rank : E → R} {heap rest seen : List E}
  {entry : E}

theorem Keeps.insert (h : Keeps limit key heap rest seen) (hlt : heap.length < limit) :
    Keeps limit key (entry :: heap) rest (entry :: seen) where
  perm := h.perm.cons entry
  below := by
    intro a _ b hb
    have hfull := h.full (List.ne_nil_of_mem hb)
    omega
  small := hlt
  full := by
    intro hrest
    have hfull := h.full hrest
    omega

theorem Keeps.skip (h : Keeps limit key heap rest seen) (hfull : heap.length = limit)
    (habove : ∀ a ∈ heap, key a < key entry) :
    Keeps limit key heap (entry :: rest) (entry :: seen) where
  perm := List.perm_middle.trans (h.perm.cons entry)
  below := by
    intro a ha b hb
    rcases List.mem_cons.mp hb with rfl | hb
    · exact habove a ha
    · exact h.below a ha b hb
  small := h.small
  full := fun _ => hfull

theorem Keeps.replace [BEq E] [LawfulBEq E] {greatest : E} (h : Keeps limit key heap rest seen)
    (hmem : greatest ∈ heap)
    (hlt : key entry < key greatest) (habove : ∀ a ∈ heap.erase greatest, key a < key greatest)
    (hfull : heap.length = limit) :
    Keeps limit key (entry :: heap.erase greatest) (greatest :: rest) (entry :: seen) where
  perm := by
    refine List.Perm.cons entry ?_
    refine List.perm_middle.trans (List.Perm.trans ?_ h.perm)
    exact (List.perm_cons_erase hmem).symm.append_right rest
  below := by
    intro a ha b hb
    have hab : key a < key greatest := by
      rcases List.mem_cons.mp ha with rfl | ha
      · exact hlt
      · exact habove a ha
    rcases List.mem_cons.mp hb with rfl | hb
    · exact hab
    · exact hab.trans (h.below greatest hmem b hb)
  small := by
    have hpos := List.length_pos_of_mem hmem
    rw [List.length_cons, List.length_erase_of_mem hmem]
    omega
  full := by
    intro _
    have hpos := List.length_pos_of_mem hmem
    rw [List.length_cons, List.length_erase_of_mem hmem]
    omega

theorem Keeps.mem {a : E} (h : Keeps limit key heap rest seen) (ha : a ∈ heap) : a ∈ seen :=
  h.perm.mem_iff.mp (List.mem_append_left rest ha)

theorem Keeps.step [BEq E] [LawfulBEq E] (h : Keeps limit key heap rest seen)
    (hrank : ∀ a b, rank a ≤ rank b → key a ≤ key b) (hsame : ∀ a ∈ seen, same entry a = false)
    (hkeys : ((entry :: seen).map key).Nodup) :
    ∃ rest', Keeps limit key (keepSmallest limit same key rank heap entry) rest'
      (entry :: seen) := by
  obtain ⟨hnew, hseen⟩ := List.nodup_cons.mp hkeys
  have hne : ∀ a ∈ heap, key a ≠ key entry := by
    intro a ha heq
    exact hnew (List.mem_map.mpr ⟨a, h.mem ha, heq⟩)
  have hany : heap.any (same entry) = false := by
    rw [List.any_eq_false]
    intro a ha
    rw [hsame a (h.mem ha)]
    exact Bool.false_ne_true
  unfold keepSmallest
  rw [hany, if_neg Bool.false_ne_true]
  by_cases hlt : heap.length < limit
  · rw [if_pos hlt]
    exact ⟨rest, h.insert hlt⟩
  · rw [if_neg hlt]
    have hfull : heap.length = limit := le_antisymm h.small (not_lt.mp hlt)
    cases hmax : heap.argmax rank with
    | none =>
      obtain rfl := List.argmax_eq_none.mp hmax
      exact ⟨entry :: rest, h.skip hfull (by simp)⟩
    | some greatest =>
      have hmem : greatest ∈ heap := List.argmax_mem hmax
      have hle : ∀ a ∈ heap, key a ≤ key greatest :=
        fun a ha => hrank a greatest (List.le_of_mem_argmax ha hmax)
      dsimp only
      split
      · rename_i hkey
        refine ⟨greatest :: rest, h.replace hmem hkey ?_ hfull⟩
        intro a ha
        have hnodup : (heap.map key).Nodup := by
          refine List.Nodup.sublist ?_ ((h.perm.map key).nodup_iff.mpr hseen)
          exact (List.sublist_append_left heap rest).map key
        have hmem' : a ∈ heap := List.mem_of_mem_erase ha
        refine lt_of_le_of_ne (hle a hmem') ?_
        intro heq
        obtain rfl := List.inj_on_of_nodup_map hnodup hmem' hmem heq
        exact absurd ha ((List.Nodup.of_map key hnodup).not_mem_erase)
      · rename_i hkey
        refine ⟨entry :: rest, h.skip hfull ?_⟩
        intro a ha
        exact lt_of_le_of_ne ((hle a ha).trans (not_lt.mp hkey)) (hne a ha)

theorem Keeps.step_seen [BEq E] {a : E} (h : Keeps limit key heap rest seen) (ha : a ∈ seen)
    (hsame : same entry a = true) (hkey : key a = key entry) :
    keepSmallest limit same key rank heap entry = heap := by
  unfold keepSmallest
  rcases List.mem_append.mp (h.perm.mem_iff.mpr ha) with hheap | hrest
  · rw [if_pos (List.any_eq_true.mpr ⟨a, hheap, hsame⟩)]
  · have hfull : ¬ heap.length < limit := (h.full (List.ne_nil_of_mem hrest)).not_lt
    rw [if_neg hfull]
    cases hmax : heap.argmax rank with
    | none => exact ite_self _
    | some greatest =>
      have hbelow := h.below greatest (List.argmax_mem hmax) a hrest
      have hnot : ¬ key entry < key greatest := by
        rw [← hkey]
        exact hbelow.not_gt
      dsimp only
      rw [if_neg hnot]
      exact ite_self _

structure Collects (key : E → K) (start entries seen : List E) : Prop where
  keys : (seen.map key).Nodup
  mem : ∀ e ∈ seen, e ∈ start ∨ e ∈ entries
  covers : ∀ e ∈ start ++ entries, ∃ a ∈ seen, key a = key e

theorem Keeps.foldl [BEq E] [LawfulBEq E] (h : Keeps limit key heap rest seen)
    (hrank : ∀ a b, rank a ≤ rank b → key a ≤ key b) {entries : List E}
    (hsame : ∀ a ∈ seen ++ entries, ∀ b ∈ seen ++ entries, same a b = true ↔ key a = key b)
    (hkeys : (seen.map key).Nodup) :
    ∃ rest' seen', Keeps limit key (entries.foldl (keepSmallest limit same key rank) heap)
      rest' seen' ∧
      Collects key seen entries seen' := by
  induction entries generalizing heap rest seen with
  | nil =>
    refine ⟨rest, seen, h, hkeys, fun e he => Or.inl he, fun e he => ⟨e, ?_, rfl⟩⟩
    rw [List.append_nil] at he
    exact he
  | cons entry entries ih =>
    have hentry : entry ∈ seen ++ entry :: entries :=
      List.mem_append_right _ (List.mem_cons_self ..)
    by_cases hold : ∃ a ∈ seen, key a = key entry
    · obtain ⟨a, ha, hkey⟩ := hold
      have hsameSeen := (hsame entry hentry a (List.mem_append_left _ ha)).mpr hkey.symm
      have hsub : ∀ e ∈ seen ++ entries, e ∈ seen ++ entry :: entries := by
        intro e he
        exact ((List.sublist_cons_self entry entries).append_left seen).subset he
      obtain ⟨rest', seen', hrun, hcollect⟩ :=
        ih h (fun a ha b hb => hsame a (hsub a ha) b (hsub b hb)) hkeys
      rw [List.foldl_cons, h.step_seen ha hsameSeen hkey]
      refine ⟨rest', seen', hrun, hcollect.keys, fun e he => ?_, fun e he => ?_⟩
      · exact (hcollect.mem e he).imp_right (List.mem_cons_of_mem _)
      · rcases List.mem_append.mp he with he | he
        · exact hcollect.covers e (List.mem_append_left _ he)
        · rcases List.mem_cons.mp he with rfl | he
          · obtain ⟨b, hb, hb'⟩ := hcollect.covers a (List.mem_append_left _ ha)
            exact ⟨b, hb, hb'.trans hkey⟩
          · exact hcollect.covers e (List.mem_append_right _ he)
    · have hfresh : ∀ a ∈ seen, same entry a = false := by
        intro a ha
        rw [Bool.eq_false_iff]
        intro heq
        exact hold ⟨a, ha, ((hsame entry hentry a (List.mem_append_left _ ha)).mp heq).symm⟩
      have hkeys' : ((entry :: seen).map key).Nodup := by
        refine List.nodup_cons.mpr ⟨fun hmem => hold ?_, hkeys⟩
        exact List.mem_map.mp hmem
      have hsub : ∀ e ∈ (entry :: seen) ++ entries, e ∈ seen ++ entry :: entries :=
        fun e he => List.perm_middle.mem_iff.mpr he
      obtain ⟨rest₁, hstep⟩ := h.step hrank hfresh hkeys'
      obtain ⟨rest', seen', hrun, hcollect⟩ :=
        ih hstep (fun a ha b hb => hsame a (hsub a ha) b (hsub b hb)) hkeys'
      refine ⟨rest', seen', hrun, hcollect.keys, fun e he => ?_, fun e he => ?_⟩
      · rcases hcollect.mem e he with hmem | hmem
        · rcases List.mem_cons.mp hmem with rfl | hmem
          · exact Or.inr (List.mem_cons_self ..)
          · exact Or.inl hmem
        · exact Or.inr (List.mem_cons_of_mem _ hmem)
      · exact hcollect.covers e (List.perm_middle.mem_iff.mp he)

theorem Keeps.sorted (h : Keeps limit key heap rest seen) (hkeys : (seen.map key).Nodup) :
    sortOn key heap = (sortOn key seen).take limit := by
  have happend : sortOn key seen = sortOn key heap ++ sortOn key rest := by
    refine perm_eq_of_sorted (functional_of_nodup ?_) (sortOn_pairwise key seen) ?_ ?_
    · exact ((sortOn_perm key seen).map key).nodup_iff.mpr hkeys
    · refine List.pairwise_append.mpr ⟨sortOn_pairwise key heap, sortOn_pairwise key rest, ?_⟩
      intro a ha b hb
      exact (h.below a ((mem_sortOn key heap a).mp ha) b ((mem_sortOn key rest b).mp hb)).le
    · refine (sortOn_perm key seen).trans (h.perm.symm.trans ?_)
      exact ((sortOn_perm key heap).append (sortOn_perm key rest)).symm
  rw [happend]
  cases rest with
  | nil =>
    have hlength : (sortOn key heap).length ≤ limit := (length_sortOn key heap).trans_le h.small
    have hnil : sortOn key ([] : List E) = [] := rfl
    rw [hnil, List.append_nil, List.take_of_length_le hlength]
  | cons b rest =>
    have hlength : (sortOn key heap).length = limit :=
      (length_sortOn key heap).trans (h.full (by simp))
    rw [← hlength, List.take_left]

end Smallest

theorem sum_map_ite_eq {K : Type} [DecidableEq K] (ks : List K) (a : K) (n : ℕ) :
    (ks.map (fun k => if a = k then n else 0)).sum = ks.count a * n := by
  induction ks with
  | nil => rw [List.map_nil, List.sum_nil, List.count_nil, Nat.zero_mul]
  | cons k ks ih =>
    rw [List.map_cons, List.sum_cons, ih, List.count_cons]
    by_cases hk : a = k
    · rw [if_pos hk, hk, beq_self_eq_true, if_pos rfl, Nat.add_mul, Nat.one_mul, Nat.add_comm]
    · rw [if_neg hk, if_neg (by simpa using Ne.symm hk), Nat.zero_add, Nat.add_zero]

theorem sortOn_pairwise_lt {α K : Type} [LinearOrder K] {key : α → K} {xs : List α}
    (h : (xs.map key).Nodup) : (sortOn key xs).Pairwise (fun a b => key a < key b) := by
  have hnodup := ((sortOn_perm key xs).map key).nodup_iff.mpr h
  refine ((sortOn_pairwise key xs).and (List.pairwise_map.mp hnodup)).imp ?_
  rintro a b ⟨hle, hne⟩
  exact lt_of_le_of_ne hle hne

section Pages

variable {E K Row : Type} [LinearOrder K]

def isAfter (after : Option K) (k : K) : Bool := !after.any (fun a => decide (k ≤ a))

theorem isAfter_some {after : Option K} {k k' : K} (hk : isAfter after k = true)
    (h : isAfter (some k) k' = true) : isAfter after k' = true := by
  cases after with
  | none => rfl
  | some a =>
    simp only [isAfter, Option.any_some, Bool.not_eq_true', decide_eq_false_iff_not,
      not_le] at hk h ⊢
    exact hk.trans h

theorem filter_isAfter_last {key : Row → K} {front back : List Row} {last : Row}
    (hsorted : (front ++ last :: back).Pairwise (fun a b => key a < key b)) :
    (front ++ last :: back).filter (fun row => isAfter (some (key last)) (key row)) = back := by
  obtain ⟨-, hback, hfront⟩ := List.pairwise_append.mp hsorted
  have hnone : front.filter (fun row => isAfter (some (key last)) (key row)) = [] := by
    rw [List.filter_eq_nil_iff]
    intro row hrow
    have hlt := hfront row hrow last (List.mem_cons_self ..)
    simp [isAfter, hlt.le]
  have hall : back.filter (fun row => isAfter (some (key last)) (key row)) = back := by
    rw [List.filter_eq_self]
    intro row hrow
    have hlt := (List.pairwise_cons.mp hback).1 row hrow
    simp [isAfter, hlt]
  rw [List.filter_append, List.filter_cons, hnone, hall]
  simp [isAfter]

def follow (page : ℕ → Option K → List Row × Option K) : (ℕ → ℕ) → ℕ → Option K → Option (List Row)
  | _, 0, _ => none
  | sizes, fuel + 1, after =>
    let (rows, next) := page (sizes 0) after
    match next with
    | none => some rows
    | some cursor => (follow page (fun i => sizes (i + 1)) fuel (some cursor)).map (rows ++ ·)

structure IsKeyset (page : ℕ → Option K → List Row × Option K) (key : Row → K) (all : List Row) :
    Prop where
  sorted : all.Pairwise (fun a b => key a < key b)
  rows : ∀ limit after, 0 < limit →
    (page limit after).1 = (all.filter (fun row => isAfter after (key row))).take limit
  next : ∀ limit after, 0 < limit → (page limit after).2 =
    if (page limit after).1.length = limit then (page limit after).1.getLast?.map key else none

namespace IsKeyset

variable {page : ℕ → Option K → List Row × Option K} {key : Row → K} {all : List Row}

theorem resume (h : IsKeyset page key all) {after : Option K} {front back : List Row} {last : Row}
    (hrest : all.filter (fun row => isAfter after (key row)) = front ++ last :: back) :
    all.filter (fun row => isAfter (some (key last)) (key row)) = back := by
  have hsorted : (front ++ last :: back).Pairwise (fun a b => key a < key b) := by
    rw [← hrest]
    exact h.sorted.sublist List.filter_sublist
  have hlast : isAfter after (key last) = true := by
    have hmem : last ∈ all.filter (fun row => isAfter after (key row)) := by
      rw [hrest]
      simp
    exact (List.mem_filter.mp hmem).2
  have hnarrow : all.filter (fun row => isAfter (some (key last)) (key row)) =
      (all.filter (fun row => isAfter after (key row))).filter
        (fun row => isAfter (some (key last)) (key row)) := by
    rw [List.filter_filter]
    refine List.filter_congr (fun row _ => ?_)
    cases hrow : isAfter (some (key last)) (key row) with
    | false => rfl
    | true => rw [isAfter_some hlast hrow, Bool.and_true]
  rw [hnarrow, hrest]
  exact filter_isAfter_last hsorted

theorem follow_eq (h : IsKeyset page key all) {sizes : ℕ → ℕ} (hsizes : ∀ i, 0 < sizes i) {fuel : ℕ}
    {after : Option K} (hfuel : (all.filter (fun row => isAfter after (key row))).length < fuel) :
    follow page sizes fuel after = some (all.filter (fun row => isAfter after (key row))) := by
  induction fuel generalizing sizes after with
  | zero => exact absurd hfuel (Nat.not_lt_zero _)
  | succ fuel ih =>
    have hrows := h.rows (sizes 0) after (hsizes 0)
    have hnext := h.next (sizes 0) after (hsizes 0)
    unfold follow
    generalize page (sizes 0) after = answer at hrows hnext ⊢
    obtain ⟨rows, next⟩ := answer
    dsimp only at hrows hnext ⊢
    by_cases hfull : rows.length = sizes 0
    · have hpos : rows ≠ [] := by
        rintro rfl
        exact absurd hfull (hsizes 0).ne
      obtain ⟨front, last, rfl⟩ := (List.eq_nil_or_concat' rows).resolve_left hpos
      rw [if_pos hfull, List.getLast?_concat, Option.map_some] at hnext
      subst hnext
      have hrest : all.filter (fun row => isAfter after (key row)) =
          front ++ last :: (all.filter (fun row => isAfter after (key row))).drop (sizes 0) := by
        conv_lhs => rw [← List.take_append_drop (sizes 0)
          (all.filter (fun row => isAfter after (key row)))]
        rw [← hrows, List.append_assoc, List.singleton_append]
      have hback := h.resume hrest
      have hlength : (all.filter (fun row => isAfter (some (key last)) (key row))).length <
          fuel := by
        rw [hrest] at hfuel
        rw [hback]
        simp only [List.length_append, List.length_cons] at hfuel
        omega
      dsimp only
      rw [ih (fun i => hsizes (i + 1)) hlength, Option.map_some, hback, List.append_assoc,
        List.singleton_append, ← hrest]
    · rw [if_neg hfull] at hnext
      subst hnext
      have hshort : (all.filter (fun row => isAfter after (key row))).length ≤ sizes 0 := by
        rw [hrows, List.length_take] at hfull
        omega
      rw [hrows, List.take_of_length_le hshort]

theorem follow_none (h : IsKeyset page key all) {sizes : ℕ → ℕ}
    (hsizes : ∀ i, 0 < sizes i) {fuel : ℕ}
    (hfuel : all.length < fuel) : follow page sizes fuel none = some all := by
  have hall : all.filter (fun row => isAfter none (key row)) = all :=
    List.filter_eq_self.mpr (fun _ _ => rfl)
  have hfuel' : (all.filter (fun row => isAfter none (key row))).length < fuel := by
    rw [hall]
    exact hfuel
  rw [h.follow_eq hsizes hfuel', hall]

end IsKeyset

end Pages

section Found

variable {E K R Row : Type} [LinearOrder K] [LinearOrder R] {found : List (E × Row)}
  {same : E → E → Bool} {key : E → K} {rank : E → R} {rowKey : Row → K} {lookup : E → Option Row}

structure Finds (found : List (E × Row)) (same : E → E → Bool) (key : E → K) (rank : E → R)
    (rowKey : Row → K) (lookup : E → Option Row) : Prop where
  rank_le : ∀ a b, rank a ≤ rank b → key a ≤ key b
  key_eq : ∀ p ∈ found, rowKey p.2 = key p.1
  lookup_eq : ∀ p ∈ found, lookup p.1 = some p.2
  same_iff : ∀ p ∈ found, ∀ q ∈ found, same p.1 q.1 = true ↔ key p.1 = key q.1

def laterEntries (found : List (E × Row)) (key : E → K) (after : Option K) : List E :=
  (found.map Prod.fst).filter (fun e => isAfter after (key e))

theorem mem_laterEntries {after : Option K} {e : E} (he : e ∈ laterEntries found key after) :
    (∃ p ∈ found, p.1 = e) ∧ isAfter after (key e) = true := by
  obtain ⟨he, hafter⟩ := List.mem_filter.mp he
  exact ⟨List.mem_map.mp he, hafter⟩

theorem Finds.keeps [BEq E] [LawfulBEq E] (h : Finds found same key rank rowKey lookup) (limit : ℕ)
    (after : Option K) :
    ∃ rest seen,
      Keeps limit key ((laterEntries found key after).foldl (keepSmallest limit same key rank) [])
        rest seen ∧ Collects key [] (laterEntries found key after) seen := by
  have hstart : Keeps limit key [] [] ([] : List E) := ⟨List.Perm.nil, by simp, by simp, by simp⟩
  refine hstart.foldl h.rank_le (fun a ha b hb => ?_) List.nodup_nil
  rw [List.nil_append] at ha hb
  obtain ⟨⟨p, hp, rfl⟩, -⟩ := mem_laterEntries ha
  obtain ⟨⟨q, hq, rfl⟩, -⟩ := mem_laterEntries hb
  exact h.same_iff p hp q hq

theorem filterMap_take {α β : Type} {f : α → Option β} {xs : List α}
    (h : ∀ x ∈ xs, ∃ y, f x = some y)
    (n : ℕ) : (xs.take n).filterMap f = (xs.filterMap f).take n := by
  induction xs generalizing n with
  | nil => simp
  | cons x xs ih =>
    obtain ⟨y, hy⟩ := h x (List.mem_cons_self ..)
    cases n with
    | zero => rfl
    | succ n =>
      rw [List.take_succ_cons, List.filterMap_cons_some hy, List.filterMap_cons_some hy,
        List.take_succ_cons, ih (fun x hx => h x (List.mem_cons_of_mem _ hx))]

theorem Finds.lookup_later (h : Finds found same key rank rowKey lookup) {after : Option K} {e : E}
    (he : e ∈ laterEntries found key after) :
    ∃ p ∈ found, p.1 = e ∧ lookup e = some p.2 ∧ rowKey p.2 = key e ∧
      isAfter after (key e) = true := by
  obtain ⟨⟨p, hp, rfl⟩, hafter⟩ := mem_laterEntries he
  exact ⟨p, hp, rfl, h.lookup_eq p hp, h.key_eq p hp, hafter⟩

theorem Finds.page [BEq E] [LawfulBEq E] (h : Finds found same key rank rowKey lookup)
    {all : List Row}
    (hall : all.Pairwise (fun a b => rowKey a < rowKey b))
    (hmem : ∀ row, row ∈ all ↔ row ∈ found.map Prod.snd) (limit : ℕ) (after : Option K) :
    (sortOn key ((laterEntries found key after).foldl (keepSmallest limit same key rank)
      [])).filterMap
        lookup =
      (all.filter (fun row => isAfter after (rowKey row))).take limit := by
  obtain ⟨rest, seen, hkeeps, hcollect⟩ := h.keeps limit after
  have hlater : ∀ e ∈ seen, e ∈ laterEntries found key after :=
    fun e he => (hcollect.mem e he).resolve_left List.not_mem_nil
  have hsome : ∀ e ∈ sortOn key seen, ∃ row, lookup e = some row := by
    intro e he
    obtain ⟨p, -, -, hlookup, -, -⟩ := h.lookup_later (hlater e ((mem_sortOn key seen e).mp he))
    exact ⟨p.2, hlookup⟩
  rw [hkeeps.sorted hcollect.keys, filterMap_take hsome]
  refine congrArg (List.take limit) ?_
  have hsortedAll : (all.filter (fun row => isAfter after (rowKey row))).Pairwise
      (fun a b => rowKey a < rowKey b) := hall.sublist List.filter_sublist
  have hsortedSeen :
      ((sortOn key seen).filterMap lookup).Pairwise (fun a b => rowKey a < rowKey b) := by
    rw [List.pairwise_filterMap]
    refine (sortOn_pairwise_lt hcollect.keys).imp_of_mem ?_
    intro a b ha hb hlt row hrow row' hrow'
    obtain ⟨p, -, -, hlookup, hkey, -⟩ := h.lookup_later (hlater a ((mem_sortOn key seen a).mp ha))
    obtain ⟨q, -, -, hlookup', hkey', -⟩ :=
      h.lookup_later (hlater b ((mem_sortOn key seen b).mp hb))
    rw [Option.some.inj (hrow.symm.trans hlookup), Option.some.inj (hrow'.symm.trans hlookup'),
      hkey, hkey']
    exact hlt
  refine List.Perm.eq_of_pairwise (fun a b _ _ hab hba => absurd hba hab.not_gt) hsortedSeen
    hsortedAll ?_
  refine (List.perm_ext_iff_of_nodup ?_ ?_).mpr (fun row => ?_)
  · exact List.Nodup.of_map rowKey (List.pairwise_map.mpr (hsortedSeen.imp LT.lt.ne))
  · exact List.Nodup.of_map rowKey (List.pairwise_map.mpr (hsortedAll.imp LT.lt.ne))
  · rw [List.mem_filterMap, List.mem_filter]
    constructor
    · rintro ⟨e, he, hrow⟩
      obtain ⟨p, hp, rfl, hlookup, hkey, hafter⟩ :=
        h.lookup_later (hlater e ((mem_sortOn key seen e).mp he))
      obtain rfl := Option.some.inj (hlookup.symm.trans hrow)
      refine ⟨(hmem p.2).mpr (List.mem_map_of_mem hp), ?_⟩
      rw [hkey]
      exact hafter
    · rintro ⟨hrow, hafter⟩
      obtain ⟨p, hp, rfl⟩ := List.mem_map.mp ((hmem row).mp hrow)
      have hentry : p.1 ∈ laterEntries found key after := by
        refine List.mem_filter.mpr ⟨List.mem_map_of_mem hp, ?_⟩
        rw [← h.key_eq p hp]
        exact hafter
      obtain ⟨e, he, hkeys⟩ := hcollect.covers p.1 hentry
      obtain ⟨q, hq, rfl, hlookup, hkey, -⟩ := h.lookup_later (hlater e he)
      refine ⟨q.1, (mem_sortOn key seen _).mpr he, ?_⟩
      rw [hlookup]
      have heq : rowKey q.2 = rowKey p.2 := by
        rw [hkey, hkeys, h.key_eq p hp]
      have hnodup : (all.map rowKey).Nodup := List.pairwise_map.mpr (hall.imp (fun hlt => hlt.ne))
      refine congrArg some (List.inj_on_of_nodup_map hnodup ?_ hrow heq)
      exact (hmem q.2).mpr (List.mem_map_of_mem hq)

theorem Finds.page_keys [BEq E] [LawfulBEq E] (h : Finds found same key rank rowKey lookup)
    (limit : ℕ)
    (after : Option K) :
    ((sortOn key ((laterEntries found key after).foldl (keepSmallest limit same key rank)
      [])).filterMap
        lookup).map rowKey =
      (sortOn key ((laterEntries found key after).foldl (keepSmallest limit same key rank) [])).map
        key := by
  obtain ⟨rest, seen, hkeeps, hcollect⟩ := h.keeps limit after
  rw [List.map_filterMap, ← List.filterMap_eq_map]
  refine List.filterMap_congr (fun e he => ?_)
  have hseen := hkeeps.mem ((mem_sortOn key _ e).mp he)
  obtain ⟨p, -, -, hlookup, hkey, -⟩ :=
    h.lookup_later ((hcollect.mem e hseen).resolve_left List.not_mem_nil)
  rw [hlookup, Option.map_some, hkey]
  rfl

end Found

end KeysetPages
