import Urdira.Lib.KeyedSort

open KeyedSort

namespace TopK

variable {α κ : Type} [LinearOrder κ] (key : α → κ)

def top (k : ℕ) (items : List α) : List α := (sortBy key items).take k

theorem take_merge (le : α → α → Bool) (xs ys : List α) {k m : ℕ} (h : k ≤ m) :
    ((xs.take m).merge ys le).take k = (xs.merge ys le).take k := by
  induction xs generalizing ys k m with
  | nil => rw [List.take_nil]
  | cons x xs ihx =>
    induction ys generalizing k m with
    | nil => rw [List.merge_right, List.merge_right, List.take_take, min_eq_left h]
    | cons y ys ihy =>
      cases k with
      | zero => rw [List.take_zero, List.take_zero]
      | succ k =>
        obtain ⟨m, rfl⟩ : ∃ n, m = n + 1 := ⟨m - 1, by omega⟩
        have hk : k ≤ m := Nat.le_of_succ_le_succ h
        rw [List.take_succ_cons, List.cons_merge_cons, List.cons_merge_cons]
        cases le x y with
        | true =>
          rw [if_pos rfl, if_pos rfl, List.take_succ_cons, List.take_succ_cons, ihx (y :: ys) hk]
        | false =>
          rw [if_neg Bool.false_ne_true, if_neg Bool.false_ne_true, List.take_succ_cons,
            List.take_succ_cons,
            ← ihy (Nat.le_succ_of_le hk), List.take_succ_cons]

variable {key}

theorem sortBy_append {xs ys : List α} (h : ((xs ++ ys).map key).Nodup) :
    sortBy key (xs ++ ys) = (sortBy key xs).merge (sortBy key ys)
      (fun a b => decide (key a ≤ key b)) := by
  have hperm := ((sortBy_perm key xs).append (sortBy_perm key ys)).symm.trans
    (List.merge_perm_append (fun a b => decide (key a ≤ key b))).symm
  refine sortBy_eq hperm h ?_
  exact (sortBy_pairwise key xs).merge (sortBy_pairwise key ys)

theorem top_perm {xs ys : List α} (k : ℕ) (hperm : xs.Perm ys) (h : (xs.map key).Nodup) :
    top key k xs = top key k ys := by
  rw [top, top, sortBy_eq_of_perm hperm h]

theorem sortBy_congr {κ' : Type} [LinearOrder κ'] {key' : α → κ'} {items : List α}
    (h : ∀ a ∈ items, ∀ b ∈ items, key a ≤ key b ↔ key' a ≤ key' b) :
    sortBy key items = sortBy key' items := by
  have hmap :=
    List.map_insertionSort (fun a b => key a ≤ key b) (fun a b => key' a ≤ key' b) id items h
  rw [List.map_id, List.map_id] at hmap
  exact hmap

theorem top_congr {κ' : Type} [LinearOrder κ'] {key' : α → κ'} (k : ℕ) {items : List α}
    (h : ∀ a ∈ items, ∀ b ∈ items, key a ≤ key b ↔ key' a ≤ key' b) :
    top key k items = top key' k items := by
  rw [top, top, sortBy_congr h]

theorem top_map {β : Type} {key' : β → κ} {f : α → β} (hkey : ∀ a, key' (f a) = key a) (k : ℕ)
    (items : List α) :
    top key' k (items.map f) = (top key k items).map f := by
  rw [top, top, sortBy_map hkey, List.map_take]

theorem top_sublist (k : ℕ) (items : List α) : (top key k items).Sublist (sortBy key items) :=
  List.take_sublist _ _

theorem mem_of_top {k : ℕ} {items : List α} {a : α} (h : a ∈ top key k items) : a ∈ items :=
  (sortBy_perm key items).mem_iff.mp ((top_sublist k items).mem h)

theorem length_top (k : ℕ) (items : List α) : (top key k items).length = min k items.length := by
  rw [top, List.length_take, (sortBy_perm key items).length_eq]

theorem top_min (k : ℕ) (items : List α) :
    top key (min k items.length) items = top key k items := by
  rw [top, top]
  rcases Nat.le_total k items.length with hle | hge
  · rw [min_eq_left hle]
  · have hlength := (sortBy_perm key items).length_eq
    rw [min_eq_right hge, List.take_of_length_le hlength.le,
      List.take_of_length_le (hlength.le.trans hge)]

theorem top_top (k : ℕ) (items : List α) : sortBy key (top key k items) = top key k items :=
  (((sortBy_pairwise key items).sublist (top_sublist k items))).insertionSort_eq

theorem nodup_top_append {xs ys : List α} (k : ℕ) (h : ((xs ++ ys).map key).Nodup) :
    ((top key k xs ++ ys).map key).Nodup := by
  have hsublist : (top key k xs ++ ys).Sublist (sortBy key xs ++ ys) :=
    (top_sublist k xs).append (List.Sublist.refl ys)
  have hperm := (sortBy_perm key xs).append_right ys
  exact ((hperm.map key).nodup_iff.mpr h).sublist (hsublist.map key)

theorem top_append {xs ys : List α} (k : ℕ) (h : ((xs ++ ys).map key).Nodup) :
    top key k (top key k xs ++ ys) = top key k (xs ++ ys) := by
  rw [top, sortBy_append (nodup_top_append k h), top_top, top, top, sortBy_append h,
    take_merge _ _ _ (le_refl k)]

theorem subperm_append {xs xs' ys ys' : List α} (h : xs.Subperm xs') (h' : ys.Subperm ys') :
    (xs ++ ys).Subperm (xs' ++ ys') := by
  obtain ⟨front, hfront, hsub⟩ := h
  obtain ⟨back, hback, hsub'⟩ := h'
  exact ⟨front ++ back, hfront.append hback, hsub.append hsub'⟩

theorem flatMap_top_subperm (k : ℕ) (chunks : List (List α)) :
    (chunks.flatMap (top key k)).Subperm chunks.flatten := by
  induction chunks with
  | nil => exact List.Subperm.refl _
  | cons chunk chunks ih =>
    rw [List.flatMap_cons, List.flatten_cons]
    have hchunk : (top key k chunk).Subperm chunk :=
      (top_sublist k chunk).subperm.trans (sortBy_perm key chunk).subperm
    exact subperm_append hchunk ih

omit [LinearOrder κ] in
theorem nodup_of_subperm {xs ys : List α} (hsub : xs.Subperm ys) (h : (ys.map key).Nodup) :
    (xs.map key).Nodup := by
  obtain ⟨zs, hperm, hsublist⟩ := hsub
  exact (hperm.map key).nodup_iff.mp (h.sublist (hsublist.map key))

theorem top_append_flatMap {chunks : List (List α)} (k : ℕ) {before : List α}
    (h : ((before ++ chunks.flatten).map key).Nodup) :
    top key k (before ++ chunks.flatMap (top key k)) = top key k (before ++ chunks.flatten) := by
  induction chunks generalizing before with
  | nil => rfl
  | cons chunk chunks ih =>
    rw [List.flatten_cons, ← List.append_assoc] at h
    rw [List.flatten_cons, List.flatMap_cons, ← List.append_assoc before chunk]
    have hfew : ((before ++ chunk ++ chunks.flatMap (top key k)).map key).Nodup :=
      nodup_of_subperm (subperm_append (List.Subperm.refl _) (flatMap_top_subperm k chunks)) h
    have hfront : (before ++ chunk ++ chunks.flatMap (top key k)).Perm
        (chunk ++ (before ++ chunks.flatMap (top key k))) := by
      rw [← List.append_assoc]
      exact List.perm_append_comm.append_right _
    have hmoved : (before ++ (top key k chunk ++ chunks.flatMap (top key k))).Perm
        (top key k chunk ++ (before ++ chunks.flatMap (top key k))) := by
      rw [← List.append_assoc, ← List.append_assoc]
      exact List.perm_append_comm.append_right _
    have hchunk := (hfront.map key).nodup_iff.mp hfew
    calc top key k (before ++ (top key k chunk ++ chunks.flatMap (top key k)))
      _ = top key k (top key k chunk ++ (before ++ chunks.flatMap (top key k))) :=
        top_perm k hmoved ((hmoved.map key).nodup_iff.mpr (nodup_top_append k hchunk))
      _ = top key k (chunk ++ (before ++ chunks.flatMap (top key k))) := top_append k hchunk
      _ = top key k (before ++ chunk ++ chunks.flatMap (top key k)) := (top_perm k hfront hfew).symm
      _ = top key k (before ++ chunk ++ chunks.flatten) := ih h

theorem top_flatMap {chunks : List (List α)} (k : ℕ) (h : (chunks.flatten.map key).Nodup) :
    top key k (chunks.flatMap (top key k)) = top key k chunks.flatten :=
  @top_append_flatMap _ _ _ key chunks k [] h

variable (key) in
def Selects (n : ℕ) (selected : List α) : Prop :=
  ∃ before pivot after, selected = before ++ pivot :: after ∧ before.length = n ∧
    (∀ a ∈ before, key a ≤ key pivot) ∧ ∀ b ∈ after, key pivot ≤ key b

theorem selects_sortBy {n : ℕ} {items : List α} (h : n < items.length) :
    Selects key n (sortBy key items) := by
  have hlength : n < (sortBy key items).length := by rwa [(sortBy_perm key items).length_eq]
  have hsplit : sortBy key items = (sortBy key items).take n ++
      (sortBy key items)[n] :: (sortBy key items).drop (n + 1) := by
    rw [← List.drop_eq_getElem_cons hlength, List.take_append_drop]
  have hpairwise := sortBy_pairwise key items
  rw [hsplit] at hpairwise
  obtain ⟨-, hafter, hsides⟩ := List.pairwise_append.mp hpairwise
  refine ⟨_, _, _, hsplit, List.length_take_of_le hlength.le, ?_, (List.pairwise_cons.mp hafter).1⟩
  exact fun a ha => hsides a ha _ List.mem_cons_self

theorem sortBy_take_selected {n : ℕ} {selected items : List α} (hperm : selected.Perm items)
    (hselects : Selects key n selected) (h : (items.map key).Nodup) :
    sortBy key (selected.take (n + 1)) = top key (n + 1) items := by
  obtain ⟨before, pivot, after, hsplit, hlength, hbefore, hafter⟩ := hselects
  have hfront : (before ++ [pivot]).length = n + 1 := by
    rw [List.length_append, hlength, List.length_singleton]
  have hselected : selected = (before ++ [pivot]) ++ after := by
    rw [hsplit, List.append_assoc, List.singleton_append]
  have hsides : ∀ a ∈ before ++ [pivot], ∀ b ∈ after, key a ≤ key b := by
    intro a ha b hb
    rcases List.mem_append.mp ha with ha | ha
    · exact le_trans (hbefore a ha) (hafter b hb)
    · rw [List.mem_singleton.mp ha]
      exact hafter b hb
  have hpermAll : items.Perm (sortBy key (before ++ [pivot]) ++ sortBy key after) := by
    rw [hselected] at hperm
    exact hperm.symm.trans ((sortBy_perm key _).append (sortBy_perm key _)).symm
  have hpairwise : (sortBy key (before ++ [pivot]) ++ sortBy key after).Pairwise
      (fun a b => key a ≤ key b) := by
    refine List.pairwise_append.mpr ⟨sortBy_pairwise key _, sortBy_pairwise key _,
      fun a ha b hb => ?_⟩
    exact hsides a ((sortBy_perm key _).mem_iff.mp ha) b ((sortBy_perm key _).mem_iff.mp hb)
  have hsortedLength : (sortBy key (before ++ [pivot])).length = n + 1 := by
    rw [(sortBy_perm key _).length_eq, hfront]
  have htake : (before ++ [pivot] ++ after).take (n + 1) = before ++ [pivot] := by
    rw [← hfront]
    exact List.take_left
  rw [hselected, htake, top, sortBy_eq hpermAll h hpairwise, ← hsortedLength]
  exact List.take_left.symm

end TopK
