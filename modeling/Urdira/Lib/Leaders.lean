import Urdira.Lib.KeyedSort
import Mathlib.Data.List.Dedup
import Mathlib.Data.List.MinMax

open KeyedSort

namespace Leaders

variable {α β κ : Type} [DecidableEq β] [LinearOrder κ] (group : α → Option β) (key : α → κ)

def leaders : List β → List α → List (β × α)
  | _, [] => []
  | seen, a :: rest =>
    match group a with
    | none => leaders seen rest
    | some b => if b ∈ seen then leaders seen rest else (b, a) :: leaders (seen ++ [b]) rest

def groups (items : List α) : List β := (items.filterMap group).dedup

def best (items : List α) (b : β) : WithTop κ :=
  ((items.filter (fun a => decide (group a = some b))).map key).minimum

variable {group key}

theorem of_mem_leaders {seen : List β} {items : List α} {pair : β × α}
    (h : pair ∈ leaders group seen items) :
    pair.2 ∈ items ∧ group pair.2 = some pair.1 ∧ pair.1 ∉ seen := by
  induction items generalizing seen with
  | nil => cases h
  | cons a rest ih =>
    rw [leaders] at h
    split at h
    · obtain ⟨hmem, hgroup⟩ := ih h
      exact ⟨List.mem_cons_of_mem _ hmem, hgroup⟩
    · rename_i b hb
      split at h
      · obtain ⟨hmem, hgroup⟩ := ih h
        exact ⟨List.mem_cons_of_mem _ hmem, hgroup⟩
      · rename_i hnew
        rcases List.mem_cons.mp h with rfl | h
        · exact ⟨List.mem_cons_self, hb, hnew⟩
        · obtain ⟨hmem, hgroup, hnot⟩ := ih h
          exact ⟨List.mem_cons_of_mem _ hmem, hgroup, fun hin => hnot (List.mem_append_left _ hin)⟩

theorem leaders_sublist (seen : List β) (items : List α) :
    ((leaders group seen items).map Prod.snd).Sublist items := by
  induction items generalizing seen with
  | nil => exact List.Sublist.refl _
  | cons a rest ih =>
    rw [leaders]
    split
    · exact (ih seen).cons a
    · split
      · exact (ih seen).cons a
      · exact (ih _).cons_cons a

theorem leaders_nodup (seen : List β) (items : List α) :
    ((leaders group seen items).map Prod.fst).Nodup := by
  induction items generalizing seen with
  | nil => exact List.nodup_nil
  | cons a rest ih =>
    rw [leaders]
    split
    · exact ih seen
    · rename_i b hb
      split
      · exact ih seen
      · refine List.nodup_cons.mpr ⟨fun hmem => ?_, ih _⟩
        obtain ⟨pair, hpair, hfst⟩ := List.mem_map.mp hmem
        have hnot := (of_mem_leaders hpair).2.2
        rw [hfst] at hnot
        exact hnot (List.mem_append_right _ (List.mem_singleton_self b))

theorem exists_leader {seen : List β} {items : List α} {a : α} {b : β} (hmem : a ∈ items)
    (hgroup : group a = some b)
    (hnew : b ∉ seen) : b ∈ (leaders group seen items).map Prod.fst := by
  induction items generalizing seen with
  | nil => cases hmem
  | cons first rest ih =>
    rw [leaders]
    rcases List.mem_cons.mp hmem with rfl | hmem
    · rw [hgroup]
      dsimp only
      rw [if_neg hnew]
      exact List.mem_cons_self
    · split
      · exact ih hmem hnew
      · rename_i c _
        split
        · exact ih hmem hnew
        · rcases eq_or_ne b c with rfl | hne
          · exact List.mem_cons_self
          · refine List.mem_cons_of_mem _ (ih hmem (fun hin => ?_))
            rcases List.mem_append.mp hin with hin | hin
            · exact hnew hin
            · exact hne (List.mem_singleton.mp hin)

theorem leader_le {seen : List β} {items : List α}
    (hsorted : items.Pairwise (fun a b => key a ≤ key b)) {pair : β × α}
    (h : pair ∈ leaders group seen items) {a : α} (hmem : a ∈ items)
    (hgroup : group a = some pair.1) :
    key pair.2 ≤ key a := by
  induction items generalizing seen with
  | nil => cases h
  | cons first rest ih =>
    obtain ⟨hfirst, hrest⟩ := List.pairwise_cons.mp hsorted
    rw [leaders] at h
    rcases List.mem_cons.mp hmem with rfl | hmem
    · rw [hgroup] at h
      dsimp only at h
      split at h
      · rename_i hseen
        exact absurd hseen (of_mem_leaders h).2.2
      · rcases List.mem_cons.mp h with hpair | h
        · rw [hpair]
        · exact absurd (List.mem_append_right seen (List.mem_singleton_self _))
            (of_mem_leaders h).2.2
    · split at h
      · exact ih hrest h hmem
      · split at h
        · exact ih hrest h hmem
        · rcases List.mem_cons.mp h with rfl | h
          · exact hfirst a hmem
          · exact ih hrest h hmem

variable {items : List α}

theorem best_leader {pair : β × α} (h : pair ∈ leaders group [] (sortBy key items)) :
    best group key items pair.1 = key pair.2 := by
  obtain ⟨hmem, hgroup, -⟩ := of_mem_leaders h
  rw [best, List.minimum_eq_coe_iff]
  refine ⟨List.mem_map_of_mem (List.mem_filter.mpr ⟨(sortBy_perm key items).mem_iff.mp hmem,
    decide_eq_true hgroup⟩), ?_⟩
  intro least hleast
  obtain ⟨a, ha, rfl⟩ := List.mem_map.mp hleast
  obtain ⟨hin, hsame⟩ := List.mem_filter.mp ha
  exact leader_le (sortBy_pairwise key items) h ((sortBy_perm key items).mem_iff.mpr hin)
    (of_decide_eq_true hsame)

theorem mem_groups {b : β} : b ∈ groups group items ↔ ∃ a ∈ items, group a = some b := by
  rw [groups, List.mem_dedup, List.mem_filterMap]

theorem best_eq {a : α} {b : β} (hnodup : (items.map key).Nodup) (hmem : a ∈ items)
    (h : best group key items b = key a) : group a = some b := by
  obtain ⟨hin, -⟩ := List.minimum_eq_coe_iff.mp h
  obtain ⟨other, hother, hkey⟩ := List.mem_map.mp hin
  obtain ⟨hotherMem, hgroup⟩ := List.mem_filter.mp hother
  rw [← List.inj_on_of_nodup_map hnodup hotherMem hmem hkey]
  exact of_decide_eq_true hgroup

theorem leaders_perm (items : List α) :
    ((leaders group [] items).map Prod.fst).Perm (groups group items) := by
  refine (List.perm_ext_iff_of_nodup (leaders_nodup _ _) (List.nodup_dedup _)).mpr (fun b => ?_)
  refine Iff.trans ?_ mem_groups.symm
  constructor
  · intro h
    obtain ⟨pair, hpair, rfl⟩ := List.mem_map.mp h
    obtain ⟨hin, hgroup, -⟩ := of_mem_leaders hpair
    exact ⟨pair.2, hin, hgroup⟩
  · rintro ⟨a, ha, hgroup⟩
    exact exists_leader ha hgroup List.not_mem_nil

theorem groups_perm {items items' : List α} (h : items.Perm items') :
    (groups group items).Perm (groups group items') := (h.filterMap group).dedup

theorem leaders_sortBy (hnodup : (items.map key).Nodup) :
    (leaders group [] (sortBy key items)).map Prod.fst =
      sortBy (best group key items) (groups group items) := by
  set found := leaders group [] (sortBy key items) with hfound
  have hperm : (groups group items).Perm (found.map Prod.fst) :=
    (groups_perm (sortBy_perm key items)).symm.trans (leaders_perm _).symm
  have hkeys : ((groups group items).map (best group key items)).Nodup := by
    refine (List.nodup_dedup _).map_on (fun b hb c hc heq => ?_)
    obtain ⟨pair, hpair, rfl⟩ := List.mem_map.mp (hperm.mem_iff.mp hb)
    obtain ⟨hin, hgroup, -⟩ := of_mem_leaders hpair
    have hsame :=
      best_eq hnodup ((sortBy_perm key items).mem_iff.mp hin) (heq.symm.trans (best_leader hpair))
    rw [hgroup] at hsame
    exact Option.some.inj hsame
  have hpairwise : (found.map Prod.fst).Pairwise
      (fun b c => best group key items b ≤ best group key items c) := by
    have hitems : (found.map Prod.snd).Pairwise (fun a b => key a ≤ key b) :=
      (sortBy_pairwise key items).sublist (leaders_sublist [] _)
    rw [List.pairwise_map] at hitems
    refine List.pairwise_map.mpr (hitems.imp_of_mem (fun hx hy hle => ?_))
    rw [best_leader hx, best_leader hy]
    exact WithTop.coe_le_coe.mpr hle
  exact (sortBy_eq hperm hkeys hpairwise).symm

end Leaders
