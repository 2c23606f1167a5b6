import Mathlib.Data.List.Sort

namespace KeyedSort

variable {α β κ : Type} [LinearOrder κ] (key : α → κ)

def sortBy (items : List α) : List α := items.insertionSort (fun a b => key a ≤ key b)

instance totalKeys : Std.Total (fun a b : α => key a ≤ key b) :=
  ⟨fun a b => le_total (key a) (key b)⟩

instance transitiveKeys : IsTrans α (fun a b => key a ≤ key b) := ⟨fun _ _ _ => le_trans⟩

theorem sortBy_perm (items : List α) : (sortBy key items).Perm items := List.perm_insertionSort _ _

theorem sortBy_pairwise (items : List α) : (sortBy key items).Pairwise (fun a b => key a ≤ key b) :=
  List.pairwise_insertionSort _ _

theorem sortBy_sortBy (items : List α) : sortBy key (sortBy key items) = sortBy key items :=
  (sortBy_pairwise key items).insertionSort_eq

variable {key}

theorem eq_of_perm_of_pairwise {items items' : List α} (hperm : items.Perm items')
    (hnodup : (items.map key).Nodup) (h : items.Pairwise (fun a b => key a ≤ key b))
    (h' : items'.Pairwise (fun a b => key a ≤ key b)) : items = items' := by
  refine hperm.eq_of_pairwise (fun a b ha hb hab hba => ?_) h h'
  exact List.inj_on_of_nodup_map hnodup ha (hperm.mem_iff.mpr hb) (le_antisymm hab hba)

theorem sortBy_eq {items sorted : List α} (hperm : items.Perm sorted)
    (hnodup : (items.map key).Nodup)
    (h : sorted.Pairwise (fun a b => key a ≤ key b)) : sortBy key items = sorted := by
  have hsort := sortBy_perm key items
  exact eq_of_perm_of_pairwise (hsort.trans hperm) ((hsort.map key).nodup_iff.mpr hnodup)
    (sortBy_pairwise key items) h

theorem sortBy_eq_of_perm {items items' : List α} (hperm : items.Perm items')
    (hnodup : (items.map key).Nodup) :
    sortBy key items = sortBy key items' :=
  sortBy_eq (hperm.trans (sortBy_perm key items').symm) hnodup (sortBy_pairwise key items')

theorem sortBy_map {key' : β → κ} {f : α → β} (hkey : ∀ a, key' (f a) = key a) (items : List α) :
    sortBy key' (items.map f) = (sortBy key items).map f :=
  (List.map_insertionSort _ _ f items (fun a _ b _ => by rw [hkey, hkey])).symm

theorem isChain_lt_of_ne {keys : List κ} (hle : keys.IsChain (· ≤ ·)) (hne : keys.IsChain (· ≠ ·)) :
    keys.IsChain (· < ·) := by
  rw [List.isChain_iff_getElem] at hle hne ⊢
  exact fun i hi => lt_of_le_of_ne (hle i hi) (hne i hi)

theorem nodup_iff_isChain {items : List α} (h : items.Pairwise (fun a b => key a ≤ key b)) :
    (items.map key).Nodup ↔ (items.map key).IsChain (· ≠ ·) := by
  constructor
  · exact fun hnodup => hnodup.isChain
  · intro hchain
    have hle : (items.map key).IsChain (· ≤ ·) := (List.pairwise_map.mpr h).isChain
    exact (List.isChain_iff_pairwise.mp (isChain_lt_of_ne hle hchain)).imp (fun hab => hab.ne)

end KeyedSort
