import Mathlib

namespace BinarySearch

def partitionLoop (below : ℕ → Bool) : ℕ → ℕ → ℕ → ℕ
  | 0, lo, _ => lo
  | fuel + 1, lo, hi =>
    if lo < hi then
      let mid := lo + (hi - lo) / 2
      if below mid then partitionLoop below fuel (mid + 1) hi
      else partitionLoop below fuel lo mid
    else lo

def partitionPoint (n : ℕ) (below : ℕ → Bool) : ℕ := partitionLoop below n 0 n

theorem partitionLoop_spec {below : ℕ → Bool} {n : ℕ}
    (hmono : ∀ i j, i ≤ j → j < n → below j = true → below i = true) (fuel lo hi : ℕ)
    (hfuel : hi - lo ≤ fuel) (hlohi : lo ≤ hi) (hhi : hi ≤ n)
    (hlow : ∀ i < lo, below i = true) (hhigh : ∀ i, hi ≤ i → i < n → below i = false) :
    partitionLoop below fuel lo hi ≤ n ∧
      (∀ i < partitionLoop below fuel lo hi, below i = true) ∧
      ∀ i, partitionLoop below fuel lo hi ≤ i → i < n → below i = false := by
  induction fuel generalizing lo hi with
  | zero =>
    obtain rfl : lo = hi := by omega
    exact ⟨hhi, hlow, hhigh⟩
  | succ fuel ih =>
    simp only [partitionLoop]
    split_ifs with hlt hmid
    · refine ih (lo + (hi - lo) / 2 + 1) hi (by omega) (by omega) hhi ?_ hhigh
      intro i hi'
      exact hmono i (lo + (hi - lo) / 2) (by omega) (by omega) hmid
    · refine ih lo (lo + (hi - lo) / 2) (by omega) (by omega) (by omega) hlow ?_
      intro i hi' hin
      by_contra hne
      have htrue : below i = true := by simpa using hne
      exact hmid (hmono (lo + (hi - lo) / 2) i hi' hin htrue)
    · obtain rfl : lo = hi := by omega
      exact ⟨hhi, hlow, hhigh⟩

theorem partitionPoint_spec {below : ℕ → Bool} {n : ℕ}
    (hmono : ∀ i j, i ≤ j → j < n → below j = true → below i = true) :
    partitionPoint n below ≤ n ∧ (∀ i < partitionPoint n below, below i = true) ∧
      ∀ i, partitionPoint n below ≤ i → i < n → below i = false :=
  partitionLoop_spec hmono n 0 n (by omega) (by omega) le_rfl (by omega) (by omega)

variable {α K : Type}

def partitionList (below : α → Bool) (xs : List α) : ℕ :=
  partitionPoint xs.length (fun i => (xs[i]?).any below)

theorem partitionList_map {β : Type} (below : β → Bool) (f : α → β) (xs : List α) :
    partitionList below (xs.map f) = partitionList (fun a => below (f a)) xs := by
  unfold partitionList
  simp only [List.length_map, List.getElem?_map, Option.any_map]

theorem partitionList_spec {below : α → Bool} {xs : List α}
    (h : xs.Pairwise (fun a b => below b = true → below a = true)) :
    partitionList below xs ≤ xs.length ∧ xs.take (partitionList below xs) = xs.filter below ∧
      xs.drop (partitionList below xs) = xs.filter (fun a => !below a) := by
  have hget : ∀ i (hi : i < xs.length), (xs[i]?).any below = below xs[i] := by
    intro i hi
    simp [List.getElem?_eq_getElem hi]
  have hmono : ∀ i j, i ≤ j → j < xs.length → (xs[j]?).any below = true →
      (xs[i]?).any below = true := by
    intro i j hij hj hbelow
    have hi : i < xs.length := by omega
    rw [hget i hi]
    rw [hget j hj] at hbelow
    rcases Nat.lt_or_eq_of_le hij with hlt | rfl
    · exact List.pairwise_iff_getElem.mp h i j hi hj hlt hbelow
    · exact hbelow
  obtain ⟨hle, hlow, hhigh⟩ := partitionPoint_spec hmono
  have htake : ∀ a ∈ xs.take (partitionList below xs), below a = true := by
    intro a ha
    obtain ⟨i, hi, rfl⟩ := List.mem_take_iff_getElem.mp ha
    have hi' : i < xs.length := by omega
    rw [← hget i hi']
    exact hlow i (by unfold partitionList at hi; omega)
  have hdrop : ∀ a ∈ xs.drop (partitionList below xs), below a = false := by
    intro a ha
    obtain ⟨i, hi, rfl⟩ := List.mem_drop_iff_getElem.mp ha
    have hi' : partitionList below xs + i < xs.length := by omega
    rw [← hget _ hi']
    exact hhigh _ (by unfold partitionList; omega) hi'
  have hsplit := List.take_append_drop (partitionList below xs) xs
  refine ⟨hle, ?_, ?_⟩
  · conv_rhs => rw [← hsplit]
    rw [List.filter_append, List.filter_eq_self.mpr htake, List.filter_eq_nil_iff.mpr,
      List.append_nil]
    intro a ha
    simp [hdrop a ha]
  · conv_rhs => rw [← hsplit]
    rw [List.filter_append, List.filter_eq_nil_iff.mpr, List.nil_append, List.filter_eq_self.mpr]
    · intro a ha
      simp [hdrop a ha]
    · intro a ha
      simp [htake a ha]

theorem partitionList_eq_length {below : α → Bool} {xs : List α}
    (h : xs.Pairwise (fun a b => below b = true → below a = true)) :
    partitionList below xs = (xs.filter below).length := by
  obtain ⟨hle, htake, -⟩ := partitionList_spec h
  rw [← htake, List.length_take]
  omega

def slice (xs : List α) (lo hi : ℕ) : List α := (xs.drop lo).take (hi - lo)

theorem slice_partition {below within : α → Bool} {xs : List α}
    (hbelow : xs.Pairwise (fun a b => below b = true → below a = true))
    (hwithin : xs.Pairwise (fun a b => within b = true → within a = true))
    (himp : ∀ a, below a = true → within a = true) :
    slice xs (partitionList below xs) (partitionList within xs) =
      xs.filter (fun a => !below a && within a) := by
  have hsub : (xs.filter within).Pairwise (fun a b => below b = true → below a = true) :=
    hbelow.filter within
  have hlen : partitionList below (xs.filter within) = partitionList below xs := by
    rw [partitionList_eq_length hbelow, partitionList_eq_length hsub, List.filter_filter]
    congr 2
    funext a
    cases hb : below a
    · simp
    · simp [himp a hb]
  rw [slice, ← List.drop_take, (partitionList_spec hwithin).2.1, ← hlen,
    (partitionList_spec hsub).2.2,
    List.filter_filter]

section Range

variable [LinearOrder K]

def lowerBound (key : α → K) (xs : List α) (k : K) : ℕ :=
  partitionList (fun a => decide (key a < k)) xs

def upperBound (key : α → K) (xs : List α) (k : K) : ℕ :=
  partitionList (fun a => decide (key a ≤ k)) xs

def keyRange (key : α → K) (xs : List α) (k : K) : List α :=
  slice xs (lowerBound key xs k) (upperBound key xs k)

theorem pairwise_lt_of_sorted {key : α → K} {xs : List α}
    (h : xs.Pairwise (fun a b => key a ≤ key b))
    (k : K) : xs.Pairwise (fun a b => decide (key b < k) = true → decide (key a < k) = true) := by
  refine h.imp (fun hab => ?_)
  simp only [decide_eq_true_eq]
  exact lt_of_le_of_lt hab

theorem pairwise_le_of_sorted {key : α → K} {xs : List α}
    (h : xs.Pairwise (fun a b => key a ≤ key b))
    (k : K) : xs.Pairwise (fun a b => decide (key b ≤ k) = true → decide (key a ≤ k) = true) := by
  refine h.imp (fun hab => ?_)
  simp only [decide_eq_true_eq]
  exact le_trans hab

theorem keyRange_eq_filter {key : α → K} {xs : List α}
    (h : xs.Pairwise (fun a b => key a ≤ key b)) (k : K) :
    keyRange key xs k = xs.filter (fun a => decide (key a = k)) := by
  unfold keyRange lowerBound upperBound
  rw [slice_partition (pairwise_lt_of_sorted h k) (pairwise_le_of_sorted h k)]
  · refine List.filter_congr (fun a _ => ?_)
    rw [← decide_not, ← Bool.decide_and, decide_eq_decide, not_lt, le_antisymm_iff, and_comm]
  · intro a ha
    simp only [decide_eq_true_eq] at ha ⊢
    exact ha.le

theorem slice_lowerBound {key : α → K} {xs : List α} (h : xs.Pairwise (fun a b => key a ≤ key b))
    {lo hi : K} (hlohi : lo ≤ hi) :
    slice xs (lowerBound key xs lo) (lowerBound key xs hi) =
      xs.filter (fun a => decide (lo ≤ key a ∧ key a < hi)) := by
  unfold lowerBound
  rw [slice_partition (pairwise_lt_of_sorted h lo) (pairwise_lt_of_sorted h hi)]
  · refine List.filter_congr (fun a _ => ?_)
    rw [← decide_not, ← Bool.decide_and, decide_eq_decide, not_lt]
  · intro a ha
    simp only [decide_eq_true_eq] at ha ⊢
    exact lt_of_lt_of_le ha hlohi

theorem lowerBound_eq_length {key : α → K} {xs : List α}
    (h : xs.Pairwise (fun a b => key a ≤ key b)) (k : K) :
    lowerBound key xs k = (xs.filter (fun a => decide (key a < k))).length :=
  partitionList_eq_length (pairwise_lt_of_sorted h k)

def exactLoop (key : α → K) (xs : List α) (k : K) : ℕ → ℕ → ℕ → Option α
  | 0, _, _ => none
  | fuel + 1, lo, hi =>
    if lo < hi then
      let mid := lo + (hi - lo) / 2
      match xs[mid]? with
      | none => none
      | some a =>
        if key a < k then exactLoop key xs k fuel (mid + 1) hi
        else if k < key a then exactLoop key xs k fuel lo mid
        else some a
    else none

def binarySearchExact (key : α → K) (xs : List α) (k : K) : Option α :=
  exactLoop key xs k xs.length 0 xs.length

theorem exactLoop_some {key : α → K} {xs : List α} {k : K} {fuel lo hi : ℕ} {a : α}
    (h : exactLoop key xs k fuel lo hi = some a) : a ∈ xs ∧ key a = k := by
  induction fuel generalizing lo hi with
  | zero => simp [exactLoop] at h
  | succ fuel ih =>
    simp only [exactLoop] at h
    split_ifs at h
    split at h
    · cases h
    · rename_i b hb
      split_ifs at h with hlt hgt
      · exact ih h
      · exact ih h
      · obtain rfl := Option.some.inj h
        exact ⟨List.mem_of_getElem? hb, le_antisymm (not_lt.mp hgt) (not_lt.mp hlt)⟩

theorem exactLoop_isSome {key : α → K} {xs : List α} (hs : xs.Pairwise (fun a b => key a ≤ key b))
    {k : K} {fuel lo hi i : ℕ} (hfuel : hi - lo ≤ fuel) (hhi : hi ≤ xs.length) (hlo : lo ≤ i)
    (hi' : i < hi) {a : α} (ha : xs[i]? = some a) (hk : key a = k) :
    (exactLoop key xs k fuel lo hi).isSome := by
  have hmono : ∀ {i j : ℕ} {a b : α}, xs[i]? = some a → xs[j]? = some b → i ≤ j →
      key a ≤ key b := by
    intro i j a b hia hjb hij
    obtain ⟨hi, rfl⟩ := List.getElem?_eq_some_iff.mp hia
    obtain ⟨hj, rfl⟩ := List.getElem?_eq_some_iff.mp hjb
    rcases Nat.lt_or_eq_of_le hij with hlt | rfl
    · exact List.pairwise_iff_getElem.mp hs i j hi hj hlt
    · exact le_rfl
  induction fuel generalizing lo hi with
  | zero => omega
  | succ fuel ih =>
    have hmid : lo + (hi - lo) / 2 < xs.length := by omega
    simp only [exactLoop, if_pos (show lo < hi by omega), List.getElem?_eq_getElem hmid]
    split_ifs with hlt hgt
    · refine ih (by omega) hhi ?_ hi'
      by_contra hle
      have := hmono ha (List.getElem?_eq_getElem hmid) (by omega)
      exact absurd (hk ▸ this) (not_le.mpr hlt)
    · refine ih (by omega) (by omega) hlo ?_
      by_contra hle
      have := hmono (List.getElem?_eq_getElem hmid) ha (by omega)
      exact absurd (hk ▸ this) (not_le.mpr hgt)
    · rfl

theorem binarySearchExact_some {key : α → K} {xs : List α} {k : K} {a : α}
    (h : binarySearchExact key xs k = some a) : a ∈ xs ∧ key a = k :=
  exactLoop_some h

theorem binarySearchExact_none {key : α → K} {xs : List α}
    (hs : xs.Pairwise (fun a b => key a ≤ key b)) {k : K}
    (h : binarySearchExact key xs k = none) : ∀ a ∈ xs, key a ≠ k := by
  intro a ha hk
  obtain ⟨i, hi, hget⟩ := List.getElem_of_mem ha
  have hsome : (exactLoop key xs k xs.length 0 xs.length).isSome :=
    exactLoop_isSome hs (Nat.sub_le _ _) le_rfl (Nat.zero_le i) hi
      (by rw [List.getElem?_eq_getElem hi, hget]) hk
  unfold binarySearchExact at h
  simp [h] at hsome

end Range

end BinarySearch
