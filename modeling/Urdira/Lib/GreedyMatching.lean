import Mathlib.Data.List.Basic

namespace GreedyMatching

variable {α β K : Type} [BEq K]

section Greedy

variable (candidates : β → List α) (ident : α → K)

def greedy : List K → List β → List (α × β)
  | _, [] => []
  | used, b :: bs =>
    match (candidates b).find? (fun a => !used.contains (ident a)) with
    | none => greedy used bs
    | some a => (a, b) :: greedy (ident a :: used) bs

variable {candidates ident} {used : List K} {a : α} {b : β} {bs : List β}

theorem greedy_none (h : (candidates b).find? (fun a => !used.contains (ident a)) = none) :
    greedy candidates ident used (b :: bs) = greedy candidates ident used bs := by
  rw [greedy, h]

theorem greedy_some (h : (candidates b).find? (fun a => !used.contains (ident a)) = some a) :
    greedy candidates ident used (b :: bs) =
      (a, b) :: greedy candidates ident (ident a :: used) bs := by
  rw [greedy, h]

variable [LawfulBEq K]

theorem mem_greedy {p : α × β} (h : p ∈ greedy candidates ident used bs) :
    p.2 ∈ bs ∧ p.1 ∈ candidates p.2 ∧ ident p.1 ∉ used := by
  induction bs generalizing used with
  | nil => cases h
  | cons b bs ih =>
    rw [greedy] at h
    split at h
    · obtain ⟨hmem, hrest⟩ := ih h
      exact ⟨List.mem_cons_of_mem _ hmem, hrest⟩
    · rename_i a hfind
      rcases List.mem_cons.mp h with rfl | h
      · exact ⟨List.mem_cons_self .., List.mem_of_find?_eq_some hfind,
          by simpa using List.find?_some hfind⟩
      · obtain ⟨hmem, hcandidate, hunused⟩ := ih h
        exact ⟨List.mem_cons_of_mem _ hmem, hcandidate,
          fun hused => hunused (List.mem_cons_of_mem _ hused)⟩

omit [LawfulBEq K] in
theorem greedy_sublist : ((greedy candidates ident used bs).map Prod.snd).Sublist bs := by
  induction bs generalizing used with
  | nil => exact .slnil
  | cons b bs ih =>
    rw [greedy]
    split
    · exact ih.cons b
    · exact ih.cons_cons b

theorem nodup_greedy : ((greedy candidates ident used bs).map (fun p => ident p.1)).Nodup := by
  induction bs generalizing used with
  | nil => exact .nil
  | cons b bs ih =>
    rw [greedy]
    split
    · exact ih
    · rename_i a hfind
      refine List.nodup_cons.mpr ⟨fun hmem => ?_, ih⟩
      obtain ⟨p, hp, heq⟩ := List.mem_map.mp hmem
      exact (mem_greedy hp).2.2 (heq ▸ List.mem_cons_self ..)

theorem greedy_maximal (hb : b ∈ bs) (ha : a ∈ candidates b) :
    b ∈ (greedy candidates ident used bs).map Prod.snd ∨ ident a ∈ used ∨
      ident a ∈ (greedy candidates ident used bs).map (fun p => ident p.1) := by
  induction bs generalizing used with
  | nil => cases hb
  | cons c bs ih =>
    rw [greedy]
    split
    · rename_i hfind
      rcases List.mem_cons.mp hb with rfl | hb
      · exact .inr (.inl (by simpa using List.find?_eq_none.mp hfind a ha))
      · exact ih hb
    · rename_i a' hfind
      rcases List.mem_cons.mp hb with rfl | hb
      · exact .inl (List.mem_cons_self ..)
      · have hrest := @ih (ident a' :: used) hb
        rcases hrest with h | h | h
        · exact .inl (List.mem_cons_of_mem _ h)
        · rcases List.mem_cons.mp h with h | h
          · exact .inr (.inr (List.mem_cons.mpr (.inl h)))
          · exact .inr (.inl h)
        · exact .inr (.inr (List.mem_cons_of_mem _ h))

end Greedy

end GreedyMatching
