import Mathlib

namespace LastIndex

variable {α : Type} [DecidableEq α]

def lastIndexOf (xs : List α) (a : α) : Option ℕ :=
  xs.zipIdx.foldl (fun found p => if p.1 = a then some p.2 else found) none

theorem lastIndexOf_some {xs : List α} {a : α} {i : ℕ} (h : lastIndexOf xs a = some i) :
    xs[i]? = some a := by
  have key : ∀ (ys : List (α × ℕ)) (found : Option ℕ), (∀ p ∈ ys, xs[p.2]? = some p.1) →
      (∀ j, found = some j → xs[j]? = some a) → ∀ j,
      ys.foldl (fun found p => if p.1 = a then some p.2 else found) found = some j →
        xs[j]? = some a := by
    intro ys
    induction ys with
    | nil =>
      intro found _ hfound j hj
      exact hfound j hj
    | cons p ys ih =>
      intro found hys hfound j hj
      refine ih _ (fun q hq => hys q (by simp [hq])) ?_ j hj
      intro k hk
      by_cases hp : p.1 = a
      · simp only [hp, if_true, Option.some.injEq] at hk
        rw [← hk, hys p (by simp), hp]
      · simp only [hp, if_false] at hk
        exact hfound k hk
  refine key xs.zipIdx none ?_ (by simp) i h
  rintro ⟨b, j⟩ hmem
  exact List.mem_zipIdx_iff_getElem?.mp hmem

theorem lastIndexOf_isSome {xs : List α} {a : α} (h : a ∈ xs) : (lastIndexOf xs a).isSome := by
  have key : ∀ (ys : List (α × ℕ)) (found : Option ℕ), (∃ p ∈ ys, p.1 = a) ∨ found.isSome →
      (ys.foldl (fun found p => if p.1 = a then some p.2 else found) found).isSome := by
    intro ys
    induction ys with
    | nil =>
      rintro found (⟨p, hp, _⟩ | hf)
      · simp at hp
      · exact hf
    | cons p ys ih =>
      intro found hor
      apply ih
      by_cases hp : p.1 = a
      · simp [hp]
      · simp only [hp, if_false]
        rcases hor with ⟨q, hq, hqa⟩ | hf
        · rcases List.mem_cons.mp hq with rfl | hq
          · exact absurd hqa hp
          · exact Or.inl ⟨q, hq, hqa⟩
        · exact Or.inr hf
  refine key _ _ (Or.inl ?_)
  obtain ⟨i, hi, rfl⟩ := List.getElem_of_mem h
  exact ⟨(xs[i], i), List.mem_zipIdx_iff_getElem?.mpr (by simp [hi]), rfl⟩

end LastIndex
