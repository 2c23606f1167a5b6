import Mathlib.Data.List.MinMax
import Mathlib.Data.Prod.Lex
import Mathlib.Order.OrderDual

namespace Argmax

variable {α β γ : Type} [DecidableEq α] [LinearOrder β] [LinearOrder γ]

theorem argmax_eq_some_of_injOn {f : α → β} {xs : List α}
    (hf : ∀ a ∈ xs, ∀ b ∈ xs, f a = f b → a = b) {m : α} (hm : m ∈ xs)
    (hmax : ∀ a ∈ xs, f a ≤ f m) :
    xs.argmax f = some m := by
  refine List.argmax_eq_some_iff.mpr ⟨hm, hmax, ?_⟩
  intro a ha hle
  rw [hf a ha m hm (le_antisymm (hmax a ha) hle)]

theorem argmax_perm {f : α → β} {xs ys : List α} (hf : ∀ a ∈ xs, ∀ b ∈ xs, f a = f b → a = b)
    (h : xs.Perm ys) : ys.argmax f = xs.argmax f := by
  cases hm : xs.argmax f with
  | none =>
    rw [List.argmax_eq_none] at hm ⊢
    rw [hm] at h
    exact h.symm.eq_nil
  | some m =>
    obtain ⟨hmem, hmax, -⟩ := List.argmax_eq_some_iff.mp hm
    refine argmax_eq_some_of_injOn ?_ (h.mem_iff.mp hmem) ?_
    · intro a ha b hb
      exact hf a (h.mem_iff.mpr ha) b (h.mem_iff.mpr hb)
    · intro a ha
      exact hmax a (h.mem_iff.mpr ha)

theorem argmax_map {δ : Type} [DecidableEq δ] {f : δ → β} {g : α → δ} {xs : List α}
    (hf : ∀ a ∈ xs.map g, ∀ b ∈ xs.map g, f a = f b → a = b) :
    (xs.map g).argmax f = (xs.argmax (fun a => f (g a))).map g := by
  cases hm : xs.argmax (fun a => f (g a)) with
  | none =>
    rw [List.argmax_eq_none] at hm
    rw [hm]
    rfl
  | some m =>
    obtain ⟨hmem, hmax, -⟩ := List.argmax_eq_some_iff.mp hm
    refine argmax_eq_some_of_injOn hf (List.mem_map_of_mem hmem) ?_
    intro b hb
    obtain ⟨a, ha, rfl⟩ := List.mem_map.mp hb
    exact hmax a ha

theorem argmax_eq_argmax_lex {f : α → β} {g : α → γ} {xs : List α}
    (h : xs.Pairwise (fun a b => f a = f b → g a ≤ g b)) :
    xs.argmax f = xs.argmax (fun a => (toLex (f a, OrderDual.toDual (g a)) : β ×ₗ γᵒᵈ)) := by
  cases hm : xs.argmax f with
  | none =>
    rw [List.argmax_eq_none] at hm
    rw [hm]
    rfl
  | some m =>
    obtain ⟨hmem, hmax, hidx⟩ := List.argmax_eq_some_iff.mp hm
    refine (List.argmax_eq_some_iff.mpr ⟨hmem, ?_, ?_⟩).symm
    · intro a ha
      rw [Prod.Lex.toLex_le_toLex]
      rcases lt_or_eq_of_le (hmax a ha) with hlt | heq
      · exact Or.inl hlt
      · refine Or.inr ⟨heq, OrderDual.toDual_le_toDual.mpr ?_⟩
        rcases Nat.lt_or_eq_of_le (hidx a ha heq.ge) with hlt | hsame
        · have hi : xs.idxOf m < xs.length := List.idxOf_lt_length_of_mem hmem
          have hj : xs.idxOf a < xs.length := List.idxOf_lt_length_of_mem ha
          have hpair := List.pairwise_iff_getElem.mp h _ _ hi hj hlt
          rw [List.getElem_idxOf hi, List.getElem_idxOf hj] at hpair
          exact hpair heq.symm
        · rw [List.idxOf_inj hmem |>.mp hsame]
    · intro a ha hle
      refine hidx a ha ?_
      rw [Prod.Lex.toLex_le_toLex] at hle
      rcases hle with hlt | ⟨heq, -⟩
      · exact hlt.le
      · exact heq.le

end Argmax
