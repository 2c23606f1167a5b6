import Mathlib

namespace Interleaving

variable {α μ : Type}

inductive Interleaves : List (μ × List α) → List α → List μ → Prop
  | done : Interleaves [] [] []
  | more {before after : List (μ × List α)} {m : μ} {x : α} {xs stream : List α} {order : List μ}
      (hxs : xs ≠ [])
      (h : Interleaves (before ++ (m, xs) :: after) stream order) :
      Interleaves (before ++ (m, x :: xs) :: after) (x :: stream) order
  | last {before after : List (μ × List α)} {m : μ} {x : α} {stream : List α} {order : List μ}
      (h : Interleaves (before ++ after) stream order) :
      Interleaves (before ++ (m, [x]) :: after) (x :: stream) (m :: order)

theorem Interleaves.perm {sources : List (μ × List α)} {stream : List α} {order : List μ}
    (h : Interleaves sources stream order) : order.Perm (sources.map Prod.fst) := by
  induction h with
  | done => exact .nil
  | more hxs h ih =>
    rw [List.map_append, List.map_cons] at ih ⊢
    exact ih
  | last h ih =>
    rw [List.map_append] at ih
    rw [List.map_append, List.map_cons]
    exact (ih.cons _).trans List.perm_middle.symm

end Interleaving
