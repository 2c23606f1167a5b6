import Mathlib.Data.List.Basic

namespace Distance

variable {α : Type} {arc : α → α → Prop} {root : α → Prop}

inductive Walk (arc : α → α → Prop) (root : α → Prop) : ℕ → α → Prop where
  | root {x : α} (h : root x) : Walk arc root 0 x
  | step {n : ℕ} {x y : α} (h : Walk arc root n x) (harc : arc x y) : Walk arc root (n + 1) y

def IsDistance (arc : α → α → Prop) (root : α → Prop) (x : α) (d : ℕ) : Prop :=
  Walk arc root d x ∧ ∀ n, Walk arc root n x → d ≤ n

structure Expanded (arc : α → α → Prop) (root : α → Prop) (bound index : ℕ) (queue : List (α × ℕ)) :
    Prop where
  roots : ∀ x, root x → (x, 0) ∈ queue
  walks : ∀ e ∈ queue, Walk arc root e.2 e.1
  closed : ∀ i x d y, i < index → queue[i]? = some (x, d) → d < bound → arc x y → ∃ d' ≤ d + 1,
    (y, d') ∈ queue

theorem Expanded.extend {bound index : ℕ} {queue rest : List (α × ℕ)} {x : α} {d : ℕ}
    (h : Expanded arc root bound index queue) (hwalks : ∀ e ∈ rest, Walk arc root e.2 e.1)
    (hcurrent : queue[index]? = some (x, d))
    (hnew : d < bound → ∀ y, arc x y → ∃ d' ≤ d + 1, (y, d') ∈ queue ++ rest) :
    Expanded arc root bound (index + 1) (queue ++ rest) := by
  refine ⟨fun y hy => List.mem_append_left _ (h.roots y hy), fun e he => ?_, ?_⟩
  · exact (List.mem_append.mp he).elim (h.walks e) (hwalks e)
  · intro i y d' z hi hget hd' harc
    have hindex : index < queue.length := (List.getElem?_eq_some_iff.mp hcurrent).1
    rw [List.getElem?_append_left (by omega)] at hget
    rcases Nat.lt_succ_iff_lt_or_eq.mp hi with hlt | rfl
    · obtain ⟨d'', hle, hmem⟩ := h.closed i y d' z hlt hget hd' harc
      exact ⟨d'', hle, List.mem_append_left _ hmem⟩
    · obtain ⟨rfl, rfl⟩ := Prod.mk.inj (Option.some.inj (hcurrent.symm.trans hget))
      exact hnew hd' z harc

theorem Expanded.all {bound index : ℕ} {queue : List (α × ℕ)}
    (h : Expanded arc root bound index queue)
    (hle : queue.length ≤ index) : Expanded arc root bound queue.length queue :=
  ⟨h.roots, h.walks, fun i x d y hi => h.closed i x d y (Nat.lt_of_lt_of_le hi hle)⟩

theorem Expanded.complete {bound : ℕ} {queue : List (α × ℕ)}
    (h : Expanded arc root bound queue.length queue) {n : ℕ} {x : α} (hwalk : Walk arc root n x)
    (hn : n ≤ bound) : ∃ d ≤ n, (x, d) ∈ queue := by
  induction hwalk with
  | root hroot => exact ⟨0, Nat.le_refl 0, h.roots _ hroot⟩
  | @step n x y _ harc ih =>
    obtain ⟨d, hd, hmem⟩ := ih (by omega)
    obtain ⟨i, hi⟩ := List.mem_iff_getElem?.mp hmem
    have hlt : i < queue.length := (List.getElem?_eq_some_iff.mp hi).1
    obtain ⟨d', hd', hmem'⟩ := h.closed i x d y hlt hi (by omega) harc
    exact ⟨d', by omega, hmem'⟩

theorem Expanded.isDistance {bound : ℕ} {queue : List (α × ℕ)}
    (h : Expanded arc root bound queue.length queue) {x : α} {d : ℕ} (hmem : (x, d) ∈ queue)
    (hd : d ≤ bound)
    (hunique : ∀ d', (x, d') ∈ queue → d' = d) : IsDistance arc root x d := by
  refine ⟨h.walks _ hmem, fun n hwalk => ?_⟩
  rcases Nat.lt_or_ge n d with hlt | hge
  · obtain ⟨d', hd', hmem'⟩ := h.complete hwalk (by omega)
    have heq := hunique d' hmem'
    omega
  · exact hge

end Distance
