import Mathlib

namespace Chunks

variable {α : Type}

def chunks (size : ℕ) (xs : List α) : List (List α) :=
  (List.range ((xs.length + size - 1) / size)).map (fun i => (xs.drop (i * size)).take size)

theorem chunks_cons (size : ℕ) (o : α) (rest : List α) :
    ∃ later, chunks (size + 1) (o :: rest) = (o :: rest).take (size + 1) :: later := by
  obtain ⟨k, hk⟩ : ∃ k, ((o :: rest).length + (size + 1) - 1) / (size + 1) = k + 1 := by
    refine Nat.exists_eq_succ_of_ne_zero (Nat.ne_of_gt (Nat.div_pos ?_ (by omega)))
    simp only [List.length_cons]
    omega
  rw [chunks, hk, List.range_succ_eq_map, List.map_cons, Nat.zero_mul, List.drop_zero]
  exact ⟨_, rfl⟩

theorem chunks_flatten {size : ℕ} (hsize : 0 < size) (xs : List α) :
    (chunks size xs).flatten = xs := by
  have htake : ∀ k, ((List.range k).map (fun i => (xs.drop (i * size)).take size)).flatten =
      xs.take (k * size) := by
    intro k
    induction k with
    | zero => simp
    | succ k ih =>
      rw [List.range_succ, List.map_append, List.flatten_append, ih, List.map_singleton,
        List.flatten_singleton, Nat.succ_mul, List.take_add]
  rw [chunks, htake, List.take_of_length_le]
  have hdiv := Nat.div_add_mod (xs.length + size - 1) size
  have hmod := Nat.mod_lt (xs.length + size - 1) hsize
  rw [Nat.mul_comm]
  omega

theorem exists_full_chunk {size : ℕ} {xs : List α} (hsize : 0 < size) (h : size < xs.length) :
    ∃ chunk ∈ chunks size xs, chunk.length = size := by
  obtain ⟨size, rfl⟩ := Nat.exists_eq_succ_of_ne_zero hsize.ne'
  cases xs with
  | nil => exact absurd h (Nat.not_lt_zero _)
  | cons x xs =>
    obtain ⟨later, hchunks⟩ := chunks_cons size x xs
    rw [hchunks]
    exact ⟨_, List.mem_cons_self, List.length_take_of_le h.le⟩

theorem sublist_of_mem_chunks {size : ℕ} {xs chunk : List α} (h : chunk ∈ chunks size xs) :
    chunk.Sublist xs ∧ chunk.length ≤ size := by
  obtain ⟨i, -, rfl⟩ := List.mem_map.mp h
  exact ⟨(List.take_sublist _ _).trans (List.drop_sublist _ _), List.length_take_le _ _⟩

theorem ne_nil_of_mem_chunks {size : ℕ} {xs chunk : List α} (h : chunk ∈ chunks size xs) :
    chunk ≠ [] := by
  obtain ⟨i, hi, rfl⟩ := List.mem_map.mp h
  have hlt := List.mem_range.mp hi
  have hsize : 0 < size := by
    refine Nat.pos_of_ne_zero (fun hzero => ?_)
    rw [hzero, Nat.div_zero] at hlt
    exact Nat.not_lt_zero _ hlt
  have hblock := (Nat.le_div_iff_mul_le hsize).mp hlt
  rw [Nat.succ_mul] at hblock
  rw [← List.length_pos_iff, List.length_take, List.length_drop]
  omega

end Chunks
