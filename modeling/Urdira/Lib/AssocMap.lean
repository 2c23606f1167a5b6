import Mathlib

namespace AssocMap

variable {K V : Type} [DecidableEq K]

def insert (m : List (K × V)) (k : K) (v : V) : List (K × V) :=
  (k, v) :: m.filter (fun e => decide (e.1 ≠ k))

def get (m : List (K × V)) (k : K) : Option V := m.lookup k

def erase (m : List (K × V)) (k : K) : List (K × V) := m.filter (fun e => decide (e.1 ≠ k))

def insertAll (m entries : List (K × V)) : List (K × V) :=
  entries.foldl (fun m e => insert m e.1 e.2) m

theorem get_insert_self (m : List (K × V)) (k : K) (v : V) : get (insert m k v) k = some v := by
  simp [get, insert]

theorem lookup_filter_ne (m : List (K × V)) {k k' : K} (h : k' ≠ k) :
    (m.filter (fun e => decide (e.1 ≠ k))).lookup k' = m.lookup k' := by
  induction m with
  | nil => rfl
  | cons e m ih =>
    obtain ⟨a, b⟩ := e
    by_cases hak : a = k
    · subst hak
      have hbeq : (k' == a) = false := by simpa using h
      simpa [List.lookup_cons, hbeq] using ih
    · rw [List.filter_cons_of_pos (by simpa using hak), List.lookup_cons, List.lookup_cons, ih]

theorem get_insert_ne (m : List (K × V)) {k k' : K} (v : V) (h : k' ≠ k) :
    get (insert m k v) k' = get m k' := by
  have hbeq : (k' == k) = false := by simpa using h
  simp only [get, insert, List.lookup_cons, hbeq]
  exact lookup_filter_ne m h

theorem get_erase_ne (m : List (K × V)) {k k' : K} (h : k' ≠ k) : get (erase m k) k' = get m k' :=
  lookup_filter_ne m h

theorem get_insertAll_of_notMem (m entries : List (K × V)) {k : K}
    (h : k ∉ entries.map Prod.fst) : get (insertAll m entries) k = get m k := by
  induction entries generalizing m with
  | nil => rfl
  | cons e entries ih =>
    simp only [List.map_cons, List.mem_cons, not_or] at h
    change get (insertAll (insert m e.1 e.2) entries) k = _
    rw [ih _ h.2, get_insert_ne _ _ h.1]

theorem get_insertAll_of_const (m entries : List (K × V)) {k : K} {v : V}
    (h : k ∈ entries.map Prod.fst) (hv : ∀ e ∈ entries, e.2 = v) :
    get (insertAll m entries) k = some v := by
  induction entries generalizing m with
  | nil => simp at h
  | cons e entries ih =>
    change get (insertAll (insert m e.1 e.2) entries) k = _
    by_cases hmem : k ∈ entries.map Prod.fst
    · exact ih _ hmem (fun e' he' => hv e' (by simp [he']))
    · rw [get_insertAll_of_notMem _ _ hmem]
      rw [List.map_cons, List.mem_cons] at h
      obtain rfl : k = e.1 := h.resolve_right hmem
      rw [get_insert_self, hv e (by simp)]

theorem get_insertAll_of_mem {entries : List (K × V)} (hnodup : (entries.map Prod.fst).Nodup)
    (m : List (K × V)) {k : K} {v : V} (h : (k, v) ∈ entries) :
    get (insertAll m entries) k = some v := by
  induction entries generalizing m with
  | nil => cases h
  | cons e entries ih =>
    rw [List.map_cons, List.nodup_cons] at hnodup
    change get (insertAll (insert m e.1 e.2) entries) k = _
    rcases List.mem_cons.mp h with rfl | hrest
    · rw [get_insertAll_of_notMem _ _ hnodup.1, get_insert_self]
    · exact ih hnodup.2 _ hrest

theorem mem_keys_insert (m : List (K × V)) (k k' : K) (v : V) :
    k' ∈ (insert m k v).map Prod.fst ↔ k' = k ∨ k' ∈ m.map Prod.fst := by
  simp only [insert, List.map_cons, List.mem_cons, List.mem_map, List.mem_filter, decide_eq_true_eq]
  constructor
  · rintro (rfl | ⟨e, ⟨he, _⟩, rfl⟩)
    · exact Or.inl rfl
    · exact Or.inr ⟨e, he, rfl⟩
  · rintro (rfl | ⟨e, he, rfl⟩)
    · exact Or.inl rfl
    · by_cases hek : e.1 = k
      · exact Or.inl hek
      · exact Or.inr ⟨e, ⟨he, hek⟩, rfl⟩

theorem mem_keys_insertAll (m entries : List (K × V)) (k : K) :
    k ∈ (insertAll m entries).map Prod.fst ↔ k ∈ m.map Prod.fst ∨ k ∈ entries.map Prod.fst := by
  induction entries generalizing m with
  | nil => simp [insertAll]
  | cons e entries ih =>
    change k ∈ (insertAll (insert m e.1 e.2) entries).map Prod.fst ↔ _
    rw [ih, mem_keys_insert, List.map_cons, List.mem_cons]
    tauto

theorem nodup_insert {m : List (K × V)} (h : (m.map Prod.fst).Nodup) (k : K) (v : V) :
    ((insert m k v).map Prod.fst).Nodup := by
  rw [insert, List.map_cons, List.nodup_cons]
  constructor
  · intro hmem
    obtain ⟨e, he, hek⟩ := List.mem_map.mp hmem
    simpa [hek] using (List.mem_filter.mp he).2
  · exact h.sublist (List.filter_sublist.map _)

theorem nodup_insertAll {m : List (K × V)} (h : (m.map Prod.fst).Nodup) (entries : List (K × V)) :
    ((insertAll m entries).map Prod.fst).Nodup := by
  induction entries generalizing m with
  | nil => exact h
  | cons e entries ih => exact ih (nodup_insert h e.1 e.2)

theorem values_insertAll {P : V → Prop} {m entries : List (K × V)} (hm : ∀ e ∈ m, P e.2)
    (he : ∀ e ∈ entries, P e.2) : ∀ e ∈ insertAll m entries, P e.2 := by
  induction entries generalizing m with
  | nil => exact hm
  | cons e entries ih =>
    refine ih ?_ (fun e' he' => he e' (by simp [he']))
    intro e' he'
    rcases List.mem_cons.mp he' with rfl | he'
    · exact he e (by simp)
    · exact hm e' (List.mem_filter.mp he').1

theorem get_eq_none_iff (m : List (K × V)) (k : K) : get m k = none ↔ k ∉ m.map Prod.fst := by
  unfold get
  rw [List.lookup_eq_none_iff]
  simp only [List.mem_map, not_exists, not_and, bne_iff_ne, ne_eq]
  exact forall₂_congr (fun e _ => not_congr eq_comm)

theorem mem_of_get {m : List (K × V)} {k : K} {v : V} (h : get m k = some v) : (k, v) ∈ m := by
  obtain ⟨l₁, l₂, hm, -⟩ := List.lookup_eq_some_iff.mp h
  simp [hm]

theorem get_of_mem {m : List (K × V)} (hnodup : (m.map Prod.fst).Nodup) {k : K} {v : V}
    (h : (k, v) ∈ m) : get m k = some v := by
  cases hget : get m k with
  | none => exact absurd (List.mem_map_of_mem h) ((get_eq_none_iff m k).mp hget)
  | some w => rw [(Prod.mk.inj (List.inj_on_of_nodup_map hnodup (mem_of_get hget) h rfl)).2]

theorem get_perm {m m' : List (K × V)} (h : m.Perm m') (hnodup : (m.map Prod.fst).Nodup) (k : K) :
    get m k = get m' k := by
  cases hget : get m k with
  | none =>
    have hkeys := (h.map Prod.fst).mem_iff (a := k)
    exact ((get_eq_none_iff m' k).mpr (fun hmem =>
      (get_eq_none_iff m k).mp hget (hkeys.mpr hmem))).symm
  | some v =>
    have hmem := h.subset (mem_of_get hget)
    exact (get_of_mem ((h.map Prod.fst).nodup_iff.mp hnodup) hmem).symm

theorem get_append (m m' : List (K × V)) (k : K) : get (m ++ m') k = (get m k).or (get m' k) := by
  unfold get
  rw [List.lookup_append]

theorem get_erase_self (m : List (K × V)) (k : K) : get (erase m k) k = none := by
  rw [get_eq_none_iff]
  simp [erase]

theorem mem_keys_erase (m : List (K × V)) (k k' : K) :
    k' ∈ (erase m k).map Prod.fst ↔ k' ∈ m.map Prod.fst ∧ k' ≠ k := by
  simp only [erase, List.mem_map, List.mem_filter, decide_eq_true_eq]
  constructor
  · rintro ⟨e, ⟨he, hne⟩, rfl⟩
    exact ⟨⟨e, he, rfl⟩, hne⟩
  · rintro ⟨⟨e, he, rfl⟩, hne⟩
    exact ⟨e, ⟨he, hne⟩, rfl⟩

theorem erase_of_notMem {m : List (K × V)} {k : K} (h : k ∉ m.map Prod.fst) : erase m k = m := by
  rw [erase, List.filter_eq_self]
  intro e he
  simp only [decide_eq_true_eq]
  rintro rfl
  exact h (List.mem_map_of_mem he)

theorem insert_of_notMem {m : List (K × V)} {k : K} (h : k ∉ m.map Prod.fst) (v : V) :
    insert m k v = (k, v) :: m := by
  have herase := erase_of_notMem h
  rw [insert]
  rw [erase] at herase
  rw [herase]

theorem get_map_values {W : Type} (f : V → W) (m : List (K × V)) (k : K) :
    get (m.map (fun e => (e.1, f e.2))) k = (get m k).map f := by
  unfold get
  induction m with
  | nil => rfl
  | cons e m ih =>
    rw [List.map_cons, List.lookup_cons, List.lookup_cons, ih]
    split <;> rfl

end AssocMap
