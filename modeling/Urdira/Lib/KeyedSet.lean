import Mathlib

namespace KeyedSet

variable {α K : Type} [LinearOrder K]

def sortOn (key : α → K) (xs : List α) : List α := xs.insertionSort (fun a b => key a ≤ key b)

theorem sortOn_perm (key : α → K) (xs : List α) : (sortOn key xs).Perm xs :=
  List.perm_insertionSort _ xs

@[simp] theorem mem_sortOn (key : α → K) (xs : List α) (a : α) : a ∈ sortOn key xs ↔ a ∈ xs :=
  (sortOn_perm key xs).mem_iff

@[simp] theorem length_sortOn (key : α → K) (xs : List α) : (sortOn key xs).length = xs.length :=
  (sortOn_perm key xs).length_eq

theorem sortOn_pairwise (key : α → K) (xs : List α) :
    (sortOn key xs).Pairwise (fun a b => key a ≤ key b) := by
  have : Std.Total (fun a b : α => key a ≤ key b) := ⟨fun a b => le_total (key a) (key b)⟩
  have : IsTrans α (fun a b : α => key a ≤ key b) := ⟨fun _ _ _ => le_trans⟩
  exact List.pairwise_insertionSort _ xs

section Functional

omit [LinearOrder K]

def Functional (key : α → K) (xs : List α) : Prop :=
  ∀ a ∈ xs, ∀ b ∈ xs, key a = key b → a = b

theorem Functional.mono {key : α → K} {xs ys : List α} (h : Functional key ys)
    (hsub : ∀ a ∈ xs, a ∈ ys) : Functional key xs :=
  fun a ha b hb => h a (hsub a ha) b (hsub b hb)

theorem functional_of_nodup {key : α → K} {xs : List α} (h : (xs.map key).Nodup) :
    Functional key xs :=
  fun _ ha _ hb hab => List.inj_on_of_nodup_map h ha hb hab

theorem length_filter_keys_of_nodup [DecidableEq K] {key : α → K} {xs : List α} {ks : List K}
    (hx : ((xs.map key).filter (fun k => decide (k ∈ ks))).Nodup) (hk : ks.Nodup)
    (hsub : ∀ k ∈ ks, ∃ a ∈ xs, key a = k) :
    (xs.filter (fun a => decide (key a ∈ ks))).length = ks.length := by
  rw [← List.length_map (f := key)]
  rw [List.filter_map] at hx
  refine ((List.perm_ext_iff_of_nodup hx hk).mpr ?_).length_eq
  intro k
  simp only [List.mem_map, List.mem_filter, Function.comp_apply, decide_eq_true_eq]
  constructor
  · rintro ⟨a, ⟨-, hmem⟩, rfl⟩
    exact hmem
  · intro hmem
    obtain ⟨a, ha, rfl⟩ := hsub k hmem
    exact ⟨a, ⟨ha, hmem⟩, rfl⟩

theorem length_filter_keys [DecidableEq K] {key : α → K} {xs : List α} {ks : List K}
    (hx : (xs.map key).Nodup) (hk : ks.Nodup) (hsub : ∀ k ∈ ks, ∃ a ∈ xs, key a = k) :
    (xs.filter (fun a => decide (key a ∈ ks))).length = ks.length :=
  length_filter_keys_of_nodup (hx.sublist List.filter_sublist) hk hsub

theorem nodup_filter_of_fibers {I : Type} [DecidableEq I] (f : α → I) {xs : List α} {p : α → Bool}
    (h : ∀ a ∈ xs, p a = true → (xs.filter (fun b => decide (f b = f a))).Nodup) :
    (xs.filter p).Nodup := by
  refine List.nodup_iff_sublist.mpr (fun a hsub => ?_)
  have hmem : a ∈ xs.filter p := hsub.subset List.mem_cons_self
  obtain ⟨ha, hpa⟩ := List.mem_filter.mp hmem
  refine List.nodup_iff_sublist.mp (h a ha hpa) a ?_
  have hfiber := (hsub.trans List.filter_sublist).filter (fun b => decide (f b = f a))
  simpa using hfiber

theorem functional_id (xs : List K) : Functional id xs := fun _ _ _ _ h => h

theorem functional_of_value {V : Type} {xs : List (K × V)} (f : K → V)
    (h : ∀ a ∈ xs, a.2 = f a.1) : Functional Prod.fst xs := by
  intro a ha b hb hab
  exact Prod.ext hab (by rw [h a ha, h b hb, hab])

end Functional

theorem nodup_of_pairwise_lt {key : α → K} {xs : List α}
    (h : xs.Pairwise (fun a b => key a < key b)) : xs.Nodup :=
  h.imp (fun hlt heq => (heq ▸ hlt).false)

theorem eq_of_pairwise_lt {key : α → K} {xs ys : List α}
    (hx : xs.Pairwise (fun a b => key a < key b)) (hy : ys.Pairwise (fun a b => key a < key b))
    (h : ∀ a, a ∈ xs ↔ a ∈ ys) : xs = ys := by
  have hperm :=
    (List.perm_ext_iff_of_nodup (nodup_of_pairwise_lt hx) (nodup_of_pairwise_lt hy)).mpr h
  refine List.Perm.eq_of_pairwise ?_ hx hy hperm
  intro a b _ _ hab hba
  exact absurd (hab.trans hba) (lt_irrefl _)

theorem perm_eq_of_sorted {key : α → K} {xs ys : List α} (hf : Functional key xs)
    (hx : xs.Pairwise (fun a b => key a ≤ key b)) (hy : ys.Pairwise (fun a b => key a ≤ key b))
    (h : xs.Perm ys) : xs = ys := by
  refine List.Perm.eq_of_pairwise ?_ hx hy h
  intro a b ha hb hab hba
  exact hf a ha b (h.mem_iff.mpr hb) (le_antisymm hab hba)

def dedupOn (key : α → K) (xs : List α) : List α := xs.destutter (fun a b => key a ≠ key b)

def canonOn (key : α → K) (xs : List α) : List α := dedupOn key (sortOn key xs)

theorem destutter'_pairwise_lt (key : α → K) (a : α) (xs : List α)
    (hs : (a :: xs).Pairwise (fun a b => key a ≤ key b)) :
    (List.destutter' (fun a b => key a ≠ key b) a xs).Pairwise (fun a b => key a < key b) ∧
      ∀ c ∈ List.destutter' (fun a b => key a ≠ key b) a xs, key a ≤ key c := by
  induction xs generalizing a with
  | nil => simp
  | cons b xs ih =>
    have hle := (List.pairwise_cons.mp hs).1
    have hs' := (List.pairwise_cons.mp hs).2
    by_cases hab : key a ≠ key b
    · obtain ⟨hp, hmin⟩ := ih b hs'
      rw [List.destutter'_cons_pos (R := fun a b => key a ≠ key b) _ hab]
      have hlt : key a < key b := lt_of_le_of_ne (hle b (by simp)) hab
      refine ⟨List.pairwise_cons.mpr ⟨fun c hc => lt_of_lt_of_le hlt (hmin c hc), hp⟩, ?_⟩
      intro c hc
      rcases List.mem_cons.mp hc with rfl | hc
      · exact le_rfl
      · exact hlt.le.trans (hmin c hc)
    · rw [List.destutter'_cons_neg (R := fun a b => key a ≠ key b) _ hab]
      refine ih a (List.pairwise_cons.mpr ⟨fun c hc => hle c (by simp [hc]), ?_⟩)
      exact (List.pairwise_cons.mp hs').2

theorem mem_destutter' (key : α → K) (a : α) (xs : List α) (hf : Functional key (a :: xs)) (c : α) :
    c ∈ List.destutter' (fun a b => key a ≠ key b) a xs ↔ c ∈ a :: xs := by
  induction xs generalizing a with
  | nil => simp
  | cons b xs ih =>
    by_cases hab : key a ≠ key b
    · rw [List.destutter'_cons_pos (R := fun a b => key a ≠ key b) _ hab, List.mem_cons,
        ih b (hf.mono (fun x hx => List.mem_cons_of_mem _ hx)), List.mem_cons (b := a)]
    · rw [List.destutter'_cons_neg (R := fun a b => key a ≠ key b) _ hab,
        ih a (hf.mono (by simp; tauto))]
      have hba : a = b := hf a (by simp) b (by simp) (not_not.mp hab)
      simp [hba]

theorem canonOn_pairwise (key : α → K) (xs : List α) :
    (canonOn key xs).Pairwise (fun a b => key a < key b) := by
  have hs := sortOn_pairwise key xs
  unfold canonOn dedupOn
  cases h : sortOn key xs with
  | nil => simp
  | cons a ys => exact (destutter'_pairwise_lt key a ys (h ▸ hs)).1

theorem canonOn_nodup (key : α → K) (xs : List α) : (canonOn key xs).Nodup :=
  nodup_of_pairwise_lt (canonOn_pairwise key xs)

theorem mem_canonOn {key : α → K} {xs : List α} (hf : Functional key xs) (c : α) :
    c ∈ canonOn key xs ↔ c ∈ xs := by
  have hmem := mem_sortOn key xs
  have hf' : Functional key (sortOn key xs) := hf.mono (fun a ha => (hmem a).mp ha)
  rw [← hmem c]
  unfold canonOn dedupOn
  cases h : sortOn key xs with
  | nil => simp
  | cons a ys => exact mem_destutter' key a ys (h ▸ hf') c

theorem canonOn_congr {key : α → K} {xs ys : List α} (hx : Functional key xs)
    (h : ∀ a, a ∈ xs ↔ a ∈ ys) : canonOn key xs = canonOn key ys := by
  have hy : Functional key ys := hx.mono (fun a ha => (h a).mpr ha)
  refine eq_of_pairwise_lt (canonOn_pairwise key xs) (canonOn_pairwise key ys) ?_
  intro a
  rw [mem_canonOn hx, mem_canonOn hy, h]

theorem canonOn_filter {key : α → K} {xs : List α} (hf : Functional key xs) (p : α → Bool) :
    (canonOn key xs).filter p = canonOn key (xs.filter p) := by
  have hfp : Functional key (xs.filter p) := hf.mono (fun a ha => (List.mem_filter.mp ha).1)
  refine eq_of_pairwise_lt ((canonOn_pairwise key xs).filter p) (canonOn_pairwise key _) ?_
  intro a
  rw [mem_canonOn hfp, List.mem_filter, List.mem_filter, mem_canonOn hf]

theorem canonOn_perm {key : α → K} {xs : List α} (h : (xs.map key).Nodup) :
    (canonOn key xs).Perm xs :=
  (List.perm_ext_iff_of_nodup (canonOn_nodup key xs) (List.Nodup.of_map _ h)).mpr
    (mem_canonOn (functional_of_nodup h))

theorem canonOn_eq_nil {key : α → K} {xs : List α} (hf : Functional key xs) :
    canonOn key xs = [] ↔ xs = [] := by
  simp only [List.eq_nil_iff_forall_not_mem, mem_canonOn hf]

theorem length_canonOn_filter {key : α → K} {xs : List α} (hf : Functional key xs) (p : α → Bool) :
    (canonOn key xs).length =
      (canonOn key (xs.filter p)).length + (canonOn key (xs.filter (fun a => !p a))).length := by
  rw [← canonOn_filter hf, ← canonOn_filter hf]
  exact List.length_eq_length_filter_add p

theorem takeWhile_dropWhile_eq_filter (key : α → ℕ) (n : ℕ) {xs : List α}
    (hs : xs.Pairwise (fun a b => key a ≤ key b)) :
    (xs.dropWhile (fun a => decide (key a < n))).takeWhile (fun a => decide (key a < n + 1)) =
      xs.filter (fun a => decide (key a = n)) := by
  induction xs with
  | nil => rfl
  | cons a xs ih =>
    obtain ⟨hle, hs'⟩ := List.pairwise_cons.mp hs
    rcases lt_trichotomy (key a) n with hlt | heq | hgt
    · simpa [hlt, hlt.ne] using ih hs'
    · have hdrop : xs.dropWhile (fun a => decide (key a < n)) = xs := by
        cases xs with
        | nil => rfl
        | cons b xs =>
          have := hle b (by simp)
          exact List.dropWhile_cons_of_neg (by simp; omega)
      have := ih hs'
      rw [hdrop] at this
      simpa [heq] using this
    · have hnone : xs.filter (fun a => decide (key a = n)) = [] := by
        rw [List.filter_eq_nil_iff]
        intro b hb
        have := hle b hb
        simp
        omega
      rw [List.dropWhile_cons_of_neg (by simp; omega), List.takeWhile_cons_of_neg (by simp; omega),
        List.filter_cons_of_neg (by simp; omega), hnone]

section Conflict

variable {V : Type} [DecidableEq V]

def hasConflict : List (K × V) → Bool
  | a :: b :: xs => (decide (a.1 = b.1) && decide (a.2 ≠ b.2)) || hasConflict (b :: xs)
  | _ => false

theorem hasConflict_eq_false_iff {xs : List (K × V)}
    (hs : xs.Pairwise (fun a b => a.1 ≤ b.1)) : hasConflict xs = false ↔
      Functional Prod.fst xs := by
  induction xs with
  | nil => simp [hasConflict, Functional]
  | cons a xs ih =>
    cases xs with
    | nil =>
      simp only [hasConflict, true_iff]
      intro x hx y hy _
      rw [List.mem_singleton.mp hx, List.mem_singleton.mp hy]
    | cons b xs =>
      have hs' : (b :: xs).Pairwise (fun a b : K × V => a.1 ≤ b.1) := (List.pairwise_cons.mp hs).2
      have hle : ∀ c ∈ b :: xs, a.1 ≤ c.1 := (List.pairwise_cons.mp hs).1
      have hmin : ∀ c ∈ b :: xs, b.1 ≤ c.1 := by
        intro c hc
        rcases List.mem_cons.mp hc with rfl | hc
        · exact le_rfl
        · exact (List.pairwise_cons.mp hs').1 c hc
      simp only [hasConflict, Bool.or_eq_false_iff, ih hs']
      constructor
      · rintro ⟨hab, hf⟩
        have hhead : ∀ c ∈ b :: xs, a.1 = c.1 → a = c := by
          intro c hc hac
          have hba : b.1 = a.1 := le_antisymm (hac ▸ hmin c hc) (hle b (by simp))
          have hbc : b = c := hf b (by simp) c hc (hba.trans hac)
          have hv : a.2 = b.2 := by
            by_contra hne
            simp [hba, hne] at hab
          rw [← hbc]
          exact Prod.ext hba.symm hv
        intro x hx y hy hxy
        rcases List.mem_cons.mp hx with rfl | hx'
        · rcases List.mem_cons.mp hy with rfl | hy'
          · rfl
          · exact hhead y hy' hxy
        · rcases List.mem_cons.mp hy with rfl | hy'
          · exact (hhead x hx' hxy.symm).symm
          · exact hf x hx' y hy' hxy
      · intro hf
        refine ⟨?_, hf.mono (fun c hc => List.mem_cons_of_mem _ hc)⟩
        by_cases hab : a.1 = b.1
        · have := hf a (by simp) b (by simp) hab
          simp [this]
        · simp [hab]

theorem hasConflict_sortOn (xs : List (K × V)) :
    hasConflict (sortOn Prod.fst xs) = false ↔ Functional Prod.fst xs := by
  rw [hasConflict_eq_false_iff (sortOn_pairwise _ _)]
  constructor
  · intro h
    exact h.mono (fun a ha => (mem_sortOn _ _ _).mpr ha)
  · intro h
    exact h.mono (fun a ha => (mem_sortOn _ _ _).mp ha)

end Conflict

section Runs

def runs (key : α → K) : List α → List (K × List α)
  | [] => []
  | a :: xs =>
    match runs key xs with
    | [] => [(key a, [a])]
    | (k, g) :: gs => if key a = k then (k, a :: g) :: gs else (key a, [a]) :: (k, g) :: gs

theorem runs_spec (key : α → K) (xs : List α) (hs : xs.Pairwise (fun a b => key a ≤ key b)) :
    ((runs key xs).map Prod.fst).Pairwise (· < ·) ∧
      (∀ r ∈ runs key xs, r.2 = xs.filter (fun a => decide (key a = r.1))) ∧
      ∀ k, k ∈ (runs key xs).map Prod.fst ↔ ∃ a ∈ xs, key a = k := by
  induction xs with
  | nil => simp [runs]
  | cons a xs ih =>
    obtain ⟨hle, hs'⟩ := List.pairwise_cons.mp hs
    obtain ⟨hp, hg, hk⟩ := ih hs'
    simp only [runs]
    cases hr : runs key xs with
    | nil =>
      have hxs : xs = [] := by
        rw [List.eq_nil_iff_forall_not_mem]
        intro b hb
        have : key b ∈ (runs key xs).map Prod.fst := (hk _).mpr ⟨b, hb, rfl⟩
        simp [hr] at this
      simp [hxs, eq_comm]
    | cons r gs =>
      obtain ⟨k, g⟩ := r
      rw [hr] at hp hg hk
      obtain ⟨b, hb, hbk⟩ := (hk k).mp (by simp)
      have hak : key a ≤ k := hbk ▸ hle b hb
      have hlt : ∀ r ∈ gs, k < r.1 := by
        intro r hr
        exact (List.pairwise_cons.mp hp).1 r.1 (List.mem_map_of_mem hr)
      by_cases hkey : key a = k
      · simp only [hkey, if_true]
        refine ⟨hp, ?_, ?_⟩
        · intro r hr
          rcases List.mem_cons.mp hr with rfl | hr
          · have := hg (k, g) (by simp)
            simp [hkey, ← this]
          · have hne : key a ≠ r.1 := hkey ▸ (hlt r hr).ne
            simp [hne, ← hg r (by simp [hr])]
        · intro k'
          rw [List.map_cons] at hk ⊢
          rw [hk k']
          constructor
          · rintro ⟨c, hc, rfl⟩
            exact ⟨c, by simp [hc], rfl⟩
          · rintro ⟨c, hc, rfl⟩
            rcases List.mem_cons.mp hc with rfl | hc
            · exact ⟨b, hb, by rw [hbk, hkey]⟩
            · exact ⟨c, hc, rfl⟩
      · simp only [hkey, if_false]
        have halt : key a < k := lt_of_le_of_ne hak hkey
        have hgt : ∀ r ∈ (k, g) :: gs, key a < r.1 := by
          intro r hr
          rcases List.mem_cons.mp hr with rfl | hr
          · exact halt
          · exact halt.trans (hlt r hr)
        refine ⟨?_, ?_, ?_⟩
        · refine List.pairwise_cons.mpr ⟨?_, hp⟩
          intro k' hk'
          obtain ⟨r, hr, rfl⟩ := List.mem_map.mp hk'
          exact hgt r hr
        · intro r hr
          rcases List.mem_cons.mp hr with rfl | hr
          · have hnone : xs.filter (fun c => decide (key c = key a)) = [] := by
              rw [List.filter_eq_nil_iff]
              intro c hc
              obtain ⟨r, hr, hrk⟩ := List.mem_map.mp ((hk (key c)).mpr ⟨c, hc, rfl⟩)
              have := hgt r hr
              rw [hrk] at this
              simpa using this.ne'
            simp [hnone]
          · rw [List.filter_cons_of_neg (by simpa using (hgt r hr).ne), ← hg r hr]
        · intro k'
          rw [List.map_cons, List.mem_cons, hk k']
          constructor
          · rintro (rfl | ⟨c, hc, rfl⟩)
            · exact ⟨a, by simp, rfl⟩
            · exact ⟨c, by simp [hc], rfl⟩
          · rintro ⟨c, hc, rfl⟩
            rcases List.mem_cons.mp hc with rfl | hc
            · exact Or.inl rfl
            · exact Or.inr ⟨c, hc, rfl⟩

def fillRuns {β : Type} (value : List α → β) (init : K → β) (rs : List (K × List α)) : K → β :=
  rs.foldl (fun c r => Function.update c r.1 (value r.2)) init

theorem fillRuns_of_notMem {β : Type} (value : List α → β) (init : K → β) (rs : List (K × List α))
    (k : K) (h : k ∉ rs.map Prod.fst) : fillRuns value init rs k = init k := by
  induction rs generalizing init with
  | nil => rfl
  | cons r rs ih =>
    simp only [List.map_cons, List.mem_cons, not_or] at h
    have := ih (Function.update init r.1 (value r.2)) h.2
    rwa [Function.update_of_ne h.1] at this

theorem fillRuns_of_mem {β : Type} (value : List α → β) (init : K → β) (rs : List (K × List α))
    (hp : (rs.map Prod.fst).Pairwise (· < ·)) (r : K × List α) (hr : r ∈ rs) :
    fillRuns value init rs r.1 = value r.2 := by
  induction rs generalizing init with
  | nil => simp at hr
  | cons s rs ih =>
    rw [List.map_cons, List.pairwise_cons] at hp
    rcases List.mem_cons.mp hr with rfl | hr
    · have hnot : r.1 ∉ rs.map Prod.fst := fun hmem => (hp.1 _ hmem).false
      have := fillRuns_of_notMem value (Function.update init r.1 (value r.2)) rs r.1 hnot
      rwa [Function.update_self] at this
    · exact ih (Function.update init s.1 (value s.2)) hp.2 hr

theorem fillRuns_runs {β : Type} (key : α → K) (value : List α → β) (xs : List α)
    (hs : xs.Pairwise (fun a b => key a ≤ key b)) (k : K) :
    fillRuns value (fun _ => value []) (runs key xs) k =
      value (xs.filter (fun a => decide (key a = k))) := by
  obtain ⟨hp, hg, hk⟩ := runs_spec key xs hs
  by_cases hmem : k ∈ (runs key xs).map Prod.fst
  · obtain ⟨r, hr, rfl⟩ := List.mem_map.mp hmem
    rw [fillRuns_of_mem value _ _ hp r hr, hg r hr]
  · have hnone : xs.filter (fun a => decide (key a = k)) = [] := by
      rw [List.filter_eq_nil_iff]
      intro a ha hak
      exact hmem ((hk k).mpr ⟨a, ha, by simpa using hak⟩)
    rw [fillRuns_of_notMem value _ _ k hmem, hnone]

end Runs

end KeyedSet
