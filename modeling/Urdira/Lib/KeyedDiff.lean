import Mathlib

namespace KeyedDiff

variable {α β K : Type}

section Firsts

variable [LinearOrder K] (key : α → Option K)

def firsts : Option K → List α → List α
  | _, [] => []
  | previous, a :: as =>
    match key a with
    | none => firsts previous as
    | some k => if previous = some k then firsts previous as else a :: firsts (some k) as

def Ordered (previous : Option K) (as : List α) : Prop :=
  (previous.toList ++ as.filterMap key).Pairwise (· ≤ ·)

def IsFirst (as : List α) (a : α) : Prop :=
  ∃ before after, as = before ++ a :: after ∧ key a ≠ none ∧ ∀ b ∈ before, key b ≠ key a

variable {key} {previous : Option K} {a : α} {as : List α} {k : K}

omit [LinearOrder K] in
theorem isFirst_cons {c : α} : IsFirst key (c :: as) a ↔
    (c = a ∧ key a ≠ none) ∨ (key c ≠ key a ∧ IsFirst key as a) := by
  constructor
  · rintro ⟨before, after, heq, hsome, hnot⟩
    cases before with
    | nil => exact .inl ⟨(List.cons.inj heq).1, hsome⟩
    | cons b before =>
      obtain ⟨rfl, htail⟩ := List.cons.inj heq
      exact .inr ⟨hnot c (by simp), before, after, htail, hsome, fun b hb => hnot b (by simp [hb])⟩
  · rintro (⟨rfl, hsome⟩ | ⟨hne, before, after, rfl, hsome, hnot⟩)
    · exact ⟨[], as, rfl, hsome, by simp⟩
    · exact ⟨c :: before, after, rfl, hsome, List.forall_mem_cons.mpr ⟨hne, hnot⟩⟩

omit [LinearOrder K] in
theorem IsFirst.mem (h : IsFirst key as a) : a ∈ as := by
  obtain ⟨before, after, rfl, -, -⟩ := h
  simp

omit [LinearOrder K] in
theorem IsFirst.key_ne_none (h : IsFirst key as a) : key a ≠ none := by
  obtain ⟨-, -, -, hsome, -⟩ := h
  exact hsome

omit [LinearOrder K] in
theorem exists_isFirst {k : K} : (∃ a ∈ as, key a = some k) ↔ ∃ a, IsFirst key as a ∧
      key a = some k := by
  constructor
  · rintro ⟨a, ha, hk⟩
    induction as with
    | nil => cases ha
    | cons c as ih =>
      by_cases hc : key c = some k
      · exact ⟨c, isFirst_cons.mpr (.inl ⟨rfl, by simp [hc]⟩), hc⟩
      · rcases List.mem_cons.mp ha with rfl | ha
        · exact absurd hk hc
        · obtain ⟨b, hb, hbk⟩ := ih ha
          exact ⟨b, isFirst_cons.mpr (.inr ⟨by rw [hbk]; exact hc, hb⟩), hbk⟩
  · rintro ⟨a, ha, hk⟩
    exact ⟨a, ha.mem, hk⟩

theorem Ordered.tail_none (h : Ordered key previous (a :: as)) (hk : key a = none) :
    Ordered key previous as := by
  rwa [Ordered, List.filterMap_cons_none hk] at h

theorem Ordered.tail_some (h : Ordered key previous (a :: as)) (hk : key a = some k) :
    Ordered key (some k) as := by
  rw [Ordered, List.filterMap_cons_some hk] at h
  exact (List.pairwise_append.mp h).2.1

theorem Ordered.previous_le (h : Ordered key previous (a :: as)) (hk : key a = some k) :
    ∀ p ∈ previous, p ≤ k := by
  intro p hp
  rw [Ordered, List.filterMap_cons_some hk] at h
  exact (List.pairwise_append.mp h).2.2 p (Option.mem_toList.mpr hp) k (List.mem_cons_self ..)

theorem Ordered.le_key (h : Ordered key (some k) as) (ha : a ∈ as) : ∀ l ∈ key a, k ≤ l := by
  intro l hl
  exact (List.pairwise_append.mp h).2.2 k (by simp) l (List.mem_filterMap.mpr ⟨a, ha, hl⟩)

theorem mem_firsts (h : Ordered key previous as) :
    a ∈ firsts key previous as ↔ IsFirst key as a ∧ key a ≠ previous := by
  induction as generalizing previous with
  | nil =>
    refine iff_of_false List.not_mem_nil ?_
    rintro ⟨hfirst, -⟩
    exact List.not_mem_nil hfirst.mem
  | cons c as ih =>
    rw [isFirst_cons]
    cases hc : key c with
    | none =>
      rw [firsts, hc, ih (h.tail_none hc)]
      constructor
      · rintro ⟨hfirst, hne⟩
        exact ⟨.inr ⟨fun heq => hfirst.key_ne_none heq.symm, hfirst⟩, hne⟩
      · rintro ⟨⟨rfl, hsome⟩ | ⟨-, hfirst⟩, hne⟩
        · exact absurd hc hsome
        · exact ⟨hfirst, hne⟩
    | some k =>
      simp only [firsts, hc]
      split_ifs with hprev
      · subst hprev
        rw [ih (h.tail_some hc)]
        constructor
        · rintro ⟨hfirst, hne⟩
          exact ⟨.inr ⟨Ne.symm hne, hfirst⟩, hne⟩
        · rintro ⟨⟨rfl, -⟩ | ⟨-, hfirst⟩, hne⟩
          · exact absurd hc hne
          · exact ⟨hfirst, hne⟩
      · rw [List.mem_cons, ih (h.tail_some hc)]
        constructor
        · rintro (rfl | ⟨hfirst, hne⟩)
          · exact ⟨.inl ⟨rfl, by simp [hc]⟩, by rw [hc]; exact Ne.symm hprev⟩
          · refine ⟨.inr ⟨Ne.symm hne, hfirst⟩, fun heq => ?_⟩
            obtain ⟨l, hl⟩ := Option.ne_none_iff_exists'.mp hfirst.key_ne_none
            have hle := h.previous_le hc l (by rw [← heq, hl]; rfl)
            have hge := (h.tail_some hc).le_key hfirst.mem l hl
            exact hprev (by rw [← heq, hl, le_antisymm hle hge])
        · rintro ⟨⟨rfl, -⟩ | ⟨hne, hfirst⟩, -⟩
          · exact .inl rfl
          · exact .inr ⟨hfirst, Ne.symm hne⟩

def Precedes (key : α → Option K) (a b : α) : Prop := ∃ k ∈ key a, ∃ l ∈ key b, k < l

theorem pairwise_firsts (h : Ordered key previous as) :
    (firsts key previous as).Pairwise (Precedes key) := by
  induction as generalizing previous with
  | nil => exact .nil
  | cons c as ih =>
    cases hc : key c with
    | none =>
      rw [firsts, hc]
      exact ih (h.tail_none hc)
    | some k =>
      simp only [firsts, hc]
      split_ifs with hprev
      · subst hprev
        exact ih (h.tail_some hc)
      · refine .cons (fun a ha => ?_) (ih (h.tail_some hc))
        obtain ⟨hfirst, hne⟩ := (mem_firsts (h.tail_some hc)).mp ha
        obtain ⟨l, hl⟩ := Option.ne_none_iff_exists'.mp hfirst.key_ne_none
        refine ⟨k, hc, l, hl, lt_of_le_of_ne ((h.tail_some hc).le_key hfirst.mem l hl) ?_⟩
        rintro rfl
        exact hne hl

end Firsts

section Merge

variable [LinearOrder K] (key : α → K)

def Increasing (as : List α) : Prop := as.Pairwise (fun a b => key a < key b)

def onlyIn (as bs : List α) : List α := as.filter (fun a => decide (∀ b ∈ bs, key b ≠ key a))

def common (as bs : List α) : List (α × α) :=
  as.filterMap (fun a => (bs.find? (fun b => decide (key b = key a))).map (fun b => (a, b)))

variable {key} {a b : α} {as bs : List α}

@[simp] theorem onlyIn_nil_right : onlyIn key as [] = as := List.filter_eq_self.mpr (by simp)

@[simp] theorem common_nil_right : common key as [] = [] := by simp [common]

theorem onlyIn_cons_of_lt (h : ∀ b ∈ bs, key a < key b) :
    onlyIn key (a :: as) bs = a :: onlyIn key as bs :=
  List.filter_cons_of_pos (decide_eq_true fun b hb => (h b hb).ne')

theorem onlyIn_cons_right (h : ∀ a ∈ as, key b ≠ key a) :
    onlyIn key as (b :: bs) = onlyIn key as bs := by
  refine List.filter_congr fun a ha => decide_eq_decide.mpr ?_
  rw [List.forall_mem_cons]
  exact and_iff_right (h a ha)

theorem onlyIn_cons_of_mem (hb : b ∈ bs) (h : key b = key a) :
    onlyIn key (a :: as) bs = onlyIn key as bs :=
  List.filter_cons_of_neg (by simpa using ⟨b, hb, h⟩)

theorem common_cons_of_lt (h : ∀ b ∈ bs, key a < key b) :
    common key (a :: as) bs = common key as bs := by
  have hfind : bs.find? (fun b => decide (key b = key a)) = none :=
    List.find?_eq_none.mpr fun b hb => by simpa using (h b hb).ne'
  rw [common, List.filterMap_cons_none (by rw [hfind]; rfl)]
  rfl

theorem common_cons_right (h : ∀ a ∈ as, key b ≠ key a) :
    common key as (b :: bs) = common key as bs := by
  refine List.filterMap_congr fun a ha => ?_
  rw [List.find?_cons_of_neg (by simpa using h a ha)]

theorem common_cons_of_eq (h : key b = key a) :
    common key (a :: as) (b :: bs) = (a, b) :: common key as (b :: bs) := by
  refine List.filterMap_cons_some ?_
  rw [List.find?_cons_of_pos (by simpa using h)]
  rfl

theorem Increasing.forall_lt (h : Increasing key (b :: bs)) (hab : key a < key b) :
    ∀ c ∈ b :: bs, key a < key c :=
  List.forall_mem_cons.mpr ⟨hab, fun c hc => hab.trans ((List.pairwise_cons.mp h).1 c hc)⟩

theorem Increasing.tail_ne (h : Increasing key (b :: bs)) (hab : key a = key b) :
    ∀ c ∈ bs, key a ≠ key c :=
  fun c hc => hab ▸ ((List.pairwise_cons.mp h).1 c hc).ne

theorem mem_onlyIn : a ∈ onlyIn key as bs ↔ a ∈ as ∧ ∀ b ∈ bs, key b ≠ key a := by simp [onlyIn]

theorem Increasing.onlyIn (h : Increasing key as) : Increasing key (onlyIn key as bs) := h.filter _

theorem Increasing.eq_of_key (h : Increasing key as) (ha : a ∈ as) (hb : b ∈ as)
    (heq : key a = key b) : a = b := by
  have hnodup : (as.map key).Nodup := List.pairwise_map.mpr (h.imp fun hlt => hlt.ne)
  exact List.inj_on_of_nodup_map hnodup ha hb heq

theorem mem_common (h : Increasing key bs) {p : α × α} :
    p ∈ common key as bs ↔ p.1 ∈ as ∧ p.2 ∈ bs ∧ key p.2 = key p.1 := by
  rw [common, List.mem_filterMap]
  constructor
  · rintro ⟨a, ha, hp⟩
    obtain ⟨b, hfind, rfl⟩ := Option.map_eq_some_iff.mp hp
    exact ⟨ha, List.mem_of_find?_eq_some hfind, by simpa using List.find?_some hfind⟩
  · rintro ⟨ha, hb, heq⟩
    refine ⟨p.1, ha, Option.map_eq_some_iff.mpr ⟨p.2, ?_, rfl⟩⟩
    cases hfind : bs.find? (fun b => decide (key b = key p.1)) with
    | none => exact absurd heq (by simpa using List.find?_eq_none.mp hfind p.2 hb)
    | some c =>
      have hc : key c = key p.1 := by simpa using List.find?_some hfind
      rw [h.eq_of_key (List.mem_of_find?_eq_some hfind) hb (hc.trans heq.symm)]

theorem common_increasing (ha : Increasing key as) :
    (common key as bs).Pairwise (fun p q => key p.2 < key q.2) := by
  refine List.pairwise_filterMap.mpr (ha.imp fun {a a'} hlt p hp q hq => ?_)
  obtain ⟨b, hb, rfl⟩ := Option.map_eq_some_iff.mp hp
  obtain ⟨b', hb', rfl⟩ := Option.map_eq_some_iff.mp hq
  have hkey : key b = key a := by simpa using List.find?_some hb
  have hkey' : key b' = key a' := by simpa using List.find?_some hb'
  rw [hkey, hkey']
  exact hlt

end Merge

end KeyedDiff
