import Mathlib

namespace EventLedger

inductive Kind where
  | opened
  | closed
  deriving DecidableEq, Repr

variable {K : Type} [DecidableEq K]

abbrev Event (K : Type) := K × ℕ × Kind

structure Ledger (K : Type) where
  rows : List (K × ℕ)
  closures : List (K × ℕ)

def Live (closures : List (K × ℕ)) (row : K × ℕ) (g : ℕ) : Prop :=
  row.2 ≤ g ∧ ∀ c ∈ closures, c.1 = row.1 → row.2 < c.2 → g < c.2

instance (closures : List (K × ℕ)) (row : K × ℕ) (g : ℕ) : Decidable (Live closures row g) :=
  inferInstanceAs (Decidable (row.2 ≤ g ∧ ∀ c ∈ closures, _))

def Ledger.live (ledger : Ledger K) (g : ℕ) : List (K × ℕ) :=
  ledger.rows.filter (fun row => decide (Live ledger.closures row g))

def kindsUpTo (events : List (Event K)) (k : K) (g : ℕ) : List Kind :=
  (events.filter (fun e => decide (e.1 = k ∧ e.2.1 ≤ g))).map (fun e => e.2.2)

def lastKind (events : List (Event K)) (k : K) (g : ℕ) : Option Kind :=
  (kindsUpTo events k g).getLast?

def kindsOf (events : List (Event K)) (k : K) : List Kind :=
  (events.filter (fun e => decide (e.1 = k))).map (fun e => e.2.2)

def Alternates (kinds : List Kind) : Prop :=
  kinds.IsChain (· ≠ ·) ∧ kinds.head? ≠ some .closed

def openEvents (rows : List (K × ℕ)) : List (Event K) :=
  rows.map (fun row => (row.1, row.2, .opened))

def stepEvents (generation : ℕ) (closed opened : List K) : List (Event K) :=
  closed.map (fun k => (k, generation, .closed)) ++ opened.map (fun k => (k, generation, .opened))

inductive Run : Ledger K → List (Event K) → ℕ → Prop
  | start {ledger : Ledger K} {opened : List (K × ℕ)} {generation : ℕ}
    (rows : ledger.rows.Perm opened)
      (closures : ledger.closures = []) (bounded : ∀ row ∈ opened, row.2 ≤ generation) :
      Run ledger (openEvents opened) generation
  | step {ledger ledger' : Ledger K} {events : List (Event K)} {last generation : ℕ}
      {closed opened : List K} (before : Run ledger events last) (later : last < generation)
      (rows : ledger'.rows.Perm (opened.map (fun k => (k, generation)) ++ ledger.rows))
      (closures :
        ledger'.closures.Perm (ledger.closures ++ closed.map (fun k => (k, generation)))) :
      Run ledger' (events ++ stepEvents generation closed opened) generation

section Bounds

variable {ledger : Ledger K} {events : List (Event K)} {last : ℕ}

omit [DecidableEq K] in
theorem Run.bounded (h : Run ledger events last) :
    (∀ row ∈ ledger.rows, row.2 ≤ last) ∧ (∀ c ∈ ledger.closures, c.2 ≤ last) ∧
      ∀ e ∈ events, e.2.1 ≤ last := by
  induction h with
  | start rows closures bounded =>
    refine ⟨fun row hrow => bounded row (rows.mem_iff.mp hrow), by simp [closures], fun e he => ?_⟩
    obtain ⟨row, hrow, rfl⟩ := List.mem_map.mp he
    exact bounded row hrow
  | step before later rows closures ih =>
    obtain ⟨hrows, hclosures, hevents⟩ := ih
    refine ⟨fun row hrow => ?_, fun c hc => ?_, fun e he => ?_⟩
    · rcases List.mem_append.mp (rows.mem_iff.mp hrow) with hnew | hold
      · obtain ⟨k, -, rfl⟩ := List.mem_map.mp hnew
        exact le_rfl
      · exact (hrows row hold).trans later.le
    · rcases List.mem_append.mp (closures.mem_iff.mp hc) with hold | hnew
      · exact (hclosures c hold).trans later.le
      · obtain ⟨k, -, rfl⟩ := List.mem_map.mp hnew
        exact le_rfl
    · rcases List.mem_append.mp he with hold | hnew
      · exact (hevents e hold).trans later.le
      · rcases List.mem_append.mp hnew with hnew | hnew
        · obtain ⟨k, -, rfl⟩ := List.mem_map.mp hnew
          exact le_rfl
        · obtain ⟨k, -, rfl⟩ := List.mem_map.mp hnew
          exact le_rfl

theorem kindsUpTo_of_le (hevents : ∀ e ∈ events, e.2.1 ≤ last) {g : ℕ} (hg : last ≤ g) (k : K) :
    kindsUpTo events k g = kindsOf events k := by
  unfold kindsUpTo kindsOf
  congr 1
  refine List.filter_congr (fun e he => ?_)
  have hle := (hevents e he).trans hg
  simp [hle]

end Bounds

section Step

variable {ledger ledger' : Ledger K} {last generation : ℕ} {closed opened : List K}

theorem kindsUpTo_append (events events' : List (Event K)) (k : K) (g : ℕ) :
    kindsUpTo (events ++ events') k g = kindsUpTo events k g ++ kindsUpTo events' k g := by
  unfold kindsUpTo
  rw [List.filter_append, List.map_append]

theorem kindsOf_append (events events' : List (Event K)) (k : K) :
    kindsOf (events ++ events') k = kindsOf events k ++ kindsOf events' k := by
  unfold kindsOf
  rw [List.filter_append, List.map_append]

theorem kindsUpTo_stepEvents_of_lt {g : ℕ} (hg : g < generation) (k : K) :
    kindsUpTo (stepEvents generation closed opened) k g = [] := by
  unfold kindsUpTo
  rw [List.filter_eq_nil_iff.mpr, List.map_nil]
  intro e he
  have hat : e.2.1 = generation := by
    rcases List.mem_append.mp he with he | he
    · obtain ⟨k', -, rfl⟩ := List.mem_map.mp he
      rfl
    · obtain ⟨k', -, rfl⟩ := List.mem_map.mp he
      rfl
  simp only [decide_eq_true_eq, not_and]
  intro _
  omega

theorem kindsOf_stepEvents (k : K) :
    kindsOf (stepEvents generation closed opened) k =
      List.replicate (closed.count k) .closed ++ List.replicate (opened.count k) .opened := by
  have hpart : ∀ (ks : List K) (kind : Kind),
      ((ks.map (fun k' => (k', generation, kind))).filter (fun e => decide (e.1 = k))).map
        (fun e => e.2.2) = List.replicate (ks.count k) kind := by
    intro ks kind
    induction ks with
    | nil => rfl
    | cons k' ks ih =>
      by_cases hk : k' = k
      · simp [hk, ih, List.replicate_succ]
      · simp [hk, ih]
  unfold kindsOf stepEvents
  rw [List.filter_append, List.map_append, hpart, hpart]

theorem live_step_of_lt
    (hrows : ledger'.rows.Perm (opened.map (fun k => (k, generation)) ++ ledger.rows))
    (hclosures : ledger'.closures.Perm (ledger.closures ++ closed.map (fun k => (k, generation))))
    {g : ℕ} (hg : g < generation) : (ledger'.live g).Perm (ledger.live g) := by
  refine (hrows.filter _).trans (List.Perm.of_eq ?_)
  rw [List.filter_append, List.filter_eq_nil_iff.mpr, List.nil_append]
  · refine List.filter_congr (fun row _ => ?_)
    rw [decide_eq_decide]
    constructor
    · rintro ⟨hle, hall⟩
      exact ⟨hle, fun c hc => hall c (hclosures.mem_iff.mpr (List.mem_append_left _ hc))⟩
    · rintro ⟨hle, hall⟩
      refine ⟨hle, fun c hc hkey hlt => ?_⟩
      rcases List.mem_append.mp (hclosures.mem_iff.mp hc) with hold | hnew
      · exact hall c hold hkey hlt
      · obtain ⟨k, -, rfl⟩ := List.mem_map.mp hnew
        exact hg
  · intro row hrow
    obtain ⟨k, -, rfl⟩ := List.mem_map.mp hrow
    rw [decide_eq_true_eq]
    rintro ⟨hle, -⟩
    exact absurd hle (not_le.mpr hg)

theorem live_step_of_le (hbounded : (∀ row ∈ ledger.rows, row.2 ≤ last) ∧ ∀ c ∈ ledger.closures,
      c.2 ≤ last)
    (hlater : last < generation)
    (hrows : ledger'.rows.Perm (opened.map (fun k => (k, generation)) ++ ledger.rows))
    (hclosures : ledger'.closures.Perm (ledger.closures ++ closed.map (fun k => (k, generation))))
    {g : ℕ} (hg : generation ≤ g) :
    (ledger'.live g).Perm (opened.map (fun k => (k, generation)) ++
      (ledger.live g).filter (fun row => decide (row.1 ∉ closed))) := by
  obtain ⟨hbrows, hbclosures⟩ := hbounded
  refine (hrows.filter _).trans (List.Perm.of_eq ?_)
  rw [List.filter_append, List.filter_eq_self.mpr]
  · congr 1
    unfold Ledger.live
    rw [List.filter_filter]
    refine List.filter_congr (fun row hrow => ?_)
    rw [Bool.eq_iff_iff, Bool.and_eq_true, decide_eq_true_eq, decide_eq_true_eq, decide_eq_true_eq]
    have hlt : row.2 < generation := (hbrows row hrow).trans_lt hlater
    constructor
    · rintro ⟨hle, hall⟩
      refine ⟨fun hclosed => ?_, hle,
        fun c hc => hall c (hclosures.mem_iff.mpr (List.mem_append_left _ hc))⟩
      have hmem : (row.1, generation) ∈ ledger'.closures :=
        hclosures.mem_iff.mpr (List.mem_append_right _ (List.mem_map_of_mem hclosed))
      have hgt := hall _ hmem rfl hlt
      exact absurd hg (not_le.mpr hgt)
    · rintro ⟨hclosed, hle, hall⟩
      refine ⟨hle, fun c hc hkey hlt' => ?_⟩
      rcases List.mem_append.mp (hclosures.mem_iff.mp hc) with hold | hnew
      · exact hall c hold hkey hlt'
      · obtain ⟨k, hk, rfl⟩ := List.mem_map.mp hnew
        have hrowKey : k = row.1 := hkey
        rw [hrowKey] at hk
        exact absurd hk hclosed
  · intro row hrow
    obtain ⟨k, -, rfl⟩ := List.mem_map.mp hrow
    rw [decide_eq_true_eq]
    refine ⟨hg, fun c hc _ hlt => ?_⟩
    have hle : c.2 ≤ generation := by
      rcases List.mem_append.mp (hclosures.mem_iff.mp hc) with hold | hnew
      · exact (hbclosures c hold).trans hlater.le
      · obtain ⟨k', -, rfl⟩ := List.mem_map.mp hnew
        exact le_rfl
    exact absurd hlt (not_lt.mpr hle)

end Step

section Last

variable {ledger : Ledger K} {events : List (Event K)} {last : ℕ}

theorem lastKind_openEvents (rows : List (K × ℕ)) (k : K) (g : ℕ) :
    lastKind (openEvents rows) k g = some .opened ↔ ∃ row ∈ rows, row.1 = k ∧ row.2 ≤ g := by
  have hall : ∀ kind ∈ kindsUpTo (openEvents rows) k g, kind = .opened := by
    intro kind hkind
    obtain ⟨e, he, rfl⟩ := List.mem_map.mp hkind
    obtain ⟨row, -, rfl⟩ := List.mem_map.mp (List.mem_filter.mp he).1
    rfl
  have hmem : (∃ row ∈ rows, row.1 = k ∧ row.2 ≤ g) ↔ kindsUpTo (openEvents rows) k g ≠ [] := by
    constructor
    · rintro ⟨row, hrow, hkey, hle⟩
      refine List.ne_nil_of_mem
        (List.mem_map.mpr ⟨(row.1, row.2, .opened), List.mem_filter.mpr ⟨?_, ?_⟩, rfl⟩)
      · exact List.mem_map_of_mem (f := fun row : K × ℕ => ((row.1, row.2, .opened) : Event K)) hrow
      · exact decide_eq_true ⟨hkey, hle⟩
    · intro hne
      obtain ⟨kind, hkind⟩ := List.exists_mem_of_ne_nil _ hne
      obtain ⟨e, he, -⟩ := List.mem_map.mp hkind
      obtain ⟨hevent, hcond⟩ := List.mem_filter.mp he
      obtain ⟨row, hrow, rfl⟩ := List.mem_map.mp hevent
      exact ⟨row, hrow, of_decide_eq_true hcond⟩
  rw [hmem, lastKind]
  constructor
  · intro hlast hnil
    rw [hnil] at hlast
    cases hlast
  · intro hne
    rw [List.getLast?_eq_some_getLast hne, hall _ (List.getLast_mem hne)]

theorem lastKind_step (events : List (Event K)) {generation g : ℕ} {closed opened : List K}
    (hg : generation ≤ g) (k : K) :
    lastKind (events ++ stepEvents generation closed opened) k g =
      if k ∈ opened then some .opened else if k ∈ closed then some .closed
        else lastKind events k g := by
  have hstep : ∀ e ∈ stepEvents generation closed opened, e.2.1 ≤ generation := by
    intro e he
    rcases List.mem_append.mp he with he | he
    · obtain ⟨k', -, rfl⟩ := List.mem_map.mp he
      exact le_rfl
    · obtain ⟨k', -, rfl⟩ := List.mem_map.mp he
      exact le_rfl
  unfold lastKind
  rw [kindsUpTo_append, kindsUpTo_of_le hstep hg, kindsOf_stepEvents]
  by_cases hopened : k ∈ opened
  · have hpos : opened.count k ≠ 0 := (List.count_pos_iff.mpr hopened).ne'
    rw [if_pos hopened, ← List.append_assoc, List.getLast?_append, List.getLast?_replicate,
      if_neg hpos]
    rfl
  · rw [if_neg hopened, List.count_eq_zero_of_not_mem hopened, List.replicate_zero, List.append_nil]
    by_cases hclosed : k ∈ closed
    · have hpos : closed.count k ≠ 0 := (List.count_pos_iff.mpr hclosed).ne'
      rw [if_pos hclosed, List.getLast?_append, List.getLast?_replicate, if_neg hpos]
      rfl
    · rw [if_neg hclosed, List.count_eq_zero_of_not_mem hclosed, List.replicate_zero,
        List.append_nil]

theorem Run.live_iff_lastKind (h : Run ledger events last) (k : K) (g : ℕ) :
    (∃ row ∈ ledger.live g, row.1 = k) ↔ lastKind events k g = some .opened := by
  induction h with
  | start rows closures bounded =>
    rw [lastKind_openEvents]
    unfold Ledger.live
    constructor
    · rintro ⟨row, hrow, hkey⟩
      obtain ⟨hmem, hlive⟩ := List.mem_filter.mp hrow
      exact ⟨row, rows.mem_iff.mp hmem, hkey, (of_decide_eq_true hlive).1⟩
    · rintro ⟨row, hrow, hkey, hle⟩
      refine ⟨row, List.mem_filter.mpr ⟨rows.mem_iff.mpr hrow, decide_eq_true ⟨hle, ?_⟩⟩, hkey⟩
      simp [closures]
  | @step ledger ledger' events last generation closed opened before later rows closures ih =>
    obtain ⟨hbrows, hbclosures, hbevents⟩ := before.bounded
    rcases lt_or_ge g generation with hg | hg
    · have hperm := live_step_of_lt rows closures hg
      rw [lastKind, kindsUpTo_append, kindsUpTo_stepEvents_of_lt hg, List.append_nil]
      exact (exists_congr (fun row => and_congr_left' hperm.mem_iff)).trans ih
    · have hperm := live_step_of_le ⟨hbrows, hbclosures⟩ later rows closures hg
      rw [lastKind_step events hg, exists_congr (fun row => and_congr_left' hperm.mem_iff)]
      by_cases hopened : k ∈ opened
      · rw [if_pos hopened]
        exact iff_of_true
          ⟨(k, generation), List.mem_append_left _ (List.mem_map_of_mem hopened), rfl⟩ rfl
      · rw [if_neg hopened]
        have hold : (∃ row ∈ opened.map (fun k => (k, generation)) ++
            (ledger.live g).filter (fun row => decide (row.1 ∉ closed)), row.1 = k) ↔
            k ∉ closed ∧ ∃ row ∈ ledger.live g, row.1 = k := by
          constructor
          · rintro ⟨row, hrow, hkey⟩
            rcases List.mem_append.mp hrow with hnew | hrow
            · obtain ⟨k', hk', rfl⟩ := List.mem_map.mp hnew
              exact absurd (hkey ▸ hk') hopened
            · obtain ⟨hlive, hclosed⟩ := List.mem_filter.mp hrow
              exact ⟨hkey ▸ of_decide_eq_true hclosed, row, hlive, hkey⟩
          · rintro ⟨hclosed, row, hlive, hkey⟩
            refine ⟨row, List.mem_append_right _ (List.mem_filter.mpr ⟨hlive, decide_eq_true ?_⟩),
              hkey⟩
            rw [hkey]
            exact hclosed
        rw [hold]
        by_cases hclosed : k ∈ closed
        · rw [if_pos hclosed]
          refine iff_of_false (fun hex => hex.1 hclosed) ?_
          decide
        · rw [if_neg hclosed, ← ih]
          exact and_iff_right hclosed

end Last

section Alternation

theorem Alternates.append_left {xs ys : List Kind} (h : Alternates (xs ++ ys)) : Alternates xs := by
  refine ⟨(List.isChain_append.mp h.1).1, ?_⟩
  cases xs with
  | nil => simp
  | cons x xs => simpa using h.2

theorem replicate_isChain {a : Kind} {n : ℕ} (h : (List.replicate n a).IsChain (· ≠ ·)) :
    n ≤ 1 := by
  match n, h with
  | 0, _ => omega
  | 1, _ => omega
  | n + 2, h =>
    rw [List.replicate_succ, List.replicate_succ, List.isChain_cons_cons] at h
    exact absurd rfl h.1

instance (kinds : List Kind) : Decidable (Alternates kinds) :=
  inferInstanceAs (Decidable (kinds.IsChain (· ≠ ·) ∧ kinds.head? ≠ some .closed))

theorem alternates_of_keys {events : List (Event K)}
    (h : ∀ k ∈ events.map Prod.fst, Alternates (kindsOf events k)) (k : K) :
    Alternates (kindsOf events k) := by
  by_cases hk : k ∈ events.map Prod.fst
  · exact h k hk
  · have hnil : kindsOf events k = [] := by
      rw [kindsOf, List.filter_eq_nil_iff.mpr, List.map_nil]
      intro e he
      rw [decide_eq_true_eq]
      rintro rfl
      exact hk (List.mem_map_of_mem he)
    rw [hnil]
    decide

structure Alternation (old : List Kind) (c o : ℕ) : Prop where
  closed_le : c ≤ 1
  opened_le : o ≤ 1
  closes : 0 < c → old.getLast? = some .opened
  opens : 0 < o → c = 0 → old.getLast? ≠ some .opened

theorem Alternates.alternation {old : List Kind} {c o : ℕ}
    (h : Alternates (old ++ (List.replicate c .closed ++ List.replicate o .opened))) :
    Alternation old c o := by
  obtain ⟨hold, hnew, hjoin⟩ := List.isChain_append.mp h.1
  obtain ⟨hclosed, hopened, -⟩ := List.isChain_append.mp hnew
  refine ⟨replicate_isChain hclosed, replicate_isChain hopened, ?_, ?_⟩
  · intro hc
    obtain ⟨n, rfl⟩ : ∃ n, c = n + 1 := ⟨c - 1, by omega⟩
    cases hlast : old.getLast? with
    | none =>
      have hnil := List.getLast?_eq_none_iff.mp hlast
      have hhead := h.2
      rw [hnil] at hhead
      simp [List.replicate_succ] at hhead
    | some kind =>
      have hne := hjoin kind hlast .closed (by simp [List.replicate_succ])
      cases kind with
      | opened => rfl
      | closed => exact absurd rfl hne
  · intro ho hc hlast
    obtain ⟨n, rfl⟩ : ∃ n, o = n + 1 := ⟨o - 1, by omega⟩
    exact hjoin .opened hlast .opened (by simp [hc, List.replicate_succ]) rfl

theorem kindsOf_openEvents (rows : List (K × ℕ)) (k : K) :
    kindsOf (openEvents rows) k = List.replicate ((rows.map Prod.fst).count k) .opened := by
  unfold kindsOf openEvents
  induction rows with
  | nil => rfl
  | cons row rows ih =>
    by_cases hk : row.1 = k
    · simp [hk, ih, List.replicate_succ]
    · simp [hk, ih]

variable {ledger : Ledger K} {events : List (Event K)} {last : ℕ}

structure Ledger.Counted (ledger : Ledger K) (g : ℕ) : Prop where
  nodup : ((ledger.live g).map Prod.fst).Nodup
  count : (ledger.rows.filter (fun row => decide (row.2 ≤ g))).length =
    (ledger.live g).length + (ledger.closures.filter (fun c => decide (c.2 ≤ g))).length

theorem counted_start {opened : List (K × ℕ)} (hrows : ledger.rows.Perm opened)
    (hclosures : ledger.closures = []) (halt : ∀ k, Alternates (kindsOf (openEvents opened) k))
    (g : ℕ) :
    ledger.Counted g := by
  have hnodup : (ledger.rows.map Prod.fst).Nodup := by
    rw [(hrows.map Prod.fst).nodup_iff, List.nodup_iff_count_le_one]
    intro k
    have hchain := (halt k).1
    rw [kindsOf_openEvents] at hchain
    exact replicate_isChain hchain
  refine ⟨hnodup.sublist (List.filter_sublist.map _), ?_⟩
  rw [hclosures, List.filter_nil, List.length_nil, Nat.add_zero, Ledger.live]
  congr 1
  refine List.filter_congr (fun row _ => ?_)
  rw [decide_eq_decide, Live]
  simp [hclosures]

omit [DecidableEq K] in
theorem filter_le_of_bounded {rows : List (K × ℕ)} {generation g : ℕ}
    (h : ∀ row ∈ rows, row.2 ≤ generation) (hg : generation ≤ g) :
    rows.filter (fun row => decide (row.2 ≤ g)) = rows := by
  rw [List.filter_eq_self]
  intro row hrow
  exact decide_eq_true ((h row hrow).trans hg)

theorem length_filter_notMem {live : List (K × ℕ)} {closed : List K}
    (hlive : (live.map Prod.fst).Nodup) (hclosed : closed.Nodup)
    (hsub : ∀ k ∈ closed, ∃ row ∈ live, row.1 = k) :
    live.length = (live.filter (fun row => decide (row.1 ∉ closed))).length + closed.length := by
  have hin : ((live.map Prod.fst).filter (fun k => decide (k ∈ closed))).Perm closed := by
    refine (List.perm_ext_iff_of_nodup (hlive.filter _) hclosed).mpr (fun k => ?_)
    rw [List.mem_filter, decide_eq_true_eq, List.mem_map]
    exact ⟨fun hk => hk.2, fun hk => ⟨hsub k hk, hk⟩⟩
  have hlength := hin.length_eq
  rw [List.filter_map, List.length_map] at hlength
  have hsplit :=
    List.length_eq_length_filter_add (fun row : K × ℕ => decide (row.1 ∈ closed)) (l := live)
  have hnot : (fun row : K × ℕ => !decide (row.1 ∈ closed)) =
      fun row => decide (row.1 ∉ closed) := by
    funext row
    simp
  rw [hnot] at hsplit
  change (live.filter (fun row => decide (row.1 ∈ closed))).length = closed.length at hlength
  omega

theorem Run.counted (h : Run ledger events last) (halt : ∀ k, Alternates (kindsOf events k))
    (g : ℕ) :
    ledger.Counted g := by
  induction h with
  | start rows closures bounded => exact counted_start rows closures halt g
  | @step ledger ledger' events last generation closed opened before later rows closures ih =>
    obtain ⟨hbrows, hbclosures, hbevents⟩ := before.bounded
    have hstep : ∀ k, Alternation (kindsOf events k) (closed.count k) (opened.count k) := by
      intro k
      have hk := halt k
      rw [kindsOf_append, kindsOf_stepEvents] at hk
      exact hk.alternation
    have hold : ledger.Counted g := ih (fun k => by
      have hk := halt k
      rw [kindsOf_append] at hk
      exact hk.append_left)
    rcases lt_or_ge g generation with hg | hg
    · have hperm := live_step_of_lt rows closures hg
      refine ⟨(hperm.map Prod.fst).nodup_iff.mpr hold.nodup, ?_⟩
      have hnewRows : (opened.map (fun k => (k, generation))).filter
          (fun row => decide (row.2 ≤ g)) = [] := by
        rw [List.filter_eq_nil_iff]
        intro row hrow
        obtain ⟨k, -, rfl⟩ := List.mem_map.mp hrow
        simpa using hg
      have hnewClosures : (closed.map (fun k => (k, generation))).filter
          (fun c => decide (c.2 ≤ g)) = [] := by
        rw [List.filter_eq_nil_iff]
        intro c hc
        obtain ⟨k, -, rfl⟩ := List.mem_map.mp hc
        simpa using hg
      rw [(rows.filter _).length_eq, (closures.filter _).length_eq, hperm.length_eq,
        List.filter_append,
        List.filter_append, hnewRows, hnewClosures, List.nil_append, List.append_nil]
      exact hold.count
    · have hperm := live_step_of_le ⟨hbrows, hbclosures⟩ later rows closures hg
      have hlast : ∀ k, lastKind events k g = (kindsOf events k).getLast? := by
        intro k
        rw [lastKind, kindsUpTo_of_le hbevents (later.le.trans hg)]
      have hclosedNodup : closed.Nodup :=
        List.nodup_iff_count_le_one.mpr (fun k => (hstep k).closed_le)
      have hclosedLive : ∀ k ∈ closed, ∃ row ∈ ledger.live g, row.1 = k := by
        intro k hk
        rw [before.live_iff_lastKind, hlast]
        exact (hstep k).closes (List.count_pos_iff.mpr hk)
      have hrun : Run ledger' (events ++ stepEvents generation closed opened) generation :=
        .step before later rows closures
      refine ⟨?_, ?_⟩
      · rw [(hperm.map Prod.fst).nodup_iff, List.map_append, List.map_map, List.nodup_append]
        refine ⟨?_, hold.nodup.sublist (List.filter_sublist.map _), ?_⟩
        · have hopened : opened.Nodup :=
            List.nodup_iff_count_le_one.mpr (fun k => (hstep k).opened_le)
          simpa [Function.comp_def] using hopened
        · intro k hk k' hk' heq
          have hk : k ∈ opened := by simpa [Function.comp_def] using hk
          obtain ⟨row, hrow, rfl⟩ := List.mem_map.mp hk'
          obtain ⟨hlive, hnot⟩ := List.mem_filter.mp hrow
          refine (hstep k).opens (List.count_pos_iff.mpr hk)
            (List.count_eq_zero_of_not_mem (heq ▸ of_decide_eq_true hnot)) ?_
          rw [← hlast, ← before.live_iff_lastKind]
          exact ⟨row, hlive, heq.symm⟩
      · obtain ⟨hbrows', hbclosures', -⟩ := hrun.bounded
        have hcount := hold.count
        have hsplit := length_filter_notMem hold.nodup hclosedNodup hclosedLive
        rw [filter_le_of_bounded hbrows (later.le.trans hg),
          filter_le_of_bounded hbclosures (later.le.trans hg)] at hcount
        rw [filter_le_of_bounded hbrows' hg, filter_le_of_bounded hbclosures' hg, rows.length_eq,
          closures.length_eq, hperm.length_eq]
        simp only [List.length_append, List.length_map]
        omega

end Alternation

end EventLedger
