import Mathlib

namespace RowLedger

variable {C K P : Type} (key : C → K)

abbrev Sealed (C P : Type) := List (C × List P)

def block (c : C) (items : List P) : List (K × P) := items.map (fun item => (key c, item))

def tagged (outputs : Sealed C P) : List (K × P) :=
  outputs.flatMap (fun output => block key output.1 output.2)

def total (size : P → ℕ) (rows : List (K × P)) : ℕ := (rows.map (fun row => size row.2)).sum

variable {key} {rows : List (K × P)} {outputs : Sealed C P} {c : C} {items : List P} {k : K}
  {size : P → ℕ}

theorem tagged_append (outputs outputs' : Sealed C P) :
    tagged key (outputs ++ outputs') = tagged key outputs ++ tagged key outputs' :=
  List.flatMap_append

theorem tagged_singleton : tagged key [(c, items)] = block key c items := List.flatMap_singleton _ _

theorem tagged_filter {released : C → Bool} {drops : K → Bool}
    (hdrops : ∀ output ∈ outputs, output.2 ≠ [] → drops (key output.1) = released output.1) :
    (tagged key outputs).filter (fun row => !drops row.1) =
      tagged key (outputs.filter (fun output => !released output.1)) := by
  induction outputs with
  | nil => rfl
  | cons output outputs ih =>
    obtain ⟨hfirst, hrest⟩ := List.forall_mem_cons.mp hdrops
    have htagged : tagged key (output :: outputs) =
        block key output.1 output.2 ++ tagged key outputs := rfl
    have hblock : (block key output.1 output.2).filter (fun row => !drops row.1) =
        if released output.1 then [] else block key output.1 output.2 := by
      cases hitems : output.2 with
      | nil => rw [block, List.map_nil, List.filter_nil, ite_self]
      | cons item items =>
        have hsame := hfirst (by rw [hitems]; exact List.cons_ne_nil _ _)
        have hkeys : ∀ row ∈ block key output.1 (item :: items),
            drops row.1 = released output.1 := by
          intro row hrow
          obtain ⟨_, -, rfl⟩ := List.mem_map.mp hrow
          exact hsame
        cases hreleased : released output.1 with
        | true =>
          rw [if_pos rfl, List.filter_eq_nil_iff]
          intro row hrow
          rw [hkeys row hrow, hreleased]
          exact Bool.false_ne_true
        | false =>
          rw [if_neg Bool.false_ne_true, List.filter_eq_self]
          intro row hrow
          rw [hkeys row hrow, hreleased]
          rfl
    rw [htagged, List.filter_append, ih hrest, hblock, List.filter_cons]
    cases released output.1 <;> rfl

theorem total_append (rows rows' : List (K × P)) :
    total size (rows ++ rows') = total size rows + total size rows' := by
  rw [total, List.map_append, List.sum_append, total, total]

theorem total_block : total size (block key c items) = (items.map size).sum := by
  rw [total, block, List.map_map]
  rfl

theorem total_tagged (outputs : Sealed C P) :
    total size (tagged key outputs) =
      (outputs.map (fun output => (output.2.map size).sum)).sum := by
  induction outputs with
  | nil => rfl
  | cons output outputs ih =>
    have htagged : tagged key (output :: outputs) =
        block key output.1 output.2 ++ tagged key outputs := rfl
    rw [htagged, total_append, total_block, ih, List.map_cons, List.sum_cons]

theorem total_perm {rows' : List (K × P)} (h : rows.Perm rows') :
    total size rows = total size rows' :=
  (h.map _).sum_eq

theorem total_filter (drops : K × P → Bool) : total size rows =
    total size (rows.filter drops) + total size (rows.filter (fun row => !drops row)) := by
  rw [← total_append]
  exact total_perm (List.filter_append_perm drops rows).symm

variable [DecidableEq K]

def heldAt (rows : List (K × P)) (k : K) : List P :=
  (rows.filter (fun row => decide (row.1 = k))).map Prod.snd

variable (key) in
structure Ledger (rows : List (K × P)) (outputs : Sealed C P) : Prop where
  perm : rows.Perm (tagged key outputs)
  held : ∀ output ∈ outputs, output.2 ≠ [] → heldAt rows (key output.1) = output.2

theorem heldAt_append (rows rows' : List (K × P)) (k : K) :
    heldAt (rows ++ rows') k = heldAt rows k ++ heldAt rows' k := by
  rw [heldAt, List.filter_append, List.map_append, heldAt, heldAt]

theorem heldAt_block_self : heldAt (block key c items) (key c) = items := by
  induction items with
  | nil => rfl
  | cons item items ih =>
    have hpos : decide ((key c, item).1 = key c) = true := decide_eq_true rfl
    rw [block, List.map_cons, heldAt, List.filter_cons, if_pos hpos, List.map_cons]
    exact congrArg _ ih

theorem heldAt_block_ne (h : key c ≠ k) : heldAt (block key c items) k = [] := by
  rw [heldAt, List.map_eq_nil_iff, List.filter_eq_nil_iff]
  intro row hrow
  obtain ⟨item, -, rfl⟩ := List.mem_map.mp hrow
  exact fun heq => h (of_decide_eq_true heq)

theorem Ledger.nil : Ledger key ([] : List (K × P)) [] :=
  ⟨List.Perm.refl _, fun _ h => absurd h List.not_mem_nil⟩

theorem Ledger.seal_rows (h : Ledger key rows outputs) (hfresh : heldAt rows (key c) = [])
    {rows' : List (K × P)}
    (hrows : rows' = block key c items ++ rows ∨ rows' = rows ++ block key c items) :
    Ledger key rows' (outputs ++ [(c, items)]) := by
  have hperm : rows'.Perm (rows ++ block key c items) := by
    rcases hrows with rfl | rfl
    · exact List.perm_append_comm
    · exact List.Perm.refl _
  have hnew : heldAt rows' (key c) = items := by
    rcases hrows with rfl | rfl
    · rw [heldAt_append, hfresh, heldAt_block_self, List.append_nil]
    · rw [heldAt_append, hfresh, heldAt_block_self, List.nil_append]
  have hold : ∀ k, key c ≠ k → heldAt rows' k = heldAt rows k := by
    intro k hk
    rcases hrows with rfl | rfl
    · rw [heldAt_append, heldAt_block_ne hk, List.nil_append]
    · rw [heldAt_append, heldAt_block_ne hk, List.append_nil]
  refine ⟨?_, fun output houtput hne => ?_⟩
  · rw [tagged_append, tagged_singleton]
    exact hperm.trans (h.perm.append_right _)
  · rcases List.mem_append.mp houtput with hearlier | hlast
    · have hheld := h.held output hearlier hne
      have hk : key c ≠ key output.1 := by
        intro hk
        rw [← hk, hfresh] at hheld
        exact hne hheld.symm
      rw [hold _ hk, hheld]
    · obtain rfl := List.mem_singleton.mp hlast
      exact hnew

theorem Ledger.seal_nothing (h : Ledger key rows outputs) :
    Ledger key rows (outputs ++ [(c, [])]) := by
  refine ⟨?_, fun output houtput hne => ?_⟩
  · rw [tagged_append, tagged_singleton, block, List.map_nil, List.append_nil]
    exact h.perm
  · rcases List.mem_append.mp houtput with hearlier | hlast
    · exact h.held output hearlier hne
    · obtain rfl := List.mem_singleton.mp hlast
      exact absurd rfl hne

theorem Ledger.release (h : Ledger key rows outputs) {released : C → Bool} {drops : K → Bool}
    (hdrops : ∀ output ∈ outputs, output.2 ≠ [] → drops (key output.1) = released output.1) :
    Ledger key (rows.filter (fun row => !drops row.1))
      (outputs.filter (fun output => !released output.1)) := by
  refine ⟨?_, fun output houtput hne => ?_⟩
  · rw [← tagged_filter hdrops]
    exact h.perm.filter _
  · obtain ⟨hmem, hkept⟩ := List.mem_filter.mp houtput
    have hdrop : (!drops (key output.1)) = true := by rw [hdrops output hmem hne]; exact hkept
    rw [← h.held output hmem hne, heldAt, heldAt, List.filter_filter]
    refine congrArg _ (List.filter_congr (fun row _ => ?_))
    by_cases hk : row.1 = key output.1
    · rw [hk, hdrop, Bool.and_true]
    · rw [decide_eq_false hk, Bool.false_and]

end RowLedger
