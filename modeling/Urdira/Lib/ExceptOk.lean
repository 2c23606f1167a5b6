import Mathlib.Data.List.GetD

namespace ExceptOk

variable {ε α β : Type}

theorem bind_eq_ok {x : Except ε α} {f : α → Except ε β} {b : β} (h : x >>= f = .ok b) :
    ∃ a, x = .ok a ∧ f a = .ok b := by
  cases x with
  | error e => cases h
  | ok a => exact ⟨a, rfl, h⟩

theorem map_eq_ok {x : Except ε α} {f : α → β} {b : β} (h : x.map f = .ok b) :
    ∃ a, x = .ok a ∧ f a = b := by
  cases x with
  | error e => cases h
  | ok a => exact ⟨a, rfl, Except.ok.inj h⟩

theorem ite_eq_ok {p : Prop} [Decidable p] {x : Except ε α} {e : ε} {a : α}
    (h : (if p then x else .error e) = .ok a) : p ∧ x = .ok a := by
  split at h
  · exact ⟨‹p›, h⟩
  · cases h

theorem ite_error_eq_ok {p : Prop} [Decidable p] {x : Except ε α} {e : ε} {a : α}
    (h : (if p then .error e else x) = .ok a) : ¬ p ∧ x = .ok a := by
  split at h
  · cases h
  · exact ⟨‹¬ p›, h⟩

theorem exists_of_isSome {x : Except ε α} (h : x.toOption.isSome = true) : ∃ a, x = .ok a := by
  cases x with
  | error e => cases h
  | ok a => exact ⟨a, rfl⟩

theorem mapM_eq_ok {f : α → Except ε β} {g : α → β} {xs : List α} (h : ∀ a ∈ xs, f a = .ok (g a)) :
    xs.mapM f = .ok (xs.map g) := by
  induction xs with
  | nil => rfl
  | cons a xs ih =>
    rw [List.mapM_cons, h a List.mem_cons_self, ih (fun b hb => h b (List.mem_cons_of_mem _ hb))]
    rfl

theorem mapM_eq_ok_iff {f : α → Except ε β} {p : α → Prop} {g : α → β}
    (h : ∀ a b, f a = .ok b ↔ p a ∧ b = g a)
    {xs : List α} {ys : List β} : xs.mapM f = .ok ys ↔ (∀ a ∈ xs, p a) ∧ ys = xs.map g := by
  induction xs generalizing ys with
  | nil =>
    rw [List.mapM_nil]
    exact ⟨fun hrun => ⟨List.forall_mem_nil _, (Except.ok.inj hrun).symm⟩,
      fun hrun => congrArg Except.ok hrun.2.symm⟩
  | cons a xs ih =>
    rw [List.mapM_cons, List.forall_mem_cons]
    constructor
    · intro hrun
      obtain ⟨b, hb, hrest⟩ := bind_eq_ok hrun
      obtain ⟨bs, hbs, hys⟩ := bind_eq_ok hrest
      obtain ⟨hp, rfl⟩ := (h a b).mp hb
      obtain ⟨hall, rfl⟩ := ih.mp hbs
      exact ⟨⟨hp, hall⟩, (Except.ok.inj hys).symm⟩
    · rintro ⟨⟨hp, hall⟩, rfl⟩
      rw [(h a (g a)).mpr ⟨hp, rfl⟩, ih.mpr ⟨hall, rfl⟩]
      rfl

theorem mapM_range_eq_ok {f : ℕ → Except ε β} {ys : List β}
    (h : ∀ i b, ys[i]? = some b → f i = .ok b) :
    (List.range ys.length).mapM f = .ok ys := by
  cases ys with
  | nil => rfl
  | cons b bs =>
    have hat : ∀ i ∈ List.range (b :: bs).length, f i = .ok ((b :: bs).getD i b) := by
      intro i hi
      have hlt := List.mem_range.mp hi
      refine h i _ ?_
      rw [List.getD_eq_getElem _ _ hlt, List.getElem?_eq_getElem hlt]
    rw [mapM_eq_ok hat]
    refine congrArg Except.ok (List.ext_getElem (by simp) (fun i hi hi' => ?_))
    rw [List.getElem_map, List.getElem_range, List.getD_eq_getElem _ _ hi']

end ExceptOk
