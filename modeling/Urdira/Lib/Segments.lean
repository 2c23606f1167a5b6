import Mathlib.Data.List.Basic

namespace Segments

variable {α : Type} {separator : α} {name : List α}

def HasDirectory (separator : α) (name path : List α) : Prop :=
  name ++ [separator] <+: path ∨ separator :: name ++ [separator] <:+: path

theorem infix_append_of_notMem {front rest tail : List α} (h : separator ∉ front) :
    separator :: tail <:+: front ++ rest ↔ separator :: tail <:+: rest := by
  induction front with
  | nil => rfl
  | cons a front ih =>
    have hne : a ≠ separator := fun heq => h (heq ▸ List.mem_cons_self)
    rw [List.cons_append, List.infix_cons_iff, ih (fun hmem => h (List.mem_cons_of_mem a hmem))]
    constructor
    · rintro (hfront | hwithin)
      · exact absurd (List.cons_prefix_cons.mp hfront).1.symm hne
      · exact hwithin
    · exact .inr

theorem prefix_separator {front rest : List α} (hname : separator ∉ name)
    (hfront : separator ∉ front) :
    name ++ [separator] <+: front ++ separator :: rest ↔ name = front := by
  induction name generalizing front with
  | nil =>
    cases front with
    | nil => exact ⟨fun _ => rfl, fun _ => ⟨rest, rfl⟩⟩
    | cons a front =>
      constructor
      · intro h
        exact absurd (List.cons_prefix_cons.mp h).1 (fun heq => hfront (heq ▸ List.mem_cons_self))
      · intro h
        cases h
  | cons b name ih =>
    cases front with
    | nil =>
      constructor
      · intro h
        exact absurd (List.cons_prefix_cons.mp h).1 (fun heq => hname (heq ▸ List.mem_cons_self))
      · intro h
        cases h
    | cons a front =>
      rw [List.cons_append, List.cons_append, List.cons_prefix_cons,
        ih (fun hmem => hname (List.mem_cons_of_mem b hmem))
          (fun hmem => hfront (List.mem_cons_of_mem a hmem)),
        List.cons.injEq]

theorem hasDirectory_cons {front rest : List α} (hname : separator ∉ name)
    (hfront : separator ∉ front) :
    HasDirectory separator name (front ++ separator :: rest) ↔
      name = front ∨ HasDirectory separator name rest := by
  have hwithin : separator :: name ++ [separator] <:+: front ++ separator :: rest ↔
      name ++ [separator] <+: rest ∨ separator :: name ++ [separator] <:+: rest := by
    rw [List.cons_append, infix_append_of_notMem hfront, List.infix_cons_iff, List.cons_prefix_cons]
    simp only [true_and]
  rw [HasDirectory, HasDirectory, prefix_separator hname hfront, hwithin]

theorem not_hasDirectory {path : List α} (h : separator ∉ path) :
    ¬ HasDirectory separator name path := by
  rintro (hfront | hwithin)
  · exact h (hfront.subset (List.mem_append_right name List.mem_cons_self))
  · exact h (hwithin.subset (List.mem_cons_self))

theorem mem_of_mem_splitOnP (p : α → Bool) {text segment : List α} (h : segment ∈ text.splitOnP p)
    {a : α}
    (ha : a ∈ segment) : a ∈ text := by
  induction text generalizing segment with
  | nil =>
    rw [List.splitOnP_nil, List.mem_singleton] at h
    exact h ▸ ha
  | cons b text ih =>
    rw [List.splitOnP_cons_eq_if_modifyHead] at h
    split at h
    · rcases List.mem_cons.mp h with rfl | htail
      · cases ha
      · exact List.mem_cons_of_mem b (ih htail ha)
    · cases hsplit : text.splitOnP p with
      | nil => exact absurd hsplit (List.splitOnP_ne_nil p text)
      | cons head tail =>
        rw [hsplit] at h
        rcases List.mem_cons.mp h with rfl | htail
        · rcases List.mem_cons.mp ha with rfl | hhead
          · exact List.mem_cons_self
          · exact List.mem_cons_of_mem b (ih (hsplit ▸ List.mem_cons_self) hhead)
        · exact List.mem_cons_of_mem b (ih (hsplit ▸ List.mem_cons_of_mem head htail) ha)

section Split

variable [BEq α] [LawfulBEq α]

theorem splitOn_append {front : List α} (h : separator ∉ front)
    (rest : List α) :
    (front ++ rest).splitOn separator = (rest.splitOn separator).modifyHead (front ++ ·) := by
  induction front with
  | nil =>
    cases hsplit : rest.splitOn separator with
    | nil => rw [List.nil_append, hsplit]; rfl
    | cons head tail => rw [List.nil_append, hsplit]; rfl
  | cons a front ih =>
    have hne : (a == separator) = false :=
      beq_eq_false_iff_ne.mpr (fun heq => h (heq ▸ List.mem_cons_self))
    have hrest := ih (fun hmem => h (List.mem_cons_of_mem a hmem))
    rw [List.splitOn] at hrest ⊢
    rw [List.cons_append, List.splitOnP_cons_eq_if_modifyHead, hne, hrest,
      List.modifyHead_modifyHead]
    rfl

theorem splitOn_self {path : List α} (h : separator ∉ path) : path.splitOn separator = [path] := by
  have hsplit := splitOn_append h []
  rw [List.append_nil, List.splitOn_nil] at hsplit
  rw [hsplit]
  simp

theorem splitOn_separator {front : List α} (hfront : separator ∉ front) (rest : List α) :
    (front ++ separator :: rest).splitOn separator = front :: rest.splitOn separator := by
  rw [splitOn_append hfront, List.splitOn, List.splitOnP_cons_eq_if_modifyHead,
    if_pos (beq_self_eq_true _)]
  simp [List.splitOn]

theorem hasDirectory_iff (hname : separator ∉ name) (path : List α) :
    HasDirectory separator name path ↔ name ∈ (path.splitOn separator).dropLast := by
  induction hlength : path.length using Nat.strongRecOn generalizing path with
  | _ n ih =>
    by_cases hmem : separator ∈ path
    · obtain ⟨front, rest, rfl, hfront⟩ := List.eq_append_cons_of_mem hmem
      have hshorter : rest.length < n := by
        rw [← hlength, List.length_append, List.length_cons]
        omega
      have hne : rest.splitOn separator ≠ [] := List.splitOnP_ne_nil _ rest
      rw [hasDirectory_cons hname hfront, ih rest.length hshorter rest rfl,
        splitOn_separator hfront,
        List.dropLast_cons_of_ne_nil hne, List.mem_cons]
    · rw [splitOn_self hmem]
      exact ⟨fun h => absurd h (not_hasDirectory hmem), fun h => by cases h⟩

end Split

end Segments
