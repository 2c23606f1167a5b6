import Urdira.Lib.KeyedSet

open KeyedSet

namespace KWayMerge

variable {α K : Type} [LinearOrder K]

abbrev Entry (K : Type) := K ×ₗ ℕ ×ₗ ℕ

def entry (k : K) (source index : ℕ) : Entry K := toLex (k, toLex (source, index))

def push (key : α → K) (sources : List (List α)) (source index : ℕ) (heap : List (Entry K)) :
    List (Entry K) :=
  match (sources.getD source [])[index]? with
  | some a => heap.orderedInsert (· ≤ ·) (entry (key a) source index)
  | none => heap

def initialHeap (key : α → K) (sources : List (List α)) : List (Entry K) :=
  (List.range sources.length).foldl (fun heap source => push key sources source 0 heap) []

def merge (key : α → K) (sources : List (List α)) : ℕ → List (Entry K) → List α
  | 0, _ => []
  | _ + 1, [] => []
  | fuel + 1, e :: heap =>
    let source := (ofLex (ofLex e).2).1
    let index := (ofLex (ofLex e).2).2
    ((sources.getD source [])[index]?).toList ++
      merge key sources fuel (push key sources source (index + 1) heap)

def mergeAll (key : α → K) (sources : List (List α)) : List α :=
  merge key sources sources.flatten.length (initialHeap key sources)

def rest (sources : List (List α)) (e : Entry K) : List α :=
  (sources.getD (ofLex (ofLex e).2).1 []).drop (ofLex (ofLex e).2).2

omit [LinearOrder K] in
@[simp] theorem rest_entry (sources : List (List α)) (k : K) (source index : ℕ) :
    rest sources (entry k source index) = (sources.getD source []).drop index := rfl

theorem flatMap_push (key : α → K) (sources : List (List α)) (source index : ℕ)
    (heap : List (Entry K)) :
    ((push key sources source index heap).flatMap (rest sources)).Perm
      ((sources.getD source []).drop index ++ heap.flatMap (rest sources)) := by
  unfold push
  cases h : (sources.getD source [])[index]? with
  | none =>
    rw [List.drop_eq_nil_of_le (List.getElem?_eq_none_iff.mp h), List.nil_append]
  | some a =>
    have hp := List.perm_orderedInsert (· ≤ ·) (entry (key a) source index) heap
    simpa using hp.flatMap_right (rest sources)

theorem push_valid (key : α → K) (sources : List (List α)) (source index : ℕ)
    {heap : List (Entry K)}
    (h : ∀ e ∈ heap, rest sources e ≠ []) :
    ∀ e ∈ push key sources source index heap, rest sources e ≠ [] := by
  intro e he
  unfold push at he
  split at he
  · rename_i a hget
    rcases (List.mem_orderedInsert _).mp he with rfl | he
    · rw [rest_entry]
      intro hnil
      have hle := List.drop_eq_nil_iff.mp hnil
      have hlt := (List.getElem?_eq_some_iff.mp hget).1
      omega
    · exact h e he
  · exact h e he

theorem merge_perm (key : α → K) (sources : List (List α)) (fuel : ℕ) (heap : List (Entry K))
    (hfuel : (heap.flatMap (rest sources)).length ≤ fuel)
    (hvalid : ∀ e ∈ heap, rest sources e ≠ []) :
    (merge key sources fuel heap).Perm (heap.flatMap (rest sources)) := by
  induction fuel generalizing heap with
  | zero =>
    have : heap.flatMap (rest sources) = [] := List.length_eq_zero_iff.mp (by omega)
    rw [this]
    rfl
  | succ fuel ih =>
    cases heap with
    | nil => rfl
    | cons e heap =>
      have hne := hvalid e (by simp)
      unfold rest at hne
      have hlt : (ofLex (ofLex e).2).2 < (sources.getD (ofLex (ofLex e).2).1 []).length := by
        by_contra hge
        exact hne (List.drop_eq_nil_of_le (by omega))
      have hrest : rest sources e =
          (sources.getD (ofLex (ofLex e).2).1 [])[(ofLex (ofLex e).2).2] ::
            (sources.getD (ofLex (ofLex e).2).1 []).drop ((ofLex (ofLex e).2).2 + 1) :=
        List.drop_eq_getElem_cons hlt
      have hpush := flatMap_push key sources (ofLex (ofLex e).2).1 ((ofLex (ofLex e).2).2 + 1) heap
      have hstep := ih (push key sources (ofLex (ofLex e).2).1 ((ofLex (ofLex e).2).2 + 1) heap) (by
          rw [hpush.length_eq]
          simp only [List.flatMap_cons, hrest, List.cons_append, List.length_cons] at hfuel
          omega) (push_valid key sources _ _ (fun e' he' => hvalid e' (by simp [he'])))
      simp only [merge, List.flatMap_cons, hrest, List.getElem?_eq_getElem hlt, Option.toList_some,
        List.cons_append, List.nil_append]
      exact (hstep.trans hpush).cons _

theorem initialHeap_perm (key : α → K) (sources : List (List α)) :
    ((initialHeap key sources).flatMap (rest sources)).Perm sources.flatten := by
  have key' : ∀ n ≤ sources.length,
      (((List.range n).foldl (fun heap source => push key sources source 0 heap) []).flatMap
        (rest sources)).Perm (sources.take n).flatten := by
    intro n
    induction n with
    | zero => simp
    | succ n ih =>
      intro hn
      rw [List.range_succ, List.foldl_append, List.foldl_cons, List.foldl_nil]
      refine (flatMap_push key sources n 0 _).trans ?_
      have hget : sources.getD n [] = sources[n] := by simp [List.getD, List.getElem?_eq_getElem hn]
      rw [List.drop_zero, hget, List.take_succ_eq_append_getElem hn, List.flatten_append]
      refine List.Perm.trans ?_ List.perm_append_comm
      simpa using (ih (by omega)).append_left sources[n]
  have := key' sources.length le_rfl
  rwa [List.take_length] at this

theorem initialHeap_valid (key : α → K) (sources : List (List α)) :
    ∀ e ∈ initialHeap key sources, rest sources e ≠ [] := by
  have key' : ∀ (idx : List ℕ) (heap : List (Entry K)), (∀ e ∈ heap, rest sources e ≠ []) →
      ∀ e ∈ idx.foldl (fun heap source => push key sources source 0 heap) heap,
        rest sources e ≠ [] := by
    intro idx
    induction idx with
    | nil => exact fun heap h => h
    | cons s idx ih =>
      intro heap h
      exact ih _ (push_valid key sources s 0 h)
  exact key' _ [] (by simp)

theorem mergeAll_perm (key : α → K) (sources : List (List α)) :
    (mergeAll key sources).Perm sources.flatten := by
  have hp := initialHeap_perm key sources
  refine (merge_perm key sources _ _ ?_ (initialHeap_valid key sources)).trans hp
  rw [hp.length_eq]

end KWayMerge
