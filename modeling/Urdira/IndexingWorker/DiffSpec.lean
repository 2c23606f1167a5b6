import Urdira.IndexingWorker.Diff

open ByteOrder KeyedSet MerkleBucket StructuralStore

namespace IndexingWorker

namespace Outcome

def Describes (prev : List StoredRow) (store : StoreReader) (generation : ℕ) (row : RecordRow) :
    Outcome → Prop
  | .unchanged view => view ∈ prev ∧ view.identityKeyDigest = row.identityKeyDigest ∧
      view.recordDigest = row.recordDigest
  | .replacement view => view ∈ prev ∧ view.identityKeyDigest = row.identityKeyDigest ∧
      view.recordDigest ≠ row.recordDigest
  | .migration last => (∀ view ∈ prev, view.identityKeyDigest ≠ row.identityKeyDigest) ∧
      store.byIdentityLast row.identityKeyDigest = some last ∧
      store.isVisible last (generation - 1) = true
  | .reopen last => (∀ view ∈ prev, view.identityKeyDigest ≠ row.identityKeyDigest) ∧
      store.byIdentityLast row.identityKeyDigest = some last ∧
      store.isVisible last (generation - 1) = false
  | .firstOccurrence => (∀ view ∈ prev, view.identityKeyDigest ≠ row.identityKeyDigest) ∧
      store.byIdentityLast row.identityKeyDigest = none

end Outcome

section Outcomes

variable (prev : List StoredRow) (store : StoreReader) (generation : ℕ) (row : RecordRow)

theorem outcomeOf_describes :
    (outcomeOf prev store generation row).Describes prev store generation row := by
  unfold outcomeOf
  cases hfind :
    prev.find? (fun view => decide (view.identityKeyDigest = row.identityKeyDigest)) with
  | some view =>
    have hmem := List.mem_of_find?_eq_some hfind
    have hkey : view.identityKeyDigest = row.identityKeyDigest := by
      simpa using List.find?_some hfind
    by_cases hdigest : view.recordDigest = row.recordDigest
    · simp only [hdigest, if_true]
      exact ⟨hmem, hkey, hdigest⟩
    · simp only [hdigest, if_false]
      exact ⟨hmem, hkey, hdigest⟩
  | none =>
    have hnone : ∀ view ∈ prev, view.identityKeyDigest ≠ row.identityKeyDigest := by
      simpa using List.find?_eq_none.mp hfind
    cases hlast : store.byIdentityLast row.identityKeyDigest with
    | none => exact ⟨hnone, hlast⟩
    | some last =>
      cases hvis : store.isVisible last (generation - 1) with
      | true =>
        simp only [hvis, if_true]
        exact ⟨hnone, hlast, hvis⟩
      | false =>
        simp only [hvis, Bool.false_eq_true, if_false]
        exact ⟨hnone, hlast, hvis⟩

end Outcomes

section Diff

variable [Sha256] {prev : List StoredRow} {store : StoreReader} {generation : ℕ}

theorem opened_fields {row opened : RecordRow} {outcome : Outcome}
    (h : opened ∈ outcome.opened row generation) :
    opened.recordDigest = row.recordDigest ∧ opened.identityKeyDigest = row.identityKeyDigest ∧
      opened.identityKey = row.identityKey ∧ opened.category = row.category ∧
      opened.validFrom = generation ∧ opened.validTo = row.validTo ∧
      opened.ownerArtifact = row.ownerArtifact ∧ opened.sourceSubject = row.sourceSubject ∧
      opened.targetSubject = row.targetSubject ∧ opened.body = row.body := by
  cases outcome with
  | unchanged view => simp [Outcome.opened] at h
  | replacement view =>
    obtain rfl := List.mem_singleton.mp h
    simp [chainRow]
  | migration last =>
    obtain rfl := List.mem_singleton.mp h
    simp [chainRow]
  | reopen last =>
    obtain rfl := List.mem_singleton.mp h
    simp [chainRow]
  | firstOccurrence =>
    obtain rfl := List.mem_singleton.mp h
    simp

theorem opened_of_not_unchanged {row : RecordRow} {outcome : Outcome}
    (h : ¬ ∃ view, outcome = .unchanged view) :
    ∃ opened, opened ∈ outcome.opened row generation := by
  cases outcome with
  | unchanged view => exact absurd ⟨view, rfl⟩ h
  | replacement view => exact ⟨_, List.mem_singleton.mpr rfl⟩
  | migration last => exact ⟨_, List.mem_singleton.mpr rfl⟩
  | reopen last => exact ⟨_, List.mem_singleton.mpr rfl⟩
  | firstOccurrence => exact ⟨_, List.mem_singleton.mpr rfl⟩

omit [Sha256] in
theorem closed_identity {row : RecordRow} {view : StoredRow}
    (h : view ∈ (outcomeOf prev store generation row).closed) :
    view.identityKeyDigest = row.identityKeyDigest := by
  have hdesc := outcomeOf_describes prev store generation row
  cases hout : outcomeOf prev store generation row with
  | replacement v =>
    rw [hout] at hdesc h
    obtain rfl := List.mem_singleton.mp h
    exact hdesc.2.1
  | migration last =>
    rw [hout] at hdesc h
    obtain rfl := List.mem_singleton.mp h
    exact (store.byIdentityLast_some hdesc.2.1).2.1
  | unchanged v => simp [hout, Outcome.closed] at h
  | reopen last => simp [hout, Outcome.closed] at h
  | firstOccurrence => simp [hout, Outcome.closed] at h

omit [Sha256] in
theorem mem_closedRows {next : List RecordRow} {view : StoredRow}
    (h : view ∈ closedRows prev next store generation) :
    view ∈ prev ∨ ∃ row ∈ next, outcomeOf prev store generation row = .migration view := by
  rcases List.mem_append.mp h with hclosed | hunmatched
  · obtain ⟨row, hrow, hview⟩ := List.mem_flatMap.mp hclosed
    have hdesc := outcomeOf_describes prev store generation row
    cases hout : outcomeOf prev store generation row with
    | replacement v =>
      rw [hout] at hdesc hview
      obtain rfl := List.mem_singleton.mp hview
      exact Or.inl hdesc.1
    | migration last =>
      rw [hout] at hview
      obtain rfl := List.mem_singleton.mp hview
      exact Or.inr ⟨row, hrow, hout⟩
    | unchanged v => simp [hout, Outcome.closed] at hview
    | reopen last => simp [hout, Outcome.closed] at hview
    | firstOccurrence => simp [hout, Outcome.closed] at hview
  · exact Or.inl (List.mem_filter.mp hunmatched).1

end Diff

end IndexingWorker
