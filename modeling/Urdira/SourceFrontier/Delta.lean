import Urdira.SourceFrontier.Catalog

namespace SourceFrontier

inductive PathObservation where
  | present (observation : Observation)
  | absent (normalizedUri : String)

def Delta.empty : Delta := ⟨[], [], [], [], 0⟩

def classify (f : Frontier) (delta : Delta) (o : Observation) : Delta :=
  match AssocMap.get f.present o.normalizedUri with
  | some entry =>
    if entry.contentHash = o.contentHash ∧ entry.byteLength = o.byteLength then
      let delta := { delta with equivalentCount := delta.equivalentCount + 1 }
      if entry.metadataDigest ≠ o.metadataDigest then
        { delta with metadataRefreshed := delta.metadataRefreshed ++
          [(o.normalizedUri, o.metadataDigest)] }
      else delta
    else { delta with changed := delta.changed ++ [o] }
  | none =>
    if (AssocMap.get f.absent o.normalizedUri).isSome then
      { delta with changed := delta.changed ++ [o] }
    else { delta with added := delta.added ++ [o] }

def Delta.compute (f : Frontier) (observations : List Observation) : Delta :=
  { observations.foldl (classify f) Delta.empty with
    deleted := (f.present.map Prod.fst).filter (fun uri =>
      decide (uri ∉ observations.map Observation.normalizedUri)) }

def classifyPath (f : Frontier) (delta : Delta) : PathObservation → Delta
  | .present o => classify f delta o
  | .absent uri =>
    if (AssocMap.get f.present uri).isSome then { delta with deleted := delta.deleted ++ [uri] }
    else delta

def Delta.computePartial (f : Frontier) (results : List PathObservation) : Delta :=
  results.foldl (classifyPath f) Delta.empty

inductive Batch where
  | scan (observations : List Observation)
  | paths (results : List PathObservation)

namespace Batch

def delta (f : Frontier) : Batch → Delta
  | scan observations => Delta.compute f observations
  | paths results => Delta.computePartial f results

def observed : Batch → List Observation
  | scan observations => observations
  | paths results => results.filterMap (fun result =>
    match result with
    | .present o => some o
    | .absent _ => none)

def named : Batch → List String
  | scan observations => observations.map Observation.normalizedUri
  | paths results => results.map (fun result =>
    match result with
    | .present o => o.normalizedUri
    | .absent uri => uri)

end Batch

def Frontier.Knows (f : Frontier) (uri : String) : Prop :=
  uri ∈ f.present.map Prod.fst ∨ uri ∈ f.absent.map Prod.fst

instance (f : Frontier) (uri : String) : Decidable (f.Knows uri) := instDecidableOr

theorem classify_added (f : Frontier) (delta : Delta) (o : Observation) :
    (classify f delta o).added = delta.added ++
      [o].filter (fun o => decide (¬ f.Knows o.normalizedUri)) := by
  have hknows : f.Knows o.normalizedUri ↔
      AssocMap.get f.present o.normalizedUri ≠ none ∨
        AssocMap.get f.absent o.normalizedUri ≠ none := by
    rw [Ne, Ne, AssocMap.get_eq_none_iff, AssocMap.get_eq_none_iff, not_not, not_not]
    rfl
  unfold classify
  cases hpresent : AssocMap.get f.present o.normalizedUri with
  | some entry =>
    have hknown : f.Knows o.normalizedUri := hknows.mpr (Or.inl (by simp [hpresent]))
    simp only [List.filter_singleton, hknown, not_true_eq_false, decide_false]
    split
    · split <;> simp
    · simp
  | none =>
    cases habsent : AssocMap.get f.absent o.normalizedUri with
    | some tombstone =>
      have hknown : f.Knows o.normalizedUri := hknows.mpr (Or.inr (by simp [habsent]))
      simp [hknown]
    | none =>
      have hunknown : ¬ f.Knows o.normalizedUri := by simp [hknows, hpresent, habsent]
      simp [hunknown]

theorem classifyAll_added (f : Frontier) (observations : List Observation) (delta : Delta) :
    (observations.foldl (classify f) delta).added =
      delta.added ++ observations.filter (fun o => decide (¬ f.Knows o.normalizedUri)) := by
  induction observations generalizing delta with
  | nil => simp
  | cons o observations ih =>
    rw [List.foldl_cons, ih, classify_added, List.append_assoc, ← List.filter_append,
      List.singleton_append]

theorem classifyPaths_added (f : Frontier) (results : List PathObservation) (delta : Delta) :
    (results.foldl (classifyPath f) delta).added = delta.added ++
      (Batch.paths results).observed.filter (fun o => decide (¬ f.Knows o.normalizedUri)) := by
  induction results generalizing delta with
  | nil => simp [Batch.observed]
  | cons result results ih =>
    rw [List.foldl_cons, ih]
    cases result with
    | present o =>
      rw [classifyPath, classify_added, List.append_assoc, ← List.filter_append]
      rfl
    | absent uri =>
      have hsame : (classifyPath f delta (.absent uri)).added = delta.added := by
        rw [classifyPath]
        split <;> rfl
      rw [hsame]
      rfl

theorem Batch.delta_added (f : Frontier) (batch : Batch) :
    (batch.delta f).added = batch.observed.filter
      (fun o => decide (¬ f.Knows o.normalizedUri)) := by
  cases batch with
  | scan observations => exact classifyAll_added f observations Delta.empty
  | paths results => exact classifyPaths_added f results Delta.empty

theorem Batch.observed_sublist (batch : Batch) :
    (batch.observed.map Observation.normalizedUri).Sublist batch.named := by
  cases batch with
  | scan observations => exact List.Sublist.refl _
  | paths results =>
    induction results with
    | nil => exact List.Sublist.refl _
    | cons result results ih =>
      cases result with
      | present o => exact ih.cons_cons _
      | absent uri => exact ih.cons _

end SourceFrontier
