import Urdira.Lib.AssocMap
import Urdira.Lib.ExceptOk
import Urdira.Lib.TopK

open ExceptOk KeyedSort TopK

namespace Engine

namespace Semantic

section Model

variable {I : Type} [LinearOrder I]

structure RankedSemanticCandidate (I : Type) where
  projectionRecordId : I
  rank : ℤ

structure SemanticLaneRanks (I : Type) where
  laneId : String
  candidates : List (RankedSemanticCandidate I)

structure FusedSemanticCandidate (I : Type) where
  projectionRecordId : I
  laneRanks : List (String × ℤ)

structure Rational where
  numerator : ℤ
  denominator : ℤ

inductive RankFault where
  | laneRanks
  | rerankRanks
  | denominator
  deriving DecidableEq

def maxSafeInteger : ℤ := 2 ^ 53 - 1

def positiveRank (rank : ℤ) : Bool := decide (0 < rank ∧ rank ≤ maxSafeInteger)

def rational (value : Rational) : Except RankFault Rational :=
  if value.denominator ≤ 0 then .error .denominator else .ok value

def Rational.add (left right : Rational) : Except RankFault Rational :=
  rational ⟨left.numerator * right.denominator + right.numerator * left.denominator,
    left.denominator * right.denominator⟩

def Rational.difference (left right : Rational) : ℤ :=
  left.numerator * right.denominator - right.numerator * left.denominator

-- Writing the member of this name of a plain object adds no entry.
def setLaneRank (current : List (String × ℤ)) (laneId : String) (rank : ℤ) : List (String × ℤ) :=
  if laneId = "__proto__" then current else AssocMap.insert current laneId rank

def fuseCandidates (laneId : String) : List I → List (I × List (String × ℤ)) →
      List (RankedSemanticCandidate I) →
    Except RankFault (List (I × List (String × ℤ)))
  | _, merged, [] => .ok merged
  | seen, merged, candidate :: rest =>
    if positiveRank candidate.rank = false ∨
      candidate.projectionRecordId ∈ seen then .error .laneRanks
    else
      let current := (AssocMap.get merged candidate.projectionRecordId).getD []
      fuseCandidates laneId (candidate.projectionRecordId :: seen)
        (AssocMap.insert merged candidate.projectionRecordId
          (setLaneRank current laneId candidate.rank)) rest

def Before (left right : FusedSemanticCandidate I × Rational) : Prop :=
  right.2.difference left.2 < 0 ∨
    right.2.difference left.2 = 0 ∧ left.1.projectionRecordId ≤ right.1.projectionRecordId

instance decidableBefore (left right : FusedSemanticCandidate I × Rational) :
    Decidable (Before left right) :=
  inferInstanceAs (Decidable (_ ∨ _))

end Model

section Values

def Rational.value (r : Rational) : ℚ := r.numerator / r.denominator

variable {laneWeights : String → Option Rational}

def weightOf (laneWeights : String → Option Rational) (laneId : String) : Rational :=
  (laneWeights laneId).getD ⟨1, 1⟩

def term (laneWeights : String → Option Rational) (entry : String × ℤ) : ℚ :=
  (weightOf laneWeights entry.1).value / entry.2

end Values

section Fusion

variable {I : Type} [LinearOrder I] {lanes : List (SemanticLaneRanks I)}

def rankOf (candidates : List (RankedSemanticCandidate I)) (id : I) : Option ℤ :=
  (candidates.find? (fun candidate => decide (candidate.projectionRecordId = id))).map (·.rank)

def contributions (lanes : List (SemanticLaneRanks I)) (id : I) : List (String × ℤ) :=
  lanes.filterMap (fun lane => (rankOf lane.candidates id).map (fun rank => (lane.laneId, rank)))

def ValidLane (lane : SemanticLaneRanks I) : Prop :=
  (∀ candidate ∈ lane.candidates, positiveRank candidate.rank = true) ∧
    (lane.candidates.map (·.projectionRecordId)).Nodup

theorem rankOf_cons (candidate : RankedSemanticCandidate I)
    (rest : List (RankedSemanticCandidate I)) (id : I) :
    rankOf (candidate :: rest) id = if candidate.projectionRecordId = id then some candidate.rank
      else rankOf rest id := by
  rw [rankOf, List.find?_cons]
  rcases eq_or_ne candidate.projectionRecordId id with h | h
  · rw [if_pos h, decide_eq_true h]
    rfl
  · rw [if_neg h, decide_eq_false h]
    rfl

theorem rankOf_eq_none {candidates : List (RankedSemanticCandidate I)} {id : I} :
    rankOf candidates id = none ↔ id ∉ candidates.map (·.projectionRecordId) := by
  induction candidates with
  | nil => exact ⟨fun _ => List.not_mem_nil, fun _ => rfl⟩
  | cons candidate rest ih =>
    rw [rankOf_cons, List.map_cons, List.mem_cons, not_or, ← ih]
    rcases eq_or_ne candidate.projectionRecordId id with h | h
    · rw [if_pos h]
      exact ⟨fun hsome => (nomatch hsome), fun hnone => absurd h.symm hnone.1⟩
    · rw [if_neg h]
      exact ⟨fun hrest => ⟨h.symm, hrest⟩, And.right⟩

structure Merged (lanes : List (SemanticLaneRanks I)) (merged : List (I × List (String × ℤ))) :
    Prop where
  keys : (merged.map Prod.fst).Nodup
  absent : ∀ id, AssocMap.get merged id = none ↔ contributions lanes id = []
  ranks : ∀ id, ((AssocMap.get merged id).getD []).Perm (contributions lanes id)

theorem fuseCandidates_eq {laneId : String} (hname : laneId ≠ "__proto__")
    {candidates : List (RankedSemanticCandidate I)} {seen : List I}
    {merged : List (I × List (String × ℤ))}
    (hpositive : ∀ candidate ∈ candidates, positiveRank candidate.rank = true)
    (hnodup : (candidates.map (·.projectionRecordId)).Nodup)
    (hfresh : ∀ candidate ∈ candidates, candidate.projectionRecordId ∉ seen)
    (hkeys : (merged.map Prod.fst).Nodup) :
    ∃ merged', fuseCandidates laneId seen merged candidates = .ok merged' ∧
      (merged'.map Prod.fst).Nodup ∧
      ∀ id, AssocMap.get merged' id = match rankOf candidates id with
        | none => AssocMap.get merged id
        | some rank => some (AssocMap.insert ((AssocMap.get merged id).getD []) laneId rank) := by
  induction candidates generalizing seen merged with
  | nil => exact ⟨merged, rfl, hkeys, fun id => rfl⟩
  | cons candidate rest ih =>
    obtain ⟨hrank, hranks⟩ := List.forall_mem_cons.mp hpositive
    obtain ⟨hnew, hrest⟩ := List.forall_mem_cons.mp hfresh
    rw [List.map_cons] at hnodup
    obtain ⟨hnot, hnodup⟩ := List.nodup_cons.mp hnodup
    have htail : ∀ other ∈ rest, other.projectionRecordId ∉
        candidate.projectionRecordId :: seen := by
      intro other hother hseen
      rcases List.mem_cons.mp hseen with hsame | hseen
      · exact hnot (hsame ▸ List.mem_map_of_mem hother)
      · exact hrest other hother hseen
    have hguard :
        ¬ (positiveRank candidate.rank = false ∨ candidate.projectionRecordId ∈ seen) := by
      rintro (hfalse | hseen)
      · rw [hrank] at hfalse
        cases hfalse
      · exact hnew hseen
    obtain ⟨merged', hfused, hkeys', hget⟩ := ih hranks hnodup htail (AssocMap.nodup_insert hkeys
      candidate.projectionRecordId
      (setLaneRank ((AssocMap.get merged candidate.projectionRecordId).getD []) laneId
        candidate.rank))
    refine ⟨merged', by rw [fuseCandidates, if_neg hguard]; exact hfused, hkeys', fun id => ?_⟩
    rw [hget, rankOf_cons]
    rcases eq_or_ne candidate.projectionRecordId id with rfl | hne
    · rw [if_pos rfl, rankOf_eq_none.mpr hnot]
      rw [AssocMap.get_insert_self, setLaneRank, if_neg hname]
    · rw [if_neg hne, AssocMap.get_insert_ne _ _ hne.symm]

theorem contributions_append (lane : SemanticLaneRanks I) (id : I) :
    contributions (lanes ++ [lane]) id =
      contributions lanes id ++ ((rankOf lane.candidates id).map
        (fun rank => (lane.laneId, rank))).toList := by
  rw [contributions, contributions, List.filterMap_append, List.filterMap_cons, List.filterMap_nil]
  cases rankOf lane.candidates id with
  | none => rfl
  | some rank => rfl

theorem Merged.lane {merged : List (I × List (String × ℤ))} (h : Merged lanes merged)
    {lane : SemanticLaneRanks I}
    (hvalid : ValidLane lane) (hname : lane.laneId ≠ "__proto__")
    (hnew : lane.laneId ∉ lanes.map (·.laneId)) :
    ∃ merged', fuseCandidates lane.laneId [] merged lane.candidates = .ok merged' ∧
      Merged (lanes ++ [lane]) merged' := by
  obtain ⟨merged', hfused, hkeys, hget⟩ :=
    fuseCandidates_eq hname hvalid.1 hvalid.2 (fun _ _ => List.not_mem_nil) h.keys
  refine ⟨merged', hfused, hkeys, fun id => ?_, fun id => ?_⟩
  · rw [hget, contributions_append]
    cases rankOf lane.candidates id with
    | none =>
      exact (h.absent id).trans (by rw [Option.map_none, Option.toList_none, List.append_nil])
    | some rank => exact ⟨fun hsome => (nomatch hsome), fun hnil => absurd hnil (by simp)⟩
  · rw [hget, contributions_append]
    cases rankOf lane.candidates id with
    | none =>
        exact (h.ranks id).trans (by rw [Option.map_none, Option.toList_none, List.append_nil])
    | some rank =>
      have hfresh : lane.laneId ∉ ((AssocMap.get merged id).getD []).map Prod.fst := by
        intro hmem
        obtain ⟨entry, hentry, hsame⟩ := List.mem_map.mp hmem
        have hcontributed := (h.ranks id).mem_iff.mp hentry
        obtain ⟨other, hother, hrank⟩ := List.mem_filterMap.mp hcontributed
        obtain ⟨otherRank, -, rfl⟩ := Option.map_eq_some_iff.mp hrank
        exact hnew (hsame ▸ List.mem_map_of_mem hother)
      rw [Option.map_some, Option.toList_some, Option.getD_some, AssocMap.insert_of_notMem hfresh]
      exact ((h.ranks id).cons _).trans (List.perm_append_singleton _ _).symm

end Fusion

section Ranking

variable {I : Type} [LinearOrder I] {lanes : List (SemanticLaneRanks I)}
  {laneWeights : String → Option Rational}

end Ranking

end Semantic

end Engine
