import Urdira.Lib.Chunks
import Urdira.Lib.DoubleRounding
import Urdira.NativeCore.ExactVector

open Chunks DoubleRounding KeyedSort NativeCore

namespace Engine

namespace Semantic

structure ExactVectorCandidate (I V M : Type) where
  projectionRecordId : I
  profileId : String
  executableBindingId : String
  vector : V
  metadata : M

abbrev ExactVectorMatch := VectorTopKMatch

structure ExactVectorScanOptions (M : Type) where
  profileId : String
  executableBindingId : String
  dimensions : ℕ
  elementType : PackedVectorElementType
  matchesFilter : M → Bool
  limit : Option ℕ

inductive ScanFault where
  | limitNotPositive
  | dimensionsNotPositive
  | identifiersNotUnique
  | identifierOutsideChunk
  | native (error : ExactVectorError)
  | malformedCount
  | malformedResult
  | zeroVector
  | callStack
  deriving DecidableEq

def nativeBatchByteBudget : ℕ := 4 * 1024 * 1024 - 64 * 1024

def nativeBatchRecordBudget : ℕ := 4096 - 1

section Scan

variable {I V M D : Type} [LinearOrder I] [LinearOrder D]

abbrev Candidate (I V M : Type) := ExactVectorCandidate I V M

def exactDistanceSort (distance : V → Except ScanFault D) (candidates : List (Candidate I V M))
    (limit : ℕ) : Except ScanFault (List (ExactVectorMatch I)) := do
  let entries ← candidates.mapM (fun candidate =>
    (distance candidate.vector).map (fun d => toLex (d, candidate.projectionRecordId)))
  let sorted := sortBy id entries
  .ok (rankedMatches ((sorted.take (min limit sorted.length)).map (fun entry => (ofLex entry).2)))

abbrev NativeExactVectorTopKPort (I V : Type) :=
  PackedExactVectorRequest I V → Except ExactVectorError (List (ExactVectorMatch I))

def wellFormedMatches (identifiers : List I) : List I → ℕ → List (ExactVectorMatch I) → Bool
  | _, _, [] => true
  | seen, index, found :: matches_ =>
    identifiers.contains found.projectionRecordId && !seen.contains found.projectionRecordId &&
      decide (found.rank = index + 1) &&
      wellFormedMatches identifiers (found.projectionRecordId :: seen) (index + 1) matches_

def nativeExactVectorTopK (port : NativeExactVectorTopKPort I V)
    (request : PackedExactVectorRequest I V) :
    Except ScanFault (List (ExactVectorMatch I)) := do
  let matches_ ← (port request).mapError ScanFault.native
  if matches_.length ≠ min request.k request.projectionRecordIds.length then .error .malformedCount
  else if wellFormedMatches request.projectionRecordIds [] 0 matches_ then .ok matches_
  else .error .malformedResult

variable (distance : V → Except ScanFault D) (idBytes : I → ℕ)
  (port : NativeExactVectorTopKPort I V) (dimensions : ℕ) (elementType : PackedVectorElementType)

def totalIdBytes (eligible : List (Candidate I V M)) : ℕ :=
  (eligible.map (fun candidate => idBytes candidate.projectionRecordId)).sum

def totalBytes (eligible : List (Candidate I V M)) : ℕ :=
  (dimensions + eligible.length * dimensions) * 8 + totalIdBytes idBytes eligible

def fits (eligible : List (Candidate I V M)) : Bool :=
  decide (totalBytes idBytes dimensions eligible ≤ nativeBatchByteBudget ∧
    eligible.length ≤ nativeBatchRecordBudget)

def averageIdBytes (eligible : List (Candidate I V M)) : ℚ :=
  if eligible.length = 0 then 0 else toDouble
    ((totalIdBytes idBytes eligible : ℚ) / eligible.length)

def bytesPerCandidate (eligible : List (Candidate I V M)) : ℚ :=
  toDouble ((dimensions * 8 : ℕ) + averageIdBytes idBytes eligible)

def byteBudgetForCandidates : ℤ := max 1 ((nativeBatchByteBudget : ℤ) - dimensions * 8)

def maxPerChunkByBytes (eligible : List (Candidate I V M)) : ℕ :=
  max 1 ⌊toDouble (byteBudgetForCandidates dimensions / bytesPerCandidate idBytes dimensions
    eligible)⌋.toNat

-- A quotient by zero is infinite, and the records alone bound the chunk.
def maxPerChunk (eligible : List (Candidate I V M)) : ℕ :=
  if bytesPerCandidate idBytes dimensions eligible = 0 then nativeBatchRecordBudget
  else max 1 (min (maxPerChunkByBytes idBytes dimensions eligible) nativeBatchRecordBudget)

def candidateOf (chunk : List (Candidate I V M)) (id : I) : Option (Candidate I V M) :=
  chunk.reverse.find? (fun candidate => decide (candidate.projectionRecordId = id))

def winnersOf (chunk : List (Candidate I V M)) : List (ExactVectorMatch I) →
      Except ScanFault (List (Candidate I V M))
  | [] => .ok []
  | found :: matches_ =>
    match candidateOf chunk found.projectionRecordId with
    | none => .error .identifierOutsideChunk
    | some candidate => do
      let winners ← winnersOf chunk matches_
      .ok (candidate :: winners)

def scanChunks (scan : List (Candidate I V M) → ℕ → Except ScanFault (List (ExactVectorMatch I)))
    (limit : ℕ) :
    List (List (Candidate I V M)) → Except ScanFault (List (Candidate I V M))
  | [] => .ok []
  | chunk :: chunks => do
    let chunkMatches ← scan chunk (min limit chunk.length)
    let winners ← winnersOf chunk chunkMatches
    let moreWinners ← scanChunks scan limit chunks
    .ok (winners ++ moreWinners)

def packedRequest (eligible : List (Candidate I V M)) (k : ℕ) : PackedExactVectorRequest I V where
  candidates := eligible.map (·.vector)
  projectionRecordIds := eligible.map (·.projectionRecordId)
  dimensions := dimensions
  elementType := elementType
  k := k

-- The fuel is the depth of the call stack.
def nativeTopKChunked : ℕ → List (Candidate I V M) → ℕ →
      Except ScanFault (List (ExactVectorMatch I))
  | 0, _, _ => .error .callStack
  | depth + 1, eligible, limit =>
    if fits idBytes dimensions eligible then
      nativeExactVectorTopK port (packedRequest dimensions elementType eligible
        (min limit eligible.length))
    else do
      let size := maxPerChunk idBytes dimensions eligible
      let winners ← scanChunks (nativeTopKChunked depth) limit (chunks size eligible)
      if eligible.length ≤ winners.length then exactDistanceSort distance winners limit
      else nativeTopKChunked depth winners limit

def eligibleOf (candidates : List (Candidate I V M)) (options : ExactVectorScanOptions M) :
    List (Candidate I V M) :=
  candidates.filter (fun candidate => decide (candidate.profileId = options.profileId) &&
    decide (candidate.executableBindingId = options.executableBindingId) &&
      options.matchesFilter candidate.metadata)

def exactVectorScan (port : Option (NativeExactVectorTopKPort I V)) (depth : ℕ)
    (candidates : List (Candidate I V M))
    (options : ExactVectorScanOptions M) : Except ScanFault (List (ExactVectorMatch I)) :=
  if options.limit = some 0 then .error .limitNotPositive
  else if options.dimensions = 0 then .error .dimensionsNotPositive
  else
    let eligible := eligibleOf candidates options
    if eligible.isEmpty then .ok []
    else if ¬ (eligible.map (·.projectionRecordId)).Nodup then .error .identifiersNotUnique
    else
      let limit := min (options.limit.getD eligible.length) eligible.length
      match port with
      | some port => nativeTopKChunked distance idBytes port options.dimensions options.elementType
          depth eligible limit
      | none => exactDistanceSort distance eligible (options.limit.getD eligible.length)

end Scan

section Entities

variable {I V R S : Type} [DecidableEq I] [DecidableEq R]

structure SemanticVectorRow (I V R S : Type) where
  projectionRecordId : I
  vectorPayload : V
  documentRef : Option R
  segmentIndex : S
  segmentStart : Option S
  segmentEnd : Option S

structure MatchedSegment (S : Type) where
  index : S
  startChar : S
  endChar : S
  deriving DecidableEq

structure EntityRanks (R S : Type) where
  ranks : List (R × ℕ)
  matchedSegmentByDocumentRef : List (R × MatchedSegment S)
  deriving DecidableEq

def semanticEntityCandidateCap : ℕ := 100

def semanticEntitySegmentScanLimit : ℕ := semanticEntityCandidateCap * 8

def vectorOf (rows : List (SemanticVectorRow I V R S)) (id : I) :
    Option (SemanticVectorRow I V R S) :=
  rows.reverse.find? (fun row => decide (row.projectionRecordId = id))

def matchedSegment (row : SemanticVectorRow I V R S) : Option (MatchedSegment S) :=
  match row.segmentStart, row.segmentEnd with
  | some start, some stop => some ⟨row.segmentIndex, start, stop⟩
  | _, _ => none

def aggregateStep (rows : List (SemanticVectorRow I V R S)) (found : EntityRanks R S) (id : I) :
    EntityRanks R S :=
  match vectorOf rows id with
  | none => found
  | some row =>
    match row.documentRef with
    | none => found
    | some documentRef =>
      if documentRef ∈ found.ranks.map Prod.fst then found
      else
        { ranks := found.ranks ++ [(documentRef, found.ranks.length + 1)]
          matchedSegmentByDocumentRef :=
            found.matchedSegmentByDocumentRef ++
              ((matchedSegment row).map (fun segment => (documentRef, segment))).toList }

def aggregateLoop (rows : List (SemanticVectorRow I V R S)) : EntityRanks R S → List I →
      EntityRanks R S
  | found, [] => found
  | found, id :: ids =>
    if semanticEntityCandidateCap ≤ found.ranks.length then found
    else aggregateLoop rows (aggregateStep rows found id) ids

def aggregateEntityRanks (rows : List (SemanticVectorRow I V R S))
    (ranks : List (ExactVectorMatch I)) : EntityRanks R S :=
  aggregateLoop rows ⟨[], []⟩ (ranks.map (·.projectionRecordId))

def entityScan {ε : Type} (rows : List (SemanticVectorRow I V R S))
    (scan : Option ℕ → Except ε (List (ExactVectorMatch I)))
    (candidates : ℕ) : Except ε (EntityRanks R S) :=
  let entitySegmentScanLimit := min semanticEntitySegmentScanLimit candidates
  if entitySegmentScanLimit = 0 then .ok ⟨[], []⟩
  else do
    let fast ← scan (some entitySegmentScanLimit)
    let found := aggregateEntityRanks rows fast
    if found.ranks.length < semanticEntityCandidateCap ∧ entitySegmentScanLimit < candidates then do
      let full ← scan none
      .ok (aggregateEntityRanks rows full)
    else .ok found

end Entities

end Semantic

end Engine
