import Urdira.Lib.KeyedSort
import Urdira.NativeCore.LogicalDigest

open KeyedSort

namespace NativeCore

def maxBatchFramedBytes : ℕ := 4 * 1024 * 1024

inductive PackedVectorElementType where
  | float32Le
  | float64Le
  deriving DecidableEq

def PackedVectorElementType.width : PackedVectorElementType → ℕ
  | .float32Le => 4
  | .float64Le => 8

structure VectorTopKMatch (I : Type) where
  projectionRecordId : I
  rank : ℕ
  deriving DecidableEq

-- The packed query has the right length by construction; a candidate is one packed vector.
structure PackedExactVectorRequest (I V : Type) where
  candidates : List V
  projectionRecordIds : List I
  dimensions : ℕ
  elementType : PackedVectorElementType
  k : ℕ

inductive ExactVectorError where
  | packedBytesExceeded
  | dimensionsNotPositive
  | candidatesLength
  | kNotPositive
  | candidateCountExceeded
  | batchBytesExceeded
  | queryInvalid
  | duplicateIdentifier
  | candidateInvalid
  | zeroVector
  | distanceNotFinite
  deriving DecidableEq

structure ExactVectorKernel (V D : Type) where
  queryValid : Bool
  candidateValid : V → Bool
  vectorDistance : V → Except ExactVectorError D

section Kernel

variable {I V D : Type} [LinearOrder I] [LinearOrder D] (kernel : ExactVectorKernel V D)
  (idBytes : I → ℕ)

def rankedMatches (ids : List I) : List (VectorTopKMatch I) :=
  ids.mapIdx (fun index id => ⟨id, index + 1⟩)

def vectorRequestBytes (request : PackedExactVectorRequest I V) : ℕ :=
  (request.dimensions + request.candidates.length * request.dimensions) * 8 +
    (request.projectionRecordIds.map idBytes).sum

def packedBytes (request : PackedExactVectorRequest I V) : ℕ :=
  request.dimensions * request.elementType.width +
    request.candidates.length * (request.dimensions * request.elementType.width)

def rankCandidates : List I → List (V × I) → Except ExactVectorError (List (D ×ₗ I))
  | _, [] => .ok []
  | identifiers, (vector, id) :: candidates =>
    if id ∈ identifiers then .error .duplicateIdentifier
    else if kernel.candidateValid vector = false then .error .candidateInvalid
    else do
      let distance ← kernel.vectorDistance vector
      let ranked ← rankCandidates (id :: identifiers) candidates
      .ok (toLex (distance, id) :: ranked)

omit [LinearOrder D] in
theorem rankCandidates_cons (identifiers : List I) (vector : V) (id : I)
    (candidates : List (V × I)) :
    rankCandidates kernel identifiers ((vector, id) :: candidates) =
      if id ∈ identifiers then .error .duplicateIdentifier
      else if kernel.candidateValid vector = false then .error .candidateInvalid
      else (do
        let distance ← kernel.vectorDistance vector
        let ranked ← rankCandidates kernel (id :: identifiers) candidates
        .ok (toLex (distance, id) :: ranked)) := rfl

def exactVectorTopK (request : PackedExactVectorRequest I V) :
    Except ExactVectorError (List (VectorTopKMatch I)) :=
  if kernel.queryValid = false then .error .queryInvalid
  else do
    let ranked ← rankCandidates kernel [] (request.candidates.zip request.projectionRecordIds)
    .ok (rankedMatches (((sortBy id ranked).take request.k).map (fun entry => (ofLex entry).2)))

def exactVectorTopKBatch (request : PackedExactVectorRequest I V) :
    Except ExactVectorError (List (VectorTopKMatch I)) :=
  if request.k = 0 then .error .kNotPositive
  else if maxBatchRecords < request.candidates.length then .error .candidateCountExceeded
  else if maxBatchFramedBytes < vectorRequestBytes idBytes request then .error .batchBytesExceeded
  else exactVectorTopK kernel request

def exactPackedVectorTopKBatch (request : PackedExactVectorRequest I V) :
    Except ExactVectorError (List (VectorTopKMatch I)) :=
  if maxBatchFramedBytes < packedBytes request then .error .packedBytesExceeded
  else if request.dimensions = 0 then .error .dimensionsNotPositive
  else if request.candidates.length ≠ request.projectionRecordIds.length then
    .error .candidatesLength
  else exactVectorTopKBatch kernel idBytes request

end Kernel

section Resident

structure ResidentVectorBuffer (V : Type) where
  generation : ℕ
  dimensions : ℕ
  rows : List V

inductive ResidentVectorError where
  | dimensionsNotPositive
  | nonFiniteValue
  | kNotPositive
  | queryNonFinite
  | notRegistered
  | stale
  | queryDimensions
  | zeroVector
  | distanceNotFinite
  deriving DecidableEq

variable {H Q V D : Type} [DecidableEq H] [LinearOrder D]

abbrev ResidentVectorRegistry (H V : Type) := H → Option (ResidentVectorBuffer V)

structure ResidentKernel (Q V D : Type) where
  finite : V → Bool
  queryFinite : Q → Bool
  queryDimensions : Q → ℕ
  residentDistance : Q → Except ResidentVectorError (V → Except ResidentVectorError D)
  selectNthUnstable : ℕ → List (D × ℕ) → List (D × ℕ)

def registerVectorBuffer (kernel : ResidentKernel Q V D) (registry : ResidentVectorRegistry H V)
    (handle : H)
    (buffer : ResidentVectorBuffer V) : Except ResidentVectorError (ResidentVectorRegistry H V) :=
  if buffer.dimensions = 0 then .error .dimensionsNotPositive
  else if buffer.rows.all kernel.finite then .ok (Function.update registry handle (some buffer))
  else .error .nonFiniteValue

def forgetVectorBuffer (registry : ResidentVectorRegistry H V) (handle : H) :
    ResidentVectorRegistry H V :=
  Function.update registry handle none

def nearest (kernel : ResidentKernel Q V D) (k : ℕ) (distances : List D) : List (D × ℕ) :=
  let indexed := distances.zipIdx
  let chosen :=
    if k < distances.length then (kernel.selectNthUnstable (k - 1) indexed).take k else indexed
  sortBy toLex chosen

def exactTopKContiguous (kernel : ResidentKernel Q V D) (registry : ResidentVectorRegistry H V)
    (handle : H)
    (generation : ℕ) (query : Q) (k : ℕ) : Except ResidentVectorError (List (D × ℕ)) :=
  if k = 0 then .error .kNotPositive
  else if kernel.queryFinite query = false then .error .queryNonFinite
  else
    match registry handle with
    | none => .error .notRegistered
    | some buffer =>
      if buffer.generation ≠ generation then .error .stale
      else if kernel.queryDimensions query ≠ buffer.dimensions then .error .queryDimensions
      else if buffer.rows = [] then .ok []
      else do
        let distanceAt ← kernel.residentDistance query
        let distances ← buffer.rows.mapM distanceAt
        .ok (nearest kernel (min k buffer.rows.length) distances)

end Resident

end NativeCore
