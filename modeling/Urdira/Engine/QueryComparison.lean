import Urdira.Canonical.LogicalEncoding
import Urdira.Lib.Loop
import Urdira.Lib.MultiMap

open Canonical LogicalEncoding MerkleBucket TextCodec Utf16

namespace Engine

namespace QueryComparison

def units (name : String) : Text := encode name.toList

structure CanonicalQueryRecord where
  recordId : Text
  category : Text
  kind : Text
  universalKind : Text
  ownerArtifactId : Text
  ownerArtifactVersionId : Text
  primarySourceSpan : Option (List (Text × Text))
  identityKey : Option Text
  facets : Option (List Text)
  body : List (Text × CanonicalValue)

structure ComparisonPair where
  base : CanonicalQueryRecord
  target : CanonicalQueryRecord

structure ComparisonDiff where
  added : List CanonicalQueryRecord
  removed : List CanonicalQueryRecord
  changed : List ComparisonPair
  moved : List ComparisonPair
  correlated : List ComparisonPair
  possibleCorrelated : List ComparisonPair

inductive ComparisonRecords where
  | list (records : List CanonicalQueryRecord)
  | batches (batches : List (List CanonicalQueryRecord))

structure ComparisonRecordSource where
  records : ComparisonRecords
  orderedByIdentity : Bool

inductive CorrelationPolicy where
  | strict
  | includePossible
  deriving DecidableEq

inductive ComparisonError where
  | engine (code message capability : String) (reasonCodes : List String)
  | encoding (error : CanonicalEncodingError)

def orderUnavailable (message : String) : ComparisonError :=
  .engine "core:required_capability_unsupported" message "core:records_for_query_batches_order"
    ["comparison_identity_order_unavailable"]

def unorderedStream : ComparisonError := orderUnavailable
  "core:compare requires records_for_query_batches to be ordered by identity_key; refusing an unordered adapter stream rather than materializing it for sorting."

def unorderedSource : ComparisonError := orderUnavailable
  "core:compare requires both participants to provide records_for_query_batches ordered by identity_key; refusing an unordered adapter rather than materializing it for sorting."

def compareCanonicalIdentity (left right : Text) : Ordering :=
  if left < right then .lt else if right < left then .gt else .eq

section Digests

variable [Sha256]

def comparisonContent (record : CanonicalQueryRecord) : CanonicalValue :=
  .object [(units "kind", .string record.kind),
    (units "universal_kind", .string record.universalKind),
    (units "category", .string record.category), (units "body", .object record.body),
    (units "facets", .array ((record.facets.getD []).map .string))]

def comparisonContentDigest (record : CanonicalQueryRecord) :
    Except CanonicalEncodingError String :=
  (canonicalBytes (comparisonContent record)).map LogicalEncoding.digestBytes

end Digests

def hexUnit (digit : ℕ) : CodeUnit :=
  Fin.ofNat 65536 (if digit < 10 then 48 + digit else 87 + digit)

def unicodeEscape (unit : CodeUnit) : Text :=
  units "\\u" ++ [hexUnit (unit.val / 4096), hexUnit (unit.val / 256 % 16),
    hexUnit (unit.val / 16 % 16),
    hexUnit (unit.val % 16)]

def escapeUnit (unit : CodeUnit) : Text :=
  if unit = 8 then units "\\b" else if unit = 9 then units "\\t" else if unit = 10 then units "\\n"
  else if unit = 12 then units "\\f" else if unit = 13 then units "\\r"
  else if unit = 34 then units "\\\""
  else if unit = 92 then units "\\\\" else if unit.val < 32 then unicodeEscape unit else [unit]

def escapeText : Text → Text
  | [] => []
  | [unit] => if isHigh unit || isLow unit then unicodeEscape unit else escapeUnit unit
  | unit :: next :: rest =>
    if isHigh unit then
      if isLow next then unit :: next :: escapeText rest
      else unicodeEscape unit ++ escapeText (next :: rest)
    else if isLow unit then unicodeEscape unit ++ escapeText (next :: rest)
    else escapeUnit unit ++ escapeText (next :: rest)

def quote (text : Text) : Text := units "\"" ++ escapeText text ++ units "\""

def stringifySpan : Option (List (Text × Text)) → Text
  | none => units "null"
  | some properties =>
    units "\x7b" ++ List.intercalate (units ",") (properties.map fun property =>
      quote property.1 ++ units ":" ++ quote property.2) ++ units "\x7d"

def comparisonLocationKey (record : CanonicalQueryRecord) : Text :=
  record.ownerArtifactId ++ [0] ++ record.ownerArtifactVersionId ++ [0] ++
    stringifySpan record.primarySourceSpan

def sortKey (record : CanonicalQueryRecord) : Text := record.identityKey.getD record.recordId

def sortComparisonRecords (records : List CanonicalQueryRecord) : List CanonicalQueryRecord :=
  records.mergeSort (fun left right => compareCanonicalIdentity (sortKey left)
    (sortKey right) != .gt)

def sortComparisonPairs (pairs : List ComparisonPair) : List ComparisonPair :=
  pairs.mergeSort (fun left right => compareCanonicalIdentity (sortKey left.target)
    (sortKey right.target) != .gt)

section ComparisonRecords

-- The state of the generator: the key it yielded last and the batches it has not consumed.
structure ComparisonIterator where
  previousKey : Option Text
  batches : List (List CanonicalQueryRecord)

def comparisonRecords (source : ComparisonRecordSource) : ComparisonIterator :=
  match source.records with
  | .list records => ⟨none, [records]⟩
  | .batches batches => ⟨none, batches⟩

def consumeBatch (previousKey : Option Text) :
    List CanonicalQueryRecord → Except ComparisonError
      (Option (CanonicalQueryRecord × List CanonicalQueryRecord))
  | [] => .ok none
  | record :: batch =>
    match record.identityKey with
    | none => consumeBatch previousKey batch
    | some key =>
      if previousKey.any (fun previous => compareCanonicalIdentity key previous == .lt) then .error
        unorderedStream
      else if previousKey = some key then consumeBatch previousKey batch
      else .ok (some (record, batch))

def consume (previousKey : Option Text) :
    List (List CanonicalQueryRecord) → Except ComparisonError
      (Option CanonicalQueryRecord × ComparisonIterator)
  | [] => .ok (none, ⟨previousKey, []⟩)
  | batch :: batches => do
    match ← consumeBatch previousKey batch with
    | none => consume previousKey batches
    | some (record, rest) => .ok (some record, ⟨record.identityKey, rest :: batches⟩)

def ComparisonIterator.next (iterator : ComparisonIterator) :
    Except ComparisonError (Option CanonicalQueryRecord × ComparisonIterator) :=
  consume iterator.previousKey iterator.batches

end ComparisonRecords

section Merge

variable [Sha256]

structure Comparison where
  baseRecord : Option CanonicalQueryRecord
  targetRecord : Option CanonicalQueryRecord
  baseIterator : ComparisonIterator
  targetIterator : ComparisonIterator
  added : List CanonicalQueryRecord
  removed : List CanonicalQueryRecord
  changed : List ComparisonPair
  moved : List ComparisonPair
  correlated : List ComparisonPair

def Comparison.start (baseSource targetSource : ComparisonRecordSource) :
    Except ComparisonError Comparison := do
  let (baseRecord, baseIterator) ← (comparisonRecords baseSource).next
  let (targetRecord, targetIterator) ← (comparisonRecords targetSource).next
  .ok
    { baseRecord, targetRecord, baseIterator, targetIterator, added := [], removed := [],
      changed := [], moved := [], correlated := [] }

def Comparison.advanceBase (s : Comparison) : Except ComparisonError Comparison := do
  let (baseRecord, baseIterator) ← s.baseIterator.next
  .ok { s with baseRecord, baseIterator }

def Comparison.advanceTarget (s : Comparison) : Except ComparisonError Comparison := do
  let (targetRecord, targetIterator) ← s.targetIterator.next
  .ok { s with targetRecord, targetIterator }

def contentDigest (record : CanonicalQueryRecord) : Except ComparisonError String :=
  (comparisonContentDigest record).mapError .encoding

def Comparison.correlate (s : Comparison) (baseRecord targetRecord : CanonicalQueryRecord) :
    Except ComparisonError Comparison := do
  let pair : ComparisonPair := ⟨baseRecord, targetRecord⟩
  let s := { s with correlated := s.correlated ++ [pair] }
  let baseDigest ← contentDigest baseRecord
  let targetDigest ← contentDigest targetRecord
  if baseDigest ≠ targetDigest then .ok { s with changed := s.changed ++ [pair] }
  else if comparisonLocationKey baseRecord ≠ comparisonLocationKey targetRecord then
    .ok { s with moved := s.moved ++ [pair] }
  else .ok s

def Comparison.body (s : Comparison) : Option (Except ComparisonError Comparison) :=
  match s.baseRecord, s.targetRecord with
  | none, none => none
  | none, some targetRecord => some { s with added := s.added ++ [targetRecord] }.advanceTarget
  | some baseRecord, none => some { s with removed := s.removed ++ [baseRecord] }.advanceBase
  | some baseRecord, some targetRecord =>
    match compareCanonicalIdentity (baseRecord.identityKey.getD [])
      (targetRecord.identityKey.getD []) with
    | .lt => some { s with removed := s.removed ++ [baseRecord] }.advanceBase
    | .gt => some { s with added := s.added ++ [targetRecord] }.advanceTarget
    | .eq => some (do
      let s ← s.correlate baseRecord targetRecord
      let s ← s.advanceBase
      s.advanceTarget)

def step : Except ComparisonError Comparison → Option (Except ComparisonError Comparison)
  | .error _ => none
  | .ok s => s.body

def removedByDigest (buckets : List (String × List CanonicalQueryRecord)) :
    List CanonicalQueryRecord → Except ComparisonError (List (String × List CanonicalQueryRecord))
  | [] => .ok buckets
  | record :: removed => do
    let digest ← contentDigest record
    removedByDigest (MultiMap.push buckets digest record) removed

def matchAdded (buckets : List (String × List CanonicalQueryRecord)) (matchedRemoved : List Text) :
    List CanonicalQueryRecord → Except ComparisonError (List ComparisonPair)
  | [] => .ok []
  | targetRecord :: added => do
    let digest ← contentDigest targetRecord
    match (MultiMap.get buckets digest).find?
      (fun candidate => !matchedRemoved.contains candidate.recordId) with
    | none => matchAdded buckets matchedRemoved added
    | some baseRecord => do
      let pairs ← matchAdded buckets (baseRecord.recordId :: matchedRemoved) added
      .ok (⟨baseRecord, targetRecord⟩ :: pairs)

def possibleCorrelated (correlationPolicy : CorrelationPolicy)
    (removed added : List CanonicalQueryRecord) :
    Except ComparisonError (List ComparisonPair) :=
  if correlationPolicy = .includePossible ∧ 0 < added.length ∧ 0 < removed.length then do
    let buckets ← removedByDigest [] removed
    matchAdded buckets [] added
  else .ok []

def Comparison.finish (correlationPolicy : CorrelationPolicy) (s : Comparison) :
    Except ComparisonError ComparisonDiff := do
  let possible ← possibleCorrelated correlationPolicy s.removed s.added
  .ok { added := sortComparisonRecords s.added
        removed := sortComparisonRecords s.removed
        changed := sortComparisonPairs s.changed
        moved := sortComparisonPairs s.moved
        correlated := sortComparisonPairs s.correlated
        possibleCorrelated := sortComparisonPairs possible }

def diffComparisonRecordSources (fuel : ℕ) (baseSource targetSource : ComparisonRecordSource)
    (correlationPolicy : CorrelationPolicy) : Option (Except ComparisonError ComparisonDiff) :=
  if !baseSource.orderedByIdentity ||
    !targetSource.orderedByIdentity then some (.error unorderedSource)
  else (Loop.run step fuel (Comparison.start baseSource targetSource)).map
    (fun s => s.bind (·.finish correlationPolicy))

end Merge

end QueryComparison

end Engine
