import Urdira.Lib.AssocMap
import Urdira.Lib.Chunks

open Chunks

namespace Engine

abbrev JsString := List (Fin 65536)

structure QueryStreamItem (V : Type) where
  stableSortKey : JsString
  fields : V
  deriving DecidableEq

inductive CursorDirection where
  | forward
  | backward
  deriving DecidableEq

structure ManifestStreamReadRequest where
  position : Option JsString
  limit : ℕ

structure ManifestStreamReadResult (V : Type) where
  items : List (QueryStreamItem V)
  hasMore : Bool
  total : Option ℕ

def manifestSegmentRows : ℕ := 512

def manifestSegmentBytes : ℕ := 1024 * 1024

variable {V : Type}

structure MemoryManifest (V : Type) where
  segments : List (List (QueryStreamItem V))
  positions : List (JsString × ℕ)
  entryCount : ℕ

namespace MemoryManifest

def notePosition (positions : List (JsString × ℕ)) (entry : QueryStreamItem V × ℕ) :
    List (JsString × ℕ) :=
  match AssocMap.get positions entry.1.stableSortKey with
  | some _ => positions
  | none => AssocMap.insert positions entry.1.stableSortKey entry.2

end MemoryManifest

def memoryManifest (items : List (QueryStreamItem V)) : MemoryManifest V where
  segments := if items.isEmpty then [[]] else chunks manifestSegmentRows items
  positions := items.zipIdx.foldl MemoryManifest.notePosition []
  entryCount := items.length

namespace MemoryManifest

def readLoop (manifest : MemoryManifest V) (limit : ℕ) :
    ℕ → ℕ → List (QueryStreamItem V) → ℕ × List (QueryStreamItem V)
  | 0, nextOrdinal, items => (nextOrdinal, items)
  | fuel + 1, nextOrdinal, items =>
    if nextOrdinal < manifest.entryCount ∧ items.length < limit then
      let segmentIndex := nextOrdinal / manifestSegmentRows
      let segmentOffset := nextOrdinal % manifestSegmentRows
      let segment := manifest.segments.getD segmentIndex []
      let take := min (limit - items.length) (segment.length - segmentOffset)
      if take = 0 then (nextOrdinal, items)
      else readLoop manifest limit fuel (nextOrdinal + take)
        (items ++ (segment.drop segmentOffset).take take)
    else (nextOrdinal, items)

def read (manifest : MemoryManifest V) (request : ManifestStreamReadRequest) :
    ManifestStreamReadResult V :=
  if manifest.entryCount = 0 then ⟨[], false, none⟩
  else
    let positionOrdinal := request.position.bind (AssocMap.get manifest.positions)
    let (nextOrdinal, items) := manifest.readLoop request.limit request.limit
      (positionOrdinal.elim 0 (· + 1)) []
    ⟨items, decide (nextOrdinal < manifest.entryCount), some manifest.entryCount⟩

end MemoryManifest

structure ManifestRow (V : Type) where
  item : QueryStreamItem V
  ordinal : ℕ

structure DurableManifestSegmentDescriptor where
  firstOrdinal : ℕ
  entryCount : ℕ
  firstStableSortKey : JsString
  lastStableSortKey : JsString

inductive PositionOrder where
  | ascending
  | descending
  | unordered
  deriving DecidableEq

structure DurableManifestDescriptor where
  entryCount : ℕ
  segments : List DurableManifestSegmentDescriptor
  positionOrder : PositionOrder

-- encodeCanonical and decodeCanonical, as far as a stored segment depends on them: the length of an
-- item's encoding, the values they refuse, and what the fields of an item are when read back.
structure SegmentCodec (V : Type) where
  canonicalBytes : QueryStreamItem V → Option ℕ
  accepts : List (ManifestRow V) → Bool
  acceptsDescriptor : DurableManifestDescriptor → Bool
  text : JsString → JsString
  fields : V → V

namespace SegmentCodec

variable (codec : SegmentCodec V)

def item (item : QueryStreamItem V) : QueryStreamItem V :=
  ⟨codec.text item.stableSortKey, codec.fields item.fields⟩

def row (row : ManifestRow V) : ManifestRow V := ⟨codec.item row.item, row.ordinal⟩

def descriptor (descriptor : DurableManifestDescriptor) : DurableManifestDescriptor :=
  { descriptor with segments := descriptor.segments.map (fun segment =>
      { segment with
        firstStableSortKey := codec.text segment.firstStableSortKey
        lastStableSortKey := codec.text segment.lastStableSortKey }) }

end SegmentCodec

structure DurableManifest (V : Type) where
  descriptor : DurableManifestDescriptor
  segments : List (List (ManifestRow V))

structure ManifestWriter (V : Type) where
  descriptors : List DurableManifestSegmentDescriptor
  segments : List (List (ManifestRow V))
  values : List (ManifestRow V)
  bytes : ℕ
  ordinal : ℕ
  ascending : Bool
  descending : Bool
  previousStableSortKey : Option JsString

namespace ManifestWriter

def init : ManifestWriter V where
  descriptors := []
  segments := []
  values := []
  bytes := 0
  ordinal := 0
  ascending := true
  descending := true
  previousStableSortKey := none

def segmentDescriptor (first : ManifestRow V) (values : List (ManifestRow V)) :
    DurableManifestSegmentDescriptor where
  firstOrdinal := first.ordinal
  entryCount := (first :: values).length
  firstStableSortKey := first.item.stableSortKey
  lastStableSortKey := ((first :: values).getLast (by simp)).item.stableSortKey

variable (codec : SegmentCodec V)

def flush (w : ManifestWriter V) : Option (ManifestWriter V) :=
  match w.values with
  | [] => some w
  | first :: rest =>
    if codec.accepts w.values then
      some { w with
        descriptors := w.descriptors ++ [segmentDescriptor first rest]
        segments := w.segments ++ [w.values]
        values := []
        bytes := 0 }
    else none

def comparePrevious (w : ManifestWriter V) (key : JsString) : ManifestWriter V :=
  match w.previousStableSortKey with
  | none => { w with previousStableSortKey := some key }
  | some previous =>
    { w with
      ascending := w.ascending && !decide (key < previous)
      descending := w.descending && !decide (previous < key)
      previousStableSortKey := some key }

def flushFull (w : ManifestWriter V) (valueBytes : ℕ) : Option (ManifestWriter V) :=
  if w.values ≠ [] ∧ (manifestSegmentRows ≤ w.values.length ∨
    manifestSegmentBytes < w.bytes + valueBytes) then
    w.flush codec
  else some w

def push (w : ManifestWriter V) (item : QueryStreamItem V) (valueBytes : ℕ) : ManifestWriter V :=
  { w with
    values := w.values ++ [⟨item, w.ordinal⟩]
    ordinal := w.ordinal + 1
    bytes := w.bytes + valueBytes }

def appendItem (w : ManifestWriter V) (item : QueryStreamItem V) : Option (ManifestWriter V) := do
  let valueBytes ← codec.canonicalBytes item
  let w ← (w.comparePrevious item.stableSortKey).flushFull codec valueBytes
  pure (w.push item valueBytes)

def descriptor (w : ManifestWriter V) : DurableManifestDescriptor where
  entryCount := w.ordinal
  segments := w.descriptors
  positionOrder := if w.ascending then .ascending else if w.descending then .descending
  else .unordered

end ManifestWriter

namespace DurableManifest

variable (codec : SegmentCodec V)

def append (items : List (QueryStreamItem V)) : Option (DurableManifest V) := do
  let w ← items.foldlM (ManifestWriter.appendItem codec) ManifestWriter.init
  let w ← w.flush codec
  if codec.acceptsDescriptor w.descriptor then pure ⟨w.descriptor, w.segments⟩ else none

end DurableManifest

def compareStableSortKeys (left right : JsString) : Ordering :=
  if left < right then .lt else if right < left then .gt else .eq

def compareInPositionOrder (left right : JsString) (descending : Bool) : Ordering :=
  let comparison := compareStableSortKeys left right
  if descending then comparison.swap else comparison

-- The loop keeps `high + 1`: it ends when nothing lies between `low` and it.
def candidateLoop (segments : List DurableManifestSegmentDescriptor) (position : JsString)
    (descending : Bool) :
    ℕ → ℕ → ℕ → Option ℕ → Option ℕ
  | 0, _, _, candidate => candidate
  | fuel + 1, low, stop, candidate =>
    if low < stop then
      let middle := low + (stop - 1 - low) / 2
      match segments[middle]? with
      | none => candidate
      | some segment =>
        if compareInPositionOrder segment.firstStableSortKey position descending ≠ .gt then
          candidateLoop segments position descending fuel (middle + 1) stop (some middle)
        else candidateLoop segments position descending fuel low middle candidate
    else candidate

def earliestCandidate (segments : List DurableManifestSegmentDescriptor) (position : JsString) :
    ℕ → ℕ
  | 0 => 0
  | candidate + 1 =>
    if (segments[candidate]?).map (·.lastStableSortKey) = some position then
      earliestCandidate segments position candidate
    else candidate + 1

def segmentIndexForPosition (descriptor : DurableManifestDescriptor) (position : JsString) :
    Option ℕ :=
  if descriptor.positionOrder = .unordered then none
  else do
    let descending := decide (descriptor.positionOrder = .descending)
    let found ← candidateLoop descriptor.segments position descending descriptor.segments.length 0
      descriptor.segments.length none
    let candidate := earliestCandidate descriptor.segments position found
    let segment ← descriptor.segments[candidate]?
    if compareInPositionOrder position segment.lastStableSortKey descending = .gt then none
    else pure candidate

def ordinalLoop (segments : List DurableManifestSegmentDescriptor) (ordinal : ℕ) : ℕ → ℕ → ℕ → ℕ
  | 0, low, _ => min low (segments.length - 1)
  | fuel + 1, low, stop =>
    if low < stop then
      let middle := low + (stop - 1 - low) / 2
      match segments[middle]? with
      | none => min low (segments.length - 1)
      | some segment =>
        if ordinal < segment.firstOrdinal then ordinalLoop segments ordinal fuel low middle
        else if segment.firstOrdinal + segment.entryCount ≤ ordinal then
          ordinalLoop segments ordinal fuel (middle + 1) stop
        else middle
    else min low (segments.length - 1)

def segmentIndexForOrdinal (segments : List DurableManifestSegmentDescriptor) (ordinal : ℕ) : ℕ :=
  ordinalLoop segments ordinal segments.length 0 segments.length

def pushRows (limit nextOrdinal : ℕ) : List (ManifestRow V) → List (QueryStreamItem V) →
      List (QueryStreamItem V)
  | [], page => page
  | row :: rows, page =>
    if row.ordinal < nextOrdinal then pushRows limit nextOrdinal rows page
    else if limit ≤ (page ++ [row.item]).length then page ++ [row.item]
    else pushRows limit nextOrdinal rows (page ++ [row.item])

def pushSegments (limit nextOrdinal : ℕ) :
    List (List (ManifestRow V)) → List (QueryStreamItem V) → List (QueryStreamItem V)
  | [], page => page
  | rows :: segments, page =>
    if page.length < limit then pushSegments limit nextOrdinal segments
      (pushRows limit nextOrdinal rows page)
    else page

namespace DurableManifest

variable (codec : SegmentCodec V)

def hydrate (manifest : DurableManifest V) (index : ℕ) : List (ManifestRow V) :=
  match manifest.descriptor.segments[index]?, manifest.segments[index]? with
  | some segment, some rows =>
    ((rows.map codec.row).filter (fun row => decide (segment.firstOrdinal ≤ row.ordinal ∧
      row.ordinal < segment.firstOrdinal + segment.entryCount))).take segment.entryCount
  | _, _ => []

def positionOrdinal (manifest : DurableManifest V) (position : JsString) : Option ℕ :=
  let descriptor := codec.descriptor manifest.descriptor
  let candidates := (segmentIndexForPosition descriptor position).elim
    (List.range descriptor.segments.length) (fun index => [index])
  candidates.findSome? (fun index => ((manifest.hydrate codec index).find? (fun row =>
    decide (row.item.stableSortKey = position))).map ManifestRow.ordinal)

def read (manifest : DurableManifest V) (request : ManifestStreamReadRequest) :
    ManifestStreamReadResult V :=
  let descriptor := codec.descriptor manifest.descriptor
  if descriptor.entryCount = 0 then ⟨[], false, none⟩
  else
    let nextOrdinal := (request.position.bind (manifest.positionOrdinal codec)).elim 0 (· + 1)
    let page := if nextOrdinal < descriptor.entryCount ∧ 0 < request.limit then
        let segmentIndex := segmentIndexForOrdinal descriptor.segments nextOrdinal
        pushSegments request.limit nextOrdinal
          (((List.range descriptor.segments.length).drop segmentIndex).map (manifest.hydrate codec))
            []
      else []
    ⟨page, decide (nextOrdinal + page.length < descriptor.entryCount), some descriptor.entryCount⟩

end DurableManifest

end Engine
