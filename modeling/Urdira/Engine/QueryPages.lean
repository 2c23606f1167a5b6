import Urdira.Engine.ManifestStore

namespace Engine

variable {V : Type}

structure ResponseBudget where
  maxItems : ℕ
  maxCharacters : ℕ

structure QueryCursorClaims where
  stablePosition : JsString
  direction : CursorDirection
  responseBudgetCeilingDigest : JsString
  expiresAt : ℕ

inductive QueryError where
  | budgetInvalid
  | cursorExpired (expiresAt : ℕ)
  | cursorProjectionMismatch
  | cursorInvalid (index : ℕ)
  | manifestRejected

inductive PageOrigin where
  | cursor (claims : QueryCursorClaims) (expectedResponseBudgetCeilingDigest : JsString)
  | initial (direction : CursorDirection) (responseBudgetCeilingDigest : JsString) (expiresAt : ℕ)

structure ReadPageRequest (V : Type) where
  origin : PageOrigin
  now : ℕ
  limit : ℕ
  maxCharacters : ℕ
  reader : CursorDirection → ManifestStreamReadRequest → ManifestStreamReadResult V
  hydrateItem : Option (QueryStreamItem V → ℕ → Option (QueryStreamItem V))

structure ReadPageResult (V : Type) where
  pageStartCursor : QueryCursorClaims
  total : Option ℕ
  items : List (QueryStreamItem V)
  nextCursor : Option QueryCursorClaims
  previousCursor : Option QueryCursorClaims
  hasNext : Bool
  hasPrevious : Bool

-- The length of an item's JSON text, and of the source snippets inside it.
structure ItemSizes (V : Type) where
  characters : QueryStreamItem V → ℕ
  snippetCharacters : QueryStreamItem V → ℕ

def CursorDirection.opposite : CursorDirection → CursorDirection
  | .forward => .backward
  | .backward => .forward

def QueryCursorClaims.make (claims : QueryCursorClaims) (direction : CursorDirection)
    (position : JsString) :
    QueryCursorClaims :=
  { claims with direction := direction, stablePosition := position }

def PageOrigin.claims (now : ℕ) : PageOrigin → Except QueryError QueryCursorClaims
  | .cursor claims expected =>
    if claims.expiresAt ≤ now then .error (.cursorExpired claims.expiresAt)
    else if claims.responseBudgetCeilingDigest ≠ expected then .error .cursorProjectionMismatch
    else .ok claims
  | .initial direction digest expiresAt => .ok ⟨[], direction, digest, expiresAt⟩

def hydrateWith (hydrateItem : Option (QueryStreamItem V → ℕ → Option (QueryStreamItem V)))
    (raw : QueryStreamItem V) (sourceCharacters : ℕ) : Option (QueryStreamItem V) :=
  match hydrateItem with
  | none => some raw
  | some hydrate => hydrate raw sourceCharacters

def fitItems (sizes : ItemSizes V)
    (hydrateItem : Option (QueryStreamItem V → ℕ → Option (QueryStreamItem V)))
    (maxCharacters : ℕ) : List (QueryStreamItem V) → ℕ → ℕ → List (QueryStreamItem V) →
      List (QueryStreamItem V)
  | [], _, _, items => items
  | raw :: rest, consumedCharacters, sourceCharacters, items =>
    match hydrateWith hydrateItem raw sourceCharacters with
    | none => items
    | some hydrated =>
      if 0 < items.length ∧ maxCharacters <
        consumedCharacters + sizes.characters hydrated then items
      else fitItems sizes hydrateItem maxCharacters rest
        (consumedCharacters + sizes.characters hydrated)
        (sourceCharacters + sizes.snippetCharacters hydrated) (items ++ [hydrated])

def safePosition (item : Option (QueryStreamItem V)) (index : ℕ) :
    Except QueryError (Option JsString) :=
  match item with
  | none => .ok none
  | some item => if item.stableSortKey = [] then .error (.cursorInvalid index)
    else .ok (some item.stableSortKey)

def readPage (sizes : ItemSizes V) (request : ReadPageRequest V) :
    Except QueryError (ReadPageResult V) :=
  if request.limit < 1 ∨ request.maxCharacters < 1 then .error .budgetInvalid
  else do
    let claims ← request.origin.claims request.now
    let position := if claims.stablePosition = [] then none else some claims.stablePosition
    let result := request.reader claims.direction ⟨position, request.limit + 1⟩
    let itemLimited := result.items.take request.limit
    let items := fitItems sizes request.hydrateItem request.maxCharacters itemLimited 0 0 []
    let characterTruncated := decide (items.length < itemLimited.length)
    let hasMore :=
      result.hasMore || decide (request.limit < result.items.length) || characterTruncated
    let firstPosition ← safePosition items.head? 0
    let lastPosition ← safePosition items.getLast? (items.length - 1)
    pure {
      pageStartCursor := claims
      total := result.total
      items := items
      nextCursor := if hasMore then lastPosition.map (claims.make claims.direction) else none
      previousCursor :=
        if claims.stablePosition = [] then none
        else firstPosition.map (claims.make claims.direction.opposite)
      hasNext := hasMore
      hasPrevious := decide (claims.stablePosition ≠ []) }

inductive QueryManifestStore (V : Type) where
  | memory
  | durable (codec : SegmentCodec V)

inductive StoredManifest (V : Type) where
  | memory (manifest : MemoryManifest V)
  | durable (codec : SegmentCodec V) (manifest : DurableManifest V)

def QueryManifestStore.append (items : List (QueryStreamItem V)) :
    QueryManifestStore V → Except QueryError (StoredManifest V)
  | .memory => .ok (.memory (memoryManifest items))
  | .durable codec =>
    match DurableManifest.append codec items with
    | none => .error .manifestRejected
    | some manifest => .ok (.durable codec manifest)

def StoredManifest.read (request : ManifestStreamReadRequest) :
    StoredManifest V → ManifestStreamReadResult V
  | .memory manifest => manifest.read request
  | .durable codec manifest => manifest.read codec request

structure ExecutionManifests (V : Type) where
  forward : StoredManifest V
  backward : StoredManifest V

def ExecutionManifests.read (manifests : ExecutionManifests V) (direction : CursorDirection)
    (request : ManifestStreamReadRequest) : ManifestStreamReadResult V :=
  match direction with
  | .forward => manifests.forward.read request
  | .backward => manifests.backward.read request

inductive StreamValue (V : Type) where
  | keyed (item : QueryStreamItem V)
  | bare (fields : V)

def decimalText (n : ℕ) : JsString :=
  (Nat.toDigits 10 n).map (fun digit => Fin.ofNat 65536 digit.toNat)

def StreamValue.item (index : ℕ) : StreamValue V → QueryStreamItem V
  | .keyed item => item
  | .bare fields => ⟨(decimalText index).leftpad 12 48, fields⟩

def streamItems (values : List (StreamValue V)) : List (QueryStreamItem V) :=
  values.mapIdx StreamValue.item

structure QueryContinuation where
  pageItemLimit : Option ℕ
  now : ℕ

structure QueryEngine (V : Type) where
  store : QueryManifestStore V
  sizes : ItemSizes V
  hydrateItem : Option (QueryStreamItem V → ℕ → Option (QueryStreamItem V))
  budgetDigest : ResponseBudget → JsString

namespace QueryEngine

variable (engine : QueryEngine V)

-- One stream of execute. remainingCharacters is what the streams before it left of the budget.
def executeStream (budget : ResponseBudget) (now remainingCharacters : ℕ)
    (values : List (StreamValue V)) :
    Except QueryError (ExecutionManifests V × ReadPageResult V) := do
  let forward ← engine.store.append (streamItems values)
  let backward ← engine.store.append (streamItems values).reverse
  let manifests : ExecutionManifests V := ⟨forward, backward⟩
  let page ← readPage engine.sizes {
    origin := .initial .forward (engine.budgetDigest budget) (now + 15 * 60 * 1000)
    now := now
    limit := budget.maxItems
    maxCharacters := max 1 remainingCharacters
    reader := manifests.read
    hydrateItem := engine.hydrateItem }
  pure (manifests, page)

def continuePage (budget : ResponseBudget) (manifests : ExecutionManifests V)
    (cursor : QueryCursorClaims)
    (request : QueryContinuation) : Except QueryError (ReadPageResult V) :=
  let pageLimit := request.pageItemLimit.getD budget.maxItems
  if budget.maxItems < pageLimit then .error .budgetInvalid
  else do
    let read ← readPage engine.sizes {
      origin := .cursor cursor (engine.budgetDigest budget)
      now := request.now
      limit := max 1 pageLimit
      maxCharacters := budget.maxCharacters
      reader := manifests.read
      hydrateItem := if pageLimit = 0 then none else engine.hydrateItem }
    if pageLimit = 0 then
      let hasNext := decide (0 < read.items.length) || read.hasNext
      pure {
        pageStartCursor := cursor
        total := read.total
        items := []
        nextCursor := if hasNext then some cursor else none
        previousCursor := none
        hasNext := hasNext
        hasPrevious := false }
    else
      match cursor.direction with
      | .forward => pure read
      | .backward => pure {
          pageStartCursor := read.pageStartCursor
          total := read.total
          items := read.items.reverse
          nextCursor := read.previousCursor
          previousCursor := read.nextCursor
          hasNext := read.hasPrevious
          hasPrevious := read.hasNext }

end QueryEngine

end Engine
