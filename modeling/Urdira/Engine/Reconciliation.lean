import Mathlib.Data.List.Basic
import Mathlib.Logic.Function.Basic

namespace Engine

structure EngineError where
  code : String
  message : String
  deriving DecidableEq, Repr

inductive WatcherEventClass where
  | presence
  | modify
  | absence
  | exclusion
  | overflow
  | providerReset
  | administrative
  | gitHead
  | gitIndex
  | worktreeAdministration
  | providerRootTransition
  deriving DecidableEq, Repr

inductive HintAuthority where
  | hint
  | authoritativeDelete
  deriving DecidableEq, Repr

structure WatcherBinding where
  workspaceId : String
  sourceProviderBindingId : String
  sourceProvider : String
  sourceProviderVersion : String
  orderingDomain : String
  mutableWatched : Bool
  deriving DecidableEq, Repr

-- `arrival` stands for the identity of the hint object: its place among all hints accepted so far,
-- given to it by `receive`.
structure WatcherHint where
  arrival : ℕ
  workspaceId : String
  sourceProviderBindingId : String
  orderingDomain : String
  providerSequence : String
  eventClass : WatcherEventClass
  normalizedUri : String
  authority : HintAuthority
  deriving DecidableEq, Repr

structure WatcherHintBatch where
  workspaceId : String
  sourceProviderBindingId : String
  sourceProvider : String
  sourceProviderVersion : String
  orderingDomain : String
  events : List WatcherHint
  deriving DecidableEq, Repr

inductive ReconciliationKind where
  | targeted
  | administrative
  | complete
  deriving DecidableEq, Repr

inductive ReconciliationTrigger where
  | settledBatch
  | maximumBatchWindow
  | absenceBarrier
  | exclusionBarrier
  | watcherOverflow
  | providerReset
  | providerRestart
  | daemonRecovery
  | resume
  | explicitFreshness
  | unprovenFreshness
  | periodic
  | administrativeChange
  | sourceBarrier
  deriving DecidableEq, Repr

structure ReconciliationRequest where
  workspaceId : String
  sourceProviderBindingId : String
  sourceProvider : String
  sourceProviderVersion : String
  orderingDomain : String
  kind : ReconciliationKind
  trigger : ReconciliationTrigger
  hints : List WatcherHint
  sourceBarrier : Bool
  sourceEpoch : ℕ
  deriving DecidableEq, Repr

structure ReconciliationResult where
  stable : Bool
  equivalent : Bool
  checkpointId : String
  hasTargetState : Bool
  deriving DecidableEq, Repr

inductive ReconciliationCommitOutcome where
  | committed
  | stale
  deriving DecidableEq, Repr

inductive SourceBarrierState where
  | stale
  | current
  | degraded
  deriving DecidableEq, Repr

structure BindingState where
  binding : WatcherBinding
  hints : List WatcherHint
  firstHintAt : Option ℕ
  quietTimer : Option ℕ
  maximumTimer : Option ℕ
  periodicTimer : Option ℕ
  barrierRetryTimer : Option ℕ
  barrierOpen : Bool
  barrierState : SourceBarrierState
  barrierAttempts : ℕ
  barrierErrorCode : Option String
  barrierStatePersisted : Bool
  sourceEpoch : ℕ

inductive TimerAction where
  | quiet
  | maximum
  | periodic
  | barrierRetry
  deriving DecidableEq, Repr

structure Timer where
  handle : ℕ
  binding : String
  action : TimerAction
  delayMs : ℕ
  deriving DecidableEq, Repr

inductive Operation where
  | reconcile (binding : String) (kind : ReconciliationKind) (trigger : ReconciliationTrigger)
      (sourceBarrier : Bool) (hints : List WatcherHint) (sourceEpoch : ℕ)
  | runSourceBarrier (binding : String)

-- The await at which the running operation of the promise queue is suspended. The hints, kind and
-- epoch its closure holds are those of its request.
inductive Running where
  | reconciling (binding : String) (request : ReconciliationRequest)
  | committing (binding : String) (request : ReconciliationRequest)
  | barrierPersisting (binding : String)
  | barrierAdministrative (binding : String) (complete : ReconciliationRequest)
  | barrierComplete (binding : String) (complete : ReconciliationRequest)
  | barrierCommitting (binding : String) (complete : ReconciliationRequest)
  | barrierDegrading (binding : String)

inductive Settlement where
  | reconciled (result : ReconciliationResult)
  | reconcileFailed (error : EngineError)
  | commitSettled (outcome : ReconciliationCommitOutcome)
  | commitFailed (error : EngineError)
  | barrierStateSet
  | barrierStateFailed (error : EngineError)

structure Coordinator where
  workspaceId : String
  quietWindowMs : ℕ
  maximumBatchMs : ℕ
  completeIntervalMs : ℕ
  barrierRetryMs : ℕ
  maximumBarrierAttempts : ℕ
  registered : List String
  states : String → BindingState
  queue : List Operation
  running : Option Running
  queuedError : Option EngineError
  closed : Bool
  timers : List Timer
  nextHandle : ℕ
  -- The hints accepted so far, and what the port has seen: the requests handed to reconcile and those
  -- whose commit returned committed.
  accepted : List (String × WatcherHint)
  requested : List ReconciliationRequest
  committed : List (String × ReconciliationRequest)

def sourceBarrierEvents : List WatcherEventClass :=
  [.administrative, .gitHead, .gitIndex, .worktreeAdministration, .providerRootTransition]

namespace Coordinator

variable (c : Coordinator) (b : String)

def setState (state : BindingState) : Coordinator :=
  { c with states := Function.update c.states b state }

def setTimeout (action : TimerAction) (delayMs : ℕ) : Coordinator :=
  { c with
    timers := c.timers ++ [⟨c.nextHandle, b, action, delayMs⟩], nextHandle := c.nextHandle + 1 }

def clearTimeout (handle : Option ℕ) : Coordinator :=
  { c with timers := c.timers.filter (fun timer => some timer.handle ≠ handle) }

def clearBatchTimers : Coordinator :=
  let state := c.states b
  ((c.clearTimeout state.quietTimer).clearTimeout state.maximumTimer).setState b
    { state with quietTimer := none, maximumTimer := none, firstHintAt := none }

def clearAllTimers : Coordinator :=
  let c := c.clearBatchTimers b
  let state := c.states b
  ((c.clearTimeout state.periodicTimer).clearTimeout state.barrierRetryTimer).setState b
    { state with periodicTimer := none, barrierRetryTimer := none }

def enqueue (operation : Operation) : Coordinator := { c with queue := c.queue ++ [operation] }

def pushHints (hints : List WatcherHint) : Coordinator :=
  let state := c.states b
  c.setState b { state with hints := state.hints ++ hints }

def emptyHints : Coordinator :=
  let state := c.states b
  (c.setState b { state with hints := [] }).clearBatchTimers b

def restorePrefix (hints : List WatcherHint) : Coordinator :=
  let state := c.states b
  if hints.length > 0 then c.setState b { state with hints := hints ++ state.hints } else c

def request (kind : ReconciliationKind) (trigger : ReconciliationTrigger) (hints : List WatcherHint)
    (sourceBarrier : Bool) (sourceEpoch : ℕ) : ReconciliationRequest :=
  let binding := (c.states b).binding
  { workspaceId := c.workspaceId
    sourceProviderBindingId := binding.sourceProviderBindingId
    sourceProvider := binding.sourceProvider
    sourceProviderVersion := binding.sourceProviderVersion
    orderingDomain := binding.orderingDomain
    kind, trigger, hints, sourceBarrier, sourceEpoch }

def queueFlush (kind : ReconciliationKind) (trigger : ReconciliationTrigger)
    (sourceBarrier : Bool) :
    Coordinator :=
  if kind = .targeted ∧ (c.states b).barrierOpen then c
  else
    let hints := (c.states b).hints
    let c := c.emptyHints b
    let epoch := (c.states b).sourceEpoch
    c.enqueue (.reconcile b kind trigger sourceBarrier hints epoch)

def completeNow (trigger : ReconciliationTrigger) (extraHints : List WatcherHint) : Coordinator :=
  let c := c.pushHints b extraHints
  if (c.states b).barrierOpen then
    let state := c.states b
    let c := (c.setState b { state with sourceEpoch := state.sourceEpoch + 1 }).clearBatchTimers b
    if trigger ≠ .periodic then c.enqueue (.runSourceBarrier b) else c
  else c.queueFlush b .complete trigger false

def scheduleBatch (now : ℕ) : Coordinator :=
  let state := c.states b
  let c := if state.firstHintAt = none then
      (c.setState b
        { state with firstHintAt := some now, maximumTimer := some c.nextHandle }).setTimeout b
        .maximum c.maximumBatchMs
    else c
  let c := c.clearTimeout (c.states b).quietTimer
  let state := c.states b
  (c.setState b { state with quietTimer := some c.nextHandle }).setTimeout b .quiet c.quietWindowMs

def schedulePeriodic : Coordinator :=
  let state := c.states b
  (c.setState b { state with periodicTimer := some c.nextHandle }).setTimeout b .periodic
    c.completeIntervalMs

def openBarrier : Coordinator :=
  let state := c.states b
  (c.setState b { state with
    barrierOpen := true
    barrierState := .stale
    barrierAttempts := 0
    barrierErrorCode := none
    barrierStatePersisted := false }).enqueue (.runSourceBarrier b)

def receive (hint : WatcherHint) : WatcherHint × Coordinator :=
  let hint := { hint with arrival := c.accepted.length }
  (hint, { c with accepted := c.accepted ++ [(b, hint)] })

def acceptHint (now : ℕ) (hint : WatcherHint) : Coordinator :=
  let (hint, c) := c.receive b hint
  let state := c.states b
  let c := c.setState b { state with sourceEpoch := state.sourceEpoch + 1 }
  if hint.eventClass ∈ sourceBarrierEvents then
    let c := (c.pushHints b [hint]).clearBatchTimers b
    let state := c.states b
    if ¬ state.barrierOpen then c.openBarrier b
    else if state.barrierState = .degraded then c.openBarrier b
    else c
  else if hint.eventClass = .overflow then c.completeNow b .watcherOverflow [hint]
  else if hint.eventClass = .providerReset then c.completeNow b .providerReset [hint]
  else if (c.states b).barrierOpen then c.pushHints b [hint]
  else if hint.eventClass = .absence then
    (c.pushHints b [hint]).queueFlush b .targeted .absenceBarrier false
  else if hint.eventClass = .exclusion then
    (c.pushHints b [hint]).queueFlush b .targeted .exclusionBarrier false
  else (c.pushHints b [hint]).scheduleBatch b now

def unstableError : EngineError :=
  ⟨"engine:reconciliation_unstable", "The provider did not produce a stable reconciliation result."⟩

def targetStateRequiredError : EngineError :=
  ⟨"engine:reconciliation_target_state_required",
    "A changed stable reconciliation must provide one target state."⟩

def await (running : Running) : Coordinator := { c with running := some running }

def finish : Coordinator := { c with running := none }

def callReconcile (request : ReconciliationRequest) (running : Running) : Coordinator :=
  { c with requested := c.requested ++ [request], running := some running }

def recordCommit (request : ReconciliationRequest) : Coordinator :=
  { c with committed := c.committed ++ [(b, request)] }

def failReconcile (hints : List WatcherHint) (error : EngineError) : Coordinator :=
  { (c.restorePrefix b hints).finish with queuedError := some error }

def missingTargetState (result : ReconciliationResult) : Bool :=
  !result.equivalent && !result.hasTargetState

def reconcile (kind : ReconciliationKind) (trigger : ReconciliationTrigger) (sourceBarrier : Bool)
    (hints : List WatcherHint) (sourceEpoch : ℕ) : Coordinator :=
  if kind = .targeted ∧ (c.states b).barrierOpen then (c.restorePrefix b hints).finish
  else
    let request := c.request b kind trigger hints sourceBarrier sourceEpoch
    c.callReconcile request (.reconciling b request)

def reconcileSettled (request : ReconciliationRequest) (result : ReconciliationResult) :
    Coordinator :=
  if request.kind = .targeted ∧
    (c.states b).barrierOpen then (c.restorePrefix b request.hints).finish
  else if ¬ result.stable then c.failReconcile b request.hints unstableError
  else if missingTargetState result then c.failReconcile b request.hints targetStateRequiredError
  else c.await (.committing b request)

def captureBarrier : Coordinator :=
  let hints := (c.states b).hints
  let c := c.emptyHints b
  let epoch := (c.states b).sourceEpoch
  let administrative := c.request b .administrative .administrativeChange hints true epoch
  let complete := c.request b .complete .sourceBarrier hints true epoch
  c.callReconcile administrative (.barrierAdministrative b complete)

def runSourceBarrier : Coordinator :=
  let state := c.states b
  if state.barrierOpen ∧ state.barrierState ≠ .degraded ∧ ¬ c.closed then
    if ¬ state.barrierStatePersisted then c.await (.barrierPersisting b) else c.captureBarrier b
  else c.finish

def barrierFailed : Coordinator :=
  let state := c.states b
  let attempts := state.barrierAttempts + 1
  if c.maximumBarrierAttempts ≤ attempts then
    (c.setState b { state with
      barrierAttempts := attempts
      barrierState := .degraded
      barrierErrorCode := some "engine:source_barrier_reconciliation_failed" }).await
        (.barrierDegrading b)
  else
    ((c.setState b { state with
      barrierAttempts := attempts
      barrierRetryTimer := some c.nextHandle }).setTimeout b .barrierRetry c.barrierRetryMs).finish

def setPersisted (persisted : Bool) : Coordinator :=
  let state := c.states b
  c.setState b { state with barrierStatePersisted := persisted }

def barrierCaptured (complete : ReconciliationRequest) (result : ReconciliationResult) :
    Coordinator :=
  if ¬ result.stable then (c.restorePrefix b complete.hints).barrierFailed b
  else if (c.states b).sourceEpoch ≠ complete.sourceEpoch then
    (c.restorePrefix b complete.hints).runSourceBarrier b
  else if missingTargetState result then (c.restorePrefix b complete.hints).barrierFailed b
  else c.await (.barrierCommitting b complete)

def barrierCommitted (complete : ReconciliationRequest) : Coordinator :=
  let c := c.recordCommit b complete
  let state := c.states b
  if state.sourceEpoch ≠ complete.sourceEpoch then (c.setPersisted b false).runSourceBarrier b
  else
    (c.setState b { state with
      barrierOpen := false
      barrierState := .current
      barrierAttempts := 0
      barrierErrorCode := none
      barrierStatePersisted := true }).runSourceBarrier b

def degradeFailed : Coordinator :=
  let state := c.states b
  (c.setState b { state with
    barrierErrorCode := some "engine:source_barrier_state_write_failed"
    barrierStatePersisted := false }).finish

def settle (settlement : Settlement) : Coordinator :=
  match c.running, settlement with
  | some (.reconciling b request), .reconciled result => c.reconcileSettled b request result
  | some (.reconciling b request), .reconcileFailed error => c.failReconcile b request.hints error
  | some (.committing b request), .commitSettled .committed => (c.recordCommit b request).finish
  | some (.committing b request), .commitSettled .stale => (c.restorePrefix b request.hints).finish
  | some (.committing b request), .commitFailed error => c.failReconcile b request.hints error
  | some (.barrierPersisting b), .barrierStateSet => (c.setPersisted b true).captureBarrier b
  | some (.barrierPersisting b), .barrierStateFailed _ => c.barrierFailed b
  | some (.barrierAdministrative b complete), .reconciled _ =>
    c.callReconcile complete (.barrierComplete b complete)
  | some (.barrierAdministrative b complete), .reconcileFailed _ =>
    (c.restorePrefix b complete.hints).barrierFailed b
  | some (.barrierComplete b complete), .reconciled result => c.barrierCaptured b complete result
  | some (.barrierComplete b complete), .reconcileFailed _ =>
    (c.restorePrefix b complete.hints).barrierFailed b
  | some (.barrierCommitting b complete), .commitSettled .committed => c.barrierCommitted b complete
  | some (.barrierCommitting b complete), .commitSettled .stale =>
    (c.restorePrefix b complete.hints).runSourceBarrier b
  | some (.barrierCommitting b complete), .commitFailed _ =>
    (c.restorePrefix b complete.hints).barrierFailed b
  | some (.barrierDegrading b), .barrierStateSet => (c.setPersisted b true).finish
  | some (.barrierDegrading b), .barrierStateFailed _ => c.degradeFailed b
  | _, _ => c

def perform (operation : Operation) : Coordinator :=
  match operation with
  | .reconcile b kind trigger sourceBarrier hints sourceEpoch =>
    c.reconcile b kind trigger sourceBarrier hints sourceEpoch
  | .runSourceBarrier b => c.runSourceBarrier b

def queueStep : Coordinator :=
  match c.running, c.queue with
  | none, operation :: rest => perform { c with queue := rest } operation
  | _, _ => c

def expire (timer : Timer) : Coordinator :=
  let c := { c with timers := c.timers.filter (fun t => t.handle ≠ timer.handle) }
  let b := timer.binding
  let state := c.states b
  match timer.action with
  | .quiet => (c.setState b { state with quietTimer := none }).queueFlush b .targeted
      .settledBatch false
  | .maximum =>
    (c.setState b { state with maximumTimer := none }).queueFlush b .targeted
      .maximumBatchWindow false
  | .periodic =>
    let c := c.setState b { state with periodicTimer := none }
    if c.closed then c else (c.completeNow b .periodic []).schedulePeriodic b
  | .barrierRetry =>
    (c.setState b { state with barrierRetryTimer := none }).enqueue (.runSourceBarrier b)

def knows : Except EngineError Unit :=
  if b ∈ c.registered then .ok ()
  else .error ⟨"engine:reconciliation_binding_unknown",
    "Provider binding " ++ b ++ " is not registered."⟩

def accept (now : ℕ) (batch : WatcherHintBatch) : Except EngineError Coordinator := do
  if c.closed then
    throw ⟨"engine:reconciliation_closed", "The reconciliation coordinator is closed."⟩
  let b := batch.sourceProviderBindingId
  c.knows b
  let binding := (c.states b).binding
  if batch.workspaceId ≠ c.workspaceId ∨ batch.sourceProvider ≠ binding.sourceProvider ∨
      batch.sourceProviderVersion ≠ binding.sourceProviderVersion ∨
      batch.orderingDomain ≠ binding.orderingDomain ∨
      batch.events.any (fun event => event.sourceProviderBindingId ≠
        batch.sourceProviderBindingId ||
        event.workspaceId ≠ batch.workspaceId || event.orderingDomain ≠ batch.orderingDomain) then
    throw ⟨"engine:watcher_binding_mismatch",
      "The watcher batch does not match its registered provider binding."⟩
  pure (batch.events.foldl (fun c hint => c.acceptHint b now hint) c)

def providerRestarted : Except EngineError Coordinator := do
  c.knows b
  pure (c.completeNow b .providerRestart [])

def recover : Except EngineError Coordinator := do
  c.knows b
  pure (c.completeNow b .daemonRecovery [])

def resume : Except EngineError Coordinator := do
  c.knows b
  pure (c.completeNow b .resume [])

def requestFreshness (targetedStateProvesFreshness : Bool) : Except EngineError Coordinator := do
  c.knows b
  if targetedStateProvesFreshness then pure (c.queueFlush b .targeted .explicitFreshness false)
  else pure (c.completeNow b .unprovenFreshness [])

def close : Coordinator :=
  if c.closed then c
  else { c.registered.foldl (fun c b => c.clearAllTimers b) c with closed := true }

end Coordinator

structure ReconciliationCoordinatorOptions where
  workspaceId : String
  bindings : List WatcherBinding
  quietWindowMs : Option ℕ
  maximumBatchMs : Option ℕ
  completeIntervalMs : Option ℕ
  barrierRetryMs : Option ℕ
  maximumBarrierAttempts : Option ℕ

def checkedDuration (code : String) (value maximum : ℕ) : Except EngineError ℕ :=
  if value = 0 ∨ maximum < value then
    .error ⟨code, "The reconciliation duration is outside its safety bounds."⟩
  else .ok value

def checkedInterval (interval : ℕ) : Except EngineError ℕ :=
  if interval = 0 then .ok 0
  else checkedDuration "engine:complete_reconciliation_interval_invalid" interval
    (24 * 60 * 60 * 1000)

def BindingState.initial (binding : WatcherBinding) : BindingState where
  binding := binding
  hints := []
  firstHintAt := none
  quietTimer := none
  maximumTimer := none
  periodicTimer := none
  barrierRetryTimer := none
  barrierOpen := false
  barrierState := .current
  barrierAttempts := 0
  barrierErrorCode := none
  barrierStatePersisted := true
  sourceEpoch := 0

namespace Coordinator

def register (c : Coordinator) (binding : WatcherBinding) : Except EngineError Coordinator :=
  if binding.workspaceId ≠ c.workspaceId ∨ binding.sourceProviderBindingId ∈ c.registered then
    .error ⟨"engine:reconciliation_binding_invalid",
      "Provider bindings must be unique and belong to the coordinator workspace."⟩
  else
    let b := binding.sourceProviderBindingId
    .ok { c.setState b (.initial binding) with registered := c.registered ++ [b] }

def new (options : ReconciliationCoordinatorOptions) : Except EngineError Coordinator := do
  if options.workspaceId.length = 0 ∨ options.bindings.length = 0 then
    throw ⟨"engine:reconciliation_configuration_invalid",
      "A workspace and at least one provider binding are required."⟩
  let quiet ← checkedDuration "engine:reconciliation_debounce_invalid"
    (options.quietWindowMs.getD 50) 60000
  let maximum ← checkedDuration "engine:reconciliation_debounce_invalid"
    (options.maximumBatchMs.getD 250) 60000
  let retry ← checkedDuration "engine:reconciliation_retry_invalid"
    (options.barrierRetryMs.getD 50) 60000
  let attempts ← checkedDuration "engine:reconciliation_retry_invalid"
    (options.maximumBarrierAttempts.getD 3) 100
  if maximum < quiet then
    throw ⟨"engine:reconciliation_debounce_invalid",
      "The quiet window cannot exceed the maximum batch window."⟩
  let interval := options.completeIntervalMs.getD (10 * 60 * 1000)
  if interval = 0 ∧ options.bindings.any (fun binding => binding.mutableWatched) then
    throw ⟨"engine:complete_reconciliation_required",
      "Complete reconciliation cannot be disabled for a mutable watched provider."⟩
  let interval ← checkedInterval interval
  let empty : Coordinator :=
    { workspaceId := options.workspaceId
      quietWindowMs := quiet
      maximumBatchMs := maximum
      completeIntervalMs := interval
      barrierRetryMs := retry
      maximumBarrierAttempts := attempts
      registered := []
      states := fun _ => .initial ⟨"", "", "", "", "", false⟩
      queue := []
      running := none
      queuedError := none
      closed := false
      timers := []
      nextHandle := 0
      accepted := []
      requested := []
      committed := [] }
  let c ← options.bindings.foldlM register empty
  if 0 < interval then pure (c.registered.foldl schedulePeriodic c) else pure c

end Coordinator

inductive Event where
  | accept (now : ℕ) (batch : WatcherHintBatch)
  | providerRestarted (binding : String)
  | recover (binding : String)
  | resume (binding : String)
  | requestFreshness (binding : String) (targetedStateProvesFreshness : Bool)
  | expire (handle : ℕ)
  | queueStep
  | settle (settlement : Settlement)
  | close

namespace Coordinator

def attempt (c : Coordinator) (result : Except EngineError Coordinator) : Coordinator :=
  match result with
  | .ok c => c
  | .error _ => c

def step (c : Coordinator) : Event → Coordinator
  | .accept now batch => c.attempt (c.accept now batch)
  | .providerRestarted b => c.attempt (c.providerRestarted b)
  | .recover b => c.attempt (c.recover b)
  | .resume b => c.attempt (c.resume b)
  | .requestFreshness b proves => c.attempt (c.requestFreshness b proves)
  | .expire handle =>
    match c.timers.find? (fun timer => timer.handle = handle) with
    | some timer => c.expire timer
    | none => c
  | .queueStep => c.queueStep
  | .settle settlement => c.settle settlement
  | .close => c.close

def run (c : Coordinator) (events : List Event) : Coordinator := events.foldl step c

end Coordinator

end Engine
