import Mathlib
import Urdira.Engine.Reconciliation
import Urdira.Lib.ExceptOk

open ExceptOk

namespace Engine

@[ext] structure Custody where
  pending : String → List WatcherHint
  queue : List Operation
  running : Option Running
  accepted : List (String × WatcherHint)
  requested : List ReconciliationRequest
  committed : List (String × ReconciliationRequest)

def Operation.captured : Operation → Option (String × List WatcherHint)
  | .reconcile b _ _ _ hints _ => some (b, hints)
  | .runSourceBarrier _ => none

def Running.captured : Running → Option (String × List WatcherHint)
  | .reconciling b request => some (b, request.hints)
  | .committing b request => some (b, request.hints)
  | .barrierAdministrative b complete => some (b, complete.hints)
  | .barrierComplete b complete => some (b, complete.hints)
  | .barrierCommitting b complete => some (b, complete.hints)
  | .barrierPersisting _ => none
  | .barrierDegrading _ => none

def capturedFor (b : String) (captured : Option (String × List WatcherHint)) : List WatcherHint :=
  match captured with
  | some (b', hints) => if b' = b then hints else []
  | none => []

namespace Custody

def append (k : Custody) (b : String) (hints : List WatcherHint) : Custody :=
  { k with pending := Function.update k.pending b (k.pending b ++ hints) }

def clear (k : Custody) (b : String) : Custody :=
  { k with pending := Function.update k.pending b [] }

def restore (k : Custody) (b : String) (hints : List WatcherHint) : Custody :=
  { k with pending := Function.update k.pending b (hints ++ k.pending b) }

def enqueue (k : Custody) (operation : Operation) : Custody :=
  { k with queue := k.queue ++ [operation] }

def hold (k : Custody) (running : Option Running) : Custody := { k with running := running }

def request (k : Custody) (request : ReconciliationRequest) : Custody :=
  { k with requested := k.requested ++ [request] }

def commit (k : Custody) (b : String) (request : ReconciliationRequest) : Custody :=
  { k with committed := k.committed ++ [(b, request)] }

def accept (k : Custody) (b : String) (hint : WatcherHint) : Custody :=
  { k with accepted := k.accepted ++ [(b, hint)] }

-- What one step of the coordinator can do with hints. `guard` restricts the moves that put captured
-- hints back in front of the pending ones.
inductive Move (guard : Custody → String → List WatcherHint → Prop) : Custody → Custody → Prop
  | receive (k : Custody) (b : String) (hint : WatcherHint) (h : hint.arrival = k.accepted.length) :
    Move guard k ((k.accept b hint).append b [hint])
  | flush (k : Custody) (b : String) (operation : Operation)
      (h : operation.captured = some (b, k.pending b)) :
    Move guard k ((k.clear b).enqueue operation)
  | enqueueBarrier (k : Custody) (operation : Operation) (h : operation.captured = none) :
    Move guard k (k.enqueue operation)
  | restoreQueued (k : Custody) (rest : List Operation) (operation : Operation) (b : String)
      (hints : List WatcherHint) (hq : k.queue = operation :: rest) (hr : k.running = none)
      (h : operation.captured = some (b, hints)) (hguard : guard k b hints) :
    Move guard k ({ k with queue := rest }.restore b hints)
  | start (k : Custody) (rest : List Operation) (operation : Operation) (b : String)
      (request : ReconciliationRequest) (running : Running) (hq : k.queue = operation :: rest)
      (hr : k.running = none) (h : operation.captured = some (b, request.hints))
      (h' : running.captured = some (b, request.hints)) :
    Move guard k (({ k with queue := rest }.request request).hold (some running))
  | pop (k : Custody) (rest : List Operation) (operation : Operation)
      (hq : k.queue = operation :: rest) (h : operation.captured = none) :
    Move guard k { k with queue := rest }
  | restoreRunning (k : Custody) (running : Running) (b : String) (hints : List WatcherHint)
      (hr : k.running = some running) (h : running.captured = some (b, hints))
      (hguard : guard k b hints) : Move guard k ((k.restore b hints).hold none)
  | advance (k : Custody) (running running' : Running) (hr : k.running = some running)
      (h : running'.captured = running.captured) : Move guard k (k.hold (some running'))
  | advanceRequest (k : Custody) (running running' : Running) (b : String)
      (request : ReconciliationRequest) (hr : k.running = some running)
      (h : running.captured = some (b, request.hints)) (h' : running'.captured = running.captured) :
    Move guard k ((k.request request).hold (some running'))
  | capture (k : Custody) (b : String) (request : ReconciliationRequest) (running : Running)
      (hr : k.running.bind Running.captured = none) (h : request.hints = k.pending b)
      (h' : running.captured = some (b, k.pending b)) :
    Move guard k (((k.clear b).request request).hold (some running))
  | idle (k : Custody) (running : Option Running) (hr : k.running.bind Running.captured = none)
      (h : running.bind Running.captured = none) : Move guard k (k.hold running)
  | commit (k : Custody) (running : Running) (b : String) (request : ReconciliationRequest)
      (hr : k.running = some running) (h : running.captured = some (b, request.hints)) :
    Move guard k ((k.commit b request).hold none)

abbrev Moves (guard : Custody → String → List WatcherHint → Prop) : Custody → Custody → Prop :=
  Relation.ReflTransGen (Move guard)

end Custody

namespace Coordinator

def custody (c : Coordinator) : Custody where
  pending := fun b => (c.states b).hints
  queue := c.queue
  running := c.running
  accepted := c.accepted
  requested := c.requested
  committed := c.committed

theorem custody_setState {c : Coordinator} {b : String} {state : BindingState}
    (h : state.hints = (c.states b).hints) : (c.setState b state).custody = c.custody := by
  have hpending : ∀ x, ((c.setState b state).states x).hints = (c.states x).hints := by
    intro x
    unfold setState
    by_cases hx : x = b
    · subst hx
      simp [h]
    · simp [Function.update_of_ne hx]
  exact Custody.ext (funext hpending) rfl rfl rfl rfl rfl

theorem custody_setHints (c : Coordinator) (b : String) (state : BindingState) :
    (c.setState b state).custody =
      { c.custody with pending := Function.update c.custody.pending b state.hints } := by
  have hpending : ∀ x, ((c.setState b state).states x).hints =
      Function.update c.custody.pending b state.hints x := by
    intro x
    unfold setState custody
    by_cases hx : x = b
    · subst hx
      simp
    · simp [Function.update_of_ne hx]
  exact Custody.ext (funext hpending) rfl rfl rfl rfl rfl

@[simp] theorem custody_setTimeout (c : Coordinator) (b : String) (action : TimerAction)
    (delayMs : ℕ) :
    (c.setTimeout b action delayMs).custody = c.custody := rfl

@[simp] theorem custody_clearTimeout (c : Coordinator) (handle : Option ℕ) :
    (c.clearTimeout handle).custody = c.custody := rfl

@[simp] theorem custody_clearBatchTimers (c : Coordinator) (b : String) :
    (c.clearBatchTimers b).custody = c.custody := by
  exact custody_setState rfl

@[simp] theorem custody_clearAllTimers (c : Coordinator) (b : String) :
    (c.clearAllTimers b).custody = c.custody := by
  refine (custody_setState ?_).trans ?_
  · rfl
  · exact custody_clearBatchTimers c b

@[simp] theorem custody_pushHints (c : Coordinator) (b : String) (hints : List WatcherHint) :
    (c.pushHints b hints).custody = c.custody.append b hints := custody_setHints c b _

@[simp] theorem custody_emptyHints (c : Coordinator) (b : String) :
    (c.emptyHints b).custody = c.custody.clear b := by
  unfold emptyHints
  rw [custody_clearBatchTimers, custody_setHints]
  rfl

@[simp] theorem custody_restorePrefix (c : Coordinator) (b : String) (hints : List WatcherHint) :
    (c.restorePrefix b hints).custody = c.custody.restore b hints := by
  unfold restorePrefix
  cases hints with
  | nil => exact Custody.ext (Function.update_eq_self b _).symm rfl rfl rfl rfl rfl
  | cons h hs => exact custody_setHints c b _

@[simp] theorem custody_enqueue (c : Coordinator) (operation : Operation) :
    (c.enqueue operation).custody = c.custody.enqueue operation := rfl

@[simp] theorem custody_finish (c : Coordinator) : c.finish.custody = c.custody.hold none := rfl

@[simp] theorem custody_await (c : Coordinator) (running : Running) :
    (c.await running).custody = c.custody.hold (some running) := rfl

@[simp] theorem custody_callReconcile (c : Coordinator) (request : ReconciliationRequest)
    (running : Running) :
    (c.callReconcile request running).custody = (c.custody.request request).hold (some running) :=
  rfl

@[simp] theorem custody_failReconcile (c : Coordinator) (b : String) (hints : List WatcherHint)
    (error : EngineError) :
    (c.failReconcile b hints error).custody = (c.custody.restore b hints).hold none := by
  change ((c.restorePrefix b hints).finish).custody = _
  simp

@[simp] theorem custody_setPersisted (c : Coordinator) (b : String) (persisted : Bool) :
    (c.setPersisted b persisted).custody = c.custody := custody_setState rfl

@[simp] theorem custody_scheduleBatch (c : Coordinator) (b : String) (now : ℕ) :
    (c.scheduleBatch b now).custody = c.custody := by
  refine (custody_setState ?_).trans ?_
  · rfl
  · rw [custody_clearTimeout]
    split_ifs
    · exact custody_setState rfl
    · rfl

@[simp] theorem custody_schedulePeriodic (c : Coordinator) (b : String) :
    (c.schedulePeriodic b).custody = c.custody := by
  exact custody_setState rfl

@[simp] theorem custody_openBarrier (c : Coordinator) (b : String) :
    (c.openBarrier b).custody = c.custody.enqueue (.runSourceBarrier b) := by
  refine congrArg (fun k : Custody => k.enqueue (.runSourceBarrier b)) (custody_setState ?_)
  rfl

variable {guard : Custody → String → List WatcherHint → Prop}

theorem append_nil (k : Custody) (b : String) : k.append b [] = k := by
  have hpending : Function.update k.pending b (k.pending b ++ []) = k.pending := by simp
  exact Custody.ext hpending rfl rfl rfl rfl rfl

theorem hold_of_running {k : Custody} {running : Option Running} (h : k.running = running) :
    k.hold running = k :=
  Custody.ext rfl rfl h.symm rfl rfl rfl

theorem moves_queueFlush (c : Coordinator) (b : String) (kind : ReconciliationKind)
    (trigger : ReconciliationTrigger) (sourceBarrier : Bool) :
    Custody.Moves guard c.custody (c.queueFlush b kind trigger sourceBarrier).custody := by
  unfold queueFlush
  split_ifs
  · exact .refl
  · rw [custody_enqueue, custody_emptyHints]
    exact .single (.flush c.custody b _ rfl)

theorem moves_completeNow (c : Coordinator) (b : String) (trigger : ReconciliationTrigger)
    (extraHints : List WatcherHint) :
    Custody.Moves guard (c.custody.append b extraHints)
      (c.completeNow b trigger extraHints).custody := by
  unfold completeNow
  rw [← custody_pushHints]
  generalize c.pushHints b extraHints = c
  have hepoch :
      (c.setState b { c.states b with sourceEpoch := (c.states b).sourceEpoch + 1 }).custody =
      c.custody := custody_setState rfl
  dsimp only
  split_ifs
  · rw [custody_enqueue, custody_clearBatchTimers, hepoch]
    exact .single (.enqueueBarrier c.custody _ rfl)
  · rw [custody_clearBatchTimers, hepoch]
  · exact moves_queueFlush c b _ _ _

theorem moves_completeNow_nil (c : Coordinator) (b : String) (trigger : ReconciliationTrigger) :
    Custody.Moves guard c.custody (c.completeNow b trigger []).custody := by
  have hmoves : Custody.Moves guard _ _ := moves_completeNow c b trigger []
  rwa [append_nil] at hmoves

theorem moves_acceptHint (c : Coordinator) (b : String) (now : ℕ) (hint : WatcherHint) :
    Custody.Moves guard c.custody (c.acceptHint b now hint).custody := by
  have hstamp : (c.receive b hint).1.arrival = c.custody.accepted.length := rfl
  have hreceived : (c.receive b hint).2.custody = c.custody.accept b (c.receive b hint).1 := rfl
  unfold acceptHint
  generalize c.receive b hint = received at hstamp hreceived ⊢
  obtain ⟨stamped, received⟩ := received
  dsimp only at hstamp hreceived ⊢
  have hcounted : (received.setState b { received.states b with
      sourceEpoch := (received.states b).sourceEpoch + 1 }).custody =
        c.custody.accept b stamped := by
    rw [custody_setState (by rfl), hreceived]
  generalize received.setState b { received.states b with
    sourceEpoch := (received.states b).sourceEpoch + 1 } = counted at hcounted ⊢
  have hpushed : Custody.Moves guard c.custody (counted.custody.append b [stamped]) := by
    rw [hcounted]
    exact .single (.receive c.custody b stamped hstamp)
  refine hpushed.trans ?_
  split_ifs
  · rw [custody_openBarrier, custody_clearBatchTimers, custody_pushHints]
    exact .single (.enqueueBarrier _ _ rfl)
  · rw [custody_clearBatchTimers, custody_pushHints]
  · rw [custody_openBarrier, custody_clearBatchTimers, custody_pushHints]
    exact .single (.enqueueBarrier _ _ rfl)
  · exact moves_completeNow counted b _ _
  · exact moves_completeNow counted b _ _
  · rw [custody_pushHints]
  · rw [← custody_pushHints]
    exact moves_queueFlush _ b _ _ _
  · rw [← custody_pushHints]
    exact moves_queueFlush _ b _ _ _
  · rw [custody_scheduleBatch, custody_pushHints]

theorem moves_captureBarrier (c : Coordinator) (b : String) :
    Custody.Moves guard (c.custody.hold none) (c.captureBarrier b).custody := by
  unfold captureBarrier
  rw [custody_callReconcile, custody_emptyHints]
  exact .single (.capture (c.custody.hold none) b _ _ rfl rfl rfl)

theorem moves_runSourceBarrier (c : Coordinator) (b : String) :
    Custody.Moves guard (c.custody.hold none) (c.runSourceBarrier b).custody := by
  unfold runSourceBarrier
  dsimp only
  split_ifs
  · exact moves_captureBarrier c b
  · rw [custody_await]
    exact .single (.idle (c.custody.hold none) (some (.barrierPersisting b)) rfl rfl)
  · exact .refl

theorem moves_barrierFailed (c : Coordinator) (b : String) :
    Custody.Moves guard (c.custody.hold none) (c.barrierFailed b).custody := by
  unfold barrierFailed
  dsimp only
  split_ifs
  · rw [custody_await, custody_setState (by rfl)]
    exact .single (.idle (c.custody.hold none) (some (.barrierDegrading b)) rfl rfl)
  · rw [custody_finish, custody_setTimeout, custody_setState (by rfl)]

theorem moves_restoreRunning {c : Coordinator} {running : Running} {b : String}
    {hints : List WatcherHint} {k : Custody} (hr : c.running = some running)
    (h : running.captured = some (b, hints)) (hguard : guard c.custody b hints)
    (hrest : Custody.Moves guard ((c.restorePrefix b hints).custody.hold none) k) :
    Custody.Moves guard c.custody k := by
  rw [custody_restorePrefix] at hrest
  exact .head (.restoreRunning c.custody running b hints hr h hguard) hrest

def uncommitted (c : Coordinator) : Running → Settlement → Bool
  | .reconciling b request, .reconciled result =>
    (decide (request.kind = .targeted) && (c.states b).barrierOpen) || !result.stable ||
      missingTargetState result
  | .reconciling _ _, .reconcileFailed _ => true
  | .committing _ _, .commitSettled .stale => true
  | .committing _ _, .commitFailed _ => true
  | .barrierAdministrative _ _, .reconcileFailed _ => true
  | .barrierComplete b complete, .reconciled result =>
    !result.stable || decide ((c.states b).sourceEpoch ≠ complete.sourceEpoch) ||
      missingTargetState result
  | .barrierComplete _ _, .reconcileFailed _ => true
  | .barrierCommitting _ _, .commitSettled .stale => true
  | .barrierCommitting _ _, .commitFailed _ => true
  | _, _ => false

def putsBack (c : Coordinator) : Event → Option (String × List WatcherHint)
  | .queueStep =>
    match c.running, c.queue with
    | none, .reconcile b kind _ _ hints _ :: _ =>
      if kind = .targeted ∧ (c.states b).barrierOpen then some (b, hints) else none
    | _, _ => none
  | .settle settlement =>
    match c.running with
    | some running => if c.uncommitted running settlement then running.captured else none
    | none => none
  | _ => none

theorem moves_reconcileSettled {c : Coordinator} {b : String} {request : ReconciliationRequest}
    {result : ReconciliationResult} (hr : c.running = some (.reconciling b request))
    (hguard : c.uncommitted (.reconciling b request) (.reconciled result) →
      guard c.custody b request.hints) :
    Custody.Moves guard c.custody (c.reconcileSettled b request result).custody := by
  unfold uncommitted at hguard
  unfold reconcileSettled
  split_ifs with hopen hstable hmissing
  · exact moves_restoreRunning hr rfl (hguard (by simp [hopen])) .refl
  · refine moves_restoreRunning hr rfl (hguard (by simpa using Or.inr hmissing)) ?_
    rw [custody_failReconcile, custody_restorePrefix]
  · rw [custody_await]
    exact .single (.advance c.custody _ _ hr rfl)
  · refine moves_restoreRunning hr rfl (hguard (by simp [hstable])) ?_
    rw [custody_failReconcile, custody_restorePrefix]

theorem moves_barrierCaptured {c : Coordinator} {b : String} {complete : ReconciliationRequest}
    {result : ReconciliationResult} (hr : c.running = some (.barrierComplete b complete))
    (hguard : c.uncommitted (.barrierComplete b complete) (.reconciled result) →
      guard c.custody b complete.hints) :
    Custody.Moves guard c.custody (c.barrierCaptured b complete result).custody := by
  unfold uncommitted at hguard
  unfold barrierCaptured
  split_ifs with hstable hepoch hmissing
  · exact moves_restoreRunning hr rfl (hguard (by simp [hepoch])) (moves_runSourceBarrier _ b)
  · exact moves_restoreRunning hr rfl (hguard (by simp [hmissing])) (moves_barrierFailed _ b)
  · rw [custody_await]
    exact .single (.advance c.custody _ _ hr rfl)
  · exact moves_restoreRunning hr rfl (hguard (by simp [hstable])) (moves_barrierFailed _ b)

theorem moves_barrierCommitted {c : Coordinator} {b : String} {complete : ReconciliationRequest}
    (hr : c.running = some (.barrierCommitting b complete)) :
    Custody.Moves guard c.custody (c.barrierCommitted b complete).custody := by
  have hcommit : Custody.Moves guard c.custody ((c.recordCommit b complete).custody.hold none) :=
    .single (.commit c.custody _ b complete hr rfl)
  refine hcommit.trans ?_
  unfold barrierCommitted
  generalize c.recordCommit b complete = c
  dsimp only
  split_ifs
  · have hmoves : Custody.Moves guard _ _ := moves_runSourceBarrier (c.setPersisted b false) b
    rwa [custody_setPersisted] at hmoves
  · refine Relation.ReflTransGen.trans ?_ (moves_runSourceBarrier _ b)
    rw [custody_setState (by rfl)]

theorem moves_settle {c : Coordinator} {settlement : Settlement}
    (hguard : ∀ b hints, c.putsBack (.settle settlement) = some (b, hints) →
      guard c.custody b hints) :
    Custody.Moves guard c.custody (c.settle settlement).custody := by
  have hput : ∀ running b hints, c.running = some running →
      c.uncommitted running settlement = true →
      running.captured = some (b, hints) → guard c.custody b hints := by
    intro running b hints hr huncommitted hcaptured
    refine hguard b hints ?_
    simp only [putsBack, hr, huncommitted, if_true, hcaptured]
  unfold settle
  split
  case h_1 b request result hr =>
    exact moves_reconcileSettled hr (fun h => hput _ _ _ hr h rfl)
  case h_2 b request error hr =>
    refine moves_restoreRunning hr rfl (hput _ _ _ hr rfl rfl) ?_
    rw [custody_failReconcile, custody_restorePrefix]
  case h_3 b request hr => exact .single (.commit c.custody _ b request hr rfl)
  case h_4 b request hr => exact moves_restoreRunning hr rfl (hput _ _ _ hr rfl rfl) .refl
  case h_5 b request error hr =>
    refine moves_restoreRunning hr rfl (hput _ _ _ hr rfl rfl) ?_
    rw [custody_failReconcile, custody_restorePrefix]
  case h_6 b hr =>
    have hfree : Custody.Moves guard c.custody (c.custody.hold none) :=
      .single (.idle c.custody none (congrArg (fun r => r.bind Running.captured) hr) rfl)
    have hmoves : Custody.Moves guard _ _ := moves_captureBarrier (c.setPersisted b true) b
    rw [custody_setPersisted] at hmoves
    exact hfree.trans hmoves
  case h_7 b error hr =>
    have hfree : Custody.Moves guard c.custody (c.custody.hold none) :=
      .single (.idle c.custody none (congrArg (fun r => r.bind Running.captured) hr) rfl)
    exact hfree.trans (moves_barrierFailed c b)
  case h_8 b complete result hr =>
    exact .single (.advanceRequest c.custody _ _ b complete hr rfl rfl)
  case h_9 b complete error hr =>
    exact moves_restoreRunning hr rfl (hput _ _ _ hr rfl rfl) (moves_barrierFailed _ b)
  case h_10 b complete result hr =>
    exact moves_barrierCaptured hr (fun h => hput _ _ _ hr h rfl)
  case h_11 b complete error hr =>
    exact moves_restoreRunning hr rfl (hput _ _ _ hr rfl rfl) (moves_barrierFailed _ b)
  case h_12 b complete hr => exact moves_barrierCommitted hr
  case h_13 b complete hr =>
    exact moves_restoreRunning hr rfl (hput _ _ _ hr rfl rfl) (moves_runSourceBarrier _ b)
  case h_14 b complete error hr =>
    exact moves_restoreRunning hr rfl (hput _ _ _ hr rfl rfl) (moves_barrierFailed _ b)
  case h_15 b hr =>
    rw [custody_finish, custody_setPersisted]
    exact .single (.idle c.custody none (congrArg (fun r => r.bind Running.captured) hr) rfl)
  case h_16 b error hr =>
    unfold degradeFailed
    rw [custody_finish, custody_setState (by rfl)]
    exact .single (.idle c.custody none (congrArg (fun r => r.bind Running.captured) hr) rfl)
  case h_17 => exact .refl

theorem moves_queueStep {c : Coordinator}
    (hguard : ∀ b hints, c.putsBack .queueStep = some (b, hints) → guard c.custody b hints) :
    Custody.Moves guard c.custody c.queueStep.custody := by
  unfold queueStep
  split
  case h_1 operation rest hr hq =>
    cases operation with
    | reconcile b kind trigger sourceBarrier hints sourceEpoch =>
      unfold perform reconcile
      dsimp only
      split_ifs with hopen
      · have hput : guard c.custody b hints := by
          refine hguard b hints ?_
          simp only [putsBack, hr, hq]
          exact if_pos hopen
        rw [custody_finish, hold_of_running]
        · rw [custody_restorePrefix]
          exact .single (.restoreQueued c.custody rest _ b hints hq hr rfl hput)
        · rw [custody_restorePrefix]
          exact hr
      · rw [custody_callReconcile]
        exact .single (.start c.custody rest _ b _ (.reconciling b _) hq hr rfl rfl)
    | runSourceBarrier b =>
      have hmoves : Custody.Moves guard _ _ := moves_runSourceBarrier { c with queue := rest } b
      rw [hold_of_running] at hmoves
      · exact .head (.pop c.custody rest _ hq rfl) hmoves
      · exact hr
  case h_2 => exact .refl

theorem moves_expire (c : Coordinator) (timer : Timer) :
    Custody.Moves guard c.custody (c.expire timer).custody := by
  have hcleared : { c with timers := c.timers.filter (fun t => t.handle ≠ timer.handle) }.custody =
      c.custody := rfl
  unfold expire
  rw [← hcleared]
  generalize { c with timers := c.timers.filter (fun t => t.handle ≠ timer.handle) } = c
  dsimp only
  split
  · have hmoves : Custody.Moves guard _ _ := moves_queueFlush
      (c.setState timer.binding { c.states timer.binding with quietTimer := none })
        timer.binding .targeted
      .settledBatch false
    rwa [custody_setState (by rfl)] at hmoves
  · have hmoves : Custody.Moves guard _ _ := moves_queueFlush
      (c.setState timer.binding { c.states timer.binding with maximumTimer := none })
        timer.binding .targeted
      .maximumBatchWindow false
    rwa [custody_setState (by rfl)] at hmoves
  · split_ifs
    · rw [custody_setState (by rfl)]
    · have hmoves : Custody.Moves guard _ _ := moves_completeNow_nil
        (c.setState timer.binding { c.states timer.binding with periodicTimer := none })
          timer.binding
        .periodic
      rw [custody_setState (by rfl)] at hmoves
      rwa [custody_schedulePeriodic]
  · rw [custody_enqueue, custody_setState (by rfl)]
    exact .single (.enqueueBarrier c.custody _ rfl)

theorem moves_accept {c c' : Coordinator} {now : ℕ} {batch : WatcherHintBatch}
    (h : c.accept now batch = .ok c') : Custody.Moves guard c.custody c'.custody := by
  have hfold : ∀ (hints : List WatcherHint) (c : Coordinator), Custody.Moves guard c.custody
      (hints.foldl (fun c hint => c.acceptHint batch.sourceProviderBindingId now hint)
        c).custody := by
    intro hints
    induction hints with
    | nil => exact fun _ => .refl
    | cons hint hints ih => exact fun c => (moves_acceptHint c _ now hint).trans (ih _)
  unfold accept at h
  split at h
  · cases h
  · obtain ⟨_, _, h⟩ := bind_eq_ok h
    dsimp only at h
    split at h
    · cases h
    · obtain rfl := Except.ok.inj h
      exact hfold batch.events c

theorem custody_close (c : Coordinator) : c.close.custody = c.custody := by
  have hfold : ∀ (ids : List String) (c : Coordinator),
      (ids.foldl (fun c b => c.clearAllTimers b) c).custody = c.custody := by
    intro ids
    induction ids with
    | nil => exact fun _ => rfl
    | cons b ids ih =>
      intro c
      rw [List.foldl_cons, ih, custody_clearAllTimers]
  have hclosed : ∀ c : Coordinator, { c with closed := true }.custody = c.custody := fun _ => rfl
  unfold close
  split_ifs
  · rfl
  · rw [hclosed, hfold]

theorem moves_attempt {c c' : Coordinator} {b : String}
    (h : Custody.Moves guard c.custody c'.custody) :
    Custody.Moves guard c.custody (c.attempt (do c.knows b; pure c')).custody := by
  unfold attempt
  cases c.knows b with
  | error e => exact .refl
  | ok u => exact h

theorem moves_step {c : Coordinator} {event : Event}
    (hguard : ∀ b hints, c.putsBack event = some (b, hints) → guard c.custody b hints) :
    Custody.Moves guard c.custody (c.step event).custody := by
  cases event with
  | accept now batch =>
    change Custody.Moves guard c.custody (c.attempt (c.accept now batch)).custody
    cases haccept : c.accept now batch with
    | error e => exact .refl
    | ok c' => exact moves_accept haccept
  | providerRestarted b => exact moves_attempt (moves_completeNow_nil c b .providerRestart)
  | recover b => exact moves_attempt (moves_completeNow_nil c b .daemonRecovery)
  | resume b => exact moves_attempt (moves_completeNow_nil c b .resume)
  | requestFreshness b proves =>
    cases proves with
    | false => exact moves_attempt (moves_completeNow_nil c b .unprovenFreshness)
    | true => exact moves_attempt (moves_queueFlush c b .targeted .explicitFreshness false)
  | expire handle =>
    unfold step
    dsimp only
    split
    · exact moves_expire c _
    · exact .refl
  | queueStep => exact moves_queueStep hguard
  | settle settlement => exact moves_settle hguard
  | close =>
    unfold step
    rw [custody_close]

end Coordinator

namespace Custody

def places (k : Custody) (b : String) : List (List WatcherHint) :=
  k.pending b :: (k.queue.map (fun operation => capturedFor b operation.captured) ++
    capturedFor b (k.running.bind Running.captured) ::
    k.committed.map (fun entry => if entry.1 = b then entry.2.hints else []))

def queued (b : String) (h : WatcherHint) (queue : List Operation) : ℕ :=
  (queue.map (fun operation => (capturedFor b operation.captured).count h)).sum

def settled (b : String) (h : WatcherHint) (committed : List (String × ReconciliationRequest)) :
    ℕ :=
  (committed.map (fun entry => (if entry.1 = b then entry.2.hints else []).count h)).sum

theorem count_places (k : Custody) (b : String) (h : WatcherHint) :
    (k.places b).flatten.count h = (k.pending b).count h + queued b h k.queue +
      (capturedFor b (k.running.bind Running.captured)).count h + settled b h k.committed := by
  simp only [places, queued, settled, List.count_flatten, List.map_cons, List.map_append,
    List.map_map,
    List.sum_cons, List.sum_append, Function.comp_def]
  omega

@[simp] theorem capturedFor_none (b : String) : capturedFor b none = [] := rfl

@[simp] theorem capturedFor_self (b : String) (hints : List WatcherHint) :
    capturedFor b (some (b, hints)) = hints := if_pos rfl

theorem capturedFor_ne {b b' : String} (h : b' ≠ b) (hints : List WatcherHint) :
    capturedFor b' (some (b, hints)) = [] := if_neg (Ne.symm h)

theorem queued_append (b : String) (h : WatcherHint) (queue : List Operation)
    (operation : Operation) :
    queued b h (queue ++ [operation]) =
      queued b h queue + (capturedFor b operation.captured).count h := by
  simp [queued]

theorem queued_cons (b : String) (h : WatcherHint) (queue : List Operation)
    (operation : Operation) :
    queued b h (operation :: queue) = (capturedFor b operation.captured).count h +
      queued b h queue := by
  simp [queued]

theorem settled_append (b : String) (h : WatcherHint)
    (committed : List (String × ReconciliationRequest))
    (entry : String × ReconciliationRequest) : settled b h (committed ++ [entry]) =
      settled b h committed + (if entry.1 = b then entry.2.hints else []).count h := by
  simp [settled]

structure Kept (k : Custody) : Prop where
  count : ∀ b h, (k.places b).flatten.count h = k.accepted.count (b, h)
  stamped : k.accepted.map (fun entry => entry.2.arrival) = List.range k.accepted.length

theorem Kept.move {guard : Custody → String → List WatcherHint → Prop} {k k' : Custody}
    (hk : k.Kept)
    (h : Move guard k k') : k'.Kept := by
  have hcount : ∀ b h, (k.pending b).count h + queued b h k.queue +
      (capturedFor b (k.running.bind Running.captured)).count h + settled b h k.committed =
      k.accepted.count (b, h) := fun b h => (count_places k b h).symm.trans (hk.count b h)
  cases h with
  | receive b hint harrival =>
    refine ⟨fun b' h => (count_places _ b' h).trans ?_, ?_⟩
    · have hc := hcount b' h
      by_cases hb : b' = b
      · subst hb
        by_cases hh : hint = h
        · subst hh
          simp only [accept, append, Function.update_self, List.count_append,
            List.count_singleton_self]
          omega
        · have hne : ¬ (b', hint) = (b', h) := fun heq => hh (congrArg Prod.snd heq)
          simp only [accept, append, Function.update_self, List.count_append,
            List.count_singleton, beq_iff_eq, hh, hne, if_false]
          omega
      · have hne : ¬ (b, hint) = (b', h) := fun heq => hb (congrArg Prod.fst heq).symm
        simp only [accept, append, Function.update_of_ne hb, List.count_append,
          List.count_singleton,
          beq_iff_eq, hne, if_false]
        omega
    · simp [accept, append, hk.stamped, harrival, List.range_succ]
  | flush b operation hcaptured =>
    refine ⟨fun b' h => (count_places _ b' h).trans ?_, hk.stamped⟩
    have hc := hcount b' h
    by_cases hb : b' = b
    · subst hb
      simp only [clear, enqueue, queued_append, hcaptured, capturedFor_self, Function.update_self,
        List.count_nil]
      omega
    · simp only [clear, enqueue, queued_append, hcaptured, capturedFor_ne hb,
        Function.update_of_ne hb,
        List.count_nil]
      omega
  | enqueueBarrier operation hcaptured =>
    refine ⟨fun b' h => (count_places _ b' h).trans ?_, hk.stamped⟩
    have hc := hcount b' h
    simp only [enqueue, queued_append, hcaptured, capturedFor_none, List.count_nil]
    omega
  | restoreQueued rest operation b hints hq hr hcaptured hguard =>
    refine ⟨fun b' h => (count_places _ b' h).trans ?_, hk.stamped⟩
    have hc := hcount b' h
    rw [hq, queued_cons, hcaptured] at hc
    by_cases hb : b' = b
    · subst hb
      rw [capturedFor_self] at hc
      simp only [restore, Function.update_self, List.count_append]
      omega
    · rw [capturedFor_ne hb, List.count_nil] at hc
      simp only [restore, Function.update_of_ne hb]
      omega
  | start rest operation b request running hq hr hcaptured hcaptured' =>
    refine ⟨fun b' h => (count_places _ b' h).trans ?_, hk.stamped⟩
    have hc := hcount b' h
    rw [hq, queued_cons, hcaptured, hr, Option.bind_none, capturedFor_none, List.count_nil] at hc
    simp only [Custody.request, hold, Option.bind_some, hcaptured']
    omega
  | pop rest operation hq hcaptured =>
    refine ⟨fun b' h => (count_places _ b' h).trans ?_, hk.stamped⟩
    have hc := hcount b' h
    rw [hq, queued_cons, hcaptured, capturedFor_none, List.count_nil] at hc
    dsimp only
    omega
  | restoreRunning running b hints hr hcaptured hguard =>
    refine ⟨fun b' h => (count_places _ b' h).trans ?_, hk.stamped⟩
    have hc := hcount b' h
    rw [hr, Option.bind_some, hcaptured] at hc
    by_cases hb : b' = b
    · subst hb
      rw [capturedFor_self] at hc
      simp only [restore, hold, Option.bind_none, capturedFor_none, List.count_nil,
        Function.update_self,
        List.count_append]
      omega
    · rw [capturedFor_ne hb, List.count_nil] at hc
      simp only [restore, hold, Option.bind_none, capturedFor_none, List.count_nil,
        Function.update_of_ne hb]
      omega
  | advance running running' hr hcaptured =>
    refine ⟨fun b' h => (count_places _ b' h).trans ?_, hk.stamped⟩
    have hc := hcount b' h
    rw [hr, Option.bind_some, ← hcaptured] at hc
    exact hc
  | advanceRequest running running' b request hr hcaptured hcaptured' =>
    refine ⟨fun b' h => (count_places _ b' h).trans ?_, hk.stamped⟩
    have hc := hcount b' h
    rw [hr, Option.bind_some, ← hcaptured'] at hc
    exact hc
  | capture b request running hr hhints hcaptured =>
    refine ⟨fun b' h => (count_places _ b' h).trans ?_, hk.stamped⟩
    have hc := hcount b' h
    rw [hr, capturedFor_none, List.count_nil] at hc
    by_cases hb : b' = b
    · subst hb
      simp only [clear, Custody.request, hold, Option.bind_some, hcaptured, capturedFor_self,
        Function.update_self, List.count_nil]
      omega
    · simp only [clear, Custody.request, hold, Option.bind_some, hcaptured, capturedFor_ne hb,
        Function.update_of_ne hb, List.count_nil]
      omega
  | idle running hr hcaptured =>
    refine ⟨fun b' h => (count_places _ b' h).trans ?_, hk.stamped⟩
    have hc := hcount b' h
    rw [hr, ← hcaptured] at hc
    exact hc
  | commit running b request hr hcaptured =>
    refine ⟨fun b' h => (count_places _ b' h).trans ?_, hk.stamped⟩
    have hc := hcount b' h
    rw [hr, Option.bind_some, hcaptured] at hc
    by_cases hb : b' = b
    · subst hb
      rw [capturedFor_self] at hc
      simp only [Custody.commit, hold, Option.bind_none, capturedFor_none, List.count_nil,
        settled_append,
        if_true]
      omega
    · rw [capturedFor_ne hb, List.count_nil] at hc
      simp only [Custody.commit, hold, Option.bind_none, capturedFor_none, List.count_nil,
        settled_append,
        Ne.symm hb, if_false]
      omega

end Custody

namespace Custody

def empty : Custody := ⟨fun _ => [], [], none, [], [], []⟩

theorem Kept.moves {guard : Custody → String → List WatcherHint → Prop} {k k' : Custody}
    (hk : k.Kept)
    (h : Moves guard k k') : k'.Kept := by
  induction h with
  | refl => exact hk
  | tail _ hmove ih => exact ih.move hmove

theorem kept_empty : empty.Kept := ⟨fun _ _ => rfl, rfl⟩

theorem Kept.nodup {k : Custody} (hk : k.Kept) : k.accepted.Nodup := by
  have hstamps : (k.accepted.map (fun entry => entry.2.arrival)).Nodup := by
    rw [hk.stamped]
    exact List.nodup_range
  exact hstamps.of_map _

end Custody

namespace Coordinator

theorem custody_register {c c' : Coordinator} {binding : WatcherBinding}
    (h : c.register binding = .ok c') (hempty : c.custody = .empty) : c'.custody = .empty := by
  unfold register at h
  split at h
  · cases h
  · obtain rfl := Except.ok.inj h
    refine (custody_setHints c binding.sourceProviderBindingId (.initial binding)).trans ?_
    rw [hempty]
    exact Custody.ext (Function.update_eq_self (f := fun _ => ([] : List WatcherHint)) _) rfl rfl
      rfl rfl rfl

theorem custody_registerAll {bindings : List WatcherBinding} {c c' : Coordinator}
    (h : bindings.foldlM register c = .ok c') (hempty : c.custody = .empty) :
    c'.custody = .empty := by
  induction bindings generalizing c with
  | nil =>
    obtain rfl := Except.ok.inj h
    exact hempty
  | cons binding bindings ih =>
    rw [List.foldlM_cons] at h
    obtain ⟨c₁, hregister, hrest⟩ := bind_eq_ok h
    exact ih hrest (custody_register hregister hempty)

theorem custody_new {options : ReconciliationCoordinatorOptions} {c : Coordinator}
    (h : new options = .ok c) : c.custody = .empty := by
  have hperiodic : ∀ (ids : List String) (c : Coordinator),
      (ids.foldl schedulePeriodic c).custody = c.custody := by
    intro ids
    induction ids with
    | nil => exact fun _ => rfl
    | cons b ids ih =>
      intro c
      rw [List.foldl_cons, ih, custody_schedulePeriodic]
  unfold new at h
  split at h
  · cases h
  obtain ⟨quiet, _, h⟩ := bind_eq_ok h
  obtain ⟨maximum, _, h⟩ := bind_eq_ok h
  obtain ⟨retry, _, h⟩ := bind_eq_ok h
  obtain ⟨attempts, _, h⟩ := bind_eq_ok h
  split at h
  · cases h
  dsimp only at h
  split at h
  · cases h
  obtain ⟨interval, _, h⟩ := bind_eq_ok h
  obtain ⟨c₁, hregistered, h⟩ := bind_eq_ok h
  have hempty := custody_registerAll hregistered rfl
  split at h
  · obtain rfl := Except.ok.inj h
    rw [hperiodic, hempty]
  · obtain rfl := Except.ok.inj h
    exact hempty

theorem moves_run {guard : Custody → String → List WatcherHint → Prop} (events : List Event)
    (c : Coordinator) (hguard : ∀ k b hints, guard k b hints) :
    Custody.Moves guard c.custody (c.run events).custody := by
  induction events generalizing c with
  | nil => exact .refl
  | cons event events ih => exact (moves_step (fun b hints _ => hguard _ b hints)).trans (ih _)

theorem kept_run {options : ReconciliationCoordinatorOptions} {c : Coordinator}
    (h : new options = .ok c)
    (events : List Event) : (c.run events).custody.Kept := by
  have hstart : c.custody.Kept := by
    rw [custody_new h]
    exact Custody.kept_empty
  have hmoves : Custody.Moves (fun _ _ _ => True) c.custody (c.run events).custody :=
    moves_run events c (fun _ _ _ => trivial)
  exact hstart.moves hmoves

end Coordinator

theorem every_hint_kept_in_one_place {options : ReconciliationCoordinatorOptions} {c : Coordinator}
    (hnew : Coordinator.new options = .ok c) (events : List Event) (b : String)
    (hint : WatcherHint) :
    ((c.run events).custody.places b).flatten.count hint =
      if (b, hint) ∈ (c.run events).accepted then 1 else 0 := by
  have hkept := Coordinator.kept_run hnew events
  rw [hkept.count b hint]
  split_ifs with hmem
  · exact List.count_eq_one_of_mem hkept.nodup hmem
  · exact List.count_eq_zero_of_not_mem hmem

def watchedWorkspace : ReconciliationCoordinatorOptions where
  workspaceId := "w"
  bindings := [⟨"w", "b", "directory", "1", "files", true⟩]
  quietWindowMs := none
  maximumBatchMs := none
  completeIntervalMs := none
  barrierRetryMs := none
  maximumBarrierAttempts := none

def absenceBatch (uri : String) : WatcherHintBatch where
  workspaceId := "w"
  sourceProviderBindingId := "b"
  sourceProvider := "directory"
  sourceProviderVersion := "1"
  orderingDomain := "files"
  events := [⟨0, "w", "b", "files", "1", .absence, uri, .hint⟩]

def portUnavailable : EngineError := ⟨"engine:port_unavailable", "The provider could not be read."⟩

theorem every_hint_kept_in_one_place_failed_flush :
    ∃ c, Coordinator.new watchedWorkspace = .ok c ∧
      ("b", ⟨0, "w", "b", "files", "1", .absence, "a.ts", .hint⟩) ∈
        (c.run [.accept 0 (absenceBatch "a.ts"), .queueStep,
          .settle (.reconcileFailed portUnavailable)]).accepted ∧
      ((c.run [.accept 0 (absenceBatch "a.ts"), .queueStep,
        .settle (.reconcileFailed portUnavailable)]).custody.places "b").flatten.count
          ⟨0, "w", "b", "files", "1", .absence, "a.ts", .hint⟩ = 1 := by
  refine ⟨_, rfl, ?_, ?_⟩
  · exact List.mem_cons_self
  · exact (@every_hint_kept_in_one_place watchedWorkspace _ rfl _ "b" _).trans
      (if_pos List.mem_cons_self)

end Engine
