import Urdira.Engine.Reconciliation

namespace Engine

structure Commit where
  binding : String
  request : ReconciliationRequest
  currentState : Option SourceBarrierState
  barrierOpen : Bool

-- The coordinator with its port: `portDone` says that the port has carried out the commit the
-- coordinator waits for, `stored` is the barrier state last written for each binding.
structure World where
  coordinator : Coordinator
  portDone : Bool
  commits : List Commit
  stored : String → SourceBarrierState

inductive Happening where
  | event (event : Event)
  | portCommits

namespace World

def start (c : Coordinator) : World := ⟨c, false, [], fun _ => .current⟩

def isOpen (w : World) (b : String) : Bool := (w.coordinator.states b).barrierOpen

def currentCommit (w : World) : Option Commit :=
  match w.coordinator.running with
  | some (.committing b request) =>
    if request.kind = .targeted ∧ w.isOpen b then none else some ⟨b, request, none, w.isOpen b⟩
  | some (.barrierCommitting b complete) =>
    let state := w.coordinator.states b
    if state.barrierOpen ∧ state.barrierState = .stale ∧ state.sourceEpoch =
      complete.sourceEpoch then
      some ⟨b, complete, some .current, state.barrierOpen⟩
    else none
  | _ => none

def record (w : World) (commit : Commit) : World :=
  { w with
    portDone := true
    commits := w.commits ++ [commit]
    stored :=
      match commit.currentState with
      | some state => Function.update w.stored commit.binding state
      | none => w.stored }

def portCommits (w : World) : World :=
  if w.portDone then w
  else match w.currentCommit with
    | some commit => w.record commit
    | none => w

def answers (w : World) (settlement : Settlement) : Bool :=
  match w.coordinator.running, settlement with
  | some (.reconciling _ _), .reconciled _ => true
  | some (.reconciling _ _), .reconcileFailed _ => true
  | some (.barrierAdministrative _ _), .reconciled _ => true
  | some (.barrierAdministrative _ _), .reconcileFailed _ => true
  | some (.barrierComplete _ _), .reconciled _ => true
  | some (.barrierComplete _ _), .reconcileFailed _ => true
  | some (.committing _ _), .commitSettled .committed => w.portDone
  | some (.committing _ _), .commitSettled .stale => !w.portDone
  | some (.committing _ _), .commitFailed _ => !w.portDone
  | some (.barrierCommitting _ _), .commitSettled .committed => w.portDone
  | some (.barrierCommitting _ _), .commitSettled .stale => !w.portDone
  | some (.barrierCommitting _ _), .commitFailed _ => !w.portDone
  | some (.barrierPersisting _), .barrierStateSet => true
  | some (.barrierPersisting _), .barrierStateFailed _ => true
  | some (.barrierDegrading _), .barrierStateSet => true
  | some (.barrierDegrading _), .barrierStateFailed _ => true
  | _, _ => false

def written (w : World) : Settlement → String → SourceBarrierState
  | .barrierStateSet =>
    match w.coordinator.running with
    | some (.barrierPersisting b) => Function.update w.stored b .stale
    | some (.barrierDegrading b) => Function.update w.stored b .degraded
    | _ => w.stored
  | _ => w.stored

def settle (w : World) (settlement : Settlement) : World :=
  if w.answers settlement then
    { w with
      coordinator := w.coordinator.settle settlement
      portDone := false
      stored := w.written settlement }
  else w

def step (w : World) : Happening → World
  | .event (.settle settlement) => w.settle settlement
  | .event event => { w with coordinator := w.coordinator.step event }
  | .portCommits => w.portCommits

def run (w : World) (happenings : List Happening) : World := happenings.foldl step w

def portCallFor (w : World) (b : String) : Bool :=
  match w.coordinator.running with
  | some (.reconciling b' _) => decide (b' = b)
  | some (.committing b' _) => decide (b' = b)
  | some (.barrierPersisting b') => decide (b' = b)
  | some (.barrierAdministrative b' _) => decide (b' = b)
  | some (.barrierComplete b' _) => decide (b' = b)
  | some (.barrierCommitting b' _) => decide (b' = b)
  | some (.barrierDegrading b') => decide (b' = b)
  | none => false

end World

end Engine
