import Urdira.Lib.AssocMap

namespace Engine

namespace Watchers

variable {W : Type}

inductive Op (W : Type) where
  | start (workspace : W)
  | stop (workspace : W)
  deriving DecidableEq

inductive Call (W : Type) where
  | start (workspace : W)
  | restore (workspaces : List W)
  | stop (workspace : W)
  | stopAll

structure Awaited where
  chain : ℕ
  batches : ℕ
  deriving DecidableEq

inductive Stage (W : Type) where
  | ready
  | subscribing (workspace : W)
  | awaitingDeliveries (workspace : W) (awaited : Option Awaited)
  | unsubscribing (workspace : W) (subscription : Option ℕ)
  deriving DecidableEq

structure Task (W : Type) where
  todo : List (Op W)
  stage : Stage W
  deriving DecidableEq

structure Subscription (W : Type) where
  workspace : W
  unsubscribed : Bool
  deriving DecidableEq

structure WorkspaceWatcherManager (W : Type) where
  subscriptions : List (W × ℕ) := []
  deliveries : List (W × ℕ) := []
  chains : ℕ := 0
  pending : List (ℕ × ℕ) := []
  delivered : List ℕ := []
  batches : ℕ := 0
  obtained : List (Subscription W) := []
  tasks : List (Task W) := []

inductive Event (W : Type) where
  | call (call : Call W)
  | resume (task : ℕ)
  | subscribed (task : ℕ) (succeeds : Bool)
  | awaited (task : ℕ)
  | unsubscribed (task : ℕ) (succeeds : Bool)
  | emit (workspace : W) (early : Bool)
  | handle (chain : ℕ)

namespace WorkspaceWatcherManager

variable [DecidableEq W]

def setTask (s : WorkspaceWatcherManager W) (i : ℕ) (todo : List (Op W)) (stage : Stage W) :
    WorkspaceWatcherManager W :=
  { s with tasks := s.tasks.set i ⟨todo, stage⟩ }

def recorded (s : WorkspaceWatcherManager W) (workspace : W) : Option ℕ :=
  AssocMap.get s.subscriptions workspace

-- A Map keeps the place of a key that it has.
def record (s : WorkspaceWatcherManager W) (workspace : W) (subscription : ℕ) : List (W × ℕ) :=
  if (s.recorded workspace).isSome
  then s.subscriptions.map (fun entry => if entry.1 = workspace then (workspace, subscription)
    else entry)
  else s.subscriptions ++ [(workspace, subscription)]

def newChain (s : WorkspaceWatcherManager W) (workspace : W) : WorkspaceWatcherManager W :=
  { s with deliveries := AssocMap.insert s.deliveries workspace s.chains, chains := s.chains + 1 }

def beginOp (s : WorkspaceWatcherManager W) (i : ℕ) (todo : List (Op W)) :
    Op W → WorkspaceWatcherManager W
  | .start workspace =>
    if (s.recorded workspace).isSome then s.setTask i todo .ready
    else (s.newChain workspace).setTask i todo (.subscribing workspace)
  | .stop workspace =>
    let awaited := (AssocMap.get s.deliveries workspace).map (fun chain => ⟨chain, s.batches⟩)
    s.setTask i todo (.awaitingDeliveries workspace awaited)

def resume (s : WorkspaceWatcherManager W) (i : ℕ) : Option (WorkspaceWatcherManager W) :=
  match s.tasks[i]? with
  | some ⟨op :: todo, .ready⟩ => some (s.beginOp i todo op)
  | _ => none

def ops (s : WorkspaceWatcherManager W) : Call W → List (Op W)
  | .start workspace => [.start workspace]
  | .restore workspaces => workspaces.map .start
  | .stop workspace => [.stop workspace]
  | .stopAll => s.subscriptions.map (fun entry => .stop entry.1)

def push (s : WorkspaceWatcherManager W) : WorkspaceWatcherManager W :=
  { s with tasks := s.tasks ++ [⟨[], .ready⟩] }

-- A call runs up to its first await.
def called (s : WorkspaceWatcherManager W) (call : Call W) : WorkspaceWatcherManager W :=
  match s.ops call with
  | [] => s.push
  | op :: todo => s.push.beginOp s.tasks.length todo op

def obtain (s : WorkspaceWatcherManager W) (workspace : W) : WorkspaceWatcherManager W :=
  { s with
    obtained := s.obtained ++ [⟨workspace, false⟩]
    subscriptions := s.record workspace s.obtained.length }

def subscribed (s : WorkspaceWatcherManager W) (i : ℕ) (succeeds : Bool) :
    Option (WorkspaceWatcherManager W) :=
  match s.tasks[i]? with
  | some ⟨todo, .subscribing workspace⟩ =>
    if succeeds then some ((s.obtain workspace).setTask i todo .ready)
    else some (s.setTask i [] .ready)
  | _ => none

def settled (s : WorkspaceWatcherManager W) (awaited : Awaited) : Bool :=
  s.pending.all (fun batch => decide (batch.1 = awaited.chain → awaited.batches ≤ batch.2))

def awaited (s : WorkspaceWatcherManager W) (i : ℕ) : Option (WorkspaceWatcherManager W) :=
  match s.tasks[i]? with
  | some ⟨todo, .awaitingDeliveries workspace awaited⟩ =>
    if awaited.all s.settled then some (s.setTask i todo
      (.unsubscribing workspace (s.recorded workspace))) else none
  | _ => none

def endSubscription (s : WorkspaceWatcherManager W) (subscription : Option ℕ) :
    List (Subscription W) :=
  s.obtained.mapIdx (fun id sub => if subscription = some id then { sub with unsubscribed := true }
    else sub)

def forget (s : WorkspaceWatcherManager W) (workspace : W) (subscription : Option ℕ) :
    WorkspaceWatcherManager W :=
  { s with
    obtained := s.endSubscription subscription
    subscriptions := AssocMap.erase s.subscriptions workspace
    deliveries := AssocMap.erase s.deliveries workspace }

def unsubscribed (s : WorkspaceWatcherManager W) (i : ℕ) (succeeds : Bool) :
    Option (WorkspaceWatcherManager W) :=
  match s.tasks[i]? with
  | some ⟨todo, .unsubscribing workspace subscription⟩ =>
    if succeeds then some ((s.forget workspace subscription).setTask i todo .ready)
    else if subscription.isSome then some (s.setTask i [] .ready)
    else none
  | _ => none

def isLive (workspace : W) (sub : Subscription W) : Bool :=
  decide (sub.workspace = workspace) && !sub.unsubscribed

def isSubscribing (workspace : W) (task : Task W) : Bool :=
  decide (task.stage = .subscribing workspace)

def handlers (s : WorkspaceWatcherManager W) (workspace : W) (early : Bool) : ℕ :=
  s.obtained.countP (isLive workspace) + if early then s.tasks.countP (isSubscribing workspace)
  else 0

def enqueue (s : WorkspaceWatcherManager W) (workspace : W) (batch : ℕ) :
    WorkspaceWatcherManager W :=
  match AssocMap.get s.deliveries workspace with
  | some chain => { s with pending := s.pending ++ [(chain, batch)] }
  | none => { s.newChain workspace with pending := s.pending ++ [(s.chains, batch)] }

def enqueueAll (s : WorkspaceWatcherManager W) (workspace : W) (batch : ℕ) :
    ℕ → WorkspaceWatcherManager W
  | 0 => s
  | n + 1 => (s.enqueue workspace batch).enqueueAll workspace batch n

def emit (s : WorkspaceWatcherManager W) (workspace : W) (early : Bool) :
    WorkspaceWatcherManager W :=
  ({ s with batches := s.batches + 1 } : WorkspaceWatcherManager W).enqueueAll workspace s.batches
    (s.handlers workspace early)

def handle (s : WorkspaceWatcherManager W) (chain : ℕ) : Option (WorkspaceWatcherManager W) :=
  match s.pending.find? (fun batch => decide (batch.1 = chain)) with
  | some batch =>
      some { s with pending := s.pending.erase batch, delivered := s.delivered ++ [batch.2] }
  | none => none

def step (s : WorkspaceWatcherManager W) : Event W → Option (WorkspaceWatcherManager W)
  | .call call => some (s.called call)
  | .resume i => s.resume i
  | .subscribed i succeeds => s.subscribed i succeeds
  | .awaited i => s.awaited i
  | .unsubscribed i succeeds => s.unsubscribed i succeeds
  | .emit workspace early => some (s.emit workspace early)
  | .handle chain => s.handle chain

def run (s : WorkspaceWatcherManager W) : List (Event W) → Option (WorkspaceWatcherManager W)
  | [] => some s
  | event :: events => do
    let next ← s.step event
    run next events

end WorkspaceWatcherManager

end Watchers

end Engine
