import Urdira.Daemon.IpcFrame
import Urdira.Lib.AssocMap

open AssocMap

namespace Daemon

structure Dates where
  parse : String → Option ℤ
  toISOString : ℤ → String
  number : ℤ → Double

structure WireError where
  code : String
  message : String
  details : Option JsValue

def WireError.value (error : WireError) : JsValue :=
  .object (("code", .string error.code) :: ("message", .string error.message) ::
    (error.details.map (fun details => ("details", details))).toList)

inductive HandlerError where
  | registered (error : WireError)
  | other (message : Option String)

inductive HandlerResult where
  | resolves (payload : Option JsValue)
  | rejects (error : HandlerError)

structure Execution where
  connection : ℕ
  request : IpcRequest
  startedAt : ℤ
  armed : Bool
  timedOut : Bool
  aborted : Bool
  running : Bool

structure LocalIpcClient where
  pid : ℕ
  requestTimeoutMs : Option ℤ
  sequence : ℕ

structure RequestOptions where
  deadlineAt : Option String
  -- Whether the caller gave a signal, and if so whether it was aborted already.
  signal : Option Bool

structure Issue where
  pid : ℕ
  sequence : ℕ
  call : String
  payload : JsValue
  deadlineAt : String

namespace Issue

def requestId (issue : Issue) : String := s!"ipc-{issue.pid}-{issue.sequence}"

def cancellationId (issue : Issue) : String := issue.requestId ++ ":cancel"

def request (issue : Issue) : IpcRequest :=
  ⟨ipcProtocolVersion, issue.requestId, issue.call, issue.deadlineAt, issue.cancellationId,
    issue.payload⟩

def cancel (issue : Issue) (deadlineAt : String) : IpcRequest :=
  ⟨ipcProtocolVersion, issue.requestId ++ ":cancel", "core:cancel", deadlineAt,
    issue.cancellationId ++ ":request",
    .object [("cancellation_id", .string issue.cancellationId)]⟩

end Issue

-- One call of `LocalIpcClient.request` with its socket: every call opens a socket of its own.
structure Connection where
  issue : Issue
  settled : Bool
  requestSent : Bool
  cancelRequested : Bool
  listening : Bool
  destroyed : Bool
  lost : Bool
  toServer : List IpcRequest
  toClient : List IpcFrame
  seenRequestIds : List String

namespace Connection

def cancel (dates : Dates) (now : ℤ) (c : Connection) : Connection :=
  if !c.settled && c.requestSent then
    { c with
      cancelRequested := true
      toServer := c.toServer ++ [c.issue.cancel (dates.toISOString (now + 1000))] }
  else { c with cancelRequested := true }

def connect (dates : Dates) (now : ℤ) (c : Connection) : Connection :=
  if c.destroyed || c.lost || c.requestSent then c
  else
    let sent := { c with requestSent := true, toServer := c.toServer ++ [c.issue.request] }
    if c.cancelRequested then sent.cancel dates now else sent

def signalAborted (dates : Dates) (now : ℤ) (c : Connection) : Connection :=
  if c.listening then { c with listening := false }.cancel dates now else c

def expire (dates : Dates) (now : ℤ) (c : Connection) : Connection :=
  if c.settled then c else { c.cancel dates now with settled := true, destroyed := true }

def receive (c : Connection) : Connection :=
  if c.destroyed || c.lost then c
  else match c.toClient with
    | [] => c
    | .response response :: rest =>
      if response.requestId = c.issue.requestId then { c with toClient := rest, settled := true }
      else { c with toClient := rest }
    | _ :: rest => { c with toClient := rest }

def fail (c : Connection) : Connection :=
  { c with lost := true, settled := true, destroyed := true }

def fallback (response : IpcResponse) (operation message : String) : IpcFrame :=
  .response ⟨ipcProtocolVersion, response.requestId, .error, none, some (WireError.value
    ⟨"core:ipc_frame_too_large",
      "The response for \"" ++ operation ++ "\" exceeded the maximum IPC frame size (" ++
        message ++ ")",
      some (.object [])⟩)⟩

def tooLarge : Thrown → Option String
  | .daemon error => if error.code = "core:ipc_frame_too_large" then some error.message else none
  | .foreign => none

def write (wire : Wire) (maxFrameBytes : ℕ) (frame : IpcFrame) (call : Option String)
    (c : Connection) : Connection :=
  if c.lost then c
  else match encodeIpcFrame wire frame maxFrameBytes with
    | .ok _ => { c with toClient := c.toClient ++ [frame] }
    | .error error =>
      match frame, tooLarge error with
      | .response response, some message =>
        let small := fallback response (call.getD response.requestId) message
        match encodeIpcFrame wire small maxFrameBytes with
        | .ok _ => { c with toClient := c.toClient ++ [small] }
        | .error _ => { c with lost := true }
      | _, _ => { c with lost := true }

end Connection

structure Ipc where
  clients : List LocalIpcClient
  connections : List Connection
  controllers : List (String × ℕ)
  executions : List Execution

inductive Event where
  | construct (pid : ℕ) (requestTimeoutMs : Option ℤ)
  | request (client : ℕ) (call : String) (payload : JsValue) (options : RequestOptions) (now : ℤ)
  | connect (connection : ℕ) (now : ℤ)
  | signalAborted (connection : ℕ) (now : ℤ)
  | clientDeadline (connection : ℕ) (now : ℤ)
  | clientReceives (connection : ℕ)
  | socketFails (connection : ℕ)
  | serverReceives (connection : ℕ) (now : ℤ)
  | handlerSettles (execution : ℕ) (result : HandlerResult) (now : ℤ)
  | reportProgress (execution : ℕ) (progress : JsValue)
  | serverDeadline (execution : ℕ)
  | close

structure Host where
  dates : Dates
  wire : Wire
  maxFrameBytes : ℕ

def record : JsValue → Bool
  | .bytes _ => true
  | .object _ => true
  | .derived _ _ => true
  | _ => false

def cancelId (request : IpcRequest) : Option String :=
  if request.call = "core:cancel" && record request.payload then
    match property "cancellation_id" request.payload with
    | some (.string id) => some id
    | _ => none
  else none

namespace Ipc

def initial : Ipc := ⟨[], [], [], []⟩

def onConnection (connection : ℕ) (f : Connection → Connection) (s : Ipc) : Ipc :=
  { s with connections := s.connections.modify connection f }

def onExecution (execution : ℕ) (f : Execution → Execution) (s : Ipc) : Ipc :=
  { s with executions := s.executions.modify execution f }

def abort (execution : ℕ) (s : Ipc) : Ipc :=
  s.onExecution execution (fun x => { x with aborted := true })

def abortNamed (id : String) (s : Ipc) : Ipc :=
  match get s.controllers id with
  | some execution => s.abort execution
  | none => s

def closeServer (s : Ipc) : Ipc := s.controllers.foldl (fun s entry => s.abort entry.2) s

variable (host : Host)

def write (connection : ℕ) (frame : IpcFrame) (call : Option String) (s : Ipc) : Ipc :=
  s.onConnection connection (Connection.write host.wire host.maxFrameBytes frame call)

def respond (connection : ℕ) (request : IpcRequest) (outcome : Outcome) (payload : Option JsValue)
    (error : Option WireError) (call : Option String) (s : Ipc) : Ipc :=
  s.write host connection
    (.response ⟨ipcProtocolVersion, request.requestId, outcome, payload, error.map WireError.value⟩)
      call

def rejectDuplicateRequest (connection : ℕ) (request : IpcRequest) (s : Ipc) : Ipc :=
  s.respond host connection request .error none
    (some ⟨"core:ipc_request_invalid", "IPC request id was already used on this connection.", none⟩)
      none

def handleCancellation (connection : ℕ) (request : IpcRequest) (id : String) (s : Ipc) : Ipc :=
  (s.abortNamed id).respond host connection request .success
    (some (.object [("cancelled", .boolean true)])) none
    (some request.call)

def requestWireError (error : HandlerError) (x : Execution) (now : ℤ) : WireError :=
  if x.timedOut then
    ⟨"core:ipc_timeout", "IPC request exceeded its deadline.",
      some (.object [("deadline_at", .string x.request.deadlineAt),
        ("elapsed_ms", .number (host.dates.number (max 0 (now - x.startedAt)))),
        ("phase", .string "daemon_execution")])⟩
  else match error with
    | .registered error => error
    | .other message => ⟨"core:execution_failed", message.getD "IPC request failed.",
        some (.object [])⟩

def validateRequestDeadline (request : IpcRequest) (now startedAt : ℤ) : Option WireError :=
  match host.dates.parse request.deadlineAt with
  | none => some ⟨"core:ipc_request_invalid", "IPC request deadline is not a valid timestamp.",
      some (.object [])⟩
  | some deadline =>
    if deadline ≤ now then
      some ⟨"core:ipc_timeout", "IPC request deadline has expired.",
        some (.object [("deadline_at", .string request.deadlineAt),
          ("elapsed_ms", .number (host.dates.number (max 0 (now - startedAt)))),
          ("phase", .string "daemon_admission")])⟩
    else none

def answer (x : Execution) (result : HandlerResult) (now : ℤ) (s : Ipc) : Ipc :=
  match result with
  | .resolves payload =>
    if x.timedOut then
      s.respond host x.connection x.request .error none
        (some (requestWireError host
          (.registered ⟨"core:ipc_timeout", "IPC request exceeded its deadline.",
            some (.object [])⟩) x now))
        (some x.request.call)
    else if x.aborted then s.respond host x.connection x.request .cancelled none none
      (some x.request.call)
    else s.respond host x.connection x.request .success payload none (some x.request.call)
  | .rejects error =>
    s.respond host x.connection x.request (if x.timedOut then .error
      else if x.aborted then .cancelled else .error)
      none (some (requestWireError host error x now)) (some x.request.call)

def finish (execution : ℕ) (x : Execution) (s : Ipc) : Ipc :=
  { s.onExecution execution (fun x => { x with armed := false, running := false }) with
    controllers := erase s.controllers x.request.cancellationId }

def settle (execution : ℕ) (result : HandlerResult) (now : ℤ) (s : Ipc) : Ipc :=
  match s.executions[execution]? with
  | some x => if x.running then (s.answer host x result now).finish execution x else s
  | none => s

def executeRequest (connection : ℕ) (request : IpcRequest) (now : ℤ) (s : Ipc) : Ipc :=
  let armed := (host.dates.parse request.deadlineAt).any (fun deadline => decide (now < deadline))
  let started := { s with
    controllers := insert s.controllers request.cancellationId s.executions.length
    executions := s.executions ++ [⟨connection, request, now, armed, false, false, true⟩] }
  match validateRequestDeadline host request now now with
  | none => started
  | some error => started.settle host s.executions.length (.rejects (.registered error)) now

def handleFrame (connection : ℕ) (c : Connection) (request : IpcRequest) (now : ℤ) (s : Ipc) :
    Ipc :=
  if request.requestId ∈ c.seenRequestIds then s.rejectDuplicateRequest host connection request
  else
    let seen := s.onConnection connection
      (fun c => { c with seenRequestIds := request.requestId :: c.seenRequestIds })
    match cancelId request with
    | some id => seen.handleCancellation host connection request id
    | none => seen.executeRequest host connection request now

def serverReceives (connection : ℕ) (now : ℤ) (s : Ipc) : Ipc :=
  match s.connections[connection]? with
  | none => s
  | some c =>
    if c.lost then s
    else match c.toServer with
      | [] => s
      | request :: rest =>
        (s.onConnection connection (fun c => { c with toServer := rest })).handleFrame host
          connection c request now

def reportProgress (execution : ℕ) (progress : JsValue) (s : Ipc) : Ipc :=
  match s.executions[execution]? with
  | none => s
  | some x =>
    s.write host x.connection (.progress ⟨ipcProtocolVersion, x.request.requestId, progress⟩)
      (some x.request.call)

def serverDeadline (execution : ℕ) (s : Ipc) : Ipc :=
  match s.executions[execution]? with
  | none => s
  | some x =>
    if x.armed then s.onExecution execution
      (fun x => { x with armed := false, timedOut := true, aborted := true })
    else s

def request (client : ℕ) (call : String) (payload : JsValue) (options : RequestOptions) (now : ℤ)
    (s : Ipc) : Ipc :=
  match s.clients[client]? with
  | none => s
  | some c =>
    let counted := { s with clients := s.clients.set client { c with sequence := c.sequence + 1 } }
    let deadlineAt :=
      options.deadlineAt.getD (host.dates.toISOString (now + c.requestTimeoutMs.getD 30000))
    match host.dates.parse deadlineAt with
    | none => counted
    | some deadline =>
      let opened : Connection := ⟨⟨c.pid, c.sequence, call, payload, deadlineAt⟩, false, false,
        options.signal.getD false, options.signal = some false, false, false, [], [], []⟩
      { counted with
        connections :=
          s.connections ++ [if deadline ≤ now then opened.expire host.dates now else opened] }

def step (s : Ipc) : Event → Ipc
  | .construct pid requestTimeoutMs =>
    { s with clients := s.clients ++ [⟨pid, requestTimeoutMs, 0⟩] }
  | .request client call payload options now => s.request host client call payload options now
  | .connect connection now => s.onConnection connection (Connection.connect host.dates now)
  | .signalAborted connection now => s.onConnection connection
      (Connection.signalAborted host.dates now)
  | .clientDeadline connection now => s.onConnection connection (Connection.expire host.dates now)
  | .clientReceives connection => s.onConnection connection Connection.receive
  | .socketFails connection => s.onConnection connection Connection.fail
  | .serverReceives connection now => s.serverReceives host connection now
  | .handlerSettles execution result now => s.settle host execution result now
  | .reportProgress execution progress => s.reportProgress host execution progress
  | .serverDeadline execution => s.serverDeadline execution
  | .close => s.closeServer

def run (events : List Event) (s : Ipc) : Ipc := events.foldl (step host) s

end Ipc

end Daemon
