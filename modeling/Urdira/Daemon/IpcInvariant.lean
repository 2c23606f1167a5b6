import Urdira.Daemon.LocalIpc

open AssocMap

namespace Daemon

theorem digits_split {p p' : ℕ} {rest rest' : List Char}
    (h : p.repr.toList ++ '-' :: rest = p'.repr.toList ++ '-' :: rest') :
    p = p' ∧ rest = rest' := by
  have hdigits : ∀ n : ℕ, ∀ c ∈ n.repr.toList, c.isDigit = true := by
    intro n c hc
    rw [Nat.toList_repr] at hc
    exact Nat.isDigit_of_mem_toDigits (by decide) (by decide) hc
  have hfront : ∀ (n : ℕ) (rest : List Char),
      (n.repr.toList ++ '-' :: rest).takeWhile Char.isDigit = n.repr.toList := by
    intro n rest
    rw [List.takeWhile_append_of_pos (hdigits n), List.takeWhile_cons_of_neg (by decide),
      List.append_nil]
  have hrepr : p.repr.toList = p'.repr.toList := by
    rw [← hfront p rest, h, hfront]
  refine ⟨Nat.repr_injective (String.toList_inj.mp hrepr), ?_⟩
  rw [hrepr] at h
  exact (List.cons.inj (List.append_cancel_left h)).2

namespace Issue

theorem requestId_inj {a b : Issue} (h : a.requestId = b.requestId) :
    a.pid = b.pid ∧ a.sequence = b.sequence := by
  have hid : ∀ i : Issue, i.requestId = "ipc-" ++ i.pid.repr ++ "-" ++ i.sequence.repr :=
    fun _ => rfl
  have hlist := congrArg String.toList h
  rw [hid, hid, String.toList_append, String.toList_append, String.toList_append,
    String.toList_append,
    String.toList_append, String.toList_append, List.append_assoc, List.append_assoc,
      List.append_assoc,
    List.append_assoc] at hlist
  obtain ⟨hpid, hsequence⟩ := digits_split (List.append_cancel_left hlist)
  exact ⟨hpid, Nat.repr_injective (String.toList_inj.mp hsequence)⟩

theorem cancellationId_inj {a b : Issue} (h : a.cancellationId = b.cancellationId) :
    a.pid = b.pid ∧ a.sequence = b.sequence := by
  refine requestId_inj (String.toList_inj.mp ?_)
  have hlist := congrArg String.toList h
  rw [cancellationId, cancellationId, String.toList_append, String.toList_append] at hlist
  exact List.append_cancel_right hlist

theorem cancel_ne_request (issue : Issue) : issue.requestId ++ ":cancel" ≠ issue.requestId := by
  intro h
  have hlength := congrArg (fun id => id.toList.length) h
  simp only [String.toList_append, List.length_append] at hlength
  have hpos : 0 < (":cancel" : String).toList.length := by decide
  omega

theorem cancel_ne (issue : Issue) (deadlineAt : String) : issue.cancel deadlineAt ≠ issue.request :=
  fun h => issue.cancel_ne_request (congrArg IpcRequest.requestId h)

theorem cancelId_cancel (issue : Issue) (deadlineAt : String) :
    cancelId (issue.cancel deadlineAt) = some issue.cancellationId := by
  rfl

end Issue

namespace Connection

def Ordered (c : Connection) : Prop :=
  (c.requestSent = false ∧ c.toServer = [] ∧ c.seenRequestIds = []) ∨
  (c.requestSent = true ∧ c.seenRequestIds = [] ∧ ∃ cancels,
    c.toServer = c.issue.request :: cancels ∧
    ∀ frame ∈ cancels, ∃ deadlineAt, frame = c.issue.cancel deadlineAt) ∨
  (c.requestSent = true ∧ c.issue.requestId ∈ c.seenRequestIds ∧
    ∀ frame ∈ c.toServer, ∃ deadlineAt, frame = c.issue.cancel deadlineAt)

structure Moves (f : Connection → Connection) : Prop where
  issue : ∀ c, (f c).issue = c.issue
  seen : ∀ c, (f c).seenRequestIds = c.seenRequestIds
  ordered : ∀ c, c.Ordered → (f c).Ordered

theorem Ordered.congr {c c' : Connection} (h : c.Ordered) (hissue : c'.issue = c.issue)
    (hsent : c'.requestSent = c.requestSent) (hserver : c'.toServer = c.toServer)
    (hseen : c'.seenRequestIds = c.seenRequestIds) : c'.Ordered := by
  rw [Ordered, hissue, hsent, hserver, hseen]
  exact h

theorem Ordered.concat {c : Connection} (h : c.Ordered) (hsent : c.requestSent = true)
    (deadlineAt : String)
    {c' : Connection} (hissue : c'.issue = c.issue) (hsent' : c'.requestSent = c.requestSent)
    (hserver : c'.toServer = c.toServer ++ [c.issue.cancel deadlineAt])
    (hseen : c'.seenRequestIds = c.seenRequestIds) : c'.Ordered := by
  have hlast : ∀ frames : List IpcRequest,
      (∀ frame ∈ frames, ∃ deadlineAt, frame = c.issue.cancel deadlineAt) →
      ∀ frame ∈ frames ++ [c.issue.cancel deadlineAt], ∃ deadlineAt,
        frame = c.issue.cancel deadlineAt := by
    intro frames hframes frame hframe
    rcases List.mem_append.mp hframe with hframe | hframe
    · exact hframes frame hframe
    · exact ⟨deadlineAt, List.mem_singleton.mp hframe⟩
  rw [Ordered, hissue, hsent', hserver, hseen]
  rcases h with ⟨hunsent, -, -⟩ | ⟨-, hnone, cancels, hcancels, hall⟩ | ⟨-, hmem, hall⟩
  · rw [hunsent] at hsent
    cases hsent
  · exact .inr (.inl ⟨hsent, hnone, cancels ++ [c.issue.cancel deadlineAt],
      by rw [hcancels]; rfl, hlast _ hall⟩)
  · exact .inr (.inr ⟨hsent, hmem, hlast _ hall⟩)

theorem moves_cancel (dates : Dates) (now : ℤ) : Moves (cancel dates now) := by
  refine ⟨fun c => ?_, fun c => ?_, fun c h => ?_⟩
  · rw [cancel]
    split <;> rfl
  · rw [cancel]
    split <;> rfl
  · rw [cancel]
    split
    case isTrue hopen => exact h.concat (Bool.and_eq_true_iff.mp hopen).2 _ rfl rfl rfl rfl
    case isFalse => exact h.congr rfl rfl rfl rfl

theorem Ordered.send {c : Connection} (h : c.Ordered) (hunsent : c.requestSent = false) :
    ({ c with requestSent := true, toServer := c.toServer ++ [c.issue.request] } :
      Connection).Ordered := by
  rcases h with ⟨-, hserver, hseen⟩ | ⟨hsent, -⟩ | ⟨hsent, -⟩
  · exact .inr (.inl ⟨rfl, hseen, [], by rw [hserver]; rfl, by intro frame hframe; cases hframe⟩)
  · rw [hunsent] at hsent
    cases hsent
  · rw [hunsent] at hsent
    cases hsent

theorem moves_connect (dates : Dates) (now : ℤ) : Moves (connect dates now) := by
  refine ⟨fun c => ?_, fun c => ?_, fun c h => ?_⟩
  · rw [connect]
    split
    · rfl
    · split
      · exact (moves_cancel dates now).issue _
      · rfl
  · rw [connect]
    split
    · rfl
    · split
      · exact (moves_cancel dates now).seen _
      · rfl
  · rw [connect]
    split
    · exact h
    case isFalse hopen =>
      have hunsent : c.requestSent = false := by
        simp only [Bool.or_eq_true, not_or, Bool.not_eq_true] at hopen
        exact hopen.2
      split
      · exact (moves_cancel dates now).ordered _ (h.send hunsent)
      · exact h.send hunsent

theorem moves_signalAborted (dates : Dates) (now : ℤ) : Moves (signalAborted dates now) := by
  refine ⟨fun c => ?_, fun c => ?_, fun c h => ?_⟩
  · rw [signalAborted]
    split
    · exact (moves_cancel dates now).issue _
    · rfl
  · rw [signalAborted]
    split
    · exact (moves_cancel dates now).seen _
    · rfl
  · rw [signalAborted]
    split
    · exact (moves_cancel dates now).ordered _ (h.congr rfl rfl rfl rfl)
    · exact h

theorem moves_expire (dates : Dates) (now : ℤ) : Moves (expire dates now) := by
  refine ⟨fun c => ?_, fun c => ?_, fun c h => ?_⟩
  · rw [expire]
    split
    · rfl
    · exact (moves_cancel dates now).issue c
  · rw [expire]
    split
    · rfl
    · exact (moves_cancel dates now).seen c
  · rw [expire]
    split
    · exact h
    · exact ((moves_cancel dates now).ordered c h).congr rfl rfl rfl rfl

theorem moves_of_fields {f : Connection → Connection} (hissue : ∀ c, (f c).issue = c.issue)
    (hsent : ∀ c, (f c).requestSent = c.requestSent) (hserver : ∀ c, (f c).toServer = c.toServer)
    (hseen : ∀ c, (f c).seenRequestIds = c.seenRequestIds) : Moves f :=
  ⟨hissue, hseen, fun c h => h.congr (hissue c) (hsent c) (hserver c) (hseen c)⟩

theorem moves_receive : Moves receive := by
  apply moves_of_fields <;> intro c <;> unfold receive <;> (repeat' split) <;> rfl

theorem moves_fail : Moves fail :=
  moves_of_fields (fun _ => rfl) (fun _ => rfl) (fun _ => rfl) (fun _ => rfl)

theorem write_cases (wire : Wire) (maxFrameBytes : ℕ) (frame : IpcFrame) (call : Option String)
    (c : Connection) :
    ∃ lost frames, c.write wire maxFrameBytes frame call =
      { c with lost := lost, toClient := frames } := by
  unfold write
  split
  · exact ⟨c.lost, c.toClient, rfl⟩
  · split
    · exact ⟨c.lost, _, rfl⟩
    · split
      · dsimp only
        split
        · exact ⟨c.lost, _, rfl⟩
        · exact ⟨true, c.toClient, rfl⟩
      · exact ⟨true, c.toClient, rfl⟩

theorem moves_write (wire : Wire) (maxFrameBytes : ℕ) (frame : IpcFrame) (call : Option String) :
    Moves (write wire maxFrameBytes frame call) := by
  apply moves_of_fields <;> intro c <;> obtain ⟨lost, frames, h⟩ :=
    write_cases wire maxFrameBytes frame call c <;>
    rw [h]

theorem ordered_opened (issue : Issue) (aborted listening : Bool) :
    (⟨issue, false, false, aborted, listening, false, false, [], [], []⟩ : Connection).Ordered :=
  .inl ⟨rfl, rfl, rfl⟩

end Connection

namespace Ipc

structure Ok (s : Ipc) : Prop where
  ordered : ∀ c ∈ s.connections, c.Ordered
  issued : ∀ x ∈ s.executions, ∃ c, s.connections[x.connection]? = some c ∧
    x.request = c.issue.request ∧
    c.issue.requestId ∈ c.seenRequestIds
  held : ∀ (i : ℕ) (x : Execution), s.executions[i]? = some x → x.running = true →
    get s.controllers x.request.cancellationId = some i
  running : ∀ (id : String) (i : ℕ), get s.controllers id = some i →
    ∃ x, s.executions[i]? = some x ∧
    x.running = true ∧ x.request.cancellationId = id
  cancelled : ∀ x ∈ s.executions, x.running = true → ∀ c, s.connections[x.connection]? = some c →
    c.issue.requestId ++ ":cancel" ∈ c.seenRequestIds → x.aborted = true

theorem ok_initial : initial.Ok := by
  constructor
  · intro c hc
    cases hc
  · intro x hx
    cases hx
  · intro i x hx
    cases hx
  · intro id i hi
    cases hi
  · intro x hx
    cases hx

variable {s : Ipc}

theorem getElem?_onConnection (k : ℕ) (f : Connection → Connection) (j : ℕ) :
    (s.onConnection k f).connections[j]? =
      s.connections[j]?.map (fun c => if k = j then f c else c) := by
  rw [onConnection, List.getElem?_modify]
  rfl

theorem getElem?_onExecution (k : ℕ) (f : Execution → Execution) (j : ℕ) :
    (s.onExecution k f).executions[j]? =
      s.executions[j]?.map (fun x => if k = j then f x else x) := by
  rw [onExecution, List.getElem?_modify]
  rfl

theorem mem_onConnection {k : ℕ} {f : Connection → Connection} {c : Connection}
    (h : c ∈ (s.onConnection k f).connections) :
    ∃ j c', s.connections[j]? = some c' ∧ c = if k = j then f c' else c' := by
  obtain ⟨j, hj⟩ := List.mem_iff_getElem?.mp h
  rw [getElem?_onConnection, Option.map_eq_some_iff] at hj
  obtain ⟨c', hc', hc⟩ := hj
  exact ⟨j, c', hc', hc.symm⟩

theorem mem_onExecution {k : ℕ} {f : Execution → Execution} {x : Execution}
    (h : x ∈ (s.onExecution k f).executions) :
    ∃ j x', s.executions[j]? = some x' ∧ x = if k = j then f x' else x' := by
  obtain ⟨j, hj⟩ := List.mem_iff_getElem?.mp h
  rw [getElem?_onExecution, Option.map_eq_some_iff] at hj
  obtain ⟨x', hx', hx⟩ := hj
  exact ⟨j, x', hx', hx.symm⟩

theorem Ok.onConnection (h : s.Ok) (k : ℕ) {f : Connection → Connection} (hf : Connection.Moves f) :
    (s.onConnection k f).Ok := by
  constructor
  · intro c hc
    obtain ⟨j, c', hc', rfl⟩ := mem_onConnection hc
    have hordered := h.ordered c' (List.mem_of_getElem? hc')
    split
    · exact hf.ordered c' hordered
    · exact hordered
  · intro x hx
    obtain ⟨c, hc, hrequest, hseen⟩ := h.issued x hx
    refine ⟨if k = x.connection then f c else c, by rw [getElem?_onConnection, hc]; rfl, ?_⟩
    split
    · rw [hf.issue, hf.seen]
      exact ⟨hrequest, hseen⟩
    · exact ⟨hrequest, hseen⟩
  · exact h.held
  · exact h.running
  · intro x hx hrunning c hc hcancel
    rw [getElem?_onConnection, Option.map_eq_some_iff] at hc
    obtain ⟨c', hc', rfl⟩ := hc
    refine h.cancelled x hx hrunning c' hc' ?_
    split at hcancel
    · rw [hf.issue, hf.seen] at hcancel
      exact hcancel
    · exact hcancel

theorem Ok.write (h : s.Ok) (host : Host) (connection : ℕ) (frame : IpcFrame)
    (call : Option String) :
    (s.write host connection frame call).Ok :=
  h.onConnection connection (Connection.moves_write _ _ _ _)

structure Aborts (f : Execution → Execution) : Prop where
  connection : ∀ x, (f x).connection = x.connection
  request : ∀ x, (f x).request = x.request
  running : ∀ x, (f x).running = x.running
  aborted : ∀ x, x.aborted = true → (f x).aborted = true

theorem Ok.onExecution (h : s.Ok) (k : ℕ) {f : Execution → Execution} (hf : Aborts f) :
    (s.onExecution k f).Ok := by
  constructor
  · exact h.ordered
  · intro x hx
    obtain ⟨j, x', hx', rfl⟩ := mem_onExecution hx
    have hissued := h.issued x' (List.mem_of_getElem? hx')
    split
    · rw [hf.connection, hf.request]
      exact hissued
    · exact hissued
  · intro i x hx hrunning
    rw [getElem?_onExecution, Option.map_eq_some_iff] at hx
    obtain ⟨x', hx', rfl⟩ := hx
    split at hrunning
    · rw [hf.running] at hrunning
      rw [if_pos ‹_›, hf.request]
      exact h.held i x' hx' hrunning
    · rw [if_neg ‹_›]
      exact h.held i x' hx' hrunning
  · intro id i hi
    obtain ⟨x, hx, hrunning, hid⟩ := h.running id i hi
    refine ⟨if k = i then f x else x, by rw [getElem?_onExecution, hx]; rfl, ?_⟩
    split
    · rw [hf.running, hf.request]
      exact ⟨hrunning, hid⟩
    · exact ⟨hrunning, hid⟩
  · intro x hx hrunning c hc hcancel
    obtain ⟨j, x', hx', rfl⟩ := mem_onExecution hx
    have hcancelled := h.cancelled x' (List.mem_of_getElem? hx')
    split at hrunning
    · rw [hf.running] at hrunning
      rw [if_pos ‹_›, hf.connection] at hc
      rw [if_pos ‹_›]
      exact hf.aborted x' (hcancelled hrunning c hc hcancel)
    · rw [if_neg ‹_›] at hc ⊢
      exact hcancelled hrunning c hc hcancel

theorem aborts_abort : Aborts (fun x => { x with aborted := true }) :=
  ⟨fun _ => rfl, fun _ => rfl, fun _ => rfl, fun _ _ => rfl⟩

theorem Ok.abort (h : s.Ok) (execution : ℕ) : (s.abort execution).Ok :=
  h.onExecution execution aborts_abort

theorem Ok.closeServer (h : s.Ok) : s.closeServer.Ok := by
  have hall : ∀ (entries : List (String × ℕ)) (s : Ipc), s.Ok →
      (entries.foldl (fun s entry => s.abort entry.2) s).Ok := by
    intro entries
    induction entries with
    | nil => exact fun _ hs => hs
    | cons entry entries ih => exact fun s hs => ih _ (hs.abort entry.2)
  exact hall s.controllers s h

theorem Ok.finish (h : s.Ok) {execution : ℕ} {x : Execution}
    (hx : s.executions[execution]? = some x)
    (hrunning : x.running = true) : (s.finish execution x).Ok := by
  have hx' := h.held execution x hx hrunning
  constructor
  · exact h.ordered
  · intro y hy
    obtain ⟨j, y', hy', rfl⟩ := mem_onExecution hy
    have hissued := h.issued y' (List.mem_of_getElem? hy')
    split <;> exact hissued
  · intro i y hy hrun
    rw [Ipc.finish, getElem?_onExecution, Option.map_eq_some_iff] at hy
    obtain ⟨y', hy', rfl⟩ := hy
    split at hrun
    · cases hrun
    case isFalse hne =>
      rw [if_neg hne]
      have hother := h.held i y' hy' hrun
      have hid : y'.request.cancellationId ≠ x.request.cancellationId := by
        intro hsame
        rw [hsame, hx'] at hother
        exact hne (Option.some.inj hother)
      exact (get_erase_ne _ hid).trans hother
  · intro id i hi
    have hid : id ≠ x.request.cancellationId := by
      intro hsame
      rw [hsame, Ipc.finish, get_erase_self] at hi
      cases hi
    rw [Ipc.finish, get_erase_ne _ hid] at hi
    obtain ⟨y, hy, hrun, hyid⟩ := h.running id i hi
    have hne : ¬ execution = i := by
      intro hsame
      rw [hsame, hy] at hx
      rw [Option.some.inj hx] at hyid
      exact hid hyid.symm
    exact ⟨y, by rw [Ipc.finish, getElem?_onExecution, hy, Option.map_some, if_neg hne], hrun, hyid⟩
  · intro y hy hrun c hc hcancel
    obtain ⟨j, y', hy', rfl⟩ := mem_onExecution hy
    split at hrun
    · cases hrun
    case isFalse hne =>
      rw [if_neg hne] at hc ⊢
      exact h.cancelled y' (List.mem_of_getElem? hy') hrun c hc hcancel

theorem answer_eq (host : Host) (x : Execution) (result : HandlerResult) (now : ℤ) :
    ∃ frame, s.answer host x result now =
      s.write host x.connection frame (some x.request.call) := by
  cases result with
  | resolves payload =>
    rw [answer]
    split
    · exact ⟨_, rfl⟩
    · split <;> exact ⟨_, rfl⟩
  | rejects error => exact ⟨_, rfl⟩

theorem Ok.settle (h : s.Ok) (host : Host) (execution : ℕ) (result : HandlerResult) (now : ℤ) :
    (s.settle host execution result now).Ok := by
  rw [Ipc.settle]
  split
  case h_1 x hx =>
    split
    case isTrue hrunning =>
      obtain ⟨frame, hanswer⟩ := s.answer_eq host x result now
      rw [hanswer]
      exact (h.write host x.connection frame _).finish hx hrunning
    case isFalse => exact h
  case h_2 => exact h

theorem Ok.start (h : s.Ok) {x : Execution} {c : Connection}
    (hc : s.connections[x.connection]? = some c)
    (hrequest : x.request = c.issue.request) (hrunning : x.running = true)
    (hseen : c.issue.requestId ∈ c.seenRequestIds)
    (hcancel : c.issue.requestId ++ ":cancel" ∉ c.seenRequestIds)
    (hfree : ∀ y ∈ s.executions, y.running = true →
      y.request.cancellationId ≠ x.request.cancellationId) :
    ({ s with
      controllers := insert s.controllers x.request.cancellationId s.executions.length
      executions := s.executions ++ [x] } : Ipc).Ok := by
  constructor
  · exact h.ordered
  · intro y hy
    rcases List.mem_append.mp hy with hy | hy
    · exact h.issued y hy
    · rw [List.mem_singleton.mp hy]
      exact ⟨c, hc, hrequest, hseen⟩
  · intro i y hy hrun
    rw [List.getElem?_append] at hy
    split at hy
    · have hother := hfree y (List.mem_of_getElem? hy) hrun
      exact (get_insert_ne _ _ hother).trans (h.held i y hy hrun)
    case isFalse hlast =>
      rw [List.getElem?_singleton] at hy
      split at hy
      case isTrue hindex =>
        rw [← Option.some.inj hy, get_insert_self]
        congr 1
        omega
      case isFalse => cases hy
  · intro id i hi
    by_cases hid : id = x.request.cancellationId
    · rw [hid, get_insert_self] at hi
      obtain rfl := Option.some.inj hi
      exact ⟨x, List.getElem?_concat_length, hrunning, hid.symm⟩
    · rw [get_insert_ne _ _ hid] at hi
      obtain ⟨y, hy, hrun, hyid⟩ := h.running id i hi
      refine ⟨y, ?_, hrun, hyid⟩
      rw [List.getElem?_append_left (List.getElem?_eq_some_iff.mp hy).1]
      exact hy
  · intro y hy hrun d hd hmem
    rcases List.mem_append.mp hy with hy | hy
    · exact h.cancelled y hy hrun d hd hmem
    · rw [List.mem_singleton.mp hy, hc] at hd
      rw [Option.some.inj hd] at hcancel
      exact absurd hmem hcancel

theorem Ok.executeRequest (h : s.Ok) (host : Host) {connection : ℕ} {c : Connection}
    {request : IpcRequest} (now : ℤ)
    (hc : s.connections[connection]? = some c) (hrequest : request = c.issue.request)
    (hseen : c.issue.requestId ∈ c.seenRequestIds)
    (hcancel : c.issue.requestId ++ ":cancel" ∉ c.seenRequestIds)
    (hfree : ∀ y ∈ s.executions, y.running = true →
      y.request.cancellationId ≠ request.cancellationId) :
    (s.executeRequest host connection request now).Ok := by
  have hstarted := h.start (x := ⟨connection, request, now,
    (host.dates.parse request.deadlineAt).any (fun deadline => decide (now < deadline)), false,
      false, true⟩)
    hc hrequest rfl hseen hcancel hfree
  rw [Ipc.executeRequest]
  split
  · exact hstarted
  · exact hstarted.settle host _ _ now

theorem Ok.abortNamed (h : s.Ok) (id : String) : (s.abortNamed id).Ok := by
  rw [Ipc.abortNamed]
  split
  · exact h.abort _
  · exact h

theorem Ok.receive (h : s.Ok) {k : ℕ} {c : Connection} (hc : s.connections[k]? = some c)
    {f : Connection → Connection} (hissue : (f c).issue = c.issue) (hordered : (f c).Ordered)
    (hseen : ∀ id ∈ c.seenRequestIds, id ∈ (f c).seenRequestIds)
    (hcancel : c.issue.requestId ++ ":cancel" ∈ (f c).seenRequestIds →
      ∀ x ∈ s.executions, x.running = true → x.connection = k → x.aborted = true) :
    (s.onConnection k f).Ok := by
  have hself : ∀ d, s.connections[k]? = some d → d = c := by
    intro d hd
    rw [hc] at hd
    exact (Option.some.inj hd).symm
  constructor
  · intro d hd
    obtain ⟨j, d', hd', rfl⟩ := mem_onConnection hd
    split
    case isTrue hj =>
      rw [hself d' (hj ▸ hd')]
      exact hordered
    case isFalse => exact h.ordered d' (List.mem_of_getElem? hd')
  · intro x hx
    obtain ⟨d, hd, hrequest, hmem⟩ := h.issued x hx
    refine ⟨if k = x.connection then f d else d, by rw [getElem?_onConnection, hd]; rfl, ?_⟩
    split
    case isTrue hk =>
      obtain rfl := hself d (hk ▸ hd)
      rw [hissue]
      exact ⟨hrequest, hseen _ hmem⟩
    case isFalse => exact ⟨hrequest, hmem⟩
  · exact h.held
  · exact h.running
  · intro x hx hrunning d hd hmem
    rw [getElem?_onConnection, Option.map_eq_some_iff] at hd
    obtain ⟨d', hd', rfl⟩ := hd
    split at hmem
    case isTrue hk =>
      obtain rfl := hself d' (hk ▸ hd')
      rw [hissue] at hmem
      exact hcancel hmem x hx hrunning hk.symm
    case isFalse => exact h.cancelled x hx hrunning d' hd' hmem

theorem onConnection_onConnection (k : ℕ) (f g : Connection → Connection) :
    (s.onConnection k f).onConnection k g = s.onConnection k (fun c => g (f c)) := by
  rw [onConnection, onConnection, onConnection, List.modify_modify_eq]
  rfl

def receiving (rest : List IpcRequest) (requestId : String) (c : Connection) : Connection :=
  { c with toServer := rest, seenRequestIds := requestId :: c.seenRequestIds }

inductive Receives (host : Host) (s : Ipc) (k : ℕ) (now : ℤ) : Ipc → Prop
  | idle : (∀ c, s.connections[k]? = some c → c.lost = false → c.toServer = []) →
    Receives host s k now s
  | executes (c : Connection) (rest : List IpcRequest) : s.connections[k]? = some c →
      c.toServer = c.issue.request :: rest → c.seenRequestIds = [] →
      (∀ frame ∈ rest, ∃ deadlineAt, frame = c.issue.cancel deadlineAt) → c.requestSent = true →
      cancelId c.issue.request = none →
      Receives host s k now
        ((s.onConnection k (receiving rest c.issue.requestId)).executeRequest host k
          c.issue.request now)
  | names (c : Connection) (rest : List IpcRequest) (id : String) : s.connections[k]? = some c →
      c.toServer = c.issue.request :: rest → c.seenRequestIds = [] →
      (∀ frame ∈ rest, ∃ deadlineAt, frame = c.issue.cancel deadlineAt) → c.requestSent = true →
      cancelId c.issue.request = some id →
      Receives host s k now
        ((s.onConnection k (receiving rest c.issue.requestId)).handleCancellation host k
          c.issue.request id)
  | repeats (c : Connection) (deadlineAt : String) (rest : List IpcRequest) : s.connections[k]? =
      some c →
      c.toServer = c.issue.cancel deadlineAt :: rest → c.issue.requestId ∈ c.seenRequestIds →
      (∀ frame ∈ rest, ∃ deadlineAt, frame = c.issue.cancel deadlineAt) → c.requestSent = true →
      c.issue.requestId ++ ":cancel" ∈ c.seenRequestIds →
      Receives host s k now
        ((s.onConnection k (fun c => { c with toServer := rest })).rejectDuplicateRequest host k
        (c.issue.cancel deadlineAt))
  | cancels (c : Connection) (deadlineAt : String) (rest : List IpcRequest) : s.connections[k]? =
      some c →
      c.toServer = c.issue.cancel deadlineAt :: rest → c.issue.requestId ∈ c.seenRequestIds →
      (∀ frame ∈ rest, ∃ deadlineAt, frame = c.issue.cancel deadlineAt) → c.requestSent = true →
      Receives host s k now
        ((s.onConnection k (receiving rest (c.issue.requestId ++ ":cancel"))).handleCancellation
        host k (c.issue.cancel deadlineAt) c.issue.cancellationId)

theorem Ok.receives (h : s.Ok) (host : Host) (k : ℕ) (now : ℤ) :
    Receives host s k now (s.serverReceives host k now) := by
  rw [serverReceives]
  split
  case h_1 hnone =>
    refine .idle fun c hc => ?_
    rw [hnone] at hc
    cases hc
  case h_2 c hc =>
    split
    case isTrue hlost =>
      refine .idle fun d hd hopen => ?_
      rw [hc] at hd
      rw [← Option.some.inj hd, hlost] at hopen
      cases hopen
    · split
      case h_1 hempty =>
        refine .idle fun d hd _ => ?_
        rw [hc] at hd
        rw [← Option.some.inj hd]
        exact hempty
      case h_2 request rest hserver =>
        rcases h.ordered c (List.mem_of_getElem? hc) with ⟨-, hnone, -⟩ |
          ⟨hsent, hseen, cancels, hcancels, hall⟩ | ⟨hsent, hseen, hall⟩
        · rw [hserver] at hnone
          cases hnone
        · rw [hserver] at hcancels
          obtain ⟨rfl, rfl⟩ := List.cons.inj hcancels
          have hfresh : c.issue.request.requestId ∉ c.seenRequestIds := by
            rw [hseen]
            exact List.not_mem_nil
          rw [handleFrame, if_neg hfresh, onConnection_onConnection]
          cases hid : cancelId c.issue.request with
          | none => exact .executes c rest hc hserver hseen hall hsent hid
          | some id => exact .names c rest id hc hserver hseen hall hsent hid
        · rw [hserver] at hall
          obtain ⟨deadlineAt, rfl⟩ := hall request List.mem_cons_self
          have hrest : ∀ frame ∈ rest, ∃ deadlineAt, frame = c.issue.cancel deadlineAt :=
            fun frame hframe => hall frame (List.mem_cons_of_mem _ hframe)
          rw [handleFrame]
          split
          case isTrue hrepeated =>
            exact .repeats c deadlineAt rest hc hserver hseen hrest hsent hrepeated
          case isFalse =>
            rw [onConnection_onConnection, Issue.cancelId_cancel]
            exact .cancels c deadlineAt rest hc hserver hseen hrest hsent

theorem Ok.not_issued (h : s.Ok) {k : ℕ} {c : Connection} (hc : s.connections[k]? = some c)
    (hseen : c.seenRequestIds = []) {x : Execution} (hx : x ∈ s.executions) : x.connection ≠ k := by
  rintro rfl
  obtain ⟨d, hd, -, hmem⟩ := h.issued x hx
  rw [hc] at hd
  rw [← Option.some.inj hd, hseen] at hmem
  exact List.not_mem_nil hmem

theorem connections_abortNamed (id : String) : (s.abortNamed id).connections = s.connections := by
  rw [abortNamed]
  split <;> rfl

theorem abortNamed_onConnection (k : ℕ) (f : Connection → Connection) (id : String) :
    (s.onConnection k f).abortNamed id = (s.abortNamed id).onConnection k f := by
  have hcontrollers : (s.onConnection k f).controllers = s.controllers := rfl
  rw [abortNamed, abortNamed, hcontrollers]
  cases get s.controllers id with
  | none => rfl
  | some execution => rfl

theorem mem_abortNamed {id : String} {x : Execution} (hx : x ∈ (s.abortNamed id).executions) :
    ∃ i y, s.executions[i]? = some y ∧ x.connection = y.connection ∧ x.request = y.request ∧
      x.running = y.running ∧
      (get s.controllers id = some i → x.aborted = true) := by
  rw [abortNamed] at hx
  split at hx
  case h_1 execution hexecution =>
    obtain ⟨i, y, hy, rfl⟩ := mem_onExecution hx
    refine ⟨i, y, hy, ?_⟩
    split
    · exact ⟨rfl, rfl, rfl, fun _ => rfl⟩
    case isFalse hne =>
      refine ⟨rfl, rfl, rfl, fun hi => ?_⟩
      rw [hexecution] at hi
      exact absurd (Option.some.inj hi) hne
  case h_2 hnone =>
    obtain ⟨i, hi⟩ := List.mem_iff_getElem?.mp hx
    refine ⟨i, x, hi, rfl, rfl, rfl, fun hsome => ?_⟩
    rw [hnone] at hsome
    cases hsome

def Uncontested (s : Ipc) : Event → Prop
  | .serverReceives k _ => ∀ x ∈ s.executions, x.running = true → x.connection ≠ k →
      ∀ c ∈ s.connections[k]?, ∀ other ∈ s.connections[x.connection]?,
        ¬ (c.issue.pid = other.issue.pid ∧ c.issue.sequence = other.issue.sequence) ∧
          cancelId c.issue.request ≠ some other.issue.cancellationId
  | _ => True

instance (s : Ipc) : DecidablePred s.Uncontested
  | .serverReceives k _ =>
    inferInstanceAs (Decidable (∀ x ∈ s.executions, x.running = true → x.connection ≠ k →
      ∀ c ∈ s.connections[k]?, ∀ other ∈ s.connections[x.connection]?,
        ¬ (c.issue.pid = other.issue.pid ∧ c.issue.sequence = other.issue.sequence) ∧
          cancelId c.issue.request ≠ some other.issue.cancellationId))
  | .construct .. => isTrue trivial
  | .request .. => isTrue trivial
  | .connect .. => isTrue trivial
  | .signalAborted .. => isTrue trivial
  | .clientDeadline .. => isTrue trivial
  | .clientReceives .. => isTrue trivial
  | .socketFails .. => isTrue trivial
  | .handlerSettles .. => isTrue trivial
  | .reportProgress .. => isTrue trivial
  | .serverDeadline .. => isTrue trivial
  | .close => isTrue trivial

def UncontestedRun (host : Host) : Ipc → List Event → Prop
  | _, [] => True
  | s, event :: events => s.Uncontested event ∧ UncontestedRun host (s.step host event) events

instance instDecidableUncontestedRun (host : Host) : (s : Ipc) → (events : List Event) →
      Decidable (UncontestedRun host s events)
  | _, [] => isTrue trivial
  | s, event :: events =>
    have : Decidable (UncontestedRun host (s.step host event) events) :=
      instDecidableUncontestedRun host _ events
    inferInstanceAs (Decidable (s.Uncontested event ∧
      UncontestedRun host (s.step host event) events))

theorem Ok.cancellationId_ne (h : s.Ok) {k : ℕ} {now : ℤ}
    (hfree : s.Uncontested (.serverReceives k now))
    {c : Connection} (hc : s.connections[k]? = some c) {x : Execution} (hx : x ∈ s.executions)
    (hrunning : x.running = true) (hne : x.connection ≠ k) :
    x.request.cancellationId ≠ c.issue.cancellationId ∧
      cancelId c.issue.request ≠ some x.request.cancellationId := by
  obtain ⟨d, hd, hrequest, -⟩ := h.issued x hx
  obtain ⟨hissue, hnamed⟩ := hfree x hx hrunning hne c hc d hd
  rw [hrequest]
  refine ⟨fun hsame => hissue ?_, hnamed⟩
  exact Issue.cancellationId_inj hsame.symm

theorem Ok.serverReceives (h : s.Ok) (host : Host) (k : ℕ) (now : ℤ)
    (hfree : s.Uncontested (.serverReceives k now)) : (s.serverReceives host k now).Ok := by
  have hreceives := h.receives host k now
  generalize Ipc.serverReceives host k now s = next at hreceives ⊢
  cases hreceives with
  | idle hempty => exact h
  | executes c rest hc hserver hseen hall hsent hid =>
    have hcancel : c.issue.requestId ++ ":cancel" ∉
        (receiving rest c.issue.requestId c).seenRequestIds := by
      rw [receiving, hseen]
      exact fun hmem => c.issue.cancel_ne_request (List.mem_singleton.mp hmem)
    have hreceived : (s.onConnection k (receiving rest c.issue.requestId)).Ok := by
      refine h.receive hc rfl (.inr (.inr ⟨hsent, List.mem_cons_self, hall⟩))
        (fun id hmem => List.mem_cons_of_mem _ hmem) (fun hmem => absurd hmem hcancel)
    refine hreceived.executeRequest host now (c := receiving rest c.issue.requestId c) ?_ rfl
      List.mem_cons_self hcancel ?_
    · rw [getElem?_onConnection, hc, Option.map_some, if_pos rfl]
    · intro y hy hrunning
      exact (h.cancellationId_ne hfree hc hy hrunning (h.not_issued hc hseen hy)).1
  | names c rest id hc hserver hseen hall hsent hid =>
    have hreceived : (s.onConnection k (receiving rest c.issue.requestId)).Ok := by
      refine h.receive hc rfl (.inr (.inr ⟨hsent, List.mem_cons_self, hall⟩))
        (fun id hmem => List.mem_cons_of_mem _ hmem) ?_
      intro hmem x hx hrunning hk
      exact absurd hk (h.not_issued hc hseen hx)
    exact (hreceived.abortNamed id).write host k _ _
  | repeats c deadlineAt rest hc hserver hseen hall hsent hrepeated =>
    have hreceived : (s.onConnection k (fun c => { c with toServer := rest })).Ok := by
      refine h.receive hc rfl (.inr (.inr ⟨hsent, hseen, hall⟩)) (fun id hmem => hmem) ?_
      rintro - x hx hrunning rfl
      exact h.cancelled x hx hrunning c hc hrepeated
    exact hreceived.write host k _ _
  | cancels c deadlineAt rest hc hserver hseen hall hsent =>
    have hreceived : ((s.abortNamed c.issue.cancellationId).onConnection k
        (receiving rest (c.issue.requestId ++ ":cancel"))).Ok := by
      have hconnections : (s.abortNamed c.issue.cancellationId).connections[k]? = some c := by
        rw [connections_abortNamed]
        exact hc
      refine (h.abortNamed _).receive hconnections rfl
        (.inr (.inr ⟨hsent, List.mem_cons_of_mem _ hseen, hall⟩))
        (fun id hmem => List.mem_cons_of_mem _ hmem) ?_
      intro hmem x hx hrunning hk
      obtain ⟨i, y, hy, hconnection, hrequest, hrun, hnamed⟩ := mem_abortNamed hx
      rw [hrun] at hrunning
      obtain ⟨d, hd, hissued, -⟩ := h.issued y (List.mem_of_getElem? hy)
      rw [← hconnection, hk, hc] at hd
      have hheld := h.held i y hy hrunning
      rw [hissued, ← Option.some.inj hd] at hheld
      exact hnamed hheld
    rw [handleCancellation, abortNamed_onConnection]
    exact hreceived.write host k _ _

theorem Ok.request (h : s.Ok) (host : Host) (client : ℕ) (call : String) (payload : JsValue)
    (options : RequestOptions) (now : ℤ) : (s.request host client call payload options now).Ok := by
  rw [Ipc.request]
  split
  · exact h
  case h_2 c hc =>
    dsimp only
    split
    · exact ⟨h.ordered, h.issued, h.held, h.running, h.cancelled⟩
    case h_2 deadline hdeadline =>
      have hget : ∀ (opened : Connection) (j : ℕ) (d : Connection), s.connections[j]? = some d →
          (s.connections ++ [opened])[j]? = some d := by
        intro opened j d hd
        rw [List.getElem?_append_left (List.getElem?_eq_some_iff.mp hd).1]
        exact hd
      constructor
      · intro d hd
        rcases List.mem_append.mp hd with hd | hd
        · exact h.ordered d hd
        · rw [List.mem_singleton.mp hd]
          split
          · exact (Connection.moves_expire host.dates now).ordered
              _ (Connection.ordered_opened _ _ _)
          · exact Connection.ordered_opened _ _ _
      · intro x hx
        obtain ⟨d, hd, hissued⟩ := h.issued x hx
        exact ⟨d, hget _ _ d hd, hissued⟩
      · exact h.held
      · exact h.running
      · intro x hx hrunning d hd hmem
        obtain ⟨d', hd', -⟩ := h.issued x hx
        rw [hget _ _ d' hd'] at hd
        exact h.cancelled x hx hrunning d (Option.some.inj hd ▸ hd') hmem

theorem Ok.serverDeadline (h : s.Ok) (execution : ℕ) : (s.serverDeadline execution).Ok := by
  rw [Ipc.serverDeadline]
  split
  · exact h
  · split
    · exact h.onExecution execution ⟨fun _ => rfl, fun _ => rfl, fun _ => rfl, fun _ _ => rfl⟩
    · exact h

theorem Ok.reportProgress (h : s.Ok) (host : Host) (execution : ℕ) (progress : JsValue) :
    (s.reportProgress host execution progress).Ok := by
  rw [Ipc.reportProgress]
  split
  · exact h
  · exact h.write host _ _ _

theorem Ok.step (h : s.Ok) (host : Host) (event : Event) (hfree : s.Uncontested event) :
    (s.step host event).Ok := by
  cases event with
  | construct pid requestTimeoutMs => exact ⟨h.ordered, h.issued, h.held, h.running, h.cancelled⟩
  | request client call payload options now => exact h.request host client call payload options now
  | connect k now => exact h.onConnection k (Connection.moves_connect host.dates now)
  | signalAborted k now => exact h.onConnection k (Connection.moves_signalAborted host.dates now)
  | clientDeadline k now => exact h.onConnection k (Connection.moves_expire host.dates now)
  | clientReceives k => exact h.onConnection k Connection.moves_receive
  | socketFails k => exact h.onConnection k Connection.moves_fail
  | serverReceives k now => exact h.serverReceives host k now hfree
  | handlerSettles execution result now => exact h.settle host execution result now
  | reportProgress execution progress => exact h.reportProgress host execution progress
  | serverDeadline execution => exact h.serverDeadline execution
  | close => exact h.closeServer

end Ipc

end Daemon
