import Urdira.Daemon.IpcInvariant
import Urdira.Daemon.ProtobufWire

open AssocMap

namespace Daemon

namespace Ipc

variable {s : Ipc}

def aborted (s : Ipc) (execution : ℕ) : Bool := s.executions[execution]?.any Execution.aborted

theorem getElem?_abort (execution i : ℕ) :
    (s.abort execution).executions[i]? =
      s.executions[i]?.map (fun x => if execution = i then { x with aborted := true } else x) :=
  getElem?_onExecution _ _ _

theorem aborted_onExecution {f : Execution → Execution} (hf : ∀ x, (f x).aborted = x.aborted)
    (k i : ℕ) :
    (s.onExecution k f).aborted i = s.aborted i := by
  rw [aborted, aborted, getElem?_onExecution]
  cases s.executions[i]? with
  | none => rfl
  | some x =>
    change (if k = i then f x else x).aborted = x.aborted
    split
    · exact hf x
    · rfl

theorem aborted_settle (host : Host) (execution : ℕ) (result : HandlerResult) (now : ℤ) (i : ℕ) :
    (s.settle host execution result now).aborted i = s.aborted i := by
  rw [settle]
  split
  case h_1 x hx =>
    split
    · obtain ⟨frame, hanswer⟩ := s.answer_eq host x result now
      rw [hanswer]
      exact aborted_onExecution (f := fun x => { x with armed := false, running := false })
        (fun _ => rfl) execution i
    · rfl
  case h_2 => rfl

theorem aborted_executeRequest (host : Host) (connection : ℕ) (request : IpcRequest)
    (now : ℤ) (i : ℕ) :
    (s.executeRequest host connection request now).aborted i = s.aborted i := by
  have hstarted : ∀ x : Execution, x.aborted = false →
      (s.executions ++ [x])[i]?.any Execution.aborted = s.executions[i]?.any Execution.aborted := by
    intro x hx
    rw [List.getElem?_append]
    split
    · rfl
    case isFalse hlast =>
      rw [List.getElem?_eq_none (Nat.le_of_not_lt hlast), List.getElem?_singleton]
      split
      · exact hx
      · rfl
  rw [executeRequest]
  split
  · exact hstarted _ rfl
  · rw [aborted_settle]
    exact hstarted _ rfl

theorem aborted_abort {execution i : ℕ} (h : (s.abort execution).aborted i = true) :
    s.aborted i = true ∨ execution = i := by
  by_cases hi : execution = i
  · exact .inr hi
  · left
    rw [aborted, getElem?_abort] at h
    rw [aborted]
    cases hx : s.executions[i]? with
    | none =>
      rw [hx] at h
      cases h
    | some x =>
      rw [hx, Option.map_some, if_neg hi] at h
      exact h

theorem aborted_abort_self {i : ℕ} {x : Execution} (hx : s.executions[i]? = some x) :
    (s.abort i).aborted i = true := by
  rw [aborted, getElem?_abort, hx, Option.map_some, if_pos rfl]
  rfl

theorem aborted_abortNamed {id : String} {i : ℕ} (h : (s.abortNamed id).aborted i = true) :
    s.aborted i = true ∨ get s.controllers id = some i := by
  rw [abortNamed] at h
  split at h
  case h_1 execution hexecution =>
    rcases aborted_abort h with haborted | rfl
    · exact .inl haborted
    · exact .inr hexecution
  case h_2 => exact .inl h

theorem aborted_abortNamed_self {id : String} {i : ℕ} {x : Execution}
    (hx : s.executions[i]? = some x)
    (h : get s.controllers id = some i) : (s.abortNamed id).aborted i = true := by
  rw [abortNamed, h]
  exact aborted_abort_self hx

def CancelAborts (host : Host) (s : Ipc) : Event → Prop
  | .serverReceives k now => ∀ c deadlineAt rest, s.connections[k]? = some c → c.lost = false →
      c.toServer = c.issue.cancel deadlineAt :: rest →
      ∀ i x, s.executions[i]? = some x → x.running = true → x.connection = k →
        (s.serverReceives host k now).aborted i = true
  | _ => True

def OwnCause (s : Ipc) (i : ℕ) : Event → Prop
  | .serverReceives k _ => ∃ x c deadlineAt rest, s.executions[i]? = some x ∧ x.connection = k ∧
      s.connections[k]? = some c ∧ c.toServer = c.issue.cancel deadlineAt :: rest
  | .serverDeadline execution => execution = i
  | .close => True
  | _ => False

def HitsItsRequest (host : Host) (events : List Event) : Prop :=
  ∀ before event after, events = before ++ event :: after →
    CancelAborts host (initial.run host before) event ∧
      ∀ i, (initial.run host before).aborted i = false →
        (initial.run host (before ++ [event])).aborted i = true →
          (initial.run host before).OwnCause i event

theorem Ok.cancelAborts (h : s.Ok) (host : Host) (event : Event) : s.CancelAborts host event := by
  cases event with
  | serverReceives k now =>
    intro c deadlineAt rest hc hlost hserver i x hx hrunning hk
    obtain ⟨d, hd, hrequest, -⟩ := h.issued x (List.mem_of_getElem? hx)
    rw [hk, hc] at hd
    obtain rfl := Option.some.inj hd
    have hself : ∀ d, s.connections[k]? = some d → d = c := by
      intro d hd
      rw [hc] at hd
      exact (Option.some.inj hd).symm
    have hreceives := h.receives host k now
    generalize Ipc.serverReceives host k now s = next at hreceives ⊢
    cases hreceives with
    | idle hempty =>
      rw [hempty c hc hlost] at hserver
      cases hserver
    | executes d rest' hd hserver' =>
      rw [hself d hd, hserver] at hserver'
      exact absurd (List.cons.inj hserver').1 (c.issue.cancel_ne deadlineAt)
    | names d rest' id hd hserver' =>
      rw [hself d hd, hserver] at hserver'
      exact absurd (List.cons.inj hserver').1 (c.issue.cancel_ne deadlineAt)
    | repeats d deadlineAt' rest' hd hserver' hseen hall hsent hrepeated =>
      rw [hself d hd] at hrepeated
      have haborted := h.cancelled x (List.mem_of_getElem? hx) hrunning c (hk ▸ hc) hrepeated
      change s.executions[i]?.any Execution.aborted = true
      rw [hx]
      exact haborted
    | cancels d deadlineAt' rest' hd hserver' =>
      rw [hself d hd]
      have hnamed := h.held i x hx hrunning
      rw [hrequest] at hnamed
      have hnext := aborted_abortNamed_self hx hnamed
      rw [handleCancellation, abortNamed_onConnection]
      exact hnext
  | _ => trivial

theorem Ok.ownCause (h : s.Ok) (host : Host) (event : Event) (hfree : s.Uncontested event) {i : ℕ}
    (hbefore : s.aborted i = false) (hafter : (s.step host event).aborted i = true) :
    s.OwnCause i event := by
  have hsame : s.aborted i ≠ true := by
    rw [hbefore]
    exact Bool.false_ne_true
  cases event with
  | construct pid requestTimeoutMs => exact absurd hafter hsame
  | request client call payload options now =>
    refine absurd hafter ?_
    rw [Ipc.step, Ipc.request]
    split
    · exact hsame
    · dsimp only
      split <;> exact hsame
  | connect k now => exact absurd hafter hsame
  | signalAborted k now => exact absurd hafter hsame
  | clientDeadline k now => exact absurd hafter hsame
  | clientReceives k => exact absurd hafter hsame
  | socketFails k => exact absurd hafter hsame
  | serverReceives k now =>
    have hreceives := h.receives host k now
    rw [Ipc.step] at hafter
    generalize Ipc.serverReceives host k now s = next at hreceives hafter
    cases hreceives with
    | idle hempty => exact absurd hafter hsame
    | executes c rest hc hserver hseen hall hsent hid =>
      rw [aborted_executeRequest] at hafter
      exact absurd hafter hsame
    | names c rest id hc hserver hseen hall hsent hid =>
      rw [handleCancellation, abortNamed_onConnection] at hafter
      rcases aborted_abortNamed (s := s) hafter with haborted | hnamed
      · exact absurd haborted hsame
      · obtain ⟨x, hx, hrunning, rfl⟩ := h.running id i hnamed
        have hmem := List.mem_of_getElem? hx
        exact absurd hid (h.cancellationId_ne hfree hc hmem hrunning (h.not_issued hc hseen hmem)).2
    | repeats c deadlineAt rest hc => exact absurd hafter hsame
    | cancels c deadlineAt rest hc hserver =>
      rw [handleCancellation, abortNamed_onConnection] at hafter
      rcases aborted_abortNamed (s := s) hafter with haborted | hnamed
      · exact absurd haborted hsame
      · obtain ⟨x, hx, hrunning, hid⟩ := h.running _ i hnamed
        refine ⟨x, c, deadlineAt, rest, hx, ?_, hc, hserver⟩
        by_contra hne
        exact (h.cancellationId_ne hfree hc (List.mem_of_getElem? hx) hrunning hne).1 hid
  | handlerSettles execution result now =>
    rw [Ipc.step, aborted_settle] at hafter
    exact absurd hafter hsame
  | reportProgress execution progress =>
    refine absurd hafter ?_
    rw [Ipc.step, Ipc.reportProgress]
    split <;> exact hsame
  | serverDeadline execution =>
    change execution = i
    by_contra hne
    refine absurd hafter ?_
    rw [Ipc.step, Ipc.serverDeadline]
    split
    · exact hsame
    · split
      · rw [aborted, getElem?_onExecution]
        cases hx : s.executions[i]? with
        | none => exact Bool.false_ne_true
        | some x =>
          rw [Option.map_some, if_neg hne]
          rw [aborted, hx] at hsame
          exact hsame
      · exact hsame
  | close => trivial

theorem Ok.run (host : Host) {events : List Event} (h : s.Ok)
    (hfree : UncontestedRun host s events) :
    (s.run host events).Ok := by
  induction events generalizing s with
  | nil => exact h
  | cons event events ih => exact ih (h.step host event hfree.1) hfree.2

theorem uncontestedRun_append (host : Host) {before after : List Event}
    (h : UncontestedRun host s (before ++ after)) :
    UncontestedRun host s before ∧ UncontestedRun host (s.run host before) after := by
  induction before generalizing s with
  | nil => exact ⟨trivial, h⟩
  | cons event before ih =>
    obtain ⟨hevent, hrest⟩ := h
    obtain ⟨hbefore, hafter⟩ := ih hrest
    exact ⟨⟨hevent, hbefore⟩, hafter⟩

theorem cancellation_hits_its_request (host : Host) (events : List Event)
    (hfree : UncontestedRun host initial events) : HitsItsRequest host events := by
  intro before event after hsplit
  rw [hsplit] at hfree
  obtain ⟨hbefore, hafter⟩ := uncontestedRun_append host hfree
  have hok : (initial.run host before).Ok := ok_initial.run host hbefore
  refine ⟨hok.cancelAborts host event, fun i hfalse htrue => ?_⟩
  rw [Ipc.run, List.foldl_append] at htrue
  exact hok.ownCause host event hafter.1 hfalse htrue

def newYear : Host where
  dates :=
    { parse := fun text => if text = "2026-01-01T00:00:30.000Z" then some 1767225630000 else none
      toISOString := fun time =>
        if time = 1767225630000 then "2026-01-01T00:00:30.000Z" else "2026-01-01T00:00:02.000Z"
      number := fun _ => 0 }
  wire := protobufWire
  maxFrameBytes := ipcDefaultMaxFrameBytes

def cancelFirst (pid pid' : ℕ) : List Event :=
  [.construct pid none, .construct pid' none,
    .request 0 "core:find_records" .null ⟨none, some false⟩ 1767225600000,
    .request 1 "core:find_records" .null ⟨none, none⟩ 1767225600000,
    .connect 0 1767225600000, .connect 1 1767225600000,
    .serverReceives 0 1767225600000, .serverReceives 1 1767225600000,
    .signalAborted 0 1767225601000, .serverReceives 0 1767225601000]

theorem cancellation_hits_its_request_two_processes :
    (initial.run newYear (cancelFirst 7 8)).executions.map (fun x => (x.running, x.aborted)) =
      [(true, true), (true, false)] ∧ HitsItsRequest newYear (cancelFirst 7 8) :=
  ⟨by decide +kernel, cancellation_hits_its_request newYear (cancelFirst 7 8) (by decide +kernel)⟩

theorem shared_sequence_cancels_other :
    (initial.run newYear (cancelFirst 7 7)).executions.map (fun x => (x.running, x.aborted)) =
      [(true, false), (true, true)] ∧ ¬ HitsItsRequest newYear (cancelFirst 7 7) := by
  refine ⟨by decide +kernel, fun h => ?_⟩
  have hstep := h ((cancelFirst 7 7).take 9) (.serverReceives 0 1767225601000) [] rfl
  obtain ⟨x, c, deadlineAt, rest, hx, hconnection, -⟩ :=
    hstep.2 1 (by decide +kernel) (by decide +kernel)
  have hother : (initial.run newYear ((cancelFirst 7 7).take 9)).executions[1]?.map
      Execution.connection = some 1 := by
    decide +kernel
  rw [hx, Option.map_some, hconnection] at hother
  exact absurd (Option.some.inj hother) (by decide)

end Ipc

end Daemon
