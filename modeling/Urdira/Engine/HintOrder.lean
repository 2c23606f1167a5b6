import Urdira.Engine.HintCustody

namespace Engine

def InArrivalOrder (hints : List WatcherHint) : Prop :=
  hints.Pairwise (fun earlier later => earlier.arrival < later.arrival)

instance (hints : List WatcherHint) : Decidable (InArrivalOrder hints) :=
  inferInstanceAs (Decidable (hints.Pairwise _))

namespace Custody

def Earlier (k : Custody) (b : String) (hints : List WatcherHint) : Prop :=
  ∀ h ∈ hints, ∀ p ∈ k.pending b, h.arrival < p.arrival

structure Ordered (k : Custody) : Prop where
  pending : ∀ b, InArrivalOrder (k.pending b)
  queue : ∀ operation ∈ k.queue, ∀ b hints, operation.captured = some (b, hints) →
    InArrivalOrder hints
  running : ∀ b hints, k.running.bind Running.captured = some (b, hints) → InArrivalOrder hints
  requested : ∀ request ∈ k.requested, InArrivalOrder request.hints

theorem Kept.accepted_of_mem {k : Custody} (hk : k.Kept) {b : String} {h : WatcherHint}
    (hmem : h ∈ k.pending b) : (b, h) ∈ k.accepted := by
  have hflat : h ∈ (k.places b).flatten :=
    List.mem_flatten.mpr ⟨k.pending b, List.mem_cons_self, hmem⟩
  have hpos : 0 < k.accepted.count (b, h) := by
    rw [← hk.count b h]
    exact List.count_pos_iff.mpr hflat
  exact List.count_pos_iff.mp hpos

theorem Kept.arrival_lt {k : Custody} (hk : k.Kept) {b : String} {h : WatcherHint}
    (hmem : h ∈ k.pending b) : h.arrival < k.accepted.length := by
  have hstamp : h.arrival ∈ k.accepted.map (fun entry => entry.2.arrival) :=
    List.mem_map.mpr ⟨(b, h), hk.accepted_of_mem hmem, rfl⟩
  rw [hk.stamped] at hstamp
  exact List.mem_range.mp hstamp

theorem inArrivalOrder_update {pending : String → List WatcherHint} {b : String}
    {hints : List WatcherHint} (hpending : ∀ b, InArrivalOrder (pending b))
    (hhints : InArrivalOrder hints) (b' : String) :
    InArrivalOrder (Function.update pending b hints b') := by
  by_cases hb : b' = b
  · subst hb
    rwa [Function.update_self]
  · rw [Function.update_of_ne hb]
    exact hpending b'

theorem inArrivalOrder_restore {k : Custody} (ho : k.Ordered) {b : String}
    {hints : List WatcherHint}
    (hhints : InArrivalOrder hints) (hearlier : k.Earlier b hints) (b' : String) :
    InArrivalOrder ((k.restore b hints).pending b') :=
  inArrivalOrder_update ho.pending
    (List.pairwise_append.mpr ⟨hhints, ho.pending b, fun h hh p hp => hearlier h hh p hp⟩) b'

theorem requested_append {k : Custody} (ho : k.Ordered) {request : ReconciliationRequest}
    (hrequest : InArrivalOrder request.hints) :
    ∀ r ∈ k.requested ++ [request], InArrivalOrder r.hints := by
  intro r hr
  rcases List.mem_append.mp hr with hold | hnew
  · exact ho.requested r hold
  · rw [List.mem_singleton.mp hnew]
    exact hrequest

theorem queue_append {k : Custody} (ho : k.Ordered) {operation : Operation}
    (hoperation : ∀ b hints, operation.captured = some (b, hints) → InArrivalOrder hints) :
    ∀ op ∈ k.queue ++ [operation], ∀ b hints, op.captured = some (b, hints) →
      InArrivalOrder hints := by
  intro op hop
  rcases List.mem_append.mp hop with hold | hnew
  · exact ho.queue op hold
  · rw [List.mem_singleton.mp hnew]
    exact hoperation

theorem queue_tail {k : Custody} (ho : k.Ordered) {operation : Operation} {rest : List Operation}
    (hq : k.queue = operation :: rest) :
    ∀ op ∈ rest, ∀ b hints, op.captured = some (b, hints) → InArrivalOrder hints := by
  intro op hop
  exact ho.queue op (by rw [hq]; exact List.mem_cons_of_mem _ hop)

theorem queue_head {k : Custody} (ho : k.Ordered) {operation : Operation} {rest : List Operation}
    {b : String} {hints : List WatcherHint} (hq : k.queue = operation :: rest)
    (hcaptured : operation.captured = some (b, hints)) : InArrivalOrder hints :=
  ho.queue operation (by rw [hq]; exact List.mem_cons_self) b hints hcaptured

theorem held_running {k : Custody} (ho : k.Ordered) {running : Running} {b : String}
    {hints : List WatcherHint} (hr : k.running = some running)
    (hcaptured : running.captured = some (b, hints)) : InArrivalOrder hints :=
  ho.running b hints (by rw [hr]; exact hcaptured)

theorem Ordered.move {k k' : Custody} (ho : k.Ordered) (hk : k.Kept) (h : Move Earlier k k') :
    k'.Ordered := by
  cases h with
  | receive b hint harrival =>
    have hpushed : InArrivalOrder (k.pending b ++ [hint]) := by
      refine List.pairwise_append.mpr ⟨ho.pending b, List.pairwise_singleton _ _, ?_⟩
      intro p hp h hh
      rw [List.mem_singleton.mp hh, harrival]
      exact hk.arrival_lt hp
    exact ⟨inArrivalOrder_update ho.pending hpushed, ho.queue, ho.running, ho.requested⟩
  | flush b operation hcaptured =>
    refine ⟨inArrivalOrder_update ho.pending List.Pairwise.nil, queue_append ho ?_, ho.running,
      ho.requested⟩
    intro b' hints hcaptured'
    obtain ⟨rfl, rfl⟩ := Prod.mk.inj (Option.some.inj (hcaptured.symm.trans hcaptured'))
    exact ho.pending b
  | enqueueBarrier operation hcaptured =>
    refine ⟨ho.pending, queue_append ho ?_, ho.running, ho.requested⟩
    intro b hints hcaptured'
    exact absurd (hcaptured.symm.trans hcaptured') (by simp)
  | restoreQueued rest operation b hints hq hr hcaptured hguard =>
    exact ⟨inArrivalOrder_restore ho (queue_head ho hq hcaptured) hguard, queue_tail ho hq,
      ho.running,
      ho.requested⟩
  | start rest operation b request running hq hr hcaptured hcaptured' =>
    have hrequest := queue_head ho hq hcaptured
    refine ⟨ho.pending, queue_tail ho hq, ?_, requested_append ho hrequest⟩
    intro b' hints hheld
    obtain ⟨rfl, rfl⟩ := Prod.mk.inj (Option.some.inj (hcaptured'.symm.trans hheld))
    exact hrequest
  | pop rest operation hq hcaptured =>
    exact ⟨ho.pending, queue_tail ho hq, ho.running, ho.requested⟩
  | restoreRunning running b hints hr hcaptured hguard =>
    refine ⟨inArrivalOrder_restore ho (held_running ho hr hcaptured) hguard, ho.queue, ?_,
      ho.requested⟩
    intro b' hints' hheld
    cases hheld
  | advance running running' hr hcaptured =>
    refine ⟨ho.pending, ho.queue, ?_, ho.requested⟩
    intro b hints hheld
    exact held_running ho hr (hcaptured.symm.trans hheld)
  | advanceRequest running running' b request hr hcaptured hcaptured' =>
    refine ⟨ho.pending, ho.queue, ?_, requested_append ho (held_running ho hr hcaptured)⟩
    intro b' hints hheld
    exact held_running ho hr (hcaptured'.symm.trans hheld)
  | capture b request running hr hhints hcaptured =>
    have hrequest : InArrivalOrder request.hints := by
      rw [hhints]
      exact ho.pending b
    refine ⟨inArrivalOrder_update ho.pending List.Pairwise.nil, ho.queue, ?_,
      requested_append ho hrequest⟩
    intro b' hints hheld
    obtain ⟨rfl, rfl⟩ := Prod.mk.inj (Option.some.inj (hcaptured.symm.trans hheld))
    exact ho.pending b
  | idle running hr hcaptured =>
    refine ⟨ho.pending, ho.queue, ?_, ho.requested⟩
    intro b hints hheld
    exact absurd (hcaptured.symm.trans hheld) (by simp)
  | commit running b request hr hcaptured =>
    refine ⟨ho.pending, ho.queue, ?_, ho.requested⟩
    intro b' hints hheld
    cases hheld

theorem Ordered.moves {k k' : Custody} (ho : k.Ordered) (hk : k.Kept) (h : Moves Earlier k k') :
    k'.Ordered := by
  induction h with
  | refl => exact ho
  | tail hmoves hmove ih => exact ih.move (hk.moves hmoves) hmove

theorem ordered_empty : empty.Ordered where
  pending := fun _ => List.Pairwise.nil
  queue := fun _ hop => by cases hop
  running := fun _ _ hheld => by cases hheld
  requested := fun _ hr => by cases hr

end Custody

namespace Coordinator

def RestoresInOrder (c : Coordinator) : List Event → Prop
  | [] => True
  | event :: events =>
    (∀ captured ∈ c.putsBack event, ∀ h ∈ captured.2, ∀ p ∈ (c.states captured.1).hints,
      h.arrival < p.arrival) ∧
    RestoresInOrder (c.step event) events

instance decidableRestoresInOrder : ∀ (c : Coordinator) (events : List Event),
    Decidable (c.RestoresInOrder events)
  | _, [] => .isTrue trivial
  | c, event :: events =>
    have := decidableRestoresInOrder (c.step event) events
    inferInstanceAs (Decidable (_ ∧ _))

theorem ordered_run {c : Coordinator} {events : List Event} (hk : c.custody.Kept)
    (ho : c.custody.Ordered) (h : c.RestoresInOrder events) : (c.run events).custody.Ordered := by
  induction events generalizing c with
  | nil => exact ho
  | cons event events ih =>
    have hmoves : Custody.Moves Custody.Earlier c.custody (c.step event).custody :=
      moves_step (fun b hints hput => h.1 (b, hints) hput)
    exact ih (hk.moves hmoves) (ho.moves hk hmoves) h.2

end Coordinator

theorem requests_keep_arrival_order {options : ReconciliationCoordinatorOptions} {c : Coordinator}
    (hnew : Coordinator.new options = .ok c) {events : List Event} (h : c.RestoresInOrder events) :
    ∀ request ∈ (c.run events).requested, InArrivalOrder request.hints := by
  have hempty := Coordinator.custody_new hnew
  have hkept : c.custody.Kept := by
    rw [hempty]
    exact Custody.kept_empty
  have hordered : c.custody.Ordered := by
    rw [hempty]
    exact Custody.ordered_empty
  exact (Coordinator.ordered_run hkept hordered h).requested

def failedFlush : List Event :=
  [.accept 0 (absenceBatch "a.ts"), .queueStep, .settle (.reconcileFailed portUnavailable),
    .accept 0 (absenceBatch "b.ts"), .queueStep]

theorem requests_keep_arrival_order_failed_flush :
    ∃ c, Coordinator.new watchedWorkspace = .ok c ∧ c.RestoresInOrder failedFlush ∧
      ∀ request ∈ (c.run failedFlush).requested, InArrivalOrder request.hints := by
  refine ⟨_, rfl, ?_, ?_⟩
  · decide +kernel
  · exact @requests_keep_arrival_order watchedWorkspace _ rfl failedFlush (by decide +kernel)

def twoFailedFlushes : List Event :=
  [.accept 0 (absenceBatch "a.ts"), .accept 0 (absenceBatch "b.ts"),
    .queueStep, .settle (.reconcileFailed portUnavailable),
    .queueStep, .settle (.reconcileFailed portUnavailable),
    .requestFreshness "b" false, .queueStep]

theorem failed_batches_change_places :
    ∃ c, Coordinator.new watchedWorkspace = .ok c ∧
      ∃ request ∈ (c.run twoFailedFlushes).requested, ¬ InArrivalOrder request.hints := by
  refine ⟨_, rfl, ?_⟩
  decide +kernel

end Engine
