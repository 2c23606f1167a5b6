import Urdira.Engine.BarrierPort
import Urdira.Lib.ExceptOk
import Mathlib.Data.List.Nodup
import Mathlib.Data.Nat.Basic

open ExceptOk

namespace Engine

@[ext] structure Face where
  isOpen : Bool
  state : SourceBarrierState
  persisted : Bool
  epoch : ℕ

def BindingState.face (state : BindingState) : Face :=
  ⟨state.barrierOpen, state.barrierState, state.barrierStatePersisted, state.sourceEpoch⟩

namespace Coordinator

def face (c : Coordinator) (b : String) : Face := (c.states b).face

theorem face_setState (c : Coordinator) (b : String) (state : BindingState) :
    (c.setState b state).face = Function.update c.face b state.face := by
  funext x
  change (Function.update c.states b state x).face = _
  by_cases hx : x = b
  · subst hx
    rw [Function.update_self, Function.update_self]
  · rw [Function.update_of_ne hx, Function.update_of_ne hx]
    rfl

theorem face_setState_same {c : Coordinator} {b : String} {state : BindingState}
    (h : state.face = c.face b) :
    (c.setState b state).face = c.face := by
  rw [face_setState, h, Function.update_eq_self]

@[simp] theorem face_setTimeout (c : Coordinator) (b : String) (action : TimerAction)
    (delayMs : ℕ) :
    (c.setTimeout b action delayMs).face = c.face := rfl

@[simp] theorem face_clearTimeout (c : Coordinator) (handle : Option ℕ) :
    (c.clearTimeout handle).face = c.face := rfl

@[simp] theorem face_enqueue (c : Coordinator) (operation : Operation) :
    (c.enqueue operation).face = c.face := rfl

@[simp] theorem face_clearBatchTimers (c : Coordinator) (b : String) :
    (c.clearBatchTimers b).face = c.face :=
  face_setState_same rfl

@[simp] theorem face_clearAllTimers (c : Coordinator) (b : String) :
    (c.clearAllTimers b).face = c.face := by
  refine (face_setState_same ?_).trans (face_clearBatchTimers c b)
  rfl

@[simp] theorem face_pushHints (c : Coordinator) (b : String) (hints : List WatcherHint) :
    (c.pushHints b hints).face = c.face := face_setState_same rfl

@[simp] theorem face_emptyHints (c : Coordinator) (b : String) :
    (c.emptyHints b).face = c.face := by
  unfold emptyHints
  rw [face_clearBatchTimers]
  exact face_setState_same rfl

@[simp] theorem face_restorePrefix (c : Coordinator) (b : String) (hints : List WatcherHint) :
    (c.restorePrefix b hints).face = c.face := by
  unfold restorePrefix
  dsimp only
  split
  · exact face_setState_same rfl
  · rfl

@[simp] theorem face_scheduleBatch (c : Coordinator) (b : String) (now : ℕ) :
    (c.scheduleBatch b now).face = c.face := by
  unfold scheduleBatch
  dsimp only
  rw [face_setTimeout]
  refine (face_setState_same ?_).trans ?_
  · rfl
  · rw [face_clearTimeout]
    split
    · exact face_setState_same rfl
    · rfl

@[simp] theorem face_schedulePeriodic (c : Coordinator) (b : String) :
    (c.schedulePeriodic b).face = c.face :=
  face_setState_same rfl

@[simp] theorem face_failReconcile (c : Coordinator) (b : String) (hints : List WatcherHint)
    (error : EngineError) :
    (c.failReconcile b hints error).face = c.face := face_restorePrefix c b hints

@[simp] theorem face_captureBarrier (c : Coordinator) (b : String) :
    (c.captureBarrier b).face = c.face :=
  face_emptyHints c b

@[simp] theorem face_runSourceBarrier (c : Coordinator) (b : String) :
    (c.runSourceBarrier b).face = c.face := by
  unfold runSourceBarrier
  dsimp only
  split
  · split
    · rfl
    · exact face_captureBarrier c b
  · rfl

theorem face_setPersisted (c : Coordinator) (b : String) (persisted : Bool) :
    (c.setPersisted b persisted).face =
      Function.update c.face b { c.face b with persisted := persisted } :=
  face_setState c b _

theorem face_openBarrier (c : Coordinator) (b : String) :
    (c.openBarrier b).face = Function.update c.face b ⟨true, .stale, false, (c.face b).epoch⟩ :=
  face_setState c b _

structure TimersOk (c : Coordinator) : Prop where
  bounded : ∀ timer ∈ c.timers, timer.handle < c.nextHandle
  nodup : (c.timers.map Timer.handle).Nodup
  quiet : ∀ b handle, (c.states b).quietTimer = some handle → handle < c.nextHandle ∧
    ∀ timer ∈ c.timers, timer.handle = handle → timer.action ≠ .barrierRetry
  maximum : ∀ b handle, (c.states b).maximumTimer = some handle → handle < c.nextHandle ∧
    ∀ timer ∈ c.timers, timer.handle = handle → timer.action ≠ .barrierRetry

def Armed (c : Coordinator) (b : String) : Prop :=
  ∃ timer ∈ c.timers, timer.binding = b ∧ timer.action = .barrierRetry

structure Kept (c c' : Coordinator) : Prop where
  queue : c'.queue = c.queue
  closed : c'.closed = c.closed
  timers : c.TimersOk → c'.TimersOk ∧ ∀ b, c.Armed b → c'.Armed b

theorem Kept.refl (c : Coordinator) : c.Kept c := ⟨rfl, rfl, fun h => ⟨h, fun _ harmed => harmed⟩⟩

theorem Kept.trans {c c' c'' : Coordinator} (h : c.Kept c') (h' : c'.Kept c'') : c.Kept c'' := by
  refine ⟨h'.queue.trans h.queue, h'.closed.trans h.closed, fun hok => ?_⟩
  obtain ⟨hok', harmed⟩ := h.timers hok
  obtain ⟨hok'', harmed'⟩ := h'.timers hok'
  exact ⟨hok'', fun b hb => harmed' b (harmed b hb)⟩

theorem kept_of_timers {c c' : Coordinator} (hqueue : c'.queue = c.queue)
    (hclosed : c'.closed = c.closed)
    (htimers : c'.timers = c.timers) (hnext : c'.nextHandle = c.nextHandle)
    (hquiet : ∀ b, (c'.states b).quietTimer = (c.states b).quietTimer ∨
      (c'.states b).quietTimer = none)
    (hmaximum : ∀ b, (c'.states b).maximumTimer = (c.states b).maximumTimer ∨
      (c'.states b).maximumTimer = none) :
    c.Kept c' := by
  refine ⟨hqueue, hclosed, fun h => ⟨⟨?_, ?_, ?_, ?_⟩, ?_⟩⟩
  · rw [htimers, hnext]
    exact h.bounded
  · rw [htimers]
    exact h.nodup
  · intro b handle hhandle
    rw [htimers, hnext]
    rcases hquiet b with hsame | hnone
    · exact h.quiet b handle (hsame ▸ hhandle)
    · rw [hnone] at hhandle
      cases hhandle
  · intro b handle hhandle
    rw [htimers, hnext]
    rcases hmaximum b with hsame | hnone
    · exact h.maximum b handle (hsame ▸ hhandle)
    · rw [hnone] at hhandle
      cases hhandle
  · intro b hb
    rw [Armed, htimers]
    exact hb

theorem kept_setState (c : Coordinator) (b : String) (state : BindingState)
    (hquiet : state.quietTimer = (c.states b).quietTimer ∨ state.quietTimer = none)
    (hmaximum : state.maximumTimer = (c.states b).maximumTimer ∨ state.maximumTimer = none) :
    c.Kept (c.setState b state) := by
  have hstates : ∀ x, (c.setState b state).states x = if x = b then state else c.states x := by
    intro x
    exact Function.update_apply _ _ _ _
  refine kept_of_timers rfl rfl rfl rfl ?_ ?_
  · intro x
    rw [hstates]
    split
    case isTrue hx => exact hx ▸ hquiet
    case isFalse => exact .inl rfl
  · intro x
    rw [hstates]
    split
    case isTrue hx => exact hx ▸ hmaximum
    case isFalse => exact .inl rfl

theorem kept_same {c c' : Coordinator} (hqueue : c'.queue = c.queue)
    (hclosed : c'.closed = c.closed)
    (htimers : c'.timers = c.timers) (hnext : c'.nextHandle = c.nextHandle)
    (hstates : c'.states = c.states) :
    c.Kept c' :=
  kept_of_timers hqueue hclosed htimers hnext (fun b => .inl (by rw [hstates]))
    (fun b => .inl (by rw [hstates]))

theorem kept_await (c : Coordinator) (running : Running) : c.Kept (c.await running) :=
  kept_same rfl rfl rfl rfl rfl

theorem kept_finish (c : Coordinator) : c.Kept c.finish := kept_same rfl rfl rfl rfl rfl

theorem kept_callReconcile (c : Coordinator) (request : ReconciliationRequest) (running : Running) :
    c.Kept (c.callReconcile request running) := kept_same rfl rfl rfl rfl rfl

theorem kept_recordCommit (c : Coordinator) (b : String) (request : ReconciliationRequest) :
    c.Kept (c.recordCommit b request) := kept_same rfl rfl rfl rfl rfl

theorem kept_pushHints (c : Coordinator) (b : String) (hints : List WatcherHint) :
    c.Kept (c.pushHints b hints) :=
  kept_setState c b _ (.inl rfl) (.inl rfl)

theorem kept_restorePrefix (c : Coordinator) (b : String) (hints : List WatcherHint) :
    c.Kept (c.restorePrefix b hints) := by
  unfold restorePrefix
  dsimp only
  split
  · exact kept_setState c b _ (.inl rfl) (.inl rfl)
  · exact .refl c

theorem kept_setPersisted (c : Coordinator) (b : String) (persisted : Bool) :
    c.Kept (c.setPersisted b persisted) :=
  kept_setState c b _ (.inl rfl) (.inl rfl)

theorem kept_drop (c : Coordinator) (keep : Timer → Bool)
    (hkeep : c.TimersOk → ∀ timer ∈ c.timers, timer.action = .barrierRetry → keep timer = true) :
    c.Kept { c with timers := c.timers.filter keep } := by
  refine ⟨rfl, rfl, fun h => ⟨⟨?_, ?_, ?_, ?_⟩, ?_⟩⟩
  · exact fun timer htimer => h.bounded timer (List.mem_of_mem_filter htimer)
  · exact h.nodup.sublist (List.filter_sublist.map _)
  · intro b handle hhandle
    obtain ⟨hlt, hretry⟩ := h.quiet b handle hhandle
    exact ⟨hlt, fun timer htimer => hretry timer (List.mem_of_mem_filter htimer)⟩
  · intro b handle hhandle
    obtain ⟨hlt, hretry⟩ := h.maximum b handle hhandle
    exact ⟨hlt, fun timer htimer => hretry timer (List.mem_of_mem_filter htimer)⟩
  · rintro b ⟨timer, htimer, hbinding, haction⟩
    exact ⟨timer, List.mem_filter.mpr ⟨htimer, hkeep h timer htimer haction⟩, hbinding, haction⟩

theorem kept_clearTimeout (c : Coordinator) (handle : Option ℕ)
    (hhandle : c.TimersOk → ∀ timer ∈ c.timers, timer.action = .barrierRetry →
      some timer.handle ≠ handle) :
    c.Kept (c.clearTimeout handle) :=
  c.kept_drop _ (fun h timer htimer haction => decide_eq_true (hhandle h timer htimer haction))

theorem quiet_not_retry (c : Coordinator) (b : String) :
    c.TimersOk → ∀ timer ∈ c.timers, timer.action = .barrierRetry →
      some timer.handle ≠ (c.states b).quietTimer := by
  intro h timer htimer haction hsame
  exact (h.quiet b timer.handle hsame.symm).2 timer htimer rfl haction

theorem maximum_not_retry (c : Coordinator) (b : String) :
    c.TimersOk → ∀ timer ∈ c.timers, timer.action = .barrierRetry →
      some timer.handle ≠ (c.states b).maximumTimer := by
  intro h timer htimer haction hsame
  exact (h.maximum b timer.handle hsame.symm).2 timer htimer rfl haction

theorem kept_clearBatchTimers (c : Coordinator) (b : String) : c.Kept (c.clearBatchTimers b) := by
  have hquiet := kept_clearTimeout c _ (c.quiet_not_retry b)
  have hmaximum := kept_clearTimeout (c.clearTimeout (c.states b).quietTimer) _
    ((c.clearTimeout (c.states b).quietTimer).maximum_not_retry b)
  exact (hquiet.trans hmaximum).trans (kept_setState _ b _ (.inr rfl) (.inr rfl))

theorem kept_emptyHints (c : Coordinator) (b : String) : c.Kept (c.emptyHints b) :=
  (kept_setState c b { c.states b with hints := [] } (.inl rfl) (.inl rfl)).trans
    (kept_clearBatchTimers _ b)

def armWith (c : Coordinator) (states : String → BindingState) (b : String) (action : TimerAction)
    (delayMs : ℕ) :
    Coordinator :=
  { c with
    states := states
    timers := c.timers ++ [⟨c.nextHandle, b, action, delayMs⟩]
    nextHandle := c.nextHandle + 1 }

theorem slot_armWith {c : Coordinator} {b : String} {action : TimerAction} {delayMs handle : ℕ}
    {slot : Option ℕ}
    (hbounded : ∀ timer ∈ c.timers, timer.handle < c.nextHandle)
    (hslot : slot = some handle → handle < c.nextHandle ∧
      ∀ timer ∈ c.timers, timer.handle = handle → timer.action ≠ .barrierRetry)
    {slot' : Option ℕ} (hslot' : slot' = slot ∨ slot' = none ∨ slot' = some c.nextHandle ∧
      action ≠ .barrierRetry)
    (hhandle : slot' = some handle) :
    handle < c.nextHandle + 1 ∧ ∀ timer ∈ c.timers ++ [⟨c.nextHandle, b, action, delayMs⟩],
      timer.handle = handle → timer.action ≠ .barrierRetry := by
  rcases hslot' with hsame | hnone | ⟨hnew, haction⟩
  · obtain ⟨hlt, hretry⟩ := hslot (hsame ▸ hhandle)
    refine ⟨Nat.lt_succ_of_lt hlt, fun timer htimer hsameHandle => ?_⟩
    rcases List.mem_append.mp htimer with htimer | htimer
    · exact hretry timer htimer hsameHandle
    · rw [List.mem_singleton.mp htimer] at hsameHandle
      exact absurd hsameHandle (Nat.ne_of_gt hlt)
  · rw [hnone] at hhandle
    cases hhandle
  · rw [hnew] at hhandle
    obtain rfl := Option.some.inj hhandle
    refine ⟨Nat.lt_succ_self _, fun timer htimer hsameHandle => ?_⟩
    rcases List.mem_append.mp htimer with htimer | htimer
    · exact absurd hsameHandle (Nat.ne_of_lt (hbounded timer htimer))
    · rw [List.mem_singleton.mp htimer]
      exact haction

theorem kept_armWith (c : Coordinator) (states : String → BindingState) (b : String)
    (action : TimerAction)
    (delayMs : ℕ)
    (hquiet : ∀ x, (states x).quietTimer = (c.states x).quietTimer ∨ (states x).quietTimer = none ∨
      (states x).quietTimer = some c.nextHandle ∧ action ≠ .barrierRetry)
    (hmaximum : ∀ x, (states x).maximumTimer = (c.states x).maximumTimer ∨
      (states x).maximumTimer = none ∨
      (states x).maximumTimer = some c.nextHandle ∧ action ≠ .barrierRetry) :
    c.Kept (c.armWith states b action delayMs) := by
  refine ⟨rfl, rfl, fun h => ⟨⟨?_, ?_, ?_, ?_⟩, ?_⟩⟩
  · intro timer htimer
    rcases List.mem_append.mp htimer with htimer | htimer
    · exact Nat.lt_succ_of_lt (h.bounded timer htimer)
    · rw [List.mem_singleton.mp htimer]
      exact Nat.lt_succ_self _
  · change ((c.timers ++ [_]).map Timer.handle).Nodup
    rw [List.map_append, List.nodup_append]
    refine ⟨h.nodup, List.nodup_singleton _, ?_⟩
    intro handle hhandle new hnew hsame
    obtain ⟨timer, htimer, rfl⟩ := List.mem_map.mp hhandle
    have hnew' : new = c.nextHandle := List.mem_singleton.mp hnew
    exact Nat.ne_of_lt (h.bounded timer htimer) (hsame.trans hnew')
  · intro x handle hhandle
    exact slot_armWith h.bounded (h.quiet x handle) (hquiet x) hhandle
  · intro x handle hhandle
    exact slot_armWith h.bounded (h.maximum x handle) (hmaximum x) hhandle
  · rintro x ⟨timer, htimer, hbinding, haction⟩
    exact ⟨timer, List.mem_append_left _ htimer, hbinding, haction⟩

theorem kept_setStateTimeout (c : Coordinator) (b : String) (state : BindingState)
    (action : TimerAction) (delayMs : ℕ)
    (hquiet : state.quietTimer = (c.states b).quietTimer ∨ state.quietTimer = none ∨
      state.quietTimer = some c.nextHandle ∧ action ≠ .barrierRetry)
    (hmaximum : state.maximumTimer = (c.states b).maximumTimer ∨ state.maximumTimer = none ∨
      state.maximumTimer = some c.nextHandle ∧ action ≠ .barrierRetry) :
    c.Kept ((c.setState b state).setTimeout b action delayMs) := by
  refine kept_armWith c (Function.update c.states b state) b action delayMs (fun x => ?_)
    (fun x => ?_)
  · by_cases hx : x = b
    · subst hx
      rw [Function.update_self]
      exact hquiet
    · rw [Function.update_of_ne hx]
      exact .inl rfl
  · by_cases hx : x = b
    · subst hx
      rw [Function.update_self]
      exact hmaximum
    · rw [Function.update_of_ne hx]
      exact .inl rfl

theorem kept_scheduleBatch (c : Coordinator) (b : String) (now : ℕ) :
    c.Kept (c.scheduleBatch b now) := by
  unfold scheduleBatch
  dsimp only
  have hfirst : c.Kept (if (c.states b).firstHintAt = none then
      (c.setState b
        { c.states b with firstHintAt := some now, maximumTimer := some c.nextHandle }).setTimeout b
        .maximum c.maximumBatchMs else c) := by
    split
    · exact kept_setStateTimeout c b _ _ _ (.inl rfl) (.inr (.inr ⟨rfl, by decide⟩))
    · exact .refl c
  generalize (if (c.states b).firstHintAt = none then
      (c.setState b
        { c.states b with firstHintAt := some now, maximumTimer := some c.nextHandle }).setTimeout b
        .maximum c.maximumBatchMs else c) = d at hfirst ⊢
  have hcleared := kept_clearTimeout d _ (d.quiet_not_retry b)
  refine (hfirst.trans hcleared).trans ?_
  exact kept_setStateTimeout _ b _ _ _ (.inr (.inr ⟨rfl, by decide⟩)) (.inl rfl)

theorem running_scheduleBatch (c : Coordinator) (b : String) (now : ℕ) :
    (c.scheduleBatch b now).running = c.running := by
  unfold scheduleBatch
  dsimp only
  by_cases hfirst : (c.states b).firstHintAt = none
  · rw [if_pos hfirst]
    rfl
  · rw [if_neg hfirst]
    rfl

theorem kept_schedulePeriodic (c : Coordinator) (b : String) : c.Kept (c.schedulePeriodic b) :=
  kept_setStateTimeout c b _ _ _ (.inl rfl) (.inl rfl)

structure Outside (c c' : Coordinator) : Prop where
  running : c'.running = c.running
  closed : c.closed = true → c'.closed = true
  queue : ∀ operation ∈ c.queue, operation ∈ c'.queue
  timers : c.TimersOk → c'.TimersOk
  armed : c.TimersOk → ∀ b, c.Armed b → c'.Armed b ∨ .runSourceBarrier b ∈ c'.queue ∨
    c'.closed = true
  epoch : ∀ b, (c.face b).epoch ≤ (c'.face b).epoch
  face : ∀ b, c'.face b = { c.face b with epoch := (c'.face b).epoch } ∨
    c'.face b = ⟨true, .stale, false, (c'.face b).epoch⟩ ∧ .runSourceBarrier b ∈ c'.queue ∧
      ((c.face b).isOpen = false ∨ (c.face b).state = .degraded)

theorem Outside.of_kept {c c' : Coordinator} (hrunning : c'.running = c.running) (hkept : c.Kept c')
    (hface : c'.face = c.face) : c.Outside c' where
  running := hrunning
  closed := fun h => hkept.closed.trans h
  queue := fun operation h => by
    rw [hkept.queue]
    exact h
  timers := fun h => (hkept.timers h).1
  armed := fun h b hb => .inl ((hkept.timers h).2 b hb)
  epoch := fun b => by rw [hface]
  face := fun b => by
    rw [hface]
    exact .inl rfl

theorem Outside.refl (c : Coordinator) : c.Outside c := .of_kept rfl (.refl c) rfl

theorem Outside.trans {c c' c'' : Coordinator} (h : c.Outside c') (h' : c'.Outside c'') :
    c.Outside c'' where
  running := h'.running.trans h.running
  closed := fun hclosed => h'.closed (h.closed hclosed)
  queue := fun operation hmem => h'.queue operation (h.queue operation hmem)
  timers := fun hok => h'.timers (h.timers hok)
  armed := by
    intro hok b hb
    rcases h.armed hok b hb with hb | hqueued | hclosed
    · exact h'.armed (h.timers hok) b hb
    · exact .inr (.inl (h'.queue _ hqueued))
    · exact .inr (.inr (h'.closed hclosed))
  epoch := fun b => Nat.le_trans (h.epoch b) (h'.epoch b)
  face := by
    intro b
    rcases h'.face b with hsame' | ⟨hopened', hqueued', hcause'⟩
    · rcases h.face b with hsame | ⟨hopened, hqueued, hcause⟩
      · left
        rw [hsame', hsame]
      · right
        refine ⟨?_, h'.queue _ hqueued, hcause⟩
        rw [hsame', hopened]
    · right
      refine ⟨hopened', hqueued', ?_⟩
      rcases h.face b with hsame | ⟨hopened, hqueued, hcause⟩
      · rw [hsame] at hcause'
        exact hcause'
      · exact hcause

theorem outside_enqueue (c : Coordinator) (operation : Operation) :
    c.Outside (c.enqueue operation) where
  running := rfl
  closed := fun h => h
  queue := fun _ h => List.mem_append_left _ h
  timers := fun h => ⟨h.bounded, h.nodup, h.quiet, h.maximum⟩
  armed := fun _ _ hb => .inl hb
  epoch := fun _ => Nat.le_refl _
  face := fun _ => .inl rfl

theorem outside_pushHints (c : Coordinator) (b : String) (hints : List WatcherHint) :
    c.Outside (c.pushHints b hints) :=
  .of_kept rfl (kept_pushHints c b hints) (face_pushHints c b hints)

theorem outside_clearBatchTimers (c : Coordinator) (b : String) :
    c.Outside (c.clearBatchTimers b) :=
  .of_kept rfl (kept_clearBatchTimers c b) (face_clearBatchTimers c b)

theorem outside_queueFlush (c : Coordinator) (b : String) (kind : ReconciliationKind)
    (trigger : ReconciliationTrigger) (sourceBarrier : Bool) :
    c.Outside (c.queueFlush b kind trigger sourceBarrier) := by
  unfold queueFlush
  split
  · exact .refl c
  · refine Outside.trans ?_ (outside_enqueue _ _)
    exact .of_kept rfl (kept_emptyHints c b) (face_emptyHints c b)

theorem face_bump (c : Coordinator) (b : String) :
    (c.setState b { c.states b with sourceEpoch := (c.states b).sourceEpoch + 1 }).face =
      Function.update c.face b { c.face b with epoch := (c.face b).epoch + 1 } :=
  face_setState c b _

theorem outside_bump (c : Coordinator) (b : String) :
    c.Outside (c.setState b { c.states b with sourceEpoch := (c.states b).sourceEpoch + 1 }) := by
  have hkept := kept_setState c b { c.states b with sourceEpoch := (c.states b).sourceEpoch + 1 }
    (.inl rfl) (.inl rfl)
  refine ⟨rfl, fun h => h, fun _ h => h, fun h => (hkept.timers h).1,
    fun h x hx => .inl ((hkept.timers h).2 x hx), ?_, ?_⟩
  · intro x
    rw [face_bump]
    by_cases hx : x = b
    · subst hx
      rw [Function.update_self]
      exact Nat.le_succ _
    · rw [Function.update_of_ne hx]
  · intro x
    rw [face_bump]
    left
    by_cases hx : x = b
    · subst hx
      rw [Function.update_self]
    · rw [Function.update_of_ne hx]

theorem outside_openBarrier (c : Coordinator) (b : String)
    (h : (c.face b).isOpen = false ∨ (c.face b).state = .degraded) :
    c.Outside (c.openBarrier b) := by
  have hkept := kept_setState c b { c.states b with
    barrierOpen := true, barrierState := .stale, barrierAttempts := 0, barrierErrorCode := none,
    barrierStatePersisted := false } (.inl rfl) (.inl rfl)
  have hmem : Operation.runSourceBarrier b ∈ (c.openBarrier b).queue :=
    List.mem_append_right _ List.mem_cons_self
  refine ⟨rfl, fun h => h, fun _ h => List.mem_append_left _ h, fun h => ?_,
    fun h x hx => .inl ?_, ?_, ?_⟩
  · have hok := (hkept.timers h).1
    exact ⟨hok.bounded, hok.nodup, hok.quiet, hok.maximum⟩
  · exact (hkept.timers h).2 x hx
  · intro x
    rw [face_openBarrier]
    by_cases hx : x = b
    · subst hx
      rw [Function.update_self]
    · rw [Function.update_of_ne hx]
  · intro x
    rw [face_openBarrier]
    by_cases hx : x = b
    · subst hx
      rw [Function.update_self]
      exact .inr ⟨rfl, hmem, h⟩
    · rw [Function.update_of_ne hx]
      exact .inl rfl

theorem outside_completeNow (c : Coordinator) (b : String) (trigger : ReconciliationTrigger)
    (extraHints : List WatcherHint) : c.Outside (c.completeNow b trigger extraHints) := by
  unfold completeNow
  refine (outside_pushHints c b extraHints).trans ?_
  generalize c.pushHints b extraHints = c
  dsimp only
  split
  · have hbumped := (outside_bump c b).trans (outside_clearBatchTimers _ b)
    split
    · exact hbumped.trans (outside_enqueue _ _)
    · exact hbumped
  · exact outside_queueFlush c b _ _ _

theorem epoch_completeNow (c : Coordinator) (b : String) (trigger : ReconciliationTrigger)
    (extraHints : List WatcherHint) (hopen : (c.face b).isOpen = true) :
    (c.face b).epoch < ((c.completeNow b trigger extraHints).face b).epoch := by
  have hface := face_pushHints c b extraHints
  unfold completeNow
  generalize c.pushHints b extraHints = d at hface ⊢
  rw [← hface] at hopen ⊢
  dsimp only
  rw [if_pos (show (d.states b).barrierOpen = true from hopen)]
  have hepoch :
      ((d.setState b { d.states b with sourceEpoch := (d.states b).sourceEpoch + 1 }).face
        b).epoch =
      (d.face b).epoch + 1 := by
    rw [face_bump, Function.update_self]
  split
  · rw [face_enqueue, face_clearBatchTimers, hepoch]
    exact Nat.lt_succ_self _
  · rw [face_clearBatchTimers, hepoch]
    exact Nat.lt_succ_self _

theorem outside_receive (c : Coordinator) (b : String) (hint : WatcherHint) :
    c.Outside (c.receive b hint).2 :=
  .of_kept rfl (kept_same rfl rfl rfl rfl rfl) rfl

theorem acceptHint_spec (c : Coordinator) (b : String) (now : ℕ) (hint : WatcherHint) :
    c.Outside (c.acceptHint b now hint) ∧
      (c.face b).epoch < ((c.acceptHint b now hint).face b).epoch := by
  have hreceived := outside_receive c b hint
  unfold acceptHint
  generalize c.receive b hint = received at hreceived ⊢
  obtain ⟨stamped, received⟩ := received
  dsimp only at hreceived ⊢
  have hcounted := outside_bump received b
  have hepoch : (received.face b).epoch < ((received.setState b { received.states b with
      sourceEpoch := (received.states b).sourceEpoch + 1 }).face b).epoch := by
    rw [face_bump, Function.update_self]
    exact Nat.lt_succ_self _
  generalize received.setState b { received.states b with
    sourceEpoch := (received.states b).sourceEpoch + 1 } = counted at hcounted hepoch ⊢
  have hbefore : c.Outside counted := hreceived.trans hcounted
  have hlt : (c.face b).epoch < (counted.face b).epoch :=
    Nat.lt_of_le_of_lt (hreceived.epoch b) hepoch
  suffices hrest : ∀ next, counted.Outside next → c.Outside next ∧
      (c.face b).epoch < (next.face b).epoch by
    refine hrest _ ?_
    have hpushed := outside_pushHints counted b [stamped]
    have hcleared := hpushed.trans (outside_clearBatchTimers (counted.pushHints b [stamped]) b)
    split
    · split
      case isTrue hclosed =>
        exact hcleared.trans (outside_openBarrier _ b (.inl (Bool.eq_false_iff.mpr hclosed)))
      case isFalse =>
        split
        case isTrue hdegraded => exact hcleared.trans (outside_openBarrier _ b (.inr hdegraded))
        case isFalse => exact hcleared
    · split
      · exact outside_completeNow counted b _ _
      · split
        · exact outside_completeNow counted b _ _
        · split
          · exact hpushed
          · split
            · exact hpushed.trans (outside_queueFlush _ b _ _ _)
            · split
              · exact hpushed.trans (outside_queueFlush _ b _ _ _)
              · exact hpushed.trans
                  (.of_kept (running_scheduleBatch _ b now) (kept_scheduleBatch _ b now)
                    (face_scheduleBatch _ b now))
  intro next hnext
  exact ⟨hbefore.trans hnext, Nat.lt_of_lt_of_le hlt (hnext.epoch b)⟩

theorem outside_accept {c c' : Coordinator} {now : ℕ} {batch : WatcherHintBatch}
    (h : c.accept now batch = .ok c') :
    c.Outside c' ∧ (batch.events ≠ [] →
      (c.face batch.sourceProviderBindingId).epoch <
        (c'.face batch.sourceProviderBindingId).epoch) := by
  have hfold : ∀ (hints : List WatcherHint) (c : Coordinator),
      c.Outside (hints.foldl (fun c hint => c.acceptHint batch.sourceProviderBindingId now hint)
        c) := by
    intro hints
    induction hints with
    | nil => exact Outside.refl
    | cons hint hints ih => exact fun c => (acceptHint_spec c _ now hint).1.trans (ih _)
  unfold accept at h
  split at h
  · cases h
  · obtain ⟨_, _, h⟩ := bind_eq_ok h
    dsimp only at h
    split at h
    · cases h
    · obtain rfl := Except.ok.inj h
      refine ⟨hfold batch.events c, fun hsome => ?_⟩
      obtain ⟨hint, hints, hevents⟩ := List.exists_cons_of_ne_nil hsome
      rw [hevents, List.foldl_cons]
      exact Nat.lt_of_lt_of_le (acceptHint_spec c _ now hint).2 ((hfold hints _).epoch _)

theorem TimersOk.mono {c c' : Coordinator} (h : c.TimersOk) (htimers : c'.timers.Sublist c.timers)
    (hnext : c'.nextHandle = c.nextHandle)
    (hquiet : ∀ b, (c'.states b).quietTimer = (c.states b).quietTimer ∨
      (c'.states b).quietTimer = none)
    (hmaximum : ∀ b, (c'.states b).maximumTimer = (c.states b).maximumTimer ∨
      (c'.states b).maximumTimer = none) :
    c'.TimersOk := by
  refine ⟨?_, h.nodup.sublist (htimers.map _), ?_, ?_⟩
  · rw [hnext]
    exact fun timer htimer => h.bounded timer (htimers.subset htimer)
  · intro b handle hhandle
    rw [hnext]
    rcases hquiet b with hsame | hnone
    · obtain ⟨hlt, hretry⟩ := h.quiet b handle (hsame ▸ hhandle)
      exact ⟨hlt, fun timer htimer => hretry timer (htimers.subset htimer)⟩
    · rw [hnone] at hhandle
      cases hhandle
  · intro b handle hhandle
    rw [hnext]
    rcases hmaximum b with hsame | hnone
    · obtain ⟨hlt, hretry⟩ := h.maximum b handle (hsame ▸ hhandle)
      exact ⟨hlt, fun timer htimer => hretry timer (htimers.subset htimer)⟩
    · rw [hnone] at hhandle
      cases hhandle

theorem quiet_setState (c : Coordinator) (b : String) (state : BindingState)
    (h : state.quietTimer = (c.states b).quietTimer) (x : String) :
    ((c.setState b state).states x).quietTimer = (c.states x).quietTimer := by
  change (Function.update c.states b state x).quietTimer = _
  by_cases hx : x = b
  · subst hx
    rw [Function.update_self]
    exact h
  · rw [Function.update_of_ne hx]

theorem maximum_setState (c : Coordinator) (b : String) (state : BindingState)
    (h : state.maximumTimer = (c.states b).maximumTimer) (x : String) :
    ((c.setState b state).states x).maximumTimer = (c.states x).maximumTimer := by
  change (Function.update c.states b state x).maximumTimer = _
  by_cases hx : x = b
  · subst hx
    rw [Function.update_self]
    exact h
  · rw [Function.update_of_ne hx]

theorem TimersOk.clearTimeout {c : Coordinator} (h : c.TimersOk) (handle : Option ℕ) :
    (c.clearTimeout handle).TimersOk :=
  h.mono List.filter_sublist rfl (fun _ => .inl rfl) (fun _ => .inl rfl)

theorem TimersOk.clearAllTimers {c : Coordinator} (h : c.TimersOk) (b : String) :
    (c.clearAllTimers b).TimersOk := by
  have hbatch := ((kept_clearBatchTimers c b).timers h).1
  unfold Coordinator.clearAllTimers
  generalize c.clearBatchTimers b = d at hbatch ⊢
  dsimp only
  have hcleared :=
    (hbatch.clearTimeout (d.states b).periodicTimer).clearTimeout (d.states b).barrierRetryTimer
  have hstate : d.states b = ((d.clearTimeout (d.states b).periodicTimer).clearTimeout
      (d.states b).barrierRetryTimer).states b := rfl
  generalize (d.clearTimeout (d.states b).periodicTimer).clearTimeout
    (d.states b).barrierRetryTimer = e at hcleared hstate ⊢
  rw [hstate]
  refine hcleared.mono (List.Sublist.refl _) rfl ?_ ?_
  · exact fun x => .inl (quiet_setState e b
      { e.states b with periodicTimer := none, barrierRetryTimer := none } rfl x)
  · exact fun x => .inl (maximum_setState e b
      { e.states b with periodicTimer := none, barrierRetryTimer := none } rfl x)

theorem clearAllTimers_frame (c : Coordinator) (b : String) :
    (c.clearAllTimers b).running = c.running ∧ (c.clearAllTimers b).queue = c.queue := by
  have hbatch : (c.clearBatchTimers b).running = c.running ∧ (c.clearBatchTimers b).queue =
      c.queue := ⟨rfl, rfl⟩
  unfold Coordinator.clearAllTimers
  generalize c.clearBatchTimers b = d at hbatch ⊢
  exact hbatch

structure Stopped (c d : Coordinator) : Prop where
  face : d.face = c.face
  running : d.running = c.running
  queue : d.queue = c.queue
  timers : c.TimersOk → d.TimersOk

theorem Stopped.clearAllTimers {c d : Coordinator} (h : c.Stopped d) (b : String) :
    c.Stopped (d.clearAllTimers b) where
  face := (face_clearAllTimers d b).trans h.face
  running := (clearAllTimers_frame d b).1.trans h.running
  queue := (clearAllTimers_frame d b).2.trans h.queue
  timers := fun hok => (h.timers hok).clearAllTimers b

theorem Stopped.foldl {c d : Coordinator} (h : c.Stopped d) (ids : List String) :
    c.Stopped (ids.foldl (fun c b => c.clearAllTimers b) d) := by
  induction ids generalizing d with
  | nil => exact h
  | cons b ids ih =>
    rw [List.foldl_cons]
    exact ih (h.clearAllTimers b)

theorem outside_close (c : Coordinator) : c.Outside c.close := by
  have hstopped : c.Stopped (c.registered.foldl (fun c b => c.clearAllTimers b) c) :=
    Stopped.foldl ⟨rfl, rfl, rfl, fun h => h⟩ c.registered
  unfold close
  generalize c.registered.foldl (fun c b => c.clearAllTimers b) c = d at hstopped ⊢
  split
  · exact .refl c
  · have hface : ({ d with closed := true } : Coordinator).face = c.face := hstopped.face
    refine ⟨hstopped.running, fun _ => rfl, fun operation hmem => ?_, fun h => ?_,
      fun _ _ _ => .inr (.inr rfl),
      fun b => ?_, fun b => ?_⟩
    · change operation ∈ d.queue
      rw [hstopped.queue]
      exact hmem
    · have hok := hstopped.timers h
      exact ⟨hok.bounded, hok.nodup, hok.quiet, hok.maximum⟩
    · rw [hface]
    · rw [hface]
      exact .inl rfl

theorem handle_inj {c : Coordinator} (h : c.TimersOk) {timer timer' : Timer}
    (htimer : timer ∈ c.timers)
    (htimer' : timer' ∈ c.timers) (hsame : timer.handle = timer'.handle) : timer = timer' :=
  List.inj_on_of_nodup_map h.nodup htimer htimer' hsame

theorem outside_fire {c : Coordinator} {timer : Timer} (htimer : timer ∈ c.timers)
    (haction : timer.action ≠ .barrierRetry) (state : BindingState)
    (hface : state.face = c.face timer.binding)
    (hquiet : state.quietTimer = (c.states timer.binding).quietTimer ∨ state.quietTimer = none)
    (hmaximum : state.maximumTimer = (c.states timer.binding).maximumTimer ∨
      state.maximumTimer = none) :
    c.Outside ({ c with timers := c.timers.filter (fun t => t.handle ≠ timer.handle) }.setState
      timer.binding state) := by
  have hdropped :
      c.Kept { c with timers := c.timers.filter (fun t => t.handle ≠ timer.handle) } := by
    refine kept_drop c _ (fun hok other hother hretry => decide_eq_true ?_)
    intro hsame
    rw [handle_inj hok hother htimer hsame] at hretry
    exact haction hretry
  exact .of_kept rfl (hdropped.trans (kept_setState _ timer.binding state hquiet hmaximum))
    (face_setState_same hface)

theorem outside_retry {c : Coordinator} {timer : Timer} (htimer : timer ∈ c.timers)
    (state : BindingState)
    (hface : state.face = c.face timer.binding)
    (hquiet : state.quietTimer = (c.states timer.binding).quietTimer)
    (hmaximum : state.maximumTimer = (c.states timer.binding).maximumTimer) :
    c.Outside (({ c with timers := c.timers.filter (fun t => t.handle ≠ timer.handle) }.setState
      timer.binding
      state).enqueue (.runSourceBarrier timer.binding)) := by
  have hsame :
      (({ c with timers := c.timers.filter (fun t => t.handle ≠ timer.handle) }.setState
        timer.binding
      state).enqueue (.runSourceBarrier timer.binding)).face = c.face := by
    rw [face_enqueue]
    exact face_setState_same hface
  refine ⟨rfl, fun h => h, fun _ h => List.mem_append_left _ h, fun hok => ?_, fun hok b hb => ?_,
    fun b => ?_,
    fun b => ?_⟩
  · have hfired :
        ({ c with timers := c.timers.filter (fun t => t.handle ≠ timer.handle) } :
          Coordinator).TimersOk :=
      hok.mono List.filter_sublist rfl (fun _ => .inl rfl) (fun _ => .inl rfl)
    refine hfired.mono (List.Sublist.refl _) rfl ?_ ?_
    · exact fun x => .inl (quiet_setState _ timer.binding state hquiet x)
    · exact fun x => .inl (maximum_setState _ timer.binding state hmaximum x)
  · obtain ⟨other, hother, hbinding, haction⟩ := hb
    by_cases hhandle : other.handle = timer.handle
    · right
      left
      rw [← hbinding, handle_inj hok hother htimer hhandle]
      exact List.mem_append_right _ List.mem_cons_self
    · exact .inl ⟨other, List.mem_filter.mpr ⟨hother, decide_eq_true hhandle⟩, hbinding, haction⟩
  · rw [hsame]
  · rw [hsame]
    exact .inl rfl

theorem outside_expire {c : Coordinator} {timer : Timer} (htimer : timer ∈ c.timers) :
    c.Outside (c.expire timer) := by
  unfold expire
  dsimp only
  split
  case h_1 haction =>
    have hfired := outside_fire htimer (by rw [haction]; decide)
      { c.states timer.binding with quietTimer := none } rfl (.inr rfl) (.inl rfl)
    exact hfired.trans (outside_queueFlush _ timer.binding .targeted .settledBatch false)
  case h_2 haction =>
    have hfired := outside_fire htimer (by rw [haction]; decide)
      { c.states timer.binding with maximumTimer := none } rfl (.inl rfl) (.inr rfl)
    exact hfired.trans (outside_queueFlush _ timer.binding .targeted .maximumBatchWindow false)
  case h_3 haction =>
    have hfired := outside_fire htimer (by rw [haction]; decide)
      { c.states timer.binding with periodicTimer := none } rfl (.inl rfl) (.inl rfl)
    split
    · exact hfired
    · refine (hfired.trans (outside_completeNow _ timer.binding .periodic [])).trans ?_
      exact .of_kept rfl (kept_schedulePeriodic _ _) (face_schedulePeriodic _ _)
  case h_4 haction =>
    exact outside_retry htimer { c.states timer.binding with barrierRetryTimer := none } rfl rfl rfl

end Coordinator

end Engine
