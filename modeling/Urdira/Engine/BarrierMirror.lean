import Urdira.Engine.BarrierFreshness

namespace Engine

namespace World

open Coordinator

def stateOf (w : World) (b : String) : BindingState := w.coordinator.states b

def Attends (w : World) (b : String) : Prop :=
  .runSourceBarrier b ∈ w.coordinator.queue ∨
    (∃ running, w.coordinator.running = some running ∧
      (running = .barrierPersisting b ∨ (∃ complete, running = .barrierAdministrative b complete) ∨
        (∃ complete, running = .barrierComplete b complete) ∨
          (∃ complete, running = .barrierCommitting b complete) ∨
        running = .barrierDegrading b)) ∨
    ∃ timer ∈ w.coordinator.timers, timer.binding = b ∧ timer.action = .barrierRetry

def undisturbed (w : World) : Happening → Bool
  | .event (.settle .barrierStateSet) =>
    match w.coordinator.running with
    | some (.barrierDegrading b) => decide ((w.stateOf b).barrierState = .degraded)
    | _ => true
  | _ => true

def undisturbedRun : World → List Happening → Bool
  | _, [] => true
  | w, happening :: happenings => w.undisturbed happening &&
      undisturbedRun (w.step happening) happenings

def Mirror (w : World) : Prop :=
  ∀ b, (w.coordinator.face b).persisted = true → w.stored b = (w.coordinator.face b).state ∨
    w.coordinator.running = some (.barrierDegrading b) ∨
    (w.portDone = true ∧ ∃ complete, w.coordinator.running = some (.barrierCommitting b complete))

theorem Mirror.plain {w : World} (h : w.Mirror) {b : String}
    (hpersisted : (w.coordinator.face b).persisted = true)
    (hdegrading : w.coordinator.running ≠ some (.barrierDegrading b))
    (hcommitting : ∀ complete, w.coordinator.running = some (.barrierCommitting b complete) →
      w.portDone = false) :
    w.stored b = (w.coordinator.face b).state := by
  rcases h b hpersisted with hsame | hrunning | ⟨hdone, complete, hrunning⟩
  · exact hsame
  · exact absurd hrunning hdegrading
  · rw [hcommitting complete hrunning] at hdone
    cases hdone

theorem Mirror.portCommits {w : World} (h : w.Mirror) : w.portCommits.Mirror := by
  unfold World.portCommits
  split
  · exact h
  case isFalse hdone =>
    split
    case h_1 commit hcommit =>
      have hbefore : ∀ b, (w.coordinator.face b).persisted = true →
          w.stored b = (w.coordinator.face b).state ∨
          w.coordinator.running = some (.barrierDegrading b) := by
        intro b hpersisted
        rcases h b hpersisted with hsame | hrunning | ⟨htrue, -⟩
        · exact .inl hsame
        · exact .inr hrunning
        · exact absurd htrue hdone
      unfold currentCommit at hcommit
      split at hcommit
      case h_1 b request hrunning =>
        split at hcommit
        · cases hcommit
        · obtain rfl := Option.some.inj hcommit
          intro x hpersisted
          rcases hbefore x hpersisted with hsame | hdegrading
          · exact .inl hsame
          · exact .inr (.inl hdegrading)
      case h_2 b complete hrunning =>
        dsimp only at hcommit
        split at hcommit
        · obtain rfl := Option.some.inj hcommit
          intro x hpersisted
          by_cases hx : x = b
          · subst hx
            exact .inr (.inr ⟨rfl, complete, hrunning⟩)
          · rcases hbefore x hpersisted with hsame | hdegrading
            · left
              change Function.update w.stored b .current x = _
              rw [Function.update_of_ne hx]
              exact hsame
            · exact .inr (.inl hdegrading)
        · cases hcommit
      case h_3 => cases hcommit
    case h_2 => exact h

theorem Mirror.event {w : World} (h : w.Mirror) {event : Event}
    (hsettle : ∀ settlement, event ≠ .settle settlement) :
    ({ w with coordinator := w.coordinator.step event } : World).Mirror := by
  have hcases := w.coordinator.step_cases hsettle
  generalize w.coordinator.step event = next at hcases ⊢
  rcases hcases with houtside | hstarts
  · intro b hpersisted
    change (next.face b).persisted = true at hpersisted
    change w.stored b = (next.face b).state ∨ next.running = _ ∨ (_ ∧ ∃ complete, next.running = _)
    rw [houtside.running]
    rcases houtside.face b with hface | ⟨hface, -, -⟩
    · rw [hface] at hpersisted ⊢
      exact h b hpersisted
    · rw [hface] at hpersisted
      cases hpersisted
  · have hidle : w.coordinator.running = none → next.face = w.coordinator.face →
        ({ w with coordinator := next } : World).Mirror := by
      intro hrunning hface b hpersisted
      change (next.face b).persisted = true at hpersisted
      left
      change w.stored b = (next.face b).state
      rw [hface] at hpersisted ⊢
      refine h.plain hpersisted ?_ ?_
      · rw [hrunning]
        nofun
      · intro complete hother
        rw [hrunning] at hother
        cases hother
    cases hstarts with
    | idle => exact h
    | reconcile operation rest hrunning hqueue hne hkept hface => exact hidle hrunning hface
    | barrier b rest hrunning hqueue hkept hface => exact hidle hrunning hface

theorem answers_committing {w : World} {b : String} {complete : ReconciliationRequest}
    {settlement : Settlement}
    (h : w.answers settlement = true) (hrunning : w.coordinator.running =
      some (.barrierCommitting b complete))
    (hcommitted : settlement ≠ .commitSettled .committed) : w.portDone = false := by
  unfold answers at h
  rw [hrunning] at h
  cases settlement with
  | commitSettled outcome =>
    cases outcome with
    | committed => exact absurd rfl hcommitted
    | stale => exact Bool.not_eq_true' _ ▸ h
  | commitFailed error => exact Bool.not_eq_true' _ ▸ h
  | _ => cases h

theorem written_other {w : World} {settlement : Settlement} (h : settlement ≠ .barrierStateSet) :
    w.written settlement = w.stored := by
  unfold written
  split
  · exact absurd rfl h
  · rfl

theorem Mirror.settled {w : World} (h : w.Mirror) (hsound : w.Sound) {settlement : Settlement}
    (hanswers : w.answers settlement = true)
    (hcalm : w.undisturbed (.event (.settle settlement)) = true)
    {next : Coordinator} (hsettles : w.coordinator.Settles settlement next) :
    ({ w with coordinator := next, portDone := false, stored := w.written settlement } :
      World).Mirror := by
  have hplain : ∀ x, (w.coordinator.face x).persisted = true →
      w.coordinator.running ≠ some (.barrierDegrading x) →
      (∀ complete, w.coordinator.running = some (.barrierCommitting x complete) →
        w.portDone = false) →
      next.face x = w.coordinator.face x → w.written settlement x = w.stored x →
      w.written settlement x = (next.face x).state := by
    intro x hpersisted hdegrading hcommitting hface hwritten
    rw [hwritten, hface]
    exact h.plain hpersisted hdegrading hcommitting
  have hother : ∀ (b x : String), w.coordinator.OnlyFor b → x ≠ b →
      w.coordinator.running ≠ some (.barrierDegrading x) ∧
        ∀ complete, w.coordinator.running = some (.barrierCommitting x complete) →
          w.portDone = false := by
    intro b x honly hx
    exact ⟨fun hrunning => hx (honly.2.2 x hrunning),
      fun complete hrunning => absurd (honly.2.1 x complete (.inr (.inr hrunning))) hx⟩
  intro x hpersisted
  change (next.face x).persisted = true at hpersisted
  change w.written settlement x = (next.face x).state ∨ next.running = _ ∨ _
  cases hsettles with
  | plain b request hrunning hkept hface hnext hset =>
    left
    rw [hface] at hpersisted
    refine hplain x hpersisted ?_ ?_ (by rw [hface]) (by rw [written_other hset])
    · intro hdegrading
      rcases hrunning with hrunning | hrunning <;> rw [hrunning] at hdegrading <;> cases hdegrading
    · intro complete hother
      rcases hrunning with hrunning | hrunning <;> rw [hrunning] at hother <;> cases hother
  | persisted b hrunning hkept hface hcaptures =>
    left
    have hwritten : w.written .barrierStateSet = Function.update w.stored b .stale := by
      unfold written
      rw [hrunning]
    rw [hface] at hpersisted
    by_cases hx : x = b
    · subst hx
      rw [hwritten, hface, Function.update_self, Function.update_self]
      exact (hsound.coordinator.persisting x hrunning).2.1.symm
    · rw [Function.update_of_ne hx] at hpersisted
      obtain ⟨hdegrading, hcommitting⟩ := hother b x (onlyFor_persisting hrunning) hx
      refine hplain x hpersisted hdegrading hcommitting ?_ ?_
      · rw [hface, Function.update_of_ne hx]
      · rw [hwritten, Function.update_of_ne hx]
  | failed b hrunning hkept hfails hset hcommitted =>
    have honly : ∀ y, w.coordinator.running ≠ some (.barrierDegrading y) := by
      intro y hdegrading
      rcases hrunning with hrunning | ⟨complete, hcapturing⟩
      · rw [hrunning] at hdegrading
        cases hdegrading
      · rw [Capturing, hdegrading] at hcapturing
        rcases hcapturing with hother | hother | hother <;> cases hother
    have hcommitting : ∀ y complete, w.coordinator.running = some (.barrierCommitting y complete) →
        w.portDone = false :=
          fun y complete hcommitting => answers_committing hanswers hcommitting hcommitted
    rcases hfails with ⟨hface, hnext⟩ | ⟨hface, hnext, -⟩
    · by_cases hx : x = b
      · subst hx
        exact .inr (.inl hnext)
      · left
        rw [hface, Function.update_of_ne hx] at hpersisted
        refine hplain x hpersisted (honly x) (hcommitting x) ?_ (by rw [written_other hset])
        rw [hface, Function.update_of_ne hx]
    · left
      rw [hface] at hpersisted
      exact hplain x hpersisted (honly x) (hcommitting x)
        (by rw [hface]) (by rw [written_other hset])
  | advances b complete hrunning hkept hface hnext hset =>
    left
    rw [hface] at hpersisted
    refine hplain x hpersisted ?_ ?_ (by rw [hface]) (by rw [written_other hset])
    · intro hdegrading
      rw [hrunning] at hdegrading
      cases hdegrading
    · intro other hother
      rw [hrunning] at hother
      cases hother
  | offers b complete hrunning hkept hface hnext hset =>
    left
    rw [hface] at hpersisted
    refine hplain x hpersisted ?_ ?_ (by rw [hface]) (by rw [written_other hset])
    · intro hdegrading
      rw [hrunning] at hdegrading
      cases hdegrading
    · intro other hother
      rw [hrunning] at hother
      cases hother
  | reruns b complete hcapturing hkept hface hgoes hset hcommitted =>
    left
    rw [hface] at hpersisted
    refine hplain x hpersisted ?_ ?_ (by rw [hface]) (by rw [written_other hset])
    · intro hdegrading
      rw [Capturing, hdegrading] at hcapturing
      rcases hcapturing with hother | hother | hother <;> cases hother
    · exact fun other hcommitting => answers_committing hanswers hcommitting hcommitted
  | overtaken b complete hrunning hepoch hkept hface hgoes =>
    rw [hface] at hpersisted
    by_cases hx : x = b
    · subst hx
      rw [Function.update_self] at hpersisted
      cases hpersisted
    · left
      rw [Function.update_of_ne hx] at hpersisted
      obtain ⟨hdegrading, hcommitting⟩ := hother b x (onlyFor_capturing (.inr (.inr hrunning))) hx
      refine hplain x hpersisted hdegrading hcommitting ?_ rfl
      rw [hface, Function.update_of_ne hx]
  | closes b complete hrunning hepoch hkept hface hnext =>
    left
    rw [hface] at hpersisted
    by_cases hx : x = b
    · subst hx
      have hdone : w.portDone = true := by
        unfold answers at hanswers
        rw [hrunning] at hanswers
        exact hanswers
      change w.stored x = _
      rw [hface, Function.update_self]
      rcases hsound.done hdone with ⟨y, request, hother⟩ | ⟨y, other, hother, hstored, -⟩
      · rw [hrunning] at hother
        cases hother
      · rw [hrunning] at hother
        cases hother
        exact hstored
    · rw [Function.update_of_ne hx] at hpersisted
      obtain ⟨hdegrading, hcommitting⟩ := hother b x (onlyFor_capturing (.inr (.inr hrunning))) hx
      refine hplain x hpersisted hdegrading hcommitting ?_ rfl
      rw [hface, Function.update_of_ne hx]
  | degraded b hrunning hkept hface hnext =>
    left
    have hwritten : w.written .barrierStateSet = Function.update w.stored b .degraded := by
      unfold written
      rw [hrunning]
    rw [hface] at hpersisted
    by_cases hx : x = b
    · subst hx
      unfold undisturbed at hcalm
      rw [hrunning] at hcalm
      rw [hwritten, hface, Function.update_self, Function.update_self]
      exact (of_decide_eq_true hcalm).symm
    · rw [Function.update_of_ne hx] at hpersisted
      obtain ⟨hdegrading, hcommitting⟩ := hother b x (onlyFor_degrading hrunning) hx
      refine hplain x hpersisted hdegrading hcommitting ?_ ?_
      · rw [hface, Function.update_of_ne hx]
      · rw [hwritten, Function.update_of_ne hx]
  | undegraded b hrunning hkept hface hnext hset =>
    rw [hface] at hpersisted
    by_cases hx : x = b
    · subst hx
      rw [Function.update_self] at hpersisted
      cases hpersisted
    · left
      rw [Function.update_of_ne hx] at hpersisted
      obtain ⟨hdegrading, hcommitting⟩ := hother b x (onlyFor_degrading hrunning) hx
      refine hplain x hpersisted hdegrading hcommitting ?_ (by rw [written_other hset])
      rw [hface, Function.update_of_ne hx]

theorem Mirror.step {w : World} (h : w.Mirror) (hsound : w.Sound) {happening : Happening}
    (hcalm : w.undisturbed happening = true) : (w.step happening).Mirror := by
  cases happening with
  | portCommits => exact h.portCommits
  | event event =>
    cases event with
    | settle settlement =>
      change (w.settle settlement).Mirror
      unfold settle
      split
      case isTrue hanswers => exact h.settled hsound hanswers hcalm (Coordinator.settles hanswers)
      case isFalse => exact h
    | _ => exact h.event nofun

theorem Mirror.run {w : World} (h : w.Mirror) (hsound : w.Sound) {happenings : List Happening}
    (hcalm : undisturbedRun w happenings = true) : (w.run happenings).Mirror := by
  induction happenings generalizing w with
  | nil => exact h
  | cons happening happenings ih =>
    obtain ⟨hfirst, hrest⟩ := Bool.and_eq_true_iff.mp hcalm
    exact ih (h.step hsound hfirst) (sound_step hsound happening) hrest

theorem attends {w : World} (h : w.Sound) {b : String} (hopen : (w.stateOf b).barrierOpen = true)
    (hstale : (w.stateOf b).barrierState = .stale) (hclosed : w.coordinator.closed = false) :
    w.Attends b := by
  rcases h.coordinator.attended b hopen hstale hclosed with hqueued | hbusy | harmed
  · exact .inl hqueued
  · right
    left
    rcases hbusy with hrunning | ⟨complete, hrunning | hrunning | hrunning⟩
    · exact ⟨_, hrunning, .inl rfl⟩
    · exact ⟨_, hrunning, .inr (.inl ⟨complete, rfl⟩)⟩
    · exact ⟨_, hrunning, .inr (.inr (.inl ⟨complete, rfl⟩))⟩
    · exact ⟨_, hrunning, .inr (.inr (.inr (.inl ⟨complete, rfl⟩)))⟩
  · exact .inr (.inr harmed)

theorem persisted_state_mirrors_memory {options : ReconciliationCoordinatorOptions}
    {c : Coordinator}
    (hnew : Coordinator.new options = .ok c) (happenings : List Happening) (b : String) :
    (undisturbedRun (start c) happenings = true → ((start c).run happenings).portCallFor b = false →
      (((start c).run happenings).stateOf b).barrierStatePersisted = true →
      ((start c).run happenings).stored b = (((start c).run happenings).stateOf b).barrierState) ∧
    ((((start c).run happenings).stateOf b).barrierOpen = true →
      (((start c).run happenings).stateOf b).barrierState = .stale →
      ((start c).run happenings).coordinator.closed = false →
        ((start c).run happenings).Attends b) := by
  have hfresh := fresh_new hnew
  refine ⟨fun hcalm hidle hpersisted => ?_, attends (sound_run hfresh.sound happenings)⟩
  have hstart : (start c).Mirror := by
    intro x _
    left
    change SourceBarrierState.current = (c.face x).state
    rw [hfresh.face x]
  have hmirror := hstart.run hfresh.sound hcalm
  refine hmirror.plain hpersisted ?_ ?_
  · intro hrunning
    unfold portCallFor at hidle
    rw [hrunning] at hidle
    exact of_decide_eq_false hidle rfl
  · intro complete hrunning
    unfold portCallFor at hidle
    rw [hrunning] at hidle
    exact absurd rfl (of_decide_eq_false hidle)

def oneAttempt : ReconciliationCoordinatorOptions :=
  { watchedWorkspace with maximumBarrierAttempts := some 1 }

def degradingRun : List Happening :=
  [.event (.accept 0 branchSwitch), .event .queueStep,
    .event (.settle (.barrierStateFailed portUnavailable))]

theorem persisted_state_mirrors_memory_degraded :
    ∃ c, Coordinator.new oneAttempt = .ok c ∧
      (((start c).run (degradingRun ++ [.event (.settle .barrierStateSet)])).stateOf
        "b").barrierState = .degraded ∧
      ((start c).run (degradingRun ++ [.event (.settle .barrierStateSet)])).stored "b" =
        (((start c).run (degradingRun ++ [.event (.settle .barrierStateSet)])).stateOf
          "b").barrierState := by
  refine ⟨_, rfl, by decide +kernel, ?_⟩
  exact (@persisted_state_mirrors_memory oneAttempt _ rfl _ "b").1
    (by decide +kernel) (by decide +kernel)
    (by decide +kernel)

theorem overtaken_degraded_write_persists :
    ∃ c, Coordinator.new oneAttempt = .ok c ∧
      let w :=
  (start c).run (degradingRun ++ [.event (.accept 1 branchSwitch),
    .event (.settle .barrierStateSet)])
      w.portCallFor "b" = false ∧ (w.stateOf "b").barrierStatePersisted = true ∧
        w.stored "b" = .degraded ∧
        (w.stateOf "b").barrierState = .stale ∧ w.stored "b" ≠ (w.stateOf "b").barrierState := by
  refine ⟨_, rfl, ?_⟩
  decide +kernel

end World

end Engine
