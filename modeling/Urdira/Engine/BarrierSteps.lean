import Urdira.Engine.BarrierEffects

open ExceptOk

namespace Engine

namespace Coordinator

def Runs (c : Coordinator) (b : String) : Prop :=
  (c.face b).isOpen = true ∧ (c.face b).state ≠ .degraded ∧ c.closed = false

def Captures (c : Coordinator) (b : String) : Prop :=
  ∃ complete, c.running = some (.barrierAdministrative b complete) ∧ complete.kind = .complete ∧
    complete.sourceEpoch = (c.face b).epoch

def GoesOn (c : Coordinator) (b : String) : Prop :=
  (¬ c.Runs b ∧ c.running = none) ∨
  (c.Runs b ∧ (c.face b).persisted = false ∧ c.running = some (.barrierPersisting b)) ∨
  (c.Runs b ∧ (c.face b).persisted = true ∧ c.Captures b)

def Fails (c c' : Coordinator) (b : String) : Prop :=
  (c'.face = Function.update c.face b { c.face b with state := .degraded } ∧
    c'.running = some (.barrierDegrading b)) ∨
  (c'.face = c.face ∧ c'.running = none ∧ c'.Armed b)

theorem kept_captureBarrier (c : Coordinator) (b : String) : c.Kept (c.captureBarrier b) :=
  (kept_emptyHints c b).trans (kept_callReconcile _ _ _)

theorem captures_captureBarrier (c : Coordinator) (b : String) :
    (c.captureBarrier b).Captures b := by
  refine ⟨_, rfl, rfl, ?_⟩
  rw [face_captureBarrier]
  exact congrArg Face.epoch (congrFun (face_emptyHints c b) b)

theorem runSourceBarrier_spec (c : Coordinator) (b : String) :
    c.Kept (c.runSourceBarrier b) ∧ (c.runSourceBarrier b).face = c.face ∧
      (c.runSourceBarrier b).GoesOn b := by
  have hface := face_runSourceBarrier c b
  unfold runSourceBarrier at hface ⊢
  dsimp only at hface ⊢
  split
  case isTrue hopen =>
    obtain ⟨hopen, hstate, hclosed⟩ := hopen
    have hruns : c.Runs b := ⟨hopen, hstate, Bool.eq_false_iff.mpr hclosed⟩
    split
    case isTrue hunpersisted =>
      exact ⟨kept_await c _, rfl, .inr (.inl ⟨hruns, Bool.eq_false_iff.mpr hunpersisted, rfl⟩)⟩
    case isFalse hpersisted =>
      have hkept := kept_captureBarrier c b
      refine ⟨hkept, face_captureBarrier c b, .inr (.inr ⟨?_, ?_, captures_captureBarrier c b⟩)⟩
      · rw [Runs, face_captureBarrier, hkept.closed]
        exact hruns
      · rw [face_captureBarrier]
        exact not_not.mp hpersisted
  case isFalse hstopped =>
    refine ⟨kept_finish c, rfl, .inl ⟨fun hruns => hstopped ?_, rfl⟩⟩
    exact ⟨hruns.1, hruns.2.1, Bool.eq_false_iff.mp hruns.2.2⟩

theorem barrierFailed_spec (c : Coordinator) (b : String) :
    c.Kept (c.barrierFailed b) ∧ c.Fails (c.barrierFailed b) b := by
  unfold barrierFailed
  dsimp only
  split
  · refine ⟨Kept.trans ?_ (kept_await _ _), .inl ⟨?_, rfl⟩⟩
    · exact kept_setState c b _ (.inl rfl) (.inl rfl)
    · exact face_setState c b _
  · refine ⟨Kept.trans ?_ (kept_finish _), .inr ⟨?_, rfl, ?_⟩⟩
    · exact kept_setStateTimeout c b _ _ _ (.inl rfl) (.inl rfl)
    · exact face_setState_same rfl
    · exact ⟨_, List.mem_append_right _ List.mem_cons_self, rfl, rfl⟩

def Capturing (c : Coordinator) (b : String) (complete : ReconciliationRequest) : Prop :=
  c.running = some (.barrierAdministrative b complete) ∨
    c.running = some (.barrierComplete b complete) ∨
    c.running = some (.barrierCommitting b complete)

inductive Settles (c : Coordinator) : Settlement → Coordinator → Prop
  | plain {settlement : Settlement} {c' : Coordinator} (b : String)
    (request : ReconciliationRequest) :
      c.running = some (.reconciling b request) ∨ c.running = some (.committing b request) →
        c.Kept c' →
      c'.face = c.face → c'.running = none ∨ c'.running = some (.committing b request) →
        settlement ≠ .barrierStateSet →
      Settles c settlement c'
  | persisted {c' : Coordinator} (b : String) : c.running = some (.barrierPersisting b) →
      c.Kept c' →
      c'.face = Function.update c.face b { c.face b with persisted := true } → c'.Captures b →
      Settles c .barrierStateSet c'
  | failed {settlement : Settlement} {c' : Coordinator} (b : String) :
      c.running = some (.barrierPersisting b) ∨ (∃ complete, c.Capturing b complete) → c.Kept c' →
      c.Fails c' b → settlement ≠ .barrierStateSet → settlement ≠ .commitSettled .committed →
        Settles c settlement c'
  | advances {settlement : Settlement} {c' : Coordinator} (b : String)
      (complete : ReconciliationRequest) :
      c.running = some (.barrierAdministrative b complete) → c.Kept c' → c'.face = c.face →
      c'.running = some (.barrierComplete b complete) → settlement ≠ .barrierStateSet →
        Settles c settlement c'
  | offers {settlement : Settlement} {c' : Coordinator} (b : String)
      (complete : ReconciliationRequest) :
      c.running = some (.barrierComplete b complete) → c.Kept c' → c'.face = c.face →
      c'.running = some (.barrierCommitting b complete) → settlement ≠ .barrierStateSet →
        Settles c settlement c'
  | reruns {settlement : Settlement} {c' : Coordinator} (b : String)
      (complete : ReconciliationRequest) :
      c.Capturing b complete → c.Kept c' → c'.face = c.face → c'.GoesOn b →
      settlement ≠ .barrierStateSet → settlement ≠ .commitSettled .committed →
        Settles c settlement c'
  | overtaken {c' : Coordinator} (b : String) (complete : ReconciliationRequest) :
      c.running = some (.barrierCommitting b complete) → (c.face b).epoch ≠ complete.sourceEpoch →
        c.Kept c' →
      c'.face = Function.update c.face b { c.face b with persisted := false } → c'.GoesOn b →
      Settles c (.commitSettled .committed) c'
  | closes {c' : Coordinator} (b : String) (complete : ReconciliationRequest) :
      c.running = some (.barrierCommitting b complete) → (c.face b).epoch = complete.sourceEpoch →
        c.Kept c' →
      c'.face = Function.update c.face b ⟨false, .current, true, (c.face b).epoch⟩ →
        c'.running = none →
      Settles c (.commitSettled .committed) c'
  | degraded {c' : Coordinator} (b : String) : c.running = some (.barrierDegrading b) → c.Kept c' →
      c'.face = Function.update c.face b { c.face b with persisted := true } → c'.running = none →
      Settles c .barrierStateSet c'
  | undegraded {settlement : Settlement} {c' : Coordinator} (b : String) :
      c.running = some (.barrierDegrading b) → c.Kept c' →
      c'.face = Function.update c.face b { c.face b with persisted := false } → c'.running = none →
      settlement ≠ .barrierStateSet → Settles c settlement c'

theorem kept_failReconcile (c : Coordinator) (b : String) (hints : List WatcherHint)
    (error : EngineError) :
    c.Kept (c.failReconcile b hints error) :=
  (kept_restorePrefix c b hints).trans (kept_same rfl rfl rfl rfl rfl)

theorem settles_reconcileSettled {c : Coordinator} {b : String} {request : ReconciliationRequest}
    {result : ReconciliationResult} (hrunning : c.running = some (.reconciling b request)) :
    c.Settles (.reconciled result) (c.reconcileSettled b request result) := by
  have hplain : ∀ c' : Coordinator, c.Kept c' → c'.face = c.face →
      (c'.running = none ∨ c'.running = some (.committing b request)) →
        c.Settles (.reconciled result) c' :=
    fun c' hkept hface hnext => .plain b request (.inl hrunning) hkept hface hnext nofun
  unfold reconcileSettled
  split
  · exact hplain _ ((kept_restorePrefix c b _).trans (kept_finish _))
      (face_restorePrefix c b _) (.inl rfl)
  · split
    · exact hplain _ (kept_failReconcile c b _ _) (face_failReconcile c b _ _) (.inl rfl)
    · split
      · exact hplain _ (kept_failReconcile c b _ _) (face_failReconcile c b _ _) (.inl rfl)
      · exact hplain _ (kept_await c _) rfl (.inr rfl)

theorem fails_restored {c : Coordinator} (b : String) (hints : List WatcherHint) :
    c.Kept ((c.restorePrefix b hints).barrierFailed b) ∧
      c.Fails ((c.restorePrefix b hints).barrierFailed b) b := by
  obtain ⟨hkept, hfails⟩ := barrierFailed_spec (c.restorePrefix b hints) b
  rw [Fails, face_restorePrefix] at hfails
  exact ⟨(kept_restorePrefix c b hints).trans hkept, hfails⟩

theorem goesOn_restored {c : Coordinator} (b : String) (hints : List WatcherHint) :
    c.Kept ((c.restorePrefix b hints).runSourceBarrier b) ∧
      ((c.restorePrefix b hints).runSourceBarrier b).face = c.face ∧
      ((c.restorePrefix b hints).runSourceBarrier b).GoesOn b := by
  obtain ⟨hkept, hface, hgoes⟩ := runSourceBarrier_spec (c.restorePrefix b hints) b
  exact ⟨(kept_restorePrefix c b hints).trans hkept, hface.trans (face_restorePrefix c b hints),
    hgoes⟩

theorem settles_barrierCaptured {c : Coordinator} {b : String} {complete : ReconciliationRequest}
    {result : ReconciliationResult} (hrunning : c.running = some (.barrierComplete b complete)) :
    c.Settles (.reconciled result) (c.barrierCaptured b complete result) := by
  have hcapturing : c.Capturing b complete := .inr (.inl hrunning)
  obtain ⟨hfailKept, hfails⟩ := fails_restored (c := c) b complete.hints
  obtain ⟨hkept, hface, hgoes⟩ := goesOn_restored (c := c) b complete.hints
  unfold barrierCaptured
  split
  · exact .failed b (.inr ⟨complete, hcapturing⟩) hfailKept hfails nofun nofun
  · split
    · exact .reruns b complete hcapturing hkept hface hgoes nofun nofun
    · split
      · exact .failed b (.inr ⟨complete, hcapturing⟩) hfailKept hfails nofun nofun
      · exact .offers b complete hrunning (kept_await c _) rfl rfl nofun

theorem settles_barrierCommitted {c : Coordinator} {b : String} {complete : ReconciliationRequest}
    (hrunning : c.running = some (.barrierCommitting b complete)) :
    c.Settles (.commitSettled .committed) (c.barrierCommitted b complete) := by
  unfold barrierCommitted
  dsimp only
  split
  case isTrue hepoch =>
    obtain ⟨hkept, hface, hgoes⟩ :=
      runSourceBarrier_spec ((c.recordCommit b complete).setPersisted b false) b
    refine .overtaken b complete hrunning hepoch ?_ ?_ hgoes
    · exact ((kept_recordCommit c b complete).trans (kept_setPersisted _ b false)).trans hkept
    · rw [hface]
      exact face_setPersisted _ b false
  case isFalse hepoch =>
    have hsame : (c.face b).epoch = complete.sourceEpoch := not_not.mp hepoch
    obtain ⟨hkept, hface, hgoes⟩ := runSourceBarrier_spec ((c.recordCommit b complete).setState b
      { (c.recordCommit b complete).states b with
        barrierOpen := false, barrierState := .current, barrierAttempts :=
          0, barrierErrorCode := none,
        barrierStatePersisted := true }) b
    have hclosed : ((c.recordCommit b complete).setState b
      { (c.recordCommit b complete).states b with
        barrierOpen := false, barrierState := .current, barrierAttempts :=
          0, barrierErrorCode := none,
        barrierStatePersisted := true }).face =
          Function.update c.face b ⟨false, .current, true, (c.face b).epoch⟩ :=
      face_setState _ b _
    refine .closes b complete hrunning hsame ?_ ?_ ?_
    · refine (kept_recordCommit c b complete).trans (Kept.trans ?_ hkept)
      exact kept_setState _ b _ (.inl rfl) (.inl rfl)
    · exact hface.trans hclosed
    · have hshut : ¬ Runs (runSourceBarrier ((c.recordCommit b complete).setState b
          { (c.recordCommit b complete).states b with
            barrierOpen := false, barrierState := .current, barrierAttempts :=
              0, barrierErrorCode := none,
            barrierStatePersisted := true }) b) b := by
        rintro ⟨hopen, -, -⟩
        rw [hface, hclosed, Function.update_self] at hopen
        cases hopen
      rcases hgoes with ⟨-, hnone⟩ | ⟨hruns, -⟩ | ⟨hruns, -⟩
      · exact hnone
      · exact absurd hruns hshut
      · exact absurd hruns hshut

theorem settles {w : World} {settlement : Settlement} (h : w.answers settlement = true) :
    w.coordinator.Settles settlement (w.coordinator.settle settlement) := by
  generalize hc : w.coordinator = c
  unfold World.answers at h
  rw [hc] at h
  unfold settle
  split at h
  case h_1 b request result hrunning =>
    rw [hrunning]
    exact settles_reconcileSettled hrunning
  case h_2 b request error hrunning =>
    rw [hrunning]
    exact .plain b request (.inl hrunning) (kept_failReconcile c b _ _) (face_failReconcile c b _ _)
      (.inl rfl) nofun
  case h_3 b complete result hrunning =>
    rw [hrunning]
    exact .advances b complete hrunning (kept_callReconcile c _ _) rfl rfl nofun
  case h_4 b complete error hrunning =>
    rw [hrunning]
    obtain ⟨hkept, hfails⟩ := fails_restored (c := c) b complete.hints
    exact .failed b (.inr ⟨complete, .inl hrunning⟩) hkept hfails nofun nofun
  case h_5 b complete result hrunning =>
    rw [hrunning]
    exact settles_barrierCaptured hrunning
  case h_6 b complete error hrunning =>
    rw [hrunning]
    obtain ⟨hkept, hfails⟩ := fails_restored (c := c) b complete.hints
    exact .failed b (.inr ⟨complete, .inr (.inl hrunning)⟩) hkept hfails nofun nofun
  case h_7 b request hrunning =>
    rw [hrunning]
    exact .plain b request (.inr hrunning) ((kept_recordCommit c b _).trans (kept_finish _)) rfl
      (.inl rfl) nofun
  case h_8 b request hrunning =>
    rw [hrunning]
    exact .plain b request (.inr hrunning) ((kept_restorePrefix c b _).trans (kept_finish _))
      (face_restorePrefix c b _)
      (.inl rfl) nofun
  case h_9 b request error hrunning =>
    rw [hrunning]
    exact .plain b request (.inr hrunning) (kept_failReconcile c b _ _) (face_failReconcile c b _ _)
      (.inl rfl) nofun
  case h_10 b complete hrunning =>
    rw [hrunning]
    exact settles_barrierCommitted hrunning
  case h_11 b complete hrunning =>
    rw [hrunning]
    obtain ⟨hkept, hface, hgoes⟩ := goesOn_restored (c := c) b complete.hints
    exact .reruns b complete (.inr (.inr hrunning)) hkept hface hgoes nofun nofun
  case h_12 b complete error hrunning =>
    rw [hrunning]
    obtain ⟨hkept, hfails⟩ := fails_restored (c := c) b complete.hints
    exact .failed b (.inr ⟨complete, .inr (.inr hrunning)⟩) hkept hfails nofun nofun
  case h_13 b hrunning =>
    rw [hrunning]
    refine .persisted b hrunning ((kept_setPersisted c b true).trans (kept_captureBarrier _ b)) ?_
      (captures_captureBarrier _ b)
    exact (face_captureBarrier _ b).trans (face_setPersisted c b true)
  case h_14 b error hrunning =>
    rw [hrunning]
    obtain ⟨hkept, hfails⟩ := barrierFailed_spec c b
    exact .failed b (.inl hrunning) hkept hfails nofun nofun
  case h_15 b hrunning =>
    rw [hrunning]
    exact .degraded b hrunning ((kept_setPersisted c b true).trans (kept_finish _))
      (face_setPersisted c b true) rfl
  case h_16 b error hrunning =>
    rw [hrunning]
    refine .undegraded b hrunning (Kept.trans ?_ (kept_finish _)) ?_ rfl nofun
    · exact kept_setState c b _ (.inl rfl) (.inl rfl)
    · exact face_setState c b _
  case h_17 => cases h

inductive Starts (c : Coordinator) : Coordinator → Prop
  | idle : Starts c c
  | reconcile {c' : Coordinator} (operation : Operation) (rest : List Operation) :
      c.running = none →
      c.queue = operation :: rest → (∀ b, operation ≠ .runSourceBarrier b) →
        ({ c with queue := rest } : Coordinator).Kept c' →
      c'.face = c.face → c'.running = none ∨
        (∃ b request, c'.running = some (.reconciling b request)) → Starts c c'
  | barrier {c' : Coordinator} (b : String) (rest : List Operation) : c.running = none →
      c.queue = .runSourceBarrier b :: rest → ({ c with queue := rest } : Coordinator).Kept c' →
      c'.face = c.face → c'.GoesOn b → Starts c c'

theorem starts_queueStep (c : Coordinator) : c.Starts c.queueStep := by
  unfold queueStep
  split
  case h_1 operation rest hrunning hqueue =>
    cases operation with
    | reconcile b kind trigger sourceBarrier hints sourceEpoch =>
      unfold perform reconcile
      dsimp only
      split
      · refine .reconcile _ rest hrunning hqueue nofun ?_ (face_restorePrefix _ b hints) (.inl rfl)
        exact (kept_restorePrefix _ b hints).trans (kept_finish _)
      · exact .reconcile _ rest hrunning hqueue nofun (kept_callReconcile _ _ _) rfl
          (.inr ⟨b, _, rfl⟩)
    | runSourceBarrier b =>
      obtain ⟨hkept, hface, hgoes⟩ := runSourceBarrier_spec { c with queue := rest } b
      exact .barrier b rest hrunning hqueue hkept hface hgoes
  case h_2 => exact .idle

theorem outside_attempt {c c' : Coordinator} {b : String} (h : c.Outside c') :
    c.Outside (c.attempt (do c.knows b; pure c')) := by
  unfold attempt
  cases c.knows b with
  | error e => exact .refl c
  | ok u => exact h

theorem step_cases (c : Coordinator) {event : Event}
    (hsettle : ∀ settlement, event ≠ .settle settlement) :
    c.Outside (c.step event) ∨ c.Starts (c.step event) := by
  cases event with
  | accept now batch =>
    left
    change c.Outside (c.attempt (c.accept now batch))
    cases haccept : c.accept now batch with
    | error e => exact .refl c
    | ok c' => exact (outside_accept haccept).1
  | providerRestarted b => exact .inl (outside_attempt (outside_completeNow c b _ _))
  | recover b => exact .inl (outside_attempt (outside_completeNow c b _ _))
  | resume b => exact .inl (outside_attempt (outside_completeNow c b _ _))
  | requestFreshness b proves =>
    left
    cases proves with
    | false => exact outside_attempt (outside_completeNow c b _ _)
    | true => exact outside_attempt (outside_queueFlush c b _ _ _)
  | expire handle =>
    left
    unfold step
    dsimp only
    split
    case h_1 timer htimer => exact outside_expire (List.mem_of_find?_eq_some htimer)
    case h_2 => exact .refl c
  | queueStep => exact .inr (starts_queueStep c)
  | settle settlement => exact absurd rfl (hsettle settlement)
  | close => exact .inl (outside_close c)

end Coordinator

end Engine
