import Urdira.Engine.BarrierSteps

open ExceptOk

namespace Engine

namespace Coordinator

structure Captured (face : Face) (complete : ReconciliationRequest) : Prop where
  isOpen : face.isOpen = true
  state : face.state = .stale
  persisted : face.persisted = true
  kind : complete.kind = .complete
  epoch : complete.sourceEpoch ≤ face.epoch

def Busy (c : Coordinator) (b : String) : Prop :=
  c.running = some (.barrierPersisting b) ∨ ∃ complete, c.Capturing b complete

def Attended (c : Coordinator) (b : String) : Prop :=
  (c.face b).isOpen = true → (c.face b).state = .stale → c.closed = false →
    .runSourceBarrier b ∈ c.queue ∨ c.Busy b ∨ c.Armed b

structure Sound (c : Coordinator) : Prop where
  timers : c.TimersOk
  shape : ∀ b, (c.face b).isOpen = true ∧ (c.face b).state ≠ .current ∨
    (c.face b).isOpen = false ∧ (c.face b).state = .current
  persisting : ∀ b, c.running = some (.barrierPersisting b) →
    (c.face b).isOpen = true ∧ (c.face b).state = .stale ∧ (c.face b).persisted = false
  capturing : ∀ b complete, c.Capturing b complete → Captured (c.face b) complete
  degrading : ∀ b, c.running = some (.barrierDegrading b) →
    (c.face b).isOpen = true ∧ ((c.face b).state = .degraded ∨ (c.face b).state = .stale ∧
      (c.face b).persisted = false)
  attended : ∀ b, c.Attended b

theorem Outside.face_stale {c c' : Coordinator} (h : c.Outside c') {b : String}
    (hopen : (c.face b).isOpen = true)
    (hstale : (c.face b).state = .stale) :
    c'.face b = { c.face b with epoch := (c'.face b).epoch } := by
  rcases h.face b with hsame | ⟨-, -, hclosed | hdegraded⟩
  · exact hsame
  · rw [hopen] at hclosed
    cases hclosed
  · rw [hstale] at hdegraded
    cases hdegraded

theorem Captured.later {face : Face} {complete : ReconciliationRequest} (h : Captured face complete)
    {epoch : ℕ}
    (hepoch : face.epoch ≤ epoch) : Captured { face with epoch := epoch } complete :=
  ⟨h.isOpen, h.state, h.persisted, h.kind, Nat.le_trans h.epoch hepoch⟩

theorem capturing_congr {c c' : Coordinator} (h : c'.running = c.running) (b : String)
    (complete : ReconciliationRequest) : c'.Capturing b complete ↔ c.Capturing b complete := by
  rw [Capturing, Capturing, h]

theorem busy_congr {c c' : Coordinator} (h : c'.running = c.running) (b : String) :
    c'.Busy b ↔ c.Busy b := by
  rw [Busy, Busy, h]
  exact or_congr_right (exists_congr (capturing_congr h b))

theorem Sound.outside {c c' : Coordinator} (h : c.Sound) (hmove : c.Outside c') : c'.Sound where
  timers := hmove.timers h.timers
  shape := by
    intro b
    rcases hmove.face b with hsame | ⟨hopened, -, -⟩
    · rw [hsame]
      exact h.shape b
    · rw [hopened]
      exact .inl ⟨rfl, nofun⟩
  persisting := by
    intro b hrunning
    rw [hmove.running] at hrunning
    obtain ⟨hopen, hstale, hpersisted⟩ := h.persisting b hrunning
    rw [hmove.face_stale hopen hstale]
    exact ⟨hopen, hstale, hpersisted⟩
  capturing := by
    intro b complete hcapturing
    have hcaptured :=
      h.capturing b complete ((capturing_congr hmove.running b complete).mp hcapturing)
    rw [hmove.face_stale hcaptured.isOpen hcaptured.state]
    exact hcaptured.later (hmove.epoch b)
  degrading := by
    intro b hrunning
    rw [hmove.running] at hrunning
    rcases hmove.face b with hsame | ⟨hopened, -, -⟩
    · rw [hsame]
      exact h.degrading b hrunning
    · rw [hopened]
      exact ⟨rfl, .inr ⟨rfl, rfl⟩⟩
  attended := by
    intro b hopen hstale hclosed
    rcases hmove.face b with hsame | ⟨-, hqueued, -⟩
    · rw [hsame] at hopen hstale
      have hbefore : c.closed = false := by
        by_contra htrue
        rw [hmove.closed (Bool.not_eq_false _ ▸ htrue)] at hclosed
        cases hclosed
      rcases h.attended b hopen hstale hbefore with hqueued | hbusy | harmed
      · exact .inl (hmove.queue _ hqueued)
      · exact .inr (.inl ((busy_congr hmove.running b).mpr hbusy))
      · rcases hmove.armed h.timers b harmed with harmed | hqueued | htrue
        · exact .inr (.inr harmed)
        · exact .inl hqueued
        · rw [htrue] at hclosed
          cases hclosed
    · exact .inl hqueued

theorem Attended.kept {c c' : Coordinator} {b : String} (hok : c.TimersOk) (h : c.Attended b)
    (hkept : c.Kept c')
    (hopen : (c'.face b).isOpen = (c.face b).isOpen) (hstate : (c'.face b).state = (c.face b).state)
    (hidle : ¬ c.Busy b) : c'.Attended b := by
  intro hopen' hstale' hclosed'
  rw [hopen] at hopen'
  rw [hstate] at hstale'
  rw [hkept.closed] at hclosed'
  rcases h hopen' hstale' hclosed' with hqueued | hbusy | harmed
  · rw [hkept.queue]
    exact .inl hqueued
  · exact absurd hbusy hidle
  · exact .inr (.inr ((hkept.timers hok).2 b harmed))

theorem Captures.busy {c : Coordinator} {b : String} (h : c.Captures b) : c.Busy b := by
  obtain ⟨complete, hrunning, -⟩ := h
  exact .inr ⟨complete, .inl hrunning⟩

theorem GoesOn.attended {c : Coordinator} {b : String} (h : c.GoesOn b) : c.Attended b := by
  intro hopen hstale hclosed
  have hruns : c.Runs b := by
    refine ⟨hopen, ?_, hclosed⟩
    rw [hstale]
    nofun
  rcases h with ⟨hstopped, -⟩ | ⟨-, -, hrunning⟩ | ⟨-, -, hcaptures⟩
  · exact absurd hruns hstopped
  · exact .inr (.inl (.inl hrunning))
  · exact .inr (.inl hcaptures.busy)

def OnlyFor (c : Coordinator) (b : String) : Prop :=
  (∀ x, c.running = some (.barrierPersisting x) → x = b) ∧
    (∀ x complete, c.Capturing x complete → x = b) ∧
    ∀ x, c.running = some (.barrierDegrading x) → x = b

theorem OnlyFor.busy {c : Coordinator} {b x : String} (h : c.OnlyFor b) (hbusy : c.Busy x) :
    x = b := by
  rcases hbusy with hrunning | ⟨complete, hcapturing⟩
  · exact h.1 x hrunning
  · exact h.2.1 x complete hcapturing

theorem onlyFor_persisting {c : Coordinator} {b : String}
    (h : c.running = some (.barrierPersisting b)) : c.OnlyFor b := by
  refine ⟨fun x hx => ?_, fun x complete hx => ?_, fun x hx => ?_⟩
  · rw [h] at hx
    exact (Running.barrierPersisting.inj (Option.some.inj hx)).symm
  · rw [Capturing, h] at hx
    rcases hx with hx | hx | hx <;> cases hx
  · rw [h] at hx
    cases hx

theorem onlyFor_capturing {c : Coordinator} {b : String} {complete : ReconciliationRequest}
    (h : c.Capturing b complete) : c.OnlyFor b := by
  refine ⟨fun x hx => ?_, fun x other hx => ?_, fun x hx => ?_⟩
  · rw [Capturing, hx] at h
    rcases h with h | h | h <;> cases h
  · rcases h with h | h | h <;> rw [Capturing, h] at hx <;> rcases hx with hx | hx | hx <;>
      cases hx <;> rfl
  · rw [Capturing, hx] at h
    rcases h with h | h | h <;> cases h

theorem onlyFor_degrading {c : Coordinator} {b : String}
    (h : c.running = some (.barrierDegrading b)) : c.OnlyFor b := by
  refine ⟨fun x hx => ?_, fun x complete hx => ?_, fun x hx => ?_⟩
  · rw [h] at hx
    cases hx
  · rw [Capturing, h] at hx
    rcases hx with hx | hx | hx <;> cases hx
  · rw [h] at hx
    exact (Running.barrierDegrading.inj (Option.some.inj hx)).symm

theorem Face.stale_of_open {face : Face}
    (hshape : face.isOpen = true ∧ face.state ≠ .current ∨ face.isOpen = false ∧
      face.state = .current)
    (hopen : face.isOpen = true) (hdegraded : face.state ≠ .degraded) : face.state = .stale := by
  rcases hshape with ⟨-, hcurrent⟩ | ⟨hclosed, -⟩
  · cases hstate : face.state with
    | stale => rfl
    | current => exact absurd hstate hcurrent
    | degraded => exact absurd hstate hdegraded
  · rw [hopen] at hclosed
    cases hclosed

structure SoundAt (c : Coordinator) (b : String) : Prop where
  only : c.OnlyFor b
  shape : (c.face b).isOpen = true ∧ (c.face b).state ≠ .current ∨
    (c.face b).isOpen = false ∧ (c.face b).state = .current
  persisting : c.running = some (.barrierPersisting b) →
    (c.face b).isOpen = true ∧ (c.face b).state = .stale ∧ (c.face b).persisted = false
  capturing : ∀ complete, c.Capturing b complete → Captured (c.face b) complete
  degrading : c.running = some (.barrierDegrading b) →
    (c.face b).isOpen = true ∧ ((c.face b).state = .degraded ∨ (c.face b).state = .stale ∧
      (c.face b).persisted = false)
  attended : c.Attended b

theorem Sound.replace {c c' : Coordinator} {b : String} (h : c.Sound) (htimers : c'.TimersOk)
    (hother : ∀ x, x ≠ b → c'.face x = c.face x) (hattended : ∀ x, x ≠ b → c'.Attended x)
    (hat : c'.SoundAt b) :
    c'.Sound where
  timers := htimers
  shape := by
    intro x
    by_cases hx : x = b
    · exact hx ▸ hat.shape
    · rw [hother x hx]
      exact h.shape x
  persisting := by
    intro x hrunning
    obtain rfl := hat.only.1 x hrunning
    exact hat.persisting hrunning
  capturing := by
    intro x complete hcapturing
    obtain rfl := hat.only.2.1 x complete hcapturing
    exact hat.capturing complete hcapturing
  degrading := by
    intro x hrunning
    obtain rfl := hat.only.2.2 x hrunning
    exact hat.degrading hrunning
  attended := by
    intro x
    by_cases hx : x = b
    · exact hx ▸ hat.attended
    · exact hattended x hx

theorem Sound.inside {c c' : Coordinator} {b : String} (h : c.Sound) (honly : c.OnlyFor b)
    (hkept : c.Kept c')
    (hother : ∀ x, x ≠ b → c'.face x = c.face x) (hat : c'.SoundAt b) : c'.Sound := by
  refine h.replace (hkept.timers h.timers).1 hother (fun x hx => ?_) hat
  refine (h.attended x).kept h.timers hkept ?_ ?_ (fun hbusy => hx (honly.busy hbusy))
  · rw [hother x hx]
  · rw [hother x hx]

theorem soundAt_idle {c : Coordinator} {b : String} (hnone : ∀ x, ¬ c.Busy x)
    (hdegrading : ∀ x, c.running ≠ some (.barrierDegrading x))
    (hshape : (c.face b).isOpen = true ∧ (c.face b).state ≠ .current ∨
      (c.face b).isOpen = false ∧ (c.face b).state = .current) (hattended : c.Attended b) :
        c.SoundAt b where
  only :=
    ⟨fun x hx => absurd (.inl hx) (hnone x), fun x complete hx =>
      absurd (.inr ⟨complete, hx⟩) (hnone x),
    fun x hx => absurd hx (hdegrading x)⟩
  shape := hshape
  persisting := fun hx => absurd (.inl hx) (hnone b)
  capturing := fun complete hx => absurd (.inr ⟨complete, hx⟩) (hnone b)
  degrading := fun hx => absurd hx (hdegrading b)
  attended := hattended

theorem not_busy_of_none {c : Coordinator} (h : c.running = none) (b : String) : ¬ c.Busy b := by
  rw [Busy, h]
  rintro (hrunning | ⟨complete, hcapturing⟩)
  · cases hrunning
  · rw [Capturing, h] at hcapturing
    rcases hcapturing with hrunning | hrunning | hrunning <;> cases hrunning

theorem Capturing.unique {c : Coordinator} {b : String} {complete other : ReconciliationRequest}
    (h : c.Capturing b complete) (hother : c.Capturing b other) : other = complete := by
  rcases h with h | h | h <;> rw [Capturing, h] at hother <;>
    rcases hother with hother | hother | hother <;>
    cases hother <;> rfl

theorem Capturing.soundAt {c : Coordinator} {b : String} {complete : ReconciliationRequest}
    (h : c.Capturing b complete) (hcaptured : Captured (c.face b) complete) : c.SoundAt b where
  only := onlyFor_capturing h
  shape := .inl ⟨hcaptured.isOpen, by rw [hcaptured.state]; nofun⟩
  persisting := by
    intro hother
    rw [Capturing, hother] at h
    rcases h with h | h | h <;> cases h
  capturing := by
    intro other hother
    rw [h.unique hother]
    exact hcaptured
  degrading := by
    intro hother
    rw [Capturing, hother] at h
    rcases h with h | h | h <;> cases h
  attended := fun _ _ _ => .inr (.inl (.inr ⟨complete, h⟩))

theorem Captures.soundAt {c : Coordinator} {b : String} (h : c.Captures b)
    (hopen : (c.face b).isOpen = true)
    (hstale : (c.face b).state = .stale) (hpersisted : (c.face b).persisted = true) :
    c.SoundAt b := by
  obtain ⟨complete, hrunning, hkind, hepoch⟩ := h
  exact Capturing.soundAt (.inl hrunning) ⟨hopen, hstale, hpersisted, hkind, Nat.le_of_eq hepoch⟩

theorem GoesOn.soundAt {c : Coordinator} {b : String} (h : c.GoesOn b)
    (hshape : (c.face b).isOpen = true ∧ (c.face b).state ≠ .current ∨
      (c.face b).isOpen = false ∧ (c.face b).state = .current) : c.SoundAt b := by
  have hstale : c.Runs b → (c.face b).state = .stale :=
    fun hruns => Face.stale_of_open hshape hruns.1 hruns.2.1
  rcases h with ⟨hstopped, hrunning⟩ | ⟨hruns, hpersisted, hrunning⟩ | ⟨hruns,
    hpersisted, hcaptures⟩
  · refine soundAt_idle (not_busy_of_none hrunning) (fun x hx => ?_) hshape
      (GoesOn.attended (.inl ⟨hstopped, hrunning⟩))
    rw [hrunning] at hx
    cases hx
  · refine ⟨onlyFor_persisting hrunning, hshape, fun _ => ⟨hruns.1, hstale hruns, hpersisted⟩, ?_,
      ?_,
      GoesOn.attended (.inr (.inl ⟨hruns, hpersisted, hrunning⟩))⟩
    · intro complete hcapturing
      rw [Capturing, hrunning] at hcapturing
      rcases hcapturing with hother | hother | hother <;> cases hother
    · intro hother
      rw [hrunning] at hother
      cases hother
  · exact hcaptures.soundAt hruns.1 (hstale hruns) hpersisted

theorem Fails.soundAt {c c' : Coordinator} {b : String} (h : c.Fails c' b)
    (hopen : (c.face b).isOpen = true)
    (hcurrent : (c.face b).state ≠ .current) : c'.SoundAt b := by
  rcases h with ⟨hface, hrunning⟩ | ⟨hface, hrunning, harmed⟩
  · have hdegraded : c'.face b = { c.face b with state := .degraded } := by
      rw [hface, Function.update_self]
    refine ⟨onlyFor_degrading hrunning, .inl ?_, ?_, ?_, fun _ => ?_, ?_⟩
    · rw [hdegraded]
      exact ⟨hopen, nofun⟩
    · intro hother
      rw [hrunning] at hother
      cases hother
    · intro complete hcapturing
      rw [Capturing, hrunning] at hcapturing
      rcases hcapturing with hother | hother | hother <;> cases hother
    · rw [hdegraded]
      exact ⟨hopen, .inl rfl⟩
    · intro _ hstale
      rw [hdegraded] at hstale
      cases hstale
  · refine soundAt_idle (not_busy_of_none hrunning) (fun x hx => ?_) ?_
      (fun _ _ _ => .inr (.inr harmed))
    · rw [hrunning] at hx
      cases hx
    · rw [hface]
      exact .inl ⟨hopen, hcurrent⟩

theorem Fails.other {c c' : Coordinator} {b : String} (h : c.Fails c' b) {x : String} (hx : x ≠ b) :
    c'.face x = c.face x := by
  rcases h with ⟨hface, -⟩ | ⟨hface, -, -⟩
  · rw [hface, Function.update_of_ne hx]
  · rw [hface]

theorem Sound.afterDegrading {c c' : Coordinator} {b : String} (h : c.Sound)
    (hrunning : c.running = some (.barrierDegrading b)) (hkept : c.Kept c') (persisted : Bool)
    (hface : c'.face = Function.update c.face b { c.face b with persisted := persisted })
    (hnext : c'.running = none) :
    c'.Sound := by
  have hself : c'.face b = { c.face b with persisted := persisted } := by
    rw [hface, Function.update_self]
  have hbusy : ¬ c.Busy b := by
    rw [Busy, hrunning]
    rintro (hother | ⟨complete, hcapturing⟩)
    · cases hother
    · rw [Capturing, hrunning] at hcapturing
      rcases hcapturing with hother | hother | hother <;> cases hother
  refine h.inside (onlyFor_degrading hrunning) hkept
    (fun x hx => by rw [hface, Function.update_of_ne hx])
    (soundAt_idle (not_busy_of_none hnext) (fun x hx => ?_) ?_ ?_)
  · rw [hnext] at hx
    cases hx
  · rw [hself]
    exact h.shape b
  · refine (h.attended b).kept h.timers hkept ?_ ?_ hbusy
    · rw [hself]
    · rw [hself]

theorem Sound.settled {c c' : Coordinator} {settlement : Settlement} (h : c.Sound)
    (hsettles : c.Settles settlement c') :
    c'.Sound := by
  cases hsettles with
  | plain b request hrunning hkept hface hnext hset =>
    have hbusy : ∀ x, ¬ c.Busy x := by
      intro x
      rw [Busy]
      rintro (hother | ⟨complete, hcapturing⟩)
      · rcases hrunning with hrunning | hrunning <;> rw [hrunning] at hother <;> cases hother
      · rcases hrunning with hrunning | hrunning <;> rw [Capturing, hrunning] at hcapturing <;>
          rcases hcapturing with hother | hother | hother <;> cases hother
    have hbusy' : ∀ x, ¬ c'.Busy x := by
      intro x
      rw [Busy]
      rintro (hother | ⟨complete, hcapturing⟩)
      · rcases hnext with hnext | hnext <;> rw [hnext] at hother <;> cases hother
      · rcases hnext with hnext | hnext <;> rw [Capturing, hnext] at hcapturing <;>
          rcases hcapturing with hother | hother | hother <;> cases hother
    have hdegrading : ∀ x, c.running ≠ some (.barrierDegrading x) := by
      intro x hother
      rcases hrunning with hrunning | hrunning <;> rw [hrunning] at hother <;> cases hother
    have hdegrading' : ∀ x, c'.running ≠ some (.barrierDegrading x) := by
      intro x hother
      rcases hnext with hnext | hnext <;> rw [hnext] at hother <;> cases hother
    have honly : c.OnlyFor b := (soundAt_idle hbusy hdegrading (h.shape b) (h.attended b)).only
    refine h.inside honly hkept (fun x _ => by rw [hface]) (soundAt_idle hbusy' hdegrading' ?_ ?_)
    · rw [hface]
      exact h.shape b
    · refine (h.attended b).kept h.timers hkept ?_ ?_ (hbusy b)
      · rw [hface]
      · rw [hface]
  | persisted b hrunning hkept hface hcaptures =>
    obtain ⟨hopen, hstale, -⟩ := h.persisting b hrunning
    have hself : c'.face b = { c.face b with persisted := true } := by
      rw [hface, Function.update_self]
    refine h.inside (onlyFor_persisting hrunning) hkept
      (fun x hx => by rw [hface, Function.update_of_ne hx]) ?_
    refine hcaptures.soundAt ?_ ?_ ?_
    · rw [hself]
      exact hopen
    · rw [hself]
      exact hstale
    · rw [hself]
  | failed b hrunning hkept hfails hset hcommitted =>
    have hface : c.OnlyFor b ∧ (c.face b).isOpen = true ∧ (c.face b).state = .stale := by
      rcases hrunning with hrunning | ⟨complete, hcapturing⟩
      · obtain ⟨hopen, hstale, -⟩ := h.persisting b hrunning
        exact ⟨onlyFor_persisting hrunning, hopen, hstale⟩
      · have hcaptured := h.capturing b complete hcapturing
        exact ⟨onlyFor_capturing hcapturing, hcaptured.isOpen, hcaptured.state⟩
    obtain ⟨honly, hopen, hstale⟩ := hface
    refine h.inside honly hkept (fun x hx => hfails.other hx) (hfails.soundAt hopen ?_)
    rw [hstale]
    nofun
  | advances b complete hrunning hkept hface hnext hset =>
    refine h.inside (onlyFor_capturing (.inl hrunning)) hkept (fun x _ => by rw [hface]) ?_
    refine Capturing.soundAt (.inr (.inl hnext)) ?_
    rw [hface]
    exact h.capturing b complete (.inl hrunning)
  | offers b complete hrunning hkept hface hnext hset =>
    refine h.inside (onlyFor_capturing (.inr (.inl hrunning))) hkept (fun x _ => by rw [hface]) ?_
    refine Capturing.soundAt (.inr (.inr hnext)) ?_
    rw [hface]
    exact h.capturing b complete (.inr (.inl hrunning))
  | reruns b complete hcapturing hkept hface hgoes hset hcommitted =>
    refine h.inside (onlyFor_capturing hcapturing) hkept
      (fun x _ => by rw [hface]) (hgoes.soundAt ?_)
    rw [hface]
    exact h.shape b
  | overtaken b complete hrunning hepoch hkept hface hgoes =>
    refine h.inside (onlyFor_capturing (.inr (.inr hrunning))) hkept
      (fun x hx => by rw [hface, Function.update_of_ne hx]) (hgoes.soundAt ?_)
    rw [hface, Function.update_self]
    exact h.shape b
  | closes b complete hrunning hepoch hkept hface hnext =>
    have hself : c'.face b = ⟨false, .current, true, (c.face b).epoch⟩ := by
      rw [hface, Function.update_self]
    refine h.inside (onlyFor_capturing (.inr (.inr hrunning))) hkept
      (fun x hx => by rw [hface, Function.update_of_ne hx]) (soundAt_idle (not_busy_of_none hnext)
        (fun x hx => ?_) ?_ ?_)
    · rw [hnext] at hx
      cases hx
    · rw [hself]
      exact .inr ⟨rfl, rfl⟩
    · intro hopen
      rw [hself] at hopen
      cases hopen
  | degraded b hrunning hkept hface hnext => exact h.afterDegrading hrunning hkept true hface hnext
  | undegraded b hrunning hkept hface hnext hset =>
      exact h.afterDegrading hrunning hkept false hface hnext

theorem Attended.started {c c' : Coordinator} {x : String} {operation : Operation}
    {rest : List Operation}
    (hok : c.TimersOk) (h : c.Attended x) (hrunning : c.running = none)
    (hqueue : c.queue = operation :: rest)
    (hne : operation ≠ .runSourceBarrier x)
    (hkept : ({ c with queue := rest } : Coordinator).Kept c')
    (hface : c'.face = c.face) : c'.Attended x := by
  intro hopen hstale hclosed
  rw [hface] at hopen hstale
  rw [hkept.closed] at hclosed
  have hrest : ({ c with queue := rest } : Coordinator).TimersOk :=
    ⟨hok.bounded, hok.nodup, hok.quiet, hok.maximum⟩
  rcases h hopen hstale hclosed with hqueued | hbusy | harmed
  · rw [hqueue] at hqueued
    rcases List.mem_cons.mp hqueued with hsame | hmem
    · exact absurd hsame.symm hne
    · left
      rw [hkept.queue]
      exact hmem
  · exact absurd hbusy (not_busy_of_none hrunning x)
  · exact .inr (.inr ((hkept.timers hrest).2 x harmed))

theorem Sound.started {c c' : Coordinator} (h : c.Sound) (hstarts : c.Starts c') : c'.Sound := by
  have hrest : ∀ rest : List Operation, ({ c with queue := rest } : Coordinator).TimersOk :=
    fun _ => ⟨h.timers.bounded, h.timers.nodup, h.timers.quiet, h.timers.maximum⟩
  cases hstarts with
  | idle => exact h
  | reconcile operation rest hrunning hqueue hne hkept hface hnext =>
    have hattended : ∀ x, c'.Attended x :=
      fun x => (h.attended x).started h.timers hrunning hqueue (hne x) hkept hface
    have hbusy : ∀ x, ¬ c'.Busy x := by
      intro x
      rw [Busy]
      rintro (hother | ⟨complete, hcapturing⟩)
      · rcases hnext with hnext | ⟨b, request, hnext⟩ <;> rw [hnext] at hother <;> cases hother
      · rcases hnext with hnext | ⟨b, request, hnext⟩ <;> rw [Capturing, hnext] at hcapturing <;>
          rcases hcapturing with hother | hother | hother <;> cases hother
    have hdegrading : ∀ x, c'.running ≠ some (.barrierDegrading x) := by
      intro x hother
      rcases hnext with hnext | ⟨b, request, hnext⟩ <;> rw [hnext] at hother <;> cases hother
    refine h.replace (b := "") (hkept.timers (hrest rest)).1
      (fun x _ => by rw [hface]) (fun x _ => hattended x)
      (soundAt_idle hbusy hdegrading ?_ (hattended ""))
    rw [hface]
    exact h.shape ""
  | barrier b rest hrunning hqueue hkept hface hgoes =>
    refine h.replace (hkept.timers (hrest rest)).1 (fun x _ => by rw [hface]) (fun x hx => ?_)
      (hgoes.soundAt ?_)
    · refine (h.attended x).started h.timers hrunning hqueue (fun hsame => hx ?_) hkept hface
      exact (Operation.runSourceBarrier.inj hsame).symm
    · rw [hface]
      exact h.shape b

end Coordinator

namespace World

open Coordinator

structure Sound (w : World) : Prop where
  coordinator : w.coordinator.Sound
  done : w.portDone = true → (∃ b request, w.coordinator.running = some (.committing b request)) ∨
    ∃ b complete, w.coordinator.running = some (.barrierCommitting b complete) ∧
      w.stored b = .current ∧
      w.commits.getLast? = some ⟨b, complete, some .current, true⟩
  commits : ∀ commit ∈ w.commits, commit.barrierOpen = true → commit.request.kind ≠ .targeted

theorem sound_portCommits {w : World} (h : w.Sound) : w.portCommits.Sound := by
  unfold portCommits
  split
  · exact h
  · split
    case h_1 commit hcommit =>
      unfold currentCommit at hcommit
      split at hcommit
      case h_1 b request hrunning =>
        split at hcommit
        · cases hcommit
        case isFalse hcurrent =>
          obtain rfl := Option.some.inj hcommit
          refine ⟨h.coordinator, fun _ => .inl ⟨b, request, hrunning⟩,
            fun other hother hopen htargeted => ?_⟩
          rcases List.mem_append.mp hother with hother | hother
          · exact h.commits other hother hopen htargeted
          · rw [List.mem_singleton.mp hother] at hopen htargeted
            exact hcurrent ⟨htargeted, hopen⟩
      case h_2 b complete hrunning =>
        dsimp only at hcommit
        split at hcommit
        case isTrue hcurrent =>
          obtain rfl := Option.some.inj hcommit
          have hcaptured := h.coordinator.capturing b complete (.inr (.inr hrunning))
          refine ⟨h.coordinator, fun _ => .inr
            ⟨b, complete, hrunning, Function.update_self _ _ _, ?_⟩,
            fun other hother hopen htargeted => ?_⟩
          · change (w.commits ++ [_]).getLast? = _
            rw [List.getLast?_concat, hcurrent.1]
          · rcases List.mem_append.mp hother with hother | hother
            · exact h.commits other hother hopen htargeted
            · rw [List.mem_singleton.mp hother, hcaptured.kind] at htargeted
              cases htargeted
        case isFalse => cases hcommit
      case h_3 => cases hcommit
    case h_2 => exact h

theorem sound_step {w : World} (h : w.Sound) (happening : Happening) :
    (w.step happening).Sound := by
  have hevent : ∀ event : Event, (∀ settlement, event ≠ .settle settlement) →
      ({ w with coordinator := w.coordinator.step event } : World).Sound := by
    intro event hsettle
    have hcases := w.coordinator.step_cases hsettle
    generalize w.coordinator.step event = next at hcases ⊢
    rcases hcases with houtside | hstarts
    · refine ⟨h.coordinator.outside houtside, fun hdone => ?_, h.commits⟩
      change (∃ b request, next.running = some (.committing b request)) ∨
        ∃ b complete, next.running = some (.barrierCommitting b complete) ∧ _
      rw [houtside.running]
      exact h.done hdone
    · refine ⟨h.coordinator.started hstarts, fun hdone => ?_, h.commits⟩
      have hidle : w.coordinator.running ≠ none := by
        rcases h.done hdone with ⟨b, request, hrunning⟩ | ⟨b, complete, hrunning, -⟩ <;>
          rw [hrunning] <;> nofun
      cases hstarts with
      | idle => exact h.done hdone
      | reconcile operation rest hrunning => exact absurd hrunning hidle
      | barrier b rest hrunning => exact absurd hrunning hidle
  cases happening with
  | event event =>
    cases event with
    | settle settlement =>
      change (w.settle settlement).Sound
      unfold settle
      split
      case isTrue hanswers => exact ⟨h.coordinator.settled (settles hanswers), nofun, h.commits⟩
      case isFalse => exact h
    | _ => exact hevent _ nofun
  | portCommits => exact sound_portCommits h

theorem face_register {c c' : Coordinator} {binding : WatcherBinding}
    (h : c.register binding = .ok c')
    (hface : ∀ b, c.face b = ⟨false, .current, true, 0⟩) (b : String) :
    c'.face b = ⟨false, .current, true, 0⟩ := by
  unfold Coordinator.register at h
  split at h
  · cases h
  · obtain rfl := Except.ok.inj h
    change (c.setState binding.sourceProviderBindingId (.initial binding)).face b = _
    rw [face_setState]
    by_cases hb : b = binding.sourceProviderBindingId
    · subst hb
      rw [Function.update_self]
      rfl
    · rw [Function.update_of_ne hb]
      exact hface b

structure Fresh (c : Coordinator) : Prop where
  face : ∀ b, c.face b = ⟨false, .current, true, 0⟩
  running : c.running = none
  timers : c.TimersOk

theorem Fresh.sound {c : Coordinator} (h : Fresh c) : (start c).Sound := by
  have hat : ∀ b, c.SoundAt b := by
    intro b
    refine soundAt_idle (not_busy_of_none h.running) (fun x hx => ?_) ?_ ?_
    · rw [h.running] at hx
      cases hx
    · rw [h.face b]
      exact .inr ⟨rfl, rfl⟩
    · intro hopen
      rw [h.face b] at hopen
      cases hopen
  refine ⟨⟨h.timers, fun b => (hat b).shape, fun b => (hat b).persisting,
    fun b => (hat b).capturing,
    fun b => (hat b).degrading, fun b => (hat b).attended⟩, ?_, ?_⟩
  · intro hdone
    cases hdone
  · intro commit hcommit
    cases hcommit

theorem Fresh.register {c c' : Coordinator} {binding : WatcherBinding} (h : Fresh c)
    (hregister : c.register binding = .ok c') : Fresh c' := by
  refine ⟨face_register hregister h.face, ?_, ?_⟩
  · unfold Coordinator.register at hregister
    split at hregister
    · cases hregister
    · obtain rfl := Except.ok.inj hregister
      exact h.running
  · unfold Coordinator.register at hregister
    split at hregister
    · cases hregister
    · obtain rfl := Except.ok.inj hregister
      have hok :=
        ((kept_setState c binding.sourceProviderBindingId (.initial binding) (.inr rfl)
          (.inr rfl)).timers
        h.timers).1
      exact ⟨hok.bounded, hok.nodup, hok.quiet, hok.maximum⟩

theorem Fresh.registerAll {bindings : List WatcherBinding} {c c' : Coordinator} (h : Fresh c)
    (hregister : bindings.foldlM Coordinator.register c = .ok c') : Fresh c' := by
  induction bindings generalizing c with
  | nil =>
    obtain rfl := Except.ok.inj hregister
    exact h
  | cons binding bindings ih =>
    rw [List.foldlM_cons] at hregister
    obtain ⟨next, hnext, hrest⟩ := bind_eq_ok hregister
    exact ih (h.register hnext) hrest

theorem Fresh.schedulePeriodic {c : Coordinator} (h : Fresh c) (b : String) :
    Fresh (c.schedulePeriodic b) := by
  refine ⟨fun x => ?_, h.running, ((kept_schedulePeriodic c b).timers h.timers).1⟩
  rw [face_schedulePeriodic]
  exact h.face x

theorem fresh_new {options : ReconciliationCoordinatorOptions} {c : Coordinator}
    (h : Coordinator.new options = .ok c) :
    Fresh c := by
  have hperiodic : ∀ (ids : List String) (d : Coordinator), Fresh d →
      Fresh (ids.foldl Coordinator.schedulePeriodic d) := by
    intro ids
    induction ids with
    | nil => exact fun _ hd => hd
    | cons b ids ih => exact fun d hd => ih _ (hd.schedulePeriodic b)
  unfold Coordinator.new at h
  split at h
  · cases h
  obtain ⟨quiet, _, h⟩ := bind_eq_ok h
  obtain ⟨maximum, _, h⟩ := bind_eq_ok h
  obtain ⟨retry, _, h⟩ := bind_eq_ok h
  obtain ⟨attempts, _, h⟩ := bind_eq_ok h
  split at h
  · cases h
  dsimp only at h
  split at h
  · cases h
  obtain ⟨interval, _, h⟩ := bind_eq_ok h
  obtain ⟨registered, hregistered, h⟩ := bind_eq_ok h
  have hfresh : Fresh registered := by
    refine Fresh.registerAll ?_ hregistered
    refine ⟨fun _ => rfl, rfl, ?_⟩
    constructor
    · intro timer htimer
      cases htimer
    · exact List.nodup_nil
    · intro b handle hhandle
      cases hhandle
    · intro b handle hhandle
      cases hhandle
  split at h
  · obtain rfl := Except.ok.inj h
    exact hperiodic _ _ hfresh
  · obtain rfl := Except.ok.inj h
    exact hfresh

theorem sound_run {w : World} (h : w.Sound) (happenings : List Happening) :
    (w.run happenings).Sound := by
  induction happenings generalizing w with
  | nil => exact h
  | cons happening happenings ih => exact ih (sound_step h happening)

end World

end Engine
