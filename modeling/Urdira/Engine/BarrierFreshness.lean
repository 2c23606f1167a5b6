import Urdira.Engine.BarrierRun
import Urdira.Engine.HintCustody

open ExceptOk

namespace Engine

namespace World

open Coordinator

def Hears (targetedToo : Bool) (w : World) (b : String) : Happening → Prop
  | .event (.accept now batch) => batch.sourceProviderBindingId = b ∧ batch.events ≠ [] ∧
      (w.coordinator.accept now batch).toOption.isSome = true
  | .event (.providerRestarted b') => b' = b ∧ b ∈ w.coordinator.registered
  | .event (.recover b') => b' = b ∧ b ∈ w.coordinator.registered
  | .event (.resume b') => b' = b ∧ b ∈ w.coordinator.registered
  | .event (.requestFreshness b' proves) => b' = b ∧ b ∈ w.coordinator.registered ∧
      (proves = false ∨ targetedToo = true)
  | _ => False

def Builds (w : World) (happening : Happening) (b : String) (complete : ReconciliationRequest) :
    Prop :=
  w.coordinator.running ≠ some (.barrierAdministrative b complete) ∧
    (w.step happening).coordinator.running = some (.barrierAdministrative b complete)

def NoneHeard (targetedToo : Bool) (w : World) (b : String) (happenings : List Happening) : Prop :=
  ∀ front heard back, happenings = front ++ heard :: back →
    ¬ Hears targetedToo (w.run front) b heard

structure ClosedBy (targetedToo : Bool) (c : Coordinator) (before : List Happening)
    (happening : Happening) (b : String)
    (built : List Happening) (capture : Happening) (later : List Happening)
    (complete : ReconciliationRequest) :
    Prop where
  split : before = built ++ capture :: later
  builds : ((start c).run built).Builds capture b complete
  kind : complete.kind = .complete
  settled : happening = .event (.settle (.commitSettled .committed))
  running : ((start c).run before).coordinator.running = some (.barrierCommitting b complete)
  committed : ((start c).run before).commits.getLast? = some ⟨b, complete, some .current, true⟩
  newest : NoneHeard targetedToo ((start c).run (built ++ [capture])) b later

def ClosesOnNewest (targetedToo : Bool) (c : Coordinator) (happenings : List Happening)
    (b : String) : Prop :=
  ∀ before happening after, happenings = before ++ happening :: after →
    ((start c).run before).isOpen b = true →
      (((start c).run before).step happening).isOpen b = false →
    ∃ built capture later complete, ClosedBy targetedToo c before happening b built capture
      later complete

theorem knows_registered {c : Coordinator} {b : String} (h : b ∈ c.registered) :
    c.knows b = .ok () := if_pos h

theorem attempt_knows {c c' : Coordinator} {b : String} (h : b ∈ c.registered) :
    c.attempt (do c.knows b; pure c') = c' := by
  rw [knows_registered h]
  rfl

theorem epoch_hears {w : World} {b : String} {happening : Happening} (h : Hears false w b happening)
    (hopen : (w.coordinator.face b).isOpen = true) :
    (w.coordinator.face b).epoch < ((w.step happening).coordinator.face b).epoch := by
  cases happening with
  | portCommits => cases h
  | event event =>
    cases event with
    | accept now batch =>
      obtain ⟨rfl, hevents, hok⟩ := h
      obtain ⟨next, hnext⟩ := exists_of_isSome hok
      change _ < ((w.coordinator.attempt (w.coordinator.accept now batch)).face _).epoch
      rw [hnext]
      exact (outside_accept hnext).2 hevents
    | providerRestarted b' =>
      obtain ⟨rfl, hregistered⟩ := h
      change _ < ((w.coordinator.attempt (w.coordinator.providerRestarted b')).face b').epoch
      rw [providerRestarted, attempt_knows hregistered]
      exact epoch_completeNow _ b' _ _ hopen
    | recover b' =>
      obtain ⟨rfl, hregistered⟩ := h
      change _ < ((w.coordinator.attempt (w.coordinator.recover b')).face b').epoch
      rw [recover, attempt_knows hregistered]
      exact epoch_completeNow _ b' _ _ hopen
    | resume b' =>
      obtain ⟨rfl, hregistered⟩ := h
      change _ < ((w.coordinator.attempt (w.coordinator.resume b')).face b').epoch
      rw [resume, attempt_knows hregistered]
      exact epoch_completeNow _ b' _ _ hopen
    | requestFreshness b' proves =>
      obtain ⟨rfl, hregistered, hproves | htargeted⟩ := h
      · subst hproves
        change _ < ((w.coordinator.attempt (w.coordinator.requestFreshness b' false)).face b').epoch
        rw [requestFreshness]
        simp only [Bool.false_eq_true, if_false]
        rw [attempt_knows hregistered]
        exact epoch_completeNow _ b' _ _ hopen
      · cases htargeted
    | expire handle => cases h
    | queueStep => cases h
    | settle settlement => cases h
    | close => cases h

inductive Moves (w : World) : Happening → Coordinator → Prop
  | outside {happening : Happening} {c' : Coordinator} : w.coordinator.Outside c' →
    Moves w happening c'
  | starts {happening : Happening} {c' : Coordinator} : w.coordinator.Starts c' →
      Moves w happening c'
  | settles {settlement : Settlement} {c' : Coordinator} : w.answers settlement = true →
      w.coordinator.Settles settlement c' → Moves w (.event (.settle settlement)) c'

theorem moves_step (w : World) (happening : Happening) :
    w.Moves happening (w.step happening).coordinator := by
  cases happening with
  | portCommits =>
    refine .outside ?_
    change w.coordinator.Outside w.portCommits.coordinator
    unfold portCommits
    split
    · exact .refl _
    · split <;> exact .refl _
  | event event =>
    have hevent : (∀ settlement, event ≠ .settle settlement) →
        w.Moves (.event event) (w.coordinator.step event) := by
      intro hsettle
      rcases w.coordinator.step_cases hsettle with houtside | hstarts
      · exact .outside houtside
      · exact .starts hstarts
    cases event with
    | settle settlement =>
      change w.Moves _ (w.settle settlement).coordinator
      unfold settle
      split
      case isTrue hanswers => exact .settles hanswers (Coordinator.settles hanswers)
      case isFalse => exact .outside (.refl _)
    | _ => exact hevent nofun

theorem Moves.epoch {w : World} {happening : Happening} {c' : Coordinator}
    (h : w.Moves happening c') (b : String) :
    (w.coordinator.face b).epoch ≤ (c'.face b).epoch := by
  have hsame : ∀ (x : String) (face : Face), face.epoch = (w.coordinator.face x).epoch →
      c'.face = Function.update w.coordinator.face x face →
        (w.coordinator.face b).epoch ≤ (c'.face b).epoch := by
    intro x face hepoch hface
    rw [hface]
    by_cases hb : b = x
    · subst hb
      rw [Function.update_self, hepoch]
    · rw [Function.update_of_ne hb]
  cases h with
  | outside houtside => exact houtside.epoch b
  | starts hstarts =>
    cases hstarts with
    | idle => exact Nat.le_refl _
    | reconcile operation rest hrunning hqueue hne hkept hface => rw [hface]
    | barrier x rest hrunning hqueue hkept hface => rw [hface]
  | settles hanswers hsettles =>
    cases hsettles with
    | plain x request hrunning hkept hface => rw [hface]
    | persisted x hrunning hkept hface => exact hsame x _ (by rfl) hface
    | failed x hrunning hkept hfails =>
      rcases hfails with ⟨hface, -⟩ | ⟨hface, -, -⟩
      · exact hsame x _ (by rfl) hface
      · rw [hface]
    | advances x complete hrunning hkept hface => rw [hface]
    | offers x complete hrunning hkept hface => rw [hface]
    | reruns x complete hcapturing hkept hface => rw [hface]
    | overtaken x complete hrunning hepoch hkept hface => exact hsame x _ (by rfl) hface
    | closes x complete hrunning hepoch hkept hface => exact hsame x _ (by rfl) hface
    | degraded x hrunning hkept hface => exact hsame x _ (by rfl) hface
    | undegraded x hrunning hkept hface => exact hsame x _ (by rfl) hface

theorem Moves.capturing {w : World} {happening : Happening} {c' : Coordinator}
    (h : w.Moves happening c') {b : String}
    {complete : ReconciliationRequest} (hcapturing : c'.Capturing b complete)
    (hold : c'.running ≠ some (.barrierAdministrative b complete)) :
    w.coordinator.Capturing b complete := by
  have hgoes : ∀ x, c'.GoesOn x → w.coordinator.Capturing b complete := by
    rintro x (⟨-, hrunning⟩ | ⟨-, -, hrunning⟩ | ⟨-, -, other, hrunning, -⟩)
    · rw [Capturing, hrunning] at hcapturing
      rcases hcapturing with hother | hother | hother <;> cases hother
    · rw [Capturing, hrunning] at hcapturing
      rcases hcapturing with hother | hother | hother <;> cases hother
    · rw [Capturing, hrunning] at hcapturing
      rcases hcapturing with hother | hother | hother
      · exact absurd (hrunning.trans hother) hold
      · cases hother
      · cases hother
  have hnone : c'.running = none → w.coordinator.Capturing b complete :=
    fun hrunning => absurd (.inr ⟨complete, hcapturing⟩) (not_busy_of_none hrunning b)
  cases h with
  | outside houtside => exact (capturing_congr houtside.running b complete).mp hcapturing
  | starts hstarts =>
    cases hstarts with
    | idle => exact hcapturing
    | reconcile operation rest hrunning hqueue hne hkept hface hnext =>
      rcases hnext with hnext | ⟨x, request, hnext⟩
      · exact hnone hnext
      · rw [Capturing, hnext] at hcapturing
        rcases hcapturing with hother | hother | hother <;> cases hother
    | barrier x rest hrunning hqueue hkept hface hgoes' => exact hgoes x hgoes'
  | settles hanswers hsettles =>
    cases hsettles with
    | plain x request hrunning hkept hface hnext hset =>
      rcases hnext with hnext | hnext
      · exact hnone hnext
      · rw [Capturing, hnext] at hcapturing
        rcases hcapturing with hother | hother | hother <;> cases hother
    | persisted x hrunning hkept hface hcaptures =>
      obtain ⟨other, hnext, -⟩ := hcaptures
      rw [Capturing, hnext] at hcapturing
      rcases hcapturing with hother | hother | hother
      · exact absurd (hnext.trans hother) hold
      · cases hother
      · cases hother
    | failed x hrunning hkept hfails hset hcommitted =>
      rcases hfails with ⟨-, hnext⟩ | ⟨-, hnext, -⟩
      · rw [Capturing, hnext] at hcapturing
        rcases hcapturing with hother | hother | hother <;> cases hother
      · exact hnone hnext
    | advances x other hrunning hkept hface hnext hset =>
      rw [Capturing, hnext] at hcapturing
      rcases hcapturing with hother | hother | hother <;> cases hother
      exact .inl hrunning
    | offers x other hrunning hkept hface hnext hset =>
      rw [Capturing, hnext] at hcapturing
      rcases hcapturing with hother | hother | hother <;> cases hother
      exact .inr (.inl hrunning)
    | reruns x other hcapturing' hkept hface hgoes' => exact hgoes x hgoes'
    | overtaken x other hrunning hepoch hkept hface hgoes' => exact hgoes x hgoes'
    | closes x other hrunning hepoch hkept hface hnext => exact hnone hnext
    | degraded x hrunning hkept hface hnext => exact hnone hnext
    | undegraded x hrunning hkept hface hnext hset => exact hnone hnext

theorem Moves.closes {w : World} {happening : Happening} {c' : Coordinator}
    (h : w.Moves happening c') {b : String}
    (hopen : (w.coordinator.face b).isOpen = true) (hclosed : (c'.face b).isOpen = false) :
    happening = .event (.settle (.commitSettled .committed)) ∧
      w.answers (.commitSettled .committed) = true ∧
      ∃ complete, w.coordinator.running = some (.barrierCommitting b complete) ∧
        (w.coordinator.face b).epoch = complete.sourceEpoch := by
  have hsame : (c'.face b).isOpen ≠ (w.coordinator.face b).isOpen := by
    rw [hopen, hclosed]
    nofun
  have hother : ∀ (x : String) (face : Face), face.isOpen = (w.coordinator.face x).isOpen →
      c'.face = Function.update w.coordinator.face x face → False := by
    intro x face hisOpen hface
    refine hsame ?_
    rw [hface]
    by_cases hb : b = x
    · subst hb
      rw [Function.update_self, hisOpen]
    · rw [Function.update_of_ne hb]
  cases h with
  | outside houtside =>
    rcases houtside.face b with hface | ⟨hface, -, -⟩
    · rw [hface] at hclosed
      exact absurd (hopen.symm.trans hclosed) nofun
    · rw [hface] at hclosed
      cases hclosed
  | starts hstarts =>
    cases hstarts with
    | idle => exact absurd rfl hsame
    | reconcile operation rest hrunning hqueue hne hkept hface => exact absurd (by rw [hface]) hsame
    | barrier x rest hrunning hqueue hkept hface => exact absurd (by rw [hface]) hsame
  | settles hanswers hsettles =>
    cases hsettles with
    | plain x request hrunning hkept hface => exact absurd (by rw [hface]) hsame
    | persisted x hrunning hkept hface => exact (hother x _ (by rfl) hface).elim
    | failed x hrunning hkept hfails =>
      rcases hfails with ⟨hface, -⟩ | ⟨hface, -, -⟩
      · exact (hother x _ (by rfl) hface).elim
      · exact absurd (by rw [hface]) hsame
    | advances x complete hrunning hkept hface => exact absurd (by rw [hface]) hsame
    | offers x complete hrunning hkept hface => exact absurd (by rw [hface]) hsame
    | reruns x complete hcapturing hkept hface => exact absurd (by rw [hface]) hsame
    | overtaken x complete hrunning hepoch hkept hface => exact (hother x _ (by rfl) hface).elim
    | closes x complete hrunning hepoch hkept hface =>
      by_cases hb : b = x
      · subst hb
        exact ⟨rfl, hanswers, complete, hrunning, hepoch⟩
      · refine absurd ?_ hsame
        rw [hface, Function.update_of_ne hb]
    | degraded x hrunning hkept hface => exact (hother x _ (by rfl) hface).elim
    | undegraded x hrunning hkept hface => exact (hother x _ (by rfl) hface).elim

theorem run_append (w : World) (front back : List Happening) :
    w.run (front ++ back) = (w.run front).run back :=
  List.foldl_append

theorem NoneHeard.concat {targetedToo : Bool} {w : World} {b : String} {happenings : List Happening}
    (h : NoneHeard targetedToo w b happenings) {happening : Happening}
    (hlast : ¬ Hears targetedToo (w.run happenings) b happening) :
    NoneHeard targetedToo w b (happenings ++ [happening]) := by
  intro front heard back hsplit
  rcases List.eq_nil_or_concat back with rfl | ⟨back, last, rfl⟩
  · obtain ⟨rfl, hheard⟩ := List.append_inj' hsplit rfl
    rw [← (List.cons.inj hheard).1]
    exact hlast
  · rw [List.concat_eq_append, ← List.cons_append, ← List.append_assoc] at hsplit
    obtain ⟨hinit, -⟩ := List.append_inj' hsplit rfl
    exact h front heard back hinit

def Since (c : Coordinator) (before : List Happening) : Prop :=
  ∀ b complete, ((start c).run before).coordinator.Capturing b complete → ∃ built capture later,
    before = built ++ capture :: later ∧ ((start c).run built).Builds capture b complete ∧
      ((((start c).run before).coordinator.face b).epoch = complete.sourceEpoch →
        NoneHeard false ((start c).run (built ++ [capture])) b later)

theorem since_run {c : Coordinator} (h : (start c).Sound) (before : List Happening)
    (hidle : c.running = none) : Since c before := by
  induction before using List.reverseRecOn with
  | nil =>
    intro b complete hcapturing
    exact absurd (.inr ⟨complete, hcapturing⟩) (not_busy_of_none hidle b)
  | append_singleton before happening ih =>
    intro b complete hcapturing
    have hsound := sound_run h before
    have hstep : (start c).run (before ++ [happening]) = ((start c).run before).step happening :=
      run_append _ _ _
    rw [hstep] at hcapturing ⊢
    have hmoves := moves_step ((start c).run before) happening
    by_cases hbuilt : ((start c).run before).Builds happening b complete
    · refine ⟨before, happening, [], rfl, hbuilt, fun _ front heard back hsplit => ?_⟩
      exact absurd hsplit (List.append_ne_nil_of_right_ne_nil _ (List.cons_ne_nil _ _)).symm
    · have hbefore : ((start c).run before).coordinator.Capturing b complete := by
        by_cases hold : (((start c).run before).step happening).coordinator.running =
            some (.barrierAdministrative b complete)
        · exact .inl (not_not.mp (fun hne => hbuilt ⟨hne, hold⟩))
        · exact hmoves.capturing hcapturing hold
      obtain ⟨built, capture, later, hsplit, hbuilds, hnone⟩ := ih b complete hbefore
      have hcaptured := hsound.coordinator.capturing b complete hbefore
      refine ⟨built, capture, later ++ [happening],
        by rw [hsplit, List.append_assoc, List.cons_append], hbuilds, ?_⟩
      intro hepoch
      have hmono := hmoves.epoch b
      have hsame : (((start c).run before).coordinator.face b).epoch = complete.sourceEpoch :=
        Nat.le_antisymm (hepoch ▸ hmono) hcaptured.epoch
      refine (hnone hsame).concat fun hheard => ?_
      have hrun : ((start c).run (built ++ [capture])).run later = (start c).run before := by
        rw [← run_append, hsplit, List.append_assoc, List.singleton_append]
      rw [hrun] at hheard
      have hlt := epoch_hears hheard hcaptured.isOpen
      rw [hsame, hepoch] at hlt
      exact Nat.lt_irrefl _ hlt

theorem barrier_closes_on_newest_capture {options : ReconciliationCoordinatorOptions}
    {c : Coordinator}
    (hnew : Coordinator.new options = .ok c) (happenings : List Happening) (b : String) :
    ClosesOnNewest false c happenings b ∧
      ∀ commit ∈ ((start c).run happenings).commits, commit.barrierOpen = true →
        commit.request.kind ≠ .targeted := by
  have hfresh := fresh_new hnew
  have hstart := hfresh.sound
  refine ⟨?_, (sound_run hstart happenings).commits⟩
  intro before happening after hsplit hopen hclosed
  have hsound := sound_run hstart before
  have hmoves := moves_step ((start c).run before) happening
  obtain ⟨hsettled, hanswers, complete, hrunning, hepoch⟩ := hmoves.closes hopen hclosed
  have hcapturing : ((start c).run before).coordinator.Capturing b complete := .inr (.inr hrunning)
  obtain ⟨built, capture, later, hbefore, hbuilds, hnone⟩ :=
    since_run hstart before hfresh.running b complete hcapturing
  have hdone : ((start c).run before).portDone = true := by
    unfold answers at hanswers
    rw [hrunning] at hanswers
    exact hanswers
  have hcommitted : ((start c).run before).commits.getLast? =
      some ⟨b, complete, some .current, true⟩ := by
    rcases hsound.done hdone with ⟨x, request, hother⟩ | ⟨x, other, hother, -, hlast⟩
    · rw [hrunning] at hother
      cases hother
    · rw [hrunning] at hother
      cases hother
      exact hlast
  exact ⟨built, capture, later, complete, hbefore, hbuilds,
    (hsound.coordinator.capturing b complete hcapturing).kind,
    hsettled, hrunning, hcommitted, hnone hepoch⟩

def branchSwitch : WatcherHintBatch :=
  { absenceBatch ".git/HEAD" with
    events := [⟨0, "w", "b", "files", "1", .gitHead, ".git/HEAD", .hint⟩] }

def unchanged : ReconciliationResult := ⟨true, true, "checkpoint", false⟩

def branchSwitchRun (between : List Happening) : List Happening :=
  [.event (.accept 0 branchSwitch), .event .queueStep, .event (.settle .barrierStateSet)] ++
    between ++
    [.event (.settle (.reconciled unchanged)), .event (.settle (.reconciled unchanged)),
      .portCommits]

def closing : Happening := .event (.settle (.commitSettled .committed))

theorem barrier_closes_on_newest_capture_branch_switch :
    ∃ c, Coordinator.new watchedWorkspace = .ok c ∧
      ((start c).run (branchSwitchRun [])).isOpen "b" = true ∧
      (((start c).run (branchSwitchRun [])).step closing).isOpen "b" = false ∧
      ClosesOnNewest false c (branchSwitchRun [] ++ [closing]) "b" := by
  refine ⟨_, rfl, ?_, ?_, ?_⟩
  · decide +kernel
  · decide +kernel
  · exact (@barrier_closes_on_newest_capture watchedWorkspace _ rfl _ "b").1

def isCapture : Option Running → Bool
  | some (.barrierAdministrative _ _) => true
  | _ => false

theorem Builds.isCapture {w : World} {happening : Happening} {b : String}
    {complete : ReconciliationRequest}
    (h : w.Builds happening b complete) :
    World.isCapture (w.step happening).coordinator.running = true := by
  rw [h.2]
  rfl

theorem split_places {happenings built later : List Happening} {capture : Happening}
    (h : happenings = built ++ capture :: later) :
    built = happenings.take built.length ∧ built ++ [capture] = happenings.take (built.length + 1) ∧
      later = happenings.drop (built.length + 1) := by
  have hfront : happenings = (built ++ [capture]) ++ later := by
    rw [h, List.append_assoc, List.singleton_append]
  have hlength : (built ++ [capture]).length = built.length + 1 := by
    rw [List.length_append, List.length_singleton]
  refine ⟨?_, ?_, ?_⟩
  · rw [h, List.take_left]
  · rw [← hlength, hfront, List.take_left]
  · rw [← hlength, hfront, List.drop_left]

theorem targeted_freshness_is_not_newer :
    ∃ c, Coordinator.new watchedWorkspace = .ok c ∧
      ¬ ClosesOnNewest true c (branchSwitchRun [.event (.requestFreshness "b" true)] ++ [closing])
        "b" := by
  refine ⟨_, rfl, fun h => ?_⟩
  obtain ⟨built, capture, later, complete, hclosed⟩ :=
    h _ closing [] rfl (by decide +kernel) (by decide +kernel)
  obtain ⟨hsplit, hbuilds, -, -, -, -, hnewest⟩ := hclosed
  obtain ⟨hbuilt, hdone, hlater⟩ := split_places hsplit
  have hlength : built.length < 7 := by
    have hseven := congrArg List.length hsplit
    rw [List.length_append, List.length_cons] at hseven
    have hrun : (branchSwitchRun [.event (.requestFreshness "b" true)]).length = 7 := rfl
    omega
  have hcapture := hbuilds.isCapture
  have hnext : ∀ w : World, (w.run built).step capture = w.run (built ++ [capture]) :=
    fun w => (run_append w built [capture]).symm
  rw [hnext, hdone] at hcapture
  rw [hdone] at hnewest
  obtain ⟨hnew, hold⟩ := hbuilds
  rw [hnext, hdone] at hold
  rw [hbuilt] at hnew
  generalize built.length = n at hlater hlength hcapture hnewest hnew hold
  interval_cases n
  · exact absurd hcapture (by decide +kernel)
  · exact absurd hcapture (by decide +kernel)
  · exact hnewest [] _ _ hlater ⟨rfl, by decide +kernel, .inr rfl⟩
  · exact hnew hold
  · exact absurd hcapture (by decide +kernel)
  · exact absurd hcapture (by decide +kernel)
  · exact absurd hcapture (by decide +kernel)

end World

end Engine
