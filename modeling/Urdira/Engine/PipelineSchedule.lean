import Urdira.Engine.PipelineSealing
import Urdira.Lib.DependencyOrder

open Canonical DependencyOrder MerkleBucket

namespace Engine

namespace Pipeline

open Spool StageSpool

section Rounds

variable [Sha256] [LocaleCompare] {E : Type}
  {runStage : QueryStage → StageInputs → Except E OperationEvaluation}
  {input : ExecutePipelineInput}
  {evaluations : Text → OperationEvaluation} {done stages pending : List QueryStage}
  {rounds : List (List QueryStage)}
  {ids : List Text} {state final : Execution}

def runFrontiers (runStage : QueryStage → StageInputs → Except E OperationEvaluation)
    (input : ExecutePipelineInput) :
    List (List QueryStage) → Execution → Except (PipelineError E) Execution
  | [], state => .ok state
  | ready :: rounds, state => do
    let state ← runFrontier runStage input ready state
    runFrontiers runStage input rounds state

def Scheduled : List Text → List (List QueryStage) → Prop
  | _, [] => True
  | ids, ready :: rounds =>
    (∀ stage ∈ ready, ∀ dependency ∈ dependencies stage, dependency ∈ ids) ∧
      Scheduled (ids ++ ready.map QueryStage.stageId) rounds

def ReadsDependencies (stages : List QueryStage) : Prop :=
  ∀ stage ∈ stages, ∀ reference ∈ reads stage, reference.stageId ∈ dependencies stage

def Closed (done : List QueryStage) : Prop :=
  ∀ stage ∈ done, ∀ reference ∈ reads stage, reference.stageId ∈ done.map QueryStage.stageId

omit [Sha256] [LocaleCompare] in
theorem Closed.append {ready : List QueryStage} (h : Closed done)
    (hready : ∀ stage ∈ ready, ∀ reference ∈ reads stage,
      reference.stageId ∈ done.map QueryStage.stageId) :
    ∀ stage ∈ done ++ ready, ∀ reference ∈ reads stage,
      reference.stageId ∈ done.map QueryStage.stageId := by
  intro stage hstage
  rcases List.mem_append.mp hstage with hdone | hnew
  · exact h stage hdone
  · exact hready stage hnew

omit [Sha256] [LocaleCompare] in
theorem Closed.grown {ready : List QueryStage} (h : Closed done)
    (hready : ∀ stage ∈ ready, ∀ reference ∈ reads stage,
      reference.stageId ∈ done.map QueryStage.stageId) :
    Closed (done ++ ready) := by
  intro stage hstage reference hreference
  rw [List.map_append]
  exact List.mem_append_left _ (h.append hready stage hstage reference hreference)

theorem runFrontiers_ok (h : Reached input evaluations done state) (hnames : NamesOutputs runStage)
    (hplain : ∀ stage ∈ done ++ rounds.flatten, Plain stage.stageId) (hclosed : Closed done)
    (hscheduled : Scheduled (done.map QueryStage.stageId) rounds)
    (hnodup : ((done ++ rounds.flatten).map QueryStage.stageId).Nodup)
    (hreads : ReadsDependencies rounds.flatten)
    (hsolved : ∀ stage ∈ done, Solves runStage input evaluations stage)
    (hrun : runFrontiers runStage input rounds state = .ok final) :
    ∃ evaluations', (∀ stage ∈ done ++ rounds.flatten, Solves runStage input evaluations' stage) ∧
      Reached input evaluations' (done ++ rounds.flatten) final := by
  induction rounds generalizing done state evaluations with
  | nil =>
    obtain rfl := Except.ok.inj hrun
    rw [List.flatten_nil, List.append_nil]
    exact ⟨evaluations, hsolved, h⟩
  | cons ready rounds ih =>
    obtain ⟨next, hfrontier, hrest⟩ := ExceptOk.bind_eq_ok hrun
    obtain ⟨hdependencies, hscheduled⟩ := hscheduled
    have hready : ∀ stage ∈ ready, ∀ reference ∈ reads stage,
        reference.stageId ∈ done.map QueryStage.stageId :=
      fun stage hstage reference hreference =>
        hdependencies stage hstage _ (hreads stage (List.mem_append_left _ hstage) reference
          hreference)
    rw [List.flatten_cons, ← List.append_assoc] at hnodup hplain ⊢
    have hnow : ((done ++ ready).map QueryStage.stageId).Nodup := by
      rw [List.map_append] at hnodup
      exact (List.nodup_append.mp hnodup).1
    obtain ⟨evaluations', hsolved', hreached⟩ := runFrontier_ok h hnames
      (fun stage hstage => hplain stage (List.mem_append_left _ hstage)) hnow
        (hclosed.append hready) hsolved hfrontier
    rw [← List.map_append] at hscheduled
    exact ih hreached hplain (hclosed.grown hready) hscheduled hnodup
      (fun stage hstage => hreads stage (List.mem_append_right _ hstage)) hsolved' hrest

theorem runFrontiers_succeeds (h : Reached input evaluations done state)
    (hscheduled : Scheduled (done.map QueryStage.stageId) rounds)
    (hnamed : Named evaluations (done ++ rounds.flatten))
    (hreads : ReadsDependencies rounds.flatten)
    (hsolved : ∀ stage ∈ rounds.flatten, Solves runStage input evaluations stage)
    (hroom : input.spool.bytes + totalSize evaluations (done ++ rounds.flatten) ≤
      input.spool.hardBytes)
    (hcommits : ∀ c, (input.database c).transactionFails = false) :
    ∃ final, runFrontiers runStage input rounds state = .ok final ∧
      Reached input evaluations (done ++ rounds.flatten) final := by
  induction rounds generalizing done state with
  | nil =>
    rw [List.flatten_nil, List.append_nil]
    exact ⟨state, rfl, h⟩
  | cons ready rounds ih =>
    obtain ⟨hdependencies, hscheduled⟩ := hscheduled
    rw [List.flatten_cons, ← List.append_assoc] at hnamed hroom ⊢
    have hnowRoom : input.spool.bytes + totalSize evaluations (done ++ ready) ≤
        input.spool.hardBytes := by
      rw [totalSize_append] at hroom
      push_cast at hroom
      omega
    obtain ⟨next, hfrontier, hreached⟩ := runFrontier_succeeds h hnamed.left
      (fun stage hstage reference hreference =>
        hdependencies stage hstage _ (hreads stage (List.mem_append_left _ hstage) reference
          hreference))
      (fun stage hstage => hsolved stage (List.mem_append_left _ hstage)) hnowRoom hcommits
    rw [← List.map_append] at hscheduled
    obtain ⟨final, hfinal, hend⟩ := ih hreached hscheduled hnamed
      (fun stage hstage => hreads stage (List.mem_append_right _ hstage))
      (fun stage hstage => hsolved stage (List.mem_append_right _ hstage)) hroom
    refine ⟨final, ?_, hend⟩
    rw [runFrontiers, hfrontier]
    exact hfinal

end Rounds

section Layers

variable [Sha256] [LocaleCompare] {E : Type}
  {runStage : QueryStage → StageInputs → Except E OperationEvaluation}
  {input : ExecutePipelineInput}
  {evaluations : Text → OperationEvaluation} {done stages pending : List QueryStage}
  {ids : List Text} {state : Execution}

def readyAfter (ids : List Text) (stage : QueryStage) : Bool :=
  (dependencies stage).all (fun dependency => ids.contains dependency)

omit [Sha256] [LocaleCompare] in
theorem readyAfter_iff {stage : QueryStage} : readyAfter ids stage = true ↔
      ∀ dependency ∈ dependencies stage, dependency ∈ ids := by
  simp only [readyAfter, List.all_eq_true, List.contains_iff_mem]

omit [Sha256] [LocaleCompare] in
theorem isReady_eq (results : List (Text × OperationEvaluation)) :
    isReady results = readyAfter (results.map Prod.fst) := by
  funext stage
  rw [Bool.eq_iff_iff, readyAfter_iff, isReady, List.all_eq_true]
  refine forall₂_congr (fun dependency _ => ?_)
  simp only [List.any_eq_true, decide_eq_true_eq, List.mem_map]

def layers : ℕ → List Text → List QueryStage → List (List QueryStage)
  | 0, _, _ => []
  | _ + 1, _, [] => []
  | fuel + 1, ids, stage :: pending =>
    let ready := (stage :: pending).filter (readyAfter ids)
    ready :: layers fuel (ids ++ ready.map QueryStage.stageId)
      ((stage :: pending).filter (fun stage => !readyAfter ids stage))

omit [Sha256] [LocaleCompare] in
theorem layers_scheduled (fuel : ℕ) (ids : List Text) (pending : List QueryStage) :
    Scheduled ids (layers fuel ids pending) := by
  induction fuel generalizing ids pending with
  | zero => trivial
  | succ fuel ih =>
    cases pending with
    | nil => trivial
    | cons stage pending =>
      refine ⟨fun ready hready => ?_, ih _ _⟩
      exact readyAfter_iff.mp (List.mem_filter.mp hready).2

structure Left (stages pending : List QueryStage) (ids : List Text) : Prop where
  subset : pending ⊆ stages
  rest : ∀ stage ∈ stages, stage ∉ pending → stage.stageId ∈ ids

omit [Sha256] [LocaleCompare] in
theorem Left.next (h : Left stages pending ids) :
    Left stages (pending.filter (fun stage => !readyAfter ids stage))
      (ids ++ (pending.filter (readyAfter ids)).map QueryStage.stageId) := by
  refine ⟨fun stage hstage => h.subset (List.mem_filter.mp hstage).1, fun stage hstage hnot => ?_⟩
  by_cases hpending : stage ∈ pending
  · have hready : readyAfter ids stage = true := by
      by_contra hunready
      exact hnot (List.mem_filter.mpr ⟨hpending,
        by rw [Bool.not_eq_true] at hunready; rw [hunready]; rfl⟩)
    exact List.mem_append_right _ (List.mem_map_of_mem (List.mem_filter.mpr ⟨hpending, hready⟩))
  · exact List.mem_append_left _ (h.rest stage hstage hpending)

omit [Sha256] [LocaleCompare] in
theorem Left.exists_ready (hordered : Ordered QueryStage.stageId dependencies [] stages)
    (h : Left stages pending ids)
    (hne : pending ≠ []) : ∃ stage ∈ pending, readyAfter ids stage = true := by
  obtain ⟨stage, hstage, hneeds⟩ := hordered.exists_ready h.subset hne
  refine ⟨stage, hstage, readyAfter_iff.mpr (fun dependency hdependency => ?_)⟩
  rcases hneeds dependency hdependency with hnone | ⟨other, hother, hdone, hkey⟩
  · cases hnone
  · rw [← hkey]
    exact h.rest other hother hdone

omit [Sha256] [LocaleCompare] in
theorem length_unready_lt (hready : ∃ stage ∈ pending, readyAfter ids stage = true) :
    (pending.filter (fun stage => !readyAfter ids stage)).length < pending.length := by
  obtain ⟨stage, hstage, hready⟩ := hready
  refine List.length_filter_lt_length_iff_exists.mpr ⟨stage, hstage, ?_⟩
  rw [hready]
  exact Bool.false_ne_true

omit [Sha256] [LocaleCompare] in
theorem layers_flatten (hordered : Ordered QueryStage.stageId dependencies [] stages) (fuel : ℕ)
    (h : Left stages pending ids)
    (hfuel : pending.length ≤ fuel) : (layers fuel ids pending).flatten.Perm pending := by
  induction fuel generalizing ids pending with
  | zero =>
    rw [List.length_eq_zero_iff.mp (Nat.le_zero.mp hfuel)]
    exact List.Perm.refl _
  | succ fuel ih =>
    cases pending with
    | nil => exact List.Perm.refl _
    | cons stage pending =>
      have hshorter := length_unready_lt (h.exists_ready hordered (List.cons_ne_nil _ _))
      have hrest := ih h.next (by omega)
      exact (hrest.append_left _).trans (List.filter_append_perm (readyAfter ids)
        (stage :: pending))

theorem executeRounds_layers
    (hordered : DependencyOrder.Ordered QueryStage.stageId dependencies [] stages)
    (hreads : ReadsDependencies stages) (hplain : ∀ stage ∈ stages, Plain stage.stageId)
    (hnames : NamesOutputs runStage)
    (haborted : ∀ round, input.aborted round = false) (fuel round : ℕ)
    (h : Reached input evaluations done state) (hclosed : Closed done)
    (hsolved : ∀ stage ∈ done, Solves runStage input evaluations stage)
    (hperm : (done ++ pending).Perm stages) (hfuel : pending.length < fuel) :
    executeRounds runStage input fuel round pending state =
      some (runFrontiers runStage input (layers fuel (done.map QueryStage.stageId) pending)
        state) := by
  induction fuel generalizing round pending state done evaluations with
  | zero => omega
  | succ fuel ih =>
    cases pending with
    | nil => rfl
    | cons stage pending =>
      have hleft : Left stages (stage :: pending) (done.map QueryStage.stageId) := by
        refine ⟨fun other hother => hperm.subset (List.mem_append_right _ hother),
          fun other hother hnot => ?_⟩
        rcases List.mem_append.mp (hperm.symm.subset hother) with hdone | hpending
        · exact List.mem_map_of_mem hdone
        · exact absurd hpending hnot
      have hready := hleft.exists_ready hordered (List.cons_ne_nil _ _)
      have hshorter := length_unready_lt hready
      have hsplit :=
        List.filter_append_perm (readyAfter (done.map QueryStage.stageId)) (stage :: pending)
      rw [executeRounds, haborted, if_neg Bool.false_ne_true, isReady_eq, h.ids, layers,
        runFrontiers]
      generalize hnow : (stage :: pending).filter (readyAfter (done.map QueryStage.stageId)) =
        ready at hsplit ⊢
      generalize (stage :: pending).filter
        (fun stage => !readyAfter (done.map QueryStage.stageId) stage) = rest at hshorter hsplit ⊢
      cases ready with
      | nil =>
        obtain ⟨other, hother, hreadyOther⟩ := hready
        exact absurd (hnow ▸ List.mem_filter.mpr ⟨hother, hreadyOther⟩) List.not_mem_nil
      | cons first ready =>
        have hall : (done ++ (first :: ready) ++ rest).Perm stages := by
          rw [List.append_assoc]
          exact (hsplit.append_left done).trans hperm
        dsimp only
        cases hrun : runFrontier runStage input (first :: ready) state with
        | error fault => rfl
        | ok next =>
          have hnodup : ((done ++ first :: ready).map QueryStage.stageId).Nodup := by
            have hids := (hall.map QueryStage.stageId).nodup_iff.mpr hordered.nodup
            rw [List.map_append] at hids
            exact (List.nodup_append.mp hids).1
          have hknown : ∀ stage ∈ first :: ready, ∀ reference ∈ reads stage,
              reference.stageId ∈ done.map QueryStage.stageId := by
            intro other hother reference hreference
            rw [← hnow] at hother
            obtain ⟨hpending, hreadyOther⟩ := List.mem_filter.mp hother
            exact readyAfter_iff.mp hreadyOther
              _ (hreads other (hleft.subset hpending) reference hreference)
          obtain ⟨evaluations', hsolved', hreached⟩ :=
            runFrontier_ok h hnames (fun other hother =>
              hplain other (hall.subset (List.mem_append_left _ hother)))
              hnodup (hclosed.append hknown) hsolved hrun
          have hnext := ih (round + 1) hreached (hclosed.grown hknown) hsolved' hall (by omega)
          rw [List.map_append] at hnext
          exact hnext

end Layers

section Cycles

variable [Sha256] [LocaleCompare] {E α β : Type}
  {runStage : QueryStage → StageInputs → Except E OperationEvaluation}
  {input : ExecutePipelineInput}

omit [Sha256] [LocaleCompare] in
theorem bind_ne_cycle {x : Except (PipelineError E) α} {f : α → Except (PipelineError E) β}
    (hx : x ≠ .error .cycle)
    (hf : ∀ a, f a ≠ .error .cycle) : (x >>= f) ≠ .error .cycle := by
  cases x with
  | error fault => exact fun h => hx (congrArg Except.error (Except.error.inj h))
  | ok a => exact hf a

omit [Sha256] [LocaleCompare] in
theorem evaluate_ne_cycle (state : Execution) (stage : QueryStage) :
    evaluate runStage input state stage ≠ .error .cycle := by
  refine bind_ne_cycle ?_ (fun evaluation => ?_)
  · cases runStage stage (inputsOf state stage) <;> nofun
  · split <;> nofun

omit [Sha256] [LocaleCompare] in
theorem evaluateAll_ne_cycle (state : Execution) (ready : List QueryStage) :
    evaluateAll runStage input state ready ≠ .error .cycle := by
  induction ready with
  | nil => nofun
  | cons stage ready ih =>
    exact bind_ne_cycle (evaluate_ne_cycle state stage) (fun _ => bind_ne_cycle ih (fun _ => nofun))

theorem sealOutputs_ne_cycle (stageId : Text) (outputs : List (Text × Values)) (state : Execution) :
    sealOutputs (E := E) input stageId outputs state ≠ .error .cycle := by
  intro h
  induction outputs generalizing state with
  | nil => cases h
  | cons output outputs ih =>
    rw [sealOutputs] at h
    split at h
    · cases h
    · exact ih _ h

theorem sealAll_ne_cycle (evaluated : List (QueryStage × OperationEvaluation)) (state : Execution) :
    sealAll (E := E) input evaluated state ≠ .error .cycle := by
  induction evaluated generalizing state with
  | nil => nofun
  | cons stage evaluated ih =>
    refine bind_ne_cycle (bind_ne_cycle (sealOutputs_ne_cycle _ _ _) (fun _ => ?_))
      (fun next => ih next)
    split <;> nofun

theorem runFrontier_ne_cycle (ready : List QueryStage) (state : Execution) :
    runFrontier runStage input ready state ≠ .error .cycle :=
  bind_ne_cycle (evaluateAll_ne_cycle _ _) (fun _ => sealAll_ne_cycle _ _)

theorem runFrontiers_ne_cycle (rounds : List (List QueryStage)) (state : Execution) :
    runFrontiers runStage input rounds state ≠ .error .cycle := by
  induction rounds generalizing state with
  | nil => nofun
  | cons ready rounds ih =>
    exact bind_ne_cycle (runFrontier_ne_cycle _ _) (fun next => ih next)

omit [Sha256] [LocaleCompare] in
theorem setOutput_ne_cycle (state : Execution) (found : Streams)
    (output : StageOutputReference × Option Text) :
    setOutput (E := E) input state found output ≠ .error .cycle := by
  intro h
  rw [setOutput] at h
  split at h
  · cases h
  · split at h
    · cases h
    · split at h <;> cases h

omit [Sha256] [LocaleCompare] in
theorem finish_ne_cycle (state : Execution) : finish (E := E) input state ≠ .error .cycle := by
  refine bind_ne_cycle ?_ (fun found h => by cases h)
  generalize (⟨[], []⟩ : Streams) = found
  induction input.outputs generalizing found with
  | nil => exact fun h => by cases h
  | cons output outputs ih =>
    rw [List.foldlM_cons]
    exact bind_ne_cycle (setOutput_ne_cycle _ _ _) (fun next => ih next)

end Cycles

section Outcomes

variable [Sha256] [LocaleCompare] {E : Type}
  {runStage : QueryStage → StageInputs → Except E OperationEvaluation}
  {input : ExecutePipelineInput}
  {evaluations : Text → OperationEvaluation} {done done' stages pending : List QueryStage}
  {rounds rounds' : List (List QueryStage)}
  {state next final : Execution}

def SameOutcome : Except (PipelineError E) PipelineResult →
      Except (PipelineError E) PipelineResult → Prop
  | .ok result, .ok other => result.streams = other.streams ∧ result.sources = other.sources ∧
      result.overallStatus = other.overallStatus ∧ result.dimensions.Perm other.dimensions
  | .error _, .error _ => True
  | _, _ => False

theorem Reached.read_eq (h : Reached input evaluations done state)
    (h' : Reached input evaluations done' next)
    (hnamed : Named evaluations done) (hnamed' : Named evaluations done') (hperm : done.Perm done')
    (key : Text) :
    readHandle state key = readHandle next key := by
  have hviews := (hperm.flatMap_right (fun stage => setsOf input.executionId stage.stageId
    (evaluations stage.stageId).outputs)).map (fun set => (setKey set, viewOf input.spool.kind set))
  rw [h.read hnamed, h'.read hnamed']
  refine AssocMap.get_perm hviews ?_ key
  exact keys_viewsOf input.spool.kind (sealedSets input evaluations done) ▸ hnamed.keys

omit [Sha256] [LocaleCompare] in
theorem overallStatus_perm {results results' : List (Text × OperationEvaluation)}
    (h : results.Perm results') :
    overallStatus results = overallStatus results' := by
  have hreported := h.map (fun entry => entry.2.status.getD (propertyName "unknown"))
  have hcontains : ∀ status,
      (results.map (fun entry => entry.2.status.getD (propertyName "unknown"))).contains status =
      (results'.map (fun entry => entry.2.status.getD (propertyName "unknown"))).contains
        status := by
    intro status
    rw [Bool.eq_iff_iff, List.contains_iff_mem, List.contains_iff_mem]
    exact hreported.mem_iff
  simp only [overallStatus, hcontains]

theorem finish_same (h : Reached input evaluations done state)
    (h' : Reached input evaluations done' next)
    (hnamed : Named evaluations done) (hnamed' : Named evaluations done')
    (hperm : done.Perm done') :
    SameOutcome (E := E) (finish input state) (finish input next) := by
  have hresults : state.results.Perm next.results := by
    rw [h.results, h'.results]
    exact hperm.map _
  have hread : readHandle state = readHandle next := funext (h.read_eq h' hnamed hnamed' hperm)
  have hset : setOutput (E := E) input state = setOutput input next := by
    funext found output
    simp only [setOutput, outputOf, hread]
  rw [finish, finish, hset]
  cases input.outputs.foldlM (setOutput (E := E) input next) ⟨[], []⟩ with
  | error fault => trivial
  | ok found => exact ⟨rfl, rfl, overallStatus_perm hresults, hresults.flatMap_right _⟩

structure Clean (input : ExecutePipelineInput) : Prop where
  bounded : input.spool.bytes ≤ input.spool.hardBytes
  stored : input.spool.Stored input.executionId []
  commits : ∀ c, (input.database c).transactionFails = false

theorem started_reached (evaluations : Text → OperationEvaluation) (h : Clean input) :
    Reached input evaluations [] (started input) :=
  ⟨rfl, rfl, h.stored, rfl, rfl, (add_zero _).symm, h.bounded⟩

structure Schedule (stages : List QueryStage) (rounds : List (List QueryStage)) : Prop where
  scheduled : Scheduled [] rounds
  perm : rounds.flatten.Perm stages

omit [Sha256] [LocaleCompare] in
theorem ReadsDependencies.perm (h : ReadsDependencies stages) (hperm : rounds.flatten.Perm stages) :
    ReadsDependencies rounds.flatten := fun stage hstage => h stage (hperm.subset hstage)

structure Planned (stages : List QueryStage) : Prop where
  ordered : DependencyOrder.Ordered QueryStage.stageId dependencies [] stages
  reads : ReadsDependencies stages
  plain : ∀ stage ∈ stages, Plain stage.stageId

theorem runFrontiers_transfer (hplanned : Planned stages) (hnames : NamesOutputs runStage)
    (hclean : Clean input)
    (h : Schedule stages rounds) (h' : Schedule stages rounds')
    (hrun : runFrontiers runStage input rounds (started input) = .ok final) :
    ∃ final', runFrontiers runStage input rounds' (started input) = .ok final' ∧
      SameOutcome (E := E) (finish input final) (finish input final') := by
  have hdistinct : ∀ {rounds}, Schedule stages rounds →
      (rounds.flatten.map QueryStage.stageId).Nodup :=
    fun h => (h.perm.map QueryStage.stageId).nodup_iff.mpr hplanned.ordered.nodup
  have hplain : ∀ {rounds}, Schedule stages rounds → ∀ stage ∈ rounds.flatten,
      Plain stage.stageId :=
    fun h stage hstage => hplanned.plain stage (h.perm.subset hstage)
  have hempty : Closed [] := fun _ hstage => absurd hstage List.not_mem_nil
  obtain ⟨evaluations, hsolved, hreached⟩ := runFrontiers_ok
    (started_reached (fun _ => ⟨[], List.nodup_nil, 0, none, []⟩) hclean) hnames (hplain h) hempty
      h.scheduled
    (hdistinct h) (hplanned.reads.perm h.perm) (fun _ hstage => absurd hstage List.not_mem_nil) hrun
  rw [List.nil_append] at hsolved hreached
  have hperm : rounds.flatten.Perm rounds'.flatten := h.perm.trans h'.perm.symm
  have hsolved' : ∀ stage ∈ rounds'.flatten, Solves runStage input evaluations stage :=
    fun stage hstage => hsolved stage (hperm.symm.subset hstage)
  have hnamed := named_of_solves (hdistinct h) (hplain h) hsolved
  have hnamed' := named_of_solves (hdistinct h') (hplain h') hsolved'
  have hsame : totalSize evaluations rounds'.flatten = totalSize evaluations rounds.flatten :=
    (hperm.symm.map (stageSize evaluations)).sum_eq
  have hroom : input.spool.bytes + totalSize evaluations ([] ++ rounds'.flatten) ≤
      input.spool.hardBytes := by
    rw [List.nil_append, hsame, ← hreached.spool.bytes, ← hreached.spool.hardBytes]
    exact hreached.spool.bounded
  obtain ⟨final', hfinal, hreached'⟩ :=
    runFrontiers_succeeds (started_reached evaluations hclean) h'.scheduled
    hnamed' (hplanned.reads.perm h'.perm) hsolved' hroom hclean.commits
  exact ⟨final', hfinal, finish_same hreached hreached' hnamed hnamed' hperm⟩

theorem runFrontiers_agree (hplanned : Planned stages) (hnames : NamesOutputs runStage)
    (hclean : Clean input)
    (h : Schedule stages rounds) (h' : Schedule stages rounds') :
    SameOutcome ((runFrontiers runStage input rounds (started input)).bind (finish input))
      ((runFrontiers runStage input rounds' (started input)).bind (finish input)) := by
  cases hrun : runFrontiers runStage input rounds (started input) with
  | ok final =>
    obtain ⟨final', hfinal, hsame⟩ := runFrontiers_transfer hplanned hnames hclean h h' hrun
    rw [hfinal]
    exact hsame
  | error fault =>
    cases hrun' : runFrontiers runStage input rounds' (started input) with
    | error fault' => trivial
    | ok final' =>
      obtain ⟨final, hfinal, -⟩ := runFrontiers_transfer hplanned hnames hclean h' h hrun'
      rw [hrun] at hfinal
      cases hfinal

theorem runInOrder_eq (stages : List QueryStage) (state : Execution) :
    runInOrder runStage input stages state =
      runFrontiers runStage input (stages.map (fun stage => [stage])) state := by
  induction stages generalizing state with
  | nil => rfl
  | cons stage stages ih =>
    rw [runInOrder, List.map_cons, runFrontiers]
    exact bind_congr (fun next => ih next)

omit [Sha256] [LocaleCompare] in
theorem ordered_scheduled {earlier ids : List Text}
    (h : Ordered QueryStage.stageId dependencies earlier stages)
    (hsubset : earlier ⊆ ids) : Scheduled ids (stages.map (fun stage => [stage])) := by
  induction stages generalizing earlier ids with
  | nil => trivial
  | cons stage stages ih =>
    obtain ⟨-, hneeds, hrest⟩ := h
    refine ⟨fun other hother dependency hdependency => ?_, ih hrest ?_⟩
    · rw [List.mem_singleton.mp hother] at hdependency
      exact hsubset (hneeds dependency hdependency)
    · intro stageId hstageId
      rcases List.mem_cons.mp hstageId with rfl | hearlier
      · exact List.mem_append_right _ List.mem_cons_self
      · exact List.mem_append_left _ (hsubset hearlier)

omit [Sha256] [LocaleCompare] in
theorem in_order_schedule (h : Ordered QueryStage.stageId dependencies [] stages) :
    Schedule stages (stages.map (fun stage => [stage])) := by
  refine ⟨ordered_scheduled h (List.Subset.refl _), ?_⟩
  rw [← List.flatMap_def, List.flatMap_singleton']

omit [Sha256] [LocaleCompare] in
theorem layers_schedule (h : Ordered QueryStage.stageId dependencies [] stages)
    (hperm : pending.Perm stages) {fuel : ℕ}
    (hfuel : pending.length ≤ fuel) : Schedule stages (layers fuel [] pending) := by
  have hleft : Left stages pending [] :=
    ⟨hperm.subset, fun stage hstage hnot => absurd (hperm.symm.subset hstage) hnot⟩
  exact ⟨layers_scheduled _ _ _, (layers_flatten h fuel hleft hfuel).trans hperm⟩

theorem executePipeline_layers (hplanned : Planned stages) (hnames : NamesOutputs runStage)
    (hclean : Clean input)
    (hperm : input.stages.Perm stages) (haborted : ∀ round, input.aborted round = false) :
    executePipeline runStage input =
      some ((runFrontiers runStage input (layers (input.stages.length + 1) [] input.stages)
        (started input)).bind
        (finish input)) := by
  have hrounds : executeRounds runStage input (input.stages.length + 1) 0 input.stages
      (started input) =
      some (runFrontiers runStage input (layers (input.stages.length + 1) [] input.stages)
        (started input)) :=
    executeRounds_layers hplanned.ordered hplanned.reads hplanned.plain hnames haborted _ _
      (started_reached (fun _ => ⟨[], List.nodup_nil, 0, none, []⟩) hclean)
      (fun _ hstage => absurd hstage List.not_mem_nil)
        (fun _ hstage => absurd hstage List.not_mem_nil)
      hperm (Nat.lt_succ_self _)
  rw [executePipeline, hrounds]
  rfl

theorem executePipeline_in_order (hplanned : Planned stages) (hnames : NamesOutputs runStage)
    (hclean : Clean input)
    (hperm : input.stages.Perm stages) (haborted : ∀ round, input.aborted round = false) :
    ∃ outcome, executePipeline runStage input = some outcome ∧ outcome ≠ .error .cycle ∧
      SameOutcome outcome (executeInOrder runStage input stages) := by
  refine ⟨_, executePipeline_layers hplanned hnames hclean hperm haborted,
    bind_ne_cycle (runFrontiers_ne_cycle _ _) finish_ne_cycle, ?_⟩
  rw [executeInOrder, runInOrder_eq]
  exact runFrontiers_agree hplanned hnames hclean
    (layers_schedule hplanned.ordered hperm (Nat.le_succ _))
    (in_order_schedule hplanned.ordered)

end Outcomes

section Orders

variable [Sha256] [LocaleCompare] {E : Type}
  {runStage : QueryStage → StageInputs → Except E OperationEvaluation}
  {input : ExecutePipelineInput}
  {ready pending : List QueryStage} {state next : Execution}

omit [Sha256] [LocaleCompare] in
theorem evaluateAll_stages {results : List (QueryStage × OperationEvaluation)}
    (h : evaluateAll runStage input state ready = .ok results) :
    results.map Prod.fst = ready := by
  induction ready generalizing results with
  | nil =>
    obtain rfl := Except.ok.inj h
    rfl
  | cons stage ready ih =>
    obtain ⟨evaluation, -, hrest⟩ := ExceptOk.bind_eq_ok h
    obtain ⟨others, hothers, hresults⟩ := ExceptOk.bind_eq_ok hrest
    obtain rfl := Except.ok.inj hresults
    rw [List.map_cons, ih hothers]

theorem sealOutputs_results {stageId : Text} {outputs : List (Text × Values)}
    (h : sealOutputs (E := E) input stageId outputs state = .ok next) :
    next.results = state.results := by
  induction outputs generalizing state with
  | nil =>
    obtain rfl := Except.ok.inj h
    rfl
  | cons output outputs ih =>
    rw [sealOutputs] at h
    split at h
    · cases h
    · have hrest := ih h
      exact hrest

theorem sealAll_ids {evaluated : List (QueryStage × OperationEvaluation)}
    (hnodup : (state.results.map Prod.fst ++ (evaluated.map Prod.fst).map QueryStage.stageId).Nodup)
    (h : sealAll (E := E) input evaluated state = .ok next) :
    next.results.map Prod.fst = state.results.map Prod.fst ++
      (evaluated.map Prod.fst).map QueryStage.stageId := by
  induction evaluated generalizing state with
  | nil =>
    obtain rfl := Except.ok.inj h
    exact (List.append_nil _).symm
  | cons entry evaluated ih =>
    obtain ⟨stage, evaluation⟩ := entry
    have hsplit : state.results.map Prod.fst ++
        (((stage, evaluation) :: evaluated).map Prod.fst).map QueryStage.stageId =
        (state.results.map Prod.fst ++ [stage.stageId]) ++
          (evaluated.map Prod.fst).map QueryStage.stageId := by simp
    obtain ⟨middle, hseal, hrest⟩ := ExceptOk.bind_eq_ok h
    obtain ⟨sealed, houtputs, hlast⟩ := ExceptOk.bind_eq_ok hseal
    rw [hsplit] at hnodup ⊢
    split at hlast
    · cases hlast
    · obtain rfl := Except.ok.inj hlast
      have hnew : stage.stageId ∉ sealed.results.map Prod.fst := by
        rw [sealOutputs_results houtputs]
        exact fun hmem => (List.nodup_append.mp (List.nodup_append.mp hnodup).1).2.2 _ hmem
          _ (List.mem_singleton_self _) rfl
      have hids : (setEntry sealed.results stage.stageId evaluation).map Prod.fst =
          state.results.map Prod.fst ++ [stage.stageId] := by
        rw [setEntry_new hnew, List.map_append, sealOutputs_results houtputs]
        rfl
      rw [← hids] at hnodup ⊢
      exact ih hnodup hrest

theorem runFrontier_ids
    (hnodup : (state.results.map Prod.fst ++ ready.map QueryStage.stageId).Nodup)
    (h : runFrontier runStage input ready state = .ok next) :
    next.results.map Prod.fst = state.results.map Prod.fst ++ ready.map QueryStage.stageId := by
  obtain ⟨results, hall, hseal⟩ := ExceptOk.bind_eq_ok h
  rw [← evaluateAll_stages hall] at hnodup ⊢
  exact sealAll_ids hnodup hseal

theorem executeRounds_ordered (fuel round : ℕ)
    (hnodup : (state.results.map Prod.fst ++ pending.map QueryStage.stageId).Nodup)
    (hfuel : pending.length < fuel) :
    ∃ outcome, executeRounds runStage input fuel round pending state = some outcome ∧
      (∀ final, outcome = .ok final → ∃ stages : List QueryStage, stages.Perm pending ∧
        Ordered QueryStage.stageId dependencies (state.results.map Prod.fst) stages) ∧
      (outcome = .error .cycle → ∀ stages, Ordered QueryStage.stageId dependencies [] stages →
        ¬ Left stages pending (state.results.map Prod.fst)) := by
  induction fuel generalizing round pending state with
  | zero => omega
  | succ fuel ih =>
    cases pending with
    | nil => exact ⟨_, rfl, fun _ _ => ⟨[], List.Perm.refl _, trivial⟩, nofun⟩
    | cons stage pending =>
      rw [executeRounds]
      cases input.aborted round with
      | true => exact ⟨_, if_pos rfl, nofun, nofun⟩
      | false =>
        rw [if_neg Bool.false_ne_true, isReady_eq]
        have hsplit :=
          List.filter_append_perm (readyAfter (state.results.map Prod.fst)) (stage :: pending)
        generalize hnow : (stage :: pending).filter (readyAfter (state.results.map Prod.fst)) =
          ready at hsplit ⊢
        generalize hlater : (stage :: pending).filter
          (fun stage => !readyAfter (state.results.map Prod.fst) stage) = rest
          at hsplit ⊢
        have hready : ∀ other ∈ stage :: pending, readyAfter (state.results.map Prod.fst) other =
            true → other ∈ ready :=
          fun other hother hreadyOther => hnow ▸ List.mem_filter.mpr ⟨hother, hreadyOther⟩
        have hneeds : ∀ other ∈ ready, ∀ dependency ∈ dependencies other,
            dependency ∈ state.results.map Prod.fst := by
          rw [← hnow]
          exact fun other hother => readyAfter_iff.mp (List.mem_filter.mp hother).2
        cases ready with
        | nil =>
          refine ⟨_, rfl, nofun, fun _ stages hordered hleft => ?_⟩
          obtain ⟨other, hother, hreadyOther⟩ := hleft.exists_ready hordered (List.cons_ne_nil _ _)
          exact absurd (hready other hother hreadyOther) List.not_mem_nil
        | cons first ready =>
          dsimp only
          have hids :
              (state.results.map Prod.fst ++ ((first :: ready) ++ rest).map
                QueryStage.stageId).Nodup :=
            ((hsplit.map QueryStage.stageId).append_left _).nodup_iff.mpr hnodup
          rw [List.map_append, ← List.append_assoc] at hids
          have hdistinct := (List.nodup_append.mp hids).1
          cases hrun : runFrontier runStage input (first :: ready) state with
          | error fault =>
            refine ⟨_, rfl, nofun, fun hcycle => ?_⟩
            have hfault : fault = .cycle := Except.error.inj hcycle
            rw [hfault] at hrun
            exact absurd hrun (runFrontier_ne_cycle _ _)
          | ok next =>
            have hnext := runFrontier_ids hdistinct hrun
            have hshorter : rest.length < fuel := by
              have hlength := hsplit.length_eq
              simp only [List.length_append, List.length_cons] at hlength hfuel
              omega
            rw [← hnext] at hids
            obtain ⟨outcome, hrounds, hok, hstuck⟩ := ih (round + 1) hids hshorter
            refine ⟨outcome, hrounds, fun final hfinal => ?_,
              fun hcycle stages hordered hleft => ?_⟩
            · obtain ⟨stages, hperm, hordered⟩ := hok final hfinal
              refine ⟨(first :: ready) ++ stages, (hperm.append_left _).trans hsplit, ?_⟩
              exact Ordered.prepend hneeds hdistinct hordered
                (fun k => by rw [hnext, List.mem_append])
            · have hafter := hleft.next
              rw [hnow, hlater, ← hnext] at hafter
              exact hstuck hcycle stages hordered hafter

def Orderable (stages : List QueryStage) : Prop :=
  ∃ ordered : List QueryStage, ordered.Perm stages ∧
    Ordered QueryStage.stageId dependencies [] ordered

theorem executePipeline_orderable (hnodup : (input.stages.map QueryStage.stageId).Nodup) :
    ∃ outcome, executePipeline runStage input = some outcome ∧
      (∀ result, outcome = .ok result → Orderable input.stages) ∧
      (outcome = .error .cycle → ¬ Orderable input.stages) := by
  obtain ⟨outcome, hrounds, hok, hstuck⟩ :=
    @executeRounds_ordered _ _ E runStage input input.stages (started input)
      (input.stages.length + 1) 0 hnodup (Nat.lt_succ_self _)
  refine ⟨outcome.bind (finish input), ?_, fun result hresult => ?_, ?_⟩
  · rw [executePipeline, hrounds]
    rfl
  · obtain ⟨final, hfinal, -⟩ := ExceptOk.bind_eq_ok hresult
    exact hok final hfinal
  · rintro hcycle ⟨stages, hperm, hordered⟩
    have hfault : outcome = .error .cycle := by
      cases outcome with
      | ok final => exact absurd hcycle (finish_ne_cycle final)
      | error fault => exact congrArg Except.error (Except.error.inj hcycle)
    exact hstuck hfault stages hordered
      ⟨hperm.symm.subset, fun stage hstage hnot => absurd (hperm.subset hstage) hnot⟩

end Orders

section Sample

def sampleStage (name : String) (operator : Operator) (inputs : List String) : QueryStage :=
  ⟨propertyName name, operator, inputs.map
    (fun input => ⟨propertyName input, propertyName "subjects"⟩), .object []⟩

def sampleStages : List QueryStage :=
  [sampleStage "left" .sourceRegistry [], sampleStage "once" .deduplicate ["left"],
    sampleStage "right" .sourceRegistry [], sampleStage "both" .setUnion ["once", "right"]]

def sampleRun (stage : QueryStage) (inputs : StageInputs) : Except Unit OperationEvaluation :=
  let found := inputs.flatMap (fun input => (input.2.map (fun view => view.2.items)).getD [])
  let items : List Spool.QueryStreamItem := match stage.operator with
    | .sourceRegistry => [Spool.StageSpool.sampleItem]
    | _ => found.map (fun value => ⟨value, propertyName "a", []⟩)
  .ok ⟨[(propertyName "subjects", ⟨items, false⟩)], List.nodup_singleton _, items.length,
    some (propertyName "complete"), []⟩

def sampleInput : ExecutePipelineInput where
  executionId := propertyName "e"
  stages := sampleStages.reverse
  outputs := [(⟨propertyName "both", propertyName "subjects"⟩, none)]
  maxRows := some 8
  streamFinal := false
  spool := Spool.StageSpool.sampleSqlite
  database := fun _ => Spool.StageSpool.working
  aborted := fun _ => false

example : (layers 5 [] sampleStages).map (fun ready => ready.map QueryStage.stageId) =
    [[propertyName "left", propertyName "right"], [propertyName "once"],
      [propertyName "both"]] := by decide

theorem executePipeline_in_order_sample :
    let _ : Sha256 := Spool.StageSpool.fixedDigest
    let _ : LocaleCompare := Spool.StageSpool.codeUnitOrder
    ∃ outcome, executePipeline sampleRun sampleInput = some outcome ∧
      outcome ≠ .error .cycle ∧ SameOutcome outcome
        (executeInOrder sampleRun sampleInput sampleStages) := by
  intro _ _
  have hordered : DependencyOrder.Ordered QueryStage.stageId dependencies [] sampleStages :=
    ⟨by decide, by decide, by decide, by decide, by decide, by decide, by decide,
      by decide, trivial⟩
  have hplain : ∀ stage ∈ sampleStages, Plain stage.stageId := by
    intro stage hstage
    have hseparator : ∀ stage ∈ sampleStages, 0 ∉ stage.stageId := by decide
    refine ⟨?_, hseparator stage hstage⟩
    rcases List.mem_cons.mp hstage with rfl | hstage
    · exact ⟨_, rfl⟩
    rcases List.mem_cons.mp hstage with rfl | hstage
    · exact ⟨_, rfl⟩
    rcases List.mem_cons.mp hstage with rfl | hstage
    · exact ⟨_, rfl⟩
    · rw [List.mem_singleton.mp hstage]
      exact ⟨_, rfl⟩
  have hnames : NamesOutputs sampleRun := by
    intro stage inputs evaluation h output houtput
    obtain rfl := Except.ok.inj h
    rw [List.mem_singleton.mp houtput]
    exact ⟨_, rfl⟩
  exact executePipeline_in_order ⟨hordered, by unfold ReadsDependencies; decide, hplain⟩ hnames
    ⟨by decide, rfl, fun _ => rfl⟩ (List.reverse_perm _) (fun _ => rfl)

def circleInput : ExecutePipelineInput :=
  { sampleInput with
    stages := [sampleStage "left" .deduplicate ["right"], sampleStage "right" .deduplicate ["left"]] }

theorem executePipeline_orderable_circle :
    let _ : Sha256 := Spool.StageSpool.fixedDigest
    let _ : LocaleCompare := Spool.StageSpool.codeUnitOrder
    ∃ outcome, executePipeline sampleRun circleInput = some outcome ∧
      (∀ result, outcome = .ok result → Orderable circleInput.stages) ∧
      (outcome = .error .cycle → ¬ Orderable circleInput.stages) := by
  intro _ _
  exact executePipeline_orderable (by decide)

end Sample

end Pipeline

end Engine
