import Urdira.Engine.PipelineExecutor

open Canonical MerkleBucket TextCodec Utf16

namespace Engine

namespace Pipeline

open Spool StageSpool

def WellFormed (text : Text) : Prop := ∃ chars, text = encode chars

structure Plain (stageId : Text) : Prop where
  wellFormed : WellFormed stageId
  noSeparator : 0 ∉ stageId

section Keys

theorem encodeUtf8_inj {left right : Text} (hleft : WellFormed left) (hright : WellFormed right)
    (h : encodeUtf8 left = encodeUtf8 right) : left = right := by
  obtain ⟨chars, rfl⟩ := hleft
  obtain ⟨others, rfl⟩ := hright
  rw [encodeUtf8, encodeUtf8, scalars_encode, scalars_encode] at h
  have hstring := NativeCore.utf8_injective h
  rw [String.ofList_injective hstring]

theorem handleKey_inj {stageId stageId' output output' : Text} (h : 0 ∉ stageId) (h' : 0 ∉ stageId')
    (hkey : handleKey stageId output = handleKey stageId' output') :
    stageId = stageId' ∧ output = output' := by
  induction stageId generalizing stageId' with
  | nil =>
    cases stageId' with
    | nil => exact ⟨rfl, (List.cons.inj hkey).2⟩
    | cons unit rest => exact absurd ((List.cons.inj hkey).1 ▸ List.mem_cons_self) h'
  | cons unit rest ih =>
    cases stageId' with
    | nil => exact absurd ((List.cons.inj hkey).1 ▸ List.mem_cons_self) h
    | cons unit' rest' =>
      obtain ⟨rfl, hrest⟩ := List.cons.inj hkey
      obtain ⟨rfl, rfl⟩ := ih (fun hmem => h (List.mem_cons_of_mem _ hmem))
        (fun hmem => h' (List.mem_cons_of_mem _ hmem)) hrest
      exact ⟨rfl, rfl⟩

variable {K V : Type} [DecidableEq K] {entries : List (K × V)} {k : K} {v : V}

theorem setEntry_new (h : k ∉ entries.map Prod.fst) :
    setEntry entries k v = entries ++ [(k, v)] := by
  have hnone : entries.any (fun entry => decide (entry.1 = k)) = false := by
    rw [List.any_eq_false]
    intro entry hentry hkey
    exact h (List.mem_map.mpr ⟨entry, hentry, of_decide_eq_true hkey⟩)
  rw [setEntry, hnone, if_neg Bool.false_ne_true]

end Keys

section Outputs

variable [Sha256] [LocaleCompare] {E : Type} {input : ExecutePipelineInput} {stageId : Text}
  {outputs : List (Text × Values)} {sets : SealedSets} {state next : Execution}

def setsOf (executionId stageId : Text) (outputs : List (Text × Values)) : SealedSets :=
  outputs.map (fun output => (⟨executionId, stageId, output.1⟩, output.2.items))

def viewOf (kind : Kind) (set : Coordinates × List Spool.QueryStreamItem) : StageInput :=
  (handleOf kind set.1 set.2, yieldsOf kind set.1 set.2)

def setKey (set : Coordinates × List Spool.QueryStreamItem) : Text :=
  handleKey set.1.stageId set.1.output

def handlesOf (kind : Kind) (sets : SealedSets) : List (Text × StageSetHandle) :=
  sets.map (fun set => (setKey set, handleOf kind set.1 set.2))

def outputsSize (outputs : List (Text × Values)) : ℕ :=
  (outputs.map (fun output => valuesSize output.2)).sum

structure SealedFrom (executionId stageId : Text) (outputs : List (Text × Values))
    (sets : SealedSets)
    (state next : Execution) : Prop where
  results : next.results = state.results
  handles : next.handles = state.handles ++ handlesOf state.spool.kind
    (setsOf executionId stageId outputs)
  spool : Grown state.spool next.spool (outputsSize outputs)
  stored : next.spool.Stored executionId (sets ++ setsOf executionId stageId outputs)

def Unsealed (stageId : Text) (outputs : List (Text × Values)) (state : Execution) : Prop :=
  ∀ output ∈ outputs, handleKey stageId output.1 ∉ state.handles.map Prod.fst

theorem SealedFrom.nil (hstored : state.spool.Stored input.executionId sets)
    (hbounded : state.spool.bytes ≤ state.spool.hardBytes) :
    SealedFrom input.executionId stageId [] sets state state :=
  ⟨rfl, (List.append_nil _).symm, ⟨rfl, rfl, (add_zero _).symm, hbounded⟩,
    by simpa [setsOf] using hstored⟩

theorem SealedFrom.cons {output : Text} {values : Values} {spool : StageSpool}
    (hspool : Grown state.spool spool (valuesSize values))
    (h : SealedFrom input.executionId stageId outputs
      (sets ++ [(⟨input.executionId, stageId, output⟩, values.items)])
      { state with
        spool, handles := state.handles ++ [(handleKey stageId output,
          handleOf state.spool.kind ⟨input.executionId, stageId, output⟩ values.items)] } next) :
    SealedFrom input.executionId stageId ((output, values) :: outputs) sets state next := by
  have hsets : setsOf input.executionId stageId ((output, values) :: outputs) =
      (⟨input.executionId, stageId, output⟩, values.items) :: setsOf input.executionId stageId
        outputs := rfl
  have hstored := h.stored
  rw [List.append_assoc] at hstored
  refine ⟨h.results, ?_, ⟨?_, ?_, ?_, h.spool.bounded⟩, hstored⟩
  · rw [h.handles, List.append_assoc, hsets]
    dsimp only
    rw [hspool.kind]
    rfl
  · exact h.spool.kind.trans hspool.kind
  · exact h.spool.hardBytes.trans hspool.hardBytes
  · have hused := h.spool.bytes
    have hmiddle := hspool.bytes
    have hsize : outputsSize ((output, values) :: outputs) =
        valuesSize values + outputsSize outputs := rfl
    dsimp only at hused
    rw [hsize]
    push_cast
    omega

omit [Sha256] [LocaleCompare] in
theorem Unsealed.sealed {output : Text} {values : Values} {spool : StageSpool}
    {handle : StageSetHandle}
    (h : Unsealed stageId ((output, values) :: outputs) state)
    (hdistinct : (((output, values) :: outputs).map Prod.fst).Nodup) :
    Unsealed stageId outputs
      { state with spool, handles := state.handles ++ [(handleKey stageId output, handle)] } := by
  intro other hother hmem
  rw [List.map_append, List.mem_append] at hmem
  rcases hmem with hold | hnew
  · exact h other (List.mem_cons_of_mem _ hother) hold
  · have hname : other.1 = output :=
      (List.cons.inj (List.append_cancel_left (List.mem_singleton.mp hnew))).2
    have hfirst := (List.nodup_cons.mp hdistinct).1
    exact hfirst (List.mem_map.mpr ⟨other, hother, hname⟩)

theorem sealOutputs_ok (hunsealed : Unsealed stageId outputs state)
    (hdistinct : (outputs.map Prod.fst).Nodup)
    (hstored : state.spool.Stored input.executionId sets)
    (hbounded : state.spool.bytes ≤ state.spool.hardBytes)
    (h : sealOutputs (E := E) input stageId outputs state = .ok next) :
    (∀ output ∈ outputs, Sealable output.2) ∧
      SealedFrom input.executionId stageId outputs sets state next := by
  induction outputs generalizing state sets with
  | nil =>
    obtain rfl := Except.ok.inj h
    exact ⟨List.forall_mem_nil _, .nil hstored hbounded⟩
  | cons output outputs ih =>
    obtain ⟨output, values⟩ := output
    rw [sealOutputs] at h
    split at h
    · cases h
    · rename_i spool handle hput
      obtain ⟨hsealable, rfl, hgrown, hnext⟩ := put_ok hstored hbounded hput
      rw [setEntry_new (hunsealed _ List.mem_cons_self)] at h
      obtain ⟨hall, hsealed⟩ :=
        ih (hunsealed.sealed hdistinct) (List.nodup_cons.mp hdistinct).2 hnext hgrown.bounded h
      exact ⟨List.forall_mem_cons.mpr ⟨hsealable, hall⟩, .cons hgrown hsealed⟩

theorem sealOutputs_succeeds (hunsealed : Unsealed stageId outputs state)
    (hdistinct : (outputs.map Prod.fst).Nodup)
    (hstored : state.spool.Stored input.executionId sets)
    (hapart : Distinct (sets ++ setsOf input.executionId stageId outputs))
    (hsealable : ∀ output ∈ outputs, Sealable output.2)
    (hroom : state.spool.bytes + outputsSize outputs ≤ state.spool.hardBytes)
    (hcommits : ∀ c, (input.database c).transactionFails = false) :
    ∃ next, sealOutputs (E := E) input stageId outputs state = .ok next ∧
      SealedFrom input.executionId stageId outputs sets state next := by
  induction outputs generalizing state sets with
  | nil =>
    have hbounded : state.spool.bytes ≤ state.spool.hardBytes := by
      have hzero : outputsSize [] = 0 := rfl
      rw [hzero] at hroom
      omega
    exact ⟨state, rfl, .nil hstored hbounded⟩
  | cons output outputs ih =>
    obtain ⟨output, values⟩ := output
    have hsize : outputsSize ((output, values) :: outputs) =
        valuesSize values + outputsSize outputs := rfl
    rw [hsize] at hroom
    push_cast at hroom
    obtain ⟨hfirst, hrest⟩ := List.forall_mem_cons.mp hsealable
    have hvalues : Sealable values := hfirst
    have hkeys : ∀ set ∈ sets, SqliteStageSpool.storedKey set.1 ≠
        SqliteStageSpool.storedKey ⟨input.executionId, stageId, output⟩ := by
      intro set hset heq
      rw [Distinct, List.map_append] at hapart
      exact (List.nodup_append.mp hapart).2.2 _ (List.mem_map_of_mem hset) _ List.mem_cons_self heq
    obtain ⟨spool, handle, hput⟩ := put_succeeds hstored hkeys hvalues (by omega) (hcommits _)
    obtain ⟨-, rfl, hgrown, hnext⟩ := put_ok hstored (by omega) hput
    have hleft : spool.bytes + outputsSize outputs ≤ spool.hardBytes := by
      rw [hgrown.bytes, hgrown.hardBytes]
      omega
    have hsplit : Distinct ((sets ++ [(⟨input.executionId, stageId, output⟩, values.items)]) ++
        setsOf input.executionId stageId outputs) := by
      rw [List.append_assoc]
      exact hapart
    obtain ⟨next, hseal, hsealed⟩ := @ih _ { state with
        spool, handles := state.handles ++ [(handleKey stageId output,
          handleOf state.spool.kind ⟨input.executionId, stageId, output⟩ values.items)] }
      (hunsealed.sealed hdistinct) (List.nodup_cons.mp hdistinct).2 hnext hsplit hrest hleft
    refine ⟨next, ?_, .cons hgrown hsealed⟩
    rw [sealOutputs, hput]
    dsimp only
    rw [setEntry_new (hunsealed _ List.mem_cons_self)]
    exact hseal

end Outputs

section Stages

variable [Sha256] [LocaleCompare] {E : Type}
  {runStage : QueryStage → StageInputs → Except E OperationEvaluation}
  {input : ExecutePipelineInput} {evaluations : Text → OperationEvaluation}
  {done ready : List QueryStage}
  {stage : QueryStage} {state next : Execution} {reference : StageOutputReference}

def inputOf (input : ExecutePipelineInput) (evaluations : Text → OperationEvaluation)
    (reference : StageOutputReference) : Option StageInput :=
  (AssocMap.get (evaluations reference.stageId).outputs reference.output).map
    (fun values => viewOf input.spool.kind
      (⟨input.executionId, reference.stageId, reference.output⟩, values.items))

def resolved (input : ExecutePipelineInput) (evaluations : Text → OperationEvaluation)
    (stage : QueryStage) :
    StageInputs :=
  (reads stage).map (fun reference => (reference, inputOf input evaluations reference))

structure Accepted (input : ExecutePipelineInput) (evaluation : OperationEvaluation) : Prop where
  rows : refusesRows input evaluation.streamRows = false
  sealedRows : refusesSealed input (sealedRows evaluation) = false
  sealable : ∀ output ∈ evaluation.outputs, Sealable output.2
  named : ∀ output ∈ evaluation.outputs, WellFormed output.1

structure Solves (runStage : QueryStage → StageInputs → Except E OperationEvaluation)
    (input : ExecutePipelineInput)
    (evaluations : Text → OperationEvaluation) (stage : QueryStage) : Prop where
  run : runStage stage (resolved input evaluations stage) = .ok (evaluations stage.stageId)
  accepted : Accepted input (evaluations stage.stageId)

def stageSize (evaluations : Text → OperationEvaluation) (stage : QueryStage) : ℕ :=
  outputsSize (evaluations stage.stageId).outputs

def totalSize (evaluations : Text → OperationEvaluation) (stages : List QueryStage) : ℕ :=
  (stages.map (stageSize evaluations)).sum

omit [Sha256] [LocaleCompare] in
theorem totalSize_append (evaluations : Text → OperationEvaluation)
    (stages more : List QueryStage) :
    totalSize evaluations (stages ++ more) =
      totalSize evaluations stages + totalSize evaluations more := by
  simp [totalSize]

def sealedSets (input : ExecutePipelineInput) (evaluations : Text → OperationEvaluation)
    (done : List QueryStage) :
    SealedSets :=
  done.flatMap (fun stage => setsOf input.executionId stage.stageId
    (evaluations stage.stageId).outputs)

structure Reached (input : ExecutePipelineInput) (evaluations : Text → OperationEvaluation)
    (done : List QueryStage)
    (state : Execution) : Prop where
  results : state.results = done.map (fun stage => (stage.stageId, evaluations stage.stageId))
  handles : state.handles = handlesOf input.spool.kind (sealedSets input evaluations done)
  stored : state.spool.Stored input.executionId (sealedSets input evaluations done)
  spool : Grown input.spool state.spool (totalSize evaluations done)

structure Named (evaluations : Text → OperationEvaluation) (done : List QueryStage) : Prop where
  nodup : (done.map QueryStage.stageId).Nodup
  plain : ∀ stage ∈ done, Plain stage.stageId
  outputs : ∀ stage ∈ done, ∀ output ∈ (evaluations stage.stageId).outputs, WellFormed output.1

section Sets

omit [Sha256] [LocaleCompare]

variable {set : Coordinates × List Spool.QueryStreamItem}

theorem mem_sealedSets (h : set ∈ sealedSets input evaluations done) :
    ∃ stage ∈ done, ∃ output ∈ (evaluations stage.stageId).outputs,
      set = (⟨input.executionId, stage.stageId, output.1⟩, output.2.items) := by
  obtain ⟨stage, hstage, hset⟩ := List.mem_flatMap.mp h
  obtain ⟨output, houtput, rfl⟩ := List.mem_map.mp hset
  exact ⟨stage, hstage, output, houtput, rfl⟩

theorem coordinates_nodup (hnodup : (done.map QueryStage.stageId).Nodup) :
    ((sealedSets input evaluations done).map Prod.fst).Nodup := by
  induction done with
  | nil => exact List.nodup_nil
  | cons stage done ih =>
    obtain ⟨hnew, hrest⟩ := List.nodup_cons.mp hnodup
    have hcons : sealedSets input evaluations (stage :: done) =
        setsOf input.executionId stage.stageId (evaluations stage.stageId).outputs ++
          sealedSets input evaluations done := rfl
    rw [hcons, List.map_append, List.nodup_append]
    refine ⟨?_, ih hrest, ?_⟩
    · have hnames : (setsOf input.executionId stage.stageId (evaluations stage.stageId).outputs).map
          Prod.fst =
          ((evaluations stage.stageId).outputs.map Prod.fst).map
            (Coordinates.mk input.executionId stage.stageId) := by
        simp [setsOf]
      rw [hnames]
      exact (evaluations stage.stageId).distinct.map (fun _ _ h => (Coordinates.mk.inj h).2.2)
    · intro c hc c' hc' heq
      obtain ⟨set, hset, rfl⟩ := List.mem_map.mp hc
      obtain ⟨output, -, rfl⟩ := List.mem_map.mp hset
      obtain ⟨set', hset', rfl⟩ := List.mem_map.mp hc'
      obtain ⟨other, hother, output', -, rfl⟩ := mem_sealedSets hset'
      exact hnew (List.mem_map.mpr ⟨other, hother, (Coordinates.mk.inj heq).2.1.symm⟩)

theorem Named.distinct (h : Named evaluations done) :
    Distinct (sealedSets input evaluations done) := by
  have hkeys :
      (sealedSets input evaluations done).map (fun set => SqliteStageSpool.storedKey set.1) =
      ((sealedSets input evaluations done).map Prod.fst).map SqliteStageSpool.storedKey := by
    rw [List.map_map]
    rfl
  rw [Distinct, hkeys]
  refine (coordinates_nodup h.nodup).map_on (fun c hc c' hc' heq => ?_)
  obtain ⟨set, hset, rfl⟩ := List.mem_map.mp hc
  obtain ⟨stage, hstage, output, houtput, rfl⟩ := mem_sealedSets hset
  obtain ⟨set', hset', rfl⟩ := List.mem_map.mp hc'
  obtain ⟨stage', hstage', output', houtput', rfl⟩ := mem_sealedSets hset'
  obtain ⟨-, hnames⟩ := Prod.mk.inj heq
  obtain ⟨hstages, houtputs⟩ := Prod.mk.inj hnames
  have hid :=
    encodeUtf8_inj (h.plain stage hstage).wellFormed (h.plain stage' hstage').wellFormed hstages
  have hname :=
    encodeUtf8_inj (h.outputs stage hstage output houtput)
      (h.outputs stage' hstage' output' houtput') houtputs
  dsimp only at hid hname ⊢
  rw [hid, hname]

theorem Named.keys (h : Named evaluations done) :
    ((sealedSets input evaluations done).map setKey).Nodup := by
  have hkeys : (sealedSets input evaluations done).map setKey =
      ((sealedSets input evaluations done).map Prod.fst).map
        (fun c => handleKey c.stageId c.output) := by
    rw [List.map_map]
    rfl
  rw [hkeys]
  refine (coordinates_nodup h.nodup).map_on (fun c hc c' hc' heq => ?_)
  obtain ⟨set, hset, rfl⟩ := List.mem_map.mp hc
  obtain ⟨stage, hstage, output, -, rfl⟩ := mem_sealedSets hset
  obtain ⟨set', hset', rfl⟩ := List.mem_map.mp hc'
  obtain ⟨stage', hstage', output', -, rfl⟩ := mem_sealedSets hset'
  obtain ⟨hid, hname⟩ :=
    handleKey_inj (h.plain stage hstage).noSeparator (h.plain stage' hstage').noSeparator heq
  dsimp only at hname ⊢
  rw [hid, hname]

theorem key_undone {stageId output : Text} (hplain : ∀ stage ∈ done, Plain stage.stageId)
    (hnew : 0 ∉ stageId)
    (h : stageId ∉ done.map QueryStage.stageId) :
    handleKey stageId output ∉ (sealedSets input evaluations done).map setKey := by
  intro hmem
  obtain ⟨set, hset, hkey⟩ := List.mem_map.mp hmem
  obtain ⟨stage, hstage, output', -, rfl⟩ := mem_sealedSets hset
  obtain ⟨hid, -⟩ := handleKey_inj (hplain stage hstage).noSeparator hnew hkey
  exact h (List.mem_map.mpr ⟨stage, hstage, hid⟩)

end Sets

def viewsOf (kind : Kind) (sets : SealedSets) : List (Text × StageInput) :=
  sets.map (fun set => (setKey set, viewOf kind set))

theorem keys_viewsOf (kind : Kind) (sets : SealedSets) :
    (viewsOf kind sets).map Prod.fst = sets.map setKey := by
  rw [viewsOf, List.map_map]
  rfl

theorem get_views_done (hnamed : Named evaluations done)
    (h : reference.stageId ∈ done.map QueryStage.stageId) :
    AssocMap.get (viewsOf input.spool.kind (sealedSets input evaluations done))
      (handleKey reference.stageId reference.output) = inputOf input evaluations reference := by
  obtain ⟨stage, hstage, hid⟩ := List.mem_map.mp h
  rw [inputOf]
  cases hget : AssocMap.get (evaluations reference.stageId).outputs reference.output with
  | some values =>
    have hset : (⟨input.executionId, reference.stageId, reference.output⟩, values.items) ∈
        sealedSets input evaluations done := by
      rw [← hid] at hget ⊢
      exact List.mem_flatMap.mpr ⟨stage, hstage,
        List.mem_map.mpr ⟨_, AssocMap.mem_of_get hget, rfl⟩⟩
    refine AssocMap.get_of_mem ?_ (List.mem_map_of_mem hset)
    rw [keys_viewsOf]
    exact hnamed.keys
  | none =>
    refine (AssocMap.get_eq_none_iff _ _).mpr (fun hmem => ?_)
    rw [keys_viewsOf] at hmem
    obtain ⟨set, hset, hkey⟩ := List.mem_map.mp hmem
    obtain ⟨other, hother, output, houtput, rfl⟩ := mem_sealedSets hset
    have hseparator : 0 ∉ reference.stageId := hid ▸ (hnamed.plain stage hstage).noSeparator
    obtain ⟨hsame, hname⟩ := handleKey_inj (hnamed.plain other hother).noSeparator hseparator hkey
    dsimp only at hsame hname
    rw [hsame] at houtput
    exact (AssocMap.get_eq_none_iff _ _).mp hget (List.mem_map.mpr ⟨output, houtput, hname⟩)

theorem Reached.read (h : Reached input evaluations done state) (hnamed : Named evaluations done)
    (key : Text) :
    readHandle state key = AssocMap.get
      (viewsOf input.spool.kind (sealedSets input evaluations done)) key := by
  have hviews : state.handles = (viewsOf input.spool.kind (sealedSets input evaluations done)).map
      (fun entry => (entry.1, entry.2.1)) := by
    rw [h.handles, viewsOf, List.map_map]
    rfl
  rw [readHandle, hviews, AssocMap.get_map_values Prod.fst]
  cases hget : AssocMap.get (viewsOf input.spool.kind (sealedSets input evaluations done)) key with
  | none => rfl
  | some view =>
    obtain ⟨set, hset, hentry⟩ := List.mem_map.mp (AssocMap.mem_of_get hget)
    obtain ⟨-, rfl⟩ := Prod.mk.inj hentry
    obtain ⟨stage, -, output, -, rfl⟩ := mem_sealedSets hset
    have hiterate :=
      iterate_stored (c := ⟨input.executionId, stage.stageId, output.1⟩) h.stored
        hnamed.distinct hset
    rw [h.spool.kind] at hiterate
    exact congrArg (fun yields => some (_, yields)) hiterate

theorem Reached.inputs (h : Reached input evaluations done state) (hnamed : Named evaluations done)
    (hreads : ∀ reference ∈ reads stage, reference.stageId ∈ done.map QueryStage.stageId) :
    inputsOf state stage = resolved input evaluations stage := by
  refine List.map_congr_left (fun reference hreference => ?_)
  rw [h.read hnamed, get_views_done hnamed (hreads reference hreference)]

theorem resolved_congr {evaluations' : Text → OperationEvaluation}
    (h : ∀ reference ∈ reads stage, evaluations reference.stageId =
      evaluations' reference.stageId) :
    resolved input evaluations stage = resolved input evaluations' stage := by
  refine List.map_congr_left (fun reference hreference => ?_)
  rw [inputOf, inputOf, h reference hreference]

theorem Reached.ids (h : Reached input evaluations done state) :
    state.results.map Prod.fst = done.map QueryStage.stageId := by
  rw [h.results, List.map_map]
  rfl

theorem Reached.unsealed (h : Reached input evaluations done state) {stageId : Text}
    (hplain : ∀ stage ∈ done, Plain stage.stageId) (hseparator : 0 ∉ stageId)
    (hnew : stageId ∉ done.map QueryStage.stageId) (outputs : List (Text × Values)) :
    Unsealed stageId outputs state := by
  intro output _ hmem
  have hkeys : state.handles.map Prod.fst = (sealedSets input evaluations done).map setKey := by
    rw [h.handles, handlesOf, List.map_map]
    rfl
  rw [hkeys] at hmem
  exact key_undone hplain hseparator hnew hmem

theorem Reached.sealed (h : Reached input evaluations done state) {stage : QueryStage}
    (hnew : stage.stageId ∉ done.map QueryStage.stageId)
    (hsealed : SealedFrom input.executionId stage.stageId (evaluations stage.stageId).outputs
      (sealedSets input evaluations done) state next) :
    Reached input evaluations (done ++ [stage])
      { next with results := setEntry next.results stage.stageId (evaluations stage.stageId) } := by
  have hresults : stage.stageId ∉ next.results.map Prod.fst := by
    rw [hsealed.results, h.ids]
    exact hnew
  have hsets : sealedSets input evaluations (done ++ [stage]) = sealedSets input evaluations done ++
      setsOf input.executionId stage.stageId (evaluations stage.stageId).outputs := by
    simp [sealedSets]
  refine ⟨?_, ?_, ?_, ?_⟩
  · dsimp only
    rw [setEntry_new hresults, hsealed.results, h.results, List.map_append]
    rfl
  · dsimp only
    rw [hsealed.handles, h.handles, h.spool.kind, hsets, handlesOf, handlesOf, handlesOf,
      List.map_append]
  · rw [hsets]
    exact hsealed.stored
  · have hused := hsealed.spool.bytes
    have hbefore := h.spool.bytes
    have htotal : totalSize evaluations (done ++ [stage]) =
        totalSize evaluations done + outputsSize (evaluations stage.stageId).outputs :=
          totalSize_append _ _ [stage]
    refine ⟨hsealed.spool.kind.trans h.spool.kind, hsealed.spool.hardBytes.trans h.spool.hardBytes,
      ?_,
      hsealed.spool.bounded⟩
    dsimp only
    rw [htotal]
    push_cast
    omega

theorem Reached.congr {evaluations' : Text → OperationEvaluation}
    (h : Reached input evaluations done state)
    (hsame : ∀ stage ∈ done, evaluations' stage.stageId = evaluations stage.stageId) :
    Reached input evaluations' done state := by
  have hsets : sealedSets input evaluations' done = sealedSets input evaluations done :=
    List.flatMap_congr (fun stage hstage => by rw [hsame stage hstage])
  have htotal : totalSize evaluations' done = totalSize evaluations done := by
    refine congrArg List.sum (List.map_congr_left (fun stage hstage => ?_))
    rw [stageSize, stageSize, hsame stage hstage]
  refine ⟨?_, ?_, ?_, ?_⟩
  · rw [h.results]
    exact List.map_congr_left (fun stage hstage => by rw [hsame stage hstage])
  · rw [hsets]
    exact h.handles
  · rw [hsets]
    exact h.stored
  · rw [htotal]
    exact h.spool

theorem Solves.congr {evaluations' : Text → OperationEvaluation}
    (h : Solves runStage input evaluations stage)
    (hstage : evaluations' stage.stageId = evaluations stage.stageId)
    (hreads : ∀ reference ∈ reads stage, evaluations' reference.stageId =
      evaluations reference.stageId) :
    Solves runStage input evaluations' stage := by
  constructor
  · rw [resolved_congr hreads, hstage]
    exact h.run
  · rw [hstage]
    exact h.accepted

end Stages

section Frontier

variable [Sha256] [LocaleCompare] {E : Type}
  {runStage : QueryStage → StageInputs → Except E OperationEvaluation}
  {input : ExecutePipelineInput} {evaluations : Text → OperationEvaluation}
  {done ready : List QueryStage}
  {state next : Execution}

def NamesOutputs (runStage : QueryStage → StageInputs → Except E OperationEvaluation) : Prop :=
  ∀ stage inputs evaluation, runStage stage inputs = .ok evaluation →
    ∀ output ∈ evaluation.outputs, WellFormed output.1

def evaluated (evaluations : Text → OperationEvaluation) (ready : List QueryStage) :
    List (QueryStage × OperationEvaluation) :=
  ready.map (fun stage => (stage, evaluations stage.stageId))

omit [Sha256] [LocaleCompare] in
theorem evaluate_ok {stage : QueryStage} {evaluation : OperationEvaluation}
    (h : evaluate runStage input state stage = .ok evaluation) :
    runStage stage (inputsOf state stage) = .ok evaluation ∧
      refusesRows input evaluation.streamRows = false := by
  obtain ⟨evaluation', hrun, hrest⟩ := ExceptOk.bind_eq_ok h
  cases hstage : runStage stage (inputsOf state stage) with
  | error fault =>
    rw [hstage] at hrun
    cases hrun
  | ok value =>
    rw [hstage] at hrun
    obtain rfl := Except.ok.inj hrun
    split at hrest
    · cases hrest
    · rename_i hrows
      obtain rfl := Except.ok.inj hrest
      exact ⟨rfl, Bool.eq_false_iff.mpr hrows⟩

omit [Sha256] [LocaleCompare] in
theorem evaluateAll_ok {results : List (QueryStage × OperationEvaluation)}
    (hnodup : (ready.map QueryStage.stageId).Nodup)
    (h : evaluateAll runStage input state ready = .ok results)
    (evaluations : Text → OperationEvaluation) :
    ∃ evaluations', (∀ stageId ∉ ready.map QueryStage.stageId,
      evaluations' stageId = evaluations stageId) ∧
      results = evaluated evaluations' ready ∧
      ∀ stage ∈ ready, runStage stage (inputsOf state stage) = .ok (evaluations' stage.stageId) ∧
        refusesRows input (evaluations' stage.stageId).streamRows = false := by
  induction ready generalizing results with
  | nil =>
    obtain rfl := Except.ok.inj h
    exact ⟨evaluations, fun _ _ => rfl, rfl, List.forall_mem_nil _⟩
  | cons stage ready ih =>
    obtain ⟨evaluation, hfirst, hrest⟩ := ExceptOk.bind_eq_ok h
    obtain ⟨others, hothers, hresults⟩ := ExceptOk.bind_eq_ok hrest
    obtain rfl := Except.ok.inj hresults
    obtain ⟨hnew, hnodup⟩ := List.nodup_cons.mp hnodup
    obtain ⟨evaluations', hsame, rfl, hall⟩ := ih hnodup hothers
    have hkept : ∀ other ∈ ready,
        Function.update evaluations' stage.stageId evaluation other.stageId =
          evaluations' other.stageId := by
      intro other hother
      exact Function.update_of_ne (fun heq => hnew (List.mem_map.mpr ⟨other, hother, heq⟩)) _ _
    have hself : Function.update evaluations' stage.stageId evaluation stage.stageId = evaluation :=
      Function.update_self _ _ _
    refine ⟨Function.update evaluations' stage.stageId evaluation, ?_, ?_, ?_⟩
    · intro stageId hstageId
      rw [List.map_cons, List.mem_cons, not_or] at hstageId
      rw [Function.update_of_ne hstageId.1, hsame stageId hstageId.2]
    · rw [evaluated, evaluated, List.map_cons, hself]
      refine congrArg (List.cons _) (List.map_congr_left (fun other hother => ?_))
      rw [hkept other hother]
    · refine List.forall_mem_cons.mpr ⟨?_, fun other hother => ?_⟩
      · rw [hself]
        exact evaluate_ok hfirst
      · rw [hkept other hother]
        exact hall other hother

omit [Sha256] [LocaleCompare] in
theorem evaluateAll_succeeds (h : ∀ stage ∈ ready, runStage stage (inputsOf state stage) =
      .ok (evaluations stage.stageId) ∧
      refusesRows input (evaluations stage.stageId).streamRows = false) :
    evaluateAll runStage input state ready = .ok (evaluated evaluations ready) := by
  induction ready with
  | nil => rfl
  | cons stage ready ih =>
    obtain ⟨⟨hrun, hrows⟩, hrest⟩ := List.forall_mem_cons.mp h
    have hfirst : evaluate runStage input state stage = .ok (evaluations stage.stageId) := by
      rw [evaluate, hrun]
      exact if_neg (Bool.eq_false_iff.mp hrows)
    rw [evaluateAll, hfirst, ih hrest]
    rfl

theorem sealAll_ok (h : Reached input evaluations done state)
    (hplain : ∀ stage ∈ done ++ ready, Plain stage.stageId)
    (hnodup : ((done ++ ready).map QueryStage.stageId).Nodup)
    (hrun : sealAll (E := E) input (evaluated evaluations ready) state = .ok next) :
    (∀ stage ∈ ready, refusesSealed input (sealedRows (evaluations stage.stageId)) = false ∧
      ∀ output ∈ (evaluations stage.stageId).outputs, Sealable output.2) ∧
      Reached input evaluations (done ++ ready) next := by
  induction ready generalizing done state with
  | nil =>
    obtain rfl := Except.ok.inj hrun
    rw [List.append_nil]
    exact ⟨List.forall_mem_nil _, h⟩
  | cons stage ready ih =>
    have hsplit : done ++ stage :: ready = (done ++ [stage]) ++ ready := by simp
    have hnew : stage.stageId ∉ done.map QueryStage.stageId := by
      rw [List.map_append, List.map_cons] at hnodup
      exact fun hmem => (List.nodup_append.mp hnodup).2.2 _ hmem _ List.mem_cons_self rfl
    have hseparator := (hplain stage (List.mem_append_right _ List.mem_cons_self)).noSeparator
    have hunsealed :=
      h.unsealed (fun other hother => hplain other (List.mem_append_left _ hother)) hseparator hnew
    obtain ⟨middle, hseal, hrest⟩ := ExceptOk.bind_eq_ok hrun
    obtain ⟨sealed, houtputs, hlast⟩ := ExceptOk.bind_eq_ok hseal
    obtain ⟨hsealable, hfrom⟩ :=
      sealOutputs_ok (hunsealed _) (evaluations stage.stageId).distinct h.stored
      h.spool.bounded houtputs
    split at hlast
    · cases hlast
    · rename_i hrows
      obtain rfl := Except.ok.inj hlast
      rw [hsplit] at hnodup hplain ⊢
      obtain ⟨hall, hreached⟩ := ih (h.sealed hnew hfrom) hplain hnodup hrest
      exact ⟨List.forall_mem_cons.mpr ⟨⟨Bool.eq_false_iff.mpr hrows, hsealable⟩, hall⟩, hreached⟩

omit [Sha256] [LocaleCompare] in
theorem Named.left (h : Named evaluations (done ++ ready)) : Named evaluations done := by
  refine ⟨?_, fun stage hstage => h.plain stage (List.mem_append_left _ hstage),
    fun stage hstage => h.outputs stage (List.mem_append_left _ hstage)⟩
  have hnodup := h.nodup
  rw [List.map_append] at hnodup
  exact (List.nodup_append.mp hnodup).1

theorem sealAll_succeeds (h : Reached input evaluations done state)
    (hnamed : Named evaluations (done ++ ready))
    (haccepted : ∀ stage ∈ ready, Accepted input (evaluations stage.stageId))
    (hroom : input.spool.bytes + totalSize evaluations (done ++ ready) ≤ input.spool.hardBytes)
    (hcommits : ∀ c, (input.database c).transactionFails = false) :
    ∃ next, sealAll (E := E) input (evaluated evaluations ready) state = .ok next ∧
      Reached input evaluations (done ++ ready) next := by
  induction ready generalizing done state with
  | nil =>
    rw [List.append_nil]
    exact ⟨state, rfl, h⟩
  | cons stage ready ih =>
    have hsplit : done ++ stage :: ready = (done ++ [stage]) ++ ready := by simp
    have hnew : stage.stageId ∉ done.map QueryStage.stageId := by
      have hnodup := hnamed.nodup
      rw [List.map_append, List.map_cons] at hnodup
      exact fun hmem => (List.nodup_append.mp hnodup).2.2 _ hmem _ List.mem_cons_self rfl
    have hseparator := (hnamed.plain stage (List.mem_append_right _ List.mem_cons_self)).noSeparator
    obtain ⟨hfirst, hrest⟩ := List.forall_mem_cons.mp haccepted
    have htotal : totalSize evaluations (done ++ stage :: ready) =
        totalSize evaluations done + (outputsSize (evaluations stage.stageId).outputs +
          totalSize evaluations ready) :=
      totalSize_append _ _ _
    have hleft : state.spool.bytes + outputsSize (evaluations stage.stageId).outputs ≤
        state.spool.hardBytes := by
      have hused := h.spool.bytes
      rw [htotal] at hroom
      push_cast at hroom
      rw [h.spool.hardBytes]
      omega
    have hunsealed :=
      h.unsealed hnamed.left.plain hseparator hnew (evaluations stage.stageId).outputs
    rw [hsplit] at hnamed hroom ⊢
    have hapart : Distinct (sealedSets input evaluations (done ++ [stage])) := hnamed.left.distinct
    have hsets : sealedSets input evaluations (done ++ [stage]) =
        sealedSets input evaluations done ++
        setsOf input.executionId stage.stageId (evaluations stage.stageId).outputs := by
      simp [sealedSets]
    rw [hsets] at hapart
    obtain ⟨sealed, hseal, hfrom⟩ := @sealOutputs_succeeds _ _ E input _ _ _ state hunsealed
      (evaluations stage.stageId).distinct h.stored hapart hfirst.sealable hleft hcommits
    obtain ⟨next, hnext, hreached⟩ := ih (h.sealed hnew hfrom) hnamed hrest hroom
    refine ⟨next, ?_, hreached⟩
    have hstage : sealStage (E := E) input stage (evaluations stage.stageId) state =
        .ok { sealed with results := setEntry sealed.results stage.stageId (evaluations
          stage.stageId) } := by
      rw [sealStage, hseal]
      exact if_neg (Bool.eq_false_iff.mp hfirst.sealedRows)
    rw [evaluated, List.map_cons, sealAll, hstage]
    exact hnext

theorem named_of_solves (hnodup : (done.map QueryStage.stageId).Nodup)
    (hplain : ∀ stage ∈ done, Plain stage.stageId)
    (hsolved : ∀ stage ∈ done, Solves runStage input evaluations stage) : Named evaluations done :=
  ⟨hnodup, hplain, fun stage hstage => (hsolved stage hstage).accepted.named⟩

theorem runFrontier_ok (h : Reached input evaluations done state) (hnames : NamesOutputs runStage)
    (hplain : ∀ stage ∈ done ++ ready, Plain stage.stageId)
    (hnodup : ((done ++ ready).map QueryStage.stageId).Nodup)
    (hreads : ∀ stage ∈ done ++ ready, ∀ reference ∈ reads stage,
      reference.stageId ∈ done.map QueryStage.stageId)
    (hsolved : ∀ stage ∈ done, Solves runStage input evaluations stage)
    (hrun : runFrontier runStage input ready state = .ok next) :
    ∃ evaluations', (∀ stage ∈ done ++ ready, Solves runStage input evaluations' stage) ∧
      Reached input evaluations' (done ++ ready) next := by
  obtain ⟨results, hall, hseal⟩ := ExceptOk.bind_eq_ok hrun
  have hsplit : (done.map QueryStage.stageId ++ ready.map QueryStage.stageId).Nodup := by
    rw [← List.map_append]
    exact hnodup
  obtain ⟨hdone, hready, hdisjoint⟩ := List.nodup_append.mp hsplit
  obtain ⟨evaluations', hsame, rfl, hevaluated⟩ := evaluateAll_ok hready hall evaluations
  have hkept : ∀ stageId ∈ done.map QueryStage.stageId,
      evaluations' stageId = evaluations stageId :=
    fun stageId hold => hsame stageId (fun hnew => hdisjoint stageId hold stageId hnew rfl)
  have hreached := h.congr (fun stage hstage => hkept _ (List.mem_map_of_mem hstage))
  obtain ⟨haccepted, hnext⟩ := sealAll_ok hreached hplain hnodup hseal
  have hsolved' : ∀ stage ∈ done, Solves runStage input evaluations' stage := fun stage hstage =>
    (hsolved stage hstage).congr (hkept _ (List.mem_map_of_mem hstage))
      (fun reference hreference => hkept _ (hreads stage (List.mem_append_left _ hstage) reference
        hreference))
  have hnamed :=
    named_of_solves hdone (fun stage hstage => hplain stage (List.mem_append_left _ hstage))
      hsolved'
  refine ⟨evaluations', fun stage hstage => ?_, hnext⟩
  rcases List.mem_append.mp hstage with hold | hnew
  · exact hsolved' stage hold
  · obtain ⟨hrun, hrows⟩ := hevaluated stage hnew
    rw [hreached.inputs hnamed (hreads stage hstage)] at hrun
    exact ⟨hrun, hrows, (haccepted stage hnew).1, (haccepted stage hnew).2, hnames _ _ _ hrun⟩

theorem runFrontier_succeeds (h : Reached input evaluations done state)
    (hnamed : Named evaluations (done ++ ready))
    (hreads : ∀ stage ∈ ready, ∀ reference ∈ reads stage,
      reference.stageId ∈ done.map QueryStage.stageId)
    (hsolved : ∀ stage ∈ ready, Solves runStage input evaluations stage)
    (hroom : input.spool.bytes + totalSize evaluations (done ++ ready) ≤ input.spool.hardBytes)
    (hcommits : ∀ c, (input.database c).transactionFails = false) :
    ∃ next, runFrontier runStage input ready state = .ok next ∧
      Reached input evaluations (done ++ ready) next := by
  have hall : evaluateAll runStage input state ready = .ok (evaluated evaluations ready) := by
    refine evaluateAll_succeeds (fun stage hstage => ?_)
    rw [h.inputs hnamed.left (hreads stage hstage)]
    exact ⟨(hsolved stage hstage).run, (hsolved stage hstage).accepted.rows⟩
  obtain ⟨next, hseal, hreached⟩ := sealAll_succeeds (E := E) h hnamed
    (fun stage hstage => (hsolved stage hstage).accepted) hroom hcommits
  refine ⟨next, ?_, hreached⟩
  rw [runFrontier, hall]
  exact hseal

end Frontier

end Pipeline

end Engine
