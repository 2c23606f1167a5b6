import Urdira.Engine.ExecutionSpool

open Canonical MerkleBucket

namespace Engine

namespace Pipeline

open Spool

structure StageOutputReference where
  stageId : Text
  output : Text
  deriving DecidableEq

inductive Operator where
  | sourceOperation
  | sourceRegistry
  | setUnion
  | setIntersection
  | setDifference
  | expandRelations
  | expandOperation
  | filter
  | join
  | deduplicate
  | select
  | unsupported (name : Text)
  deriving DecidableEq

structure QueryStage where
  stageId : Text
  operator : Operator
  inputs : List StageOutputReference
  arguments : CanonicalValue

def property (value : CanonicalValue) (name : String) : Option CanonicalValue :=
  match value with
  | .object fields => AssocMap.get fields (propertyName name)
  | _ => none

def stageOutputReference (value : CanonicalValue) : Option StageOutputReference :=
  match property value "stage_id", property value "output" with
  | some (.string stageId), some (.string output) => some ⟨stageId, output⟩
  | _, _ => none

def stageOutputSelector (value : CanonicalValue) : Option StageOutputReference :=
  match property value "subject_type" with
  | some (.string kind) => if kind = propertyName "stage_output" then stageOutputReference value
    else none
  | _ => none

mutual

def collectStageOutputSelectors : CanonicalValue → List StageOutputReference
  | .array items => collectItems items
  | .object fields =>
    match stageOutputSelector (.object fields) with
    | some selector => [selector]
    | none => collectFields fields
  | _ => []

def collectItems : List CanonicalValue → List StageOutputReference
  | [] => []
  | item :: items => collectStageOutputSelectors item ++ collectItems items

def collectFields : List (Text × CanonicalValue) → List StageOutputReference
  | [] => []
  | (_, item) :: fields => collectStageOutputSelectors item ++ collectFields fields

end

def operationSelectors (stage : QueryStage) : List StageOutputReference :=
  ((property stage.arguments "operation_arguments").map collectStageOutputSelectors).getD []

def dependencies (stage : QueryStage) : List Text :=
  let selectors := if stage.operator = .sourceOperation ∨ stage.operator =
    .expandOperation then operationSelectors stage else []
  (stage.inputs ++ selectors).map StageOutputReference.stageId

def selectedInputs (stage : QueryStage) : List StageOutputReference :=
  match property stage.arguments "outputs" with
  | some (.array outputs) =>
      outputs.filterMap (fun selected => (property selected "input").bind stageOutputReference)
  | _ => []

def reads (stage : QueryStage) : List StageOutputReference :=
  match stage.operator with
  | .sourceOperation | .expandOperation | .expandRelations =>
      stage.inputs ++ operationSelectors stage
  | .setUnion | .setIntersection | .setDifference | .filter | .join | .deduplicate => stage.inputs
  | .select => selectedInputs stage
  | .sourceRegistry | .unsupported _ => []

-- outputs are the streams by name, each with its source if it has one; streamRows counts the ones
-- that are arrays.
structure OperationEvaluation where
  outputs : List (Text × Values)
  distinct : (outputs.map Prod.fst).Nodup
  streamRows : ℕ
  status : Option Text
  dimensions : List CanonicalValue

inductive PipelineError (E : Type) where
  | cancelled
  | cycle
  | stageFailed (stageId : Text) (fault : E)
  | rowBudget (stageId : Text)
  | unsealed (stageId : Text) (fault : SpoolError)
  | unread (fault : LogicalEncoding.DecodingError)

structure ExecutePipelineInput where
  executionId : Text
  stages : List QueryStage
  outputs : List (StageOutputReference × Option Text)
  maxRows : Option ℤ
  streamFinal : Bool
  spool : StageSpool
  database : Coordinates → Database
  aborted : ℕ → Bool

def setEntry {K V : Type} [DecidableEq K] (entries : List (K × V)) (key : K) (value : V) :
    List (K × V) :=
  if entries.any (fun entry => decide (entry.1 = key)) then entries.map (fun entry => if entry.1 =
    key then (key, value) else entry)
  else entries ++ [(key, value)]

def handleKey (stageId output : Text) : Text := stageId ++ 0 :: output

structure Execution where
  results : List (Text × OperationEvaluation)
  handles : List (Text × StageSetHandle)
  spool : StageSpool

abbrev StageInput := StageSetHandle × Yields

abbrev StageInputs := List (StageOutputReference × Option StageInput)

def readHandle (state : Execution) (key : Text) : Option StageInput :=
  (AssocMap.get state.handles key).map (fun handle => (handle, state.spool.iterate handle))

def inputsOf (state : Execution) (stage : QueryStage) : StageInputs :=
  (reads stage).map (fun reference =>
    (reference, readHandle state (handleKey reference.stageId reference.output)))

section Executor

variable [Sha256] [LocaleCompare] {E : Type}
  (runStage : QueryStage → StageInputs → Except E OperationEvaluation)
  (input : ExecutePipelineInput)

def refusesRows (rows : ℕ) : Bool :=
  input.maxRows.any (fun maxRows => !Spool.isSafeInteger maxRows || decide (maxRows < 0) ||
    decide (maxRows < (rows : ℤ)))

def refusesSealed (rows : ℕ) : Bool :=
  input.maxRows.any (fun maxRows => decide (maxRows < (rows : ℤ)))

def evaluate (state : Execution) (stage : QueryStage) :
    Except (PipelineError E) OperationEvaluation := do
  let evaluation ← (runStage stage (inputsOf state stage)).mapError (.stageFailed stage.stageId)
  if refusesRows input evaluation.streamRows then .error (.rowBudget stage.stageId)
  else .ok evaluation

def evaluateAll (state : Execution) :
    List QueryStage → Except (PipelineError E) (List (QueryStage × OperationEvaluation))
  | [] => .ok []
  | stage :: ready => do
    let evaluation ← evaluate runStage input state stage
    let evaluated ← evaluateAll state ready
    .ok ((stage, evaluation) :: evaluated)

def sealOutputs (stageId : Text) : List (Text × Values) → Execution →
      Except (PipelineError E) Execution
  | [], state => .ok state
  | (output, values) :: outputs, state =>
    match state.spool.putIterable ⟨input.executionId, stageId, output⟩ values
        (input.database ⟨input.executionId, stageId, output⟩) with
    | (_, .error fault) => .error (.unsealed stageId fault)
    | (spool, .ok handle) =>
      sealOutputs stageId outputs
        { state with spool, handles := setEntry state.handles (handleKey stageId output) handle }

def sealedRows (evaluation : OperationEvaluation) : ℕ :=
  (evaluation.outputs.map (fun output => output.2.items.length)).sum

def sealStage (stage : QueryStage) (evaluation : OperationEvaluation) (state : Execution) :
    Except (PipelineError E) Execution := do
  let state ← sealOutputs input stage.stageId evaluation.outputs state
  if refusesSealed input (sealedRows evaluation) then .error (.rowBudget stage.stageId)
  else .ok { state with results := setEntry state.results stage.stageId evaluation }

def sealAll : List (QueryStage × OperationEvaluation) → Execution →
      Except (PipelineError E) Execution
  | [], state => .ok state
  | (stage, evaluation) :: evaluated, state => do
    let state ← sealStage input stage evaluation state
    sealAll evaluated state

def runFrontier (ready : List QueryStage) (state : Execution) :
    Except (PipelineError E) Execution := do
  let evaluated ← evaluateAll runStage input state ready
  sealAll input evaluated state

def isReady (results : List (Text × OperationEvaluation)) (stage : QueryStage) : Bool :=
  (dependencies stage).all (fun dependency =>
    results.any (fun entry => decide (entry.1 = dependency)))

def executeRounds : ℕ → ℕ → List QueryStage → Execution →
      Option (Except (PipelineError E) Execution)
  | 0, _, _, _ => none
  | _ + 1, _, [], state => some (.ok state)
  | fuel + 1, round, stage :: pending, state =>
    if input.aborted round then some (.error .cancelled)
    else
      match (stage :: pending).filter (isReady state.results) with
      | [] => some (.error .cycle)
      | first :: ready =>
        match runFrontier runStage input (first :: ready) state with
        | .error fault => some (.error fault)
        | .ok next =>
          executeRounds fuel (round + 1) ((stage :: pending).filter
            (fun stage => !isReady state.results stage)) next

def started : Execution := ⟨[], [], input.spool⟩

structure PipelineResult where
  streams : List (Text × List CanonicalValue)
  sources : List (Text × Yields)
  overallStatus : Text
  dimensions : List CanonicalValue

def statuses : List String := ["unknown", "stale", "unsupported", "partial"]

def overallStatus (results : List (Text × OperationEvaluation)) : Text :=
  let reported := results.map (fun entry => entry.2.status.getD (propertyName "unknown"))
  ((statuses.map propertyName).find? (fun status => reported.contains status)).getD
    (propertyName "complete")

def outputOf (state : Execution) (output : StageOutputReference) : Option StageInput :=
  (readHandle state (handleKey output.stageId output.output)).orElse
    (fun _ => readHandle state (handleKey output.stageId (propertyName "subjects")))

-- A plain object: writing the property __proto__ adds none.
def setProperty {V : Type} (entries : List (Text × V)) (name : Text) (value : V) :
    List (Text × V) :=
  if name = propertyName "__proto__" then entries else setEntry entries name value

structure Streams where
  streams : List (Text × List CanonicalValue)
  sources : List (Text × Yields)

def setOutput (state : Execution) (found : Streams) (output : StageOutputReference × Option Text) :
    Except (PipelineError E) Streams :=
  let name := output.2.getD output.1.output
  match outputOf state output.1 with
  | none => .ok { found with streams := setProperty found.streams name [] }
  | some (_, yields) =>
    if input.streamFinal then .ok { found with sources := setProperty found.sources name yields }
    else
      match yields.fault with
      | some fault => .error (.unread fault)
      | none => .ok { found with streams := setProperty found.streams name yields.items }

def finish (state : Execution) : Except (PipelineError E) PipelineResult := do
  let found ← input.outputs.foldlM (setOutput input state) ⟨[], []⟩
  .ok ⟨found.streams, found.sources, overallStatus state.results,
    state.results.flatMap (fun entry => entry.2.dimensions)⟩

def executePipeline : Option (Except (PipelineError E) PipelineResult) :=
  (executeRounds runStage input (input.stages.length + 1) 0 input.stages (started input)).map
    (fun result => result.bind (finish input))

def runInOrder : List QueryStage → Execution → Except (PipelineError E) Execution
  | [], state => .ok state
  | stage :: stages, state => do
    let state ← runFrontier runStage input [stage] state
    runInOrder stages state

def executeInOrder (stages : List QueryStage) : Except (PipelineError E) PipelineResult :=
  (runInOrder runStage input stages (started input)).bind (finish input)

end Executor

end Pipeline

end Engine
