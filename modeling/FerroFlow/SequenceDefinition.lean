import FerroFlow.Primitives

/-! Sequences: their data, how the file form of a step becomes a step, and validation. -/

namespace FerroFlow

inductive InterpolationMode
  | none
  | linear
deriving DecidableEq, Repr, Inhabited

inductive FieldComparison
  | equal
  | notEq
  | less
  | lessEq
  | greater
  | greaterEq
deriving DecidableEq, Repr

structure HoldCondition where
  field : String
  comparison : FieldComparison
  value : F64
deriving DecidableEq, Repr

inductive HoldMode
  | always
  | conditional (conditions : List HoldCondition)
deriving DecidableEq, Repr

structure ParamState where
  param : String
  value : F64
deriving DecidableEq, Repr

inductive Action
  | hold (mode : HoldMode)
  | setParam (paramState : ParamState)
deriving DecidableEq, Repr

instance : ToString Action := ⟨reprStr⟩

structure TimedAction where
  timestamp : TimestampSec
  action : Action
deriving DecidableEq, Repr

structure Step where
  name : String
  description : Option String := none
  timestamp : TimestampSec
  actions : List TimedAction
deriving DecidableEq, Repr

structure Globals where
  startTime : TimestampSec
  endTime : TimestampSec
  interpolationInterval : Duration
  interpolations : HashMap String InterpolationMode := ∅
deriving DecidableEq

structure Sequence where
  name : String
  globals : Globals
  steps : List Step := []
deriving DecidableEq

structure RawParamState where
  relativeTimestamp : TimestampSec
  param : String
  value : F64

structure RawStep where
  name : String
  description : Option String
  timestamp : TimestampSec
  setParams : Option (List RawParamState)
  hold : Option HoldMode

/-- A step file entry holds either a hold or a list of settings, whose timestamps are
relative to the step. -/
def Step.deserialize (rawStep : RawStep) : Result Step := do
  let actions ← match rawStep.hold, rawStep.setParams with
    | some hold, none => .ok [{ timestamp := rawStep.timestamp, action := .hold hold }]
    | none, some setParam => .ok (setParam.map fun paramState => {
        timestamp := (rawStep.timestamp + paramState.relativeTimestamp).toBinary64
        action := .setParam { param := paramState.param, value := paramState.value } })
    | _, _ => bail "step must have exactly `hold` or `set_params`"
  .ok {
    name := rawStep.name
    description := rawStep.description
    timestamp := rawStep.timestamp
    actions := actions }

namespace Sequence

def validateTimedAction (seq : Sequence) (parentStep : Step) (timedAction : TimedAction) :
    Result Unit := do
  require (parentStep.timestamp ≤ timedAction.timestamp)
    s!"Invalid action timestamp in step '{parentStep.name}' action '{timedAction.action}', before step timestamp"
  require (timedAction.timestamp ≤ seq.globals.endTime)
    s!"Invalid action timestamp in step '{parentStep.name}' action '{timedAction.action}', after global end time"
  match timedAction.action with
  | .hold (.conditional conditions) =>
      require (conditions ≠ []) s!"Invalid hold in step '{parentStep.name}' has no conditions"
  | _ => .ok ()

def validateStep (seq : Sequence) (step : Step) : Result Unit := do
  require (seq.globals.startTime ≤ step.timestamp)
    s!"Invalid step timestamp in step '{step.name}', before global start time"
  require (step.timestamp ≤ seq.globals.endTime)
    s!"Invalid step timestamp in step '{step.name}', after global end time"
  require (step.actions ≠ []) s!"Invalid step '{step.name}' has no actions"
  Checks.checkAll (seq.validateTimedAction step) step.actions

def validateNeighbours (window : Step × Step) : Result Unit := do
  require (window.1.timestamp < window.2.timestamp)
    s!"Invalid step '{window.1.name}', after next step"
  Checks.checkAll (fun timedAction =>
    require (timedAction.timestamp < window.2.timestamp)
      s!"Invalid action timestamp in step '{window.1.name}' action '{timedAction.action}', after next step timestamp")
    window.1.actions

def validate (seq : Sequence) : Result Unit := do
  require (seq.globals.startTime ≤ .finite 0) "Invalid start time is after timestamp 0"
  require (seq.globals.startTime ≤ seq.globals.endTime) "Invalid start time is after end time"
  require (seq.steps ≠ []) s!"Invalid sequence '{seq.name}' has no steps"
  Checks.checkAll seq.validateStep seq.steps
  Checks.checkAll validateNeighbours (seq.steps.zip seq.steps.tail)

def flattenedActions (seq : Sequence) : List TimedAction :=
  seq.steps.flatMap fun step => step.actions

end Sequence

end FerroFlow
