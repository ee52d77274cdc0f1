import FerroFlow.SequenceDefinition

/-! The schedule of a sequence: its actions on a timeline that starts at zero, with the
interpolated settings of its linear parameters. -/

namespace FerroFlow

structure TimedValue where
  timestamp : TimestampSec
  value : F64
deriving DecidableEq, Repr

def tickValue (start finish : TimedValue) (interval timespan : F64) (tick : ℕ) : TimedValue :=
  let tickTimestamp := start.timestamp + .finite tick * interval
  let alpha := (tickTimestamp - start.timestamp) / timespan
  { timestamp := tickTimestamp, value := start.value + alpha * (finish.value - start.value) }

def interpolateLinear (start finish : TimedValue) (interval : Duration) : Option (List TimedValue) :=
  if start.value.beq finish.value then none
  else
    let interval := interval.asSecsF64
    let timespan := finish.timestamp - start.timestamp
    if timespan / .finite 2 < interval then none
    else
      let tickCount := asUsize (timespan / interval).floor
      some ((List.range (tickCount + 1)).map (tickValue start finish interval timespan))

structure BuilderState where
  finalActions : List TimedAction := []
  lastParamStates : HashMap String TimedValue := ∅

/-- The interpolated settings pushed before a new value of a linear parameter: both ends of
the interpolation are removed, since the sequence itself contains them. -/
def interpolatedActions (lastParamStates : HashMap String TimedValue) (interval : Duration)
    (param : String) (newParamValue : TimedValue) : List TimedAction :=
  match lastParamStates.lookup param with
  | none => []
  | some lastParamValue =>
      match interpolateLinear lastParamValue newParamValue interval with
      | none => []
      | some interpolated => interpolated.tail.dropLast.map fun timedValue => {
          timestamp := timedValue.timestamp
          action := .setParam { param := param, value := timedValue.value } }

def pushAction (globals : Globals) (state : BuilderState) (timedAction : TimedAction) : BuilderState :=
  -- offset timestamps by global start time to remove negative times
  let timedAction := { timedAction with timestamp := timedAction.timestamp - globals.startTime }
  let unchanged := { state with finalActions := state.finalActions ++ [timedAction] }
  match timedAction.action with
  | .hold _ => unchanged
  | .setParam paramState =>
      match globals.interpolations.lookup paramState.param with
      | some .linear =>
          let newParamValue := { timestamp := timedAction.timestamp, value := paramState.value }
          let interpolated := interpolatedActions state.lastParamStates globals.interpolationInterval
            paramState.param newParamValue
          { finalActions := state.finalActions ++ interpolated ++ [timedAction]
            lastParamStates := (state.lastParamStates.erase paramState.param).insert
              paramState.param newParamValue }
      | _ => unchanged

def flattenAndInterpolate (seq : Sequence) : List TimedAction :=
  (seq.flattenedActions.foldl (pushAction seq.globals) {}).finalActions

end FerroFlow
