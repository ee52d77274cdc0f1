import FerroFlow.SequenceSchedule

/-! The schedules of different parameters do not influence each other: the commands for one
parameter are those of the sequence from which everything else has been removed. -/

namespace FerroFlow

namespace TimedAction

def sets (param : String) (timedAction : TimedAction) : Bool :=
  match timedAction.action with
  | .setParam paramState => paramState.param = param
  | .hold _ => false

theorem sets_iff {param : String} {timedAction : TimedAction} :
    timedAction.sets param = true ↔
      ∃ paramState, timedAction.action = .setParam paramState ∧ paramState.param = param := by
  obtain ⟨time, action⟩ := timedAction
  cases action with
  | hold mode => simp [sets]
  | setParam paramState => simp [sets]

end TimedAction

theorem sets_shifted (globals : Globals) (param : String) (timedAction : TimedAction) :
    (shifted globals timedAction).sets param = timedAction.sets param := rfl

theorem settingOf_of_not_sets {globals : Globals} {param : String} {timedAction : TimedAction}
    (other : timedAction.sets param = false) : settingOf globals param timedAction = none := by
  cases setting : settingOf globals param timedAction with
  | none => rfl
  | some value =>
      have sets := TimedAction.sets_iff.mpr ⟨_, (settingOf_eq_some_iff.mp setting).1, rfl⟩
      rw [other] at sets
      cases sets

theorem lastSetting_filter (globals : Globals) (param : String) (past : List TimedAction) :
    lastSetting globals param (past.filter (TimedAction.sets param)) =
      lastSetting globals param past := by
  induction past using List.reverseRecOn with
  | nil => rfl
  | append_singleton past timedAction ih =>
      rw [List.filter_append, lastSetting_concat]
      cases sets : timedAction.sets param with
      | true => rw [List.filter_singleton, sets, cond_true, lastSetting_concat, ih]
      | false =>
          rw [List.filter_singleton, sets, cond_false, List.append_nil, ih,
            settingOf_of_not_sets sets, Option.none_or]

theorem sets_ramp {interval : Duration} {param : String} {start finish : TimedValue}
    {pushed : TimedAction} (member : pushed ∈ ramp interval param start finish) :
    pushed.sets param = true := by
  unfold ramp at member
  split at member
  · cases member
  · obtain ⟨timedValue, _, rfl⟩ := List.mem_map.mp member
    exact decide_eq_true rfl

theorem sets_insertedBefore {globals : Globals} {past : List TimedAction}
    {timedAction pushed : TimedAction} (member : pushed ∈ insertedBefore globals past timedAction)
    (param : String) : pushed.sets param = timedAction.sets param := by
  unfold insertedBefore at member
  split at member
  · cases member
  · rename_i paramState action
    split at member
    · have own := sets_ramp member
      obtain ⟨pushedState, pushedAction, same⟩ := TimedAction.sets_iff.mp own
      simp only [TimedAction.sets, action, pushedAction, same]
    · cases member

theorem insertedBefore_filter {globals : Globals} {param : String} {timedAction : TimedAction}
    (sets : timedAction.sets param = true) (past : List TimedAction) :
    insertedBefore globals (past.filter (TimedAction.sets param)) timedAction =
      insertedBefore globals past timedAction := by
  obtain ⟨paramState, action, rfl⟩ := TimedAction.sets_iff.mp sets
  simp only [insertedBefore, action, lastSetting_filter]

theorem built_filter (globals : Globals) (param : String) (actions : List TimedAction) :
    (built globals actions).filter (TimedAction.sets param) =
      built globals (actions.filter (TimedAction.sets param)) := by
  induction actions using List.reverseRecOn with
  | nil => rfl
  | append_singleton past timedAction ih =>
      rw [built_concat, List.filter_append, List.filter_append, List.filter_append, ih,
        List.filter_singleton, List.filter_singleton, sets_shifted]
      cases sets : timedAction.sets param with
      | true =>
          have all : (insertedBefore globals past timedAction).filter (TimedAction.sets param) =
              insertedBefore globals past timedAction := by
            refine List.filter_eq_self.mpr fun pushed member => ?_
            rw [sets_insertedBefore member param, sets]
          rw [cond_true, cond_true, built_concat, insertedBefore_filter sets, all]
      | false =>
          have none : (insertedBefore globals past timedAction).filter (TimedAction.sets param) = [] := by
            refine List.filter_eq_nil_iff.mpr fun pushed member => ?_
            rw [sets_insertedBefore member param, sets]
            exact Bool.false_ne_true
          rw [cond_false, cond_false, none, List.append_nil, List.append_nil, List.append_nil]

/-- Two configurations that treat one parameter alike. -/
structure Globals.Alike (param : String) (left right : Globals) : Prop where
  startTime : left.startTime = right.startTime
  interval : left.interpolationInterval = right.interpolationInterval
  mode : left.interpolations.lookup param = right.interpolations.lookup param

section Alike

variable {param : String} {left right : Globals} (alike : Globals.Alike param left right)
include alike

theorem settingOf_alike (timedAction : TimedAction) :
    settingOf left param timedAction = settingOf right param timedAction := by
  simp only [settingOf, alike.mode, alike.startTime]

theorem insertedBefore_alike {timedAction : TimedAction} (sets : timedAction.sets param = true)
    (past : List TimedAction) :
    insertedBefore left past timedAction = insertedBefore right past timedAction := by
  obtain ⟨paramState, action, rfl⟩ := TimedAction.sets_iff.mp sets
  have same : settingOf left paramState.param = settingOf right paramState.param :=
    funext (settingOf_alike alike)
  simp only [insertedBefore, action, lastSetting, same, alike.interval]

theorem built_alike {actions : List TimedAction}
    (all : ∀ timedAction ∈ actions, timedAction.sets param = true) :
    built left actions = built right actions := by
  induction actions using List.reverseRecOn with
  | nil => rfl
  | append_singleton past timedAction ih =>
      have earlier := ih fun previous member => all previous (List.mem_append_left _ member)
      have sets := all timedAction (by simp)
      rw [built_concat, built_concat, earlier, insertedBefore_alike alike sets, shifted, shifted,
        alike.startTime]

end Alike

namespace Sequence

def only (seq : Sequence) (param : String) : Sequence :=
  { seq with steps := seq.steps.map fun step =>
      { step with actions := step.actions.filter (TimedAction.sets param) } }

theorem flattenedActions_only (seq : Sequence) (param : String) :
    (seq.only param).flattenedActions = seq.flattenedActions.filter (TimedAction.sets param) := by
  simp only [flattenedActions, only, List.flatMap_map, List.filter_flatMap]

end Sequence

theorem parameters_scheduled_independently (seq : Sequence) (param : String) :
    (flattenAndInterpolate seq).filter (TimedAction.sets param) =
      flattenAndInterpolate (seq.only param) ∧
    ∀ other : Sequence, Globals.Alike param seq.globals other.globals →
      seq.flattenedActions.filter (TimedAction.sets param) =
        other.flattenedActions.filter (TimedAction.sets param) →
      (flattenAndInterpolate seq).filter (TimedAction.sets param) =
        (flattenAndInterpolate other).filter (TimedAction.sets param) := by
  have alone (seq : Sequence) : (flattenAndInterpolate seq).filter (TimedAction.sets param) =
      built seq.globals (seq.flattenedActions.filter (TimedAction.sets param)) :=
    built_filter seq.globals param seq.flattenedActions
  constructor
  · rw [alone, ← Sequence.flattenedActions_only]
    rfl
  · intro other alike same
    rw [alone, alone, ← same]
    refine built_alike alike fun timedAction member => ?_
    exact (List.mem_filter.mp member).2

end FerroFlow
