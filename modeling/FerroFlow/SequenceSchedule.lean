import FerroFlow.SequenceBuilder

/-! The schedule, action by action: what is pushed for an action depends on the last setting of
its parameter alone, and interpolated settings are evenly spaced. -/

namespace FerroFlow

def shifted (globals : Globals) (timedAction : TimedAction) : TimedAction :=
  { timedAction with timestamp := timedAction.timestamp - globals.startTime }

def settingOf (globals : Globals) (param : String) (timedAction : TimedAction) : Option TimedValue :=
  match timedAction.action with
  | .hold _ => none
  | .setParam paramState =>
      if paramState.param = param ∧ globals.interpolations.lookup param = some .linear then
        some { timestamp := timedAction.timestamp - globals.startTime, value := paramState.value }
      else none

def lastSetting (globals : Globals) (param : String) (past : List TimedAction) : Option TimedValue :=
  past.reverse.findSome? (settingOf globals param)

def ramp (interval : Duration) (param : String) (start finish : TimedValue) : List TimedAction :=
  match interpolateLinear start finish interval with
  | none => []
  | some interpolated => interpolated.tail.dropLast.map fun timedValue => {
      timestamp := timedValue.timestamp
      action := .setParam { param := param, value := timedValue.value } }

def insertedBefore (globals : Globals) (past : List TimedAction) (timedAction : TimedAction) :
    List TimedAction :=
  match timedAction.action with
  | .hold _ => []
  | .setParam paramState =>
      match settingOf globals paramState.param timedAction, lastSetting globals paramState.param past with
      | some finish, some start => ramp globals.interpolationInterval paramState.param start finish
      | _, _ => []

def built (globals : Globals) (actions : List TimedAction) : List TimedAction :=
  (actions.foldl (pushAction globals) {}).finalActions

theorem lastSetting_concat (globals : Globals) (param : String) (past : List TimedAction)
    (timedAction : TimedAction) : lastSetting globals param (past ++ [timedAction]) =
      (settingOf globals param timedAction).or (lastSetting globals param past) := by
  unfold lastSetting
  rw [List.reverse_append, List.reverse_singleton, List.singleton_append, List.findSome?_cons]
  cases settingOf globals param timedAction <;> rfl

theorem lastSetting_eq_some_iff {globals : Globals} {param : String} {past : List TimedAction}
    {start : TimedValue} : lastSetting globals param past = some start ↔
      ∃ before first between, past = before ++ first :: between ∧
        settingOf globals param first = some start ∧
        ∀ timedAction ∈ between, settingOf globals param timedAction = none := by
  unfold lastSetting
  rw [List.findSome?_eq_some_iff]
  constructor
  · rintro ⟨after, first, before, split, found, none⟩
    refine ⟨before.reverse, first, after.reverse, ?_, found, ?_⟩
    · have reversed := congrArg List.reverse split
      simpa using reversed
    · intro timedAction member
      exact none timedAction (by simpa using member)
  · rintro ⟨before, first, between, rfl, found, none⟩
    refine ⟨between.reverse, first, before.reverse, by simp, found, ?_⟩
    intro timedAction member
    exact none timedAction (by simpa using member)

theorem settingOf_eq_some_iff {globals : Globals} {param : String} {timedAction : TimedAction}
    {setting : TimedValue} : settingOf globals param timedAction = some setting ↔
      timedAction.action = .setParam { param, value := setting.value } ∧
        globals.interpolations.lookup param = some .linear ∧
        setting.timestamp = timedAction.timestamp - globals.startTime := by
  obtain ⟨timestamp, value⟩ := setting
  obtain ⟨time, action⟩ := timedAction
  cases action with
  | hold mode => simp [settingOf]
  | setParam paramState =>
      obtain ⟨name, newValue⟩ := paramState
      simp only [settingOf, Option.ite_none_right_eq_some, Option.some.injEq, TimedValue.mk.injEq,
        Action.setParam.injEq, ParamState.mk.injEq]
      constructor
      · rintro ⟨⟨sameParam, linear⟩, sameTime, sameValue⟩
        exact ⟨⟨sameParam, sameValue⟩, linear, sameTime.symm⟩
      · rintro ⟨⟨sameParam, sameValue⟩, linear, sameTime⟩
        exact ⟨⟨sameParam, linear⟩, sameTime.symm, sameValue⟩

theorem lookup_lastParamStates (globals : Globals) (actions : List TimedAction) (param : String) :
    (actions.foldl (pushAction globals) {}).lastParamStates.lookup param =
      lastSetting globals param actions := by
  induction actions using List.reverseRecOn with
  | nil => rfl
  | append_singleton past timedAction ih =>
      rw [List.foldl_append, lastSetting_concat, ← ih]
      generalize past.foldl (pushAction globals) {} = state
      obtain ⟨time, action⟩ := timedAction
      cases action with
      | hold mode => rfl
      | setParam paramState =>
          simp only [List.foldl_cons, List.foldl_nil, pushAction, settingOf]
          by_cases linear : globals.interpolations.lookup paramState.param = some .linear
          · simp only [linear, KeyedMap.lookup_insert_eq, KeyedMap.lookup_erase_eq]
            by_cases same : param = paramState.param
            · subst same
              simp [linear]
            · simp [same, Ne.symm same]
          · have kept : ¬ (paramState.param = param ∧ globals.interpolations.lookup param = some .linear) := by
              rintro ⟨rfl, isLinear⟩
              exact linear isLinear
            simp only [kept, ↓reduceIte, Option.none_or]

theorem built_concat (globals : Globals) (past : List TimedAction) (timedAction : TimedAction) :
    built globals (past ++ [timedAction]) =
      built globals past ++ insertedBefore globals past timedAction ++ [shifted globals timedAction] := by
  have remembered := lookup_lastParamStates globals past
  unfold built
  rw [List.foldl_append]
  generalize past.foldl (pushAction globals) {} = state at remembered ⊢
  obtain ⟨time, action⟩ := timedAction
  cases action with
  | hold mode => simp [pushAction, insertedBefore, shifted]
  | setParam paramState =>
      simp only [List.foldl_cons, List.foldl_nil, pushAction, insertedBefore, settingOf, shifted, true_and]
      by_cases linear : globals.interpolations.lookup paramState.param = some .linear
      · simp only [linear, ↓reduceIte, ← remembered, interpolatedActions]
        cases state.lastParamStates.lookup paramState.param with
        | none => rfl
        | some start => rfl
      · simp only [linear, ↓reduceIte, List.append_nil]

theorem built_append (globals : Globals) (past rest : List TimedAction) :
    ∃ later, built globals (past ++ rest) = built globals past ++ later := by
  induction rest using List.reverseRecOn with
  | nil => exact ⟨[], by simp⟩
  | append_singleton rest timedAction ih =>
      obtain ⟨later, earlier⟩ := ih
      refine ⟨later ++ insertedBefore globals (past ++ rest) timedAction ++ [shifted globals timedAction], ?_⟩
      rw [← List.append_assoc, built_concat, earlier]
      simp only [List.append_assoc]

theorem flattenAndInterpolate_split {seq : Sequence} {past rest : List TimedAction}
    {timedAction : TimedAction} (split : seq.flattenedActions = past ++ timedAction :: rest) :
    ∃ later, flattenAndInterpolate seq = built seq.globals past ++
      insertedBefore seq.globals past timedAction ++ shifted seq.globals timedAction :: later := by
  have grouped : seq.flattenedActions = (past ++ [timedAction]) ++ rest := by simp [split]
  obtain ⟨later, whole⟩ := built_append seq.globals (past ++ [timedAction]) rest
  refine ⟨later, ?_⟩
  change built seq.globals seq.flattenedActions = _
  rw [grouped, whole, built_concat]
  simp

theorem mem_built_iff (globals : Globals) (actions : List TimedAction) (pushed : TimedAction) :
    pushed ∈ built globals actions ↔ (∃ timedAction ∈ actions, pushed = shifted globals timedAction) ∨
      ∃ past timedAction rest, actions = past ++ timedAction :: rest ∧
        pushed ∈ insertedBefore globals past timedAction := by
  induction actions using List.reverseRecOn with
  | nil => simp [built]
  | append_singleton actions last ih =>
      rw [built_concat]
      simp only [List.mem_append, List.mem_singleton, ih]
      constructor
      · rintro (((⟨timedAction, member, rfl⟩ | ⟨past, timedAction, rest, rfl, inserted⟩) | inserted) | rfl)
        · exact Or.inl ⟨timedAction, Or.inl member, rfl⟩
        · exact Or.inr ⟨past, timedAction, rest ++ [last], by simp, inserted⟩
        · exact Or.inr ⟨actions, last, [], rfl, inserted⟩
        · exact Or.inl ⟨last, Or.inr rfl, rfl⟩
      · rintro (⟨timedAction, member | rfl, rfl⟩ | ⟨past, timedAction, rest, split, inserted⟩)
        · exact Or.inl (Or.inl (Or.inl ⟨timedAction, member, rfl⟩))
        · exact Or.inr rfl
        · rcases List.eq_nil_or_concat rest with rfl | ⟨others, final, rfl⟩
          · obtain ⟨rfl, same⟩ := List.append_inj' split rfl
            obtain rfl := (List.cons.inj same).1
            exact Or.inl (Or.inr inserted)
          · have regrouped : actions ++ [last] = (past ++ timedAction :: others) ++ [final] := by
              simp [split]
            obtain ⟨rfl, _⟩ := List.append_inj' regrouped rfl
            exact Or.inl (Or.inl (Or.inr ⟨past, timedAction, others, rfl, inserted⟩))

/-- Two settings of a linear parameter with no other in between, the second one right after `past`. -/
structure Consecutive (globals : Globals) (param : String) (past : List TimedAction)
    (second : TimedAction) (between : List TimedAction) (start finish : TimedValue) : Prop where
  split : ∃ before first, past = before ++ first :: between ∧ settingOf globals param first = some start
  second : settingOf globals param second = some finish
  between : ∀ timedAction ∈ between, settingOf globals param timedAction = none

theorem Consecutive.insertedBefore {globals : Globals} {param : String} {past between : List TimedAction}
    {second : TimedAction} {start finish : TimedValue}
    (consecutive : Consecutive globals param past second between start finish) :
    insertedBefore globals past second = ramp globals.interpolationInterval param start finish := by
  obtain ⟨before, first, rfl, set⟩ := consecutive.split
  have last : lastSetting globals param (before ++ first :: between) = some start :=
    lastSetting_eq_some_iff.mpr ⟨before, first, between, rfl, set, consecutive.between⟩
  have action := (settingOf_eq_some_iff.mp consecutive.second).1
  simp only [FerroFlow.insertedBefore, action, consecutive.second, last]

theorem consecutive_of_mem_insertedBefore {globals : Globals} {past : List TimedAction}
    {second inserted : TimedAction} (member : inserted ∈ insertedBefore globals past second) :
    ∃ param between start finish, Consecutive globals param past second between start finish := by
  unfold insertedBefore at member
  split at member
  · cases member
  · rename_i paramState action
    split at member
    · rename_i finish start set last
      obtain ⟨before, first, between, split, first_set, none⟩ := lastSetting_eq_some_iff.mp last
      exact ⟨paramState.param, between, start, finish, ⟨before, first, split, first_set⟩, set, none⟩
    · cases member

end FerroFlow
