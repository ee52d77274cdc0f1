import FerroFlow.Lib.Binary64
import FerroFlow.SequenceRamp

/-! The schedule as a machine builds it: the result of each operation is rounded, and the thread ends
where a collection outgrows the memory. -/

namespace FerroFlow

structure Machine where
  round : F64 → F64
  memory : ℕ

namespace Machine

variable (machine : Machine)

def binary64 (memory : ℕ) : Machine where
  round := ExactFloat.toBinary64
  memory := memory

def exact (memory : ℕ) : Machine where
  round := id
  memory := memory

def reserve (entries : ℕ) : Result Unit :=
  if entries ≤ machine.memory then .ok () else .error (.panic "memory allocation failed")

def asSecsF64 (duration : Duration) : F64 :=
  machine.round (machine.round (.finite (duration.nanos / 10 ^ 9 : ℕ)) +
    machine.round (.finite (duration.nanos % 10 ^ 9 : ℕ) / .finite (10 ^ 9)))

def tickValue (start finish : TimedValue) (interval timespan : F64) (tick : ℕ) : TimedValue :=
  let tickTimestamp := machine.round (start.timestamp + machine.round (machine.round (.finite tick) * interval))
  let alpha := machine.round (machine.round (tickTimestamp - start.timestamp) / timespan)
  { timestamp := tickTimestamp
    value := machine.round (start.value + machine.round (alpha * machine.round (finish.value - start.value))) }

def interpolateLinear (start finish : TimedValue) (interval : Duration) : Result (Option (List TimedValue)) :=
  if start.value.beq finish.value then .ok none
  else
    let interval := machine.asSecsF64 interval
    let timespan := machine.round (finish.timestamp - start.timestamp)
    if machine.round (timespan / .finite 2) < interval then .ok none
    else do
      let tickCount := asUsize (machine.round (timespan / interval)).floor
      machine.reserve (tickCount + 1)
      .ok (some ((List.range (tickCount + 1)).map (machine.tickValue start finish interval timespan)))

def interpolatedActions (lastParamStates : HashMap String TimedValue) (interval : Duration)
    (param : String) (newParamValue : TimedValue) : Result (List TimedAction) :=
  match lastParamStates.lookup param with
  | none => .ok []
  | some lastParamValue => do
      match ← machine.interpolateLinear lastParamValue newParamValue interval with
      | none => .ok []
      | some interpolated => .ok (interpolated.tail.dropLast.map fun timedValue => {
          timestamp := timedValue.timestamp
          action := .setParam { param := param, value := timedValue.value } })

def shifted (globals : Globals) (timedAction : TimedAction) : TimedAction :=
  { timedAction with timestamp := machine.round (timedAction.timestamp - globals.startTime) }

def pushAction (globals : Globals) (state : BuilderState) (timedAction : TimedAction) :
    Result BuilderState := do
  let timedAction := machine.shifted globals timedAction
  let unchanged := do
    machine.reserve (state.finalActions.length + 1)
    .ok { state with finalActions := state.finalActions ++ [timedAction] }
  match timedAction.action with
  | .hold _ => unchanged
  | .setParam paramState =>
      match globals.interpolations.lookup paramState.param with
      | some .linear =>
          let newParamValue := { timestamp := timedAction.timestamp, value := paramState.value }
          let interpolated ← machine.interpolatedActions state.lastParamStates globals.interpolationInterval
            paramState.param newParamValue
          machine.reserve (state.finalActions.length + interpolated.length + 1)
          .ok {
            finalActions := state.finalActions ++ interpolated ++ [timedAction]
            lastParamStates := (state.lastParamStates.erase paramState.param).insert
              paramState.param newParamValue }
      | _ => unchanged

def flattenAndInterpolate (seq : Sequence) : Result (List TimedAction) :=
  BuilderState.finalActions <$> seq.flattenedActions.foldlM (machine.pushAction seq.globals) {}

/-! What is pushed for an action depends on the last setting of its parameter, on the timeline that
starts at zero. -/

def timeline (seq : Sequence) : List TimedAction :=
  seq.flattenedActions.map (machine.shifted seq.globals)

def Ramps (interval : Duration) (start finish : TimedValue) : Prop :=
  start.value.beq finish.value = false ∧
    ¬ machine.round (machine.round (finish.timestamp - start.timestamp) / .finite 2) < machine.asSecsF64 interval

instance (interval : Duration) (start finish : TimedValue) : Decidable (machine.Ramps interval start finish) :=
  inferInstanceAs (Decidable (_ ∧ _))

def tickCount (interval : Duration) (start finish : TimedValue) : ℕ :=
  asUsize (machine.round
    (machine.round (finish.timestamp - start.timestamp) / machine.asSecsF64 interval)).floor

def rampAction (interval : Duration) (param : String) (start finish : TimedValue) (tick : ℕ) : TimedAction where
  timestamp := (machine.tickValue start finish (machine.asSecsF64 interval)
    (machine.round (finish.timestamp - start.timestamp)) tick).timestamp
  action := .setParam {
    param := param
    value := (machine.tickValue start finish (machine.asSecsF64 interval)
      (machine.round (finish.timestamp - start.timestamp)) tick).value }

def ramp (interval : Duration) (param : String) (start finish : TimedValue) : List TimedAction :=
  if machine.Ramps interval start finish then
    (List.range (machine.tickCount interval start finish - 1)).map fun tick =>
      machine.rampAction interval param start finish (tick + 1)
  else []

end Machine

/-- Times on the timeline are already relative to the start. -/
def Globals.onTimeline (globals : Globals) : Globals :=
  { globals with startTime := .finite 0 }

namespace Machine

variable (machine : Machine) {globals : Globals}

def settings (globals : Globals) (past : List TimedAction) (timedAction : TimedAction) :
    Option (String × TimedValue × TimedValue) :=
  match timedAction.action with
  | .hold _ => none
  | .setParam paramState =>
      match settingOf globals.onTimeline paramState.param timedAction,
        lastSetting globals.onTimeline paramState.param past with
      | some finish, some start => some (paramState.param, start, finish)
      | _, _ => none

def insertedBefore (globals : Globals) (past : List TimedAction) (timedAction : TimedAction) : List TimedAction :=
  match settings globals past timedAction with
  | none => []
  | some (param, start, finish) => machine.ramp globals.interpolationInterval param start finish

def scheduled (globals : Globals) : List TimedAction → List TimedAction → List TimedAction
  | _, [] => []
  | past, timedAction :: rest =>
      machine.insertedBefore globals past timedAction ++
        timedAction :: scheduled globals (past ++ [timedAction]) rest

def TicksFit (globals : Globals) (past : List TimedAction) (timedAction : TimedAction) : Prop :=
  ∀ param start finish, settings globals past timedAction = some (param, start, finish) →
    machine.Ramps globals.interpolationInterval start finish →
    machine.tickCount globals.interpolationInterval start finish + 1 ≤ machine.memory

theorem scheduled_concat (past rest : List TimedAction) (timedAction : TimedAction) :
    machine.scheduled globals past (rest ++ [timedAction]) = machine.scheduled globals past rest ++
      machine.insertedBefore globals (past ++ rest) timedAction ++ [timedAction] := by
  induction rest generalizing past with
  | nil => simp [scheduled]
  | cons first rest ih => simp [scheduled, ih]

theorem reserve_ok_iff {entries : ℕ} {result : Unit} :
    machine.reserve entries = .ok result ↔ entries ≤ machine.memory := by
  unfold reserve
  split <;> simp_all

theorem interpolateLinear_ok_iff (param : String) {start finish : TimedValue} {interval : Duration}
    {inserted : List TimedAction} :
    (do match ← machine.interpolateLinear start finish interval with
        | none => .ok []
        | some interpolated => .ok (interpolated.tail.dropLast.map fun timedValue => {
            timestamp := timedValue.timestamp
            action := .setParam { param := param, value := timedValue.value } })) = (.ok inserted : Result _) ↔
      (machine.Ramps interval start finish → machine.tickCount interval start finish + 1 ≤ machine.memory) ∧
        inserted = machine.ramp interval param start finish := by
  unfold interpolateLinear
  by_cases ramps : machine.Ramps interval start finish
  · obtain ⟨differ, fits⟩ := ramps
    have both : machine.Ramps interval start finish := ⟨differ, fits⟩
    simp only [differ, fits, both, Bool.false_eq_true, ↓reduceIte, forall_const, ramp, Checks.bind_ok_iff,
      reserve_ok_iff, Except.ok.injEq]
    constructor
    · rintro ⟨_, ⟨_, small, rfl⟩, same⟩
      simp only [Except.ok.injEq] at same
      refine ⟨small, ?_⟩
      rw [← same, tail_dropLast_range, List.map_map]
      rfl
    · rintro ⟨small, rfl⟩
      refine ⟨_, ⟨(), small, rfl⟩, ?_⟩
      simp only [Except.ok.injEq]
      rw [tail_dropLast_range, List.map_map]
      rfl
  · have level : machine.ramp interval param start finish = [] := by simp only [ramp, ramps, ↓reduceIte]
    simp only [ramps, false_implies, true_and, level]
    by_cases same : start.value.beq finish.value = true
    · simp [same, bind, Except.bind, eq_comm]
    · have narrow : machine.round (machine.round (finish.timestamp - start.timestamp) / .finite 2) <
          machine.asSecsF64 interval := by
        by_contra fits
        exact ramps ⟨by simpa using same, fits⟩
      simp [same, narrow, bind, Except.bind, eq_comm]

structure Built (globals : Globals) (past : List TimedAction) (state : BuilderState) : Prop where
  remembered : ∀ param, state.lastParamStates.lookup param = lastSetting globals.onTimeline param past
  finalActions : state.finalActions = machine.scheduled globals [] past

variable {machine}

theorem sub_zero_time (time : F64) : time - .finite 0 = time := by
  change ExactFloat.add time (ExactFloat.neg (.finite 0)) = time
  cases time with
  | finite value => simp [ExactFloat.add, ExactFloat.neg]
  | _ => rfl

theorem settingOf_onTimeline (param : String) (time : F64) (paramState : ParamState) :
    settingOf globals.onTimeline param ⟨time, .setParam paramState⟩ =
      if paramState.param = param ∧ globals.interpolations.lookup param = some .linear then
        some ⟨time, paramState.value⟩
      else none := by
  simp only [settingOf, Globals.onTimeline, sub_zero_time]

section Push

variable {past : List TimedAction} {state next : BuilderState} {original : TimedAction}

theorem Built.settings_linear (built : machine.Built globals past state) (time : F64) {paramState : ParamState}
    (linear : globals.interpolations.lookup paramState.param = some .linear) :
    settings globals past ⟨time, .setParam paramState⟩ =
      (state.lastParamStates.lookup paramState.param).map fun start =>
        (paramState.param, start, ⟨time, paramState.value⟩) := by
  simp only [settings, settingOf_onTimeline, linear, and_self, ↓reduceIte, built.remembered]
  cases lastSetting globals.onTimeline paramState.param past <;> rfl

theorem settings_other {paramState : ParamState} {time : F64}
    (other : globals.interpolations.lookup paramState.param ≠ some .linear) :
    settings globals past ⟨time, .setParam paramState⟩ = none := by
  simp only [settings, settingOf_onTimeline, other, and_false, ↓reduceIte]

theorem ticksFit_of_none {timedAction : TimedAction} (none : settings globals past timedAction = none) :
    machine.TicksFit globals past timedAction := by
  intro param start finish known
  rw [none] at known
  cases known

theorem ticksFit_iff {timedAction : TimedAction} {param : String} {start finish : TimedValue}
    (known : settings globals past timedAction = some (param, start, finish)) :
    machine.TicksFit globals past timedAction ↔ (machine.Ramps globals.interpolationInterval start finish →
      machine.tickCount globals.interpolationInterval start finish + 1 ≤ machine.memory) := by
  constructor
  · intro fits
    exact fits param start finish known
  · intro fits _ _ _ same
    rw [known] at same
    obtain ⟨rfl, rfl, rfl⟩ := Option.some.inj same
    exact fits

theorem Built.interpolatedActions_ok_iff (built : machine.Built globals past state) {paramState : ParamState}
    {time : F64} (linear : globals.interpolations.lookup paramState.param = some .linear)
    {inserted : List TimedAction} :
    machine.interpolatedActions state.lastParamStates globals.interpolationInterval paramState.param
        ⟨time, paramState.value⟩ = .ok inserted ↔
      machine.TicksFit globals past ⟨time, .setParam paramState⟩ ∧
        inserted = machine.insertedBefore globals past ⟨time, .setParam paramState⟩ := by
  have known := built.settings_linear time linear
  unfold interpolatedActions insertedBefore
  cases last : state.lastParamStates.lookup paramState.param with
  | none =>
      rw [last] at known
      simp [known, ticksFit_of_none known, eq_comm]
  | some start =>
      rw [last] at known
      rw [ticksFit_iff known, known]
      exact machine.interpolateLinear_ok_iff paramState.param

theorem Built.unchanged (built : machine.Built globals past state) {timedAction : TimedAction}
    (none : settings globals past timedAction = none)
    (kept : ∀ param, settingOf globals.onTimeline param timedAction = .none) :
    machine.Built globals (past ++ [timedAction]) { state with
      finalActions := state.finalActions ++ [timedAction] } := by
  constructor
  · intro param
    rw [lastSetting_concat, kept, Option.none_or]
    exact built.remembered param
  · simp only [scheduled_concat, List.nil_append, insertedBefore, none, List.append_nil, built.finalActions]

theorem Built.set (built : machine.Built globals past state) {paramState : ParamState} {time : F64}
    (linear : globals.interpolations.lookup paramState.param = some .linear) :
    machine.Built globals (past ++ [⟨time, .setParam paramState⟩]) {
      finalActions := state.finalActions ++
        machine.insertedBefore globals past ⟨time, .setParam paramState⟩ ++ [⟨time, .setParam paramState⟩]
      lastParamStates := (state.lastParamStates.erase paramState.param).insert paramState.param
        ⟨time, paramState.value⟩ } := by
  constructor
  · intro param
    rw [lastSetting_concat, settingOf_onTimeline, KeyedMap.lookup_insert_eq, KeyedMap.lookup_erase_eq,
      built.remembered]
    by_cases same : param = paramState.param
    · subst same
      simp [linear]
    · simp [same, Ne.symm same]
  · simp only [scheduled_concat, List.nil_append, built.finalActions]

theorem settingOf_other {timedAction : TimedAction} (other : ∀ paramState,
    timedAction.action = .setParam paramState → globals.interpolations.lookup paramState.param ≠ some .linear)
    (param : String) : settingOf globals.onTimeline param timedAction = none := by
  obtain ⟨time, action⟩ := timedAction
  cases action with
  | hold mode => rfl
  | setParam paramState =>
      rw [settingOf_onTimeline, if_neg]
      rintro ⟨rfl, linear⟩
      exact other paramState rfl linear

theorem Built.pushAction (built : machine.Built globals past state) (original : TimedAction) :
    ∃ pushed, machine.Built globals (past ++ [machine.shifted globals original]) pushed ∧
      ∀ next, machine.pushAction globals state original = .ok next ↔
        (machine.TicksFit globals past (machine.shifted globals original) ∧
          (machine.scheduled globals [] (past ++ [machine.shifted globals original])).length ≤ machine.memory) ∧
        pushed = next := by
  unfold Machine.pushAction
  generalize machine.shifted globals original = timedAction
  rw [scheduled_concat, List.nil_append, ← built.finalActions]
  obtain ⟨time, action⟩ := timedAction
  by_cases linear : ∃ paramState, action = .setParam paramState ∧
      globals.interpolations.lookup paramState.param = some .linear
  · obtain ⟨paramState, rfl, linear⟩ := linear
    refine ⟨_, built.set linear, fun next => ?_⟩
    simp only [linear, Checks.bind_ok_iff, built.interpolatedActions_ok_iff linear, reserve_ok_iff,
      List.length_append, List.length_singleton, Except.ok.injEq]
    constructor
    · rintro ⟨_, ⟨fits, rfl⟩, _, small, same⟩
      exact ⟨⟨fits, small⟩, same⟩
    · rintro ⟨⟨fits, small⟩, same⟩
      exact ⟨_, ⟨fits, rfl⟩, (), small, same⟩
  · have other : ∀ paramState, action = .setParam paramState →
        globals.interpolations.lookup paramState.param ≠ some .linear := by
      intro paramState set isLinear
      exact linear ⟨paramState, set, isLinear⟩
    have none : settings globals past ⟨time, action⟩ = none := by
      cases action with
      | hold mode => rfl
      | setParam paramState => exact settings_other (other paramState rfl)
    refine ⟨_, built.unchanged none (settingOf_other other), fun next => ?_⟩
    have plain : (machine.reserve (state.finalActions.length + 1) >>= fun _ =>
        (.ok { state with finalActions := state.finalActions ++ [⟨time, action⟩] } : Result BuilderState)) =
          .ok next ↔ (machine.TicksFit globals past ⟨time, action⟩ ∧
            (state.finalActions ++ machine.insertedBefore globals past ⟨time, action⟩ ++
              [(⟨time, action⟩ : TimedAction)]).length ≤ machine.memory) ∧
          ({ state with finalActions := state.finalActions ++ [⟨time, action⟩] } : BuilderState) = next := by
      simp [Checks.bind_ok_iff, reserve_ok_iff, ticksFit_of_none none, insertedBefore, none]
    cases action with
    | hold mode => exact plain
    | setParam paramState =>
        have mode := other paramState rfl
        cases known : globals.interpolations.lookup paramState.param with
        | none => simpa only [known] using plain
        | some mode =>
            cases mode with
            | none => simpa only [known] using plain
            | linear => exact (mode known).elim

end Push

theorem scheduled_append (globals : Globals) (past early late : List TimedAction) :
    machine.scheduled globals past (early ++ late) =
      machine.scheduled globals past early ++ machine.scheduled globals (past ++ early) late := by
  induction early generalizing past with
  | nil => simp [scheduled]
  | cons timedAction early ih => simp [scheduled, ih]

theorem length_ramp (interval : Duration) (param : String) (start finish : TimedValue) :
    (machine.ramp interval param start finish).length =
      if machine.Ramps interval start finish then machine.tickCount interval start finish - 1 else 0 := by
  unfold ramp
  split <;> simp

theorem past_of_settings {past : List TimedAction} {timedAction : TimedAction} {param : String}
    {start finish : TimedValue} (known : settings globals past timedAction = some (param, start, finish)) :
    past ≠ [] := by
  rintro rfl
  unfold settings at known
  split at known
  · cases known
  · rename_i paramState _
    have first : lastSetting globals.onTimeline paramState.param [] = none := rfl
    simp [first] at known

theorem length_le_scheduled (globals : Globals) (past : List TimedAction) :
    past.length ≤ (machine.scheduled globals [] past).length := by
  induction past using List.reverseRecOn with
  | nil => simp
  | append_singleton past timedAction ih =>
      rw [scheduled_concat]
      simp only [List.length_append, List.length_singleton]
      omega

theorem ticksFit_of_length {past : List TimedAction} {timedAction : TimedAction}
    (fits : (machine.scheduled globals [] (past ++ [timedAction])).length ≤ machine.memory) :
    machine.TicksFit globals past timedAction := by
  intro param start finish known ramps
  have opening := List.length_pos_iff.mpr (past_of_settings known)
  have shorter := machine.length_le_scheduled globals past
  rw [scheduled_concat, List.nil_append, List.length_append, List.length_append, List.length_singleton] at fits
  simp only [insertedBefore, known, length_ramp, ramps, ↓reduceIte] at fits
  omega

theorem flattenAndInterpolate_ok_iff {seq : Sequence} {schedule : List TimedAction} :
    machine.flattenAndInterpolate seq = .ok schedule ↔
      schedule = machine.scheduled seq.globals [] (machine.timeline seq) ∧ schedule.length ≤ machine.memory := by
  have empty : machine.Built seq.globals [] {} := ⟨fun _ => rfl, rfl⟩
  simp only [flattenAndInterpolate, Checks.map_ok_iff]
  constructor
  · rintro ⟨state, folded, rfl⟩
    obtain ⟨built, fits⟩ := Checks.foldlM_ok_invariant
      (fun past state => machine.Built seq.globals (past.map (machine.shifted seq.globals)) state ∧
        state.finalActions.length ≤ machine.memory)
      (by
        rintro past state original next ⟨built, _⟩ pushed
        obtain ⟨after, longer, accepted⟩ := built.pushAction original
        obtain ⟨⟨_, fits⟩, rfl⟩ := (accepted next).mp pushed
        rw [List.map_append, List.map_singleton]
        exact ⟨longer, longer.finalActions ▸ fits⟩)
      folded ⟨empty, Nat.zero_le _⟩
    exact ⟨built.finalActions, fits⟩
  · rintro ⟨rfl, fits⟩
    obtain ⟨state, folded, built⟩ := @Checks.foldlM_progress Failure TimedAction BuilderState
      (machine.pushAction seq.globals)
      (fun past state => machine.Built seq.globals (past.map (machine.shifted seq.globals)) state)
      seq.flattenedActions
      (by
        intro past state original rest split built
        obtain ⟨after, longer, accepted⟩ := built.pushAction original
        have whole : machine.timeline seq = past.map (machine.shifted seq.globals) ++
            [machine.shifted seq.globals original] ++ rest.map (machine.shifted seq.globals) := by
          simp [timeline, split]
        rw [whole, scheduled_append, List.length_append] at fits
        have early := (Nat.le_add_right _ _).trans fits
        refine ⟨after, (accepted after).mpr ⟨⟨ticksFit_of_length early, early⟩, rfl⟩, ?_⟩
        rw [List.map_append, List.map_singleton]
        exact longer)
      {} empty
    exact ⟨state, folded, built.finalActions⟩

variable (machine) in
/-- How many entries a timeline comes to: its actions, and for each ramp the ticks between its ends. -/
def entryCount (globals : Globals) : List TimedAction → List TimedAction → ℕ
  | _, [] => 0
  | past, timedAction :: rest =>
      (match settings globals past timedAction with
        | none => 0
        | some (_, start, finish) =>
            if machine.Ramps globals.interpolationInterval start finish then
              machine.tickCount globals.interpolationInterval start finish - 1
            else 0) +
        1 + entryCount globals (past ++ [timedAction]) rest

theorem length_scheduled (globals : Globals) (past rest : List TimedAction) :
    (machine.scheduled globals past rest).length = machine.entryCount globals past rest := by
  induction rest generalizing past with
  | nil => rfl
  | cons timedAction rest ih =>
      rw [scheduled, entryCount, List.length_append, List.length_cons, ih]
      unfold insertedBefore
      cases settings globals past timedAction with
      | none => simp only [List.length_nil]; omega
      | some found =>
          obtain ⟨param, start, finish⟩ := found
          simp only [length_ramp]
          omega

theorem mem_scheduled_iff (globals : Globals) (past rest : List TimedAction) (pushed : TimedAction) :
    pushed ∈ machine.scheduled globals past rest ↔ pushed ∈ rest ∨
      ∃ early timedAction late, rest = early ++ timedAction :: late ∧
        pushed ∈ machine.insertedBefore globals (past ++ early) timedAction := by
  constructor
  · intro member
    induction rest generalizing past with
    | nil => cases member
    | cons first rest ih =>
        rcases List.mem_append.mp member with inserted | later
        · exact Or.inr ⟨[], first, rest, rfl, by simpa using inserted⟩
        · rcases List.mem_cons.mp later with rfl | later
          · exact Or.inl List.mem_cons_self
          · rcases ih _ later with listed | ⟨early, timedAction, late, rfl, inserted⟩
            · exact Or.inl (List.mem_cons_of_mem _ listed)
            · exact Or.inr ⟨first :: early, timedAction, late, rfl, by simpa using inserted⟩
  · rintro (listed | ⟨early, timedAction, late, rfl, inserted⟩)
    · obtain ⟨early, late, rfl⟩ := List.append_of_mem listed
      rw [scheduled_append, scheduled]
      simp
    · rw [scheduled_append, scheduled]
      simp [inserted]

theorem settings_eq_some_iff {past : List TimedAction} {timedAction : TimedAction} {param : String}
    {start finish : TimedValue} : settings globals past timedAction = some (param, start, finish) ↔
      ∃ between, Consecutive globals.onTimeline param past timedAction between start finish := by
  constructor
  · intro known
    unfold settings at known
    split at known
    · cases known
    · rename_i paramState action
      split at known
      · rename_i set last
        obtain ⟨rfl, rfl, rfl⟩ := Option.some.inj known
        obtain ⟨before, first, between, split, opened, none⟩ := lastSetting_eq_some_iff.mp last
        exact ⟨between, ⟨before, first, split, opened⟩, set, none⟩
      · cases known
  · rintro ⟨between, consecutive⟩
    obtain ⟨before, first, rfl, opened⟩ := consecutive.split
    have last : lastSetting globals.onTimeline param (before ++ first :: between) = some start :=
      lastSetting_eq_some_iff.mpr ⟨before, first, between, rfl, opened, consecutive.between⟩
    have action := (settingOf_eq_some_iff.mp consecutive.second).1
    simp only [settings, action, consecutive.second, last]

theorem mem_ramp_iff {interval : Duration} {param : String} {start finish : TimedValue} {inserted : TimedAction} :
    inserted ∈ machine.ramp interval param start finish ↔ machine.Ramps interval start finish ∧
      ∃ tick, 0 < tick ∧ tick < machine.tickCount interval start finish ∧
        inserted = machine.rampAction interval param start finish tick := by
  unfold ramp
  split
  · rename_i ramps
    simp only [List.mem_map, List.mem_range, ramps, true_and]
    constructor
    · rintro ⟨tick, bound, rfl⟩
      exact ⟨tick + 1, by omega, by omega, rfl⟩
    · rintro ⟨tick, positive, bound, rfl⟩
      obtain ⟨earlier, rfl⟩ := Nat.exists_eq_add_of_lt positive
      refine ⟨earlier, by omega, ?_⟩
      rw [Nat.zero_add]
  · rename_i level
    simp [level]

/-! Without rounding, and with enough memory, the machine builds the schedule of exact arithmetic. -/

theorem exact_asSecsF64 (memory : ℕ) (duration : Duration) :
    (exact memory).asSecsF64 duration = duration.asSecsF64 := by
  have whole := Nat.div_add_mod duration.nanos (10 ^ 9)
  have split : (duration.nanos : ℚ) =
      10 ^ 9 * (duration.nanos / 10 ^ 9 : ℕ) + (duration.nanos % 10 ^ 9 : ℕ) := by
    exact_mod_cast whole.symm
  simp only [asSecsF64, exact, id, Duration.asSecsF64]
  rw [ExactFloat.finite_div_finite _ (by norm_num), ExactFloat.finite_add_finite, split]
  congr 1
  ring

theorem exact_ramp (memory : ℕ) (interval : Duration) (param : String) (start finish : TimedValue) :
    (exact memory).ramp interval param start finish = FerroFlow.ramp interval param start finish := by
  have same : (exact memory).Ramps interval start finish ↔ FerroFlow.Ramps interval start finish := by
    simp only [Ramps, FerroFlow.Ramps, exact_asSecsF64]
    rfl
  unfold ramp
  by_cases ramps : FerroFlow.Ramps interval start finish
  · rw [if_pos (same.mpr ramps), ramp_of_ramps param ramps]
    simp only [tickCount, rampAction, exact_asSecsF64]
    rfl
  · rw [if_neg (fun both => ramps (same.mp both)), ramp_of_not_ramps param ramps]

theorem exact_settingOf (memory : ℕ) (globals : Globals) (param : String) (timedAction : TimedAction) :
    settingOf globals.onTimeline param ((exact memory).shifted globals timedAction) =
      settingOf globals param timedAction := by
  obtain ⟨time, action⟩ := timedAction
  cases action with
  | hold mode => rfl
  | setParam paramState =>
      change settingOf globals.onTimeline param ⟨time - globals.startTime, .setParam paramState⟩ = _
      rw [settingOf_onTimeline]
      rfl

theorem exact_lastSetting (memory : ℕ) (globals : Globals) (param : String) (past : List TimedAction) :
    lastSetting globals.onTimeline param (past.map ((exact memory).shifted globals)) =
      lastSetting globals param past := by
  induction past using List.reverseRecOn with
  | nil => rfl
  | append_singleton past timedAction ih =>
      rw [List.map_append, List.map_singleton, lastSetting_concat, lastSetting_concat, ih, exact_settingOf]

theorem exact_insertedBefore (memory : ℕ) (globals : Globals) (past : List TimedAction)
    (timedAction : TimedAction) :
    (exact memory).insertedBefore globals (past.map ((exact memory).shifted globals))
        ((exact memory).shifted globals timedAction) =
      FerroFlow.insertedBefore globals past timedAction := by
  obtain ⟨time, action⟩ := timedAction
  cases action with
  | hold mode => rfl
  | setParam paramState =>
      have last := exact_lastSetting memory globals paramState.param past
      have set := exact_settingOf memory globals paramState.param ⟨time, .setParam paramState⟩
      unfold insertedBefore settings FerroFlow.insertedBefore
      simp only [shifted] at last set ⊢
      rw [last, set]
      cases settingOf globals paramState.param ⟨time, .setParam paramState⟩ with
      | none => rfl
      | some finish =>
          cases lastSetting globals paramState.param past with
          | none => rfl
          | some start => exact exact_ramp memory _ _ _ _

theorem exact_scheduled (memory : ℕ) (globals : Globals) (actions : List TimedAction) :
    (exact memory).scheduled globals [] (actions.map ((exact memory).shifted globals)) =
      built globals actions := by
  induction actions using List.reverseRecOn with
  | nil => rfl
  | append_singleton past timedAction ih =>
      rw [List.map_append, List.map_singleton, scheduled_concat, List.nil_append, exact_insertedBefore, ih,
        built_concat]
      rfl

/-- The builder with exact arithmetic is this machine's without rounding. -/
theorem exact_flattenAndInterpolate {memory : ℕ} {seq : Sequence} {schedule : List TimedAction} :
    (exact memory).flattenAndInterpolate seq = .ok schedule ↔
      schedule = FerroFlow.flattenAndInterpolate seq ∧ schedule.length ≤ memory := by
  rw [flattenAndInterpolate_ok_iff, timeline, exact_scheduled]
  rfl

end Machine

end FerroFlow
