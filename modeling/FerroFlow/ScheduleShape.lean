import FerroFlow.RampValues

/-! The schedule as a whole: the actions of the sequence in their order, each right after the
settings that lead up to it. -/

namespace FerroFlow

def interleaved (globals : Globals) (inserted : List (List TimedAction)) (actions : List TimedAction) :
    List TimedAction :=
  (inserted.zip actions).flatMap fun block => block.1 ++ [shifted globals block.2]

theorem built_interleaved (globals : Globals) (actions : List TimedAction) :
    ∃ inserted : List (List TimedAction), inserted.length = actions.length ∧
      built globals actions = interleaved globals inserted actions ∧
      ∀ position block timedAction, inserted[position]? = some block →
        actions[position]? = some timedAction →
        block = insertedBefore globals (actions.take position) timedAction := by
  induction actions using List.reverseRecOn with
  | nil => exact ⟨[], rfl, rfl, by simp⟩
  | append_singleton past last ih =>
      obtain ⟨inserted, count, whole, blocks⟩ := ih
      refine ⟨inserted ++ [insertedBefore globals past last], by simp [count], ?_, ?_⟩
      · rw [built_concat, whole]
        simp only [interleaved, List.zip_append count, List.flatMap_append, List.zip_cons_cons,
          List.zip_nil_right, List.flatMap_cons, List.flatMap_nil, List.append_nil, List.append_assoc]
      · intro position block timedAction blockAt actionAt
        rcases Nat.lt_trichotomy position past.length with earlier | here | beyond
        · rw [List.getElem?_append_left (by omega)] at blockAt
          rw [List.getElem?_append_left earlier] at actionAt
          rw [List.take_append_of_le_length (by omega)]
          exact blocks position block timedAction blockAt actionAt
        · subst here
          have sameBlock : insertedBefore globals past last = block := by
            rw [← count, List.getElem?_concat_length] at blockAt
            exact Option.some.inj blockAt
          have sameAction : last = timedAction := by
            rw [List.getElem?_concat_length] at actionAt
            exact Option.some.inj actionAt
          rw [← sameBlock, ← sameAction, List.take_left]
        · have none : (past ++ [last])[position]? = none := by
            rw [List.getElem?_eq_none_iff]
            simp only [List.length_append, List.length_singleton]
            omega
          rw [none] at actionAt
          cases actionAt

/-- Settings of a parameter that lead from one of its settings to the next, in time and in value. -/
structure Leads (param : String) (start finish : TimedValue) (inserted : List TimedAction) : Prop where
  settings : ∀ timedAction ∈ inserted, ∃ value, timedAction.action = .setParam ⟨param, value⟩
  within : ∀ timedAction ∈ inserted,
    start.timestamp < timedAction.timestamp ∧ timedAction.timestamp < finish.timestamp
  increasing : inserted.Pairwise fun left right => left.timestamp < right.timestamp
  values : ∀ left right, start.value = .finite left → finish.value = .finite right →
    ∃ values : List ℚ,
      inserted.map (fun timedAction => timedAction.action) =
        values.map (fun value => .setParam ⟨param, .finite value⟩) ∧
      (left < right ∧ values.Pairwise (fun earlier later => earlier < later) ∧
          (∀ value ∈ values, left < value ∧ value < right) ∨
        right < left ∧ values.Pairwise (fun earlier later => later < earlier) ∧
          ∀ value ∈ values, right < value ∧ value < left)

theorem shares_lead {shares : List ℚ} (proper : ∀ share ∈ shares, 0 < share ∧ share < 1)
    (increasing : shares.Pairwise fun earlier later => earlier < later) {left right : ℚ}
    (apart : left ≠ right) :
    let values := shares.map fun share => left + share * (right - left)
    (left < right ∧ values.Pairwise (fun earlier later => earlier < later) ∧
        (∀ value ∈ values, left < value ∧ value < right) ∨
      right < left ∧ values.Pairwise (fun earlier later => later < earlier) ∧
        ∀ value ∈ values, right < value ∧ value < left) := by
  simp only [List.pairwise_map, List.mem_map, forall_exists_index, and_imp, forall_apply_eq_imp_iff₂]
  rcases lt_or_gt_of_ne apart with up | down
  · refine Or.inl ⟨up, increasing.imp ?_, ?_⟩
    · intro earlier later less
      nlinarith
    · intro share member
      obtain ⟨above, below⟩ := proper share member
      constructor <;> nlinarith
  · refine Or.inr ⟨down, increasing.imp ?_, ?_⟩
    · intro earlier later less
      nlinarith
    · intro share member
      obtain ⟨above, below⟩ := proper share member
      constructor <;> nlinarith

section Finite

variable {interval : Duration} {start finish : TimedValue} {startTime finishTime : ℚ}

theorem rampShare_finite (startAt : start.timestamp = .finite startTime)
    (finishAt : finish.timestamp = .finite finishTime) (tick : ℕ) :
    rampShare interval start finish tick = tick * interval.secs / (finishTime - startTime) := by
  simp only [rampShare, startAt, finishAt]

theorem span_pos (startAt : start.timestamp = .finite startTime)
    (finishAt : finish.timestamp = .finite finishTime) (positive : 0 < interval.secs)
    (ramps : Ramps interval start finish) : 0 < finishTime - startTime := by
  have fits := ((ramps_iff startAt finishAt).mp ramps).2
  linarith

theorem rampShare_strict (startAt : start.timestamp = .finite startTime)
    (finishAt : finish.timestamp = .finite finishTime) (positive : 0 < interval.secs)
    (ramps : Ramps interval start finish) {tick : ℕ} (later : 0 < tick)
    (inside : tick < tickCount interval start finish) :
    0 < rampShare interval start finish tick ∧ rampShare interval start finish tick < 1 := by
  have span := span_pos startAt finishAt positive ramps
  have bound := tick_bound startAt finishAt (by linarith) inside
  have first : (0 : ℚ) < tick := by exact_mod_cast later
  rw [rampShare_finite startAt finishAt]
  refine ⟨by positivity, ?_⟩
  rw [div_lt_one span]
  linarith

theorem rampShare_lt (startAt : start.timestamp = .finite startTime)
    (finishAt : finish.timestamp = .finite finishTime) (positive : 0 < interval.secs)
    (ramps : Ramps interval start finish) {tick next : ℕ} (less : tick < next) :
    rampShare interval start finish tick < rampShare interval start finish next := by
  have span := span_pos startAt finishAt positive ramps
  have ordered : (tick : ℚ) < next := by exact_mod_cast less
  rw [rampShare_finite startAt finishAt, rampShare_finite startAt finishAt]
  gcongr

theorem ramp_within (param : String) (startAt : start.timestamp = .finite startTime)
    (finishAt : finish.timestamp = .finite finishTime) (positive : 0 < interval.secs)
    {timedAction : TimedAction} (member : timedAction ∈ ramp interval param start finish) :
    start.timestamp < timedAction.timestamp ∧ timedAction.timestamp < finish.timestamp := by
  obtain ⟨ramps, tick, later, inside, same⟩ := mem_ramp_iff.mp member
  have span := span_pos startAt finishAt positive ramps
  have bound := tick_bound startAt finishAt (by linarith) inside
  have first : (0 : ℚ) < tick := by exact_mod_cast later
  have advanced : 0 < tick * interval.secs := by positivity
  subst same
  simp only [rampAction, rampPoint_timestamp interval finish startAt]
  rw [startAt, finishAt, ExactFloat.finite_lt_finite, ExactFloat.finite_lt_finite]
  constructor
  · linarith
  · linarith

theorem ramp_increasing (param : String) (startAt : start.timestamp = .finite startTime)
    (positive : 0 < interval.secs) :
    (ramp interval param start finish).Pairwise fun left right => left.timestamp < right.timestamp := by
  by_cases ramps : Ramps interval start finish
  · rw [ramp_of_ramps param ramps, List.pairwise_map]
    refine List.pairwise_lt_range.imp ?_
    intro left right less
    simp only [rampAction, rampPoint_timestamp interval finish startAt, ExactFloat.finite_lt_finite]
    have ordered : ((left + 1 : ℕ) : ℚ) < ((right + 1 : ℕ) : ℚ) := by exact_mod_cast Nat.succ_lt_succ less
    have scaled := mul_lt_mul_of_pos_right ordered positive
    linarith
  · rw [ramp_of_not_ramps param ramps]
    exact List.Pairwise.nil

theorem ramp_values (param : String) (startAt : start.timestamp = .finite startTime)
    (finishAt : finish.timestamp = .finite finishTime) (positive : 0 < interval.secs)
    (ramps : Ramps interval start finish) {left right : ℚ} (startValue : start.value = .finite left)
    (finishValue : finish.value = .finite right) :
    ∃ values : List ℚ,
      (ramp interval param start finish).map (fun timedAction => timedAction.action) =
        values.map (fun value => .setParam ⟨param, .finite value⟩) ∧
      (left < right ∧ values.Pairwise (fun earlier later => earlier < later) ∧
          (∀ value ∈ values, left < value ∧ value < right) ∨
        right < left ∧ values.Pairwise (fun earlier later => later < earlier) ∧
          ∀ value ∈ values, right < value ∧ value < left) := by
  let shares := (List.range (tickCount interval start finish - 1)).map fun tick =>
    rampShare interval start finish (tick + 1)
  have notBefore : start.timestamp ≠ .negInf := by
    rw [startAt]
    intro impossible
    cases impossible
  have apart : left ≠ right := by
    have differ := ramps.1
    rw [startValue, finishValue] at differ
    intro same
    subst same
    simp [ExactFloat.beq] at differ
  have proper : ∀ share ∈ shares, 0 < share ∧ share < 1 := by
    intro share member
    obtain ⟨tick, inRange, same⟩ := List.mem_map.mp member
    have bound := List.mem_range.mp inRange
    subst same
    exact rampShare_strict startAt finishAt positive ramps (by omega) (by omega)
  have increasing : shares.Pairwise fun earlier later => earlier < later := by
    rw [List.pairwise_map]
    refine List.pairwise_lt_range.imp ?_
    intro earlier later less
    exact rampShare_lt startAt finishAt positive ramps (by omega)
  refine ⟨shares.map fun share => left + share * (right - left), ?_, shares_lead proper increasing apart⟩
  rw [ramp_of_ramps param ramps, List.map_map, List.map_map, List.map_map]
  apply List.map_congr_left
  intro tick member
  have bound := List.mem_range.mp member
  have value := rampPoint_value notBefore ramps (show tick + 1 < _ by omega) startValue finishValue
  simp only [Function.comp_apply, rampAction, value]

end Finite

namespace Sequence

variable {seq : Sequence}

theorem FiniteTimes.leads (finite : seq.FiniteTimes)
    (positive : 0 < seq.globals.interpolationInterval.nanos) {past rest : List TimedAction}
    {second : TimedAction} (split : seq.flattenedActions = past ++ second :: rest)
    (nonEmpty : insertedBefore seq.globals past second ≠ []) :
    ∃ param between start finish, Consecutive seq.globals param past second between start finish ∧
      Leads param start finish (insertedBefore seq.globals past second) := by
  obtain ⟨startTime, start⟩ := finite.start
  obtain ⟨inserted, member⟩ := List.exists_mem_of_ne_nil _ nonEmpty
  obtain ⟨param, between, opening, closing, consecutive⟩ := consecutive_of_mem_insertedBefore member
  obtain ⟨⟨openingTime, openingAt⟩, ⟨closingTime, closingAt⟩, _⟩ :=
    consecutive.times start (finite.of_split split)
  have secs := Duration.secs_pos positive
  refine ⟨param, between, opening, closing, consecutive, ?_⟩
  rw [consecutive.insertedBefore] at member ⊢
  have ramps := (mem_ramp_iff.mp member).1
  constructor
  · intro timedAction inRamp
    obtain ⟨_, tick, _, _, same⟩ := mem_ramp_iff.mp inRamp
    subst same
    exact ⟨_, rfl⟩
  · intro timedAction inRamp
    exact ramp_within param openingAt closingAt secs inRamp
  · exact ramp_increasing param openingAt secs
  · intro left right openingValue closingValue
    exact ramp_values param openingAt closingAt secs ramps openingValue closingValue

theorem shifted_bounds (valid : seq.Valid) (finite : seq.FiniteTimes) {timedAction : TimedAction}
    (member : timedAction ∈ seq.flattenedActions) :
    .finite 0 ≤ (shifted seq.globals timedAction).timestamp ∧
      (shifted seq.globals timedAction).timestamp ≤ seq.globals.endTime - seq.globals.startTime := by
  obtain ⟨startTime, start⟩ := finite.start
  obtain ⟨time, actionAt⟩ := finite.actions timedAction member
  obtain ⟨afterStart, beforeEnd⟩ := valid.bounds member
  rw [start, actionAt, ExactFloat.finite_le_finite] at afterStart
  rw [shifted_timestamp start actionAt, ExactFloat.finite_le_finite, start]
  refine ⟨by linarith, ?_⟩
  rw [actionAt] at beforeEnd
  cases endAt : seq.globals.endTime with
  | nan =>
      rw [endAt] at beforeEnd
      cases beforeEnd
  | negInf =>
      rw [endAt] at beforeEnd
      cases beforeEnd
  | posInf => rfl
  | finite endTime =>
      rw [endAt, ExactFloat.finite_le_finite] at beforeEnd
      rw [ExactFloat.finite_sub_finite, ExactFloat.finite_le_finite]
      linarith

theorem schedule_bounds (valid : seq.Valid) (finite : seq.FiniteTimes)
    (positive : 0 < seq.globals.interpolationInterval.nanos) {pushed : TimedAction}
    (member : pushed ∈ flattenAndInterpolate seq) :
    .finite 0 ≤ pushed.timestamp ∧
      pushed.timestamp ≤ seq.globals.endTime - seq.globals.startTime := by
  rcases (mem_built_iff _ _ _).mp member with ⟨timedAction, listed, same⟩ | ⟨past, second, rest, split, inserted⟩
  · subst same
    exact shifted_bounds valid finite listed
  · obtain ⟨param, between, start, finish, consecutive, leads⟩ :=
      finite.leads positive split (List.ne_nil_of_mem inserted)
    obtain ⟨before, first, whole, set⟩ := consecutive.split
    have firstListed : first ∈ seq.flattenedActions := by simp [split, whole]
    have secondListed : second ∈ seq.flattenedActions := by simp [split]
    have startAt : start.timestamp = (shifted seq.globals first).timestamp :=
      (settingOf_eq_some_iff.mp set).2.2
    have finishAt : finish.timestamp = (shifted seq.globals second).timestamp :=
      (settingOf_eq_some_iff.mp consecutive.second).2.2
    obtain ⟨after, before⟩ := leads.within pushed inserted
    rw [startAt] at after
    rw [finishAt] at before
    exact ⟨ExactFloat.le_trans (shifted_bounds valid finite firstListed).1 (ExactFloat.le_of_lt after),
      ExactFloat.le_trans (ExactFloat.le_of_lt before) (shifted_bounds valid finite secondListed).2⟩

/-- The schedule of an accepted sequence is its actions in their order, none lost, repeated or altered,
each after the settings that lead up to it from the last setting of the same linear parameter. -/
theorem schedule_shape (validated : seq.validate = .ok ()) (finite : seq.FiniteTimes)
    (positive : 0 < seq.globals.interpolationInterval.nanos) :
    (∃ inserted : List (List TimedAction), inserted.length = seq.flattenedActions.length ∧
      flattenAndInterpolate seq = interleaved seq.globals inserted seq.flattenedActions ∧
      ∀ position block timedAction, inserted[position]? = some block →
        seq.flattenedActions[position]? = some timedAction → block ≠ [] →
        ∃ param between start finish,
          Consecutive seq.globals param (seq.flattenedActions.take position) timedAction between start finish ∧
          Leads param start finish block) ∧
    ∀ pushed ∈ flattenAndInterpolate seq, .finite 0 ≤ pushed.timestamp ∧
      pushed.timestamp ≤ seq.globals.endTime - seq.globals.startTime := by
  constructor
  · obtain ⟨inserted, count, whole, blocks⟩ := built_interleaved seq.globals seq.flattenedActions
    refine ⟨inserted, count, whole, ?_⟩
    intro position block timedAction blockAt actionAt nonEmpty
    have same := blocks position block timedAction blockAt actionAt
    subst same
    obtain ⟨bound, located⟩ := List.getElem?_eq_some_iff.mp actionAt
    have split : seq.flattenedActions =
        seq.flattenedActions.take position ++ timedAction :: seq.flattenedActions.drop (position + 1) := by
      rw [← located, List.cons_getElem_drop_succ, List.take_append_drop]
    exact finite.leads positive split nonEmpty
  · intro pushed member
    exact schedule_bounds ((validate_ok_iff seq).mp validated) finite positive member

theorem schedule_shape_openingRamp : ∃ ramp : List TimedAction, ramp.length = 3 ∧
    flattenAndInterpolate (openingRamp []) =
      ⟨.finite 0, .setParam ⟨"valve", .finite 0⟩⟩ :: (ramp ++ [⟨.finite 2, .setParam ⟨"valve", .finite 1⟩⟩]) ∧
    (∃ param between start finish, Consecutive (openingRamp []).globals param
      [⟨.finite 0, .setParam ⟨"valve", .finite 0⟩⟩] ⟨.finite 2, .setParam ⟨"valve", .finite 1⟩⟩ between start finish ∧
      Leads param start finish ramp) ∧
    ∀ pushed ∈ flattenAndInterpolate (openingRamp []), .finite 0 ≤ pushed.timestamp ∧
      pushed.timestamp ≤ .finite 10 - .finite 0 := by
  have actions : (openingRamp []).flattenedActions =
      [⟨.finite 0, .setParam ⟨"valve", .finite 0⟩⟩, ⟨.finite 2, .setParam ⟨"valve", .finite 1⟩⟩] := by decide
  have times : ∀ timedAction ∈ (openingRamp []).flattenedActions,
      timedAction.timestamp.isFinite = true := by decide
  have finite : (openingRamp []).FiniteTimes :=
    ⟨⟨0, rfl⟩, fun timedAction member => (ExactFloat.isFinite_iff _).mp (times timedAction member)⟩
  obtain ⟨⟨inserted, count, whole, blocks⟩, bounds⟩ := schedule_shape (by decide) finite (by decide)
  rw [actions] at count whole blocks
  obtain ⟨opening, ramp, rfl⟩ := List.length_eq_two.mp count
  have none : opening = [] := by
    by_contra nonEmpty
    obtain ⟨param, between, start, finish, consecutive, _⟩ := blocks 0 opening _ rfl rfl nonEmpty
    obtain ⟨before, first, past, _⟩ := consecutive.split
    simp at past
  subst none
  have schedule : flattenAndInterpolate (openingRamp []) =
      ⟨.finite 0, .setParam ⟨"valve", .finite 0⟩⟩ :: (ramp ++ [⟨.finite 2, .setParam ⟨"valve", .finite 1⟩⟩]) := by
    have first : shifted (openingRamp []).globals ⟨.finite 0, .setParam ⟨"valve", .finite 0⟩⟩ =
        ⟨.finite 0, .setParam ⟨"valve", .finite 0⟩⟩ := by decide +kernel
    have second : shifted (openingRamp []).globals ⟨.finite 2, .setParam ⟨"valve", .finite 1⟩⟩ =
        ⟨.finite 2, .setParam ⟨"valve", .finite 1⟩⟩ := by decide +kernel
    rw [whole]
    simp [interleaved, first, second]
  have length : (flattenAndInterpolate (openingRamp [])).length = 5 := by decide +kernel
  have three : ramp.length = 3 := by
    rw [schedule] at length
    simpa using length
  exact ⟨ramp, three, schedule, blocks 1 ramp _ rfl rfl (List.ne_nil_of_length_pos (by omega)), bounds⟩

end Sequence

end FerroFlow
