import FerroFlow.NodeSlots
import FerroFlow.RawValues
import FerroFlow.ScheduleOrder
import FerroFlow.SequenceRunner
import FerroFlow.TypedWrites

/-! Which ramps the node manager accepts. The settings in between have fractional raw values
in general, and only some types represent them. -/

namespace FerroFlow

/-- The share of the way from one setting to the next at a tick; a ramp without an end stays at its
start. -/
def rampShare (interval : Duration) (start finish : TimedValue) (tick : ℕ) : ℚ :=
  match start.timestamp, finish.timestamp with
  | .finite startTime, .finite finishTime => tick * interval.secs / (finishTime - startTime)
  | _, _ => 0

section Share

variable {interval : Duration} {start finish : TimedValue} {tick : ℕ}

theorem tickCount_of_nan (undefinedSpan : finish.timestamp - start.timestamp = .nan) :
    tickCount interval start finish = 0 := by
  unfold tickCount
  rw [undefinedSpan]
  rfl

theorem not_ramps_of_negInf (backwards : finish.timestamp - start.timestamp = .negInf) :
    ¬ Ramps interval start finish := by
  rintro ⟨_, fits⟩
  have halved : ExactFloat.negInf / .finite 2 = .negInf := by decide +kernel
  rw [backwards, Duration.asSecsF64_eq, halved] at fits
  exact fits rfl

theorem inserted_times (notBefore : start.timestamp ≠ .negInf) (ramps : Ramps interval start finish)
    (inside : tick < tickCount interval start finish) :
    ∃ startTime, start.timestamp = .finite startTime ∧
      (finish.timestamp = .posInf ∨
        ∃ finishTime, finish.timestamp = .finite finishTime ∧ startTime ≤ finishTime) := by
  have defined : finish.timestamp - start.timestamp ≠ .nan := by
    intro undefinedSpan
    rw [tickCount_of_nan undefinedSpan] at inside
    omega
  have forwards : finish.timestamp - start.timestamp ≠ .negInf :=
    fun backwards => not_ramps_of_negInf backwards ramps
  cases startAt : start.timestamp with
  | nan => exact (defined (by rw [startAt]; cases finish.timestamp <;> rfl)).elim
  | negInf => exact (notBefore startAt).elim
  | posInf =>
      rw [startAt] at defined forwards
      cases finishAt : finish.timestamp <;> rw [finishAt] at defined forwards
      · exact (defined rfl).elim
      · exact (forwards rfl).elim
      · exact (forwards rfl).elim
      · exact (defined rfl).elim
  | finite startTime =>
      refine ⟨startTime, rfl, ?_⟩
      rw [startAt] at defined forwards
      cases finishAt : finish.timestamp with
      | nan => exact (defined (by rw [finishAt]; rfl)).elim
      | negInf => exact (forwards (by rw [finishAt]; rfl)).elim
      | posInf => exact Or.inl rfl
      | finite finishTime => exact Or.inr ⟨finishTime, rfl, ordered_of_ramps startAt finishAt ramps⟩

theorem rampShare_bounds (notBefore : start.timestamp ≠ .negInf) (ramps : Ramps interval start finish)
    (inside : tick < tickCount interval start finish) :
    0 ≤ rampShare interval start finish tick ∧ rampShare interval start finish tick ≤ 1 := by
  obtain ⟨startTime, startAt, endless | ⟨finishTime, finishAt, ordered⟩⟩ :=
    inserted_times notBefore ramps inside
  · simp [rampShare, startAt, endless]
  · have bound := tick_bound startAt finishAt ordered inside
    have secs := interval.secs_nonneg
    have span : 0 ≤ finishTime - startTime := by linarith
    simp only [rampShare, startAt, finishAt]
    exact ⟨by positivity, div_le_one_of_le₀ (by linarith) span⟩

theorem rampPoint_value {left right : ℚ} (notBefore : start.timestamp ≠ .negInf)
    (ramps : Ramps interval start finish) (inside : tick < tickCount interval start finish)
    (startValue : start.value = .finite left) (finishValue : finish.value = .finite right) :
    (rampPoint interval start finish tick).value =
      .finite (left + rampShare interval start finish tick * (right - left)) := by
  obtain ⟨startTime, startAt, endless | ⟨finishTime, finishAt, ordered⟩⟩ :=
    inserted_times notBefore ramps inside
  · simp only [rampPoint, tickValue, rampShare, startAt, endless, startValue, finishValue,
      Duration.asSecsF64_eq, ExactFloat.finite_mul_finite, ExactFloat.finite_add_finite,
      ExactFloat.finite_sub_finite]
    change ExactFloat.finite (left + 0 * (right - left)) = _
    rfl
  · have span : finishTime - startTime ≠ 0 := by
      intro instantaneous
      unfold tickCount at inside
      rw [startAt, finishAt, ExactFloat.finite_sub_finite, instantaneous, Duration.asSecsF64_eq] at inside
      rcases interval.secs_nonneg.eq_or_lt with zero | positive
      · rw [← zero] at inside
        cases inside
      · rw [ExactFloat.finite_div_finite _ positive.ne', zero_div] at inside
        cases inside
    simp only [rampPoint, tickValue, rampShare, startAt, finishAt, startValue, finishValue,
      Duration.asSecsF64_eq, ExactFloat.finite_mul_finite, ExactFloat.finite_add_finite,
      ExactFloat.finite_sub_finite, add_sub_cancel_left, ExactFloat.finite_div_finite _ span]

end Share

namespace NodeManager

variable {manager : NodeManager} {param : String} {interval : Duration} {start finish : TimedValue}

/-- The type of the parameter represents the raw value of every setting between the two. A raw name
accepts any number if it accepts one. -/
def RepresentsRamp (manager : NodeManager) (interval : Duration) (param : String)
    (start finish : TimedValue) : Prop :=
  isMappedName param = true → Ramps interval start finish →
  ∀ lookup target, manager.resolveMappingByName param = .ok (lookup, target) →
  ∀ rawStart rawFinish,
    (start.value - lookup.mappingEntry.value.offset) / lookup.mappingEntry.value.slope = .finite rawStart →
    (finish.value - lookup.mappingEntry.value.offset) / lookup.mappingEntry.value.slope = .finite rawFinish →
    ∀ tick, 0 < tick → tick < tickCount interval start finish →
      target.dataType.Represents (rawStart + rampShare interval start finish tick * (rawFinish - rawStart))

theorem acceptsSetting_between_iff {left right rawLeft rawRight share : ℚ}
    {lookup : MappingLookupResult} {target : ResolvedMappingTarget} (mapped : isMappedName param = true)
    (resolved : manager.resolveMappingByName param = .ok (lookup, target))
    (leftRaw : (.finite left - lookup.mappingEntry.value.offset) / lookup.mappingEntry.value.slope =
      .finite rawLeft)
    (rightRaw : (.finite right - lookup.mappingEntry.value.offset) / lookup.mappingEntry.value.slope =
      .finite rawRight)
    (leftAccepted : manager.AcceptsSetting param (.finite left))
    (rightAccepted : manager.AcceptsSetting param (.finite right))
    (nonneg : 0 ≤ share) (atMost : share ≤ 1) :
    manager.AcceptsSetting param (.finite (left + share * (right - left))) ↔
      target.dataType.Represents (rawLeft + share * (rawRight - rawLeft)) := by
  rw [acceptsSetting_mapped_iff mapped] at leftAccepted rightAccepted ⊢
  have between := ExactFloat.affine_between leftRaw rightRaw share
  simp only [resolved, Except.ok.injEq, Prod.mk.injEq] at leftAccepted rightAccepted ⊢
  obtain ⟨_, _, ⟨rfl, rfl⟩, writable, invertible, raw, converted, leftFits⟩ := leftAccepted
  obtain rfl := ExactFloat.finite.inj (leftRaw.symm.trans converted)
  obtain ⟨_, _, ⟨rfl, rfl⟩, _, _, otherRaw, otherConverted, rightFits⟩ := rightAccepted
  obtain rfl := ExactFloat.finite.inj (rightRaw.symm.trans otherConverted)
  rw [← CanDataType.accepts_between_iff leftFits rightFits nonneg atMost]
  constructor
  · rintro ⟨_, _, ⟨rfl, rfl⟩, _, _, inner, innerConverted, fits⟩
    obtain rfl := ExactFloat.finite.inj (between.symm.trans innerConverted)
    exact fits
  · intro fits
    exact ⟨_, _, ⟨rfl, rfl⟩, writable, invertible, _, between, fits⟩

theorem accepts_ramp_iff (notBefore : start.timestamp ≠ .negInf)
    (startAccepted : manager.AcceptsSetting param start.value)
    (finishAccepted : manager.AcceptsSetting param finish.value) :
    (∀ tick, 0 < tick → tick < tickCount interval start finish → Ramps interval start finish →
      manager.AcceptsSetting param (rampPoint interval start finish tick).value) ↔
      manager.RepresentsRamp interval param start finish := by
  obtain ⟨left, startValue⟩ := startAccepted.isFinite
  obtain ⟨right, finishValue⟩ := finishAccepted.isFinite
  rw [startValue] at startAccepted
  rw [finishValue] at finishAccepted
  unfold RepresentsRamp
  rw [startValue, finishValue]
  constructor
  · intro accepted mapped ramps lookup target resolved rawLeft rawRight leftRaw rightRaw tick positive inside
    obtain ⟨nonneg, atMost⟩ := rampShare_bounds notBefore ramps inside
    have setting := accepted tick positive inside ramps
    rw [rampPoint_value notBefore ramps inside startValue finishValue] at setting
    exact (acceptsSetting_between_iff mapped resolved leftRaw rightRaw startAccepted finishAccepted
      nonneg atMost).mp setting
  · intro represented tick positive inside ramps
    obtain ⟨nonneg, atMost⟩ := rampShare_bounds notBefore ramps inside
    rw [rampPoint_value notBefore ramps inside startValue finishValue]
    cases mapped : isMappedName param with
    | false =>
        rw [acceptsSetting_raw_iff mapped] at startAccepted ⊢
        exact startAccepted
    | true =>
        obtain ⟨lookup, target, resolved, _, _, rawLeft, leftRaw, _⟩ :=
          (acceptsSetting_mapped_iff mapped left).mp startAccepted
        obtain ⟨_, _, again, _, _, rawRight, rightRaw, _⟩ :=
          (acceptsSetting_mapped_iff mapped right).mp finishAccepted
        obtain ⟨rfl, rfl⟩ := Prod.mk.inj (Except.ok.inj (resolved.symm.trans again))
        refine (acceptsSetting_between_iff mapped resolved leftRaw rightRaw startAccepted finishAccepted
          nonneg atMost).mpr ?_
        exact represented mapped ramps lookup target resolved rawLeft rawRight leftRaw rightRaw tick
          positive inside

end NodeManager

theorem SequenceThread.performAction_setParam (thread : SequenceThread) (timestamp : TimestampSec)
    (paramState : ParamState) : ∃ events,
      (thread.performAction ⟨timestamp, .setParam paramState⟩).executed = thread.executed ++
        [⟨thread.phase, ⟨timestamp, .setParam paramState⟩, thread.clock, events⟩] ∧
      (events ≠ [] ↔ thread.nodeManager.AcceptsSetting paramState.param paramState.value) := by
  refine ⟨_, rfl, ?_⟩
  unfold NodeManager.AcceptsSetting
  cases thread.nodeManager.setValue_decided paramState.param (.ofF64 paramState.value) with
  | accepted event succeeded dispatched allowed =>
      rw [succeeded, dispatched]
      exact iff_of_true (List.cons_ne_nil _ _) rfl
  | refused chain failed silent =>
      rw [failed, silent]
      refine iff_of_false (fun nonEmpty => nonEmpty rfl) ?_
      intro impossible
      cases impossible

namespace Sequence

variable {seq : Sequence} {past rest between : List TimedAction} {second : TimedAction}
  {param : String} {start finish : TimedValue} {manager : NodeManager}

theorem Valid.start_ne_negInf (valid : seq.Valid) (split : seq.flattenedActions = past ++ second :: rest)
    (consecutive : Consecutive seq.globals param past second between start finish) :
    start.timestamp ≠ .negInf := by
  obtain ⟨before, first, whole, set⟩ := consecutive.split
  rw [(settingOf_eq_some_iff.mp set).2.2]
  have member : first ∈ seq.flattenedActions := by simp [split, whole]
  exact ExactFloat.sub_ne_negInf (valid.bounds member).1

def Settable (manager : NodeManager) (inserted : List TimedAction) : Prop :=
  ∀ timedAction ∈ inserted, ∃ paramState,
    timedAction.action = .setParam paramState ∧ manager.AcceptsSetting paramState.param paramState.value

theorem settable_ramp_iff (interval : Duration) (notBefore : start.timestamp ≠ .negInf)
    (startAccepted : manager.AcceptsSetting param start.value)
    (finishAccepted : manager.AcceptsSetting param finish.value) :
    Settable manager (ramp interval param start finish) ↔
      manager.RepresentsRamp interval param start finish := by
  rw [← NodeManager.accepts_ramp_iff notBefore startAccepted finishAccepted]
  constructor
  · intro settable tick positive inside ramps
    obtain ⟨paramState, action, accepted⟩ :=
      settable _ (mem_ramp_iff.mpr ⟨ramps, tick, positive, inside, rfl⟩)
    obtain rfl := Action.setParam.inj action
    exact accepted
  · intro accepted timedAction member
    obtain ⟨ramps, tick, positive, inside, rfl⟩ := mem_ramp_iff.mp member
    exact ⟨_, rfl, accepted tick positive inside ramps⟩

def Dispatched (thread : SequenceThread) (inserted : List TimedAction) : Prop :=
  ∀ timedAction ∈ inserted, ∃ events, events ≠ [] ∧ (thread.performAction timedAction).executed =
    thread.executed ++ [⟨thread.phase, timedAction, thread.clock, events⟩]

theorem dispatched_iff_settable {thread : SequenceThread} {inserted : List TimedAction}
    (settings : ∀ timedAction ∈ inserted, ∃ paramState, timedAction.action = .setParam paramState) :
    Dispatched thread inserted ↔ Settable thread.nodeManager inserted := by
  constructor
  · intro dispatched timedAction member
    obtain ⟨paramState, action⟩ := settings timedAction member
    obtain ⟨timestamp, _⟩ := timedAction
    subst action
    obtain ⟨events, nonEmpty, executed⟩ := dispatched _ member
    obtain ⟨others, performed, accepted⟩ := thread.performAction_setParam timestamp paramState
    have same := List.append_cancel_left (executed.symm.trans performed)
    obtain rfl : events = others := by simpa using same
    exact ⟨paramState, rfl, accepted.mp nonEmpty⟩
  · intro settable timedAction member
    obtain ⟨paramState, action, setting⟩ := settable timedAction member
    obtain ⟨timestamp, _⟩ := timedAction
    subst action
    obtain ⟨events, performed, accepted⟩ := thread.performAction_setParam timestamp paramState
    exact ⟨events, accepted.mpr setting, performed⟩

/-- Between two settings that are accepted, the inserted ones are accepted, and dispatched when they
are executed, exactly when the type of the parameter represents them. -/
theorem ramp_settable_iff (validated : seq.validate = .ok ())
    (split : seq.flattenedActions = past ++ second :: rest)
    (consecutive : Consecutive seq.globals param past second between start finish)
    (startAccepted : manager.AcceptsSetting param start.value)
    (finishAccepted : manager.AcceptsSetting param finish.value) :
    (∃ later, flattenAndInterpolate seq = built seq.globals past ++
      ramp seq.globals.interpolationInterval param start finish ++ shifted seq.globals second :: later) ∧
    (Settable manager (ramp seq.globals.interpolationInterval param start finish) ↔
      manager.RepresentsRamp seq.globals.interpolationInterval param start finish) ∧
    ∀ thread : SequenceThread, thread.nodeManager = manager →
      (Dispatched thread (ramp seq.globals.interpolationInterval param start finish) ↔
        manager.RepresentsRamp seq.globals.interpolationInterval param start finish) := by
  have notBefore := ((validate_ok_iff seq).mp validated).start_ne_negInf split consecutive
  have settable := settable_ramp_iff seq.globals.interpolationInterval notBefore startAccepted
    finishAccepted
  refine ⟨?_, settable, ?_⟩
  · obtain ⟨later, whole⟩ := flattenAndInterpolate_split split
    rw [consecutive.insertedBefore] at whole
    exact ⟨later, whole⟩
  · rintro thread rfl
    rw [← settable]
    apply dispatched_iff_settable
    intro timedAction member
    obtain ⟨_, tick, _, _, rfl⟩ := mem_ramp_iff.mp member
    exact ⟨_, rfl⟩

def valveMapping (slope : F64) : Mapping where
  mapping := (∅ : Std.TreeMap String (List MappingEntry)).insert "ecu" [
    { name := "valve", fieldType := .parameter, rawField := "valve_position", value := { slope } }]

def valveRun : List NodeManager.Operation := [
  .message 0 ⟨5, 0⟩ (.nodeInfoAnnouncement ⟨0, 1, 0, 0, "ecu"⟩),
  .message 0 ⟨5, 0⟩ (.parameterRegistration ⟨0, .uint8, "valve_position"⟩)]

def valveManager (slope : F64) : NodeManager where
  mapping := valveMapping slope
  canNodes := AList.insert 5 {
    registrationInfo := ⟨0, 1, 0, 0, "ecu"⟩
    parameterFields := AList.insert 0 ⟨.uint8, "valve_position"⟩ ∅ } ∅

theorem valveRun_reaches (slope : F64) : Transition.Run (NodeManager.Performs LiquidCan.littleEndian)
    (.new (valveMapping slope)) valveRun (valveManager slope) :=
  (NodeManager.run_iff_replay LiquidCan.littleEndian).mpr rfl

theorem valve_consecutive : Consecutive (openingRamp []).globals "valve"
    [⟨.finite 0, .setParam ⟨"valve", .finite 0⟩⟩] ⟨.finite 2, .setParam ⟨"valve", .finite 1⟩⟩ []
    ⟨.finite 0, .finite 0⟩ ⟨.finite 2, .finite 1⟩ where
  split := ⟨[], ⟨.finite 0, .setParam ⟨"valve", .finite 0⟩⟩, rfl, by decide +kernel⟩
  second := by decide +kernel
  between := by simp

theorem quarterSlope_represents : (valveManager (.finite (1 / 4))).RepresentsRamp ⟨5 * 10 ^ 8⟩ "valve"
    ⟨.finite 0, .finite 0⟩ ⟨.finite 2, .finite 1⟩ := by
  have settings : ramp ⟨5 * 10 ^ 8⟩ "valve" ⟨.finite 0, .finite 0⟩ ⟨.finite 2, .finite 1⟩ =
      [1 / 4, 1 / 2, 3 / 4].map fun value => ⟨.finite (2 * value), .setParam ⟨"valve", .finite value⟩⟩ := by
    decide +kernel
  have valid : (openingRamp []).validate = .ok () := by decide
  refine (ramp_settable_iff valid rfl valve_consecutive (by decide +kernel) (by decide +kernel)).2.1.mp ?_
  intro timedAction member
  change timedAction ∈ ramp ⟨5 * 10 ^ 8⟩ "valve" _ _ at member
  rw [settings] at member
  obtain ⟨value, chosen, rfl⟩ := List.mem_map.mp member
  have accepted : ∀ value ∈ [(1 / 4 : ℚ), 1 / 2, 3 / 4],
      (valveManager (.finite (1 / 4))).AcceptsSetting "valve" (.finite value) := by decide +kernel
  exact ⟨_, rfl, accepted value chosen⟩

theorem unitSlope_not_settable :
    ¬ ∀ (seq : Sequence) (mapping : Mapping) (operations : List NodeManager.Operation)
        (manager : NodeManager), seq.validate = .ok () → mapping.validate = .ok () →
      Transition.Run (NodeManager.Performs LiquidCan.littleEndian) (.new mapping) operations manager →
      ∀ past second rest param between start finish, seq.flattenedActions = past ++ second :: rest →
        Consecutive seq.globals param past second between start finish →
        manager.AcceptsSetting param start.value → manager.AcceptsSetting param finish.value →
        Settable manager (ramp seq.globals.interpolationInterval param start finish) := by
  intro claim
  have settable := claim (openingRamp []) (valveMapping (.finite 1)) valveRun (valveManager (.finite 1))
    (by decide) (by decide) (valveRun_reaches _) _ _ [] "valve" _ _ _ rfl
    valve_consecutive (by decide +kernel) (by decide +kernel)
  have inserted : ⟨.finite (1 / 2), .setParam ⟨"valve", .finite (1 / 4)⟩⟩ ∈
      ramp ⟨5 * 10 ^ 8⟩ "valve" ⟨.finite 0, .finite 0⟩ ⟨.finite 2, .finite 1⟩ := by decide +kernel
  obtain ⟨paramState, action, accepted⟩ := settable _ inserted
  obtain rfl := Action.setParam.inj action
  have refused : ¬ (valveManager (.finite 1)).AcceptsSetting "valve" (.finite (1 / 4)) := by decide +kernel
  exact refused accepted

end Sequence

end FerroFlow
