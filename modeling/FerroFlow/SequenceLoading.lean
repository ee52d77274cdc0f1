import FerroFlow.MachineRamp

/-! Sequences from files, and what loading guarantees of the ticks of their ramps. The loader rejects
negative intervals, but not one that is zero or rounds to zero nanoseconds, nor one that is tiny beside
the times of the steps. -/

namespace FerroFlow

/-- A number of a file; a zero has a sign too. -/
structure SignedF64 where
  number : F64
  isSignNegative : Bool
  negative : number < .finite 0 → isSignNegative = true
  positive : .finite 0 < number → isSignNegative = false

def durationFromF64 (secs : SignedF64) : Result Duration :=
  if secs.number.isFinite = false then bail "duration cannot be infinite or NaN"
  else if secs.isSignNegative then bail "duration cannot be negative"
  else Duration.fromSecsF64 secs.number

structure RawGlobals where
  startTime : TimestampSec
  endTime : TimestampSec
  interpolationInterval : SignedF64
  interpolations : Option (HashMap String InterpolationMode)

structure RawSequence where
  name : String
  globals : RawGlobals
  steps : Option (List RawStep)

def Globals.deserialize (raw : RawGlobals) : Result Globals := do
  let interpolationInterval ← durationFromF64 raw.interpolationInterval
  .ok {
    startTime := raw.startTime
    endTime := raw.endTime
    interpolationInterval := interpolationInterval
    interpolations := raw.interpolations.getD ∅ }

def Sequence.deserialize (raw : RawSequence) : Result Sequence := do
  let globals ← Globals.deserialize raw.globals
  let steps ← (raw.steps.getD []).mapM Step.deserialize
  .ok { name := raw.name, globals := globals, steps := steps }

def Sequence.loadFromPath {Config : Type} (build : String → Result Config)
    (fields : Config → Result RawSequence) (path : String) : Result Sequence := do
  let config ← build path
  let sequence ← withContext s!"Failed to deserialize config from {path}"
    (fields config >>= Sequence.deserialize)
  withContext s!"Failed to validate sequence from {path}" sequence.validate
  .ok sequence

section Interval

variable {secs : SignedF64} {interval : Duration}

theorem fromSecsF64_of_durationFromF64 (converted : durationFromF64 secs = .ok interval) :
    Duration.fromSecsF64 secs.number = .ok interval := by
  unfold durationFromF64 at converted
  split at converted
  · cases converted
  · split at converted
    · cases converted
    · exact converted

theorem durationFromF64_positive_iff (converted : durationFromF64 secs = .ok interval) :
    0 < interval.nanos ↔ .finite (1 / (2 * 10 ^ 9)) < secs.number := by
  have rounds := fromSecsF64_of_durationFromF64 converted
  obtain ⟨value, isValue, nonneg, small⟩ :=
    (Duration.inDomain_iff _).mp ((Duration.fromSecsF64_ok_iff _).mp ⟨interval, rounds⟩)
  rw [isValue] at rounds ⊢
  simp only [Duration.fromSecsF64, nonneg, small, and_self, ↓reduceIte] at rounds
  obtain rfl := Except.ok.inj rounds
  rw [ExactFloat.finite_lt_finite, Int.lt_toNat, Nat.cast_zero, ExactFloat.roundEven_pos_iff]
  constructor <;> intro less <;> linarith

end Interval

/-- What is pushed for two consecutive settings of a linear parameter: ticks are counted only for an
interval that is not zero, and there are no more settings between them than the interval fits. -/
structure TicksBounded (machine : Machine) (interval : Duration) (start finish : TimedValue)
    (inserted : List TimedAction) : Prop where
  divides : machine.Ramps interval start finish → machine.asSecsF64 interval ≠ .finite 0
  count : inserted ≠ [] →
    .finite inserted.length ≤ (finish.timestamp - start.timestamp) / .finite interval.secs

namespace Machine

variable {memory : ℕ} {interval : Duration} {start finish : TimedValue} {param : String}

theorem asSecsF64_eq_zero_iff : (binary64 memory).asSecsF64 interval = .finite 0 ↔ interval.nanos = 0 := by
  constructor
  · intro zero
    by_contra some
    have positive : 0 < interval.nanos := Nat.pos_of_ne_zero some
    have close := abs_le.mp (asSecsF64_close positive zero)
    have secs := Duration.secs_pos positive
    linarith
  · intro none
    have zero : interval = Duration.zero := congrArg Duration.mk none
    rw [zero, asSecsF64_zero]

theorem ramp_length_le (small : memory ≤ 2 ^ 48)
    (fits : (binary64 memory).tickCount interval start finish + 1 ≤ memory)
    (some : (binary64 memory).ramp interval param start finish ≠ []) :
    .finite ((binary64 memory).ramp interval param start finish).length ≤
      (finish.timestamp - start.timestamp) / .finite interval.secs := by
  have positive := List.length_pos_iff.mpr some
  rw [length_ramp] at positive ⊢
  split at positive
  · rename_i ramps
    rw [if_pos ramps]
    obtain ⟨startTime, finishTime, step, quotient, counted⟩ := exists_counted small (by omega) fits
    have secs : 0 < interval.secs := by
      have close := abs_le.mp counted.stepClose
      have nonneg := interval.secs_nonneg
      have step := counted.positive
      by_contra none
      have zero : interval.secs = 0 := le_antisymm (not_lt.mp none) nonneg
      rw [zero] at close
      linarith
    rw [counted.startAt, counted.finishAt, ExactFloat.finite_sub_finite, ExactFloat.finite_div_finite _ secs.ne',
      ExactFloat.finite_le_finite, le_div_iff₀ secs]
    exact counted.length_le small fits (by omega)
  · cases positive

theorem ramps_zero_iff (start finish : TimedValue) : (binary64 memory).Ramps Duration.zero start finish ↔
    ¬ (start.value.beq finish.value = true ∨
      ((finish.timestamp - start.timestamp).toBinary64 / .finite 2).toBinary64 < .finite 0) := by
  rw [Ramps, asSecsF64_zero, not_or, Bool.not_eq_true]
  rfl

end Machine

namespace Sequence

variable {Config : Type} {build : String → Result Config} {fields : Config → Result RawSequence}
  {path : String} {config : Config} {raw : RawSequence} {seq : Sequence}

theorem interval_of_deserialize (loaded : deserialize raw = .ok seq) :
    durationFromF64 raw.globals.interpolationInterval = .ok seq.globals.interpolationInterval := by
  simp only [deserialize, Globals.deserialize, Checks.bind_ok_iff, Except.ok.injEq] at loaded
  obtain ⟨_, ⟨interval, converted, rfl⟩, _, _, rfl⟩ := loaded
  exact converted

theorem deserialize_of_load (opened : build path = .ok config) (contents : fields config = .ok raw)
    (loaded : loadFromPath build fields path = .ok seq) : deserialize raw = .ok seq := by
  simp only [loadFromPath, withContext, Checks.bind_ok_iff, Checks.mapError_ok_iff] at loaded
  obtain ⟨_, sameConfig, sequence, ⟨_, sameContents, deserialized⟩, _, _, same⟩ := loaded
  obtain rfl := Except.ok.inj (opened.symm.trans sameConfig)
  obtain rfl := Except.ok.inj (contents.symm.trans sameContents)
  exact deserialized.trans same

/-- The schedule is built within the memory. Every ramp of it counts its ticks with an interval that is
not zero, and inserts at most as many settings as the interval fits between its ends. -/
structure SchedulesBounded (seq : Sequence) (memory : ℕ) : Prop where
  terminates : ∃ schedule, (Machine.binary64 memory).flattenAndInterpolate seq = .ok schedule
  ticks : ∀ past second rest, (Machine.binary64 memory).timeline seq = past ++ second :: rest →
    ∀ param between start finish, Consecutive seq.globals.onTimeline param past second between start finish →
      ∃ inserted later, (Machine.binary64 memory).flattenAndInterpolate seq =
          .ok ((Machine.binary64 memory).scheduled seq.globals [] past ++ inserted ++ second :: later) ∧
        TicksBounded (.binary64 memory) seq.globals.interpolationInterval start finish inserted

theorem schedulesBounded_iff {memory : ℕ} (small : memory ≤ 2 ^ 48) : seq.SchedulesBounded memory ↔
    (∀ past second rest, (Machine.binary64 memory).timeline seq = past ++ second :: rest →
      ∀ param between start finish, Consecutive seq.globals.onTimeline param past second between start finish →
        0 < seq.globals.interpolationInterval.nanos ∨
          ¬ (Machine.binary64 memory).Ramps seq.globals.interpolationInterval start finish) ∧
    (Machine.binary64 memory).entryCount seq.globals [] ((Machine.binary64 memory).timeline seq) ≤ memory := by
  constructor
  · intro bounded
    constructor
    · intro past second rest split param between start finish consecutive
      obtain ⟨inserted, later, _, ticks⟩ := bounded.ticks past second rest split param between start finish consecutive
      by_cases ramps : (Machine.binary64 memory).Ramps seq.globals.interpolationInterval start finish
      · have nonzero := ticks.divides ramps
        rw [Ne, Machine.asSecsF64_eq_zero_iff] at nonzero
        exact Or.inl (Nat.pos_of_ne_zero nonzero)
      · exact Or.inr ramps
    · obtain ⟨schedule, scheduled⟩ := bounded.terminates
      obtain ⟨rfl, fits⟩ := Machine.flattenAndInterpolate_ok_iff.mp scheduled
      rwa [Machine.length_scheduled] at fits
  · rintro ⟨safe, few⟩
    rw [← Machine.length_scheduled] at few
    have whole := Machine.flattenAndInterpolate_ok_iff.mpr ⟨rfl, few⟩
    refine ⟨⟨_, whole⟩, ?_⟩
    intro past second rest split param between start finish consecutive
    have known := Machine.settings_eq_some_iff.mpr ⟨between, consecutive⟩
    have inserted : (Machine.binary64 memory).insertedBefore seq.globals past second =
        (Machine.binary64 memory).ramp seq.globals.interpolationInterval param start finish := by
      simp only [Machine.insertedBefore, known]
    have parts : (Machine.binary64 memory).scheduled seq.globals [] ((Machine.binary64 memory).timeline seq) =
        (Machine.binary64 memory).scheduled seq.globals [] past ++
          (Machine.binary64 memory).ramp seq.globals.interpolationInterval param start finish ++
          second :: (Machine.binary64 memory).scheduled seq.globals (past ++ [second]) rest := by
      rw [split, Machine.scheduled_append, Machine.scheduled, List.nil_append, inserted, List.append_assoc]
    refine ⟨_, _, whole.trans (congrArg Except.ok parts), ?_, ?_⟩
    · intro ramps zero
      rw [Machine.asSecsF64_eq_zero_iff] at zero
      rcases safe past second rest split param between start finish consecutive with positive | level
      · exact positive.ne' zero
      · exact level ramps
    · intro some
      have grouped : (Machine.binary64 memory).timeline seq = (past ++ [second]) ++ rest := by simp [split]
      rw [grouped, Machine.scheduled_append, List.length_append] at few
      have fits := Machine.ticksFit_of_length ((Nat.le_add_right _ _).trans few) param start finish known
      have ramps : (Machine.binary64 memory).Ramps seq.globals.interpolationInterval start finish := by
        by_contra level
        exact some (by simp only [Machine.ramp, level, ↓reduceIte])
      exact Machine.ramp_length_le small (fits ramps) some

/-- The schedule of a loaded sequence is bounded exactly if its interval is above half a nanosecond, or
no parameter moves from one setting to a later one, and if its actions and ticks fit into memory. -/
theorem loaded_schedulesBounded_iff {memory : ℕ} (small : memory ≤ 2 ^ 48) (opened : build path = .ok config)
    (contents : fields config = .ok raw) (loaded : loadFromPath build fields path = .ok seq) :
    seq.SchedulesBounded memory ↔
      (.finite (1 / (2 * 10 ^ 9)) < raw.globals.interpolationInterval.number ∨
        ∀ past second rest, (Machine.binary64 memory).timeline seq = past ++ second :: rest →
          ∀ param between start finish, Consecutive seq.globals.onTimeline param past second between start finish →
            start.value.beq finish.value = true ∨
              ((finish.timestamp - start.timestamp).toBinary64 / .finite 2).toBinary64 < .finite 0) ∧
      (Machine.binary64 memory).entryCount seq.globals [] ((Machine.binary64 memory).timeline seq) ≤ memory := by
  have converted := interval_of_deserialize (deserialize_of_load opened contents loaded)
  rw [← durationFromF64_positive_iff converted, schedulesBounded_iff small]
  by_cases positive : 0 < seq.globals.interpolationInterval.nanos
  · simp only [positive, true_or, implies_true]
  · have zero : seq.globals.interpolationInterval = Duration.zero :=
      congrArg Duration.mk (Nat.eq_zero_of_not_pos positive)
    have none : ¬ 0 < Duration.zero.nanos := Nat.lt_irrefl 0
    simp only [zero, none, false_or, Machine.ramps_zero_iff, not_not]

def openingFile (interpolationInterval : SignedF64) : RawSequence where
  name := "open"
  globals := {
    startTime := .finite 0
    endTime := .finite 1
    interpolationInterval := interpolationInterval
    interpolations := some (AList.insert "valve" .linear ∅) }
  steps := some [{
    name := "open"
    description := none
    timestamp := .finite 0
    setParams := some [⟨.finite 0, "valve", .finite 0⟩, ⟨.finite 1, "valve", .finite 1⟩]
    hold := none }]

def openingSequence (interpolationInterval : Duration) : Sequence where
  name := "open"
  globals := {
    startTime := .finite 0
    endTime := .finite 1
    interpolationInterval := interpolationInterval
    interpolations := AList.insert "valve" .linear ∅ }
  steps := [{
    name := "open"
    timestamp := .finite 0
    actions := [
      ⟨.finite 0, .setParam ⟨"valve", .finite 0⟩⟩,
      ⟨.finite 1, .setParam ⟨"valve", .finite 1⟩⟩] }]

def openingDirectory (interpolationInterval : SignedF64) (path : String) : Result RawSequence :=
  if path = "open.toml" then .ok (openingFile interpolationInterval)
  else bail s!"configuration file \"{path}\" not found"

def unsigned (value : ℚ) (nonneg : 0 ≤ value) : SignedF64 where
  number := .finite value
  isSignNegative := false
  negative := fun less => absurd ((ExactFloat.finite_lt_finite _ _).mp less) (not_lt.mpr nonneg)
  positive := fun _ => rfl

theorem openingFile_loaded {secs : SignedF64} {interval : Duration}
    (converted : durationFromF64 secs = .ok interval) (valid : (openingSequence interval).validate = .ok ()) :
    loadFromPath (openingDirectory secs) .ok "open.toml" = .ok (openingSequence interval) := by
  have none : (ExactFloat.finite 0).toBinary64 = .finite 0 := by decide +kernel
  have one : (ExactFloat.finite 1).toBinary64 = .finite 1 := by decide +kernel
  have deserialized : deserialize (openingFile secs) = .ok (openingSequence interval) := by
    simp only [deserialize, Globals.deserialize, openingFile, converted, Checks.bind_ok_iff]
    refine ⟨(openingSequence interval).globals, ⟨interval, rfl, rfl⟩, (openingSequence interval).steps, ?_, rfl⟩
    simp [openingSequence, Step.deserialize, bind, Except.bind, pure, Except.pure, none, one]
  unfold loadFromPath openingDirectory
  simp only [↓reduceIte, Checks.bind_ok_iff, withContext, Checks.mapError_ok_iff]
  exact ⟨_, rfl, _, ⟨_, rfl, deserialized⟩, (), valid, rfl⟩

theorem loaded_schedulesBounded_quarter :
    loadFromPath (openingDirectory (unsigned (1 / 4) (by norm_num))) .ok "open.toml" =
      .ok (openingSequence ⟨25 * 10 ^ 7⟩) ∧
    (openingSequence ⟨25 * 10 ^ 7⟩).SchedulesBounded 5 := by
  have quarter : durationFromF64 (unsigned (1 / 4) (by norm_num)) = .ok ⟨25 * 10 ^ 7⟩ := by decide +kernel
  have loaded := openingFile_loaded quarter (by decide)
  have opened : openingDirectory (unsigned (1 / 4) (by norm_num)) "open.toml" =
      .ok (openingFile (unsigned (1 / 4) (by norm_num))) := rfl
  have few : (Machine.binary64 5).entryCount (openingSequence ⟨25 * 10 ^ 7⟩).globals []
      ((Machine.binary64 5).timeline (openingSequence ⟨25 * 10 ^ 7⟩)) ≤ 5 := by decide +kernel
  exact ⟨loaded, (loaded_schedulesBounded_iff (by norm_num) opened rfl loaded).mpr
    ⟨Or.inl (by decide +kernel), few⟩⟩

theorem openingSequence_consecutive : Consecutive (openingSequence Duration.zero).globals.onTimeline "valve"
    [⟨.finite 0, .setParam ⟨"valve", .finite 0⟩⟩] ⟨.finite 1, .setParam ⟨"valve", .finite 1⟩⟩ []
    ⟨.finite 0, .finite 0⟩ ⟨.finite 1, .finite 1⟩ where
  split := ⟨[], ⟨.finite 0, .setParam ⟨"valve", .finite 0⟩⟩, rfl, by decide +kernel⟩
  second := by decide +kernel
  between := by simp

theorem zero_interval_loaded :
    (∀ secs : ℚ, ∀ nonneg : 0 ≤ secs, secs ∈ [(0 : ℚ), 1 / 10 ^ 10] →
      loadFromPath (openingDirectory (unsigned secs nonneg)) .ok "open.toml" =
        .ok (openingSequence Duration.zero)) ∧
    ∀ memory ≤ 2 ^ 48, ¬ (openingSequence Duration.zero).SchedulesBounded memory := by
  have valid : (openingSequence Duration.zero).validate = .ok () := by decide
  constructor
  · intro secs nonneg member
    have rounds : ∀ secs ∈ [(0 : ℚ), 1 / 10 ^ 10], Duration.fromSecsF64 (.finite secs) = .ok Duration.zero := by
      decide +kernel
    exact openingFile_loaded (rounds secs member) valid
  · intro memory small bounded
    have timeline : (Machine.binary64 memory).timeline (openingSequence Duration.zero) =
        [⟨.finite 0, .setParam ⟨"valve", .finite 0⟩⟩] ++ ⟨.finite 1, .setParam ⟨"valve", .finite 1⟩⟩ :: [] := by
      change (Machine.binary64 0).timeline (openingSequence Duration.zero) = _
      decide +kernel
    rcases ((schedulesBounded_iff small).mp bounded).1 _ _ _ timeline _ _ _ _ openingSequence_consecutive with
      positive | level
    · exact Nat.lt_irrefl 0 positive
    · exact level (Machine.ramps_zero_iff _ _ |>.mpr (by decide +kernel))

end Sequence

end FerroFlow
