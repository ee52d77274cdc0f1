import FerroFlow.RampValues

/-! The grid of a ramp: one setting at each whole number of intervals after the first of two settings.
The builder drops the last tick, which is the second setting only if the interval divides the time
between the two. -/

namespace FerroFlow

def gridAction (param : String) (startTime finishTime startValue finishValue interval : ℚ) (tick : ℕ) :
    TimedAction where
  timestamp := .finite (startTime + tick * interval)
  action := .setParam {
    param := param
    value := .finite (startValue + tick * interval / (finishTime - startTime) * (finishValue - startValue)) }

/-- One setting for every tick strictly between the two times, in their order. -/
def FillsGrid (param : String) (startTime finishTime startValue finishValue interval : ℚ)
    (inserted : List TimedAction) : Prop :=
  ∃ ticks : List ℕ, ticks.Pairwise (fun earlier later => earlier < later) ∧
    (∀ tick, tick ∈ ticks ↔ 1 ≤ tick ∧ startTime + tick * interval < finishTime) ∧
    inserted = ticks.map (gridAction param startTime finishTime startValue finishValue interval)

section Grid

variable {param : String} {startTime finishTime startValue finishValue interval : ℚ}

def gridCount (startTime finishTime interval : ℚ) : ℕ :=
  (⌈(finishTime - startTime) / interval⌉ - 1).toNat

theorem on_grid_iff (positive : 0 < interval) (tick : ℕ) :
    1 ≤ tick ∧ startTime + tick * interval < finishTime ↔
      1 ≤ tick ∧ tick ≤ gridCount startTime finishTime interval := by
  have scaled : startTime + tick * interval < finishTime ↔
      ((tick : ℤ) : ℚ) < (finishTime - startTime) / interval := by
    rw [lt_div_iff₀ positive, Int.cast_natCast]
    constructor <;> intro before <;> linarith
  rw [scaled, ← Int.lt_ceil, gridCount]
  omega

theorem ticks_length {ticks : List ℕ} {count : ℕ}
    (increasing : ticks.Pairwise fun earlier later => earlier < later)
    (members : ∀ tick, tick ∈ ticks ↔ 1 ≤ tick ∧ tick ≤ count) : ticks.length = count := by
  have unique : ticks.Nodup := increasing.imp fun less => less.ne
  have same : ticks.Perm ((List.range count).map fun tick => tick + 1) := by
    rw [List.perm_ext_iff_of_nodup unique ((List.nodup_range).map (fun left right => by simp))]
    intro tick
    rw [members, List.mem_map]
    constructor
    · rintro ⟨first, last⟩
      exact ⟨tick - 1, List.mem_range.mpr (by omega), by omega⟩
    · rintro ⟨before, inRange, next⟩
      have bound := List.mem_range.mp inRange
      omega
  rw [same.length_eq, List.length_map, List.length_range]

theorem fillsGrid_iff (positive : 0 < interval) (count : ℕ) :
    FillsGrid param startTime finishTime startValue finishValue interval
        ((List.range count).map fun tick =>
          gridAction param startTime finishTime startValue finishValue interval (tick + 1)) ↔
      count = gridCount startTime finishTime interval := by
  constructor
  · rintro ⟨ticks, increasing, members, same⟩
    have length := ticks_length increasing fun tick => (members tick).trans (on_grid_iff positive tick)
    have lengths := congrArg List.length same
    simp only [List.length_map, List.length_range] at lengths
    omega
  · intro whole
    refine ⟨(List.range count).map fun tick => tick + 1, ?_, ?_, ?_⟩
    · rw [List.pairwise_map]
      exact List.pairwise_lt_range.imp fun less => Nat.succ_lt_succ less
    · intro tick
      rw [on_grid_iff positive, ← whole, List.mem_map]
      constructor
      · rintro ⟨before, inRange, next⟩
        have bound := List.mem_range.mp inRange
        omega
      · rintro ⟨first, last⟩
        exact ⟨tick - 1, List.mem_range.mpr (by omega), by omega⟩
    · rw [List.map_map]
      rfl

end Grid

section Ramp

variable {interval : Duration} {param : String} {start finish : TimedValue}
  {startTime finishTime startValue finishValue : ℚ}

theorem ramp_eq_grid (startAt : start.timestamp = .finite startTime)
    (finishAt : finish.timestamp = .finite finishTime) (startsWith : start.value = .finite startValue)
    (finishesWith : finish.value = .finite finishValue) (ramps : Ramps interval start finish) :
    ramp interval param start finish = (List.range (tickCount interval start finish - 1)).map fun tick =>
      gridAction param startTime finishTime startValue finishValue interval.secs (tick + 1) := by
  rw [ramp_of_ramps param ramps]
  apply List.map_congr_left
  intro tick member
  have bound := List.mem_range.mp member
  have notBefore : start.timestamp ≠ .negInf := by
    rw [startAt]
    intro impossible
    cases impossible
  have value := rampPoint_value notBefore ramps (show tick + 1 < _ by omega) startsWith finishesWith
  have time := rampPoint_timestamp interval finish startAt (tick + 1)
  simp only [rampAction, gridAction, time, value, rampShare, startAt, finishAt]

theorem tickCount_eq_iff (startAt : start.timestamp = .finite startTime)
    (finishAt : finish.timestamp = .finite finishTime) (positive : 0 < interval.secs)
    (fits : 2 * interval.secs ≤ finishTime - startTime) :
    tickCount interval start finish - 1 = gridCount startTime finishTime interval.secs ↔
      ∃ count : ℕ, count < 2 ^ 64 ∧ finishTime - startTime = count * interval.secs := by
  let quotient := (finishTime - startTime) / interval.secs
  have ticks : tickCount interval start finish = (max 0 (min usizeMax ⌊quotient⌋)).toNat := by
    unfold tickCount
    rw [startAt, finishAt, Duration.asSecsF64_eq, ExactFloat.finite_sub_finite,
      ExactFloat.finite_div_finite _ positive.ne', asUsize_floor]
  have large : 2 ≤ ⌊quotient⌋ := by
    rw [Int.le_floor, le_div_iff₀ positive]
    exact_mod_cast fits
  have rounded : ⌊quotient⌋ ≤ ⌈quotient⌉ := Int.floor_le_ceil quotient
  have highest : usizeMax = 2 ^ 64 - 1 := rfl
  have whole (count : ℕ) : finishTime - startTime = count * interval.secs ↔ quotient = count :=
    (div_eq_iff positive.ne').symm
  simp only [whole]
  rw [ticks, gridCount]
  change _ - 1 = (⌈quotient⌉ - 1).toNat ↔ _
  constructor
  · intro same
    have exact : ⌊quotient⌋ = ⌈quotient⌉ ∧ ⌊quotient⌋ ≤ usizeMax := by omega
    refine ⟨⌊quotient⌋.toNat, by omega, ?_⟩
    have lower := Int.floor_le quotient
    have upper := Int.le_ceil quotient
    rw [← exact.1] at upper
    have natural : ((⌊quotient⌋.toNat : ℕ) : ℚ) = (⌊quotient⌋ : ℚ) := by
      exact_mod_cast Int.toNat_of_nonneg (by omega : 0 ≤ ⌊quotient⌋)
    rw [natural]
    exact le_antisymm upper lower
  · rintro ⟨count, bound, same⟩
    rw [same, Int.floor_natCast, Int.ceil_natCast]
    omega

theorem insertedBefore_fills_iff {globals : Globals} {past between : List TimedAction}
    {second : TimedAction} (consecutive : Consecutive globals param past second between start finish)
    (startAt : start.timestamp = .finite startTime) (finishAt : finish.timestamp = .finite finishTime)
    (startsWith : start.value = .finite startValue) (finishesWith : finish.value = .finite finishValue)
    (differ : startValue ≠ finishValue) (positive : 0 < globals.interpolationInterval.secs)
    (fits : globals.interpolationInterval.secs ≤ (finishTime - startTime) / 2) :
    FillsGrid param startTime finishTime startValue finishValue globals.interpolationInterval.secs
        (insertedBefore globals past second) ↔
      ∃ count : ℕ, count < 2 ^ 64 ∧
        finishTime - startTime = count * globals.interpolationInterval.secs := by
  have wide : 2 * globals.interpolationInterval.secs ≤ finishTime - startTime := by linarith
  have apart : start.value.beq finish.value = false := by
    rw [startsWith, finishesWith]
    simp [ExactFloat.beq, differ]
  have ramps : Ramps globals.interpolationInterval start finish :=
    (ramps_iff startAt finishAt).mpr ⟨apart, wide⟩
  rw [consecutive.insertedBefore, ramp_eq_grid startAt finishAt startsWith finishesWith ramps,
    fillsGrid_iff positive, tickCount_eq_iff startAt finishAt positive wide]

/-- What the builder inserts between two settings is the grid between them exactly if the interval
divides the time from one to the other; otherwise the last point of the grid is missing. -/
theorem inserted_fills_grid_iff {seq : Sequence} {past rest between : List TimedAction}
    {second : TimedAction} (split : seq.flattenedActions = past ++ second :: rest)
    (consecutive : Consecutive seq.globals param past second between start finish)
    (startAt : start.timestamp = .finite startTime) (finishAt : finish.timestamp = .finite finishTime)
    (startsWith : start.value = .finite startValue) (finishesWith : finish.value = .finite finishValue)
    (differ : startValue ≠ finishValue) (positive : 0 < seq.globals.interpolationInterval.secs)
    (fits : seq.globals.interpolationInterval.secs ≤ (finishTime - startTime) / 2) :
    (∃ later, flattenAndInterpolate seq =
      built seq.globals past ++ insertedBefore seq.globals past second ++ shifted seq.globals second :: later) ∧
    (FillsGrid param startTime finishTime startValue finishValue seq.globals.interpolationInterval.secs
        (insertedBefore seq.globals past second) ↔
      ∃ count : ℕ, count < 2 ^ 64 ∧
        finishTime - startTime = count * seq.globals.interpolationInterval.secs) := by
  constructor
  · exact flattenAndInterpolate_split split
  · exact insertedBefore_fills_iff consecutive startAt finishAt startsWith finishesWith differ positive fits

end Ramp

namespace Sequence

def tenSecondRamp (seconds : ℕ) : Sequence where
  name := "ramp"
  globals := {
    startTime := .finite 0
    endTime := .finite 10
    interpolationInterval := ⟨seconds * 10 ^ 9⟩
    interpolations := AList.insert "valve" .linear ∅ }
  steps := [{
      name := "ramp"
      timestamp := .finite 0
      actions := [
        ⟨.finite 0, .setParam ⟨"valve", .finite 0⟩⟩,
        ⟨.finite 10, .setParam ⟨"valve", .finite 100⟩⟩] }]

theorem tenSecondRamp_linear (seconds : ℕ) :
    (tenSecondRamp seconds).globals.interpolations.lookup "valve" = some .linear :=
  AList.lookup_insert _

theorem tenSecondRamp_consecutive (seconds : ℕ) : Consecutive (tenSecondRamp seconds).globals "valve"
    [⟨.finite 0, .setParam ⟨"valve", .finite 0⟩⟩] ⟨.finite 10, .setParam ⟨"valve", .finite 100⟩⟩ []
    ⟨.finite 0, .finite 0⟩ ⟨.finite 10, .finite 100⟩ where
  split := by
    refine ⟨[], ⟨.finite 0, .setParam ⟨"valve", .finite 0⟩⟩, rfl, ?_⟩
    simp only [settingOf, tenSecondRamp_linear, and_self, ↓reduceIte]
    simp [tenSecondRamp]
  second := by
    simp only [settingOf, tenSecondRamp_linear, and_self, ↓reduceIte]
    simp [tenSecondRamp]
  between := by simp

theorem inserted_fills_grid_twoSeconds :
    FillsGrid "valve" 0 10 0 100 2 (insertedBefore (tenSecondRamp 2).globals
      [⟨.finite 0, .setParam ⟨"valve", .finite 0⟩⟩] ⟨.finite 10, .setParam ⟨"valve", .finite 100⟩⟩) := by
  have secs : (tenSecondRamp 2).globals.interpolationInterval.secs = 2 := by decide +kernel
  obtain ⟨_, filled⟩ := inserted_fills_grid_iff rfl (tenSecondRamp_consecutive 2)
    rfl rfl rfl rfl (by norm_num) (by rw [secs]; norm_num) (by rw [secs]; norm_num)
  rw [secs] at filled
  exact filled.mpr ⟨5, by norm_num, by norm_num⟩

/-- Every four seconds there would be settings at four and at eight, but the one at eight is dropped
in place of the second setting. -/
theorem last_grid_point_dropped : (tenSecondRamp 4).validate = .ok () ∧
    Consecutive (tenSecondRamp 4).globals "valve" [⟨.finite 0, .setParam ⟨"valve", .finite 0⟩⟩]
      ⟨.finite 10, .setParam ⟨"valve", .finite 100⟩⟩ [] ⟨.finite 0, .finite 0⟩ ⟨.finite 10, .finite 100⟩ ∧
    flattenAndInterpolate (tenSecondRamp 4) = [
      ⟨.finite 0, .setParam ⟨"valve", .finite 0⟩⟩,
      ⟨.finite 4, .setParam ⟨"valve", .finite 40⟩⟩,
      ⟨.finite 10, .setParam ⟨"valve", .finite 100⟩⟩] ∧
    ¬ FillsGrid "valve" 0 10 0 100 4 [⟨.finite 4, .setParam ⟨"valve", .finite 40⟩⟩] := by
  have secs : (tenSecondRamp 4).globals.interpolationInterval.secs = 4 := by decide +kernel
  refine ⟨by decide +kernel, tenSecondRamp_consecutive 4, by decide +kernel, ?_⟩
  rintro ⟨ticks, _, members, same⟩
  have length := congrArg List.length same
  have first : 1 ∈ ticks := (members 1).mpr (by norm_num)
  have second : 2 ∈ ticks := (members 2).mpr (by norm_num)
  rw [List.length_map, List.length_singleton] at length
  obtain ⟨tick, rfl⟩ := List.length_eq_one_iff.mp length.symm
  simp only [List.mem_singleton] at first second
  omega

end Sequence

end FerroFlow
