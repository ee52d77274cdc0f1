import FerroFlow.SequenceSchedule

/-! The settings of a ramp: when there are any, how many, and at which times. -/

namespace FerroFlow

def tickCount (interval : Duration) (start finish : TimedValue) : ℕ :=
  asUsize ((finish.timestamp - start.timestamp) / interval.asSecsF64).floor

def Ramps (interval : Duration) (start finish : TimedValue) : Prop :=
  start.value.beq finish.value = false ∧
    ¬ (finish.timestamp - start.timestamp) / .finite 2 < interval.asSecsF64

def rampPoint (interval : Duration) (start finish : TimedValue) (tick : ℕ) : TimedValue :=
  tickValue start finish interval.asSecsF64 (finish.timestamp - start.timestamp) tick

def rampAction (interval : Duration) (param : String) (start finish : TimedValue) (tick : ℕ) :
    TimedAction where
  timestamp := (rampPoint interval start finish tick).timestamp
  action := .setParam { param := param, value := (rampPoint interval start finish tick).value }

theorem tail_dropLast_range {α : Type} (entry : ℕ → α) (count : ℕ) :
    ((List.range (count + 1)).map entry).tail.dropLast =
      (List.range (count - 1)).map fun tick => entry (tick + 1) := by
  rw [List.range_succ_eq_map, List.map_cons, List.tail_cons, List.map_map]
  cases count with
  | zero => rfl
  | succ count =>
      rw [List.range_succ, List.map_append, List.map_singleton, List.dropLast_concat]
      rfl

theorem ramp_of_ramps {interval : Duration} {start finish : TimedValue} (param : String)
    (ramps : Ramps interval start finish) : ramp interval param start finish =
      (List.range (tickCount interval start finish - 1)).map fun tick =>
        rampAction interval param start finish (tick + 1) := by
  obtain ⟨differ, fits⟩ := ramps
  unfold ramp interpolateLinear
  simp only [differ, fits, Bool.false_eq_true, ↓reduceIte, tail_dropLast_range, List.map_map]
  rfl

theorem ramp_of_not_ramps {interval : Duration} {start finish : TimedValue} (param : String)
    (none : ¬ Ramps interval start finish) : ramp interval param start finish = [] := by
  unfold ramp interpolateLinear
  by_cases same : start.value.beq finish.value = true
  · simp only [same, ↓reduceIte]
  · have narrow : (finish.timestamp - start.timestamp) / .finite 2 < interval.asSecsF64 := by
      by_contra fits
      exact none ⟨by simpa using same, fits⟩
    simp only [same, narrow, ↓reduceIte, Bool.false_eq_true]

theorem mem_ramp_iff {interval : Duration} {param : String} {start finish : TimedValue}
    {inserted : TimedAction} : inserted ∈ ramp interval param start finish ↔
      Ramps interval start finish ∧ ∃ tick, 0 < tick ∧ tick < tickCount interval start finish ∧
        inserted = rampAction interval param start finish tick := by
  by_cases ramps : Ramps interval start finish
  · rw [ramp_of_ramps param ramps, List.mem_map]
    simp only [List.mem_range, ramps, true_and]
    constructor
    · rintro ⟨tick, bound, rfl⟩
      exact ⟨tick + 1, by omega, by omega, rfl⟩
    · rintro ⟨tick, positive, bound, rfl⟩
      obtain ⟨earlier, rfl⟩ := Nat.exists_eq_add_of_lt positive
      refine ⟨earlier, by omega, ?_⟩
      rw [Nat.zero_add]
  · simp [ramp_of_not_ramps param ramps, ramps]

section Finite

/-! Both settings are at finite times. -/

variable {interval : Duration} {start finish : TimedValue} {startTime finishTime : ℚ}

theorem ramps_iff (startAt : start.timestamp = .finite startTime)
    (finishAt : finish.timestamp = .finite finishTime) : Ramps interval start finish ↔
      start.value.beq finish.value = false ∧ 2 * interval.secs ≤ finishTime - startTime := by
  unfold Ramps
  rw [startAt, finishAt, Duration.asSecsF64_eq, ExactFloat.finite_sub_finite,
    ExactFloat.finite_div_finite _ (by norm_num), ExactFloat.finite_lt_finite]
  constructor
  · rintro ⟨differ, fits⟩
    exact ⟨differ, by linarith⟩
  · rintro ⟨differ, fits⟩
    exact ⟨differ, by linarith⟩

theorem rampPoint_timestamp (interval : Duration) (finish : TimedValue)
    (startAt : start.timestamp = .finite startTime) (tick : ℕ) :
    (rampPoint interval start finish tick).timestamp = .finite (startTime + tick * interval.secs) := by
  simp only [rampPoint, tickValue, startAt, Duration.asSecsF64_eq, ExactFloat.finite_mul_finite,
    ExactFloat.finite_add_finite]

theorem tick_bound (startAt : start.timestamp = .finite startTime)
    (finishAt : finish.timestamp = .finite finishTime) (ordered : startTime ≤ finishTime) {tick : ℕ}
    (inside : tick < tickCount interval start finish) :
    (tick + 1) * interval.secs ≤ finishTime - startTime := by
  have nonneg := interval.secs_nonneg
  rcases nonneg.eq_or_lt with zero | positive
  · rw [← zero]
    linarith
  · unfold tickCount at inside
    rw [startAt, finishAt, Duration.asSecsF64_eq, ExactFloat.finite_sub_finite,
      ExactFloat.finite_div_finite _ positive.ne'] at inside
    have quotientNonneg : 0 ≤ (finishTime - startTime) / interval.secs :=
      div_nonneg (by linarith) nonneg
    have count := asUsize_floor_le quotientNonneg
    have next : ((tick + 1 : ℕ) : ℚ) ≤ (finishTime - startTime) / interval.secs :=
      (Nat.cast_le.mpr inside).trans count
    rw [le_div_iff₀ positive] at next
    simpa using next

theorem ordered_of_ramps (startAt : start.timestamp = .finite startTime)
    (finishAt : finish.timestamp = .finite finishTime) (ramps : Ramps interval start finish) :
    startTime ≤ finishTime := by
  have fits := ((ramps_iff startAt finishAt).mp ramps).2
  have nonneg := interval.secs_nonneg
  linarith

theorem mem_ramp_time {param : String} {inserted : TimedAction}
    (startAt : start.timestamp = .finite startTime) (finishAt : finish.timestamp = .finite finishTime)
    (member : inserted ∈ ramp interval param start finish) :
    ∃ time, inserted.timestamp = .finite time ∧ startTime + interval.secs ≤ time ∧
      time ≤ finishTime := by
  obtain ⟨ramps, tick, positive, inside, rfl⟩ := mem_ramp_iff.mp member
  have ordered := ordered_of_ramps startAt finishAt ramps
  have bound := tick_bound startAt finishAt ordered inside
  have nonneg := interval.secs_nonneg
  have first : (1 : ℚ) ≤ tick := by exact_mod_cast positive
  refine ⟨startTime + tick * interval.secs, rampPoint_timestamp interval finish startAt tick, ?_, ?_⟩
  · nlinarith
  · linarith

theorem exists_first_mem_ramp (param : String) (startAt : start.timestamp = .finite startTime)
    (finishAt : finish.timestamp = .finite finishTime) (positive : 0 < interval.secs)
    (ramps : Ramps interval start finish) : ∃ inserted ∈ ramp interval param start finish,
      inserted.timestamp = .finite (startTime + interval.secs) := by
  have fits := ((ramps_iff startAt finishAt).mp ramps).2
  have large : 2 ≤ (finishTime - startTime) / interval.secs := by
    rw [le_div_iff₀ positive]
    exact fits
  have count : 2 ≤ tickCount interval start finish := by
    unfold tickCount
    rw [startAt, finishAt, Duration.asSecsF64_eq, ExactFloat.finite_sub_finite,
      ExactFloat.finite_div_finite _ positive.ne']
    exact two_le_asUsize_floor large
  refine ⟨rampAction interval param start finish 1, mem_ramp_iff.mpr ⟨ramps, 1, by omega, by omega, rfl⟩, ?_⟩
  have time := rampPoint_timestamp interval finish startAt 1
  simpa [rampAction] using time

theorem ramp_pairwise (param : String) (startAt : start.timestamp = .finite startTime) :
    (ramp interval param start finish).Pairwise fun left right => left.timestamp ≤ right.timestamp := by
  by_cases ramps : Ramps interval start finish
  · rw [ramp_of_ramps param ramps, List.pairwise_map]
    refine List.pairwise_lt_range.imp ?_
    intro left right less
    simp only [rampAction, rampPoint_timestamp interval finish startAt, ExactFloat.finite_le_finite]
    have nonneg := interval.secs_nonneg
    have next : left + 1 ≤ right + 1 := by omega
    have ordered : ((left + 1 : ℕ) : ℚ) ≤ ((right + 1 : ℕ) : ℚ) := Nat.cast_le.mpr next
    have scaled := mul_le_mul_of_nonneg_right ordered nonneg
    linarith
  · rw [ramp_of_not_ramps param ramps]
    exact List.Pairwise.nil

end Finite

end FerroFlow
