import FerroFlow.MachineBuilder

/-! The settings of a ramp in binary64: their times stay between the ends, and they are no more than
the interval fits. -/

namespace FerroFlow

namespace Machine

theorem asSecsF64_close {memory : ℕ} {interval : Duration} {secs : ℚ} (positive : 0 < interval.nanos)
    (read : (binary64 memory).asSecsF64 interval = .finite secs) :
    |secs - interval.secs| ≤ interval.secs / 2 ^ 51 := by
  unfold asSecsF64 at read
  obtain ⟨whole, part, wholeRounds, partRounds, added⟩ := ExactFloat.add_toBinary64_eq_finite read
  rw [ExactFloat.finite_div_finite _ (by norm_num)] at partRounds
  have split : interval.secs =
      (interval.nanos / 10 ^ 9 : ℕ) + (interval.nanos % 10 ^ 9 : ℕ) / 10 ^ 9 := by
    have parts : (interval.nanos : ℚ) =
        10 ^ 9 * (interval.nanos / 10 ^ 9 : ℕ) + (interval.nanos % 10 ^ 9 : ℕ) := by
      exact_mod_cast (Nat.div_add_mod interval.nanos (10 ^ 9)).symm
    unfold Duration.secs
    rw [parts]
    ring
  have wholeNormal (count : ℕ) : (count : ℚ) = 0 ∨ 2 ^ (-1022 : ℤ) ≤ (count : ℚ) := by
    rcases Nat.eq_zero_or_pos count with rfl | some
    · exact Or.inl (by simp)
    · have one : (1 : ℚ) ≤ count := by exact_mod_cast some
      exact Or.inr (ExactFloat.normal_of_half_nano (by linarith)).le
  have partNormal (count : ℕ) : (count : ℚ) / 10 ^ 9 = 0 ∨ 2 ^ (-1022 : ℤ) ≤ (count : ℚ) / 10 ^ 9 := by
    rcases Nat.eq_zero_or_pos count with rfl | some
    · exact Or.inl (by simp)
    · have one : (1 : ℚ) ≤ count := by exact_mod_cast some
      exact Or.inr (ExactFloat.normal_of_half_nano (by linarith)).le
  have wholeClose := abs_le.mp (ExactFloat.toBinary64_close (wholeNormal _) wholeRounds)
  have partClose := abs_le.mp (ExactFloat.toBinary64_close (partNormal _) partRounds)
  have nonnegWhole : (0 : ℚ) ≤ (interval.nanos / 10 ^ 9 : ℕ) := Nat.cast_nonneg _
  have nonnegPart : (0 : ℚ) ≤ (interval.nanos % 10 ^ 9 : ℕ) := Nat.cast_nonneg _
  have nano : 1 / 10 ^ 9 ≤ interval.secs := by
    have one : (1 : ℚ) ≤ interval.nanos := by exact_mod_cast positive
    unfold Duration.secs
    linarith
  rw [split] at nano ⊢
  have sumNormal : whole + part = 0 ∨ 2 ^ (-1022 : ℤ) ≤ whole + part :=
    Or.inr (ExactFloat.normal_of_half_nano (by linarith)).le
  have sumClose := abs_le.mp (ExactFloat.toBinary64_close sumNormal added)
  rw [abs_le]
  constructor <;> linarith

theorem asSecsF64_zero (memory : ℕ) : (binary64 memory).asSecsF64 Duration.zero = .finite 0 := by
  change (binary64 0).asSecsF64 Duration.zero = .finite 0
  decide +kernel

theorem asUsize_floor_eq {number : F64} {count : ℕ} (counted : asUsize number.floor = count) (some : 0 < count)
    (small : (count : ℤ) < usizeMax) : ∃ quotient : ℚ, number = .finite quotient ∧ count ≤ quotient ∧
      quotient < count + 1 := by
  cases number with
  | nan => exact absurd counted (by intro none; subst none; cases some)
  | negInf => exact absurd counted (by intro none; subst none; cases some)
  | posInf =>
      have full : asUsize (ExactFloat.floor .posInf) = usizeMax.toNat := by decide
      rw [full] at counted
      have large : (0 : ℤ) ≤ usizeMax := by decide
      omega
  | finite quotient =>
      rw [asUsize_floor] at counted
      have floor : ⌊quotient⌋ = count := by omega
      obtain ⟨low, high⟩ := Int.floor_eq_iff.mp floor
      exact ⟨quotient, rfl, by exact_mod_cast low, by exact_mod_cast high⟩

structure Counted (memory : ℕ) (interval : Duration) (start finish : TimedValue)
    (startTime finishTime step quotient : ℚ) : Prop where
  startAt : start.timestamp = .finite startTime
  finishAt : finish.timestamp = .finite finishTime
  read : (binary64 memory).asSecsF64 interval = .finite step
  stepClose : |step - interval.secs| ≤ interval.secs / 2 ^ 51
  positive : 0 < step
  nano : 1 / (2 * 10 ^ 9) ≤ step
  later : startTime < finishTime
  low : (binary64 memory).tickCount interval start finish ≤ quotient
  high : quotient < (binary64 memory).tickCount interval start finish + 1
  close : |quotient * step - (finishTime - startTime)| ≤ (finishTime - startTime) / 2 ^ 51

theorem exists_counted {memory : ℕ} (small : memory ≤ 2 ^ 48) {interval : Duration} {start finish : TimedValue}
    (some : 2 ≤ (binary64 memory).tickCount interval start finish)
    (fits : (binary64 memory).tickCount interval start finish + 1 ≤ memory) :
    ∃ startTime finishTime step quotient,
      Counted memory interval start finish startTime finishTime step quotient := by
  have below : ((binary64 memory).tickCount interval start finish : ℤ) < usizeMax := by
    have bound : (281474976710656 : ℤ) < usizeMax := by decide
    omega
  have positiveCount : 0 < (binary64 memory).tickCount interval start finish := by omega
  obtain ⟨quotient, divided, low, high⟩ := asUsize_floor_eq rfl positiveCount below
  have two : (2 : ℚ) ≤ quotient := le_trans (by exact_mod_cast some) low
  obtain ⟨timespan, step, spanned, read, nonzero, rounds⟩ :=
    ExactFloat.div_toBinary64_eq_finite (by linarith) divided
  obtain ⟨difference, subtracted⟩ := ExactFloat.finite_of_toBinary64 spanned
  obtain ⟨finishTime, startTime, finishAt, startAt⟩ := ExactFloat.sub_eq_finite subtracted
  have spanRounds : (ExactFloat.finite (finishTime - startTime)).toBinary64 = .finite timespan := by
    rw [← ExactFloat.finite_sub_finite, ← finishAt, ← startAt]
    exact spanned
  have someInterval : 0 < interval.nanos := by
    by_contra none
    have zero : interval = Duration.zero := congrArg Duration.mk (Nat.eq_zero_of_not_pos none)
    rw [zero, asSecsF64_zero] at read
    exact nonzero (ExactFloat.finite.inj read).symm
  have stepClose := asSecsF64_close someInterval read
  have nano : 1 / 10 ^ 9 ≤ interval.secs := by
    have one : (1 : ℚ) ≤ interval.nanos := by exact_mod_cast someInterval
    unfold Duration.secs
    linarith
  have stepLarge : 1 / (2 * 10 ^ 9) ≤ step := by
    have bounds := abs_le.mp stepClose
    linarith
  have positive : 0 < step := by linarith
  have quotientNormal := ExactFloat.normal_of_toBinary64 rounds (ExactFloat.normal_of_half_nano (by linarith))
  have quotientClose := abs_le.mp (ExactFloat.toBinary64_close (Or.inr quotientNormal) rounds)
  have timespanEq : timespan / step * step = timespan := div_mul_cancel₀ _ positive.ne'
  have upper : quotient * step - timespan ≤ timespan / 2 ^ 53 := by nlinarith
  have lower : -(timespan / 2 ^ 53) ≤ quotient * step - timespan := by nlinarith
  have product : 2 * step ≤ quotient * step := mul_le_mul_of_nonneg_right two positive.le
  have timespanLarge : 1 / (2 * 10 ^ 9) ≤ timespan := by linarith
  have spanNormal := ExactFloat.normal_of_toBinary64 spanRounds (ExactFloat.normal_of_half_nano timespanLarge)
  have spanClose := abs_le.mp (ExactFloat.toBinary64_close (Or.inr spanNormal) spanRounds)
  have later : startTime < finishTime := by
    have positivePower : (0 : ℚ) < 2 ^ (-1022 : ℤ) := zpow_pos (by norm_num) _
    linarith
  refine ⟨startTime, finishTime, step, quotient, startAt, finishAt, read, stepClose, positive, stepLarge, later,
    low, high, ?_⟩
  rw [abs_le]
  constructor <;> linarith

section Counted

variable {memory : ℕ} {interval : Duration} {start finish : TimedValue}
  {startTime finishTime step quotient : ℚ}

/-- The ticks are so few that one interval outweighs all rounding. -/
theorem Counted.span_le (counted : Counted memory interval start finish startTime finishTime step quotient)
    (small : memory ≤ 2 ^ 48) (fits : (binary64 memory).tickCount interval start finish + 1 ≤ memory) :
    finishTime - startTime ≤ 2 ^ 49 * step := by
  have count : (((binary64 memory).tickCount interval start finish + 1 : ℕ) : ℚ) ≤ 2 ^ 48 := by
    exact_mod_cast fits.trans small
  push_cast at count
  have few : quotient ≤ 2 ^ 48 := counted.high.le.trans count
  have product : quotient * step ≤ 2 ^ 48 * step := mul_le_mul_of_nonneg_right few counted.positive.le
  have later := counted.later
  have close := abs_le.mp counted.close
  linarith

theorem Counted.tick_le (counted : Counted memory interval start finish startTime finishTime step quotient)
    (small : memory ≤ 2 ^ 48) (fits : (binary64 memory).tickCount interval start finish + 1 ≤ memory)
    {tick : ℕ} (inside : tick < (binary64 memory).tickCount interval start finish) :
    tick * step ≤ (finishTime - startTime) * (1 - 1 / 2 ^ 50) := by
  have next : ((tick + 1 : ℕ) : ℚ) ≤ quotient := le_trans (by exact_mod_cast inside) counted.low
  push_cast at next
  have product : (tick + 1) * step ≤ quotient * step := mul_le_mul_of_nonneg_right next counted.positive.le
  have span := counted.span_le small fits
  have close := abs_le.mp counted.close
  have later := counted.later
  linarith

/-- Between two settings no more are inserted than the interval fits. -/
theorem Counted.length_le (counted : Counted memory interval start finish startTime finishTime step quotient)
    (small : memory ≤ 2 ^ 48) (fits : (binary64 memory).tickCount interval start finish + 1 ≤ memory)
    (some : 2 ≤ (binary64 memory).tickCount interval start finish) :
    ((binary64 memory).tickCount interval start finish - 1 : ℕ) * interval.secs ≤ finishTime - startTime := by
  generalize isCount : (binary64 memory).tickCount interval start finish - 1 = count
  have bound : count * step ≤ (finishTime - startTime) * (1 - 1 / 2 ^ 50) :=
    counted.tick_le small fits (by omega)
  have close := abs_le.mp counted.stepClose
  have longer : interval.secs * (1 - 1 / 2 ^ 51) ≤ step := by linarith
  have scaled : count * (interval.secs * (1 - 1 / 2 ^ 51)) ≤ count * step :=
    mul_le_mul_of_nonneg_left longer (Nat.cast_nonneg count)
  have later := counted.later
  nlinarith

theorem Counted.timestamp (counted : Counted memory interval start finish startTime finishTime step quotient)
    (small : memory ≤ 2 ^ 48) (fits : (binary64 memory).tickCount interval start finish + 1 ≤ memory)
    (nonneg : 0 ≤ startTime) (exact : ExactFloat.roundBinary64 finishTime = finishTime)
    (bound : finishTime ≤ 2 ^ 64) {tick : ℕ} (positive : 0 < tick)
    (inside : tick < (binary64 memory).tickCount interval start finish) (timespan : F64) :
    ∃ time, ((binary64 memory).tickValue start finish ((binary64 memory).asSecsF64 interval) timespan tick).timestamp =
      .finite time ∧ 0 ≤ time ∧ time ≤ finishTime := by
  have upTo := counted.tick_le small fits inside
  have one : (1 : ℚ) ≤ tick := by exact_mod_cast positive
  have atLeast : step ≤ tick * step := by nlinarith [counted.positive]
  have later := counted.later
  have stepLarge := counted.nano
  have stepPositive := counted.positive
  have early : tick ≤ 2 ^ 52 := by omega
  have product : (ExactFloat.finite (tick * step)).toBinary64 =
      .finite (ExactFloat.roundBinary64 (tick * step)) :=
    ExactFloat.toBinary64_of_le (by linarith) (show _ ≤ (2 : ℚ) ^ 64 by linarith) (by norm_num)
  have normal := ExactFloat.normal_of_half_nano (stepLarge.trans atLeast)
  have close := abs_le.mp (ExactFloat.roundBinary64_close normal.le)
  have offsetNonneg := ExactFloat.roundBinary64_nonneg (show 0 ≤ tick * step by linarith)
  have offsetBound : ExactFloat.roundBinary64 (tick * step) ≤ finishTime - startTime := by linarith
  have sumNonneg : 0 ≤ startTime + ExactFloat.roundBinary64 (tick * step) := by linarith
  have sumBound : startTime + ExactFloat.roundBinary64 (tick * step) ≤ finishTime := by linarith
  refine ⟨ExactFloat.roundBinary64 (startTime + ExactFloat.roundBinary64 (tick * step)), ?_,
    ExactFloat.roundBinary64_nonneg sumNonneg, ?_⟩
  · change ((start.timestamp + ((ExactFloat.finite (tick : ℚ)).toBinary64 *
      (binary64 memory).asSecsF64 interval).toBinary64).toBinary64) = _
    rw [counted.startAt, counted.read, ExactFloat.toBinary64_natCast early, ExactFloat.finite_mul_finite, product,
      ExactFloat.finite_add_finite]
    exact ExactFloat.toBinary64_of_le sumNonneg (show _ ≤ (2 : ℚ) ^ 64 by linarith) (by norm_num)
  · rcases sumNonneg.eq_or_lt with zero | positiveSum
    · rw [← zero, ExactFloat.roundBinary64_zero]
      linarith
    · exact ExactFloat.roundBinary64_le positiveSum sumBound exact

end Counted

end Machine

end FerroFlow
