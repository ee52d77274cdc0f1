import FerroFlow.Lib.ExactFloat

/-! Rounding to binary64. The finite results are the rationals with 53 significant bits, or with the
spacing of the subnormal numbers. -/

namespace ExactFloat

def binary64Unit (value : ℚ) : ℚ :=
  2 ^ (max (Int.log 2 |value|) (-1022) - 52)

def roundBinary64 (value : ℚ) : ℚ :=
  roundEven (value / binary64Unit value) * binary64Unit value

/-- The result of an operation whose exact value is given: nearest, halves to even. -/
def toBinary64 : ExactFloat → ExactFloat
  | finite value => if 2 ^ 1024 - 2 ^ 970 ≤ |value| then infinite value else finite (roundBinary64 value)
  | special => special

section Rounding

variable {value bound : ℚ}

theorem binary64Unit_pos (value : ℚ) : 0 < binary64Unit value :=
  zpow_pos (by norm_num) _

@[simp] theorem roundEven_intCast (integer : ℤ) : roundEven (integer : ℚ) = integer := by
  have near := abs_le.mp (roundEven_near integer)
  have below : (roundEven (integer : ℚ) : ℚ) < ((integer + 1 : ℤ) : ℚ) := by
    push_cast
    linarith
  have above : ((integer - 1 : ℤ) : ℚ) < (roundEven (integer : ℚ) : ℚ) := by
    push_cast
    linarith
  have upper : roundEven (integer : ℚ) < integer + 1 := by exact_mod_cast below
  have lower : integer - 1 < roundEven (integer : ℚ) := by exact_mod_cast above
  omega

theorem roundEven_le {integer : ℤ} (small : value ≤ integer) : roundEven value ≤ integer := by
  have near := abs_le.mp (roundEven_near value)
  have less : (roundEven value : ℚ) < ((integer + 1 : ℤ) : ℚ) := by
    push_cast
    linarith
  have strict : roundEven value < integer + 1 := by exact_mod_cast less
  omega

theorem roundBinary64_zero : roundBinary64 0 = 0 := by
  have none : roundEven (0 : ℚ) = 0 := by exact_mod_cast roundEven_intCast 0
  simp [roundBinary64, none]

theorem roundBinary64_nonneg (nonneg : 0 ≤ value) : 0 ≤ roundBinary64 value := by
  have unit := binary64Unit_pos value
  have rounded : (0 : ℚ) ≤ roundEven (value / binary64Unit value) := by
    exact_mod_cast roundEven_nonneg (div_nonneg nonneg unit.le)
  exact mul_nonneg rounded unit.le

theorem roundBinary64_nonpos (nonpos : value ≤ 0) : roundBinary64 value ≤ 0 := by
  have unit := binary64Unit_pos value
  have quotient : value / binary64Unit value ≤ ((0 : ℤ) : ℚ) := by
    simpa using div_nonpos_of_nonpos_of_nonneg nonpos unit.le
  have rounded : (roundEven (value / binary64Unit value) : ℚ) ≤ 0 := by exact_mod_cast roundEven_le quotient
  exact mul_nonpos_of_nonpos_of_nonneg rounded unit.le

theorem roundBinary64_near (value : ℚ) : |roundBinary64 value - value| ≤ binary64Unit value / 2 := by
  have unit := binary64Unit_pos value
  have near := roundEven_near (value / binary64Unit value)
  calc |roundBinary64 value - value|
      = |roundEven (value / binary64Unit value) - value / binary64Unit value| * binary64Unit value := by
        rw [← abs_of_pos unit, ← abs_mul, abs_of_pos unit, sub_mul, div_mul_cancel₀ _ unit.ne']
        rfl
    _ ≤ 1 / 2 * binary64Unit value := mul_le_mul_of_nonneg_right near unit.le
    _ = binary64Unit value / 2 := by ring

theorem binary64Unit_le (normal : 2 ^ (-1022 : ℤ) ≤ value) : binary64Unit value ≤ value / 2 ^ 52 := by
  have positive : 0 < value := (zpow_pos (by norm_num) _).trans_le normal
  have exponent : -1022 ≤ Int.log 2 value := by
    rw [← Int.zpow_le_iff_le_log one_lt_two positive]
    exact_mod_cast normal
  have power : (2 : ℚ) ^ Int.log 2 value ≤ value := by
    exact_mod_cast Int.zpow_log_le_self one_lt_two positive
  unfold binary64Unit
  rw [abs_of_pos positive, max_eq_left exponent, zpow_sub₀ two_ne_zero]
  exact div_le_div_of_nonneg_right power (by norm_num)

theorem roundBinary64_close (normal : 2 ^ (-1022 : ℤ) ≤ value) :
    |roundBinary64 value - value| ≤ value / 2 ^ 53 := by
  have near := roundBinary64_near value
  have unit := binary64Unit_le normal
  calc |roundBinary64 value - value| ≤ binary64Unit value / 2 := near
    _ ≤ value / 2 ^ 52 / 2 := by linarith
    _ = value / 2 ^ 53 := by ring

theorem binary64Unit_eq (positive : 0 < value) :
    binary64Unit value = 2 ^ (max (Int.log 2 value) (-1022) - 52) := by
  unfold binary64Unit
  rw [abs_of_pos positive]

theorem roundEven_div_power (integer : ℤ) {low high : ℤ} (ordered : low ≤ high) :
    ∃ quotient : ℤ, (integer : ℚ) * 2 ^ high = quotient * 2 ^ low := by
  obtain ⟨gap, rfl⟩ := Int.exists_add_of_le ordered
  refine ⟨integer * 2 ^ gap, ?_⟩
  rw [zpow_add₀ two_ne_zero]
  push_cast
  rw [zpow_natCast]
  ring

theorem roundBinary64_le (positive : 0 < value) (below : value ≤ bound) (exact : roundBinary64 bound = bound) :
    roundBinary64 value ≤ bound := by
  have boundPositive := positive.trans_le below
  have ordered : max (Int.log 2 value) (-1022) - 52 ≤ max (Int.log 2 bound) (-1022) - 52 := by
    have logs := Int.log_mono_right (b := 2) positive below
    omega
  obtain ⟨quotient, multiple⟩ := roundEven_div_power (roundEven (bound / binary64Unit bound)) ordered
  have unit := binary64Unit_pos value
  rw [← binary64Unit_eq positive, ← binary64Unit_eq boundPositive] at multiple
  have whole : bound = quotient * binary64Unit value := exact.symm.trans multiple
  have small : value / binary64Unit value ≤ (quotient : ℚ) := by
    rw [div_le_iff₀ unit, ← whole]
    exact below
  have rounded : (roundEven (value / binary64Unit value) : ℚ) ≤ quotient := by exact_mod_cast roundEven_le small
  calc roundBinary64 value ≤ quotient * binary64Unit value := mul_le_mul_of_nonneg_right rounded unit.le
    _ = bound := whole.symm

theorem roundBinary64_of_multiple (positive : 0 < value) {integer exponent : ℤ} (whole : value = integer * 2 ^ exponent)
    (fine : max (Int.log 2 value) (-1022) - 52 ≤ exponent) : roundBinary64 value = value := by
  obtain ⟨quotient, multiple⟩ := roundEven_div_power integer fine
  have unit := binary64Unit_pos value
  rw [← whole, ← binary64Unit_eq positive] at multiple
  have exact : value / binary64Unit value = quotient := by
    rw [div_eq_iff unit.ne']
    exact multiple
  unfold roundBinary64
  rw [exact, roundEven_intCast]
  exact multiple.symm

theorem roundEven_unit_le (positive : 0 < value) : roundEven (value / binary64Unit value) ≤ 2 ^ 53 := by
  apply roundEven_le
  rw [div_le_iff₀ (binary64Unit_pos value), binary64Unit_eq positive]
  calc value ≤ 2 ^ (Int.log 2 value + 1) := by
        exact_mod_cast (Int.lt_zpow_succ_log_self one_lt_two value).le
    _ ≤ 2 ^ (53 + (max (Int.log 2 value) (-1022) - 52)) := zpow_le_zpow_right₀ one_le_two (by omega)
    _ = ((2 ^ 53 : ℤ) : ℚ) * 2 ^ (max (Int.log 2 value) (-1022) - 52) := by
        rw [zpow_add₀ two_ne_zero]
        norm_num

theorem log_lt_of_lt (positive : 0 < value) {exponent : ℤ} (small : value < 2 ^ exponent) :
    Int.log 2 value < exponent := by
  rw [← Int.lt_zpow_iff_log_lt one_lt_two positive]
  exact_mod_cast small

theorem roundBinary64_idempotent (nonneg : 0 ≤ value) :
    roundBinary64 (roundBinary64 value) = roundBinary64 value := by
  rcases (roundBinary64_nonneg nonneg).eq_or_lt with zero | rounded
  · rw [← zero, roundBinary64_zero]
  · have positive : 0 < value := by
      by_contra small
      exact rounded.not_ge (roundBinary64_nonpos (not_lt.mp small))
    obtain ⟨exponent, isExponent⟩ : ∃ exponent, exponent = max (Int.log 2 value) (-1022) - 52 := ⟨_, rfl⟩
    have whole : roundBinary64 value = roundEven (value / binary64Unit value) * 2 ^ exponent := by
      rw [isExponent, ← binary64Unit_eq positive]
      rfl
    have power : (0 : ℚ) < 2 ^ exponent := zpow_pos (by norm_num) _
    rcases (roundEven_unit_le positive).lt_or_eq with less | carry
    · refine roundBinary64_of_multiple rounded whole ?_
      have small : roundBinary64 value < 2 ^ (53 + exponent) := by
        have asRational : (roundEven (value / binary64Unit value) : ℚ) < 2 ^ 53 := by exact_mod_cast less
        rw [whole, zpow_add₀ two_ne_zero]
        exact mul_lt_mul_of_pos_right asRational power
      have log := log_lt_of_lt rounded small
      omega
    · -- the significand is full, so the result is the next power of two
      have next : roundBinary64 value = ((2 ^ 52 : ℤ) : ℚ) * 2 ^ (exponent + 1) := by
        rw [whole, carry, zpow_add_one₀ two_ne_zero]
        push_cast
        ring
      refine roundBinary64_of_multiple rounded next ?_
      have small : roundBinary64 value < 2 ^ (54 + exponent) := by
        rw [whole, carry, zpow_add₀ two_ne_zero]
        exact mul_lt_mul_of_pos_right (by norm_num) power
      have log := log_lt_of_lt rounded small
      omega

theorem roundBinary64_natCast {count : ℕ} (small : count ≤ 2 ^ 52) : roundBinary64 (count : ℚ) = count := by
  rcases Nat.eq_zero_or_pos count with rfl | positive
  · simpa using roundBinary64_zero
  · have positiveRational : (0 : ℚ) < count := by exact_mod_cast positive
    have whole : (count : ℚ) = ((count : ℤ) : ℚ) * 2 ^ (0 : ℤ) := by simp
    refine roundBinary64_of_multiple positiveRational whole ?_
    have bound : (count : ℚ) < 2 ^ (53 : ℤ) := by
      have atMost : (count : ℚ) ≤ 2 ^ 52 := by exact_mod_cast small
      exact atMost.trans_lt (by norm_num)
    have log := log_lt_of_lt positiveRational bound
    omega

theorem roundBinary64_two_zpow (exponent : ℤ) (normal : -1022 ≤ exponent) :
    roundBinary64 (2 ^ exponent) = 2 ^ exponent := by
  have positive : (0 : ℚ) < 2 ^ exponent := zpow_pos (by norm_num) _
  have whole : (2 : ℚ) ^ exponent = ((1 : ℤ) : ℚ) * 2 ^ exponent := by simp
  refine roundBinary64_of_multiple positive whole ?_
  have log : Int.log 2 (((2 : ℕ) : ℚ) ^ exponent) = exponent := Int.log_zpow one_lt_two exponent
  rw [Nat.cast_ofNat] at log
  rw [log]
  omega

theorem normal_of_roundBinary64 (large : 2 ^ (-1022 : ℤ) < roundBinary64 value) : 2 ^ (-1022 : ℤ) ≤ value := by
  have least : (0 : ℚ) < 2 ^ (-1022 : ℤ) := zpow_pos (by norm_num) _
  have positive : 0 < value := by
    by_contra small
    exact (least.trans large).not_ge (roundBinary64_nonpos (not_lt.mp small))
  by_contra subnormal
  exact large.not_ge (roundBinary64_le positive (not_le.mp subnormal).le (roundBinary64_two_zpow _ le_rfl))

end Rounding

theorem toBinary64_eq_finite {value rounded : ℚ} (exact : (finite value).toBinary64 = finite rounded) :
    rounded = roundBinary64 value ∧ |value| < 2 ^ 1024 - 2 ^ 970 := by
  simp only [toBinary64] at exact
  split at exact
  · exact (infinite_ne_finite _ _ exact).elim
  · rename_i small
    exact ⟨(finite.inj exact).symm, not_le.mp small⟩

theorem toBinary64_of_small {value : ℚ} (small : |value| < 2 ^ 1024 - 2 ^ 970) :
    (finite value).toBinary64 = finite (roundBinary64 value) := by
  simp only [toBinary64, not_le.mpr small, ↓reduceIte]

theorem lt_overflow {value : ℚ} {exponent : ℕ} (small : value ≤ 2 ^ exponent) (low : exponent ≤ 970) :
    value < 2 ^ 1024 - 2 ^ 970 := by
  have below : (2 : ℚ) ^ exponent ≤ 2 ^ 970 := pow_le_pow_right₀ one_le_two low
  have positive : (0 : ℚ) < 2 ^ 970 := pow_pos (by norm_num) _
  have split : (2 : ℚ) ^ 1024 = 2 ^ 54 * 2 ^ 970 := by rw [← pow_add]
  rw [split]
  generalize (2 : ℚ) ^ 970 = power at below positive ⊢
  linarith

theorem toBinary64_of_le {value : ℚ} {exponent : ℕ} (nonneg : 0 ≤ value) (small : value ≤ 2 ^ exponent)
    (low : exponent ≤ 970) : (finite value).toBinary64 = finite (roundBinary64 value) := by
  apply toBinary64_of_small
  rw [abs_of_nonneg nonneg]
  exact lt_overflow small low

theorem toBinary64_natCast {count : ℕ} (small : count ≤ 2 ^ 52) :
    (finite (count : ℚ)).toBinary64 = finite count := by
  have bound : (count : ℚ) ≤ 2 ^ 52 := by exact_mod_cast small
  rw [toBinary64_of_le (Nat.cast_nonneg count) bound (by norm_num), roundBinary64_natCast small]

theorem finite_of_toBinary64 {number : ExactFloat} {rounded : ℚ} (exact : number.toBinary64 = finite rounded) :
    ∃ value, number = finite value := by
  cases number with
  | finite value => exact ⟨value, rfl⟩
  | _ => cases exact

theorem normal_of_toBinary64 {value rounded : ℚ} (rounds : (finite value).toBinary64 = finite rounded)
    (large : 2 ^ (-1022 : ℤ) < rounded) : 2 ^ (-1022 : ℤ) ≤ value := by
  obtain ⟨rfl, _⟩ := toBinary64_eq_finite rounds
  exact normal_of_roundBinary64 large

/-- Rounding changes a normal number by at most its 2^-53rd part. -/
theorem toBinary64_close {value rounded : ℚ} (normal : value = 0 ∨ 2 ^ (-1022 : ℤ) ≤ value)
    (rounds : (finite value).toBinary64 = finite rounded) : |rounded - value| ≤ value / 2 ^ 53 := by
  obtain ⟨rfl, _⟩ := toBinary64_eq_finite rounds
  rcases normal with rfl | normal
  · simp [roundBinary64_zero]
  · exact roundBinary64_close normal

theorem add_toBinary64_eq_finite {left right : ExactFloat} {sum : ℚ} (added : (left + right).toBinary64 = finite sum) :
    ∃ first second : ℚ, left = finite first ∧ right = finite second ∧
      (finite (first + second)).toBinary64 = finite sum := by
  obtain ⟨value, exact⟩ := finite_of_toBinary64 added
  change add left right = finite value at exact
  cases left <;> cases right <;> simp_all [add]

theorem div_toBinary64_eq_finite {left right : ExactFloat} {quotient : ℚ} (nonzero : quotient ≠ 0)
    (divided : (left / right).toBinary64 = finite quotient) :
    ∃ number divisor : ℚ, left = finite number ∧ right = finite divisor ∧ divisor ≠ 0 ∧
      (finite (number / divisor)).toBinary64 = finite quotient := by
  obtain ⟨value, exact⟩ := finite_of_toBinary64 divided
  have none {unbounded : ExactFloat} (zero : left / unbounded = finite 0) (same : unbounded = right) : False := by
    subst same
    rw [zero] at divided
    obtain ⟨rfl, _⟩ := toBinary64_eq_finite divided
    exact nonzero roundBinary64_zero
  cases left with
  | nan => cases right <;> cases exact
  | posInf => exact (infinite_div_ne_finite (Or.inl rfl) exact).elim
  | negInf => exact (infinite_div_ne_finite (Or.inr rfl) exact).elim
  | finite number =>
      cases right with
      | nan => cases exact
      | posInf => exact (none rfl rfl).elim
      | negInf => exact (none rfl rfl).elim
      | finite divisor =>
          by_cases zero : divisor = 0
          · subst zero
            exact (infinite_ne_finite _ _ exact).elim
          · rw [finite_div_finite _ zero] at divided
            exact ⟨number, divisor, rfl, rfl, zero, divided⟩

theorem normal_of_half_nano {value : ℚ} (large : 1 / (2 * 10 ^ 9) ≤ value) : 2 ^ (-1022 : ℤ) < value := by
  have power : (2 : ℚ) ^ (-1022 : ℤ) ≤ 2 ^ (-31 : ℤ) := zpow_le_zpow_right₀ one_le_two (by norm_num)
  have small : (2 : ℚ) ^ (-31 : ℤ) < 1 / (2 * 10 ^ 9) := by norm_num
  exact (power.trans_lt small).trans_le large

end ExactFloat
