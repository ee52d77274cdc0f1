import FerroFlow.RawValues

/-! Writing through a mapping and reading back: the inverse of an accepted mapping finds exactly the
raw values within the tolerance of its type, and gives every integer and Boolean back. -/

namespace FerroFlow

open ExactFloat (roundAway)

def CanDataType.integer? : CanDataType → CanDataValue → Option ℤ
  | .int32, .int32 value => some value.val
  | .int16, .int16 value => some value.val
  | .int8, .int8 value => some value.val
  | .uint32, .uint32 value => some value.val
  | .uint16, .uint16 value => some value.val
  | .uint8, .uint8 value => some value.val
  | .boolean, .boolean value => some value.toNat
  | _, _ => none

def CanDataType.tolerance : CanDataType → ℚ
  | .boolean => 1 / 2 ^ 52
  | _ => 1 / 10 ^ 9

theorem BoundedInt.tryFrom_eq_some_iff {low high value : ℤ} {bounded : BoundedInt low high} :
    tryFrom low high value = some bounded ↔ value = bounded.val := by
  unfold tryFrom
  constructor
  · intro found
    split at found
    · exact congrArg Subtype.val (Option.some.inj found)
    · cases found
  · rintro rfl
    rw [dif_pos bounded.property]

theorem checkedInteger_eq_ok_iff {low high : ℤ} (lowFits : -2 ^ 127 < low) (highFits : high < 2 ^ 127 - 1)
    (raw : ℚ) (integer : BoundedInt low high) :
    checkedInteger low high (.finite raw) = .ok integer ↔ |raw - integer.val| ≤ 1 / 10 ^ 9 := by
  have bounds := integer.property
  have saturated : asI128 (.finite (roundAway raw)) = integer.val ↔ roundAway raw = integer.val := by
    simp only [asI128, ExactFloat.saturate, ExactFloat.truncate_intCast]
    omega
  unfold checkedInteger
  simp only [Checks.bind_unit_ok_iff, require_ok_iff, orFail_ok_iff, ExactFloat.round_finite,
    ExactFloat.finite_sub_finite, ExactFloat.abs_finite, integerTolerance, ExactFloat.finite_le_finite,
    BoundedInt.tryFrom_eq_some_iff, saturated]
  constructor
  · rintro ⟨near, rounds⟩
    rwa [rounds] at near
  · intro near
    have rounds := ExactFloat.roundAway_of_near (near.trans_lt (by norm_num : (1 : ℚ) / 10 ^ 9 < 1 / 2))
    rw [rounds]
    exact ⟨near, rfl⟩

structure CanDataType.Wraps (dataType : CanDataType) (low high : ℤ) (wrap : BoundedInt low high → CanDataValue) :
    Prop where
  lowFits : -2 ^ 127 < low
  highFits : high < 2 ^ 127 - 1
  integer (value : CanDataValue) (integer : ℤ) : dataType.integer? value = some integer ↔
    ∃ bounded, wrap bounded = value ∧ bounded.val = integer
  converts (raw : ℚ) : canDataValueFromF64 (.finite raw) dataType = wrap <$> checkedInteger low high (.finite raw)

theorem CanDataType.exists_wraps {dataType : CanDataType} {low high : ℤ}
    (bounds : dataType.bounds? = some (low, high)) : ∃ wrap, dataType.Wraps low high wrap := by
  cases dataType with
  | float32 => cases bounds
  | boolean => cases bounds
  | _ =>
      cases bounds
      refine ⟨_, by norm_num, by norm_num, ?_, fun raw => rfl⟩
      intro value integer
      cases value <;> simp [integer?]

theorem CanDataType.kinds (dataType : CanDataType) : dataType = .float32 ∨ dataType = .boolean ∨
    ∃ low high, dataType.bounds? = some (low, high) := by
  cases dataType <;> simp [bounds?]

section Conversion

variable {dataType : CanDataType} {low high : ℤ} {raw : ℚ} {value : CanDataValue} {integer : ℤ}

theorem canDataValueFromF64_integer_iff (bounds : dataType.bounds? = some (low, high)) :
    canDataValueFromF64 (.finite raw) dataType = .ok value ↔
      ∃ integer : ℤ, dataType.integer? value = some integer ∧ |raw - integer| ≤ 1 / 10 ^ 9 := by
  obtain ⟨wrap, wraps⟩ := CanDataType.exists_wraps bounds
  simp only [wraps.converts, Checks.map_ok_iff, wraps.integer,
    checkedInteger_eq_ok_iff wraps.lowFits wraps.highFits]
  constructor
  · rintro ⟨bounded, near, same⟩
    exact ⟨bounded.val, ⟨bounded, same, rfl⟩, near⟩
  · rintro ⟨_, ⟨bounded, same, rfl⟩, near⟩
    exact ⟨bounded, near, same⟩

theorem exists_integer?_iff (bounds : dataType.bounds? = some (low, high)) :
    (∃ value, dataType.integer? value = some integer) ↔ low ≤ integer ∧ integer ≤ high := by
  obtain ⟨wrap, wraps⟩ := CanDataType.exists_wraps bounds
  simp only [wraps.integer]
  constructor
  · rintro ⟨_, bounded, _, rfl⟩
    exact bounded.property
  · intro inside
    exact ⟨_, ⟨integer, inside⟩, rfl, rfl⟩

theorem canDataValueFromF64_boolean_iff : canDataValueFromF64 (.finite raw) .boolean = .ok value ↔
    ∃ truth : Bool, value = .boolean truth ∧ |raw - truth.toNat| < 1 / 2 ^ 52 := by
  unfold canDataValueFromF64
  rw [Checks.bind_unit_ok_iff, require_ok_iff]
  simp only [ExactFloat.isFinite_finite, true_and, ExactFloat.finite_sub_finite, ExactFloat.abs_finite,
    f64Epsilon, ExactFloat.finite_lt_finite, Bool.exists_bool, Bool.toNat_false, Bool.toNat_true,
    Nat.cast_zero, Nat.cast_one]
  have apart : ¬ (|raw - 0| < 1 / 2 ^ 52 ∧ |raw - 1| < 1 / 2 ^ 52) := by
    rintro ⟨zero, one⟩
    rw [abs_lt] at zero one
    linarith
  split
  · next zero =>
      have notOne : ¬ |raw - 1| < 1 / 2 ^ 52 := fun one => apart ⟨zero, one⟩
      simp only [zero, notOne, and_true, and_false, or_false, Except.ok.injEq, eq_comm]
  · next notZero =>
      split
      · next one => simp only [notZero, one, and_true, and_false, false_or, Except.ok.injEq, eq_comm]
      · next notOne => simp only [notZero, notOne, and_false, or_false, bail, reduceCtorEq]

theorem canDataValueToF64_of_integer (stands : dataType.integer? value = some integer) :
    canDataValueToF64 value = .ok (.finite integer) := by
  cases dataType <;> cases value <;> cases stands
  case boolean truth => cases truth <;> rfl
  all_goals rfl

theorem canDataValueFromF64_of_integer (stands : dataType.integer? value = some integer) :
    canDataValueFromF64 (.finite integer) dataType = .ok value := by
  rcases dataType.kinds with rfl | rfl | ⟨low, high, bounds⟩
  · cases value <;> cases stands
  · cases value <;> cases stands
    exact canDataValueFromF64_boolean_iff.mpr ⟨_, rfl, by simp⟩
  · exact (canDataValueFromF64_integer_iff bounds).mpr ⟨integer, stands, by simp⟩

theorem integer_of_canDataValueFromF64 (rounded : dataType ≠ .float32)
    (converted : canDataValueFromF64 (.finite raw) dataType = .ok value) :
    ∃ integer : ℤ, dataType.integer? value = some integer ∧ |raw - integer| ≤ dataType.tolerance := by
  rcases dataType.kinds with rfl | rfl | ⟨low, high, bounds⟩
  · exact (rounded rfl).elim
  · obtain ⟨truth, rfl, near⟩ := canDataValueFromF64_boolean_iff.mp converted
    exact ⟨truth.toNat, rfl, near.le⟩
  · obtain ⟨integer, stands, near⟩ := (canDataValueFromF64_integer_iff bounds).mp converted
    refine ⟨integer, stands, near.trans_eq ?_⟩
    cases dataType <;> first | rfl | cases bounds

end Conversion

namespace MappingEntry

variable {entry : MappingEntry} {slope offset : ℚ}

theorem linear_of_validate (accepted : entry.validate = .ok ()) :
    ∃ slope offset : ℚ, slope ≠ 0 ∧ entry.value.slope = .finite slope ∧ entry.value.offset = .finite offset := by
  simp only [validate, Checks.bind_unit_ok_iff, require_ok_iff, ExactFloat.isFinite_iff] at accepted
  obtain ⟨_, _, _, ⟨slope, slopeIs⟩, notZero, ⟨offset, offsetIs⟩, _⟩ := accepted
  refine ⟨slope, offset, ?_, slopeIs, offsetIs⟩
  rintro rfl
  rw [slopeIs] at notZero
  exact Bool.noConfusion notZero

theorem rawValueFromMapped_linear (invertible : slope ≠ 0) (slopeIs : entry.value.slope = .finite slope)
    (offsetIs : entry.value.offset = .finite offset) (mapped : ℚ) (dataType : CanDataType) :
    entry.rawValueFromMapped (.finite mapped) dataType =
      canDataValueFromF64 (.finite ((mapped - offset) / slope)) dataType := by
  have notZero : ExactFloat.beq (.finite slope) (.finite 0) = false := by
    simp [ExactFloat.beq, invertible]
  simp only [rawValueFromMapped, slopeIs, offsetIs, notZero, ExactFloat.finite_sub_finite,
    ExactFloat.finite_div_finite _ invertible]
  rfl

theorem mappedValue_linear (slopeIs : entry.value.slope = .finite slope)
    (offsetIs : entry.value.offset = .finite offset) {dataType : CanDataType} {value : CanDataValue}
    {integer : ℤ} (stands : dataType.integer? value = some integer) :
    entry.mappedValue value = .ok { unit := entry.value.unit, value := .finite (integer * slope + offset) } := by
  simp only [mappedValue, canDataValueToF64_of_integer stands, slopeIs, offsetIs]
  rfl

/-- The inverse of an accepted mapping: which raw value it finds, that it undoes the mapping on integers
and Booleans, and how far the mapping takes a raw value it found from the number it was found for. -/
theorem inverse_exact (accepted : entry.validate = .ok ()) :
    ∃ slope offset : ℚ, slope ≠ 0 ∧ entry.value.slope = .finite slope ∧
      entry.value.offset = .finite offset ∧
      ∀ (mapped : ℚ) (dataType : CanDataType),
        (∀ low high, dataType.bounds? = some (low, high) →
          (∀ value, entry.rawValueFromMapped (.finite mapped) dataType = .ok value →
            ∃ integer, dataType.integer? value = some integer) ∧
          (∀ integer : ℤ,
            (∃ value, dataType.integer? value = some integer ∧
              entry.rawValueFromMapped (.finite mapped) dataType = .ok value) ↔
            low ≤ integer ∧ integer ≤ high ∧ |(mapped - offset) / slope - integer| ≤ 1 / 10 ^ 9) ∧
          ∀ left right : ℤ, |(mapped - offset) / slope - left| ≤ 1 / 10 ^ 9 →
            |(mapped - offset) / slope - right| ≤ 1 / 10 ^ 9 → left = right) ∧
        (∀ value, entry.rawValueFromMapped (.finite mapped) .boolean = .ok value ↔
          ∃ truth : Bool, value = .boolean truth ∧ |(mapped - offset) / slope - truth.toNat| < 1 / 2 ^ 52) ∧
        (∀ value integer, dataType.integer? value = some integer → ∃ image,
          entry.mappedValue value = .ok image ∧ entry.rawValueFromMapped image.value dataType = .ok value) ∧
        ∀ value, dataType ≠ .float32 → entry.rawValueFromMapped (.finite mapped) dataType = .ok value →
          ∃ image : ℚ, entry.mappedValue value = .ok { unit := entry.value.unit, value := .finite image } ∧
            |image - mapped| ≤ dataType.tolerance * |slope| := by
  obtain ⟨slope, offset, invertible, slopeIs, offsetIs⟩ := linear_of_validate accepted
  refine ⟨slope, offset, invertible, slopeIs, offsetIs, fun mapped dataType => ⟨?_, ?_, ?_, ?_⟩⟩
  · intro low high bounds
    simp only [rawValueFromMapped_linear invertible slopeIs offsetIs, canDataValueFromF64_integer_iff bounds]
    refine ⟨?_, ?_, ?_⟩
    · rintro value ⟨integer, stands, _⟩
      exact ⟨integer, stands⟩
    · intro integer
      rw [← and_assoc, ← exists_integer?_iff bounds]
      constructor
      · rintro ⟨value, stands, other, standsToo, near⟩
        obtain rfl := Option.some.inj (stands.symm.trans standsToo)
        exact ⟨⟨value, stands⟩, near⟩
      · rintro ⟨⟨value, stands⟩, near⟩
        exact ⟨value, stands, integer, stands, near⟩
    · intro left right leftNear rightNear
      have small : (1 : ℚ) / 10 ^ 9 < 1 / 2 := by norm_num
      exact (ExactFloat.roundAway_of_near (leftNear.trans_lt small)).symm.trans
        (ExactFloat.roundAway_of_near (rightNear.trans_lt small))
  · intro value
    rw [rawValueFromMapped_linear invertible slopeIs offsetIs, canDataValueFromF64_boolean_iff]
  · intro value integer stands
    refine ⟨_, mappedValue_linear slopeIs offsetIs stands, ?_⟩
    have inverse : (integer * slope + offset - offset) / slope = integer := by
      field_simp
      ring
    rw [rawValueFromMapped_linear invertible slopeIs offsetIs, inverse]
    exact canDataValueFromF64_of_integer stands
  · intro value rounded converted
    rw [rawValueFromMapped_linear invertible slopeIs offsetIs] at converted
    obtain ⟨integer, stands, near⟩ := integer_of_canDataValueFromF64 rounded converted
    refine ⟨_, mappedValue_linear slopeIs offsetIs stands, ?_⟩
    calc |integer * slope + offset - mapped|
        = |(mapped - offset) / slope - integer| * |slope| := by
          rw [← abs_mul, ← abs_neg]
          congr 1
          field_simp
          ring
      _ ≤ dataType.tolerance * |slope| := mul_le_mul_of_nonneg_right near (abs_nonneg slope)

def descendingMapping : MappingEntry where
  name := "valve"
  fieldType := .parameter
  rawField := "position"
  value := { slope := .finite (-1 / 4), offset := .finite 3 }

theorem inverse_exact_descending : ∃ image,
    descendingMapping.mappedValue (.int16 ⟨-5, by decide⟩) = .ok image ∧
      descendingMapping.rawValueFromMapped image.value .int16 = .ok (.int16 ⟨-5, by decide⟩) := by
  have accepted : descendingMapping.validate = .ok () := by decide +kernel
  obtain ⟨slope, offset, _, _, _, exact⟩ := inverse_exact accepted
  exact (exact 0 .int16).2.2.1 (.int16 ⟨-5, by decide⟩) (-5) rfl

end MappingEntry

end FerroFlow
