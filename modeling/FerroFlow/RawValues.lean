import FerroFlow.NodeValues

/-! Which raw values each type accepts when a mapped value is written. -/

namespace FerroFlow

open ExactFloat (roundAway)

def NearInteger (raw : ℚ) : Prop := |raw - roundAway raw| ≤ 1 / 10 ^ 9

def NearBoolean (raw : ℚ) : Prop := |raw| < 1 / 2 ^ 52 ∨ |raw - 1| < 1 / 2 ^ 52

def CanDataType.bounds? : CanDataType → Option (ℤ × ℤ)
  | .int32 => some (-2147483648, 2147483647)
  | .int16 => some (-32768, 32767)
  | .int8 => some (-128, 127)
  | .uint32 => some (0, 4294967295)
  | .uint16 => some (0, 65535)
  | .uint8 => some (0, 255)
  | .float32 => none
  | .boolean => none

def CanDataType.Represents : CanDataType → ℚ → Prop
  | .float32, _ => True
  | .boolean, raw => NearBoolean raw
  | _, raw => NearInteger raw

def CanDataType.Accepts (dataType : CanDataType) (raw : ℚ) : Prop :=
  dataType.Represents raw ∧ ∀ low high, dataType.bounds? = some (low, high) →
    low ≤ roundAway raw ∧ roundAway raw ≤ high

theorem checkedInteger_ok_iff {low high : ℤ} (lowFits : -2 ^ 127 < low) (highFits : high < 2 ^ 127 - 1)
    (raw : ℚ) : (∃ integer, checkedInteger low high (.finite raw) = .ok integer) ↔
      NearInteger raw ∧ low ≤ roundAway raw ∧ roundAway raw ≤ high := by
  unfold checkedInteger
  simp only [Checks.bind_unit_ok_iff, require_ok_iff, orFail_ok_iff, ExactFloat.round_finite,
    ExactFloat.finite_sub_finite, ExactFloat.abs_finite, integerTolerance, ExactFloat.finite_le_finite,
    exists_and_left, BoundedInt.exists_tryFrom, NearInteger]
  have saturated : low ≤ asI128 (.finite (roundAway raw)) ∧ asI128 (.finite (roundAway raw)) ≤ high ↔
      low ≤ roundAway raw ∧ roundAway raw ≤ high := by
    simp only [asI128, ExactFloat.saturate, ExactFloat.truncate_intCast]
    omega
  rw [saturated]

theorem exists_map_ok_iff {α β : Type} {result : Result α} {apply : α → β} :
    (∃ value, apply <$> result = .ok value) ↔ ∃ value, result = .ok value := by
  cases result with
  | error failure => simp [Functor.map, Except.map]
  | ok value => simp [Functor.map, Except.map]

theorem canDataValueFromF64_ok_iff (raw : ℚ) (dataType : CanDataType) :
    (∃ value, canDataValueFromF64 (.finite raw) dataType = .ok value) ↔ dataType.Accepts raw := by
  unfold canDataValueFromF64
  simp only [Checks.bind_unit_ok_iff, require_ok_iff, ExactFloat.isFinite_finite, true_and,
    CanDataType.Accepts]
  cases dataType with
  | float32 => simp [CanDataType.Represents, CanDataType.bounds?]
  | boolean =>
      simp only [ExactFloat.finite_sub_finite, ExactFloat.abs_finite, f64Epsilon,
        ExactFloat.finite_lt_finite, sub_zero, CanDataType.Represents, NearBoolean, CanDataType.bounds?,
        reduceCtorEq, false_implies, implies_true, and_true]
      by_cases zero : |raw| < 1 / 2 ^ 52
      · rw [if_pos zero]
        exact iff_of_true ⟨_, rfl⟩ (Or.inl zero)
      · rw [if_neg zero]
        by_cases one : |raw - 1| < 1 / 2 ^ 52
        · rw [if_pos one]
          exact iff_of_true ⟨_, rfl⟩ (Or.inr one)
        · rw [if_neg one]
          refine iff_of_false ?_ (by rintro (isZero | isOne); exacts [zero isZero, one isOne])
          rintro ⟨value, converted⟩
          cases converted
  | _ =>
      rw [exists_map_ok_iff, checkedInteger_ok_iff (by norm_num) (by norm_num)]
      simp [CanDataType.Represents, CanDataType.bounds?]

/-- Between two accepted raw values the bounds of a type are met, so only the tolerance counts. -/
theorem CanDataType.accepts_between_iff {dataType : CanDataType} {left right share : ℚ}
    (leftAccepted : dataType.Accepts left) (rightAccepted : dataType.Accepts right)
    (nonneg : 0 ≤ share) (atMost : share ≤ 1) :
    dataType.Accepts (left + share * (right - left)) ↔
      dataType.Represents (left + share * (right - left)) := by
  refine ⟨And.left, fun represented => ⟨represented, ?_⟩⟩
  intro low high bounds
  have leftBounds := leftAccepted.2 low high bounds
  have rightBounds := rightAccepted.2 low high bounds
  rcases le_total left right with up | down
  · have lower : left ≤ left + share * (right - left) := by nlinarith
    have upper : left + share * (right - left) ≤ right := by nlinarith
    exact ⟨leftBounds.1.trans (ExactFloat.roundAway_mono lower),
      (ExactFloat.roundAway_mono upper).trans rightBounds.2⟩
  · have lower : right ≤ left + share * (right - left) := by nlinarith
    have upper : left + share * (right - left) ≤ left := by nlinarith
    exact ⟨rightBounds.1.trans (ExactFloat.roundAway_mono lower),
      (ExactFloat.roundAway_mono upper).trans leftBounds.2⟩

theorem rawValueFromMapped_ok_iff (entry : MappingEntry) (mapped : ℚ) (dataType : CanDataType) :
    (∃ value, entry.rawValueFromMapped (.finite mapped) dataType = .ok value) ↔
      entry.value.slope.beq (.finite 0) = false ∧
        ∃ raw, (.finite mapped - entry.value.offset) / entry.value.slope = .finite raw ∧
          dataType.Accepts raw := by
  unfold MappingEntry.rawValueFromMapped
  simp only [Checks.bind_unit_ok_iff, require_ok_iff, ExactFloat.isFinite_finite, true_and, exists_and_left]
  refine and_congr_right fun _ => ?_
  cases raw : (.finite mapped - entry.value.offset) / entry.value.slope with
  | finite value => simp [canDataValueFromF64_ok_iff]
  | _ => simp [canDataValueFromF64, Checks.bind_unit_ok_iff, ExactFloat.isFinite]

theorem jsonValueToCanDataValue_float_ok_iff (number : ℚ) (dataType : CanDataType) :
    (∃ value, jsonValueToCanDataValue (.ofF64 (.finite number)) dataType = .ok value) ↔
      dataType = .float32 := by
  cases dataType with
  | float32 => exact iff_of_true ⟨_, rfl⟩ rfl
  | _ =>
      refine iff_of_false ?_ (by simp)
      rintro ⟨value, converted⟩
      cases converted

namespace NodeManager

theorem setResolved_ok_iff (manager : NodeManager) (fieldName : String)
    (convert : MappingEntry → CanDataType → Result CanDataValue) :
    (manager.setResolved fieldName convert).result = .ok () ↔
      ∃ lookup target, manager.resolveMappingByName fieldName = .ok (lookup, target) ∧
        lookup.mappingEntry.fieldType = .parameter ∧
        ∃ raw, convert lookup.mappingEntry target.dataType = .ok raw := by
  unfold setResolved
  cases resolved : manager.resolveMappingByName fieldName with
  | error failure => simp
  | ok found =>
      obtain ⟨lookup, target⟩ := found
      simp only [Except.ok.injEq, Prod.mk.injEq]
      constructor
      · intro succeeded
        split at succeeded
        · cases succeeded
        · rename_i writable
          cases converted : convert lookup.mappingEntry target.dataType with
          | error failure =>
              rw [converted] at succeeded
              cases succeeded
          | ok raw => exact ⟨lookup, target, ⟨rfl, rfl⟩, not_not.mp writable, raw, converted⟩
      · rintro ⟨_, _, ⟨rfl, rfl⟩, writable, raw, converted⟩
        simp only [writable, ne_eq, not_true_eq_false, ↓reduceIte, converted, dispatchParameterSet]

def AcceptsSetting (manager : NodeManager) (param : String) (value : F64) : Prop :=
  (manager.setValue param (.ofF64 value)).result = .ok ()

instance (manager : NodeManager) (param : String) (value : F64) :
    Decidable (manager.AcceptsSetting param value) :=
  inferInstanceAs (Decidable (_ = _))

theorem AcceptsSetting.isFinite {manager : NodeManager} {param : String} {value : F64}
    (accepted : manager.AcceptsSetting param value) : ∃ number, value = .finite number := by
  cases value with
  | finite number => exact ⟨number, rfl⟩
  | _ =>
      unfold AcceptsSetting setValue at accepted
      split at accepted
      · cases accepted
      · obtain ⟨lookup, target, _, _, raw, converted⟩ := (setResolved_ok_iff manager param _).mp accepted
        cases dataType : target.dataType <;> rw [dataType] at converted <;> cases converted

theorem acceptsSetting_mapped_iff {manager : NodeManager} {param : String}
    (mapped : isMappedName param = true) (number : ℚ) :
    manager.AcceptsSetting param (.finite number) ↔
      ∃ lookup target, manager.resolveMappingByName param = .ok (lookup, target) ∧
        lookup.mappingEntry.fieldType = .parameter ∧
        lookup.mappingEntry.value.slope.beq (.finite 0) = false ∧
        ∃ raw, (.finite number - lookup.mappingEntry.value.offset) / lookup.mappingEntry.value.slope =
          .finite raw ∧ target.dataType.Accepts raw := by
  have numeric : jsonValueToF64 (.ofF64 (.finite number)) = .ok (.finite number) := rfl
  unfold AcceptsSetting setValue
  simp only [mapped, ↓reduceIte, numeric, setMappedValue, setResolved_ok_iff, rawValueFromMapped_ok_iff]

theorem acceptsSetting_raw_iff {manager : NodeManager} {param : String}
    (rawName : isMappedName param = false) (number : ℚ) :
    manager.AcceptsSetting param (.finite number) ↔
      ∃ lookup target, manager.resolveMappingByName param = .ok (lookup, target) ∧
        lookup.mappingEntry.fieldType = .parameter ∧ target.dataType = .float32 := by
  unfold AcceptsSetting setValue
  simp only [rawName, Bool.false_eq_true, ↓reduceIte, setRawValue, setResolved_ok_iff,
    jsonValueToCanDataValue_float_ok_iff]

end NodeManager

end FerroFlow
