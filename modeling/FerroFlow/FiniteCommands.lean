import FerroFlow.WritePaths

/-! Which floats are commanded. A value that is written is checked to be finite before it is
narrowed to the `f32` that goes out, so a large one goes out as an infinity. -/

namespace FerroFlow

def JsonNumber.exact : JsonNumber → ℚ
  | posInt value => value.val
  | negInt value => value.val
  | float value => value

theorem exists_toBinary64_of_int (integer : ℤ) (lower : -(2 : ℤ) ^ 64 ≤ integer) (upper : integer ≤ 2 ^ 64) :
    ∃ value : ℚ, (ExactFloat.finite integer).toBinary64 = .finite value := by
  refine ⟨_, ExactFloat.toBinary64_of_small (ExactFloat.lt_overflow ?_ (by norm_num : 64 ≤ 970))⟩
  rw [abs_le]
  constructor <;> exact_mod_cast ‹_›

theorem JsonNumber.exists_asF64 (number : JsonNumber) : ∃ value : ℚ, number.asF64 = some (.finite value) := by
  cases number with
  | posInt value =>
      obtain ⟨rounded, rounds⟩ := exists_toBinary64_of_int value.val (by have := value.property; omega)
        (by have := value.property; omega)
      exact ⟨rounded, congrArg some rounds⟩
  | negInt value =>
      obtain ⟨rounded, rounds⟩ := exists_toBinary64_of_int value.val (by have := value.property; omega)
        (by have := value.property; omega)
      exact ⟨rounded, congrArg some rounds⟩
  | float value => exact ⟨value, rfl⟩

theorem JsonNumber.exact_of_asI64 {number : JsonNumber} {integer : ℤ}
    (isInteger : number.asI64 = some integer) : number.exact = integer := by
  cases number with
  | posInt value =>
      simp only [asI64, Option.ite_none_right_eq_some, Option.some.injEq] at isInteger
      rw [← isInteger.2]
      rfl
  | negInt value =>
      simp only [asI64, Option.some.injEq] at isInteger
      rw [← isInteger]
      rfl
  | float value => cases isInteger

theorem jsonValueToF64_number {number : JsonNumber} {value : F64} (known : number.asF64 = some value) :
    jsonValueToF64 (.number number) = .ok value := by
  simp only [jsonValueToF64, known, orFail]

theorem toBinary32_isFinite_iff (value : ℚ) :
    (ExactFloat.finite value).toBinary32.isFinite = true ↔ |value| < 2 ^ 128 - 2 ^ 103 := by
  by_cases large : 2 ^ 128 - 2 ^ 103 ≤ |value|
  · simp only [ExactFloat.toBinary32, large, ↓reduceIte]
    refine iff_of_false ?_ (not_lt.mpr large)
    rw [ExactFloat.isFinite_iff]
    rintro ⟨other, same⟩
    exact ExactFloat.infinite_ne_finite _ _ same
  · simp only [ExactFloat.toBinary32, large, ↓reduceIte]
    exact iff_of_true rfl (not_le.mp large)

/-- Too large for the type: for a float, what narrows to an infinity. -/
def CanDataType.OutOfRange : CanDataType → F64 → Prop
  | .float32, .finite value => 2 ^ 128 - 2 ^ 103 ≤ |value|
  | dataType, .finite value => ∃ low high, dataType.bounds? = some (low, high) ∧
      ¬ (low ≤ ExactFloat.roundAway value ∧ ExactFloat.roundAway value ≤ high)
  | _, _ => True

theorem outOfRange_iff {dataType : CanDataType} (integer : dataType ≠ .float32) (value : ℚ) :
    dataType.OutOfRange (.finite value) ↔ ∃ low high, dataType.bounds? = some (low, high) ∧
      ¬ (low ≤ ExactFloat.roundAway value ∧ ExactFloat.roundAway value ≤ high) := by
  cases dataType with
  | float32 => exact absurd rfl integer
  | _ => rfl

theorem jsonInteger_bounds {low high : ℤ} {number : JsonNumber} {bounded : BoundedInt low high}
    (converted : jsonValueToInteger low high (.number number) = .ok bounded) :
    ∃ integer : ℤ, number.exact = integer ∧ low ≤ integer ∧ integer ≤ high := by
  unfold jsonValueToInteger at converted
  obtain ⟨integer, isInteger, checked⟩ := Checks.bind_ok_iff.mp converted
  rw [orFail_ok_iff] at isInteger checked
  exact ⟨integer, JsonNumber.exact_of_asI64 isInteger, BoundedInt.exists_tryFrom.mp ⟨bounded, checked⟩⟩

theorem slope_of_finite_quotient {number slope : F64} {quotient : ℚ}
    (divided : number / slope = .finite quotient) : slope.beq (.finite 0) = false := by
  cases slope with
  | finite divisor =>
      by_contra zero
      obtain rfl : divisor = 0 := by simpa [ExactFloat.beq] using zero
      cases number with
      | finite value => exact ExactFloat.infinite_ne_finite _ _ divided
      | nan => cases divided
      | posInf => exact ExactFloat.infinite_div_ne_finite (Or.inl rfl) divided
      | negInf => exact ExactFloat.infinite_div_ne_finite (Or.inr rfl) divided
  | _ => rfl

namespace MappingEntry

def inverse (round : F64 → F64) (entry : MappingEntry) (mappedValue : F64) : F64 :=
  round (round (mappedValue - entry.value.offset) / entry.value.slope)

def rawValueFromMappedBy (round : F64 → F64) (entry : MappingEntry) (mappedValue : F64)
    (dataType : CanDataType) : Result CanDataValue := do
  require (mappedValue.isFinite = true) s!"mapped value for {entry.name} must be finite"
  require (entry.value.slope.beq (.finite 0) = false)
    s!"cannot invert mapping {entry.name} because slope is zero"
  canDataValueFromF64 (entry.inverse round mappedValue) dataType

theorem rawValueFromMappedBy_ok {round : F64 → F64} {entry : MappingEntry} {mappedValue : F64}
    {dataType : CanDataType} {raw : CanDataValue}
    (converted : entry.rawValueFromMappedBy round mappedValue dataType = .ok raw) :
    canDataValueFromF64 (entry.inverse round mappedValue) dataType = .ok raw := by
  simp only [rawValueFromMappedBy, Checks.bind_unit_ok_iff] at converted
  exact converted.2.2

/-- What is written to a parameter, as the number that is converted to the parameter's type: on a
mapped name, the one that the mapping gives back. -/
def sent (entry : MappingEntry) (fieldName : String) (number : JsonNumber) (value : F64)
    (dataType : CanDataType) : F64 :=
  if NodeManager.isMappedName fieldName then entry.inverse ExactFloat.toBinary64 value
  else if dataType = .float32 then value else .finite number.exact

def convertNumber (entry : MappingEntry) (fieldName : String) (number : JsonNumber) (value : F64)
    (dataType : CanDataType) : Result CanDataValue :=
  if NodeManager.isMappedName fieldName then
    entry.rawValueFromMappedBy ExactFloat.toBinary64 value dataType
  else jsonValueToCanDataValue (.number number) dataType

end MappingEntry

section Convert

variable {entry : MappingEntry} {fieldName : String} {number : JsonNumber} {value : ℚ} {raw : CanDataValue}

theorem convertNumber_float32_iff (known : number.asF64 = some (.finite value)) :
    entry.convertNumber fieldName number (.finite value) .float32 = .ok raw ↔
      ∃ sent, entry.sent fieldName number (.finite value) .float32 = .finite sent ∧
        raw = .float32 (ExactFloat.finite sent).toBinary32 := by
  unfold MappingEntry.convertNumber MappingEntry.sent
  cases mapped : NodeManager.isMappedName fieldName with
  | true =>
      simp only [↓reduceIte, MappingEntry.rawValueFromMappedBy, canDataValueFromF64,
        Checks.bind_unit_ok_iff, require_ok_iff, ExactFloat.isFinite_iff]
      constructor
      · rintro ⟨_, _, ⟨sent, finite⟩, converted⟩
        rw [finite] at converted
        exact ⟨sent, finite, (Except.ok.inj converted).symm⟩
      · rintro ⟨sent, finite, rfl⟩
        obtain ⟨quotient, divided⟩ := ExactFloat.finite_of_toBinary64 finite
        refine ⟨⟨value, rfl⟩, slope_of_finite_quotient divided, ⟨sent, finite⟩, ?_⟩
        rw [finite]
  | false =>
      simp only [Bool.false_eq_true, ↓reduceIte, jsonValueToCanDataValue, Checks.map_ok_iff,
        jsonValueToF64_number known, ExactFloat.finite.injEq]
      constructor
      · rintro ⟨sent, same, rfl⟩
        obtain rfl := Except.ok.inj same
        exact ⟨value, rfl, rfl⟩
      · rintro ⟨_, rfl, rfl⟩
        exact ⟨_, rfl, rfl⟩

theorem convertNumber_inRange {dataType : CanDataType} (integer : dataType ≠ .float32)
    (converted : entry.convertNumber fieldName number (.finite value) dataType = .ok raw) :
    ¬ dataType.OutOfRange (entry.sent fieldName number (.finite value) dataType) := by
  unfold MappingEntry.convertNumber at converted
  unfold MappingEntry.sent
  cases mapped : NodeManager.isMappedName fieldName with
  | true =>
      simp only [mapped, ↓reduceIte] at converted ⊢
      have accepted := MappingEntry.rawValueFromMappedBy_ok converted
      cases sent : entry.inverse ExactFloat.toBinary64 (.finite value) with
      | finite image =>
          rw [sent] at accepted
          have bounds := ((canDataValueFromF64_ok_iff image dataType).mp ⟨raw, accepted⟩).2
          rw [outOfRange_iff integer]
          rintro ⟨low, high, known, beyond⟩
          exact beyond (bounds low high known)
      | _ =>
          rw [sent] at accepted
          simp [canDataValueFromF64, Checks.bind_unit_ok_iff, ExactFloat.isFinite] at accepted
  | false =>
      simp only [mapped, Bool.false_eq_true, ↓reduceIte, integer] at converted ⊢
      have fits {low high : ℤ} {bounded : BoundedInt low high}
          (integer : jsonValueToInteger low high (.number number) = .ok bounded) :
          low ≤ ExactFloat.roundAway number.exact ∧ ExactFloat.roundAway number.exact ≤ high := by
        obtain ⟨integer, same, within⟩ := jsonInteger_bounds integer
        rwa [same, ExactFloat.roundAway_intCast]
      have inBounds : ∀ low high, dataType.bounds? = some (low, high) →
          low ≤ ExactFloat.roundAway number.exact ∧ ExactFloat.roundAway number.exact ≤ high := by
        intro low high known
        cases dataType <;> simp only [CanDataType.bounds?, reduceCtorEq, Option.some.injEq,
          Prod.mk.injEq] at known <;> obtain ⟨rfl, rfl⟩ := known <;>
          obtain ⟨bounded, read, _⟩ := Checks.map_ok_iff.mp converted <;> exact fits read
      rw [outOfRange_iff integer]
      rintro ⟨low, high, known, beyond⟩
      exact beyond (inBounds low high known)

theorem convertNumber_typed {number : JsonNumber} {value : F64} {dataType : CanDataType}
    (converted : entry.convertNumber fieldName number value dataType = .ok raw) :
    raw.dataType? = some dataType := by
  unfold MappingEntry.convertNumber at converted
  split at converted
  · exact canDataValueFromF64_typed (MappingEntry.rawValueFromMappedBy_ok converted)
  · exact jsonValueToCanDataValue_typed converted

end Convert

namespace NodeManager

def setValueBy (round : F64 → F64) (manager : NodeManager) (fieldName : String) (value : JsonValue) :
    Commanded :=
  if isMappedName fieldName then
    match jsonValueToF64 value with
    | .error failure => { result := .error failure }
    | .ok mappedValue =>
        manager.setResolved fieldName fun entry dataType => entry.rawValueFromMappedBy round mappedValue dataType
  else manager.setRawValue fieldName value

theorem setValueBy_id (manager : NodeManager) (fieldName : String) (value : JsonValue) :
    manager.setValueBy id fieldName value = manager.setValue fieldName value :=
  rfl

def setValue64 (manager : NodeManager) (fieldName : String) (value : JsonValue) : Commanded :=
  manager.setValueBy ExactFloat.toBinary64 fieldName value

theorem setValueBy_decided (round : F64 → F64) (manager : NodeManager) (fieldName : String) (value : JsonValue) :
    (manager.setValueBy round fieldName value).Decided (manager.WritesParameter fieldName) := by
  unfold setValueBy
  split
  · cases numeric : jsonValueToF64 value with
    | error failure => exact Commanded.decided_error (jsonValueToF64_neverPanics value) numeric
    | ok mappedValue =>
        exact manager.setResolved_decided fieldName _
          (fun entry dataType => (neverPanics_require _ _).bind fun _ => (neverPanics_require _ _).bind fun _ =>
            canDataValueFromF64_neverPanics _ dataType)
          (fun entry dataType raw converted =>
            canDataValueFromF64_typed (MappingEntry.rawValueFromMappedBy_ok converted))
  · exact manager.setResolved_decided fieldName _
      (fun entry dataType => jsonValueToCanDataValue_neverPanics value dataType)
      (fun entry dataType raw converted => jsonValueToCanDataValue_typed converted)

theorem setValue64_number (manager : NodeManager) (fieldName : String) {number : JsonNumber} {value : F64}
    (known : number.asF64 = some value) : manager.setValue64 fieldName (.number number) =
      manager.setResolved fieldName fun entry => entry.convertNumber fieldName number value := by
  unfold setValue64 setValueBy MappingEntry.convertNumber
  cases isMappedName fieldName with
  | true => simp only [↓reduceIte, jsonValueToF64_number known]
  | false => simp only [Bool.false_eq_true, ↓reduceIte, setRawValue]

/-- The type of the parameter that a JSON number is written to, and the number to convert. -/
def outgoing (manager : NodeManager) (fieldName : String) (number : JsonNumber) :
    Option (CanDataType × F64) :=
  match manager.resolveMappingByName fieldName, number.asF64 with
  | .ok (lookup, target), some value =>
      if lookup.mappingEntry.fieldType = .parameter then
        some (target.dataType, lookup.mappingEntry.sent fieldName number value target.dataType)
      else none
  | _, _ => none

section Outgoing

variable {manager : NodeManager} {fieldName : String} {number : JsonNumber}

theorem outgoing_eq_some_iff {dataType : CanDataType} {sent : F64} :
    manager.outgoing fieldName number = some (dataType, sent) ↔
      ∃ lookup target, ∃ value : ℚ, manager.resolveMappingByName fieldName = .ok (lookup, target) ∧
        number.asF64 = some (.finite value) ∧ lookup.mappingEntry.fieldType = .parameter ∧
        target.dataType = dataType ∧ lookup.mappingEntry.sent fieldName number (.finite value) dataType = sent := by
  unfold outgoing
  cases resolved : manager.resolveMappingByName fieldName with
  | error failure => simp
  | ok found =>
      obtain ⟨lookup, target⟩ := found
      obtain ⟨value, known⟩ := number.exists_asF64
      simp only [known, Option.ite_none_right_eq_some, Option.some.injEq, Prod.mk.injEq, Except.ok.injEq,
        ExactFloat.finite.injEq]
      constructor
      · rintro ⟨writable, rfl, same⟩
        exact ⟨lookup, target, _, ⟨rfl, rfl⟩, rfl, writable, rfl, same⟩
      · rintro ⟨_, _, _, ⟨rfl, rfl⟩, rfl, writable, rfl, same⟩
        exact ⟨writable, rfl, same⟩

theorem mem_setResolved_events {convert : MappingEntry → CanDataType → Result CanDataValue}
    {event : Event} (dispatched : event ∈ (manager.setResolved fieldName convert).events) :
    ∃ lookup target raw, manager.resolveMappingByName fieldName = .ok (lookup, target) ∧
      lookup.mappingEntry.fieldType = .parameter ∧
      convert lookup.mappingEntry target.dataType = .ok raw ∧
      event = .sendCanMessage target.nodeId (.parameterSetReq ⟨target.fieldId, raw⟩) := by
  unfold setResolved at dispatched
  cases resolved : manager.resolveMappingByName fieldName with
  | error failure =>
      rw [resolved] at dispatched
      cases dispatched
  | ok found =>
      obtain ⟨lookup, target⟩ := found
      simp only [resolved] at dispatched
      split at dispatched
      · cases dispatched
      · rename_i writable
        cases converted : convert lookup.mappingEntry target.dataType with
        | error failure =>
            rw [converted] at dispatched
            cases dispatched
        | ok raw =>
            rw [converted] at dispatched
            exact ⟨lookup, target, raw, rfl, not_not.mp writable, converted, List.mem_singleton.mp dispatched⟩

theorem float32_dispatched {value : ℚ}
    (goesOut : manager.outgoing fieldName number = some (.float32, .finite value)) :
    ∃ target, manager.setValue64 fieldName (.number number) =
      dispatchParameterSet target (.float32 (ExactFloat.finite value).toBinary32) := by
  obtain ⟨lookup, target, given, resolved, known, writable, typed, sent⟩ := outgoing_eq_some_iff.mp goesOut
  refine ⟨target, ?_⟩
  rw [setValue64_number manager fieldName known]
  apply setResolved_dispatches resolved writable
  rw [typed]
  exact (convertNumber_float32_iff known).mpr ⟨value, sent, rfl⟩

theorem float32_outgoing {nodeId parameterId : UInt8} {value : F32}
    (dispatched : .sendCanMessage nodeId (.parameterSetReq ⟨parameterId, .float32 value⟩) ∈
      (manager.setValue64 fieldName (.number number)).events) :
    ∃ sent, manager.outgoing fieldName number = some (.float32, .finite sent) ∧
      value = (ExactFloat.finite sent).toBinary32 := by
  obtain ⟨given, known⟩ := number.exists_asF64
  rw [setValue64_number manager fieldName known] at dispatched
  obtain ⟨lookup, target, raw, resolved, writable, converted, same⟩ := mem_setResolved_events dispatched
  obtain ⟨_, message⟩ := Event.sendCanMessage.inj same
  obtain ⟨_, isRaw⟩ := ParameterSetReqPayload.mk.inj (CanMessage.parameterSetReq.inj message)
  subst isRaw
  have typed : target.dataType = .float32 := (Option.some.inj (convertNumber_typed converted)).symm
  rw [typed] at converted
  obtain ⟨sent, finite, narrowed⟩ := (convertNumber_float32_iff known).mp converted
  exact ⟨sent, outgoing_eq_some_iff.mpr ⟨lookup, target, _, resolved, known, writable, typed, finite⟩,
    CanDataValue.float32.inj narrowed⟩

theorem outOfRange_refused {dataType : CanDataType} {sent : F64}
    (goesOut : manager.outgoing fieldName number = some (dataType, sent)) (outside : dataType.OutOfRange sent)
    (narrows : ∀ value, dataType = .float32 → sent ≠ .finite value) :
    (∃ chain, (manager.setValue64 fieldName (.number number)).result = .error (.error chain)) ∧
      (manager.setValue64 fieldName (.number number)).events = [] := by
  obtain ⟨lookup, target, given, resolved, known, _, typed, isSent⟩ := outgoing_eq_some_iff.mp goesOut
  cases manager.setValueBy_decided ExactFloat.toBinary64 fieldName (.number number) with
  | refused chain failed silent => exact ⟨⟨chain, failed⟩, silent⟩
  | accepted event succeeded _ _ =>
      change (manager.setValue64 fieldName (.number number)).result = .ok () at succeeded
      rw [setValue64_number manager fieldName known] at succeeded
      obtain ⟨_, _, again, _, raw, converted⟩ := (setResolved_ok_iff manager fieldName _).mp succeeded
      obtain ⟨rfl, rfl⟩ := Prod.mk.inj (Except.ok.inj (resolved.symm.trans again))
      rw [typed] at converted
      by_cases float : dataType = .float32
      · subst float
        obtain ⟨value, finite, _⟩ := (convertNumber_float32_iff known).mp converted
        exact (narrows value rfl (isSent.symm.trans finite)).elim
      · exact (convertNumber_inRange float converted (isSent ▸ outside)).elim

end Outgoing

/-- No infinity and no NaN goes out, and what is too large for the parameter's type is refused. -/
structure OnlyFinite (manager : NodeManager) (fieldName : String) (number : JsonNumber) : Prop where
  finite : ∀ nodeId parameterId value,
    .sendCanMessage nodeId (.parameterSetReq ⟨parameterId, .float32 value⟩) ∈
      (manager.setValue64 fieldName (.number number)).events → value.isFinite = true
  refused : ∀ dataType sent, manager.outgoing fieldName number = some (dataType, sent) →
    dataType.OutOfRange sent →
      (∃ chain, (manager.setValue64 fieldName (.number number)).result = .error (.error chain)) ∧
      (manager.setValue64 fieldName (.number number)).events = []

theorem commands_finite_iff (manager : NodeManager) (fieldName : String) (number : JsonNumber) :
    OnlyFinite manager fieldName number ↔
      ∀ value, manager.outgoing fieldName number = some (.float32, .finite value) →
        |value| < 2 ^ 128 - 2 ^ 103 := by
  constructor
  · intro only value goesOut
    by_contra large
    obtain ⟨_, silent⟩ := only.refused .float32 (.finite value) goesOut (not_lt.mp large)
    obtain ⟨target, dispatched⟩ := float32_dispatched goesOut
    rw [dispatched] at silent
    cases silent
  · intro small
    constructor
    · intro nodeId parameterId value dispatched
      obtain ⟨sent, goesOut, narrowed⟩ := float32_outgoing dispatched
      rw [narrowed]
      exact (toBinary32_isFinite_iff sent).mpr (small sent goesOut)
    · intro dataType sent goesOut outside
      refine outOfRange_refused goesOut outside ?_
      rintro value rfl rfl
      exact not_le.mpr (small value goesOut) outside

theorem infinite_command : pumpMapping.validate = .ok () ∧
    Transition.Run (Performs LiquidCan.littleEndian) (new pumpMapping) (setpointRun .float32)
      (setpointManager .float32) ∧
    ∀ fieldName ∈ ["setpoint", "pump:setpoint"],
      ¬ OnlyFinite (setpointManager .float32) fieldName (.float (10 ^ 39)) := by
  refine ⟨by decide, setpointRun_reaches .float32, ?_⟩
  intro fieldName either only
  have goesOut : ∀ fieldName ∈ ["setpoint", "pump:setpoint"],
      ((setpointManager .float32).outgoing fieldName (.float (10 ^ 39))).any
        (fun goesOut => goesOut.1 = .float32 && goesOut.2.isFinite && !goesOut.2.toBinary32.isFinite) = true := by
    decide +kernel
  obtain ⟨⟨dataType, sent⟩, known, large⟩ := (Option.any_eq_true _ _).mp (goesOut fieldName either)
  simp only [Bool.and_eq_true, decide_eq_true_eq, Bool.not_eq_true'] at large
  obtain ⟨⟨rfl, finite⟩, infinite⟩ := large
  obtain ⟨value, rfl⟩ := (ExactFloat.isFinite_iff sent).mp finite
  obtain ⟨target, dispatched⟩ := float32_dispatched known
  have kept := only.finite target.nodeId target.fieldId _ (by rw [dispatched]; exact List.mem_singleton_self _)
  rw [infinite] at kept
  cases kept

end NodeManager

end FerroFlow
