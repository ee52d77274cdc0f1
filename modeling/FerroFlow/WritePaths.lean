import FerroFlow.FieldReads
import FerroFlow.MappingNames
import FerroFlow.RawValues

/-! The two ways to write a parameter from a sequence: by its mapped name, through the inverse of
the mapping, and by its raw name, through the JSON value. -/

namespace FerroFlow

/-- The number is a value of the type, without rounding and without tolerance. -/
def CanDataType.HoldsExactly : CanDataType → ℚ → Prop
  | .float32, number => (ExactFloat.finite number).toBinary32 = .finite number
  | .boolean, number => number = 0 ∨ number = 1
  | dataType, number => ∃ integer : ℤ, number = integer ∧
      ∀ low high, dataType.bounds? = some (low, high) → low ≤ integer ∧ integer ≤ high

theorem nearInteger_intCast (integer : ℤ) : NearInteger integer := by
  simp [NearInteger]

theorem accepts_of_holdsExactly {dataType : CanDataType} {number : ℚ}
    (exact : dataType.HoldsExactly number) : dataType.Accepts number := by
  cases dataType with
  | float32 => exact ⟨trivial, by simp [CanDataType.bounds?]⟩
  | boolean =>
      refine ⟨?_, by simp [CanDataType.bounds?]⟩
      rcases exact with zero | one
      · subst zero
        exact Or.inl (by norm_num)
      · subst one
        exact Or.inr (by norm_num)
  | _ =>
      obtain ⟨integer, same, bounded⟩ := exact
      subst same
      refine ⟨nearInteger_intCast integer, ?_⟩
      intro low high bounds
      rw [ExactFloat.roundAway_intCast]
      exact bounded low high bounds

theorem rawValueFromMapped_identity {entry : MappingEntry} (slope : entry.value.slope = .finite 1)
    (offset : entry.value.offset = .finite 0) (number : ℚ) (dataType : CanDataType) :
    entry.rawValueFromMapped (.finite number) dataType = canDataValueFromF64 (.finite number) dataType := by
  have inverse : (ExactFloat.finite number - .finite 0) / .finite 1 = .finite number := by
    rw [ExactFloat.finite_sub_finite, ExactFloat.finite_div_finite _ one_ne_zero, sub_zero, div_one]
  have invertible : ExactFloat.beq (.finite 1) (.finite 0) = false := by decide
  simp only [MappingEntry.rawValueFromMapped, slope, offset, inverse, invertible]
  rfl

namespace NodeManager

variable {liquidCan : LiquidCan}

theorem setResolved_dispatches {manager : NodeManager} {fieldName : String}
    {convert : MappingEntry → CanDataType → Result CanDataValue} {lookup : MappingLookupResult}
    {target : ResolvedMappingTarget} {raw : CanDataValue}
    (resolved : manager.resolveMappingByName fieldName = .ok (lookup, target))
    (writable : lookup.mappingEntry.fieldType = .parameter)
    (converted : convert lookup.mappingEntry target.dataType = .ok raw) :
    manager.setResolved fieldName convert = dispatchParameterSet target raw := by
  simp only [setResolved, resolved, writable, ne_eq, not_true_eq_false, ↓reduceIte, converted]

/-- Writing the number under either name dispatches the same request. -/
def WritesAgree (manager : NodeManager) (left right : String) (number : ℚ) : Prop :=
  ∃ nodeId payload,
    (manager.setValue left (.ofF64 (.finite number))).events =
      [.sendCanMessage nodeId (.parameterSetReq payload)] ∧
    (manager.setValue right (.ofF64 (.finite number))).events =
      [.sendCanMessage nodeId (.parameterSetReq payload)]

variable {manager : NodeManager} {node : String} {field : MappingEntry} {target : ResolvedMappingTarget}

theorem resolve_both_names (valid : manager.mapping.validate = .ok ())
    (listed : (node, field) ∈ manager.mapping.fields) (plain : ':' ∉ node.toList)
    (registered : manager.resolveMappingTarget ⟨node, field⟩ = some target) :
    manager.resolveMappingByName field.name = .ok (⟨node, field⟩, target) ∧
    manager.resolveMappingByName (rawName node field.rawField) = .ok (⟨node, field⟩, target) :=
  ⟨resolveMappingByName_ok_iff.mpr ⟨lookupMapping_mappedName valid listed, registered⟩,
    resolveMappingByName_ok_iff.mpr ⟨(lookupMapping_rawName_iff valid listed).mpr plain, registered⟩⟩

theorem isMappedName_of_validate (valid : manager.mapping.validate = .ok ())
    (listed : (node, field) ∈ manager.mapping.fields) : isMappedName field.name = true := by
  obtain ⟨seen, accounted⟩ := Mapping.accounted_of_validate valid
  exact isMappedName_listed accounted listed

theorem writesAgree_iff (valid : manager.mapping.validate = .ok ())
    (listed : (node, field) ∈ manager.mapping.fields) (plain : ':' ∉ node.toList)
    (writable : field.fieldType = .parameter) (slope : field.value.slope = .finite 1)
    (offset : field.value.offset = .finite 0)
    (registered : manager.resolveMappingTarget ⟨node, field⟩ = some target) (number : ℚ) :
    manager.WritesAgree field.name (rawName node field.rawField) number ↔ target.dataType = .float32 := by
  obtain ⟨byName, byRawName⟩ := resolve_both_names valid listed plain registered
  constructor
  · rintro ⟨nodeId, payload, _, dispatched⟩
    have accepted : manager.AcceptsSetting (rawName node field.rawField) (.finite number) := by
      cases manager.setValue_decided (rawName node field.rawField) (.ofF64 (.finite number)) with
      | accepted event succeeded _ _ => exact succeeded
      | refused chain _ silent =>
          rw [silent] at dispatched
          cases dispatched
    obtain ⟨lookup, other, resolved, _, float⟩ :=
      (acceptsSetting_raw_iff (isMappedName_rawName node field.rawField) number).mp accepted
    have same := (Prod.mk.inj (Except.ok.inj (byRawName.symm.trans resolved))).2
    rw [same]
    exact float
  · intro float
    have mapped := isMappedName_of_validate valid listed
    have raw := isMappedName_rawName node field.rawField
    have numeric : jsonValueToF64 (.ofF64 (.finite number)) = .ok (.finite number) := rfl
    let value := CanDataValue.float32 (ExactFloat.finite number).toBinary32
    have throughMapping : manager.setValue field.name (.ofF64 (.finite number)) =
        dispatchParameterSet target value := by
      simp only [setValue, mapped, ↓reduceIte, numeric, setMappedValue]
      apply setResolved_dispatches byName writable
      rw [rawValueFromMapped_identity slope offset, float]
      rfl
    have throughJson : manager.setValue (rawName node field.rawField) (.ofF64 (.finite number)) =
        dispatchParameterSet target value := by
      simp only [setValue, raw, Bool.false_eq_true, ↓reduceIte, setRawValue]
      apply setResolved_dispatches byRawName writable
      rw [float]
      rfl
    refine ⟨target.nodeId, ⟨target.fieldId, value⟩, ?_, ?_⟩
    · rw [throughMapping]
      rfl
    · rw [throughJson]
      rfl

/-- The write by the mapped name is accepted for every value of the type. The write by the raw name
agrees with it for floating-point parameters and for no others. -/
theorem sequence_writes_agree_iff {mapping : Mapping} {operations : List Operation}
    (valid : mapping.validate = .ok ())
    (run : Transition.Run (Performs liquidCan) (new mapping) operations manager)
    (listed : (node, field) ∈ mapping.fields) (plain : ':' ∉ node.toList)
    (writable : field.fieldType = .parameter) (slope : field.value.slope = .finite 1)
    (offset : field.value.offset = .finite 0)
    (registered : manager.resolveMappingTarget ⟨node, field⟩ = some target) {number : ℚ}
    (exactly : target.dataType.HoldsExactly number) :
    (manager.WritesAgree field.name (rawName node field.rawField) number ↔
      target.dataType = .float32) ∧
    manager.AcceptsSetting field.name (.finite number) := by
  have same : manager.mapping = mapping := mapping_run liquidCan run
  rw [← same] at valid listed
  refine ⟨writesAgree_iff valid listed plain writable slope offset registered number, ?_⟩
  obtain ⟨byName, _⟩ := resolve_both_names valid listed plain registered
  rw [acceptsSetting_mapped_iff (isMappedName_of_validate valid listed)]
  refine ⟨_, target, byName, writable, ?_, number, ?_, accepts_of_holdsExactly exactly⟩
  · rw [slope]
    decide
  · rw [slope, offset, ExactFloat.finite_sub_finite, ExactFloat.finite_div_finite _ one_ne_zero,
      sub_zero, div_one]

def setpointRun (dataType : CanDataType) : List Operation := [
  .message 0 ⟨5, 0⟩ (.nodeInfoAnnouncement ⟨0, 1, 0, 0, "pump"⟩),
  .message 0 ⟨5, 0⟩ (.parameterRegistration ⟨8, dataType, "setpoint"⟩)]

def setpointManager (dataType : CanDataType) : NodeManager :=
  (new pumpMapping).replay LiquidCan.littleEndian (setpointRun dataType)

theorem setpointRun_reaches (dataType : CanDataType) :
    Transition.Run (Performs LiquidCan.littleEndian) (new pumpMapping) (setpointRun dataType)
      (setpointManager dataType) :=
  (run_iff_replay LiquidCan.littleEndian).mpr rfl

theorem setpoint_listed : ("pump", setpointEntry) ∈ pumpMapping.fields :=
  Mapping.mem_fields_iff.mpr
    ⟨[setpointEntry], Std.TreeMap.getElem?_insert_self, List.mem_singleton_self setpointEntry⟩

theorem sequence_writes_agree_setpoint :
    (setpointManager .float32).WritesAgree "setpoint" "pump:setpoint" 1 := by
  have valid : pumpMapping.validate = .ok () := by decide
  have registered : (setpointManager .float32).resolveMappingTarget ⟨"pump", setpointEntry⟩ =
      some ⟨5, 8, .float32⟩ := by decide
  have exactly : CanDataType.float32.HoldsExactly 1 := by
    change ExactFloat.toBinary32 (.finite 1) = .finite 1
    decide +kernel
  exact (sequence_writes_agree_iff valid (setpointRun_reaches .float32) setpoint_listed (by decide) rfl rfl
    rfl registered exactly).1.mpr rfl

theorem integer_setpoint_writes_differ :
    ¬ ∀ (mapping : Mapping) (operations : List Operation) (manager : NodeManager) (node : String)
        (field : MappingEntry) (target : ResolvedMappingTarget) (number : ℚ),
      mapping.validate = .ok () →
      Transition.Run (Performs LiquidCan.littleEndian) (new mapping) operations manager →
      (node, field) ∈ mapping.fields → ':' ∉ node.toList → field.fieldType = .parameter →
      field.value.slope = .finite 1 → field.value.offset = .finite 0 →
      manager.resolveMappingTarget ⟨node, field⟩ = some target → target.dataType.HoldsExactly number →
      manager.WritesAgree field.name (rawName node field.rawField) number := by
  intro claim
  have valid : pumpMapping.validate = .ok () := by decide
  have registered : (setpointManager .uint8).resolveMappingTarget ⟨"pump", setpointEntry⟩ =
      some ⟨5, 8, .uint8⟩ := by decide
  have exactly : CanDataType.uint8.HoldsExactly 1 := by
    refine ⟨1, by norm_num, ?_⟩
    intro low high bounds
    obtain ⟨sameLow, sameHigh⟩ := Prod.mk.inj (Option.some.inj bounds)
    omega
  obtain ⟨nodeId, payload, _, dispatched⟩ := claim pumpMapping _ _ "pump" setpointEntry _ 1 valid
    (setpointRun_reaches .uint8) setpoint_listed (by decide) rfl rfl rfl registered exactly
  have silent : ((setpointManager .uint8).setValue "pump:setpoint" (.ofF64 (.finite 1))).events = [] := by
    decide
  have impossible := silent.symm.trans dispatched
  cases impossible

end NodeManager

end FerroFlow
