import FerroFlow.TypedWrites
import FerroFlow.ValueCache

/-! Reads by name: when the value that is read is one of the field that was named. -/

namespace FerroFlow

namespace NodeManager

variable {liquidCan : LiquidCan}

theorem tryGetRawValue_ok_iff {manager : NodeManager} {fieldName : String} {lookup : MappingLookupResult}
    {target : ResolvedMappingTarget} {node : CanNode} {value : CanDataValue}
    (resolved : manager.resolveMappingByName fieldName = .ok (lookup, target))
    (registered : manager.canNodes.lookup target.nodeId = some node) :
    manager.tryGetRawValue fieldName = .ok (some value) ↔
      ∃ timestamp, node.values.lookup target.fieldId = some (timestamp, value) := by
  have latest : manager.latestRawValue target =
      (node.values.lookup target.fieldId).map fun value => value.2 := by
    simp only [latestRawValue, registered, Option.bind_some]
  have read : manager.tryGetRawValue fieldName =
      .ok ((node.values.lookup target.fieldId).map fun value => value.2) := by
    simp only [tryGetRawValue, resolved]
    exact congrArg Except.ok latest
  rw [read, Except.ok.injEq, Option.map_eq_some_iff]
  constructor
  · rintro ⟨⟨timestamp, cached⟩, found, same⟩
    simp only at same
    subst same
    exact ⟨timestamp, found⟩
  · rintro ⟨timestamp, found⟩
    exact ⟨(timestamp, value), found, rfl⟩

theorem ReceivedFor.unique {mapping : Mapping} {past : List Operation} {nodeId : UInt8} {node : CanNode}
    {kind named : FieldType} {id : UInt8} {fieldInfo other : FieldInfo} {value : CanDataValue}
    (received : ReceivedFor liquidCan mapping nodeId node.definition past kind id other value)
    (defined : (mappedFields node named).lookup id = some fieldInfo)
    (apart : named = .parameter → node.telemetryFields.lookup id = none) :
    kind = named ∧ other = fieldInfo := by
  obtain ⟨otherDefined, alone⟩ := received.defined
  have sameKind : kind = named := by
    cases named with
    | telemetry =>
        cases kind with
        | telemetry => rfl
        | parameter => exact (Option.some_ne_none _ (defined.symm.trans (alone rfl))).elim
    | parameter =>
        cases kind with
        | telemetry => exact (Option.some_ne_none _ (otherDefined.symm.trans (apart rfl))).elim
        | parameter => rfl
  subst sameKind
  exact ⟨rfl, Option.some.inj (otherDefined.symm.trans defined)⟩

/-- What is read through a name was received for the field it names, unless that is a parameter and
the node has a telemetry field with the same id; then it was received for the telemetry field. -/
theorem read_returns_named_field {mapping : Mapping} {operations : List Operation}
    {manager : NodeManager} (lawful : liquidCan.Lawful)
    (run : Transition.Run (Performs liquidCan) (new mapping) operations manager)
    {fieldName : String} {lookup : MappingLookupResult} {target : ResolvedMappingTarget}
    {value : CanDataValue}
    (resolved : manager.resolveMappingByName fieldName = .ok (lookup, target))
    (read : manager.tryGetRawValue fieldName = .ok (some value)) :
    ∃ node fieldInfo, manager.canNodes.lookup target.nodeId = some node ∧
      (mappedFields node lookup.mappingEntry.fieldType).lookup target.fieldId = some fieldInfo ∧
      fieldInfo.name = lookup.mappingEntry.rawField ∧ fieldInfo.dataType = target.dataType ∧
      ((lookup.mappingEntry.fieldType = .parameter → node.telemetryFields.lookup target.fieldId = none) →
        value.dataType? = some target.dataType ∧
        ReceivedFor liquidCan mapping target.nodeId node.definition operations
          lookup.mappingEntry.fieldType target.fieldId fieldInfo value ∧
        ∀ kind other otherValue, ReceivedFor liquidCan mapping target.nodeId node.definition operations
          kind target.fieldId other otherValue → kind = lookup.mappingEntry.fieldType ∧ other = fieldInfo) ∧
      ∀ telemetryInfo, lookup.mappingEntry.fieldType = .parameter →
        node.telemetryFields.lookup target.fieldId = some telemetryInfo →
        value.dataType? = some telemetryInfo.dataType ∧
        ReceivedFor liquidCan mapping target.nodeId node.definition operations .telemetry
          target.fieldId telemetryInfo value := by
  obtain ⟨_, found⟩ := resolveMappingByName_ok_iff.mp resolved
  obtain ⟨node, fieldInfo, registered, _, defined, named, typed⟩ := resolveMappingTarget_eq_some found
  obtain ⟨timestamp, cached⟩ := (tryGetRawValue_ok_iff resolved registered).mp read
  obtain ⟨kind, receivedInfo, received⟩ := received_run run registered cached
  refine ⟨node, fieldInfo, registered, defined, named, typed, ?_, ?_⟩
  · intro apart
    obtain ⟨sameKind, sameInfo⟩ := received.unique defined apart
    subst sameKind
    subst sameInfo
    refine ⟨?_, received, ?_⟩
    · rw [← typed]
      exact received.typed lawful
    · intro kind other otherValue otherReceived
      exact otherReceived.unique defined apart
  · intro telemetryInfo _ shared
    have telemetry : (mappedFields node .telemetry).lookup target.fieldId = some telemetryInfo := shared
    obtain ⟨sameKind, sameInfo⟩ := received.unique telemetry (by simp)
    subst sameKind
    subst sameInfo
    exact ⟨received.typed lawful, received⟩

def pumpOperations (telemetryId parameterId : UInt8) : List Operation := [
  .message 0 ⟨5, 0⟩ (.nodeInfoAnnouncement ⟨1, 1, 0, 0, "pump"⟩),
  .message 0 ⟨5, 0⟩ (.telemetryValueRegistration ⟨telemetryId, .uint16, "pressure"⟩),
  .message 0 ⟨5, 0⟩ (.parameterRegistration ⟨parameterId, .uint8, "setpoint"⟩),
  .message 0 ⟨5, 0⟩ (.telemetryGroupDefinition ⟨1, [telemetryId]⟩),
  .message 1 ⟨5, 0⟩ (.telemetryGroupUpdate ⟨1, ⟨[0x34, 0x12]⟩⟩),
  .message 2 ⟨5, 0⟩ (.fieldGetRes ⟨parameterId, .raw [9]⟩)]

def setpointEntry : MappingEntry where
  name := "setpoint"
  fieldType := .parameter
  rawField := "setpoint"

def pumpMapping : Mapping where
  mapping := (∅ : Std.TreeMap String (List MappingEntry)).insert "pump" [setpointEntry]

def pumpManager (telemetryId parameterId : UInt8) : NodeManager :=
  (new pumpMapping).replay LiquidCan.littleEndian (pumpOperations telemetryId parameterId)

theorem pumpManager_run (telemetryId parameterId : UInt8) :
    Transition.Run (Performs LiquidCan.littleEndian) (new pumpMapping)
      (pumpOperations telemetryId parameterId) (pumpManager telemetryId parameterId) :=
  (run_iff_replay LiquidCan.littleEndian).mpr rfl

theorem read_returns_named_field_pump : ∃ lookup target value,
    (pumpManager 7 8).resolveMappingByName "setpoint" = .ok (lookup, target) ∧
    lookup.mappingEntry.fieldType = .parameter ∧
    (pumpManager 7 8).tryGetRawValue "setpoint" = .ok (some value) ∧
    value.dataType? = some target.dataType := by
  have resolves : ((pumpManager 7 8).resolveMappingByName "setpoint").toOption.map (fun pair =>
      (pair.2, pair.1.mappingEntry.fieldType)) = some (⟨5, 8, .uint8⟩, .parameter) := by decide
  have reads : ((pumpManager 7 8).tryGetRawValue "setpoint").toOption =
      some (some (.uint8 ⟨9, by decide⟩)) := by decide
  have apart : ((pumpManager 7 8).canNodes.lookup 5).map (fun node => node.telemetryFields.lookup 8) =
      some none := by decide
  obtain ⟨⟨lookup, target⟩, found, outcome⟩ := Option.map_eq_some_iff.mp resolves
  obtain ⟨targetEq, kind⟩ := Prod.mk.inj outcome
  simp only at targetEq kind
  subst targetEq
  have read := ok_of_toOption reads
  obtain ⟨node, fieldInfo, registered, _, _, _, whenApart, _⟩ := read_returns_named_field
    LiquidCan.littleEndian_lawful (pumpManager_run 7 8) (ok_of_toOption found) read
  refine ⟨lookup, ⟨5, 8, .uint8⟩, _, ok_of_toOption found, kind, read, (whenApart ?_).1⟩
  intro _
  rw [registered] at apart
  exact Option.some.inj apart

theorem shared_id_reads_telemetry :
    ¬ ∀ (mapping : Mapping) (operations : List Operation) (manager : NodeManager) (fieldName : String)
        (lookup : MappingLookupResult) (target : ResolvedMappingTarget) (value : CanDataValue),
      mapping.validate = .ok () →
      Transition.Run (Performs LiquidCan.littleEndian) (new mapping) operations manager →
      manager.resolveMappingByName fieldName = .ok (lookup, target) →
      manager.tryGetRawValue fieldName = .ok (some value) →
      value.dataType? = some target.dataType := by
  intro claim
  have valid : pumpMapping.validate = .ok () := by decide
  have resolves : ((pumpManager 7 7).resolveMappingByName "setpoint").toOption.map (fun pair => pair.2) =
      some ⟨5, 7, .uint8⟩ := by decide
  have reads : ((pumpManager 7 7).tryGetRawValue "setpoint").toOption =
      some (some (.uint16 ⟨0x1234, by decide⟩)) := by decide
  obtain ⟨⟨lookup, target⟩, found, targetEq⟩ := Option.map_eq_some_iff.mp resolves
  have typed := claim _ _ _ _ lookup target _ valid (pumpManager_run 7 7) (ok_of_toOption found)
    (ok_of_toOption reads)
  simp only at targetEq
  rw [targetEq] at typed
  cases typed

end NodeManager

end FerroFlow
