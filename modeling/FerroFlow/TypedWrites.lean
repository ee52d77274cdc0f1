import FerroFlow.NodeValues
import Mathlib.Data.List.TakeWhile

/-! Writes: a value that is accepted leaves as exactly one request, addressed to a registered
parameter and of its type; a value that is not accepted leaves nothing. -/

namespace FerroFlow

theorem canDataValueFromF64_typed {value : F64} {dataType : CanDataType} {raw : CanDataValue}
    (converted : canDataValueFromF64 value dataType = .ok raw) : raw.dataType? = some dataType := by
  unfold canDataValueFromF64 at converted
  obtain ⟨_, _, converted⟩ := Checks.bind_ok_iff.mp converted
  cases dataType with
  | float32 =>
      cases converted
      rfl
  | boolean =>
      simp only at converted
      split at converted
      · cases converted
        rfl
      · split at converted
        · cases converted
          rfl
        · cases converted
  | _ =>
      obtain ⟨integer, _, rfl⟩ := Checks.map_ok_iff.mp converted
      rfl

theorem rawValueFromMapped_typed {entry : MappingEntry} {mappedValue : F64} {dataType : CanDataType}
    {raw : CanDataValue} (converted : entry.rawValueFromMapped mappedValue dataType = .ok raw) :
    raw.dataType? = some dataType := by
  unfold MappingEntry.rawValueFromMapped at converted
  obtain ⟨_, _, afterFinite⟩ := Checks.bind_ok_iff.mp converted
  obtain ⟨_, _, afterSlope⟩ := Checks.bind_ok_iff.mp afterFinite
  exact canDataValueFromF64_typed afterSlope

theorem jsonValueToCanDataValue_typed {value : JsonValue} {dataType : CanDataType} {raw : CanDataValue}
    (converted : jsonValueToCanDataValue value dataType = .ok raw) : raw.dataType? = some dataType := by
  cases dataType <;>
  · obtain ⟨part, _, rfl⟩ := Checks.map_ok_iff.mp converted
    rfl

theorem checkedInteger_neverPanics (low high : ℤ) (value : F64) :
    NeverPanics (checkedInteger low high value) :=
  (neverPanics_require _ _).bind fun _ => neverPanics_orFail _ _

theorem canDataValueFromF64_neverPanics (value : F64) (dataType : CanDataType) :
    NeverPanics (canDataValueFromF64 value dataType) := by
  refine (neverPanics_require _ _).bind fun _ => ?_
  cases dataType with
  | float32 => exact neverPanics_ok _
  | boolean =>
      simp only
      split
      · exact neverPanics_ok _
      · split
        · exact neverPanics_ok _
        · exact neverPanics_bail _
  | _ => exact (checkedInteger_neverPanics _ _ value).map _

theorem rawValueFromMapped_neverPanics (entry : MappingEntry) (mappedValue : F64)
    (dataType : CanDataType) : NeverPanics (entry.rawValueFromMapped mappedValue dataType) :=
  (neverPanics_require _ _).bind fun _ => (neverPanics_require _ _).bind fun _ =>
    canDataValueFromF64_neverPanics _ dataType

theorem jsonValueToF64_neverPanics (value : JsonValue) : NeverPanics (jsonValueToF64 value) := by
  cases value with
  | number num => exact neverPanics_orFail _ _
  | bool flag => exact neverPanics_ok _
  | _ => exact neverPanics_bail _

theorem jsonValueToInteger_neverPanics (low high : ℤ) (value : JsonValue) :
    NeverPanics (jsonValueToInteger low high value) := by
  unfold jsonValueToInteger
  cases value with
  | number num => exact (neverPanics_orFail _ _).bind fun _ => neverPanics_orFail _ _
  | bool flag => exact (neverPanics_ok _).bind fun _ => neverPanics_orFail _ _
  | _ => exact (neverPanics_bail _).bind fun _ => neverPanics_orFail _ _

theorem jsonValueAsBool_neverPanics (value : JsonValue) : NeverPanics (jsonValueAsBool value) := by
  cases value with
  | number num => exact (neverPanics_orFail _ _).map _
  | bool flag => exact neverPanics_ok _
  | _ => exact neverPanics_bail _

theorem jsonValueToCanDataValue_neverPanics (value : JsonValue) (dataType : CanDataType) :
    NeverPanics (jsonValueToCanDataValue value dataType) := by
  cases dataType with
  | float32 => exact (jsonValueToF64_neverPanics value).map _
  | boolean => exact (jsonValueAsBool_neverPanics value).map _
  | _ => exact (jsonValueToInteger_neverPanics _ _ value).map _

theorem splitOnce_of_mem {separator : Char} {text : String} (member : separator ∈ text.toList) :
    ∃ parts, splitOnce separator text = some parts := by
  unfold splitOnce
  rw [List.span_eq_takeWhile_dropWhile]
  cases rest : text.toList.dropWhile fun char => decide (char ≠ separator) with
  | nil =>
      have absent := List.dropWhile_eq_nil_iff.mp rest separator member
      simp at absent
  | cons first after => exact ⟨_, rfl⟩

namespace NodeManager

theorem lookupMapping_neverPanics (manager : NodeManager) (fieldName : String) :
    NeverPanics (manager.lookupMapping fieldName) := by
  unfold lookupMapping
  by_cases mapped : isMappedName fieldName = true
  · simp only [mapped, ↓reduceIte]
    exact neverPanics_orFail _ _
  · simp only [mapped, ↓reduceIte, Bool.false_eq_true]
    have colon : ':' ∈ fieldName.toList := by simpa [isMappedName] using mapped
    obtain ⟨parts, found⟩ := splitOnce_of_mem colon
    simp only [found]
    exact neverPanics_orFail _ _

theorem resolveMappingByName_neverPanics (manager : NodeManager) (fieldName : String) :
    NeverPanics (manager.resolveMappingByName fieldName) :=
  (manager.lookupMapping_neverPanics fieldName).bind fun _ =>
    (neverPanics_orFail _ _).bind fun _ => neverPanics_ok _

theorem resolveMappingTarget_eq_some {manager : NodeManager} {lookup : MappingLookupResult}
    {target : ResolvedMappingTarget} (found : manager.resolveMappingTarget lookup = some target) :
    ∃ node info, manager.canNodes.lookup target.nodeId = some node ∧
      node.registrationInfo.deviceName = lookup.nodeName ∧
      (mappedFields node lookup.mappingEntry.fieldType).lookup target.fieldId = some info ∧
      info.name = lookup.mappingEntry.rawField ∧ info.dataType = target.dataType := by
  obtain ⟨⟨nodeId, node⟩, present, resolved⟩ := List.exists_of_findSome?_eq_some found
  have registered := (KeyedMap.mem_toPairs_iff _ _ _).mp present
  by_cases sameName : node.registrationInfo.deviceName = lookup.nodeName
  · simp only [sameName, ne_eq, not_true_eq_false, ↓reduceIte, Option.map_eq_some_iff] at resolved
    obtain ⟨⟨fieldId, info⟩, matching, rfl⟩ := resolved
    have member := List.mem_of_find?_eq_some matching
    have named := List.find?_some matching
    exact ⟨node, info, registered, sameName, (KeyedMap.mem_toPairs_iff _ _ _).mp member,
      by simpa using named, rfl⟩
  · simp [sameName] at resolved

theorem resolveMappingByName_ok_iff {manager : NodeManager} {fieldName : String}
    {lookup : MappingLookupResult} {target : ResolvedMappingTarget} :
    manager.resolveMappingByName fieldName = .ok (lookup, target) ↔
      manager.lookupMapping fieldName = .ok lookup ∧ manager.resolveMappingTarget lookup = some target := by
  unfold resolveMappingByName
  simp only [Checks.bind_ok_iff, orFail_ok_iff, Except.ok.injEq, Prod.mk.injEq]
  constructor
  · rintro ⟨_, found, _, resolved, rfl, rfl⟩
    exact ⟨found, resolved⟩
  · rintro ⟨found, resolved⟩
    exact ⟨_, found, _, resolved, rfl, rfl⟩

end NodeManager

inductive Commanded.Decided (commanded : Commanded) (allowed : Event → Prop) : Prop
  | accepted (event) : commanded.result = .ok () → commanded.events = [event] → allowed event →
      Commanded.Decided commanded allowed
  | refused (chain) : commanded.result = .error (.error chain) → commanded.events = [] →
      Commanded.Decided commanded allowed

theorem Commanded.decided_error {allowed : Event → Prop} {α : Type} {failed : Result α}
    {failure : Failure} (safe : NeverPanics failed) (fails : failed = .error failure) :
    Commanded.Decided { result := .error failure } allowed := by
  cases failure with
  | error chain => exact .refused chain rfl rfl
  | panic reason => exact (safe reason fails).elim

namespace NodeManager

def WritesParameter (manager : NodeManager) (fieldName : String) (event : Event) : Prop :=
  ∃ lookup nodeId node parameterId info value,
    manager.lookupMapping fieldName = .ok lookup ∧
    event = .sendCanMessage nodeId (.parameterSetReq { parameterId, value }) ∧
    manager.canNodes.lookup nodeId = some node ∧
    node.registrationInfo.deviceName = lookup.nodeName ∧
    node.parameterFields.lookup parameterId = some info ∧
    info.name = lookup.mappingEntry.rawField ∧
    value.dataType? = some info.dataType

theorem setResolved_decided (manager : NodeManager) (fieldName : String)
    (convert : MappingEntry → CanDataType → Result CanDataValue)
    (convertSafe : ∀ entry dataType, NeverPanics (convert entry dataType))
    (convertTyped : ∀ entry dataType raw, convert entry dataType = .ok raw →
      raw.dataType? = some dataType) :
    (manager.setResolved fieldName convert).Decided (manager.WritesParameter fieldName) := by
  unfold setResolved
  cases resolved : manager.resolveMappingByName fieldName with
  | error failure =>
      exact Commanded.decided_error (manager.resolveMappingByName_neverPanics fieldName) resolved
  | ok found =>
      obtain ⟨lookup, target⟩ := found
      simp only
      split
      · exact .refused _ rfl rfl
      · rename_i writable
        cases converted : convert lookup.mappingEntry target.dataType with
        | error failure =>
            exact Commanded.decided_error (convertSafe lookup.mappingEntry target.dataType) converted
        | ok raw =>
            obtain ⟨mapped, targeted⟩ := resolveMappingByName_ok_iff.mp resolved
            obtain ⟨node, info, registered, device, field, named, typed⟩ :=
              resolveMappingTarget_eq_some targeted
            rw [not_not.mp writable] at field
            have rawTyped := convertTyped _ _ _ converted
            rw [← typed] at rawTyped
            exact .accepted _ rfl rfl ⟨lookup, target.nodeId, node, target.fieldId, info, raw, mapped, rfl,
              registered, device, field, named, rawTyped⟩

theorem setValue_decided (manager : NodeManager) (fieldName : String) (value : JsonValue) :
    (manager.setValue fieldName value).Decided (manager.WritesParameter fieldName) := by
  unfold setValue
  split
  · cases numeric : jsonValueToF64 value with
    | error failure => exact Commanded.decided_error (jsonValueToF64_neverPanics value) numeric
    | ok mappedValue =>
        exact manager.setResolved_decided fieldName _
          (fun entry dataType => rawValueFromMapped_neverPanics entry mappedValue dataType)
          (fun entry dataType raw converted => rawValueFromMapped_typed converted)
  · exact manager.setResolved_decided fieldName _
      (fun entry dataType => jsonValueToCanDataValue_neverPanics value dataType)
      (fun entry dataType raw converted => jsonValueToCanDataValue_typed converted)

/-- A write succeeds exactly when it dispatches one event and fails exactly when it dispatches
none; the event sets the parameter that is meant, with a value of its type. -/
theorem setValue_typed_and_directed (manager : NodeManager) (fieldName : String) (value : JsonValue) :
    ((manager.setValue fieldName value).result = .ok () ↔
      ∃ event, (manager.setValue fieldName value).events = [event]) ∧
    ((∃ chain, (manager.setValue fieldName value).result = .error (.error chain)) ↔
      (manager.setValue fieldName value).events = []) ∧
    ∀ event ∈ (manager.setValue fieldName value).events, manager.WritesParameter fieldName event := by
  cases manager.setValue_decided fieldName value with
  | accepted event succeeded dispatched allowed =>
      rw [succeeded, dispatched]
      refine ⟨iff_of_true rfl ⟨event, rfl⟩, iff_of_false ?_ (List.cons_ne_nil _ _), ?_⟩
      · rintro ⟨chain, impossible⟩
        cases impossible
      · intro other member
        rw [List.mem_singleton.mp member]
        exact allowed
  | refused chain failed silent =>
      rw [failed, silent]
      refine ⟨iff_of_false ?_ ?_, iff_of_true ⟨chain, rfl⟩ rfl, ?_⟩
      · intro impossible
        cases impossible
      · rintro ⟨event, impossible⟩
        cases impossible
      · intro event member
        cases member

end NodeManager

end FerroFlow
