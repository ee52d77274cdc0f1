import FerroFlow.FieldReads

/-! The log of field updates against the cache: replaying what was dispatched for a node gives the
values that are cached for it. -/

namespace FerroFlow

theorem u8AsI16_inj {left right : UInt8} : u8AsI16 left = u8AsI16 right ↔ left = right := by
  constructor
  · intro same
    have values : (left.toNat : ℤ) = right.toNat := congrArg Subtype.val same
    exact UInt8.toNat_inj.mp (by exact_mod_cast values)
  · intro same
    rw [same]

namespace NodeManager

def fieldLog? (nodeId : UInt8) : Event → Option FieldLog
  | .nodeFieldUpdated log => if log.nodeId = u8AsI16 nodeId then some log else none
  | _ => none

def replayLogs (logs : List FieldLog) : HashMap I16 (DateTime × JsonValue) :=
  logs.foldl (fun map log => map.insert log.fieldId (log.timestamp, log.fieldValue)) ∅

theorem replayLogs_append (logs : List FieldLog) (log : FieldLog) :
    replayLogs (logs ++ [log]) =
      (replayLogs logs).insert log.fieldId (log.timestamp, log.fieldValue) := by
  simp only [replayLogs, List.foldl_append, List.foldl_cons, List.foldl_nil]

def Operation.places (manager : NodeManager) (nodeId : UInt8) (operation : Operation) : Bool :=
  match operation.seenBy nodeId with
  | some input => (manager.slot nodeId).places input
  | none => false

def watchLogs (liquidCan : LiquidCan) (nodeId : UInt8) (before : NodeManager) (operation : Operation)
    (_after : NodeManager) (logs : List FieldLog) : List FieldLog :=
  let dispatched := (before.perform liquidCan operation).events.filterMap (fieldLog? nodeId)
  if operation.places before nodeId then dispatched else logs ++ dispatched

def Names (nodeId : UInt8) (node : CanNode) (log : FieldLog) : Prop :=
  log.nodeId = u8AsI16 nodeId ∧ ∃ id fieldInfo, log.fieldId = u8AsI16 id ∧ log.fieldName = fieldInfo.name ∧
    (node.telemetryFields.lookup id = some fieldInfo ∨ node.parameterFields.lookup id = some fieldInfo)

structure Mirrors (nodeId : UInt8) (node : CanNode) (logs : List FieldLog) : Prop where
  cached : ∀ id, (replayLogs logs).lookup (u8AsI16 id) =
    (node.values.lookup id).map fun value => (value.1, canDataValueToJson value.2)
  others : ∀ key, (∀ id, key ≠ u8AsI16 id) → (replayLogs logs).lookup key = none
  named : ∀ log ∈ logs, Names nodeId node log

theorem Names.of_definition_eq {nodeId : UInt8} {node after : CanNode} {log : FieldLog}
    (names : Names nodeId node log) (same : after.definition = node.definition) :
    Names nodeId after log := by
  obtain ⟨info, telemetry, parameters, groups⟩ := CanNode.Definition.mk.inj same
  obtain ⟨byId, id, fieldInfo, field, name, defined⟩ := names
  refine ⟨byId, id, fieldInfo, field, name, ?_⟩
  rw [telemetry, parameters]
  exact defined

theorem mirrors_nothing (nodeId : UInt8) {node : CanNode} (empty : node.values = ∅) :
    Mirrors nodeId node [] := by
  constructor
  · intro id
    rw [empty]
    rfl
  · intro key _
    rfl
  · intro log member
    cases member

theorem Mirrors.of_values_eq {nodeId : UInt8} {node after : CanNode} {logs : List FieldLog}
    (mirrors : Mirrors nodeId node logs) (definition : after.definition = node.definition)
    (values : after.values = node.values) : Mirrors nodeId after logs := by
  constructor
  · rw [values]
    exact mirrors.cached
  · exact mirrors.others
  · intro log member
    exact (mirrors.named log member).of_definition_eq definition

theorem Mirrors.store {nodeId : UInt8} {node : CanNode} {logs : List FieldLog} {timestamp : DateTime}
    {rows : List ((UInt8 × FieldInfo) × CanDataValue)} (mirrors : Mirrors nodeId node logs)
    (defined : ∀ row ∈ rows, node.telemetryFields.lookup row.1.1 = some row.1.2 ∨
      node.parameterFields.lookup row.1.1 = some row.1.2) :
    Mirrors nodeId (node.cacheAll timestamp rows)
      (logs ++ rows.map fun row => telemetryLog timestamp nodeId row.1.1 row.1.2 row.2) := by
  induction rows using List.reverseRecOn with
  | nil =>
      rw [List.map_nil, List.append_nil]
      exact mirrors
  | append_singleton rows row ih =>
      have before := ih fun earlier member => defined earlier (List.mem_append_left [row] member)
      rw [List.map_append, List.map_singleton, ← List.append_assoc]
      constructor
      · intro id
        rw [replayLogs_append, KeyedMap.lookup_insert_eq, CanNode.cacheAll_append,
          KeyedMap.lookup_insert_eq]
        by_cases last : id = row.1.1
        · subst last
          simp only [telemetryLog, ↓reduceIte, Option.map_some]
        · have apart : u8AsI16 id ≠ u8AsI16 row.1.1 := fun same => last (u8AsI16_inj.mp same)
          simp only [telemetryLog, apart, last, ↓reduceIte]
          exact before.cached id
      · intro key outside
        rw [replayLogs_append, KeyedMap.lookup_insert_eq]
        have apart : key ≠ u8AsI16 row.1.1 := outside row.1.1
        simp only [telemetryLog, apart, ↓reduceIte]
        exact before.others key outside
      · intro log member
        rcases List.mem_append.mp member with earlier | now
        · exact (before.named log earlier).of_definition_eq rfl
        · have same := List.mem_singleton.mp now
          subst same
          exact ⟨rfl, row.1.1, row.1.2, rfl, rfl,
            defined row (List.mem_append_right rows (List.mem_singleton_self row))⟩

variable (liquidCan : LiquidCan)

theorem perform_logs (manager : NodeManager) (operation : Operation) (nodeId : UInt8) :
    (manager.perform liquidCan operation).events.filterMap (fieldLog? nodeId) =
      match operation.seenBy nodeId with
      | some input => ((manager.slot nodeId).dispatched liquidCan nodeId input).filterMap (fieldLog? nodeId)
      | none => [] := by
  cases operation with
  | heartbeat timestamp =>
      change ((manager.dispatchHeartbeatRequests timestamp).events.filterMap (fieldLog? nodeId)) = []
      rw [List.filterMap_eq_nil_iff]
      intro event member
      obtain ⟨entry, _, same⟩ := List.mem_map.mp member
      rw [← same]
      rfl
  | message timestamp canMsgId message =>
      have confined := confined_handle liquidCan manager timestamp canMsgId message
      change (manager.handleCanMessageFromNode liquidCan timestamp canMsgId message).events.filterMap
        (fieldLog? nodeId) = _
      rw [confined.events]
      by_cases sender : canMsgId.senderId = nodeId
      · subst sender
        simp only [Operation.seenBy, ↓reduceIte, NodeSlot.dispatched]
      · simp only [Operation.seenBy, sender, ↓reduceIte, List.filterMap_eq_nil_iff]
        intro event member
        rcases (manager.slot canMsgId.senderId).handle_events liquidCan canMsgId.senderId timestamp message with
          silent | ⟨node, rows, _, _, events⟩
        · rw [silent] at member
          cases member
        · rw [events] at member
          obtain ⟨row, _, same⟩ := List.mem_map.mp member
          rw [← same]
          simp only [fieldLog?, telemetryLog, u8AsI16_inj, sender, ↓reduceIte]

variable {liquidCan}

theorem decode_defined {node : CanNode} {message : CanMessage}
    {rows : List ((UInt8 × FieldInfo) × Result CanDataValue)}
    (decoded : node.decode liquidCan message = some rows) :
    ∀ row ∈ storedRows rows, node.telemetryFields.lookup row.1.1 = some row.1.2 ∨
      node.parameterFields.lookup row.1.1 = some row.1.2 := by
  intro row member
  obtain ⟨kind, delivers⟩ := CanNode.decode_delivers decoded member
  cases kind with
  | telemetry => exact Or.inl delivers.defined.1
  | parameter => exact Or.inr delivers.defined.1

theorem mirrors_performs {manager next : NodeManager} {operation : Operation} {nodeId : UInt8}
    {logs : List FieldLog} {after : CanNode} (blank : (manager.slot nodeId).Blank)
    (mirrors : ∀ node, manager.canNodes.lookup nodeId = some node → Mirrors nodeId node logs)
    (performed : manager.Performs liquidCan operation next)
    (registered : next.canNodes.lookup nodeId = some after) :
    Mirrors nodeId after (watchLogs liquidCan nodeId manager operation next logs) := by
  simp only [watchLogs, perform_logs, Operation.places]
  rcases cacheChange_of_performs liquidCan blank performed registered with
    ⟨unseen, same⟩ | ⟨input, seen, change⟩
  · simp only [unseen, Bool.false_eq_true, ↓reduceIte, List.append_nil]
    exact mirrors after same
  · simp only [seen]
    generalize (manager.slot nodeId).dispatched liquidCan nodeId input = events at change ⊢
    cases change with
    | placed places empty =>
        simp only [places, ↓reduceIte, List.filterMap_nil]
        exact mirrors_nothing nodeId empty
    | @kept node stays found definition values =>
        simp only [stays, Bool.false_eq_true, ↓reduceIte, List.filterMap_nil, List.append_nil]
        exact (mirrors node found).of_values_eq definition values
    | @stored node timestamp message rows stays found arrived decoded same =>
        have logged : ((storedRows rows).map fun row => Event.nodeFieldUpdated
            (telemetryLog timestamp nodeId row.1.1 row.1.2 row.2)).filterMap (fieldLog? nodeId) =
            (storedRows rows).map fun row => telemetryLog timestamp nodeId row.1.1 row.1.2 row.2 := by
          rw [List.filterMap_map, ← List.filterMap_eq_map]
          apply List.filterMap_congr
          intro row _
          simp only [Function.comp_def, fieldLog?, telemetryLog, ↓reduceIte]
        simp only [stays, Bool.false_eq_true, ↓reduceIte, logged]
        subst same
        exact (mirrors node found).store (decode_defined decoded)

theorem dispatched_names {manager : NodeManager} {operation : Operation} {log : FieldLog}
    (dispatched : .nodeFieldUpdated log ∈ (manager.perform liquidCan operation).events) :
    ∃ nodeId node, manager.canNodes.lookup nodeId = some node ∧ Names nodeId node log := by
  cases operation with
  | heartbeat timestamp =>
      obtain ⟨entry, _, same⟩ := List.mem_map.mp dispatched
      cases same
  | message timestamp canMsgId message =>
      have confined := confined_handle liquidCan manager timestamp canMsgId message
      change _ ∈ (manager.handleCanMessageFromNode liquidCan timestamp canMsgId message).events at dispatched
      rw [confined.events] at dispatched
      rcases (manager.slot canMsgId.senderId).handle_events liquidCan canMsgId.senderId timestamp message with
        silent | ⟨node, rows, registered, decoded, events⟩
      · rw [silent] at dispatched
        cases dispatched
      · rw [events] at dispatched
        obtain ⟨row, stored, same⟩ := List.mem_map.mp dispatched
        have logged := Event.nodeFieldUpdated.inj same
        subst logged
        exact ⟨canMsgId.senderId, node, registered, rfl, row.1.1, row.1.2, rfl, rfl,
          decode_defined decoded row stored⟩

theorem mirrors_run {mapping : Mapping} {operations : List Operation} {manager : NodeManager}
    {nodeId : UInt8} {logs : List FieldLog}
    (run : Transition.Run (Transition.Watched (watchLogs liquidCan nodeId) (Performs liquidCan))
      (new mapping, []) operations (manager, logs)) {node : CanNode}
    (registered : manager.canNodes.lookup nodeId = some node) : Mirrors nodeId node logs := by
  have tracked := run.invariant (fun state => (state.1.slot nodeId).Blank ∧
    ∀ node, state.1.canNodes.lookup nodeId = some node → Mirrors nodeId node state.2) ?_ ⟨?_, ?_⟩
  · exact tracked.2 node registered
  · rintro ⟨before, logs⟩ operation ⟨after, noted⟩ ⟨blank, mirrors⟩ ⟨performed, watched⟩
    simp only at blank mirrors performed watched
    refine ⟨?_, ?_⟩
    · exact blank_performs liquidCan blank performed
    · intro node registered
      rw [watched]
      exact mirrors_performs blank mirrors performed registered
  · exact blank_run liquidCan (Transition.Run.nil _) nodeId
  · intro node impossible
    simp [new] at impossible

theorem cached_typed {mapping : Mapping} {operations : List Operation} {manager : NodeManager}
    (lawful : liquidCan.Lawful)
    (run : Transition.Run (Performs liquidCan) (new mapping) operations manager) {nodeId : UInt8}
    {node : CanNode} (registered : manager.canNodes.lookup nodeId = some node) {id : UInt8}
    {timestamp : DateTime} {value : CanDataValue}
    (cached : node.values.lookup id = some (timestamp, value)) :
    ∃ fieldInfo, (node.telemetryFields.lookup id = some fieldInfo ∨
        node.parameterFields.lookup id = some fieldInfo) ∧
      value.dataType? = some fieldInfo.dataType := by
  obtain ⟨kind, fieldInfo, received⟩ := received_run run registered cached
  refine ⟨fieldInfo, ?_, received.typed lawful⟩
  cases kind with
  | telemetry => exact Or.inl received.defined.1
  | parameter => exact Or.inr received.defined.1

theorem canDataValueToF64_ok {value : CanDataValue} {dataType : CanDataType}
    (typed : value.dataType? = some dataType) : ∃ number, canDataValueToF64 value = .ok number := by
  cases value with
  | raw items => cases typed
  | _ => exact ⟨_, rfl⟩

theorem tryGetMappedValue_eq {manager : NodeManager} {fieldName : String} {lookup : MappingLookupResult}
    {target : ResolvedMappingTarget}
    (resolved : manager.resolveMappingByName fieldName = .ok (lookup, target)) :
    manager.tryGetMappedValue fieldName = match manager.latestRawValue target with
      | none => .ok none
      | some rawValue => some <$> lookup.mappingEntry.mappedValue rawValue := by
  simp only [tryGetMappedValue, resolved]
  rfl

theorem tryGetLogicalValue_ok {manager : NodeManager} {fieldName : String} {lookup : MappingLookupResult}
    {mapped : Option MappedValue} (found : manager.lookupMapping fieldName = .ok lookup)
    (read : manager.tryGetMappedValue fieldName = .ok mapped) :
    ∃ value, manager.tryGetLogicalValue fieldName = .ok value := by
  simp only [tryGetLogicalValue, read, found]
  cases mapped with
  | none => exact ⟨none, rfl⟩
  | some value => exact ⟨_, rfl⟩

/-- Every way to read the name gives a value or finds none; none of them fails. -/
structure Readable (manager : NodeManager) (fieldName : String) : Prop where
  raw : ∃ value, manager.tryGetRawValue fieldName = .ok value
  mapped : ∃ value, manager.tryGetMappedValue fieldName = .ok value
  logical : ∃ value, manager.tryGetLogicalValue fieldName = .ok value
  either : ∃ value, manager.tryGetValue fieldName = .ok value

theorem readable_of_resolved {manager : NodeManager} {fieldName : String} {lookup : MappingLookupResult}
    {target : ResolvedMappingTarget}
    (resolved : manager.resolveMappingByName fieldName = .ok (lookup, target))
    (typed : ∀ value, manager.latestRawValue target = some value → ∃ dataType,
      value.dataType? = some dataType) : manager.Readable fieldName := by
  have found := (resolveMappingByName_ok_iff.mp resolved).1
  have numeric (value : CanDataValue) (cached : manager.latestRawValue target = some value) :
      ∃ number, canDataValueToF64 value = .ok number := by
    obtain ⟨dataType, same⟩ := typed value cached
    exact canDataValueToF64_ok same
  have raw : manager.tryGetRawValue fieldName = .ok (manager.latestRawValue target) := by
    simp only [tryGetRawValue, resolved]
    rfl
  have mapped : ∃ value, manager.tryGetMappedValue fieldName = .ok value := by
    rw [tryGetMappedValue_eq resolved]
    cases cached : manager.latestRawValue target with
    | none => exact ⟨none, rfl⟩
    | some value =>
        obtain ⟨number, converted⟩ := numeric value cached
        simp only [MappingEntry.mappedValue, converted]
        exact ⟨_, rfl⟩
  obtain ⟨value, read⟩ := mapped
  refine ⟨⟨_, raw⟩, ⟨value, read⟩, tryGetLogicalValue_ok found read, ?_⟩
  simp only [tryGetValue]
  split
  · rw [read]
    exact ⟨value, rfl⟩
  · rw [raw]
    cases cached : manager.latestRawValue target with
    | none => exact ⟨none, rfl⟩
    | some value =>
        obtain ⟨number, converted⟩ := numeric value cached
        simp only [withContext, Except.mapError, bind, Except.bind, converted]
        exact ⟨_, rfl⟩

/-- The log of a node is the history of its cache; both speak of the fields that the node
registered, and no read of a resolved name fails. -/
theorem log_matches_cache (lawful : liquidCan.Lawful) {mapping : Mapping} {operations : List Operation}
    {manager : NodeManager} {nodeId : UInt8} {logs : List FieldLog}
    (run : Transition.Run (Transition.Watched (watchLogs liquidCan nodeId) (Performs liquidCan))
      (new mapping, []) operations (manager, logs)) :
    (∀ node, manager.canNodes.lookup nodeId = some node →
      (∀ id, (replayLogs logs).lookup (u8AsI16 id) =
        (node.values.lookup id).map fun value => (value.1, canDataValueToJson value.2)) ∧
      (∀ key, (∀ id, key ≠ u8AsI16 id) → (replayLogs logs).lookup key = none) ∧
      (∀ log ∈ logs, Names nodeId node log) ∧
      ∀ id timestamp value, node.values.lookup id = some (timestamp, value) →
        (∀ items, value ≠ .raw items) ∧
        ∃ fieldInfo, (node.telemetryFields.lookup id = some fieldInfo ∨
          node.parameterFields.lookup id = some fieldInfo) ∧
          value.dataType? = some fieldInfo.dataType) ∧
    (∀ operation log, .nodeFieldUpdated log ∈ (manager.perform liquidCan operation).events →
      ∃ senderId node, manager.canNodes.lookup senderId = some node ∧ Names senderId node log) ∧
    ∀ fieldName lookup target, manager.resolveMappingByName fieldName = .ok (lookup, target) →
      manager.Readable fieldName := by
  have reached := run.unwatched
  refine ⟨?_, fun operation log dispatched => dispatched_names dispatched, ?_⟩
  · intro node registered
    have mirrors := mirrors_run run registered
    refine ⟨mirrors.cached, mirrors.others, mirrors.named, ?_⟩
    intro id timestamp value cached
    obtain ⟨fieldInfo, defined, typed⟩ := cached_typed lawful reached registered cached
    refine ⟨?_, fieldInfo, defined, typed⟩
    intro items isRaw
    subst isRaw
    cases typed
  · intro fieldName lookup target resolved
    apply readable_of_resolved resolved
    intro value latest
    simp only [latestRawValue, Option.bind_eq_some_iff, Option.map_eq_some_iff] at latest
    obtain ⟨node, registered, ⟨timestamp, stored⟩, cached, same⟩ := latest
    subst same
    obtain ⟨fieldInfo, _, typed⟩ := cached_typed lawful reached registered cached
    exact ⟨fieldInfo.dataType, typed⟩

theorem log_matches_cache_pump : ∃ logs,
    Transition.Run (Transition.Watched (watchLogs LiquidCan.littleEndian 5) (Performs LiquidCan.littleEndian))
      (new pumpMapping, []) (pumpOperations 7 8) (pumpManager 7 8, logs) ∧
    (replayLogs logs).lookup (u8AsI16 8) = some (2, canDataValueToJson (.uint8 ⟨9, by decide⟩)) ∧
    (pumpManager 7 8).Readable "setpoint" := by
  obtain ⟨logs, watched⟩ := (pumpManager_run 7 8).watched (watchLogs LiquidCan.littleEndian 5) []
  have cached : ((pumpManager 7 8).canNodes.lookup 5).bind (fun node => node.values.lookup 8) =
      some (2, .uint8 ⟨9, by decide⟩) := by decide
  have resolves : ((pumpManager 7 8).resolveMappingByName "setpoint").toOption.map (fun pair => pair.2) =
      some ⟨5, 8, .uint8⟩ := by decide
  obtain ⟨node, registered, stored⟩ := Option.bind_eq_some_iff.mp cached
  obtain ⟨⟨lookup, target⟩, found, _⟩ := Option.map_eq_some_iff.mp resolves
  obtain ⟨mirrored, _, readable⟩ := log_matches_cache LiquidCan.littleEndian_lawful watched
  refine ⟨logs, watched, ?_, readable "setpoint" lookup target (ok_of_toOption found)⟩
  rw [(mirrored node registered).1 8, stored]
  rfl

end NodeManager

end FerroFlow
