import FerroFlow.FieldReads

/-! Which registered field a mapping entry stands for. The maps of nodes and fields are searched in
their iteration order, so the names decide alone only if no two of them agree. -/

namespace FerroFlow

/-- The same node, with its maps iterated in another order. -/
structure CanNode.Reordered (left right : CanNode) : Prop where
  registrationInfo : right.registrationInfo = left.registrationInfo
  telemetryFields : right.telemetryFields.entries.Perm left.telemetryFields.entries
  parameterFields : right.parameterFields.entries.Perm left.parameterFields.entries
  telemetryGroups : right.telemetryGroups.entries.Perm left.telemetryGroups.entries
  values : right.values.entries.Perm left.values.entries
  latestHeartbeatSent : right.latestHeartbeatSent = left.latestHeartbeatSent
  latestHeartbeatReceived : right.latestHeartbeatReceived = left.latestHeartbeatReceived

theorem CanNode.Reordered.refl (node : CanNode) : node.Reordered node := by
  constructor <;> rfl

theorem CanNode.Reordered.symm {left right : CanNode} (reordered : left.Reordered right) :
    right.Reordered left where
  registrationInfo := reordered.registrationInfo.symm
  telemetryFields := reordered.telemetryFields.symm
  parameterFields := reordered.parameterFields.symm
  telemetryGroups := reordered.telemetryGroups.symm
  values := reordered.values.symm
  latestHeartbeatSent := reordered.latestHeartbeatSent.symm
  latestHeartbeatReceived := reordered.latestHeartbeatReceived.symm

def CanNode.prefer (node : CanNode) (id : UInt8) (info : FieldInfo) : FieldType → CanNode
  | .telemetry => { node with telemetryFields := node.telemetryFields.insert id info }
  | .parameter => { node with parameterFields := node.parameterFields.insert id info }

namespace NodeManager

structure Reordered (left right : NodeManager) : Prop where
  mapping : right.mapping = left.mapping
  canNodes : ∀ nodeId, Option.Rel CanNode.Reordered (left.canNodes.lookup nodeId)
    (right.canNodes.lookup nodeId)
  registeringNodes : ∀ nodeId, Option.Rel CanNode.Reordered (left.registeringNodes.lookup nodeId)
    (right.registeringNodes.lookup nodeId)

def Matches (manager : NodeManager) (lookup : MappingLookupResult) (target : ResolvedMappingTarget) :
    Prop :=
  ∃ node info, manager.canNodes.lookup target.nodeId = some node ∧
    node.registrationInfo.deviceName = lookup.nodeName ∧
    (mappedFields node lookup.mappingEntry.fieldType).lookup target.fieldId = some info ∧
    info.name = lookup.mappingEntry.rawField ∧ info.dataType = target.dataType

def Unambiguous (manager : NodeManager) (lookup : MappingLookupResult) : Prop :=
  ∀ left right, manager.Matches lookup left → manager.Matches lookup right → left = right

theorem exists_target_of_matches {manager : NodeManager} {lookup : MappingLookupResult}
    {target : ResolvedMappingTarget} (found : manager.Matches lookup target) :
    ∃ first, manager.resolveMappingTarget lookup = some first := by
  obtain ⟨node, info, registered, device, defined, named, _⟩ := found
  rw [← Option.isSome_iff_exists, resolveMappingTarget, List.findSome?_isSome_iff]
  refine ⟨(target.nodeId, node), (KeyedMap.mem_toPairs_iff _ _ _).mpr registered, ?_⟩
  simp only [device, ne_eq, not_true_eq_false, ↓reduceIte, Option.isSome_map, List.find?_isSome]
  exact ⟨(target.fieldId, info), (KeyedMap.mem_toPairs_iff _ _ _).mpr defined, decide_eq_true named⟩

theorem mappedFields_prefer (node : CanNode) (id : UInt8) (info : FieldInfo) (kind : FieldType) :
    mappedFields (node.prefer id info kind) kind = (mappedFields node kind).insert id info := by
  cases kind <;> rfl

theorem reordered_prefer {node : CanNode} {id : UInt8} {info : FieldInfo} {kind : FieldType}
    (defined : (mappedFields node kind).lookup id = some info) :
    node.Reordered (node.prefer id info kind) := by
  cases kind with
  | telemetry => exact ⟨rfl, KeyedMap.perm_insert_same defined, .refl _, .refl _, .refl _, rfl, rfl⟩
  | parameter => exact ⟨rfl, .refl _, KeyedMap.perm_insert_same defined, .refl _, .refl _, rfl, rfl⟩

theorem exists_order_of_matches {manager : NodeManager} {lookup : MappingLookupResult}
    {target : ResolvedMappingTarget} (found : manager.Matches lookup target) :
    ∃ other, manager.Reordered other ∧ other.resolveMappingTarget lookup = some target := by
  obtain ⟨node, info, registered, device, defined, named, typed⟩ := found
  let kind := lookup.mappingEntry.fieldType
  let front := node.prefer target.fieldId info kind
  refine ⟨{ manager with canNodes := manager.canNodes.insert target.nodeId front }, ?_, ?_⟩
  · constructor
    · rfl
    · intro nodeId
      simp only [KeyedMap.lookup_insert_eq]
      by_cases same : nodeId = target.nodeId
      · subst same
        rw [if_pos rfl, registered]
        exact Option.Rel.some (reordered_prefer defined)
      · rw [if_neg same]
        cases manager.canNodes.lookup nodeId with
        | none => exact Option.Rel.none
        | some other => exact Option.Rel.some (CanNode.Reordered.refl other)
    · intro nodeId
      cases manager.registeringNodes.lookup nodeId with
      | none => exact Option.Rel.none
      | some other => exact Option.Rel.some (CanNode.Reordered.refl other)
  · have sameDevice : front.registrationInfo.deviceName = lookup.nodeName := by
      rw [(reordered_prefer defined).registrationInfo]
      exact device
    simp only [resolveMappingTarget, KeyedMap.toPairs_insert, List.findSome?_cons, sameDevice, ne_eq,
      not_true_eq_false, ↓reduceIte]
    have first : (mappedFields front kind).toPairs.find? (fun field =>
        decide (field.2.name = lookup.mappingEntry.rawField)) = some (target.fieldId, info) := by
      rw [mappedFields_prefer, KeyedMap.toPairs_insert, List.find?_cons_of_pos]
      exact decide_eq_true named
    rw [first]
    simp only [Option.map_some, typed]

theorem Reordered.symm {left right : NodeManager} (reordered : left.Reordered right) :
    right.Reordered left := by
  have swap {before after : Option CanNode} (related : Option.Rel CanNode.Reordered before after) :
      Option.Rel CanNode.Reordered after before := by
    cases related with
    | none => exact Option.Rel.none
    | some same => exact Option.Rel.some same.symm
  exact ⟨reordered.mapping.symm, fun nodeId => swap (reordered.canNodes nodeId),
    fun nodeId => swap (reordered.registeringNodes nodeId)⟩

theorem Reordered.node {left right : NodeManager} (reordered : left.Reordered right) {nodeId : UInt8}
    {node : CanNode} (registered : left.canNodes.lookup nodeId = some node) :
    ∃ after, right.canNodes.lookup nodeId = some after ∧ node.Reordered after := by
  have related := reordered.canNodes nodeId
  rw [registered] at related
  generalize right.canNodes.lookup nodeId = found at related
  cases related with
  | some same => exact ⟨_, rfl, same⟩

theorem mappedFields_reordered {left right : CanNode} (reordered : left.Reordered right) (kind : FieldType)
    (id : UInt8) : (mappedFields right kind).lookup id = (mappedFields left kind).lookup id := by
  cases kind with
  | telemetry => exact AList.perm_lookup reordered.telemetryFields
  | parameter => exact AList.perm_lookup reordered.parameterFields

theorem Matches.reordered {left right : NodeManager} {lookup : MappingLookupResult}
    {target : ResolvedMappingTarget} (found : left.Matches lookup target)
    (reordered : left.Reordered right) : right.Matches lookup target := by
  obtain ⟨node, info, registered, device, defined, named, typed⟩ := found
  obtain ⟨after, present, same⟩ := reordered.node registered
  refine ⟨after, info, present, ?_, ?_, named, typed⟩
  · rw [same.registrationInfo]
    exact device
  · rw [mappedFields_reordered same]
    exact defined

theorem Reordered.lookupMapping {left right : NodeManager} (reordered : left.Reordered right)
    (fieldName : String) : right.lookupMapping fieldName = left.lookupMapping fieldName := by
  simp only [NodeManager.lookupMapping, reordered.mapping]

theorem Reordered.latestRawValue {left right : NodeManager} (reordered : left.Reordered right)
    (target : ResolvedMappingTarget) : right.latestRawValue target = left.latestRawValue target := by
  have related := reordered.canNodes target.nodeId
  simp only [NodeManager.latestRawValue]
  generalize left.canNodes.lookup target.nodeId = before at related ⊢
  generalize right.canNodes.lookup target.nodeId = after at related ⊢
  cases related with
  | none => rfl
  | some same =>
      simp only [Option.bind_some]
      rw [AList.perm_lookup same.values]

theorem resolveMappingTarget_order_iff (manager : NodeManager) (lookup : MappingLookupResult) :
    (∀ other, manager.Reordered other →
      other.resolveMappingTarget lookup = manager.resolveMappingTarget lookup) ↔
    manager.Unambiguous lookup := by
  constructor
  · intro independent left right leftFound rightFound
    obtain ⟨before, beforeOrder, leftFirst⟩ := exists_order_of_matches leftFound
    obtain ⟨after, afterOrder, rightFirst⟩ := exists_order_of_matches rightFound
    have same : some left = some right := by
      rw [← leftFirst, ← rightFirst, independent before beforeOrder, independent after afterOrder]
    exact Option.some.inj same
  · intro unique other reordered
    cases resolved : manager.resolveMappingTarget lookup with
    | some target =>
        have found := resolveMappingTarget_eq_some resolved
        obtain ⟨first, present⟩ := exists_target_of_matches (Matches.reordered found reordered)
        have alsoFound := Matches.reordered (resolveMappingTarget_eq_some present) reordered.symm
        rw [present, unique first target alsoFound found]
    | none =>
        cases present : other.resolveMappingTarget lookup with
        | none => rfl
        | some target =>
            have found := Matches.reordered (resolveMappingTarget_eq_some present) reordered.symm
            obtain ⟨first, impossible⟩ := exists_target_of_matches found
            rw [resolved] at impossible
            cases impossible

structure SameAccess (left right : NodeManager) (fieldName : String) : Prop where
  resolved : right.resolveMappingByName fieldName = left.resolveMappingByName fieldName
  requested : right.requestValue fieldName = left.requestValue fieldName
  written : ∀ value, right.setValue fieldName value = left.setValue fieldName value
  raw : right.tryGetRawValue fieldName = left.tryGetRawValue fieldName
  mapped : right.tryGetMappedValue fieldName = left.tryGetMappedValue fieldName
  logical : right.tryGetLogicalValue fieldName = left.tryGetLogicalValue fieldName
  either : right.tryGetValue fieldName = left.tryGetValue fieldName

theorem sameAccess_of_resolved {left right : NodeManager} {fieldName : String}
    (reordered : left.Reordered right)
    (same : right.resolveMappingByName fieldName = left.resolveMappingByName fieldName) :
    left.SameAccess right fieldName := by
  have latest : right.latestRawValue = left.latestRawValue := funext reordered.latestRawValue
  have raw : right.tryGetRawValue fieldName = left.tryGetRawValue fieldName := by
    simp only [tryGetRawValue, same, latest]
  have mapped : right.tryGetMappedValue fieldName = left.tryGetMappedValue fieldName := by
    simp only [tryGetMappedValue, same, latest]
  constructor
  · exact same
  · simp only [requestValue, same]
  · intro value
    simp only [setValue, setMappedValue, setRawValue, setResolved, same]
  · exact raw
  · exact mapped
  · simp only [tryGetLogicalValue, mapped, reordered.lookupMapping]
  · simp only [tryGetValue, raw, mapped]

theorem resolveMappingByName_order_iff (manager : NodeManager) (fieldName : String) :
    (∀ other, manager.Reordered other →
      other.resolveMappingByName fieldName = manager.resolveMappingByName fieldName) ↔
    ∀ lookup, manager.lookupMapping fieldName = .ok lookup → manager.Unambiguous lookup := by
  constructor
  · intro independent lookup found
    rw [← resolveMappingTarget_order_iff]
    intro other reordered
    have same := independent other reordered
    have otherFound := (reordered.lookupMapping fieldName).trans found
    apply Option.ext
    intro target
    constructor
    · intro present
      have resolved := resolveMappingByName_ok_iff.mpr ⟨otherFound, present⟩
      rw [same] at resolved
      exact (resolveMappingByName_ok_iff.mp resolved).2
    · intro present
      have resolved := resolveMappingByName_ok_iff.mpr ⟨found, present⟩
      rw [← same] at resolved
      exact (resolveMappingByName_ok_iff.mp resolved).2
  · intro unique other reordered
    simp only [resolveMappingByName, reordered.lookupMapping]
    cases found : manager.lookupMapping fieldName with
    | error failure => rfl
    | ok lookup =>
        have same := (resolveMappingTarget_order_iff manager lookup).mpr (unique lookup found) other reordered
        simp only [bind, Except.bind, same]

end NodeManager

def FieldType.registration (payload : FieldRegistrationPayload) : FieldType → CanMessage
  | .telemetry => .telemetryValueRegistration payload
  | .parameter => .parameterRegistration payload

namespace NodeSlot

structure Documented (past : List SlotInput) (node : CanNode) : Prop where
  announced : ∃ payload, Given past (.nodeInfoAnnouncement payload) ∧
    payload.deviceName = node.registrationInfo.deviceName
  registered : ∀ kind id info, (NodeManager.mappedFields node kind).lookup id = some info →
    Given past (kind.registration ⟨id, info.dataType, info.name⟩)

theorem Given.extend {past : List SlotInput} {message : CanMessage} (given : Given past message)
    (input : SlotInput) : Given (past ++ [input]) message := by
  obtain ⟨timestamp, member⟩ := given
  exact ⟨timestamp, List.mem_append_left [input] member⟩

theorem given_last (past : List SlotInput) (timestamp : DateTime) (message : CanMessage) :
    Given (past ++ [.message timestamp message]) message :=
  ⟨timestamp, List.mem_append_right past (List.mem_singleton_self _)⟩

variable {past : List SlotInput} {node : CanNode}

theorem Documented.extend (documented : Documented past node) (input : SlotInput) :
    Documented (past ++ [input]) node := by
  obtain ⟨payload, given, name⟩ := documented.announced
  refine ⟨⟨payload, given.extend input, name⟩, ?_⟩
  intro kind id info defined
  exact (documented.registered kind id info defined).extend input

theorem Documented.of_definition_eq {after : CanNode} (documented : Documented past node)
    (same : after.definition = node.definition) : Documented past after := by
  obtain ⟨info, telemetry, parameters, _⟩ := CanNode.Definition.mk.inj same
  constructor
  · rw [info]
    exact documented.announced
  · intro kind id fieldInfo defined
    apply documented.registered kind id fieldInfo
    cases kind with
    | telemetry =>
        simp only [NodeManager.mappedFields, telemetry] at defined ⊢
        exact defined
    | parameter =>
        simp only [NodeManager.mappedFields, parameters] at defined ⊢
        exact defined

theorem documented_new {payload : NodeInfoResPayload} (given : Given past (.nodeInfoAnnouncement payload)) :
    Documented past (CanNode.new (.announced payload)) := by
  refine ⟨⟨payload, given, rfl⟩, ?_⟩
  intro kind id info defined
  cases kind <;> cases defined

theorem Documented.register {message : CanMessage} {register : CanNode → CanNode}
    (documented : Documented past node) (effect : message.registration? = some register)
    (given : Given past message) : Documented past (register node) := by
  have inserted (kind : FieldType) (payload : FieldRegistrationPayload)
      (given : Given past (kind.registration payload)) {id : UInt8} {info : FieldInfo}
      (defined : ((NodeManager.mappedFields node kind).insert payload.fieldId
        { name := payload.fieldName, dataType := payload.fieldType }).lookup id = some info) :
      Given past (kind.registration ⟨id, info.dataType, info.name⟩) := by
    rw [KeyedMap.lookup_insert_eq] at defined
    by_cases last : id = payload.fieldId
    · rw [if_pos last] at defined
      have same := Option.some.inj defined
      subst last
      subst same
      exact given
    · rw [if_neg last] at defined
      exact documented.registered kind id info defined
  cases message with
  | telemetryValueRegistration payload =>
      have same := Option.some.inj effect
      subst same
      refine ⟨documented.announced, ?_⟩
      intro kind id info defined
      cases kind with
      | telemetry => exact inserted .telemetry payload given defined
      | parameter => exact documented.registered .parameter id info defined
  | parameterRegistration payload =>
      have same := Option.some.inj effect
      subst same
      refine ⟨documented.announced, ?_⟩
      intro kind id info defined
      cases kind with
      | telemetry => exact documented.registered .telemetry id info defined
      | parameter => exact inserted .parameter payload given defined
  | telemetryGroupDefinition payload =>
      have same := Option.some.inj effect
      subst same
      exact ⟨documented.announced, documented.registered⟩
  | _ => cases effect

def AllDocumented (past : List SlotInput) (slot : NodeSlot) : Prop :=
  ∀ node, slot.registering = some node ∨ slot.registered = some node → Documented past node

theorem AllDocumented.extend {slot : NodeSlot} (documented : AllDocumented past slot) (input : SlotInput) :
    AllDocumented (past ++ [input]) slot :=
  fun node present => (documented node present).extend input

theorem AllDocumented.takes {liquidCan : LiquidCan} {nodeId : UInt8} {slot next : NodeSlot}
    {input : SlotInput} (documented : AllDocumented past slot)
    (taken : slot.Takes liquidCan nodeId input next) : AllDocumented (past ++ [input]) next := by
  have earlier := documented.extend input
  cases change_of_takes liquidCan taken with
  | announced timestamp payload =>
      have new := documented_new (given_last past timestamp (.nodeInfoAnnouncement payload))
      intro node present
      simp only [announce] at present
      split at present
      · rcases present with registering | registered
        · exact earlier node (Or.inl registering)
        · rw [← Option.some.inj registered]
          exact new
      · rcases present with registering | registered
        · rw [← Option.some.inj registering]
          exact new
        · exact earlier node (Or.inr registered)
  | @registered message register pending timestamp effect registering =>
      have extended := (earlier pending (Or.inl registering)).register effect
        (given_last past timestamp message)
      intro node present
      simp only [settle] at present
      split at present
      · rcases present with impossible | registered
        · cases impossible
        · rw [← Option.some.inj registered]
          exact extended
      · rcases present with still | registered
        · rw [← Option.some.inj still]
          exact extended
        · exact earlier node (Or.inr registered)
  | @received message found timestamp noEffect other registered =>
      intro node present
      rcases present with registering | after
      · exact earlier node (Or.inl registering)
      · rw [← Option.some.inj after]
        have same := found.receive_definition liquidCan nodeId timestamp message
        exact (earlier found (Or.inr registered)).of_definition_eq same
  | rejected timestamp other refused => exact earlier
  | heartbeat timestamp =>
      intro node present
      rcases present with registering | after
      · exact earlier node (Or.inl registering)
      · simp only [heartbeat, Option.map_eq_some_iff] at after
        obtain ⟨found, registered, sent⟩ := after
        subst sent
        exact (earlier found (Or.inr registered)).of_definition_eq rfl

end NodeSlot

namespace NodeManager

/-- Nodes with different ids announce different names, and a node gives each name of a kind to one
field id. -/
structure DistinctlyNamed (operations : List Operation) : Prop where
  devices : ∀ leftId rightId left right, Received operations leftId (.nodeInfoAnnouncement left) →
    Received operations rightId (.nodeInfoAnnouncement right) → left.deviceName = right.deviceName →
    leftId = rightId
  fields : ∀ nodeId (kind : FieldType) left right, Received operations nodeId (kind.registration left) →
    Received operations nodeId (kind.registration right) → left.fieldName = right.fieldName →
    left.fieldId = right.fieldId

variable {liquidCan : LiquidCan} {mapping : Mapping} {operations : List Operation} {manager : NodeManager}

theorem documented_run (run : Transition.Run (Performs liquidCan) (new mapping) operations manager)
    {nodeId : UInt8} {node : CanNode} (registered : manager.canNodes.lookup nodeId = some node) :
    NodeSlot.Documented (operations.filterMap (Operation.seenBy nodeId)) node := by
  have slots := slot_run liquidCan run nodeId
  have initial : NodeSlot.AllDocumented [] ((new mapping).slot nodeId) := by
    intro node present
    rcases present with impossible | impossible <;> cases impossible
  have documented := slots.history NodeSlot.AllDocumented
    (fun past slot input next documented taken => documented.takes taken) initial
  exact documented node (Or.inr registered)

theorem unambiguous_of_distinctlyNamed
    (run : Transition.Run (Performs liquidCan) (new mapping) operations manager)
    (distinct : DistinctlyNamed operations) (lookup : MappingLookupResult) :
    manager.Unambiguous lookup := by
  rintro ⟨leftId, leftField, leftType⟩ ⟨rightId, rightField, rightType⟩
    ⟨left, leftInfo, leftRegistered, leftDevice, leftDefined, leftNamed, leftTyped⟩
    ⟨right, rightInfo, rightRegistered, rightDevice, rightDefined, rightNamed, rightTyped⟩
  simp only at leftRegistered leftDefined leftTyped rightRegistered rightDefined rightTyped
  obtain ⟨leftPayload, leftGiven, leftName⟩ := (documented_run run leftRegistered).announced
  obtain ⟨rightPayload, rightGiven, rightName⟩ := (documented_run run rightRegistered).announced
  have sameDevice : leftPayload.deviceName = rightPayload.deviceName := by
    rw [leftName, rightName, leftDevice, rightDevice]
  have sameId := distinct.devices leftId rightId leftPayload rightPayload
    (received_iff_seen.mpr leftGiven) (received_iff_seen.mpr rightGiven) sameDevice
  subst sameId
  have sameNode := Option.some.inj (leftRegistered.symm.trans rightRegistered)
  subst sameNode
  have documented := (documented_run run leftRegistered).registered lookup.mappingEntry.fieldType
  have sameField := distinct.fields leftId lookup.mappingEntry.fieldType _ _
    (received_iff_seen.mpr (documented leftField leftInfo leftDefined))
    (received_iff_seen.mpr (documented rightField rightInfo rightDefined))
    (leftNamed.trans rightNamed.symm)
  simp only at sameField
  subst sameField
  have sameInfo := Option.some.inj (leftDefined.symm.trans rightDefined)
  rw [← leftTyped, ← rightTyped, sameInfo]

/-- The iteration order of the maps matters for a name exactly if two registered fields bear the
names of its entry, which takes nodes or fields that were not named apart. -/
theorem resolution_order_independent_iff
    (run : Transition.Run (Performs liquidCan) (new mapping) operations manager) (fieldName : String) :
    ((∀ other, manager.Reordered other →
        other.resolveMappingByName fieldName = manager.resolveMappingByName fieldName) ↔
      ∀ lookup, manager.lookupMapping fieldName = .ok lookup → manager.Unambiguous lookup) ∧
    ((∀ lookup, manager.lookupMapping fieldName = .ok lookup → manager.Unambiguous lookup) →
      ∀ other, manager.Reordered other → manager.SameAccess other fieldName) ∧
    (DistinctlyNamed operations → ∀ lookup, manager.Unambiguous lookup) := by
  refine ⟨resolveMappingByName_order_iff manager fieldName, ?_, unambiguous_of_distinctlyNamed run⟩
  intro unique other reordered
  have same := (resolveMappingByName_order_iff manager fieldName).mpr unique other reordered
  exact sameAccess_of_resolved reordered same

def twoNodes (otherName : String) : List Operation := [
  .message 0 ⟨5, 0⟩ (.nodeInfoAnnouncement ⟨0, 1, 0, 0, "pump"⟩),
  .message 0 ⟨5, 0⟩ (.parameterRegistration ⟨7, .uint8, "setpoint"⟩),
  .message 1 ⟨6, 0⟩ (.nodeInfoAnnouncement ⟨0, 1, 0, 0, otherName⟩),
  .message 1 ⟨6, 0⟩ (.parameterRegistration ⟨8, .uint8, "setpoint"⟩)]

def twoNodesManager (otherName : String) : NodeManager :=
  (new pumpMapping).replay LiquidCan.littleEndian (twoNodes otherName)

theorem twoNodes_run (otherName : String) :
    Transition.Run (Performs LiquidCan.littleEndian) (new pumpMapping) (twoNodes otherName)
      (twoNodesManager otherName) :=
  (run_iff_replay LiquidCan.littleEndian).mpr rfl

theorem twoNodes_distinct : DistinctlyNamed (twoNodes "tank") := by
  constructor
  · intro leftId rightId left right leftGiven rightGiven same
    simp only [Received, twoNodes, List.mem_cons, List.not_mem_nil, or_false, Operation.message.injEq,
      CanMessage.nodeInfoAnnouncement.injEq, reduceCtorEq, and_false] at leftGiven rightGiven
    grind
  · intro nodeId kind left right leftGiven rightGiven same
    cases kind with
    | telemetry => simp [Received, twoNodes, FieldType.registration] at leftGiven
    | parameter =>
        simp only [Received, twoNodes, FieldType.registration, List.mem_cons, List.not_mem_nil, or_false,
          Operation.message.injEq, CanMessage.parameterRegistration.injEq, reduceCtorEq,
          and_false] at leftGiven rightGiven
        grind

theorem resolution_order_independent_twoNodes :
    (((twoNodesManager "tank").resolveMappingByName "setpoint").toOption.map fun pair => pair.2) =
      some ⟨5, 7, .uint8⟩ ∧
    ∀ other, (twoNodesManager "tank").Reordered other →
      (twoNodesManager "tank").SameAccess other "setpoint" := by
  refine ⟨by decide, ?_⟩
  obtain ⟨_, access, named⟩ := resolution_order_independent_iff (twoNodes_run "tank") "setpoint"
  exact access fun lookup _ => named twoNodes_distinct lookup

theorem twoNodes_matches (nodeId fieldId : UInt8) (info : FieldInfo)
    (found : ((twoNodesManager "pump").canNodes.lookup nodeId).map (fun node =>
      (node.registrationInfo.deviceName, node.parameterFields.lookup fieldId)) = some ("pump", some info))
    (named : info.name = "setpoint") :
    (twoNodesManager "pump").Matches ⟨"pump", setpointEntry⟩ ⟨nodeId, fieldId, info.dataType⟩ := by
  obtain ⟨node, registered, outcome⟩ := Option.map_eq_some_iff.mp found
  obtain ⟨device, defined⟩ := Prod.mk.inj outcome
  exact ⟨node, info, registered, device, defined, named, rfl⟩

theorem twin_nodes_depend_on_order :
    ¬ ∀ (mapping : Mapping) (operations : List Operation) (manager other : NodeManager)
        (fieldName : String), mapping.validate = .ok () →
      Transition.Run (Performs LiquidCan.littleEndian) (new mapping) operations manager →
      manager.Reordered other →
      other.resolveMappingByName fieldName = manager.resolveMappingByName fieldName := by
  intro claim
  have valid : pumpMapping.validate = .ok () := by decide
  have run := twoNodes_run "pump"
  have found : (twoNodesManager "pump").lookupMapping "setpoint" = .ok ⟨"pump", setpointEntry⟩ := rfl
  have unique := (resolveMappingByName_order_iff _ "setpoint").mp
    (fun other reordered => claim _ _ _ other "setpoint" valid run reordered) _ found
  have first : (twoNodesManager "pump").Matches ⟨"pump", setpointEntry⟩ ⟨5, 7, .uint8⟩ :=
    twoNodes_matches 5 7 ⟨.uint8, "setpoint"⟩ (by decide) rfl
  have second : (twoNodesManager "pump").Matches ⟨"pump", setpointEntry⟩ ⟨6, 8, .uint8⟩ :=
    twoNodes_matches 6 8 ⟨.uint8, "setpoint"⟩ (by decide) rfl
  exact absurd (unique _ _ first second) (by decide)

end NodeManager

end FerroFlow
