import FerroFlow.Lib.Transition
import FerroFlow.NodeManager

/-! The node manager as independent slots, one for each node id: what is registered under the
id, and what is still registering. A message acts on its sender's slot alone. -/

namespace FerroFlow

structure NodeSlot where
  registering : Option CanNode := none
  registered : Option CanNode := none
deriving DecidableEq

structure SlotOutcome where
  slot : NodeSlot
  accepted : Bool
  events : List Event := []

inductive SlotInput
  | message (timestamp : DateTime) (message : CanMessage)
  | heartbeat (timestamp : DateTime)
deriving DecidableEq

def RegistrationInfo.announced (payload : NodeInfoResPayload) : RegistrationInfo where
  telemetryCount := payload.telCount
  parameterCount := payload.parCount
  firmwareHash := payload.firmwareHash
  protocolHash := payload.liquidHash
  deviceName := payload.deviceName

def CanMessage.registration? : CanMessage → Option (CanNode → CanNode)
  | .telemetryValueRegistration payload => some fun node => { node with
      telemetryFields := node.telemetryFields.insert payload.fieldId
        { name := payload.fieldName, dataType := payload.fieldType } }
  | .parameterRegistration payload => some fun node => { node with
      parameterFields := node.parameterFields.insert payload.fieldId
        { name := payload.fieldName, dataType := payload.fieldType } }
  | .telemetryGroupDefinition payload => some fun node => { node with
      telemetryGroups := node.telemetryGroups.insert payload.groupId { fields := payload.fieldIds } }
  | _ => none

def storedRows : List ((UInt8 × FieldInfo) × Result CanDataValue) →
    List ((UInt8 × FieldInfo) × CanDataValue)
  | [] => []
  | (_, .error _) :: _ => []
  | (field, .ok value) :: rest => (field, value) :: storedRows rest

namespace CanNode

def cacheAll (timestamp : DateTime) (rows : List ((UInt8 × FieldInfo) × CanDataValue))
    (node : CanNode) : CanNode :=
  { node with values := rows.foldl (fun values row => values.insert row.1.1 (timestamp, row.2)) node.values }

def groupLayout (node : CanNode) (groupId : UInt8) : Option (List (UInt8 × FieldInfo)) :=
  (node.telemetryGroups.lookup groupId).bind fun group =>
    group.fields.mapM fun id => (node.telemetryFields.lookup id).map fun fieldInfo => (id, fieldInfo)

def fieldInfo? (node : CanNode) (fieldId : UInt8) : Option FieldInfo :=
  (node.telemetryFields.lookup fieldId).or (node.parameterFields.lookup fieldId)

structure Receipt where
  node : CanNode
  accepted : Bool
  events : List Event := []

variable (liquidCan : LiquidCan)

def decode (node : CanNode) : CanMessage → Option (List ((UInt8 × FieldInfo) × Result CanDataValue))
  | .telemetryGroupUpdate payload => (node.groupLayout payload.groupId).map fun layout =>
      layout.zip (liquidCan.unpack payload.values (layout.map (·.2.dataType)))
  | .fieldGetRes payload => (node.fieldInfo? payload.fieldId).map fun fieldInfo =>
      [((payload.fieldId, fieldInfo), liquidCan.convertFromRaw payload.value fieldInfo.dataType)]
  | _ => none

def receive (node : CanNode) (nodeId : UInt8) (timestamp : DateTime) (message : CanMessage) : Receipt :=
  match message with
  | .heartbeatRes payload =>
      { node := { node with latestHeartbeatReceived := some (timestamp, payload.counter) }
        accepted := true }
  | message =>
      match node.decode liquidCan message with
      | none => { node, accepted := false }
      | some rows => {
          node := node.cacheAll timestamp (storedRows rows)
          accepted := rows.all fun row => row.2.isOk
          events := (storedRows rows).map fun row =>
            .nodeFieldUpdated (NodeManager.telemetryLog timestamp nodeId row.1.1 row.1.2 row.2) }

end CanNode

namespace NodeSlot

def announce (slot : NodeSlot) (info : RegistrationInfo) : NodeSlot :=
  if (CanNode.new info).nodeRegistrationComplete then { slot with registered := some (CanNode.new info) }
  else { slot with registering := some (CanNode.new info) }

def settle (slot : NodeSlot) (node : CanNode) : NodeSlot :=
  if node.nodeRegistrationComplete then { registering := none, registered := some node }
  else { slot with registering := some node }

def heartbeat (timestamp : DateTime) (slot : NodeSlot) : NodeSlot :=
  { slot with registered := slot.registered.map (NodeManager.sendHeartbeat timestamp) }

variable (liquidCan : LiquidCan)

def handle (slot : NodeSlot) (nodeId : UInt8) (timestamp : DateTime) (message : CanMessage) : SlotOutcome :=
  match message with
  | .nodeInfoAnnouncement payload =>
      { slot := slot.announce (.announced payload), accepted := true }
  | message =>
      match message.registration? with
      | some register =>
          match slot.registering with
          | some node => { slot := slot.settle (register node), accepted := true }
          | none => { slot, accepted := false }
      | none =>
          match slot.registered with
          | some node =>
              let receipt := node.receive liquidCan nodeId timestamp message
              { slot := { slot with registered := some receipt.node }
                accepted := receipt.accepted
                events := receipt.events }
          | none => { slot, accepted := false }

def Takes (nodeId : UInt8) (slot : NodeSlot) (input : SlotInput) (next : NodeSlot) : Prop :=
  match input with
  | .message timestamp message => (slot.handle liquidCan nodeId timestamp message).slot = next
  | .heartbeat timestamp => slot.heartbeat timestamp = next

end NodeSlot

namespace NodeManager

def slot (manager : NodeManager) (nodeId : UInt8) : NodeSlot where
  registering := manager.registeringNodes.lookup nodeId
  registered := manager.canNodes.lookup nodeId

@[simp] theorem slot_new (mapping : Mapping) (nodeId : UInt8) : (new mapping).slot nodeId = {} := rfl

theorem slot_registering (manager : NodeManager) (nodeId : UInt8) :
    (manager.slot nodeId).registering = manager.registeringNodes.lookup nodeId := rfl

theorem slot_registered (manager : NodeManager) (nodeId : UInt8) :
    (manager.slot nodeId).registered = manager.canNodes.lookup nodeId := rfl

theorem slot_with_registered {manager : NodeManager} {nodeId : UInt8} {node : CanNode}
    (registered : manager.canNodes.lookup nodeId = some node) :
    { manager.slot nodeId with registered := some node } = manager.slot nodeId := by
  simp [slot, registered]

/-- A handled message did to the manager what the sender's slot allows, and nothing else. -/
structure Confined (manager : NodeManager) (nodeId : UInt8) (handled : Handled) (outcome : SlotOutcome) :
    Prop where
  slot : handled.manager.slot nodeId = outcome.slot
  accepted : handled.result.isOk = outcome.accepted
  events : handled.events = outcome.events
  others : ∀ other, other ≠ nodeId → handled.manager.slot other = manager.slot other
  mapping : handled.manager.mapping = manager.mapping

theorem confined_reject (manager : NodeManager) (nodeId : UInt8) (failure : Failure) :
    Confined manager nodeId (.reject manager failure)
      { slot := manager.slot nodeId, accepted := false } := by
  constructor <;> first | rfl | (intros; rfl)

theorem confined_insertNode (manager : NodeManager) (nodeId : UInt8) (node : CanNode)
    (events : List Event) :
    Confined manager nodeId
      (.accept { manager with canNodes := manager.canNodes.insert nodeId node } events)
      { slot := { manager.slot nodeId with registered := some node }, accepted := true, events } := by
  constructor
  · simp [slot, Handled.accept]
  · rfl
  · rfl
  · intro other different
    simp [slot, Handled.accept, AList.lookup_insert_ne different]
  · rfl

theorem confined_insertRegistering (manager : NodeManager) (nodeId : UInt8) (node : CanNode) :
    Confined manager nodeId
      (.accept { manager with registeringNodes := manager.registeringNodes.insert nodeId node })
      { slot := { manager.slot nodeId with registering := some node }, accepted := true } := by
  constructor
  · simp [slot, Handled.accept]
  · rfl
  · rfl
  · intro other different
    simp [slot, Handled.accept, AList.lookup_insert_ne different]
  · rfl

theorem confined_settle (manager : NodeManager) (nodeId : UInt8) (node : CanNode) :
    Confined manager nodeId (.accept (manager.settleRegistration nodeId node))
      { slot := (manager.slot nodeId).settle node, accepted := true } := by
  unfold settleRegistration NodeSlot.settle
  by_cases complete : node.nodeRegistrationComplete = true
  · simp only [complete, ↓reduceIte]
    constructor
    · simp [slot, Handled.accept]
    · rfl
    · rfl
    · intro other different
      simp [slot, Handled.accept, AList.lookup_insert_ne different, AList.lookup_erase_ne different]
    · rfl
  · simp only [complete, ↓reduceIte, Bool.false_eq_true]
    exact confined_insertRegistering manager nodeId node

theorem confined_announcement (manager : NodeManager) (canMsgId : CanMessageId)
    (payload : NodeInfoResPayload) :
    Confined manager canMsgId.senderId (manager.handleNodeInfoAnnouncement canMsgId payload)
      { slot := (manager.slot canMsgId.senderId).announce (.announced payload), accepted := true } := by
  unfold handleNodeInfoAnnouncement NodeSlot.announce
  by_cases complete : (CanNode.new (.announced payload)).nodeRegistrationComplete = true
  · simp only [RegistrationInfo.announced] at complete
    simp only [RegistrationInfo.announced, complete, ↓reduceIte]
    exact confined_insertNode manager _ _ []
  · simp only [RegistrationInfo.announced] at complete
    simp only [RegistrationInfo.announced, complete, ↓reduceIte, Bool.false_eq_true]
    exact confined_insertRegistering manager _ _

theorem confined_registration (manager : NodeManager) (canMsgId : CanMessageId)
    (payload : FieldRegistrationPayload) (isTelemetry : Bool) (register : CanNode → CanNode)
    (effect : (if isTelemetry then CanMessage.telemetryValueRegistration payload
      else CanMessage.parameterRegistration payload).registration? = some register) :
    Confined manager canMsgId.senderId (manager.handleFieldRegistration canMsgId payload isTelemetry)
      (match (manager.slot canMsgId.senderId).registering with
      | some node => { slot := (manager.slot canMsgId.senderId).settle (register node), accepted := true }
      | none => { slot := manager.slot canMsgId.senderId, accepted := false }) := by
  unfold handleFieldRegistration
  simp only [slot_registering]
  cases found : manager.registeringNodes.lookup canMsgId.senderId with
  | none => exact confined_reject manager _ _
  | some node =>
      cases isTelemetry with
      | true =>
          simp only [↓reduceIte, CanMessage.registration?, Option.some.injEq] at effect
          subst register
          exact confined_settle manager _ _
      | false =>
          simp only [Bool.false_eq_true, ↓reduceIte, CanMessage.registration?, Option.some.injEq] at effect
          subst register
          exact confined_settle manager _ _

theorem confined_groupDefinition (manager : NodeManager) (canMsgId : CanMessageId)
    (payload : TelemetryGroupDefinitionPayload) :
    Confined manager canMsgId.senderId (manager.handleTelemetryGroupDefinition canMsgId payload)
      (match (manager.slot canMsgId.senderId).registering with
      | some node => {
          slot := (manager.slot canMsgId.senderId).settle { node with
            telemetryGroups := node.telemetryGroups.insert payload.groupId { fields := payload.fieldIds } }
          accepted := true }
      | none => { slot := manager.slot canMsgId.senderId, accepted := false }) := by
  unfold handleTelemetryGroupDefinition
  simp only [slot_registering]
  cases found : manager.registeringNodes.lookup canMsgId.senderId with
  | none => exact confined_reject manager _ _
  | some node => exact confined_settle manager _ _

theorem storeGroupValues_confined (timestamp : DateTime) (nodeId groupId : UInt8)
    (rows : List ((UInt8 × FieldInfo) × Result CanDataValue)) (manager : NodeManager) (node : CanNode)
    (registered : manager.canNodes.lookup nodeId = some node) :
    Confined manager nodeId (storeGroupValues timestamp nodeId groupId rows manager node) {
      slot := { manager.slot nodeId with registered := some (node.cacheAll timestamp (storedRows rows)) }
      accepted := rows.all fun row => row.2.isOk
      events := (storedRows rows).map fun row =>
        .nodeFieldUpdated (telemetryLog timestamp nodeId row.1.1 row.1.2 row.2) } := by
  induction rows generalizing manager node with
  | nil =>
      have same : node.cacheAll timestamp [] = node := rfl
      constructor <;> simp [storeGroupValues, storedRows, Handled.accept, slot, registered, same,
        Except.isOk, Except.toBool]
  | cons row rest ih =>
      obtain ⟨⟨id, fieldInfo⟩, received⟩ := row
      cases received with
      | error failure =>
          have same : node.cacheAll timestamp [] = node := rfl
          constructor <;> simp [storeGroupValues, storedRows, Handled.reject, slot, registered, same,
            Except.isOk, Except.toBool]
      | ok value =>
          let cached : CanNode := { node with values := node.values.insert id (timestamp, value) }
          let stored : NodeManager := { manager with canNodes := manager.canNodes.insert nodeId cached }
          have tail := ih stored cached (by simp [stored])
          have whole : node.cacheAll timestamp (((id, fieldInfo), value) :: storedRows rest) =
              cached.cacheAll timestamp (storedRows rest) := rfl
          constructor
          · have slotEq := tail.slot
            simp only [storeGroupValues, storedRows, whole]
            rw [slotEq]
            simp [stored, slot]
          · have acceptedEq := tail.accepted
            simpa [storeGroupValues, Except.isOk, Except.toBool] using acceptedEq
          · have eventsEq := tail.events
            simp only [storeGroupValues, storedRows, List.map_cons]
            rw [eventsEq]
          · intro other different
            have othersEq := tail.others other different
            simp only [storeGroupValues]
            rw [othersEq]
            simp [stored, slot, AList.lookup_insert_ne different]
          · exact tail.mapping

theorem groupFieldInfos_layout (node : CanNode) (nodeId groupId : UInt8) (fieldIds : List UInt8) :
    match fieldIds.mapM fun id => (node.telemetryFields.lookup id).map fun fieldInfo => (id, fieldInfo) with
    | some layout => groupFieldInfos node nodeId groupId fieldIds = .ok (layout.map (·.2)) ∧
        layout.map (·.1) = fieldIds
    | none => ∃ failure, groupFieldInfos node nodeId groupId fieldIds = .error failure := by
  induction fieldIds with
  | nil => exact ⟨rfl, rfl⟩
  | cons id rest ih =>
      simp only [groupFieldInfos, List.mapM_cons] at ih ⊢
      cases found : node.telemetryFields.lookup id with
      | none => exact ⟨_, rfl⟩
      | some fieldInfo =>
          cases remaining : rest.mapM fun id =>
              (node.telemetryFields.lookup id).map fun fieldInfo => (id, fieldInfo) with
          | none =>
              simp only [remaining] at ih
              obtain ⟨failure, failed⟩ := ih
              refine ⟨failure, ?_⟩
              simp only [orFail] at failed ⊢
              rw [failed]
              rfl
          | some layout =>
              simp only [remaining] at ih
              obtain ⟨resolved, ids⟩ := ih
              constructor
              · simp only [orFail] at resolved ⊢
                rw [resolved]
                rfl
              · simpa using ids

variable (liquidCan : LiquidCan)

theorem handleTelemetryGroupUpdate_layout (manager : NodeManager) (timestamp : DateTime)
    (canMsgId : CanMessageId) (payload : TelemetryGroupUpdatePayload) (node : CanNode)
    (registered : manager.canNodes.lookup canMsgId.senderId = some node) :
    match node.groupLayout payload.groupId with
    | some layout => manager.handleTelemetryGroupUpdate liquidCan timestamp canMsgId payload =
        storeGroupValues timestamp canMsgId.senderId payload.groupId
          (layout.zip (liquidCan.unpack payload.values (layout.map (·.2.dataType)))) manager node
    | none => ∃ failure, manager.handleTelemetryGroupUpdate liquidCan timestamp canMsgId payload =
        .reject manager failure := by
  simp only [handleTelemetryGroupUpdate, registered, CanNode.groupLayout]
  cases defined : node.telemetryGroups.lookup payload.groupId with
  | none => exact ⟨_, rfl⟩
  | some group =>
      have members := groupFieldInfos_layout node canMsgId.senderId payload.groupId group.fields
      simp only [Option.bind_some]
      cases layoutEq : group.fields.mapM fun id =>
          (node.telemetryFields.lookup id).map fun fieldInfo => (id, fieldInfo) with
      | none =>
          rw [layoutEq] at members
          obtain ⟨failure, failed⟩ := members
          simp only [failed]
          exact ⟨_, rfl⟩
      | some layout =>
          rw [layoutEq] at members
          obtain ⟨resolved, ids⟩ := members
          have zipped : group.fields.zip (layout.map (·.2)) = layout := by
            rw [← ids, List.zip_map']
            simp
          simp only [resolved, zipped, List.map_map]
          rfl

theorem confined_groupUpdate (manager : NodeManager) (timestamp : DateTime) (canMsgId : CanMessageId)
    (payload : TelemetryGroupUpdatePayload) (node : CanNode)
    (registered : manager.canNodes.lookup canMsgId.senderId = some node) :
    Confined manager canMsgId.senderId
      (manager.handleTelemetryGroupUpdate liquidCan timestamp canMsgId payload)
      (let receipt := node.receive liquidCan canMsgId.senderId timestamp (.telemetryGroupUpdate payload)
      { slot := { manager.slot canMsgId.senderId with registered := some receipt.node }
        accepted := receipt.accepted
        events := receipt.events }) := by
  have handled := handleTelemetryGroupUpdate_layout liquidCan manager timestamp canMsgId payload node
    registered
  simp only [CanNode.receive, CanNode.decode]
  cases layoutEq : node.groupLayout payload.groupId with
  | none =>
      rw [layoutEq] at handled
      obtain ⟨failure, rejected⟩ := handled
      simp only [Option.map_none, slot_with_registered registered, rejected]
      exact confined_reject manager _ _
  | some layout =>
      rw [layoutEq] at handled
      simp only [Option.map_some]
      rw [handled]
      exact storeGroupValues_confined timestamp canMsgId.senderId payload.groupId _ manager node registered

theorem confined_fieldGetRes (manager : NodeManager) (timestamp : DateTime) (canMsgId : CanMessageId)
    (payload : FieldGetResPayload) (node : CanNode)
    (registered : manager.canNodes.lookup canMsgId.senderId = some node) :
    Confined manager canMsgId.senderId
      (manager.handleFieldGetRes liquidCan timestamp canMsgId payload)
      (let receipt := node.receive liquidCan canMsgId.senderId timestamp (.fieldGetRes payload)
      { slot := { manager.slot canMsgId.senderId with registered := some receipt.node }
        accepted := receipt.accepted
        events := receipt.events }) := by
  simp only [handleFieldGetRes, registered, CanNode.receive, CanNode.decode, CanNode.fieldInfo?]
  cases defined : (node.telemetryFields.lookup payload.fieldId).or
      (node.parameterFields.lookup payload.fieldId) with
  | none =>
      simp only [Option.map_none, slot_with_registered registered]
      exact confined_reject manager _ _
  | some fieldInfo =>
      cases converted : liquidCan.convertFromRaw payload.value fieldInfo.dataType with
      | error failure =>
          have same : node.cacheAll timestamp [] = node := rfl
          simp only [Option.map_some, converted, storedRows, same, slot_with_registered registered]
          exact confined_reject manager _ _
      | ok value =>
          simp only [Option.map_some, converted, storedRows]
          exact confined_insertNode manager _ _ _

theorem confined_heartbeatRes (manager : NodeManager) (timestamp : DateTime) (canMsgId : CanMessageId)
    (payload : HeartbeatPayload) (node : CanNode)
    (registered : manager.canNodes.lookup canMsgId.senderId = some node) :
    Confined manager canMsgId.senderId (manager.handleHeartbeatRes timestamp canMsgId payload)
      (let receipt := node.receive liquidCan canMsgId.senderId timestamp (.heartbeatRes payload)
      { slot := { manager.slot canMsgId.senderId with registered := some receipt.node }
        accepted := receipt.accepted
        events := receipt.events }) := by
  simp only [handleHeartbeatRes, registered, CanNode.receive]
  exact confined_insertNode manager _ _ _

theorem confined_handle (manager : NodeManager) (timestamp : DateTime) (messageId : CanMessageId)
    (message : CanMessage) :
    Confined manager messageId.senderId
      (manager.handleCanMessageFromNode liquidCan timestamp messageId message)
      ((manager.slot messageId.senderId).handle liquidCan messageId.senderId timestamp message) := by
  cases message with
  | nodeInfoAnnouncement payload => exact confined_announcement manager messageId payload
  | telemetryValueRegistration payload =>
      exact confined_registration manager messageId payload true _ rfl
  | parameterRegistration payload =>
      exact confined_registration manager messageId payload false _ rfl
  | telemetryGroupDefinition payload => exact confined_groupDefinition manager messageId payload
  | telemetryGroupUpdate payload =>
      simp only [handleCanMessageFromNode, NodeSlot.handle, CanMessage.registration?, slot_registered]
      cases registered : manager.canNodes.lookup messageId.senderId with
      | none =>
          simp only [handleTelemetryGroupUpdate, registered]
          exact confined_reject manager _ _
      | some node => exact confined_groupUpdate liquidCan manager timestamp messageId payload node registered
  | fieldGetRes payload =>
      simp only [handleCanMessageFromNode, NodeSlot.handle, CanMessage.registration?, slot_registered]
      cases registered : manager.canNodes.lookup messageId.senderId with
      | none =>
          simp only [handleFieldGetRes, registered]
          exact confined_reject manager _ _
      | some node => exact confined_fieldGetRes liquidCan manager timestamp messageId payload node registered
  | heartbeatRes payload =>
      simp only [handleCanMessageFromNode, NodeSlot.handle, CanMessage.registration?, slot_registered]
      cases registered : manager.canNodes.lookup messageId.senderId with
      | none =>
          simp only [handleHeartbeatRes, registered]
          exact confined_reject manager _ _
      | some node => exact confined_heartbeatRes liquidCan manager timestamp messageId payload node registered
  | _ =>
      simp only [handleCanMessageFromNode, NodeSlot.handle, CanMessage.registration?, slot_registered]
      cases registered : manager.canNodes.lookup messageId.senderId with
      | none => exact confined_reject manager _ _
      | some node =>
          simp only [CanNode.receive, CanNode.decode, slot_with_registered registered]
          exact confined_reject manager _ _

theorem slot_dispatchHeartbeatRequests (manager : NodeManager) (timestamp : DateTime) (nodeId : UInt8) :
    (manager.dispatchHeartbeatRequests timestamp).manager.slot nodeId =
      (manager.slot nodeId).heartbeat timestamp := by
  simp [dispatchHeartbeatRequests, Handled.accept, slot, NodeSlot.heartbeat, KeyedMap.lookup_mapValues]

def Operation.seenBy (nodeId : UInt8) : Operation → Option SlotInput
  | .message timestamp id received =>
      if id.senderId = nodeId then some (.message timestamp received) else none
  | .heartbeat timestamp => some (.heartbeat timestamp)

theorem slot_perform (manager next : NodeManager) (operation : Operation) (nodeId : UInt8)
    (performed : manager.Performs liquidCan operation next) :
    match operation.seenBy nodeId with
    | some input => (manager.slot nodeId).Takes liquidCan nodeId input (next.slot nodeId)
    | none => next.slot nodeId = manager.slot nodeId := by
  subst performed
  cases operation with
  | heartbeat timestamp => exact (slot_dispatchHeartbeatRequests manager timestamp nodeId).symm
  | message timestamp id message =>
      have confined := confined_handle liquidCan manager timestamp id message
      by_cases sender : id.senderId = nodeId
      · subst nodeId
        simp only [Operation.seenBy, ↓reduceIte]
        exact confined.slot.symm
      · simp only [Operation.seenBy, sender, ↓reduceIte]
        exact confined.others nodeId (Ne.symm sender)

def replay (manager : NodeManager) (operations : List Operation) : NodeManager :=
  operations.foldl (fun state operation => (state.perform liquidCan operation).manager) manager

theorem run_iff_replay {manager final : NodeManager} {operations : List Operation} :
    Transition.Run (Performs liquidCan) manager operations final ↔
      manager.replay liquidCan operations = final :=
  Transition.run_iff_foldl

/-- A run of the manager is, in each slot, the run over what that slot notices. -/
theorem slot_run {manager final : NodeManager} {operations : List Operation}
    (run : Transition.Run (Performs liquidCan) manager operations final) (nodeId : UInt8) :
    Transition.Run (NodeSlot.Takes liquidCan nodeId) (manager.slot nodeId)
      (operations.filterMap (Operation.seenBy nodeId)) (final.slot nodeId) := by
  apply run.project (fun manager => manager.slot nodeId) (Operation.seenBy nodeId)
  · intro start operation finish input performed seen
    have taken := slot_perform liquidCan start finish operation nodeId performed
    rwa [seen] at taken
  · intro start operation finish performed unseen
    have taken := slot_perform liquidCan start finish operation nodeId performed
    rwa [unseen] at taken

theorem mapping_run {manager final : NodeManager} {operations : List Operation}
    (run : Transition.Run (Performs liquidCan) manager operations final) :
    final.mapping = manager.mapping := by
  apply run.invariant fun state => state.mapping = manager.mapping
  · intro state operation next same performed
    subst performed
    cases operation with
    | heartbeat timestamp => exact same
    | message timestamp canMsgId message =>
        exact (confined_handle liquidCan state timestamp canMsgId message).mapping.trans same
  · rfl

end NodeManager

end FerroFlow
