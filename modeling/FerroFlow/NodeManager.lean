import FerroFlow.CanNode
import FerroFlow.Events
import FerroFlow.Mapping

/-! The node manager: registration of CAN nodes, the cache of their values, heartbeats, and
reading values by field name. Every handler returns its result, the manager after it, and
the events it dispatched. -/

namespace FerroFlow

structure NodeManager where
  mapping : Mapping
  canNodes : HashMap UInt8 CanNode := ∅
  registeringNodes : HashMap UInt8 CanNode := ∅

structure Handled where
  result : Result Unit
  manager : NodeManager
  events : List Event := []

namespace Handled

def accept (manager : NodeManager) (events : List Event := []) : Handled :=
  { result := .ok (), manager, events }

def reject (manager : NodeManager) (failure : Failure) : Handled :=
  { result := .error failure, manager }

end Handled

def canDataValueToJson : CanDataValue → JsonValue
  | .float32 value => .ofF64 value
  | .int32 value => .ofInt (by decide) (by decide) value
  | .int16 value => .ofInt (by decide) (by decide) value
  | .int8 value => .ofInt (by decide) (by decide) value
  | .uint32 value => .ofInt (by decide) (by decide) value
  | .uint16 value => .ofInt (by decide) (by decide) value
  | .uint8 value => .ofInt (by decide) (by decide) value
  | .boolean value => .bool value
  | .raw items => .array (items.map fun item => .ofInt (by decide) (by decide) (u8AsI16 item))

namespace NodeManager

def new (mapping : Mapping) : NodeManager :=
  { mapping }

def settleRegistration (manager : NodeManager) (nodeId : UInt8) (node : CanNode) : NodeManager :=
  if node.nodeRegistrationComplete then
    { manager with
      registeringNodes := manager.registeringNodes.erase nodeId
      canNodes := manager.canNodes.insert nodeId node }
  else { manager with registeringNodes := manager.registeringNodes.insert nodeId node }

def handleNodeInfoAnnouncement (manager : NodeManager) (canMsgId : CanMessageId)
    (nodeInfoRes : NodeInfoResPayload) : Handled :=
  let nodeId := canMsgId.senderId
  let node := CanNode.new {
    telemetryCount := nodeInfoRes.telCount
    parameterCount := nodeInfoRes.parCount
    firmwareHash := nodeInfoRes.firmwareHash
    protocolHash := nodeInfoRes.liquidHash
    deviceName := nodeInfoRes.deviceName }
  if node.nodeRegistrationComplete then
    .accept { manager with canNodes := manager.canNodes.insert nodeId node }
  else .accept { manager with registeringNodes := manager.registeringNodes.insert nodeId node }

def handleFieldRegistration (manager : NodeManager) (canMsgId : CanMessageId)
    (fieldRegistration : FieldRegistrationPayload) (isTelemetry : Bool) : Handled :=
  let nodeId := canMsgId.senderId
  let fieldInfo : FieldInfo :=
    { name := fieldRegistration.fieldName, dataType := fieldRegistration.fieldType }
  match manager.registeringNodes.lookup nodeId with
  | some node =>
      let id := fieldRegistration.fieldId
      let node :=
        if isTelemetry then { node with telemetryFields := node.telemetryFields.insert id fieldInfo }
        else { node with parameterFields := node.parameterFields.insert id fieldInfo }
      .accept (manager.settleRegistration nodeId node)
  | none => .reject manager (.error
      [s!"Received field registration for node {nodeId} but it is not currently registering"])

def handleTelemetryGroupDefinition (manager : NodeManager) (canMsgId : CanMessageId)
    (groupDefinition : TelemetryGroupDefinitionPayload) : Handled :=
  let nodeId := canMsgId.senderId
  match manager.registeringNodes.lookup nodeId with
  | some node =>
      let group : TelemetryGroupDefinition := { fields := groupDefinition.fieldIds }
      let node := { node with
        telemetryGroups := node.telemetryGroups.insert groupDefinition.groupId group }
      .accept (manager.settleRegistration nodeId node)
  | none => .reject manager (.error
      [s!"Received telemetry group definition for node {nodeId} but it is not registered"])

def telemetryLog (timestamp : DateTime) (nodeId id : UInt8) (fieldInfo : FieldInfo)
    (value : CanDataValue) : FieldLog where
  timestamp := timestamp
  nodeId := u8AsI16 nodeId
  fieldId := u8AsI16 id
  fieldName := fieldInfo.name
  fieldValue := canDataValueToJson value

def storeValue (manager : NodeManager) (timestamp : DateTime) (nodeId : UInt8) (node : CanNode)
    (id : UInt8) (fieldInfo : FieldInfo) (value : CanDataValue) : Handled :=
  let node := { node with values := node.values.insert id (timestamp, value) }
  .accept { manager with canNodes := manager.canNodes.insert nodeId node }
    [.nodeFieldUpdated (telemetryLog timestamp nodeId id fieldInfo value)]

/-- The loop over the unpacked values of a group: it stops at the first one that failed. -/
def storeGroupValues (timestamp : DateTime) (nodeId groupId : UInt8) :
    List ((UInt8 × FieldInfo) × Result CanDataValue) → NodeManager → CanNode → Handled
  | [], manager, _ => .accept manager
  | ((id, _), .error failure) :: _, manager, _ => .reject manager (failure.context
      s!"failed to unpack value for node {nodeId} group {groupId} field {id}")
  | ((id, fieldInfo), .ok value) :: rest, manager, node =>
      let node := { node with values := node.values.insert id (timestamp, value) }
      let manager := { manager with canNodes := manager.canNodes.insert nodeId node }
      let handled := storeGroupValues timestamp nodeId groupId rest manager node
      { handled with events :=
          .nodeFieldUpdated (telemetryLog timestamp nodeId id fieldInfo value) :: handled.events }

def groupFieldInfos (node : CanNode) (nodeId groupId : UInt8) (fieldIds : List UInt8) :
    Result (List FieldInfo) :=
  fieldIds.mapM fun id => orFail
    s!"received telemetry group update for node {nodeId} and group {groupId} but field {id} is not defined"
    (node.telemetryFields.lookup id)

variable (liquidCan : LiquidCan)

def handleTelemetryGroupUpdate (manager : NodeManager) (timestamp : DateTime)
    (canMsgId : CanMessageId) (groupUpdate : TelemetryGroupUpdatePayload) : Handled :=
  let nodeId := canMsgId.senderId
  let groupId := groupUpdate.groupId
  match manager.canNodes.lookup nodeId with
  | none => .reject manager (.error
      [s!"received telemetry group update for node {nodeId} but it is not registered"])
  | some node =>
      match node.telemetryGroups.lookup groupId with
      | none => .reject manager (.error
          [s!"received telemetry group update for node {nodeId} and group {groupId} but the group is not defined"])
      | some group =>
          match groupFieldInfos node nodeId groupId group.fields with
          | .error failure => .reject manager failure
          | .ok fieldInfos =>
              let rawValues := liquidCan.unpack groupUpdate.values (fieldInfos.map (·.dataType))
              storeGroupValues timestamp nodeId groupId
                ((group.fields.zip fieldInfos).zip rawValues) manager node

def handleFieldGetRes (manager : NodeManager) (timestamp : DateTime) (canMsgId : CanMessageId)
    (res : FieldGetResPayload) : Handled :=
  let nodeId := canMsgId.senderId
  let fieldId := res.fieldId
  match manager.canNodes.lookup nodeId with
  | none => .reject manager (.error
      [s!"received field get response for node {nodeId} but it is not registered"])
  | some node =>
      match (node.telemetryFields.lookup fieldId).or (node.parameterFields.lookup fieldId) with
      | none => .reject manager (.error
          [s!"received field get response for node {nodeId} field {fieldId} but no field definition exists"])
      | some fieldInfo =>
          match liquidCan.convertFromRaw res.value fieldInfo.dataType with
          | .error failure => .reject manager (failure.context
              s!"failed to convert field get response value for node {nodeId} field {fieldId} from {res.value}")
          | .ok value => manager.storeValue timestamp nodeId node fieldId fieldInfo value

def handleHeartbeatRes (manager : NodeManager) (timestamp : DateTime) (canMsgId : CanMessageId)
    (payload : HeartbeatPayload) : Handled :=
  let nodeId := canMsgId.senderId
  match manager.canNodes.lookup nodeId with
  | none => .reject manager (.error
      [s!"received heartbeat response for node {nodeId} but it is not registered"])
  | some node =>
      let node := { node with latestHeartbeatReceived := some (timestamp, payload.counter) }
      .accept { manager with canNodes := manager.canNodes.insert nodeId node }

/-- `timestamp` is the reading of the wall clock while the message is handled. -/
def handleCanMessageFromNode (manager : NodeManager) (timestamp : DateTime)
    (messageId : CanMessageId) (message : CanMessage) : Handled :=
  match message with
  | .nodeInfoAnnouncement payload => manager.handleNodeInfoAnnouncement messageId payload
  | .telemetryValueRegistration payload => manager.handleFieldRegistration messageId payload true
  | .parameterRegistration payload => manager.handleFieldRegistration messageId payload false
  | .telemetryGroupDefinition payload => manager.handleTelemetryGroupDefinition messageId payload
  | .telemetryGroupUpdate payload =>
      manager.handleTelemetryGroupUpdate liquidCan timestamp messageId payload
  | .fieldGetRes payload => manager.handleFieldGetRes liquidCan timestamp messageId payload
  | .heartbeatRes payload => manager.handleHeartbeatRes timestamp messageId payload
  | _ => .reject manager (.error
      [s!"received unsupported CAN message from node {messageId.senderId}: {message}"])

def nextHeartbeat (node : CanNode) : UInt32 :=
  match node.latestHeartbeatSent with
  | some (_, counter) => counter + 1
  | none => 0

def sendHeartbeat (timestamp : DateTime) (node : CanNode) : CanNode :=
  { node with latestHeartbeatSent := some (timestamp, nextHeartbeat node) }

def dispatchHeartbeatRequests (manager : NodeManager) (timestamp : DateTime) : Handled :=
  .accept { manager with canNodes := manager.canNodes.mapValues (sendHeartbeat timestamp) }
    (manager.canNodes.toPairs.map fun entry =>
      .sendCanMessage entry.1 (.heartbeatReq { counter := nextHeartbeat entry.2 }))

inductive Operation
  | message (timestamp : DateTime) (id : CanMessageId) (message : CanMessage)
  | heartbeat (timestamp : DateTime)

def perform (manager : NodeManager) : Operation → Handled
  | .message timestamp id message => manager.handleCanMessageFromNode liquidCan timestamp id message
  | .heartbeat timestamp => manager.dispatchHeartbeatRequests timestamp

def Performs (manager : NodeManager) (operation : Operation) (next : NodeManager) : Prop :=
  (manager.perform liquidCan operation).manager = next

end NodeManager

end FerroFlow
