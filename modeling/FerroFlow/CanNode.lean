import FerroFlow.LiquidCan

/-! A CAN node: what it announced, the fields and groups it registered, and its cached values. -/

namespace FerroFlow

structure RegistrationInfo where
  telemetryCount : UInt8
  parameterCount : UInt8
  firmwareHash : UInt32
  protocolHash : UInt32
  deviceName : String
deriving DecidableEq, Repr

structure FieldInfo where
  dataType : CanDataType
  name : String
deriving DecidableEq, Repr

structure TelemetryGroupDefinition where
  fields : List UInt8
deriving DecidableEq, Repr

structure CanNode where
  registrationInfo : RegistrationInfo
  telemetryFields : HashMap UInt8 FieldInfo := ∅
  parameterFields : HashMap UInt8 FieldInfo := ∅
  telemetryGroups : HashMap UInt8 TelemetryGroupDefinition := ∅
  values : HashMap UInt8 (DateTime × CanDataValue) := ∅
  latestHeartbeatSent : Option (DateTime × UInt32) := none
  latestHeartbeatReceived : Option (DateTime × UInt32) := none
deriving DecidableEq

namespace CanNode

def new (registrationInfo : RegistrationInfo) : CanNode :=
  { registrationInfo }

/-- The number of group members over all groups, repeated ones counted each time. -/
def groupedFieldCount (node : CanNode) : ℕ :=
  (node.telemetryGroups.values.map fun group => group.fields.length).sum

def nodeRegistrationComplete (node : CanNode) : Bool :=
  let allFieldsRegistered :=
    decide (node.telemetryFields.size = node.registrationInfo.telemetryCount.toNat) &&
      decide (node.parameterFields.size = node.registrationInfo.parameterCount.toNat)
  let allTelemetryGroupsRegistered :=
    decide (node.groupedFieldCount = node.registrationInfo.telemetryCount.toNat)
  allFieldsRegistered && allTelemetryGroupsRegistered

theorem nodeRegistrationComplete_iff (node : CanNode) :
    node.nodeRegistrationComplete = true ↔
      node.telemetryFields.size = node.registrationInfo.telemetryCount.toNat ∧
      node.parameterFields.size = node.registrationInfo.parameterCount.toNat ∧
      node.groupedFieldCount = node.registrationInfo.telemetryCount.toNat := by
  simp [nodeRegistrationComplete, and_assoc]

/-- What a node registered, as opposed to what was received from it later. -/
structure Definition where
  registrationInfo : RegistrationInfo
  telemetryFields : HashMap UInt8 FieldInfo
  parameterFields : HashMap UInt8 FieldInfo
  telemetryGroups : HashMap UInt8 TelemetryGroupDefinition
deriving DecidableEq

def definition (node : CanNode) : Definition where
  registrationInfo := node.registrationInfo
  telemetryFields := node.telemetryFields
  parameterFields := node.parameterFields
  telemetryGroups := node.telemetryGroups

theorem complete_of_definition_eq {left right : CanNode}
    (same : left.definition = right.definition) :
    left.nodeRegistrationComplete = right.nodeRegistrationComplete := by
  obtain ⟨info, telemetry, parameter, groups⟩ := Definition.mk.inj same
  unfold nodeRegistrationComplete groupedFieldCount
  rw [info, telemetry, parameter, groups]

end CanNode

end FerroFlow
