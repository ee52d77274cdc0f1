import FerroFlow.DecodingHistory

/-! When a message that is answered with an error left no trace. A group update stores each
value before it looks at the next one, so its error can come too late. -/

namespace FerroFlow

variable (liquidCan : LiquidCan)

namespace NodeManager

def Atomic (manager : NodeManager) (handled : Handled) : Prop :=
  (∃ failure, handled.result = .error failure) → handled.manager = manager ∧ handled.events = []

theorem atomic_accept (manager next : NodeManager) (events : List Event) :
    manager.Atomic (.accept next events) := by
  rintro ⟨failure, failed⟩
  simp [Handled.accept] at failed

theorem atomic_reject (manager : NodeManager) (failure : Failure) :
    manager.Atomic (.reject manager failure) := by
  intro _
  exact ⟨rfl, rfl⟩

theorem atomic_announcement (manager : NodeManager) (id : CanMessageId) (payload : NodeInfoResPayload) :
    manager.Atomic (manager.handleNodeInfoAnnouncement id payload) := by
  unfold handleNodeInfoAnnouncement
  by_cases complete : (CanNode.new (.announced payload)).nodeRegistrationComplete = true
  · simp only [RegistrationInfo.announced] at complete
    simp only [complete, ↓reduceIte]
    exact atomic_accept _ _ _
  · simp only [RegistrationInfo.announced] at complete
    simp only [complete, ↓reduceIte, Bool.false_eq_true]
    exact atomic_accept _ _ _

theorem atomic_registration (manager : NodeManager) (timestamp : DateTime) (id : CanMessageId)
    {message : CanMessage} {register : CanNode → CanNode}
    (effect : message.registration? = some register) :
    manager.Atomic (manager.handleCanMessageFromNode liquidCan timestamp id message) := by
  cases registering : manager.registeringNodes.lookup id.senderId with
  | none =>
      obtain ⟨failure, rejected⟩ := handle_unregistered liquidCan timestamp effect registering
      rw [rejected]
      exact atomic_reject manager failure
  | some node =>
      have accepted := handle_registering liquidCan timestamp effect registering
      rintro ⟨failure, failed⟩
      rw [accepted] at failed
      cases failed

theorem atomic_fieldGetRes (manager : NodeManager) (timestamp : DateTime) (id : CanMessageId)
    (payload : FieldGetResPayload) :
    manager.Atomic (manager.handleFieldGetRes liquidCan timestamp id payload) := by
  cases registered : manager.canNodes.lookup id.senderId with
  | none =>
      simp only [handleFieldGetRes, registered]
      exact atomic_reject manager _
  | some node =>
      cases defined : (node.telemetryFields.lookup payload.fieldId).or
          (node.parameterFields.lookup payload.fieldId) with
      | none =>
          simp only [handleFieldGetRes, registered, defined]
          exact atomic_reject manager _
      | some fieldInfo =>
          cases converted : liquidCan.convertFromRaw payload.value fieldInfo.dataType with
          | error failure =>
              simp only [handleFieldGetRes, registered, defined, converted]
              exact atomic_reject manager _
          | ok value =>
              simp only [handleFieldGetRes, registered, defined, converted]
              exact atomic_accept _ _ _

theorem atomic_heartbeatRes (manager : NodeManager) (timestamp : DateTime) (id : CanMessageId)
    (payload : HeartbeatPayload) :
    manager.Atomic (manager.handleHeartbeatRes timestamp id payload) := by
  cases registered : manager.canNodes.lookup id.senderId with
  | none =>
      simp only [handleHeartbeatRes, registered]
      exact atomic_reject manager _
  | some node =>
      simp only [handleHeartbeatRes, registered]
      exact atomic_accept _ _ _

theorem atomic_storeGroupValues_iff (timestamp : DateTime) (nodeId groupId : UInt8)
    (rows : List ((UInt8 × FieldInfo) × Result CanDataValue)) (manager : NodeManager) (node : CanNode)
    (registered : manager.canNodes.lookup nodeId = some node) :
    manager.Atomic (storeGroupValues timestamp nodeId groupId rows manager node) ↔
      (∀ row ∈ rows, row.2.isOk = true) ∨
        ∃ field failure rest, rows = (field, .error failure) :: rest := by
  have confined := storeGroupValues_confined timestamp nodeId groupId rows manager node registered
  have accepted := confined.accepted
  constructor
  · intro atomic
    by_cases allStored : ∀ row ∈ rows, row.2.isOk = true
    · exact Or.inl allStored
    · right
      have refused : (storeGroupValues timestamp nodeId groupId rows manager node).result.isOk = false := by
        rw [accepted]
        simpa using allStored
      have failed : ∃ failure,
          (storeGroupValues timestamp nodeId groupId rows manager node).result = .error failure := by
        cases outcome : (storeGroupValues timestamp nodeId groupId rows manager node).result with
        | error failure => exact ⟨failure, rfl⟩
        | ok value =>
            rw [outcome] at refused
            cases refused
      have silent := (atomic failed).2
      rw [confined.events] at silent
      match rows with
      | [] => exact (allStored (by simp)).elim
      | (field, .error failure) :: rest => exact ⟨field, failure, rest, rfl⟩
      | (field, .ok value) :: rest => simp [storedRows] at silent
  · rintro (allStored | ⟨field, failure, rest, rfl⟩)
    · rintro ⟨failure, failed⟩
      rw [failed] at accepted
      have everyRow : (rows.all fun row => row.2.isOk) = true := by simpa using allStored
      rw [everyRow] at accepted
      cases accepted
    · exact atomic_reject manager _

/-- Unpacking a group update fails at its first value or not at all. -/
def UnpacksAllOrNothing (manager : NodeManager) (id : CanMessageId) (message : CanMessage) : Prop :=
  ∀ payload node layout, message = .telemetryGroupUpdate payload →
    manager.canNodes.lookup id.senderId = some node → node.groupLayout payload.groupId = some layout →
      let values := liquidCan.unpack payload.values (layout.map (·.2.dataType))
      (∀ value ∈ values, value.isOk = true) ∨ ∃ failure rest, values = .error failure :: rest

theorem zip_allOrNothing_iff {fields : List (UInt8 × FieldInfo)} {values : List (Result CanDataValue)}
    (sameLength : values.length = fields.length) :
    ((∀ row ∈ fields.zip values, row.2.isOk = true) ∨
        ∃ field failure rest, fields.zip values = (field, .error failure) :: rest) ↔
      (∀ value ∈ values, value.isOk = true) ∨ ∃ failure rest, values = .error failure :: rest := by
  have second : (fields.zip values).map Prod.snd = values := List.map_snd_zip (by omega)
  have allOk : (∀ row ∈ fields.zip values, row.2.isOk = true) ↔ ∀ value ∈ values, value.isOk = true := by
    constructor
    · intro each value member
      rw [← second] at member
      obtain ⟨row, rowMember, rfl⟩ := List.mem_map.mp member
      exact each row rowMember
    · rintro each ⟨field, value⟩ member
      exact each value (List.of_mem_zip member).2
  have firstFails : (∃ field failure rest, fields.zip values = (field, .error failure) :: rest) ↔
      ∃ failure rest, values = .error failure :: rest := by
    constructor
    · rintro ⟨field, failure, rest, split⟩
      rw [split] at second
      exact ⟨failure, _, second.symm⟩
    · rintro ⟨failure, rest, rfl⟩
      cases fields with
      | nil => simp at sameLength
      | cons field fields => exact ⟨field, failure, _, rfl⟩
  rw [allOk, firstFails]

/-- A message is handled atomically exactly when it is not a group update that stores some of
its values and then fails. -/
theorem handle_atomic_iff (lawful : liquidCan.Lawful) (manager : NodeManager) (timestamp : DateTime)
    (id : CanMessageId) (message : CanMessage) :
    manager.Atomic (manager.handleCanMessageFromNode liquidCan timestamp id message) ↔
      manager.UnpacksAllOrNothing liquidCan id message := by
  have otherMessage (other : ∀ payload, message ≠ .telemetryGroupUpdate payload) :
      manager.UnpacksAllOrNothing liquidCan id message :=
    fun payload _ _ same => (other payload same).elim
  cases message with
  | telemetryGroupUpdate payload =>
      simp only [handleCanMessageFromNode]
      cases registered : manager.canNodes.lookup id.senderId with
      | none =>
          simp only [handleTelemetryGroupUpdate, registered]
          constructor
          · intro _ _ node _ _ found
            exact (Option.some_ne_none _ (found.symm.trans registered)).elim
          · intro _
            exact atomic_reject manager _
      | some node =>
          have handled := handleTelemetryGroupUpdate_layout liquidCan manager timestamp id payload node
            registered
          cases layoutEq : node.groupLayout payload.groupId with
          | none =>
              rw [layoutEq] at handled
              obtain ⟨failure, rejected⟩ := handled
              rw [rejected]
              constructor
              · rintro _ _ found layout ⟨⟩ sameNode sameLayout
                obtain rfl := Option.some.inj (registered.symm.trans sameNode)
                exact (Option.some_ne_none _ (sameLayout.symm.trans layoutEq)).elim
              · intro _
                exact atomic_reject manager failure
          | some layout =>
              rw [layoutEq] at handled
              have sameLength := lawful.unpackLength payload.values (layout.map (·.2.dataType))
              rw [List.length_map] at sameLength
              rw [handled, atomic_storeGroupValues_iff _ _ _ _ _ _ registered,
                zip_allOrNothing_iff sameLength]
              constructor
              · rintro outcome _ found foundLayout ⟨⟩ sameNode sameLayout
                obtain rfl := Option.some.inj (registered.symm.trans sameNode)
                obtain rfl := Option.some.inj (layoutEq.symm.trans sameLayout)
                exact outcome
              · intro allOrNothing
                exact allOrNothing payload node layout rfl registered layoutEq
  | nodeInfoAnnouncement payload =>
      exact iff_of_true (atomic_announcement manager id payload) (otherMessage (by simp))
  | telemetryValueRegistration payload =>
      exact iff_of_true (atomic_registration liquidCan manager timestamp id rfl) (otherMessage (by simp))
  | parameterRegistration payload =>
      exact iff_of_true (atomic_registration liquidCan manager timestamp id rfl) (otherMessage (by simp))
  | telemetryGroupDefinition payload =>
      exact iff_of_true (atomic_registration liquidCan manager timestamp id rfl) (otherMessage (by simp))
  | fieldGetRes payload =>
      exact iff_of_true (atomic_fieldGetRes liquidCan manager timestamp id payload) (otherMessage (by simp))
  | heartbeatRes payload =>
      exact iff_of_true (atomic_heartbeatRes manager timestamp id payload) (otherMessage (by simp))
  | _ => exact iff_of_true (atomic_reject manager _) (otherMessage (by simp))

def twoFieldRun : List Operation := [
  .message 0 ⟨5, 0⟩ (.nodeInfoAnnouncement ⟨2, 0, 0, 0, "test_node"⟩),
  .message 0 ⟨5, 0⟩ (.telemetryValueRegistration ⟨10, .uint16, "a"⟩),
  .message 0 ⟨5, 0⟩ (.telemetryValueRegistration ⟨11, .uint32, "b"⟩),
  .message 0 ⟨5, 0⟩ (.telemetryGroupDefinition ⟨1, [10, 11]⟩)]

def twoFieldNode : CanNode where
  registrationInfo := ⟨2, 0, 0, 0, "test_node"⟩
  telemetryFields := (AList.insert 10 ⟨.uint16, "a"⟩ ∅).insert 11 ⟨.uint32, "b"⟩
  telemetryGroups := AList.insert 1 ⟨[10, 11]⟩ ∅

def twoFieldManager : NodeManager where
  mapping := {}
  canNodes := AList.insert 5 twoFieldNode ∅

theorem twoFieldRun_reaches :
    Transition.Run (Performs LiquidCan.littleEndian) (new {}) twoFieldRun twoFieldManager :=
  (run_iff_replay LiquidCan.littleEndian).mpr rfl

def fullUpdate : CanMessage := .telemetryGroupUpdate ⟨1, ⟨[0x34, 0x12, 0xEF, 0xCD, 0xAB, 0x89]⟩⟩

def shortUpdate : CanMessage := .telemetryGroupUpdate ⟨1, ⟨[0x34, 0x12]⟩⟩

theorem fullUpdate_atomic : twoFieldManager.Atomic
    (twoFieldManager.handleCanMessageFromNode LiquidCan.littleEndian 0 ⟨5, 0⟩ fullUpdate) := by
  apply (handle_atomic_iff LiquidCan.littleEndian LiquidCan.littleEndian_lawful _ _ _ _).mpr
  rintro payload node layout ⟨⟩ registered found
  obtain rfl : twoFieldNode = node := Option.some.inj registered
  obtain rfl : [(10, ⟨.uint16, "a"⟩), (11, ⟨.uint32, "b"⟩)] = layout := Option.some.inj found
  left
  decide

theorem shortUpdate_not_atomic :
    ¬ ∀ (operations : List Operation) (manager : NodeManager) (timestamp : DateTime) (id : CanMessageId)
        (message : CanMessage),
      Transition.Run (Performs LiquidCan.littleEndian) (new {}) operations manager →
      manager.Atomic (manager.handleCanMessageFromNode LiquidCan.littleEndian timestamp id message) := by
  intro claim
  have atomic := claim twoFieldRun twoFieldManager 0 ⟨5, 0⟩ shortUpdate twoFieldRun_reaches
  have silent := (atomic ⟨_, rfl⟩).2
  exact List.cons_ne_nil _ _ silent

end NodeManager

end FerroFlow
