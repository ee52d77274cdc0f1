import FerroFlow.NodeSlots

/-! Registration: a node is registered with a complete definition or not at all, and the
definition it gets does not depend on the order of the messages that make it up. -/

namespace FerroFlow

variable (liquidCan : LiquidCan)

/-- A registered node is complete, and a complete node is not left registering. -/
structure NodeSlot.Settled (slot : NodeSlot) : Prop where
  complete : ∀ node, slot.registered = some node → node.nodeRegistrationComplete = true
  incomplete : ∀ node, slot.registering = some node → node.nodeRegistrationComplete = false

theorem CanNode.receive_definition (node : CanNode) (nodeId : UInt8) (timestamp : DateTime)
    (message : CanMessage) :
    (node.receive liquidCan nodeId timestamp message).node.definition = node.definition := by
  unfold receive
  split
  · rfl
  · split <;> rfl

namespace NodeSlot

theorem Settled.announce {slot : NodeSlot} (settled : slot.Settled) (info : RegistrationInfo) :
    (slot.announce info).Settled := by
  unfold NodeSlot.announce
  by_cases complete : (CanNode.new info).nodeRegistrationComplete = true
  · simp only [complete, ↓reduceIte]
    constructor
    · intro node found
      simp only [Option.some.injEq] at found
      subst node
      exact complete
    · exact settled.incomplete
  · simp only [complete, ↓reduceIte, Bool.false_eq_true]
    constructor
    · exact settled.complete
    · intro node found
      simp only [Option.some.injEq] at found
      subst node
      simpa using complete

theorem Settled.settle {slot : NodeSlot} (settled : slot.Settled) (node : CanNode) :
    (slot.settle node).Settled := by
  unfold NodeSlot.settle
  by_cases complete : node.nodeRegistrationComplete = true
  · simp only [complete, ↓reduceIte]
    constructor
    · intro found same
      simp only [Option.some.injEq] at same
      subst found
      exact complete
    · intro found impossible
      simp at impossible
  · simp only [complete, ↓reduceIte, Bool.false_eq_true]
    constructor
    · exact settled.complete
    · intro found same
      simp only [Option.some.injEq] at same
      subst found
      simpa using complete

theorem Settled.replaceRegistered {slot : NodeSlot} (settled : slot.Settled) {node next : CanNode}
    (registered : slot.registered = some node) (same : next.definition = node.definition) :
    ({ slot with registered := some next } : NodeSlot).Settled := by
  constructor
  · intro found equal
    simp only [Option.some.injEq] at equal
    subst found
    rw [CanNode.complete_of_definition_eq same]
    exact settled.complete node registered
  · exact settled.incomplete

/-- What one input does to a slot. Every proof about slots splits along these cases. -/
inductive Change (nodeId : UInt8) (slot : NodeSlot) : SlotInput → NodeSlot → Prop
  | announced (timestamp payload) : Change nodeId slot
      (.message timestamp (.nodeInfoAnnouncement payload)) (slot.announce (.announced payload))
  | registered {message register node} (timestamp) : message.registration? = some register →
      slot.registering = some node →
      Change nodeId slot (.message timestamp message) (slot.settle (register node))
  | received {message node} (timestamp) : message.registration? = none →
      (∀ payload, message ≠ .nodeInfoAnnouncement payload) → slot.registered = some node →
      Change nodeId slot (.message timestamp message)
        { slot with registered := some (node.receive liquidCan nodeId timestamp message).node }
  | rejected {message} (timestamp) : (∀ payload, message ≠ .nodeInfoAnnouncement payload) →
      (slot.handle liquidCan nodeId timestamp message).accepted = false →
      Change nodeId slot (.message timestamp message) slot
  | heartbeat (timestamp) : Change nodeId slot (.heartbeat timestamp) (slot.heartbeat timestamp)

theorem handle_registration {slot : NodeSlot} {nodeId : UInt8} {timestamp : DateTime}
    {message : CanMessage} {register : CanNode → CanNode}
    (effect : message.registration? = some register) :
    slot.handle liquidCan nodeId timestamp message =
      match slot.registering with
      | some node => { slot := slot.settle (register node), accepted := true }
      | none => { slot, accepted := false } := by
  cases message <;> simp only [CanMessage.registration?, reduceCtorEq, Option.some.injEq] at effect <;>
    subst effect <;> rfl

theorem handle_value {slot : NodeSlot} {nodeId : UInt8} {timestamp : DateTime} {message : CanMessage}
    (noEffect : message.registration? = none)
    (other : ∀ payload, message ≠ .nodeInfoAnnouncement payload) :
    slot.handle liquidCan nodeId timestamp message =
      match slot.registered with
      | some node => {
          slot := { slot with registered := some (node.receive liquidCan nodeId timestamp message).node }
          accepted := (node.receive liquidCan nodeId timestamp message).accepted
          events := (node.receive liquidCan nodeId timestamp message).events }
      | none => { slot, accepted := false } := by
  cases message <;> first
    | rfl
    | exact (other _ rfl).elim
    | simp [CanMessage.registration?] at noEffect

theorem change_of_takes {nodeId : UInt8} {slot next : NodeSlot} {input : SlotInput}
    (taken : slot.Takes liquidCan nodeId input next) : Change liquidCan nodeId slot input next := by
  cases input with
  | heartbeat timestamp =>
      simp only [Takes] at taken
      subst next
      exact Change.heartbeat timestamp
  | message timestamp message =>
      simp only [Takes] at taken
      subst next
      by_cases announced : ∃ payload, message = .nodeInfoAnnouncement payload
      · obtain ⟨payload, rfl⟩ := announced
        exact Change.announced timestamp payload
      · have other : ∀ payload, message ≠ .nodeInfoAnnouncement payload :=
          fun payload same => announced ⟨payload, same⟩
        cases effect : message.registration? with
        | some register =>
            have handled : slot.handle liquidCan nodeId timestamp message = _ :=
              handle_registration liquidCan effect
            cases registering : slot.registering with
            | some node =>
                rw [registering] at handled
                rw [handled]
                exact Change.registered timestamp effect registering
            | none =>
                rw [registering] at handled
                have refused : (slot.handle liquidCan nodeId timestamp message).accepted = false := by
                  rw [handled]
                rw [handled]
                exact Change.rejected timestamp other refused
        | none =>
            have handled : slot.handle liquidCan nodeId timestamp message = _ :=
              handle_value liquidCan effect other
            cases registered : slot.registered with
            | some node =>
                rw [registered] at handled
                rw [handled]
                exact Change.received timestamp effect other registered
            | none =>
                rw [registered] at handled
                have refused : (slot.handle liquidCan nodeId timestamp message).accepted = false := by
                  rw [handled]
                rw [handled]
                exact Change.rejected timestamp other refused

theorem Settled.takes {nodeId : UInt8} {slot next : NodeSlot} {input : SlotInput}
    (settled : slot.Settled) (taken : slot.Takes liquidCan nodeId input next) : next.Settled := by
  cases change_of_takes liquidCan taken with
  | announced timestamp payload => exact settled.announce _
  | registered timestamp effect registering => exact settled.settle _
  | received timestamp noEffect other registered =>
      exact settled.replaceRegistered registered (CanNode.receive_definition liquidCan _ _ _ _)
  | rejected timestamp other refused => exact settled
  | heartbeat timestamp =>
      unfold NodeSlot.heartbeat
      cases registered : slot.registered with
      | none => exact ⟨by simp, settled.incomplete⟩
      | some node => exact settled.replaceRegistered registered rfl

def Completes (slot : NodeSlot) (message : CanMessage) (node : CanNode) : Prop :=
  (∃ payload, message = .nodeInfoAnnouncement payload ∧ node = CanNode.new (.announced payload)) ∨
  (∃ register pending, message.registration? = some register ∧ slot.registering = some pending ∧
    node = register pending)

theorem takes_registered {nodeId : UInt8} {slot next : NodeSlot} {input : SlotInput} {node : CanNode}
    (taken : slot.Takes liquidCan nodeId input next) (registered : slot.registered = some node) :
    ∃ after, next.registered = some after ∧ (after.definition = node.definition ∨
      after.nodeRegistrationComplete = true ∧
        ∃ timestamp message, input = .message timestamp message ∧ slot.Completes message after) := by
  cases change_of_takes liquidCan taken with
  | announced timestamp payload =>
      unfold NodeSlot.announce
      by_cases complete : (CanNode.new (.announced payload)).nodeRegistrationComplete = true
      · simp only [complete, ↓reduceIte]
        exact ⟨_, rfl, Or.inr ⟨complete, timestamp, _, rfl, Or.inl ⟨payload, rfl, rfl⟩⟩⟩
      · simp only [complete, ↓reduceIte, Bool.false_eq_true]
        exact ⟨node, registered, Or.inl rfl⟩
  | @registered message register pending timestamp effect registering =>
      unfold NodeSlot.settle
      by_cases complete : (register pending).nodeRegistrationComplete = true
      · simp only [complete, ↓reduceIte]
        exact ⟨_, rfl, Or.inr ⟨complete, timestamp, _, rfl,
          Or.inr ⟨register, pending, effect, registering, rfl⟩⟩⟩
      · simp only [complete, ↓reduceIte, Bool.false_eq_true]
        exact ⟨node, registered, Or.inl rfl⟩
  | received timestamp noEffect other found =>
      rw [registered] at found
      obtain rfl := Option.some.inj found
      exact ⟨_, rfl, Or.inl (CanNode.receive_definition liquidCan _ _ _ _)⟩
  | rejected timestamp other refused => exact ⟨node, registered, Or.inl rfl⟩
  | heartbeat timestamp =>
      simp only [NodeSlot.heartbeat, registered, Option.map_some]
      exact ⟨_, rfl, Or.inl rfl⟩

end NodeSlot

namespace NodeManager

theorem settled_run {mapping : Mapping} {operations : List Operation} {manager : NodeManager}
    (run : Transition.Run (Performs liquidCan) (new mapping) operations manager) (nodeId : UInt8) :
    (manager.slot nodeId).Settled := by
  have slots := slot_run liquidCan run nodeId
  apply slots.invariant NodeSlot.Settled
  · intro slot input next settled taken
    exact settled.takes liquidCan taken
  · constructor <;> simp

/-- Readers never see a half-registered definition: registered nodes are complete, incomplete
ones are not registered, and a registered definition stays as it is or is replaced as a whole. -/
theorem registration_atomic {mapping : Mapping} {operations : List Operation} {manager : NodeManager}
    (run : Transition.Run (Performs liquidCan) (new mapping) operations manager) :
    (∀ nodeId node, manager.canNodes.lookup nodeId = some node →
      node.nodeRegistrationComplete = true) ∧
    (∀ nodeId node, manager.registeringNodes.lookup nodeId = some node →
      node.nodeRegistrationComplete = false) ∧
    (∀ operation next, manager.Performs liquidCan operation next →
      ∀ nodeId node, manager.canNodes.lookup nodeId = some node →
        ∃ after, next.canNodes.lookup nodeId = some after ∧
          (after.definition = node.definition ∨
            after.nodeRegistrationComplete = true ∧
              ∃ timestamp message, operation.seenBy nodeId = some (.message timestamp message) ∧
                (manager.slot nodeId).Completes message after)) := by
  refine ⟨?_, ?_, ?_⟩
  · intro nodeId node registered
    exact (settled_run liquidCan run nodeId).complete node registered
  · intro nodeId node registering
    exact (settled_run liquidCan run nodeId).incomplete node registering
  · intro operation next performed nodeId node registered
    have taken := slot_perform liquidCan manager next operation nodeId performed
    cases seen : operation.seenBy nodeId with
    | none =>
        rw [seen] at taken
        refine ⟨node, ?_, Or.inl rfl⟩
        rw [← slot_registered, taken]
        exact registered
    | some input =>
        rw [seen] at taken
        obtain ⟨after, found, outcome⟩ := NodeSlot.takes_registered liquidCan taken registered
        refine ⟨after, found, ?_⟩
        rcases outcome with same | ⟨complete, timestamp, message, rfl, completes⟩
        · exact Or.inl same
        · exact Or.inr ⟨complete, timestamp, message, rfl, completes⟩

def oneParameterRun : List Operation := [
  .message 0 ⟨1, 0⟩ (.nodeInfoAnnouncement ⟨0, 1, 0, 0, "valve"⟩),
  .message 0 ⟨2, 0⟩ (.nodeInfoAnnouncement ⟨1, 0, 0, 0, "tank"⟩),
  .message 0 ⟨1, 0⟩ (.parameterRegistration ⟨7, .uint8, "position"⟩)]

theorem registration_atomic_oneParameterRun :
    (((new {}).replay LiquidCan.littleEndian oneParameterRun).canNodes.lookup 1).map
        CanNode.nodeRegistrationComplete = some true ∧
      (((new {}).replay LiquidCan.littleEndian oneParameterRun).registeringNodes.lookup 2).map
        CanNode.nodeRegistrationComplete = some false := by
  obtain ⟨complete, incomplete, -⟩ := registration_atomic LiquidCan.littleEndian
    ((run_iff_replay LiquidCan.littleEndian).mpr (rfl : (new {}).replay _ oneParameterRun = _))
  constructor
  · cases registered : ((new {}).replay LiquidCan.littleEndian oneParameterRun).canNodes.lookup 1 with
    | none => exact absurd registered (by decide)
    | some node => exact congrArg some (complete 1 node registered)
  · cases registering :
        ((new {}).replay LiquidCan.littleEndian oneParameterRun).registeringNodes.lookup 2 with
    | none => exact absurd registering (by decide)
    | some node => exact congrArg some (incomplete 2 node registering)

end NodeManager

end FerroFlow
