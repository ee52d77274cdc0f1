import FerroFlow.Registration

/-! Registration is independent of the order of its messages: after an announcement, the
registrations and group definitions of a node may arrive in any order and any number of times. -/

namespace FerroFlow

variable (liquidCan : LiquidCan)

def FieldRegistrationPayload.entry (payload : FieldRegistrationPayload) : UInt8 × FieldInfo :=
  (payload.fieldId, { name := payload.fieldName, dataType := payload.fieldType })

def TelemetryGroupDefinitionPayload.entry (payload : TelemetryGroupDefinitionPayload) :
    UInt8 × TelemetryGroupDefinition :=
  (payload.groupId, { fields := payload.fieldIds })

theorem FieldRegistrationPayload.entry_injective : Function.Injective entry := by
  intro left right same
  simp only [entry, Prod.mk.injEq, FieldInfo.mk.injEq] at same
  obtain ⟨sameId, sameType, sameName⟩ := same
  cases left
  cases right
  simp_all

theorem TelemetryGroupDefinitionPayload.entry_injective : Function.Injective entry := by
  intro left right same
  simp only [entry, Prod.mk.injEq, TelemetryGroupDefinition.mk.injEq] at same
  obtain ⟨sameId, sameFields⟩ := same
  cases left
  cases right
  simp_all

/-- Everything a node sends to describe itself after an announcement. -/
structure RegistrationSet where
  telemetry : List FieldRegistrationPayload
  parameters : List FieldRegistrationPayload
  groups : List TelemetryGroupDefinitionPayload

namespace RegistrationSet

def messages (set : RegistrationSet) : List CanMessage :=
  set.telemetry.map .telemetryValueRegistration ++ set.parameters.map .parameterRegistration ++
    set.groups.map .telemetryGroupDefinition

/-- The set has the sizes that were announced, and names nothing twice. -/
structure Matches (set : RegistrationSet) (announcement : NodeInfoResPayload) : Prop where
  nonZero : announcement.telCount ≠ 0 ∨ announcement.parCount ≠ 0
  telemetryCount : set.telemetry.length = announcement.telCount.toNat
  parameterCount : set.parameters.length = announcement.parCount.toNat
  telemetryIds : (set.telemetry.map (·.fieldId)).Nodup
  parameterIds : (set.parameters.map (·.fieldId)).Nodup
  groupIds : (set.groups.map (·.groupId)).Nodup
  groupsNonEmpty : ∀ group ∈ set.groups, group.fieldIds ≠ []
  groupSizes : (set.groups.map fun group => group.fieldIds.length).sum = announcement.telCount.toNat

@[simp] theorem telemetry_mem_messages (set : RegistrationSet) (payload : FieldRegistrationPayload) :
    .telemetryValueRegistration payload ∈ set.messages ↔ payload ∈ set.telemetry := by
  simp [messages]

@[simp] theorem parameter_mem_messages (set : RegistrationSet) (payload : FieldRegistrationPayload) :
    .parameterRegistration payload ∈ set.messages ↔ payload ∈ set.parameters := by
  simp [messages]

@[simp] theorem group_mem_messages (set : RegistrationSet) (payload : TelemetryGroupDefinitionPayload) :
    .telemetryGroupDefinition payload ∈ set.messages ↔ payload ∈ set.groups := by
  simp [messages]

theorem forall_mem_messages (set : RegistrationSet) (property : CanMessage → Prop) :
    (∀ message ∈ set.messages, property message) ↔
      (∀ payload ∈ set.telemetry, property (.telemetryValueRegistration payload)) ∧
      (∀ payload ∈ set.parameters, property (.parameterRegistration payload)) ∧
      (∀ payload ∈ set.groups, property (.telemetryGroupDefinition payload)) := by
  simp only [messages, List.mem_append, List.mem_map, or_imp, forall_and, forall_exists_index, and_imp,
    forall_apply_eq_imp_iff₂, and_assoc]

theorem registration_of_mem {set : RegistrationSet} {message : CanMessage}
    (member : message ∈ set.messages) : ∃ register, message.registration? = some register := by
  revert message
  rw [forall_mem_messages]
  exact ⟨fun _ _ => ⟨_, rfl⟩, fun _ _ => ⟨_, rfl⟩, fun _ _ => ⟨_, rfl⟩⟩

theorem Matches.messages_nonempty {set : RegistrationSet} {announcement : NodeInfoResPayload}
    (matched : set.Matches announcement) : ∃ message, message ∈ set.messages := by
  rcases matched.nonZero with telemetry | parameters
  · have positive : 0 < set.telemetry.length := by
      rw [matched.telemetryCount]
      exact Nat.pos_of_ne_zero fun zero => telemetry (UInt8.toNat_inj.mp zero)
    obtain ⟨payload, member⟩ := List.exists_mem_of_length_pos positive
    exact ⟨.telemetryValueRegistration payload, by simpa using member⟩
  · have positive : 0 < set.parameters.length := by
      rw [matched.parameterCount]
      exact Nat.pos_of_ne_zero fun zero => parameters (UInt8.toNat_inj.mp zero)
    obtain ⟨payload, member⟩ := List.exists_mem_of_length_pos positive
    exact ⟨.parameterRegistration payload, by simpa using member⟩

end RegistrationSet

structure CanNode.Gathered (node : CanNode) (announcement : NodeInfoResPayload)
    (given : CanMessage → Prop) : Prop where
  registrationInfo : node.registrationInfo = .announced announcement
  telemetry : node.telemetryFields.Collects FieldRegistrationPayload.entry
    fun payload => given (.telemetryValueRegistration payload)
  parameters : node.parameterFields.Collects FieldRegistrationPayload.entry
    fun payload => given (.parameterRegistration payload)
  groups : node.telemetryGroups.Collects TelemetryGroupDefinitionPayload.entry
    fun payload => given (.telemetryGroupDefinition payload)

namespace CanNode

variable {set : RegistrationSet} {announcement : NodeInfoResPayload} {given : CanMessage → Prop}
  {node : CanNode}

theorem gathered_new (announcement : NodeInfoResPayload) :
    (new (.announced announcement)).Gathered announcement fun _ => False := by
  constructor
  · rfl
  · exact KeyedMap.collects_empty _
  · exact KeyedMap.collects_empty _
  · exact KeyedMap.collects_empty _

theorem Gathered.of_definition_eq {other : CanNode} (gathered : node.Gathered announcement given)
    (same : other.definition = node.definition) : other.Gathered announcement given := by
  obtain ⟨info, telemetry, parameters, groups⟩ := Definition.mk.inj same
  constructor
  · rw [info]
    exact gathered.registrationInfo
  · rw [telemetry]
    exact gathered.telemetry
  · rw [parameters]
    exact gathered.parameters
  · rw [groups]
    exact gathered.groups

theorem Gathered.register (gathered : node.Gathered announcement given)
    (matched : set.Matches announcement) (inside : ∀ message, given message → message ∈ set.messages)
    {message : CanMessage} (member : message ∈ set.messages) {register : CanNode → CanNode}
    (effect : message.registration? = some register) :
    (register node).Gathered announcement fun other => given other ∨ other = message := by
  cases message with
  | telemetryValueRegistration payload =>
      obtain rfl := Option.some.inj effect
      have fresh := gathered.telemetry.insert_expected matched.telemetryIds
        (fun other present => by simpa using inside _ present) (by simpa using member)
      constructor
      · exact gathered.registrationInfo
      · exact fresh.congr (by simp)
      · exact gathered.parameters.congr (by simp)
      · exact gathered.groups.congr (by simp)
  | parameterRegistration payload =>
      obtain rfl := Option.some.inj effect
      have fresh := gathered.parameters.insert_expected matched.parameterIds
        (fun other present => by simpa using inside _ present) (by simpa using member)
      constructor
      · exact gathered.registrationInfo
      · exact gathered.telemetry.congr (by simp)
      · exact fresh.congr (by simp)
      · exact gathered.groups.congr (by simp)
  | telemetryGroupDefinition payload =>
      obtain rfl := Option.some.inj effect
      have fresh := gathered.groups.insert_expected matched.groupIds
        (fun other present => by simpa using inside _ present) (by simpa using member)
      constructor
      · exact gathered.registrationInfo
      · exact gathered.telemetry.congr (by simp)
      · exact gathered.parameters.congr (by simp)
      · exact fresh.congr (by simp)
  | _ => simp [CanMessage.registration?] at effect

/-- No counter can be satisfied while something is missing: what was given is part of the set,
so each count is reached exactly when that kind of message is exhausted. -/
theorem Gathered.complete_iff (gathered : node.Gathered announcement given)
    (matched : set.Matches announcement) (inside : ∀ message, given message → message ∈ set.messages) :
    node.nodeRegistrationComplete = true ↔ ∀ message ∈ set.messages, given message := by
  have telemetry := gathered.telemetry.size_eq_iff FieldRegistrationPayload.entry_injective
    set.telemetry matched.telemetryIds (fun payload present => by simpa using inside _ present)
  have parameters := gathered.parameters.size_eq_iff FieldRegistrationPayload.entry_injective
    set.parameters matched.parameterIds (fun payload present => by simpa using inside _ present)
  have groups := gathered.groups.weight_eq_iff TelemetryGroupDefinitionPayload.entry_injective
    set.groups matched.groupIds (fun payload present => by simpa using inside _ present)
    (fun group => group.fields.length)
    (fun group member => List.length_pos_iff.mpr (matched.groupsNonEmpty group member))
  rw [nodeRegistrationComplete_iff, RegistrationSet.forall_mem_messages, gathered.registrationInfo]
  simp only [RegistrationInfo.announced, groupedFieldCount]
  rw [← matched.telemetryCount, ← matched.parameterCount, telemetry, parameters]
  have sizes : set.telemetry.length =
      (set.groups.map fun group => group.entry.2.fields.length).sum := by
    rw [matched.telemetryCount]
    exact matched.groupSizes.symm
  rw [sizes, groups]

end CanNode

/-- How far a slot is when the given messages of the set have been received after the
announcement; until the set is complete, what was registered before stays. -/
structure NodeSlot.Progress (slot : NodeSlot) (set : RegistrationSet)
    (announcement : NodeInfoResPayload) (before : Option CanNode) (given : CanMessage → Prop) : Prop where
  pending : (∃ message ∈ set.messages, ¬ given message) →
    (∃ node, slot.registering = some node ∧ node.Gathered announcement given) ∧
      slot.registered.map CanNode.definition = before.map CanNode.definition
  complete : (∀ message ∈ set.messages, given message) → slot.registering = none ∧
    ∃ node, slot.registered = some node ∧ node.Gathered announcement given

namespace NodeSlot

variable {set : RegistrationSet} {announcement : NodeInfoResPayload} {before : Option CanNode}
  {given : CanMessage → Prop} {slot : NodeSlot}

theorem progress_announce (matched : set.Matches announcement) (slot : NodeSlot) :
    (slot.announce (.announced announcement)).Progress set announcement slot.registered
      fun _ => False := by
  obtain ⟨message, member⟩ := matched.messages_nonempty
  have gathered := CanNode.gathered_new announcement
  have incomplete : ¬ (CanNode.new (.announced announcement)).nodeRegistrationComplete = true := by
    rw [gathered.complete_iff matched (fun _ impossible => impossible.elim)]
    intro all
    exact all message member
  unfold announce
  simp only [incomplete, ↓reduceIte, Bool.false_eq_true]
  constructor
  · intro missing
    exact ⟨⟨_, rfl, gathered⟩, rfl⟩
  · intro all
    exact (all message member).elim

theorem Progress.heartbeat (progress : slot.Progress set announcement before given)
    (timestamp : DateTime) : (slot.heartbeat timestamp).Progress set announcement before given := by
  constructor
  · intro missing
    obtain ⟨registering, unchanged⟩ := progress.pending missing
    refine ⟨registering, ?_⟩
    rw [← unchanged]
    cases registered : slot.registered with
    | none => simp [NodeSlot.heartbeat, registered]
    | some node =>
        simp only [NodeSlot.heartbeat, registered, Option.map_some]
        rfl
  · intro all
    obtain ⟨registering, node, registered, gathered⟩ := progress.complete all
    refine ⟨registering, NodeManager.sendHeartbeat timestamp node, ?_, gathered.of_definition_eq rfl⟩
    simp [NodeSlot.heartbeat, registered]

theorem Progress.receive (progress : slot.Progress set announcement before given)
    (matched : set.Matches announcement) (inside : ∀ message, given message → message ∈ set.messages)
    {message : CanMessage} (member : message ∈ set.messages) (nodeId : UInt8) (timestamp : DateTime) :
    (slot.handle liquidCan nodeId timestamp message).slot.Progress set announcement before
      fun other => given other ∨ other = message := by
  obtain ⟨register, effect⟩ := RegistrationSet.registration_of_mem member
  rw [handle_registration liquidCan effect]
  by_cases missing : ∃ other ∈ set.messages, ¬ given other
  · obtain ⟨⟨node, registering, gathered⟩, unchanged⟩ := progress.pending missing
    have next := gathered.register matched inside member effect
    have complete := next.complete_iff matched (by
      rintro other (present | rfl)
      · exact inside other present
      · exact member)
    simp only [registering, settle]
    by_cases finished : (register node).nodeRegistrationComplete = true
    · simp only [finished, ↓reduceIte]
      constructor
      · rintro ⟨other, otherMember, absent⟩
        exact (absent (complete.mp finished other otherMember)).elim
      · intro all
        exact ⟨rfl, _, rfl, next⟩
    · simp only [finished, ↓reduceIte, Bool.false_eq_true]
      constructor
      · intro stillMissing
        exact ⟨⟨_, rfl, next⟩, unchanged⟩
      · intro all
        exact (finished (complete.mpr all)).elim
  · push Not at missing
    obtain ⟨registering, node, registered, gathered⟩ := progress.complete missing
    have repeated : (fun other => given other ∨ other = message) = given := by
      funext other
      apply propext
      constructor
      · rintro (present | rfl)
        · exact present
        · exact missing _ member
      · exact Or.inl
    simp only [registering, repeated]
    exact progress

def Given (past : List SlotInput) (message : CanMessage) : Prop :=
  ∃ timestamp, SlotInput.message timestamp message ∈ past

def Advances (set : RegistrationSet) (announcement : NodeInfoResPayload) (before : Option CanNode)
    (past : List SlotInput) (slot : NodeSlot) : Prop :=
  (∀ message, Given past message → message ∈ set.messages) →
    slot.Progress set announcement before (Given past)

theorem Advances.takes {past : List SlotInput} (matched : set.Matches announcement)
    (advances : Advances set announcement before past slot) {nodeId : UInt8} {input : SlotInput}
    {next : NodeSlot} (taken : slot.Takes liquidCan nodeId input next) :
    Advances set announcement before (past ++ [input]) next := by
  intro onlySet
  have earlier : ∀ message, Given past message → message ∈ set.messages := by
    rintro message ⟨timestamp, member⟩
    exact onlySet message ⟨timestamp, List.mem_append_left _ member⟩
  have progress := advances earlier
  cases input with
  | heartbeat timestamp =>
      simp only [Takes] at taken
      subst next
      have same : Given (past ++ [.heartbeat timestamp]) = Given past := by
        funext message
        simp [Given]
      rw [same]
      exact progress.heartbeat timestamp
  | message timestamp message =>
      simp only [Takes] at taken
      subst next
      have extended : Given (past ++ [.message timestamp message]) =
          fun other => Given past other ∨ other = message := by
        funext other
        simp [Given, exists_or]
      rw [extended]
      have member : message ∈ set.messages := onlySet message ⟨timestamp, by simp⟩
      exact progress.receive liquidCan matched earlier member nodeId timestamp

end NodeSlot

namespace NodeManager

def Received (operations : List Operation) (nodeId : UInt8) (message : CanMessage) : Prop :=
  ∃ timestamp id, Operation.message timestamp id message ∈ operations ∧ id.senderId = nodeId

theorem seenBy_eq_message {operation : Operation} {nodeId : UInt8} {timestamp : DateTime}
    {message : CanMessage} :
    operation.seenBy nodeId = some (.message timestamp message) ↔
      ∃ id : CanMessageId, operation = .message timestamp id message ∧ id.senderId = nodeId := by
  cases operation with
  | heartbeat time => simp [Operation.seenBy]
  | message time id received =>
      simp only [Operation.seenBy, Operation.message.injEq]
      split
      · rename_i sender
        simp only [Option.some.injEq, SlotInput.message.injEq]
        constructor
        · rintro ⟨rfl, rfl⟩
          exact ⟨id, ⟨rfl, rfl, rfl⟩, sender⟩
        · rintro ⟨_, ⟨rfl, rfl, rfl⟩, _⟩
          exact ⟨rfl, rfl⟩
      · rename_i sender
        simp only [reduceCtorEq, false_iff, not_exists, not_and]
        rintro other ⟨rfl, rfl, rfl⟩ same
        exact sender same

theorem received_iff_seen {operations : List Operation} {nodeId : UInt8} {message : CanMessage} :
    Received operations nodeId message ↔
      NodeSlot.Given (operations.filterMap (Operation.seenBy nodeId)) message := by
  simp only [Received, NodeSlot.Given, List.mem_filterMap, seenBy_eq_message]
  constructor
  · rintro ⟨timestamp, id, member, sender⟩
    exact ⟨timestamp, _, member, id, rfl, sender⟩
  · rintro ⟨timestamp, _, member, id, rfl, sender⟩
    exact ⟨timestamp, id, member, sender⟩

theorem progress_run {set : RegistrationSet} {announcement : NodeInfoResPayload}
    (matched : set.Matches announcement) {before manager : NodeManager} {timestamp : DateTime}
    {id : CanMessageId} {operations : List Operation}
    (run : Transition.Run (Performs liquidCan) before
      (.message timestamp id (.nodeInfoAnnouncement announcement) :: operations) manager)
    (nothingElse : ∀ message, Received operations id.senderId message → message ∈ set.messages) :
    (manager.slot id.senderId).Progress set announcement (before.canNodes.lookup id.senderId)
      (Received operations id.senderId) := by
  have slots := slot_run liquidCan run id.senderId
  simp only [List.filterMap_cons, Operation.seenBy, ↓reduceIte] at slots
  obtain ⟨announced, first, rest⟩ := Transition.run_cons_iff.mp slots
  simp only [NodeSlot.Takes, NodeSlot.handle] at first
  subst announced
  have initial : NodeSlot.Advances set announcement (before.canNodes.lookup id.senderId) []
      ((before.slot id.senderId).announce (.announced announcement)) := by
    intro _
    have progress := NodeSlot.progress_announce matched (before.slot id.senderId)
    have none : NodeSlot.Given [] = fun _ => False := by
      funext message
      simp [NodeSlot.Given]
    rw [none]
    exact progress
  have advanced := rest.history _ (fun _ _ _ _ advances taken => advances.takes liquidCan matched taken)
    initial
  have same : NodeSlot.Given (operations.filterMap (Operation.seenBy id.senderId)) =
      Received operations id.senderId :=
    funext fun message => propext received_iff_seen.symm
  simp only [List.nil_append, NodeSlot.Advances, same] at advanced
  exact advanced nothingElse

theorem handle_unregistered {manager : NodeManager} (timestamp : DateTime) {id : CanMessageId}
    {message : CanMessage} {register : CanNode → CanNode}
    (effect : message.registration? = some register)
    (absent : manager.registeringNodes.lookup id.senderId = none) :
    ∃ failure, manager.handleCanMessageFromNode liquidCan timestamp id message =
      .reject manager failure := by
  cases message with
  | telemetryValueRegistration payload =>
      simp only [handleCanMessageFromNode, handleFieldRegistration, absent]
      exact ⟨_, rfl⟩
  | parameterRegistration payload =>
      simp only [handleCanMessageFromNode, handleFieldRegistration, absent]
      exact ⟨_, rfl⟩
  | telemetryGroupDefinition payload =>
      simp only [handleCanMessageFromNode, handleTelemetryGroupDefinition, absent]
      exact ⟨_, rfl⟩
  | _ => simp [CanMessage.registration?] at effect

theorem handle_registering {manager : NodeManager} (timestamp : DateTime) {id : CanMessageId}
    {message : CanMessage} {register : CanNode → CanNode} {node : CanNode}
    (effect : message.registration? = some register)
    (registering : manager.registeringNodes.lookup id.senderId = some node) :
    (manager.handleCanMessageFromNode liquidCan timestamp id message).result = .ok () := by
  have accepted := (confined_handle liquidCan manager timestamp id message).accepted
  rw [NodeSlot.handle_registration liquidCan effect, slot_registering, registering] at accepted
  cases outcome : (manager.handleCanMessageFromNode liquidCan timestamp id message).result with
  | ok value => rfl
  | error failure =>
      rw [outcome] at accepted
      simp [Except.isOk, Except.toBool] at accepted

/-- A node is registered exactly from the message on with which its set is complete, whatever
the order, the repetitions and the other traffic; later repetitions are rejected. -/
theorem registration_order_independent {set : RegistrationSet} {announcement : NodeInfoResPayload}
    (matched : set.Matches announcement) {before manager : NodeManager} {timestamp : DateTime}
    {id : CanMessageId} {operations : List Operation}
    (run : Transition.Run (Performs liquidCan) before
      (.message timestamp id (.nodeInfoAnnouncement announcement) :: operations) manager)
    (nothingElse : ∀ message, Received operations id.senderId message → message ∈ set.messages) :
    ((∀ message ∈ set.messages, Received operations id.senderId message) →
      manager.registeringNodes.lookup id.senderId = none ∧
      ∃ node, manager.canNodes.lookup id.senderId = some node ∧
        node.Gathered announcement (· ∈ set.messages)) ∧
    ((∃ message ∈ set.messages, ¬ Received operations id.senderId message) →
      (∃ node, manager.registeringNodes.lookup id.senderId = some node) ∧
      (manager.canNodes.lookup id.senderId).map CanNode.definition =
        (before.canNodes.lookup id.senderId).map CanNode.definition) ∧
    (∀ later next message, next.senderId = id.senderId → message ∈ set.messages →
      ((∃ missing ∈ set.messages, ¬ Received operations id.senderId missing) →
        (manager.handleCanMessageFromNode liquidCan later next message).result = .ok ()) ∧
      ((∀ given ∈ set.messages, Received operations id.senderId given) →
        ∃ failure, manager.handleCanMessageFromNode liquidCan later next message =
          { result := .error failure, manager := manager, events := [] })) := by
  have progress := progress_run liquidCan matched run nothingElse
  refine ⟨?_, ?_, ?_⟩
  · intro all
    obtain ⟨registering, node, registered, gathered⟩ := progress.complete all
    have exactly : Received operations id.senderId = (· ∈ set.messages) := by
      funext message
      exact propext ⟨nothingElse message, all message⟩
    rw [exactly] at gathered
    exact ⟨registering, node, registered, gathered⟩
  · intro missing
    obtain ⟨⟨node, registering, _⟩, unchanged⟩ := progress.pending missing
    exact ⟨⟨node, registering⟩, unchanged⟩
  · intro later next message sender member
    obtain ⟨register, effect⟩ := RegistrationSet.registration_of_mem member
    constructor
    · intro missing
      obtain ⟨⟨node, registering, _⟩, _⟩ := progress.pending missing
      rw [slot_registering, ← sender] at registering
      exact handle_registering liquidCan later effect registering
    · intro all
      obtain ⟨absent, _⟩ := progress.complete all
      rw [slot_registering, ← sender] at absent
      exact handle_unregistered liquidCan later effect absent

def tankSet : RegistrationSet where
  telemetry := [⟨0, .uint16, "pressure"⟩, ⟨1, .float32, "level"⟩]
  parameters := [⟨0, .boolean, "heater"⟩]
  groups := [⟨0, [1]⟩, ⟨1, [0]⟩]

def tankAnnouncement : NodeInfoResPayload := ⟨2, 1, 0, 0, "tank"⟩

def tankRun : List Operation := [
  .message 1 ⟨3, 0⟩ (.telemetryGroupDefinition ⟨1, [0]⟩),
  .message 2 ⟨3, 0⟩ (.parameterRegistration ⟨0, .boolean, "heater"⟩),
  .message 3 ⟨4, 0⟩ (.nodeInfoAnnouncement ⟨0, 0, 0, 0, "pump"⟩),
  .message 4 ⟨3, 0⟩ (.telemetryValueRegistration ⟨1, .float32, "level"⟩),
  .heartbeat 5,
  .message 6 ⟨3, 0⟩ (.parameterRegistration ⟨0, .boolean, "heater"⟩),
  .message 7 ⟨3, 0⟩ (.telemetryGroupDefinition ⟨0, [1]⟩),
  .message 8 ⟨3, 0⟩ (.telemetryValueRegistration ⟨0, .uint16, "pressure"⟩)]

theorem tankSet_matches : tankSet.Matches tankAnnouncement := by
  constructor <;> decide

theorem received_tankRun_iff (message : CanMessage) :
    Received tankRun 3 message ↔ message ∈ tankSet.messages := by
  constructor
  · rintro ⟨timestamp, id, member, sender⟩
    simp only [tankRun, List.mem_cons, Operation.message.injEq, reduceCtorEq, List.not_mem_nil, or_false,
      false_or] at member
    rcases member with ⟨_, rfl, rfl⟩ | ⟨_, rfl, rfl⟩ | ⟨_, rfl, rfl⟩ | ⟨_, rfl, rfl⟩ | ⟨_, rfl, rfl⟩ |
      ⟨_, rfl, rfl⟩ | ⟨_, rfl, rfl⟩ <;> revert sender <;> decide
  · revert message
    rw [RegistrationSet.forall_mem_messages]
    simp only [tankSet, List.mem_cons, List.not_mem_nil, or_false, forall_eq_or_imp, forall_eq]
    refine ⟨⟨?_, ?_⟩, ?_, ?_, ?_⟩
    · exact ⟨8, ⟨3, 0⟩, by simp [tankRun], rfl⟩
    · exact ⟨4, ⟨3, 0⟩, by simp [tankRun], rfl⟩
    · exact ⟨2, ⟨3, 0⟩, by simp [tankRun], rfl⟩
    · exact ⟨7, ⟨3, 0⟩, by simp [tankRun], rfl⟩
    · exact ⟨1, ⟨3, 0⟩, by simp [tankRun], rfl⟩

theorem registration_order_independent_tankRun :
    ∃ node, ((new {}).replay LiquidCan.littleEndian
        (.message 0 ⟨3, 0⟩ (.nodeInfoAnnouncement tankAnnouncement) :: tankRun)).canNodes.lookup 3 =
          some node ∧ node.Gathered tankAnnouncement (· ∈ tankSet.messages) := by
  have run : Transition.Run (Performs LiquidCan.littleEndian) (new {})
      (.message 0 ⟨3, 0⟩ (.nodeInfoAnnouncement tankAnnouncement) :: tankRun) _ :=
    (run_iff_replay LiquidCan.littleEndian).mpr rfl
  have settled := registration_order_independent LiquidCan.littleEndian tankSet_matches run
    (fun message received => (received_tankRun_iff message).mp received)
  exact (settled.1 fun message member => (received_tankRun_iff message).mpr member).2

end NodeManager

end FerroFlow
