import FerroFlow.RegistrationOrder

/-! Which announcement the definitions belong to that a received value is decoded with. A node
that registers anew keeps its registered definition until the new one is complete. -/

namespace FerroFlow

variable (liquidCan : LiquidCan)

def CanNode.layoutFor (node : CanNode) : CanMessage → Option (List (UInt8 × FieldInfo))
  | .telemetryGroupUpdate payload => node.groupLayout payload.groupId
  | .fieldGetRes payload =>
      (node.fieldInfo? payload.fieldId).map fun fieldInfo => [(payload.fieldId, fieldInfo)]
  | _ => none

theorem CanNode.decode_layoutFor {node : CanNode} {message : CanMessage}
    {rows : List ((UInt8 × FieldInfo) × Result CanDataValue)}
    (decoded : node.decode liquidCan message = some rows) :
    ∃ fields, node.layoutFor message = some fields ∧ ∀ row ∈ rows, row.1 ∈ fields := by
  cases message with
  | telemetryGroupUpdate payload =>
      simp only [decode, Option.map_eq_some_iff] at decoded
      obtain ⟨layout, found, rfl⟩ := decoded
      refine ⟨layout, found, ?_⟩
      rintro ⟨field, value⟩ member
      exact (List.of_mem_zip member).1
  | fieldGetRes payload =>
      simp only [decode, Option.map_eq_some_iff] at decoded
      obtain ⟨fieldInfo, found, rfl⟩ := decoded
      refine ⟨[(payload.fieldId, fieldInfo)], ?_, ?_⟩
      · simp [layoutFor, found]
      · simp
  | _ => simp [decode] at decoded

theorem CanNode.mapM_layout {node : CanNode} {fieldIds : List UInt8} {layout : List (UInt8 × FieldInfo)}
    (found : (fieldIds.mapM fun id =>
      (node.telemetryFields.lookup id).map fun fieldInfo => (id, fieldInfo)) = some layout) :
    layout.map Prod.fst = fieldIds ∧
      ∀ field ∈ layout, node.telemetryFields.lookup field.1 = some field.2 := by
  induction fieldIds generalizing layout with
  | nil =>
      simp only [List.mapM_nil, Option.pure_def, Option.some.injEq] at found
      subst layout
      simp
  | cons id rest ih =>
      simp only [List.mapM_cons, Option.pure_def, Option.bind_eq_bind, Option.bind_eq_some_iff,
        Option.map_eq_some_iff, Option.some.injEq] at found
      obtain ⟨field, ⟨fieldInfo, lookedUp, rfl⟩, tail, tailFound, rfl⟩ := found
      obtain ⟨ids, infos⟩ := ih tailFound
      constructor
      · simp [ids]
      · intro field member
        rcases List.mem_cons.mp member with rfl | later
        · exact lookedUp
        · exact infos field later

theorem CanNode.groupLayout_eq_some {node : CanNode} {groupId : UInt8}
    {layout : List (UInt8 × FieldInfo)} (found : node.groupLayout groupId = some layout) :
    node.telemetryGroups.lookup groupId = some { fields := layout.map Prod.fst } ∧
      ∀ field ∈ layout, node.telemetryFields.lookup field.1 = some field.2 := by
  simp only [groupLayout, Option.bind_eq_some_iff] at found
  obtain ⟨group, defined, members⟩ := found
  obtain ⟨ids, infos⟩ := mapM_layout members
  rw [ids]
  exact ⟨defined, infos⟩

namespace NodeSlot

theorem given_append {before after : List SlotInput} {message : CanMessage} :
    Given (before ++ after) message ↔ Given before message ∨ Given after message := by
  simp [Given, exists_or]

def Quiet (inputs : List SlotInput) : Prop :=
  ∀ announcement, ¬ Given inputs (.nodeInfoAnnouncement announcement)

theorem quiet_append {before after : List SlotInput} :
    Quiet (before ++ after) ↔ Quiet before ∧ Quiet after := by
  simp [Quiet, given_append, forall_and]

theorem quiet_nil : Quiet [] := by
  simp [Quiet, Given]

end NodeSlot

/-- The node was announced so, and all that it registered was sent among the inputs. -/
structure CanNode.SentIn (node : CanNode) (announcement : NodeInfoResPayload)
    (sent : List SlotInput) : Prop where
  registrationInfo : node.registrationInfo = .announced announcement
  telemetry : ∀ id fieldInfo, node.telemetryFields.lookup id = some fieldInfo → ∃ payload,
    FieldRegistrationPayload.entry payload = (id, fieldInfo) ∧
      NodeSlot.Given sent (.telemetryValueRegistration payload)
  parameters : ∀ id fieldInfo, node.parameterFields.lookup id = some fieldInfo → ∃ payload,
    FieldRegistrationPayload.entry payload = (id, fieldInfo) ∧
      NodeSlot.Given sent (.parameterRegistration payload)
  groups : ∀ id group, node.telemetryGroups.lookup id = some group → ∃ payload,
    TelemetryGroupDefinitionPayload.entry payload = (id, group) ∧
      NodeSlot.Given sent (.telemetryGroupDefinition payload)

/-- The layout of a message was sent among the inputs: of a group update, the group and each of
its fields; of a get response, the field. -/
def LayoutSentIn (sent : List SlotInput) (fields : List (UInt8 × FieldInfo)) : CanMessage → Prop
  | .telemetryGroupUpdate payload =>
      NodeSlot.Given sent (.telemetryGroupDefinition ⟨payload.groupId, fields.map Prod.fst⟩) ∧
      ∀ field ∈ fields, ∃ registration, FieldRegistrationPayload.entry registration = field ∧
        NodeSlot.Given sent (.telemetryValueRegistration registration)
  | .fieldGetRes payload => ∃ registration, fields = [FieldRegistrationPayload.entry registration] ∧
      registration.fieldId = payload.fieldId ∧
      (NodeSlot.Given sent (.telemetryValueRegistration registration) ∨
        NodeSlot.Given sent (.parameterRegistration registration))
  | _ => False

namespace CanNode

variable {node : CanNode} {announcement : NodeInfoResPayload} {sent : List SlotInput}

theorem sentIn_new (announcement : NodeInfoResPayload) (sent : List SlotInput) :
    (new (.announced announcement)).SentIn announcement sent := by
  constructor
  · rfl
  · intro id fieldInfo found
    exact (Option.some_ne_none _ found.symm).elim
  · intro id fieldInfo found
    exact (Option.some_ne_none _ found.symm).elim
  · intro id group found
    exact (Option.some_ne_none _ found.symm).elim

theorem SentIn.of_definition_eq {other : CanNode} (complete : node.SentIn announcement sent)
    (same : other.definition = node.definition) : other.SentIn announcement sent := by
  obtain ⟨info, telemetry, parameters, groups⟩ := Definition.mk.inj same
  constructor
  · rw [info]
    exact complete.registrationInfo
  · rw [telemetry]
    exact complete.telemetry
  · rw [parameters]
    exact complete.parameters
  · rw [groups]
    exact complete.groups

theorem SentIn.append (complete : node.SentIn announcement sent) (more : List SlotInput) :
    node.SentIn announcement (sent ++ more) := by
  constructor
  · exact complete.registrationInfo
  · intro id fieldInfo found
    obtain ⟨payload, encoded, given⟩ := complete.telemetry id fieldInfo found
    exact ⟨payload, encoded, NodeSlot.given_append.mpr (Or.inl given)⟩
  · intro id fieldInfo found
    obtain ⟨payload, encoded, given⟩ := complete.parameters id fieldInfo found
    exact ⟨payload, encoded, NodeSlot.given_append.mpr (Or.inl given)⟩
  · intro id group found
    obtain ⟨payload, encoded, given⟩ := complete.groups id group found
    exact ⟨payload, encoded, NodeSlot.given_append.mpr (Or.inl given)⟩

theorem sent_insert {Payload Value : Type} {map : HashMap UInt8 Value} {entry : Payload → UInt8 × Value}
    {message : Payload → CanMessage}
    (known : ∀ id value, map.lookup id = some value →
      ∃ payload, entry payload = (id, value) ∧ NodeSlot.Given sent (message payload))
    (payload : Payload) (given : NodeSlot.Given sent (message payload)) (id : UInt8) (value : Value)
    (found : (map.insert (entry payload).1 (entry payload).2).lookup id = some value) :
    ∃ payload, entry payload = (id, value) ∧ NodeSlot.Given sent (message payload) := by
  rw [KeyedMap.lookup_insert_eq] at found
  by_cases same : id = (entry payload).1
  · rw [if_pos same] at found
    exact ⟨payload, Prod.ext same.symm (Option.some.inj found), given⟩
  · rw [if_neg same] at found
    exact known id value found

theorem SentIn.register (complete : node.SentIn announcement sent) {message : CanMessage}
    {register : CanNode → CanNode} (effect : message.registration? = some register)
    (timestamp : DateTime) :
    (register node).SentIn announcement (sent ++ [.message timestamp message]) := by
  have extended := complete.append [.message timestamp message]
  have last : NodeSlot.Given (sent ++ [.message timestamp message]) message := ⟨timestamp, by simp⟩
  cases message with
  | telemetryValueRegistration payload =>
      obtain rfl := Option.some.inj effect
      exact ⟨extended.registrationInfo, sent_insert extended.telemetry payload last,
        extended.parameters, extended.groups⟩
  | parameterRegistration payload =>
      obtain rfl := Option.some.inj effect
      exact ⟨extended.registrationInfo, extended.telemetry,
        sent_insert extended.parameters payload last, extended.groups⟩
  | telemetryGroupDefinition payload =>
      obtain rfl := Option.some.inj effect
      exact ⟨extended.registrationInfo, extended.telemetry, extended.parameters,
        sent_insert extended.groups payload last⟩
  | _ => simp [CanMessage.registration?] at effect

theorem SentIn.layoutFor (complete : node.SentIn announcement sent) {message : CanMessage}
    {fields : List (UInt8 × FieldInfo)} (found : node.layoutFor message = some fields) :
    LayoutSentIn sent fields message := by
  cases message with
  | telemetryGroupUpdate payload =>
      obtain ⟨defined, infos⟩ := groupLayout_eq_some found
      obtain ⟨definition, encoded, given⟩ := complete.groups _ _ defined
      simp only [TelemetryGroupDefinitionPayload.entry, Prod.mk.injEq,
        TelemetryGroupDefinition.mk.injEq] at encoded
      constructor
      · rw [← encoded.1, ← encoded.2]
        exact given
      · intro field member
        exact complete.telemetry field.1 field.2 (infos field member)
  | fieldGetRes payload =>
      simp only [CanNode.layoutFor, Option.map_eq_some_iff] at found
      obtain ⟨fieldInfo, defined, rfl⟩ := found
      simp only [fieldInfo?, Option.or_eq_some_iff] at defined
      rcases defined with telemetry | ⟨_, parameter⟩
      · obtain ⟨registration, encoded, given⟩ := complete.telemetry _ _ telemetry
        exact ⟨registration, by rw [encoded], congrArg Prod.fst encoded, Or.inl given⟩
      · obtain ⟨registration, encoded, given⟩ := complete.parameters _ _ parameter
        exact ⟨registration, by rw [encoded], congrArg Prod.fst encoded, Or.inr given⟩
  | _ => simp [CanNode.layoutFor] at found

end CanNode

namespace NodeSlot

/-- No announcement without fields arrives while the slot is registering. -/
def Uninterrupted (slot : NodeSlot) (input : SlotInput) : Prop :=
  ∀ timestamp announcement, input = .message timestamp (.nodeInfoAnnouncement announcement) →
    announcement.telCount = 0 → announcement.parCount = 0 → slot.registering = none

/-- An announcement opens a registration only if it has fields; none of these inputs does. -/
def Fieldless (inputs : List SlotInput) : Prop :=
  ∀ announcement, Given inputs (.nodeInfoAnnouncement announcement) →
    announcement.telCount = 0 ∧ announcement.parCount = 0

theorem fieldless_append {before after : List SlotInput} :
    Fieldless (before ++ after) ↔ Fieldless before ∧ Fieldless after := by
  constructor
  · intro fieldless
    exact ⟨fun announcement given => fieldless announcement (given_append.mpr (Or.inl given)),
      fun announcement given => fieldless announcement (given_append.mpr (Or.inr given))⟩
  · rintro ⟨first, second⟩ announcement given
    exact (given_append.mp given).elim (first announcement) (second announcement)

theorem Quiet.fieldless {inputs : List SlotInput} (quiet : Quiet inputs) : Fieldless inputs :=
  fun announcement given => absurd given (quiet announcement)

theorem quiet_message (timestamp : DateTime) {message : CanMessage}
    (other : ∀ announcement, message ≠ .nodeInfoAnnouncement announcement) :
    Quiet [.message timestamp message] := by
  rintro announcement ⟨time, member⟩
  obtain ⟨_, same⟩ := SlotInput.message.inj (List.mem_singleton.mp member)
  exact other announcement same.symm

theorem fieldless_announced {announcement : NodeInfoResPayload} (timestamp : DateTime)
    (complete : (CanNode.new (.announced announcement)).nodeRegistrationComplete = true) :
    Fieldless [.message timestamp (.nodeInfoAnnouncement announcement)] := by
  have noFields := (CanNode.nodeRegistrationComplete_iff _).mp complete
  rintro other ⟨time, member⟩
  obtain ⟨_, same⟩ := SlotInput.message.inj (List.mem_singleton.mp member)
  obtain rfl := CanMessage.nodeInfoAnnouncement.inj same
  exact ⟨UInt8.toNat_inj.mp noFields.1.symm, UInt8.toNat_inj.mp noFields.2.1.symm⟩

/-- The announcement that opened the registration of the node is in the past, and what the node
registered followed it. `strict` tells whether the past was uninterrupted. -/
def Opened (strict : Prop) (past : List SlotInput) (node : CanNode) : Prop :=
  ∃ older start announcement since,
    past = older ++ .message start (.nodeInfoAnnouncement announcement) :: since ∧
      node.SentIn announcement since ∧ Fieldless since ∧ (strict → Quiet since)

section Opened

variable {strict : Prop} {past : List SlotInput} {node : CanNode} {slot : NodeSlot}

theorem opened_new (timestamp : DateTime) (announcement : NodeInfoResPayload) :
    Opened strict (past ++ [.message timestamp (.nodeInfoAnnouncement announcement)])
      (.new (.announced announcement)) :=
  ⟨past, timestamp, announcement, [], rfl, CanNode.sentIn_new _ _, quiet_nil.fieldless, fun _ => quiet_nil⟩

theorem Opened.extend (opened : Opened strict past node) {input : SlotInput} (fieldless : Fieldless [input])
    (quiet : strict → Quiet [input]) : Opened strict (past ++ [input]) node := by
  obtain ⟨older, start, announcement, since, rfl, sent, noFields, undisturbed⟩ := opened
  refine ⟨older, start, announcement, since ++ [input], by simp, sent.append _,
    fieldless_append.mpr ⟨noFields, fieldless⟩, ?_⟩
  intro isStrict
  exact quiet_append.mpr ⟨undisturbed isStrict, quiet isStrict⟩

theorem Opened.message (opened : Opened strict past node) {input : SlotInput} (quiet : Quiet [input]) :
    Opened strict (past ++ [input]) node :=
  opened.extend quiet.fieldless fun _ => quiet

theorem Opened.register (opened : Opened strict past node) {message : CanMessage} {register : CanNode → CanNode}
    (effect : message.registration? = some register) (timestamp : DateTime) :
    Opened strict (past ++ [.message timestamp message]) (register node) := by
  obtain ⟨older, start, announcement, since, rfl, sent, noFields, undisturbed⟩ := opened
  have quiet : Quiet [.message timestamp message] := by
    apply quiet_message
    rintro payload rfl
    cases effect
  refine ⟨older, start, announcement, since ++ [.message timestamp message], by simp,
    sent.register effect timestamp, fieldless_append.mpr ⟨noFields, quiet.fieldless⟩, ?_⟩
  intro isStrict
  exact quiet_append.mpr ⟨undisturbed isStrict, quiet⟩

theorem opened_takes {nodeId : UInt8} {input : SlotInput} {next : NodeSlot}
    (opened : ∀ pending, slot.registering = some pending → Opened strict past pending)
    (uninterrupted : strict → slot.Uninterrupted input) (taken : slot.Takes liquidCan nodeId input next)
    (registering : next.registering = some node) : Opened strict (past ++ [input]) node := by
  cases change_of_takes liquidCan taken with
  | announced timestamp announcement =>
      unfold NodeSlot.announce at registering
      by_cases complete : (CanNode.new (.announced announcement)).nodeRegistrationComplete = true
      · simp only [complete, ↓reduceIte] at registering
        have fieldless := fieldless_announced timestamp complete
        apply (opened node registering).extend fieldless
        intro isStrict
        obtain ⟨noTelemetry, noParameters⟩ := fieldless announcement ⟨timestamp, by simp⟩
        have idle := uninterrupted isStrict timestamp announcement rfl noTelemetry noParameters
        rw [idle] at registering
        cases registering
      · simp only [complete, ↓reduceIte, Bool.false_eq_true, Option.some.injEq] at registering
        subst registering
        exact opened_new timestamp announcement
  | @registered message register pending timestamp effect found =>
      unfold NodeSlot.settle at registering
      by_cases complete : (register pending).nodeRegistrationComplete = true
      · simp only [complete, ↓reduceIte] at registering
        cases registering
      · simp only [complete, ↓reduceIte, Bool.false_eq_true, Option.some.injEq] at registering
        subst registering
        exact (opened pending found).register effect timestamp
  | received timestamp noEffect other found => exact (opened node registering).message (quiet_message timestamp other)
  | rejected timestamp other refused => exact (opened node registering).message (quiet_message timestamp other)
  | heartbeat timestamp => exact (opened node registering).message (by simp [Quiet, Given])

theorem opened_of_completes {message : CanMessage} (timestamp : DateTime)
    (opened : ∀ pending, slot.registering = some pending → Opened strict past pending)
    (completes : slot.Completes message node) : Opened strict (past ++ [.message timestamp message]) node := by
  rcases completes with ⟨payload, rfl, rfl⟩ | ⟨register, pending, effect, registering, rfl⟩
  · exact opened_new timestamp payload
  · exact (opened pending registering).register effect timestamp

end Opened

variable {slot : NodeSlot}

def Registers (slot : NodeSlot) (input : SlotInput) (node : CanNode) : Prop :=
  ∃ timestamp message, input = .message timestamp message ∧ slot.Completes message node ∧
    node.nodeRegistrationComplete = true

theorem registered_takes {nodeId : UInt8} {input : SlotInput} {next : NodeSlot} {after : CanNode}
    (taken : slot.Takes liquidCan nodeId input next) (registered : next.registered = some after) :
    slot.Registers input after ∨ ∃ node, slot.registered = some node ∧ after.definition = node.definition := by
  cases change_of_takes liquidCan taken with
  | announced timestamp payload =>
      unfold NodeSlot.announce at registered
      by_cases complete : (CanNode.new (.announced payload)).nodeRegistrationComplete = true
      · simp only [complete, ↓reduceIte] at registered
        obtain rfl := Option.some.inj registered
        exact Or.inl ⟨timestamp, _, rfl, Or.inl ⟨payload, rfl, rfl⟩, complete⟩
      · simp only [complete, ↓reduceIte, Bool.false_eq_true] at registered
        exact Or.inr ⟨after, registered, rfl⟩
  | @registered message register pending timestamp effect registering =>
      unfold NodeSlot.settle at registered
      by_cases complete : (register pending).nodeRegistrationComplete = true
      · simp only [complete, ↓reduceIte] at registered
        obtain rfl := Option.some.inj registered
        exact Or.inl ⟨timestamp, message, rfl, Or.inr ⟨register, pending, effect, registering, rfl⟩, complete⟩
      · simp only [complete, ↓reduceIte, Bool.false_eq_true] at registered
        exact Or.inr ⟨after, registered, rfl⟩
  | received timestamp noEffect other found =>
      obtain rfl := Option.some.inj registered
      exact Or.inr ⟨_, found, CanNode.receive_definition liquidCan _ _ _ _⟩
  | rejected timestamp other refused => exact Or.inr ⟨after, registered, rfl⟩
  | heartbeat timestamp =>
      obtain ⟨node, found, rfl⟩ := Option.map_eq_some_iff.mp registered
      exact Or.inr ⟨node, found, rfl⟩

theorem Registers.registered {nodeId : UInt8} {input : SlotInput} {next : NodeSlot} {node : CanNode}
    (registers : slot.Registers input node) (taken : slot.Takes liquidCan nodeId input next) :
    next.registered = some node := by
  obtain ⟨timestamp, message, rfl, ⟨payload, rfl, rfl⟩ | ⟨register, pending, effect, registering, rfl⟩, complete⟩ :=
    registers
  · obtain rfl : slot.announce (.announced payload) = next := taken
    unfold NodeSlot.announce
    simp only [complete, ↓reduceIte]
  · have handled : slot.handle liquidCan nodeId timestamp message = _ := handle_registration liquidCan effect
    obtain rfl : (slot.handle liquidCan nodeId timestamp message).slot = next := taken
    rw [handled, registering]
    unfold NodeSlot.settle
    simp only [complete, ↓reduceIte]

theorem idle_takes {nodeId : UInt8} {input : SlotInput} {next : NodeSlot}
    (taken : slot.Takes liquidCan nodeId input next) (none : ¬ ∃ node, slot.Registers input node)
    (idle : next.registering = Option.none) : slot.registering = Option.none ∧ Quiet [input] := by
  cases change_of_takes liquidCan taken with
  | announced timestamp payload =>
      unfold NodeSlot.announce at idle
      by_cases complete : (CanNode.new (.announced payload)).nodeRegistrationComplete = true
      · exact absurd ⟨_, timestamp, _, rfl, Or.inl ⟨payload, rfl, rfl⟩, complete⟩ none
      · simp only [complete, ↓reduceIte, Bool.false_eq_true] at idle
        cases idle
  | @registered message register pending timestamp effect registering =>
      unfold NodeSlot.settle at idle
      by_cases complete : (register pending).nodeRegistrationComplete = true
      · exact absurd ⟨_, timestamp, message, rfl, Or.inr ⟨register, pending, effect, registering, rfl⟩, complete⟩ none
      · simp only [complete, ↓reduceIte, Bool.false_eq_true] at idle
        cases idle
  | received timestamp noEffect other found => exact ⟨idle, quiet_message timestamp other⟩
  | rejected timestamp other refused => exact ⟨idle, quiet_message timestamp other⟩
  | heartbeat timestamp => exact ⟨idle, by simp [Quiet, Given]⟩

end NodeSlot

namespace NodeManager

def Uninterrupted (nodeId : UInt8) (manager : NodeManager) (operation : Operation) : Prop :=
  ∀ input, operation.seenBy nodeId = some input → (manager.slot nodeId).Uninterrupted input

theorem opened_run (strict : Prop) {nodeId : UInt8} {mapping : Mapping} {operations : List Operation}
    {manager : NodeManager} (run : Transition.Run (Performs liquidCan) (new mapping) operations manager)
    (uninterrupted : strict → Transition.Run
      (Transition.Restrict (Uninterrupted nodeId) (Performs liquidCan)) (new mapping) operations manager) :
    ∀ node, (manager.slot nodeId).registering = some node →
      NodeSlot.Opened strict (operations.filterMap (Operation.seenBy nodeId)) node := by
  have restricted : Transition.Run (Transition.Restrict
      (fun state operation => strict → Uninterrupted nodeId state operation) (Performs liquidCan))
      (new mapping) operations manager := by
    by_cases isStrict : strict
    · exact (uninterrupted isStrict).mono fun _ _ _ taken => ⟨fun _ => taken.1, taken.2⟩
    · exact run.mono fun _ _ _ taken => ⟨fun impossible => absurd impossible isStrict, taken⟩
  have initial : ∀ node, ((new mapping).slot nodeId).registering = some node →
      NodeSlot.Opened strict (([] : List Operation).filterMap (Operation.seenBy nodeId)) node := by
    intro node registering
    simp at registering
  refine restricted.history (fun past state => ∀ node, (state.slot nodeId).registering = some node →
    NodeSlot.Opened strict (past.filterMap (Operation.seenBy nodeId)) node) ?_ initial
  rintro past state operation next opened ⟨undisturbed, performed⟩ node registering
  have taken := slot_perform liquidCan state next operation nodeId performed
  rw [List.filterMap_append]
  cases seen : operation.seenBy nodeId with
  | none =>
      rw [seen] at taken
      simp only [List.filterMap_cons_none seen, List.filterMap_nil, List.append_nil]
      rw [taken] at registering
      exact opened node registering
  | some input =>
      rw [seen] at taken
      simp only [List.filterMap_cons_some seen, List.filterMap_nil]
      exact NodeSlot.opened_takes liquidCan opened (fun isStrict => undisturbed isStrict input seen) taken registering

def Registers (nodeId : UInt8) (manager : NodeManager) (operation : Operation) (node : CanNode) : Prop :=
  ∃ input, operation.seenBy nodeId = some input ∧ (manager.slot nodeId).Registers input node

/-- The last of the operations `upTo` completes the registration in force, and none is completed `since`. -/
inductive RegisteredLast (mapping : Mapping) (nodeId : UInt8) (node : CanNode) :
    List Operation → List Operation → NodeManager → Prop
  | intro {before completing since earlier next manager registered} :
      Transition.Run (Performs liquidCan) (new mapping) before earlier →
      Registers nodeId earlier completing registered → registered.definition = node.definition →
      earlier.Performs liquidCan completing next → next.canNodes.lookup nodeId = some registered →
      Transition.Run (Transition.Restrict
        (fun state operation => ¬ ∃ other, Registers nodeId state operation other) (Performs liquidCan))
        next since manager →
      RegisteredLast mapping nodeId node (before ++ [completing]) since manager

section Last

variable {mapping : Mapping} {nodeId : UInt8} {manager next : NodeManager} {operation : Operation}
  {past upTo since : List Operation} {node after : CanNode}

theorem registered_performs (performed : manager.Performs liquidCan operation next)
    (registered : next.canNodes.lookup nodeId = some after) :
    Registers nodeId manager operation after ∨ (¬ ∃ other, Registers nodeId manager operation other) ∧
      ∃ node, manager.canNodes.lookup nodeId = some node ∧ after.definition = node.definition := by
  have taken := slot_perform liquidCan manager next operation nodeId performed
  rw [← slot_registered] at registered
  by_cases completes : ∃ other, Registers nodeId manager operation other
  · obtain ⟨other, input, seen, registers⟩ := completes
    rw [seen] at taken
    have same := registers.registered liquidCan taken
    rw [registered] at same
    obtain rfl := Option.some.inj same
    exact Or.inl ⟨input, seen, registers⟩
  · refine Or.inr ⟨completes, ?_⟩
    cases seen : operation.seenBy nodeId with
    | none =>
        rw [seen] at taken
        rw [taken] at registered
        exact ⟨after, registered, rfl⟩
    | some input =>
        rw [seen] at taken
        rcases NodeSlot.registered_takes liquidCan taken registered with registers | kept
        · exact absurd ⟨after, input, seen, registers⟩ completes
        · exact kept

theorem RegisteredLast.extend (last : RegisteredLast liquidCan mapping nodeId node upTo since manager)
    (none : ¬ ∃ other, Registers nodeId manager operation other) (performed : manager.Performs liquidCan operation next)
    (same : after.definition = node.definition) :
    RegisteredLast liquidCan mapping nodeId after upTo (since ++ [operation]) next := by
  obtain ⟨run, completes, definition, completed, registered, rest⟩ := last
  exact RegisteredLast.intro run completes (definition.trans same.symm) completed registered
    (rest.append (Transition.Run.cons ⟨none, performed⟩ (Transition.Run.nil _)))

theorem registeredLast_run {operations : List Operation}
    (run : Transition.Run (Performs liquidCan) (new mapping) operations manager)
    (registered : manager.canNodes.lookup nodeId = some node) :
    ∃ upTo since, operations = upTo ++ since ∧ RegisteredLast liquidCan mapping nodeId node upTo since manager := by
  have whole := run.history (fun past state => Transition.Run (Performs liquidCan) (new mapping) past state ∧
    ∀ node, state.canNodes.lookup nodeId = some node →
      ∃ upTo since, past = upTo ++ since ∧ RegisteredLast liquidCan mapping nodeId node upTo since state) ?_
    ⟨Transition.Run.nil _, fun node impossible => by simp [new] at impossible⟩
  · exact whole.2 node registered
  · rintro past state operation next ⟨before, known⟩ performed
    refine ⟨before.append (Transition.Run.cons performed (Transition.Run.nil _)), fun after registered => ?_⟩
    rcases registered_performs liquidCan performed registered with completes | ⟨none, node, earlier, same⟩
    · exact ⟨past ++ [operation], [], by simp,
        RegisteredLast.intro before completes rfl performed registered (Transition.Run.nil _)⟩
    · obtain ⟨upTo, since, rfl, last⟩ := known node earlier
      exact ⟨upTo, since ++ [operation], List.append_assoc _ _ _, last.extend liquidCan none performed same⟩

theorem idle_performs (performed : manager.Performs liquidCan operation next)
    (none : ¬ ∃ other, Registers nodeId manager operation other)
    (idle : next.registeringNodes.lookup nodeId = Option.none) :
    manager.registeringNodes.lookup nodeId = Option.none ∧
      NodeSlot.Quiet (List.filterMap (Operation.seenBy nodeId) [operation]) := by
  have taken := slot_perform liquidCan manager next operation nodeId performed
  rw [← slot_registering] at idle ⊢
  cases seen : operation.seenBy nodeId with
  | none =>
      rw [seen] at taken
      rw [taken] at idle
      rw [List.filterMap_cons_none seen]
      exact ⟨idle, NodeSlot.quiet_nil⟩
  | some input =>
      rw [seen] at taken
      rw [List.filterMap_cons_some seen]
      exact NodeSlot.idle_takes liquidCan taken (fun ⟨other, registers⟩ => none ⟨other, input, seen, registers⟩) idle

theorem quiet_since (rest : Transition.Run (Transition.Restrict
      (fun state operation => ¬ ∃ other, Registers nodeId state operation other) (Performs liquidCan))
      manager since next) (idle : next.registeringNodes.lookup nodeId = none) :
    NodeSlot.Quiet (since.filterMap (Operation.seenBy nodeId)) := by
  have initial : manager.registeringNodes.lookup nodeId = none →
      NodeSlot.Quiet (([] : List Operation).filterMap (Operation.seenBy nodeId)) := fun _ => NodeSlot.quiet_nil
  refine rest.history (fun past state => state.registeringNodes.lookup nodeId = none →
    NodeSlot.Quiet (past.filterMap (Operation.seenBy nodeId))) ?_ initial idle
  rintro past state operation after before ⟨none, performed⟩ idle
  obtain ⟨earlier, quiet⟩ := idle_performs liquidCan performed none idle
  rw [List.filterMap_append]
  exact NodeSlot.quiet_append.mpr ⟨before earlier, quiet⟩

theorem run_unique {operations : List Operation} {start first second : NodeManager}
    (run : Transition.Run (Performs liquidCan) start operations first)
    (again : Transition.Run (Performs liquidCan) start operations second) : first = second :=
  ((run_iff_replay liquidCan).mp run).symm.trans ((run_iff_replay liquidCan).mp again)

theorem uninterrupted_before {before rest : List Operation} {earlier : NodeManager}
    (run : Transition.Run (Performs liquidCan) (new mapping) before earlier)
    (uninterrupted : Transition.Run (Transition.Restrict (Uninterrupted nodeId) (Performs liquidCan)) (new mapping)
      (before ++ rest) manager) :
    Transition.Run (Transition.Restrict (Uninterrupted nodeId) (Performs liquidCan)) (new mapping) before earlier := by
  obtain ⟨reached, first, _⟩ := Transition.run_append_iff.mp uninterrupted
  obtain rfl := run_unique liquidCan first.weaken run
  exact first

theorem RegisteredLast.sentIn (last : RegisteredLast liquidCan mapping nodeId node upTo since manager) :
    ∃ older start announcement during,
      upTo.filterMap (Operation.seenBy nodeId) =
        older ++ .message start (.nodeInfoAnnouncement announcement) :: during ∧
      node.SentIn announcement during ∧ NodeSlot.Fieldless during ∧
      (Transition.Run (Transition.Restrict (Uninterrupted nodeId) (Performs liquidCan)) (new mapping)
          (upTo ++ since) manager →
        NodeSlot.Quiet during ∧ (manager.registeringNodes.lookup nodeId = none →
          NodeSlot.Quiet (during ++ since.filterMap (Operation.seenBy nodeId)))) := by
  obtain @⟨before, completing, since, earlier, next, manager, registered, run, completes, definition, completed, there,
    rest⟩ := last
  obtain ⟨input, seen, timestamp, message, rfl, completion, _⟩ := completes
  have opened := opened_run liquidCan (Transition.Run (Transition.Restrict (Uninterrupted nodeId) (Performs liquidCan))
    (new mapping) (before ++ [completing] ++ since) manager) run fun uninterrupted =>
      uninterrupted_before liquidCan run (List.append_assoc before _ _ ▸ uninterrupted)
  obtain ⟨older, start, announcement, during, split, sent, fieldless, quiet⟩ :=
    NodeSlot.opened_of_completes timestamp opened completion
  refine ⟨older, start, announcement, during, ?_, sent.of_definition_eq definition.symm, fieldless, ?_⟩
  · rw [List.filterMap_append, List.filterMap_cons_some seen, List.filterMap_nil, split]
  · intro uninterrupted
    refine ⟨quiet uninterrupted, fun idle => ?_⟩
    exact NodeSlot.quiet_append.mpr ⟨quiet uninterrupted, quiet_since liquidCan rest idle⟩

end Last

/-- Values are decoded with the registration that was completed last. All its definitions were sent after the
announcement that opened it, the latest one of all when the node is not registering anew. -/
theorem decoding_single_announcement {mapping : Mapping} {operations : List Operation}
    {manager : NodeManager} (run : Transition.Run (Performs liquidCan) (new mapping) operations manager)
    {id : CanMessageId} {message : CanMessage} {node : CanNode}
    {rows : List ((UInt8 × FieldInfo) × Result CanDataValue)}
    (registered : manager.canNodes.lookup id.senderId = some node)
    (decoded : node.decode liquidCan message = some rows) :
    (∀ timestamp, (manager.handleCanMessageFromNode liquidCan timestamp id message).manager.canNodes.lookup
      id.senderId = some (node.cacheAll timestamp (storedRows rows))) ∧
    ∃ fields upTo since older start announcement during,
      (∀ row ∈ rows, row.1 ∈ fields) ∧
      operations = upTo ++ since ∧ RegisteredLast liquidCan mapping id.senderId node upTo since manager ∧
      upTo.filterMap (Operation.seenBy id.senderId) =
        older ++ .message start (.nodeInfoAnnouncement announcement) :: during ∧
      node.registrationInfo = .announced announcement ∧ NodeSlot.Fieldless during ∧
      LayoutSentIn during fields message ∧
      (Transition.Run (Transition.Restrict (Uninterrupted id.senderId) (Performs liquidCan))
          (new mapping) operations manager →
        NodeSlot.Quiet during ∧ (manager.registeringNodes.lookup id.senderId = none →
          NodeSlot.Quiet (during ++ since.filterMap (Operation.seenBy id.senderId)))) := by
  constructor
  · intro timestamp
    have confined := (confined_handle liquidCan manager timestamp id message).slot
    have registration : message.registration? = none := by
      cases message <;> first | rfl | simp [CanNode.decode] at decoded
    have other : ∀ payload, message ≠ .nodeInfoAnnouncement payload := by
      rintro payload rfl
      simp [CanNode.decode] at decoded
    have received : (node.receive liquidCan id.senderId timestamp message).node =
        node.cacheAll timestamp (storedRows rows) := by
      cases message <;> first
        | (simp [CanNode.decode] at decoded; done)
        | simp only [CanNode.receive, decoded]
    rw [NodeSlot.handle_value liquidCan registration other, slot_registered, registered] at confined
    rw [← slot_registered, confined]
    exact congrArg some received
  · obtain ⟨fields, found, inside⟩ := CanNode.decode_layoutFor liquidCan decoded
    obtain ⟨upTo, since, rfl, last⟩ := registeredLast_run liquidCan run registered
    obtain ⟨older, start, announcement, during, split, sent, fieldless, undisturbed⟩ := last.sentIn liquidCan
    exact ⟨fields, upTo, since, older, start, announcement, during, inside, rfl, last, split,
      sent.registrationInfo, fieldless, sent.layoutFor found, undisturbed⟩

def reannouncedRun : List Operation := [
  .message 0 ⟨1, 0⟩ (.nodeInfoAnnouncement ⟨1, 0, 0, 0, "tank"⟩),
  .message 1 ⟨1, 0⟩ (.telemetryGroupDefinition ⟨0, [0]⟩),
  .message 2 ⟨1, 0⟩ (.telemetryValueRegistration ⟨0, .uint16, "pressure"⟩),
  .message 3 ⟨1, 0⟩ (.nodeInfoAnnouncement ⟨1, 0, 0, 0, "tank"⟩)]

def reannouncedNode : CanNode where
  registrationInfo := ⟨1, 0, 0, 0, "tank"⟩
  telemetryFields := AList.insert 0 ⟨.uint16, "pressure"⟩ ∅
  telemetryGroups := AList.insert 0 ⟨[0]⟩ ∅

def pressureUpdate : CanMessage := .telemetryGroupUpdate ⟨0, ⟨[0x34, 0x12]⟩⟩

theorem reannouncedNode_registered :
    ((new {}).replay LiquidCan.littleEndian reannouncedRun).canNodes.lookup 1 = some reannouncedNode :=
  rfl

theorem reannouncedNode_decode :
    reannouncedNode.decode LiquidCan.littleEndian pressureUpdate =
      some [((0, ⟨.uint16, "pressure"⟩), .ok (.uint16 ⟨4660, by decide⟩))] := rfl

/-- The value that arrives after the second announcement is decoded with the first registration. -/
theorem decoding_single_announcement_reannounced : ∃ manager fields upTo since older start announcement during,
    Transition.Run (Performs LiquidCan.littleEndian) (new {}) reannouncedRun manager ∧
    (∀ timestamp, (manager.handleCanMessageFromNode LiquidCan.littleEndian timestamp ⟨1, 0⟩
      pressureUpdate).manager.canNodes.lookup 1 =
        some (reannouncedNode.cacheAll timestamp [((0, ⟨.uint16, "pressure"⟩), .uint16 ⟨4660, by decide⟩)])) ∧
    reannouncedRun = upTo ++ since ∧
    RegisteredLast LiquidCan.littleEndian {} 1 reannouncedNode upTo since manager ∧
    upTo.filterMap (Operation.seenBy 1) = older ++ .message start (.nodeInfoAnnouncement announcement) :: during ∧
    NodeSlot.Fieldless during ∧ LayoutSentIn during fields pressureUpdate := by
  have run : Transition.Run (Performs LiquidCan.littleEndian) (new {}) reannouncedRun _ :=
    (run_iff_replay LiquidCan.littleEndian).mpr rfl
  have sender : CanMessageId.senderId ⟨1, 0⟩ = 1 := rfl
  obtain ⟨cached, fields, upTo, since, older, start, announcement, during, _, whole, last, split, _, fieldless, sent,
      _⟩ :=
    decoding_single_announcement LiquidCan.littleEndian run (sender ▸ reannouncedNode_registered)
      reannouncedNode_decode
  exact ⟨_, fields, upTo, since, older, start, announcement, during, run, cached, whole, last, split, fieldless, sent⟩

theorem reannounced_value_decoded_with_old_layout :
    ¬ ∀ (operations : List Operation) (manager : NodeManager) (id : CanMessageId) (message : CanMessage)
        (node : CanNode) (fields : List (UInt8 × FieldInfo))
        (rows : List ((UInt8 × FieldInfo) × Result CanDataValue))
        (older : List SlotInput) (start : DateTime) (announcement : NodeInfoResPayload)
        (since : List SlotInput),
      Transition.Run (Performs LiquidCan.littleEndian) (new {}) operations manager →
      manager.canNodes.lookup id.senderId = some node → node.layoutFor message = some fields →
      node.decode LiquidCan.littleEndian message = some rows → storedRows rows ≠ [] →
      operations.filterMap (Operation.seenBy id.senderId) =
        older ++ .message start (.nodeInfoAnnouncement announcement) :: since →
      NodeSlot.Quiet since → LayoutSentIn since fields message := by
  intro claim
  have current := claim reannouncedRun _ ⟨1, 0⟩ pressureUpdate reannouncedNode
    [(0, ⟨.uint16, "pressure"⟩)] _ [_, _, _] 3 ⟨1, 0, 0, 0, "tank"⟩ []
    ((run_iff_replay LiquidCan.littleEndian).mpr rfl) reannouncedNode_registered rfl
    reannouncedNode_decode (by simp [storedRows]) rfl NodeSlot.quiet_nil
  obtain ⟨⟨_, impossible⟩, _⟩ := current
  simp at impossible

end NodeManager

end FerroFlow
