import FerroFlow.DecodingHistory
import FerroFlow.NodeValues

/-! The cache of received values. A value is kept under the bare id of its field, whichever of the
two id maps defines the field. -/

namespace FerroFlow

/-- The message delivers a value for a field of the node. A group update carries telemetry; a get
response is taken for the telemetry field with its id if there is one. -/
inductive CanNode.Delivers (liquidCan : LiquidCan) (node : CanNode) :
    CanMessage → FieldType → UInt8 → FieldInfo → CanDataValue → Prop
  | updated {payload layout id fieldInfo value} : node.groupLayout payload.groupId = some layout →
      ((id, fieldInfo), Except.ok value) ∈
        layout.zip (liquidCan.unpack payload.values (layout.map (·.2.dataType))) →
      Delivers liquidCan node (.telemetryGroupUpdate payload) .telemetry id fieldInfo value
  | telemetry {payload fieldInfo value} : node.telemetryFields.lookup payload.fieldId = some fieldInfo →
      liquidCan.convertFromRaw payload.value fieldInfo.dataType = .ok value →
      Delivers liquidCan node (.fieldGetRes payload) .telemetry payload.fieldId fieldInfo value
  | parameter {payload fieldInfo value} : node.telemetryFields.lookup payload.fieldId = none →
      node.parameterFields.lookup payload.fieldId = some fieldInfo →
      liquidCan.convertFromRaw payload.value fieldInfo.dataType = .ok value →
      Delivers liquidCan node (.fieldGetRes payload) .parameter payload.fieldId fieldInfo value

theorem mem_storedRows {rows : List ((UInt8 × FieldInfo) × Result CanDataValue)}
    {row : (UInt8 × FieldInfo) × CanDataValue} (stored : row ∈ storedRows rows) :
    (row.1, Except.ok row.2) ∈ rows := by
  induction rows with
  | nil => simp [storedRows] at stored
  | cons first rest ih =>
      obtain ⟨field, received⟩ := first
      cases received with
      | error failure => simp [storedRows] at stored
      | ok value =>
          simp only [storedRows, List.mem_cons] at stored
          rcases stored with same | later
          · subst same
            exact List.mem_cons_self
          · exact List.mem_cons_of_mem _ (ih later)

namespace CanNode

variable {liquidCan : LiquidCan} {node : CanNode} {message : CanMessage} {kind : FieldType} {id : UInt8}
  {fieldInfo : FieldInfo} {value : CanDataValue}

theorem decode_delivers {rows : List ((UInt8 × FieldInfo) × Result CanDataValue)}
    (decoded : node.decode liquidCan message = some rows)
    (stored : ((id, fieldInfo), value) ∈ storedRows rows) :
    ∃ kind, Delivers liquidCan node message kind id fieldInfo value := by
  have member := mem_storedRows stored
  cases message with
  | telemetryGroupUpdate payload =>
      simp only [decode, Option.map_eq_some_iff] at decoded
      obtain ⟨layout, found, zipped⟩ := decoded
      subst zipped
      exact ⟨.telemetry, Delivers.updated found member⟩
  | fieldGetRes payload =>
      simp only [decode, fieldInfo?, Option.map_eq_some_iff] at decoded
      obtain ⟨definition, defined, single⟩ := decoded
      subst single
      simp only [List.mem_singleton, Prod.mk.injEq] at member
      obtain ⟨⟨sameId, sameInfo⟩, converted⟩ := member
      subst sameId
      subst sameInfo
      rcases Option.or_eq_some_iff.mp defined with telemetry | ⟨absent, parameter⟩
      · exact ⟨.telemetry, Delivers.telemetry telemetry converted.symm⟩
      · exact ⟨.parameter, Delivers.parameter absent parameter converted.symm⟩
  | _ => simp [decode] at decoded

theorem Delivers.defined (delivers : Delivers liquidCan node message kind id fieldInfo value) :
    (NodeManager.mappedFields node kind).lookup id = some fieldInfo ∧
      (kind = .parameter → node.telemetryFields.lookup id = none) := by
  cases delivers with
  | updated found member =>
      refine ⟨(groupLayout_eq_some found).2 _ (List.of_mem_zip member).1, ?_⟩
      intro impossible
      cases impossible
  | telemetry defined converted =>
      refine ⟨defined, ?_⟩
      intro impossible
      cases impossible
  | parameter absent defined converted => exact ⟨defined, fun _ => absent⟩

theorem Delivers.typed (delivers : Delivers liquidCan node message kind id fieldInfo value)
    (lawful : liquidCan.Lawful) : value.dataType? = some fieldInfo.dataType := by
  cases delivers with
  | @updated payload layout id fieldInfo value found member =>
      obtain ⟨position, located⟩ := List.mem_iff_getElem?.mp member
      rw [List.getElem?_zip_eq_some] at located
      have typed := lawful.unpackTyped _ _ position value located.2
      rw [typed, List.getElem?_map, located.1]
      rfl
  | telemetry defined converted => exact lawful.convertTyped _ _ _ converted
  | parameter absent defined converted => exact lawful.convertTyped _ _ _ converted

theorem cacheAll_append (node : CanNode) (timestamp : DateTime)
    (rows : List ((UInt8 × FieldInfo) × CanDataValue)) (row : (UInt8 × FieldInfo) × CanDataValue) :
    (node.cacheAll timestamp (rows ++ [row])).values =
      (node.cacheAll timestamp rows).values.insert row.1.1 (timestamp, row.2) := by
  simp only [cacheAll, List.foldl_append, List.foldl_cons, List.foldl_nil]

theorem lookup_cacheAll {timestamp time : DateTime} {rows : List ((UInt8 × FieldInfo) × CanDataValue)}
    (found : (node.cacheAll timestamp rows).values.lookup id = some (time, value)) :
    (time = timestamp ∧ ∃ fieldInfo, ((id, fieldInfo), value) ∈ rows) ∨
      node.values.lookup id = some (time, value) := by
  induction rows using List.reverseRecOn with
  | nil => exact Or.inr found
  | append_singleton rows row ih =>
      rw [cacheAll_append, KeyedMap.lookup_insert_eq] at found
      by_cases last : id = row.1.1
      · rw [if_pos last] at found
        obtain ⟨sameTime, sameValue⟩ := Prod.mk.inj (Option.some.inj found)
        refine Or.inl ⟨sameTime.symm, row.1.2, ?_⟩
        rw [last, ← sameValue]
        exact List.mem_append_right rows (List.mem_singleton_self row)
      · rw [if_neg last] at found
        rcases ih found with ⟨sameTime, info, member⟩ | older
        · exact Or.inl ⟨sameTime, info, List.mem_append_left [row] member⟩
        · exact Or.inr older

theorem receive_cases (liquidCan : LiquidCan) (node : CanNode) (nodeId : UInt8) (timestamp : DateTime)
    (message : CanMessage) :
    ((node.receive liquidCan nodeId timestamp message).node.values = node.values ∧
      (node.receive liquidCan nodeId timestamp message).events = []) ∨
    ∃ rows, node.decode liquidCan message = some rows ∧
      (node.receive liquidCan nodeId timestamp message).node = node.cacheAll timestamp (storedRows rows) ∧
      (node.receive liquidCan nodeId timestamp message).events = (storedRows rows).map fun row =>
        .nodeFieldUpdated (NodeManager.telemetryLog timestamp nodeId row.1.1 row.1.2 row.2) := by
  simp only [receive]
  split
  · exact Or.inl ⟨rfl, rfl⟩
  · cases decoded : node.decode liquidCan message with
    | none => exact Or.inl ⟨rfl, rfl⟩
    | some rows => exact Or.inr ⟨rows, rfl, rfl, rfl⟩

end CanNode

theorem CanMessage.registration_values {message : CanMessage} {register : CanNode → CanNode}
    (effect : message.registration? = some register) (node : CanNode) :
    (register node).values = node.values := by
  cases message <;> simp only [registration?, reduceCtorEq, Option.some.injEq] at effect <;>
    subst effect <;> rfl

namespace NodeSlot

variable (liquidCan : LiquidCan)

theorem registering_takes {property : CanNode → Prop} (new : ∀ info, property (CanNode.new info))
    (kept : ∀ {message : CanMessage} {register : CanNode → CanNode} (node : CanNode),
      message.registration? = some register → property node → property (register node))
    {nodeId : UInt8} {slot next : NodeSlot} {input : SlotInput}
    (before : ∀ node, slot.registering = some node → property node)
    (taken : slot.Takes liquidCan nodeId input next) :
    ∀ node, next.registering = some node → property node := by
  cases change_of_takes liquidCan taken with
  | announced timestamp payload =>
      intro node registering
      simp only [NodeSlot.announce] at registering
      split at registering
      · exact before node registering
      · have same := Option.some.inj registering
        rw [← same]
        exact new _
  | @registered message register pending timestamp effect found =>
      intro node registering
      simp only [NodeSlot.settle] at registering
      split at registering
      · cases registering
      · have same := Option.some.inj registering
        rw [← same]
        exact kept pending effect (before pending found)
  | received timestamp noEffect other found => exact before
  | rejected timestamp other refused => exact before
  | heartbeat timestamp => exact before

def Blank (slot : NodeSlot) : Prop :=
  ∀ node, slot.registering = some node → node.values = ∅

theorem Blank.takes {nodeId : UInt8} {slot next : NodeSlot} {input : SlotInput} (blank : slot.Blank)
    (taken : slot.Takes liquidCan nodeId input next) : next.Blank := by
  refine registering_takes liquidCan (fun _ => rfl) ?_ blank taken
  intro message register node effect empty
  rw [CanMessage.registration_values effect, empty]

theorem handle_events (slot : NodeSlot) (nodeId : UInt8) (timestamp : DateTime) (message : CanMessage) :
    (slot.handle liquidCan nodeId timestamp message).events = [] ∨
    ∃ node rows, slot.registered = some node ∧ node.decode liquidCan message = some rows ∧
      (slot.handle liquidCan nodeId timestamp message).events = (storedRows rows).map fun row =>
        .nodeFieldUpdated (NodeManager.telemetryLog timestamp nodeId row.1.1 row.1.2 row.2) := by
  by_cases announced : ∃ payload, message = .nodeInfoAnnouncement payload
  · obtain ⟨payload, same⟩ := announced
    subst same
    exact Or.inl rfl
  · have other : ∀ payload, message ≠ .nodeInfoAnnouncement payload :=
      fun payload same => announced ⟨payload, same⟩
    cases effect : message.registration? with
    | some register =>
        rw [handle_registration liquidCan effect]
        cases slot.registering <;> exact Or.inl rfl
    | none =>
        rw [handle_value liquidCan effect other]
        cases found : slot.registered with
        | none => exact Or.inl rfl
        | some node =>
            rcases node.receive_cases liquidCan nodeId timestamp message with
              ⟨_, silent⟩ | ⟨rows, decoded, _, events⟩
            · exact Or.inl silent
            · exact Or.inr ⟨node, rows, rfl, decoded, events⟩

def dispatched (slot : NodeSlot) (nodeId : UInt8) : SlotInput → List Event
  | .message timestamp message => (slot.handle liquidCan nodeId timestamp message).events
  | .heartbeat _ => []

def places (slot : NodeSlot) : SlotInput → Bool
  | .message _ (.nodeInfoAnnouncement payload) =>
      (CanNode.new (.announced payload)).nodeRegistrationComplete
  | .message _ message =>
      match message.registration?, slot.registering with
      | some register, some pending => (register pending).nodeRegistrationComplete
      | _, _ => false
  | .heartbeat _ => false

theorem places_registration {slot : NodeSlot} {timestamp : DateTime} {message : CanMessage}
    {register : CanNode → CanNode} (effect : message.registration? = some register) :
    slot.places (.message timestamp message) =
      match slot.registering with
      | some pending => (register pending).nodeRegistrationComplete
      | none => false := by
  obtain ⟨registering, registered⟩ := slot
  cases message <;> simp only [CanMessage.registration?, reduceCtorEq, Option.some.injEq] at effect <;>
    subst effect <;> cases registering <;> rfl

theorem places_value {slot : NodeSlot} {timestamp : DateTime} {message : CanMessage}
    (noEffect : message.registration? = none)
    (other : ∀ payload, message ≠ .nodeInfoAnnouncement payload) :
    slot.places (.message timestamp message) = false := by
  cases message with
  | nodeInfoAnnouncement payload => exact (other payload rfl).elim
  | _ => simp only [places, noEffect]

inductive CacheChange (nodeId : UInt8) (slot : NodeSlot) (input : SlotInput) (after : CanNode) :
    List Event → Prop
  | placed : slot.places input = true → after.values = ∅ → CacheChange nodeId slot input after []
  | kept {node} : slot.places input = false → slot.registered = some node →
      after.definition = node.definition → after.values = node.values →
      CacheChange nodeId slot input after []
  | stored {node timestamp message rows} : slot.places input = false → slot.registered = some node →
      input = .message timestamp message → node.decode liquidCan message = some rows →
      after = node.cacheAll timestamp (storedRows rows) →
      CacheChange nodeId slot input after ((storedRows rows).map fun row =>
        .nodeFieldUpdated (NodeManager.telemetryLog timestamp nodeId row.1.1 row.1.2 row.2))

theorem cacheChange_of_registration {nodeId : UInt8} {slot : NodeSlot} {timestamp : DateTime}
    {message : CanMessage} {register : CanNode → CanNode} {after : CanNode} (blank : slot.Blank)
    (effect : message.registration? = some register)
    (registered : (slot.handle liquidCan nodeId timestamp message).slot.registered = some after) :
    CacheChange liquidCan nodeId slot (.message timestamp message) after
      (slot.handle liquidCan nodeId timestamp message).events := by
  have handled : slot.handle liquidCan nodeId timestamp message = _ := handle_registration liquidCan effect
  have placed : slot.places (.message timestamp message) = _ := places_registration effect
  cases registering : slot.registering with
  | some pending =>
      rw [registering] at handled placed
      rw [handled] at registered ⊢
      simp only [settle] at registered
      split at registered
      · rename_i complete
        have completed := Option.some.inj registered
        refine CacheChange.placed (placed.trans complete) ?_
        rw [← completed, CanMessage.registration_values effect]
        exact blank pending registering
      · rename_i incomplete
        have pendingStill := Bool.eq_false_of_not_eq_true incomplete
        exact CacheChange.kept (placed.trans pendingStill) registered rfl rfl
  | none =>
      rw [registering] at handled placed
      rw [handled] at registered ⊢
      exact CacheChange.kept placed registered rfl rfl

theorem cacheChange_of_value {nodeId : UInt8} {slot : NodeSlot} {timestamp : DateTime}
    {message : CanMessage} {after : CanNode} (noEffect : message.registration? = none)
    (other : ∀ payload, message ≠ .nodeInfoAnnouncement payload)
    (registered : (slot.handle liquidCan nodeId timestamp message).slot.registered = some after) :
    CacheChange liquidCan nodeId slot (.message timestamp message) after
      (slot.handle liquidCan nodeId timestamp message).events := by
  have handled : slot.handle liquidCan nodeId timestamp message = _ := handle_value liquidCan noEffect other
  have stays : slot.places (.message timestamp message) = false := places_value noEffect other
  cases found : slot.registered with
  | none =>
      rw [found] at handled
      rw [handled, found] at registered
      cases registered
  | some node =>
      rw [found] at handled
      rw [handled] at registered ⊢
      simp only at registered ⊢
      have same := Option.some.inj registered
      rcases node.receive_cases liquidCan nodeId timestamp message with
        ⟨values, silent⟩ | ⟨rows, decoded, cached, events⟩
      · rw [silent]
        refine CacheChange.kept stays found ?_ ?_
        · rw [← same]
          exact node.receive_definition liquidCan nodeId timestamp message
        · rw [← same]
          exact values
      · rw [events]
        exact CacheChange.stored stays found rfl decoded (by rw [← same, cached])

theorem cacheChange_of_takes {nodeId : UInt8} {slot next : NodeSlot} {input : SlotInput} {after : CanNode}
    (blank : slot.Blank) (taken : slot.Takes liquidCan nodeId input next)
    (registered : next.registered = some after) :
    CacheChange liquidCan nodeId slot input after (slot.dispatched liquidCan nodeId input) := by
  cases input with
  | heartbeat timestamp =>
      simp only [Takes] at taken
      subst taken
      simp only [heartbeat, Option.map_eq_some_iff] at registered
      obtain ⟨node, found, sent⟩ := registered
      subst sent
      exact CacheChange.kept rfl found rfl rfl
  | message timestamp message =>
      simp only [Takes] at taken
      subst taken
      simp only [dispatched]
      by_cases announced : ∃ payload, message = .nodeInfoAnnouncement payload
      · obtain ⟨payload, same⟩ := announced
        subst same
        simp only [handle, announce] at registered
        split at registered
        · rename_i complete
          have new := Option.some.inj registered
          exact CacheChange.placed complete (by rw [← new]; rfl)
        · rename_i incomplete
          exact CacheChange.kept (Bool.eq_false_of_not_eq_true incomplete) registered rfl rfl
      · have other : ∀ payload, message ≠ .nodeInfoAnnouncement payload :=
          fun payload same => announced ⟨payload, same⟩
        cases effect : message.registration? with
        | some register => exact cacheChange_of_registration liquidCan blank effect registered
        | none => exact cacheChange_of_value liquidCan effect other registered

end NodeSlot

namespace NodeManager

variable (liquidCan : LiquidCan)

theorem blank_performs {manager next : NodeManager} {operation : Operation} {nodeId : UInt8}
    (blank : (manager.slot nodeId).Blank) (performed : manager.Performs liquidCan operation next) :
    (next.slot nodeId).Blank := by
  have taken := slot_perform liquidCan manager next operation nodeId performed
  cases seen : operation.seenBy nodeId with
  | none =>
      rw [seen] at taken
      rw [taken]
      exact blank
  | some input =>
      rw [seen] at taken
      exact blank.takes liquidCan taken

theorem blank_run {mapping : Mapping} {operations : List Operation} {manager : NodeManager}
    (run : Transition.Run (Performs liquidCan) (new mapping) operations manager) (nodeId : UInt8) :
    (manager.slot nodeId).Blank := by
  apply run.invariant fun state => (state.slot nodeId).Blank
  · intro state operation next blank performed
    exact blank_performs liquidCan blank performed
  · intro node impossible
    simp at impossible

theorem cacheChange_of_performs {manager next : NodeManager} {operation : Operation} {nodeId : UInt8}
    {after : CanNode} (blank : (manager.slot nodeId).Blank)
    (performed : manager.Performs liquidCan operation next)
    (registered : next.canNodes.lookup nodeId = some after) :
    (operation.seenBy nodeId = none ∧ manager.canNodes.lookup nodeId = some after) ∨
    ∃ input, operation.seenBy nodeId = some input ∧ NodeSlot.CacheChange liquidCan nodeId
      (manager.slot nodeId) input after ((manager.slot nodeId).dispatched liquidCan nodeId input) := by
  have taken := slot_perform liquidCan manager next operation nodeId performed
  cases seen : operation.seenBy nodeId with
  | none =>
      rw [seen] at taken
      left
      refine ⟨rfl, ?_⟩
      rw [← slot_registered, ← taken]
      exact registered
  | some input =>
      rw [seen] at taken
      exact Or.inr ⟨input, rfl, NodeSlot.cacheChange_of_takes liquidCan blank taken registered⟩

/-- In the past a node with this definition was registered under the id, and a message delivered
the value to it for the field. -/
inductive ReceivedFor (mapping : Mapping) (nodeId : UInt8) (definition : CanNode.Definition)
    (past : List Operation) (kind : FieldType) (id : UInt8) (fieldInfo : FieldInfo)
    (value : CanDataValue) : Prop
  | intro {before timestamp canMsgId message after earlier node} :
      past = before ++ .message timestamp canMsgId message :: after → canMsgId.senderId = nodeId →
      Transition.Run (Performs liquidCan) (new mapping) before earlier →
      earlier.canNodes.lookup nodeId = some node → node.definition = definition →
      node.Delivers liquidCan message kind id fieldInfo value →
      ReceivedFor mapping nodeId definition past kind id fieldInfo value

variable {liquidCan}

theorem ReceivedFor.extend {mapping : Mapping} {nodeId : UInt8} {definition : CanNode.Definition}
    {past : List Operation} {kind : FieldType} {id : UInt8} {fieldInfo : FieldInfo} {value : CanDataValue}
    (received : ReceivedFor liquidCan mapping nodeId definition past kind id fieldInfo value)
    (more : List Operation) :
    ReceivedFor liquidCan mapping nodeId definition (past ++ more) kind id fieldInfo value := by
  cases received with
  | @intro before timestamp canMsgId message after earlier node split sender run registered same delivers =>
      have longer : past ++ more = before ++ .message timestamp canMsgId message :: (after ++ more) := by
        rw [split, List.append_assoc, List.cons_append]
      exact ReceivedFor.intro longer sender run registered same delivers

variable {mapping : Mapping} {nodeId : UInt8} {node : CanNode} {past : List Operation} {kind : FieldType}
  {id : UInt8} {fieldInfo : FieldInfo} {value : CanDataValue}

theorem ReceivedFor.defined
    (received : ReceivedFor liquidCan mapping nodeId node.definition past kind id fieldInfo value) :
    (mappedFields node kind).lookup id = some fieldInfo ∧
      (kind = .parameter → node.telemetryFields.lookup id = none) := by
  cases received with
  | intro split sender run registered same delivers =>
      obtain ⟨info, telemetry, parameters, groups⟩ := CanNode.Definition.mk.inj same
      have defined := delivers.defined
      cases kind with
      | telemetry =>
          simp only [mappedFields, telemetry] at defined ⊢
          exact defined
      | parameter =>
          simp only [mappedFields, telemetry, parameters] at defined ⊢
          exact defined

theorem ReceivedFor.typed
    (received : ReceivedFor liquidCan mapping nodeId node.definition past kind id fieldInfo value)
    (lawful : liquidCan.Lawful) : value.dataType? = some fieldInfo.dataType := by
  cases received with
  | intro split sender run registered same delivers => exact delivers.typed lawful

theorem received_run {mapping : Mapping} {operations : List Operation} {manager : NodeManager}
    (run : Transition.Run (Performs liquidCan) (new mapping) operations manager) {nodeId : UInt8}
    {node : CanNode} (registered : manager.canNodes.lookup nodeId = some node) {id : UInt8}
    {timestamp : DateTime} {value : CanDataValue}
    (cached : node.values.lookup id = some (timestamp, value)) :
    ∃ kind fieldInfo,
      ReceivedFor liquidCan mapping nodeId node.definition operations kind id fieldInfo value := by
  have tracked : Transition.Run (Performs liquidCan) (new mapping) operations manager ∧
      ∀ node, manager.canNodes.lookup nodeId = some node → ∀ timestamp value,
        node.values.lookup id = some (timestamp, value) → ∃ kind fieldInfo,
          ReceivedFor liquidCan mapping nodeId node.definition operations kind id fieldInfo value := by
    refine run.history (fun past state => Transition.Run (Performs liquidCan) (new mapping) past state ∧
      ∀ node, state.canNodes.lookup nodeId = some node → ∀ timestamp value,
        node.values.lookup id = some (timestamp, value) → ∃ kind fieldInfo,
          ReceivedFor liquidCan mapping nodeId node.definition past kind id fieldInfo value)
      ?_ ⟨Transition.Run.nil _, ?_⟩
    · rintro past state operation next ⟨before, received⟩ performed
      refine ⟨before.append (Transition.Run.cons performed (Transition.Run.nil _)), ?_⟩
      intro after registered timestamp value cached
      rcases cacheChange_of_performs liquidCan (blank_run liquidCan before nodeId) performed registered with
        ⟨_, same⟩ | ⟨input, seen, change⟩
      · obtain ⟨kind, fieldInfo, earlier⟩ := received after same timestamp value cached
        exact ⟨kind, fieldInfo, earlier.extend [operation]⟩
      · generalize (state.slot nodeId).dispatched liquidCan nodeId input = events at change
        cases change with
        | placed _ empty =>
            rw [empty] at cached
            simp at cached
        | @kept node _ found definition values =>
            rw [values] at cached
            obtain ⟨kind, fieldInfo, earlier⟩ := received node found timestamp value cached
            rw [definition]
            exact ⟨kind, fieldInfo, earlier.extend [operation]⟩
        | @stored node time message rows _ found arrived decoded same =>
            subst arrived
            subst same
            obtain ⟨canMsgId, sent, sender⟩ := seenBy_eq_message.mp seen
            rcases CanNode.lookup_cacheAll cached with ⟨_, fieldInfo, member⟩ | older
            · obtain ⟨kind, delivers⟩ := CanNode.decode_delivers decoded member
              have latest : past ++ [operation] = past ++ [.message time canMsgId message] := by rw [sent]
              exact ⟨kind, fieldInfo, ReceivedFor.intro latest sender before found rfl delivers⟩
            · obtain ⟨kind, fieldInfo, earlier⟩ := received node found timestamp value older
              exact ⟨kind, fieldInfo, earlier.extend [operation]⟩
    · intro node registered
      simp [new] at registered
  exact tracked.2 node registered timestamp value cached

end NodeManager

end FerroFlow
