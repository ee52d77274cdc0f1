import FerroFlow.ValueCache
import FerroFlow.GroupMembers

/-! Telemetry group updates. The ids of the group, their field infos and the unpacked values are
three lists that the handler zips; an accepted update has one row in all three for each position
of the group. -/

namespace FerroFlow

theorem storedRows_of_accepted {rows : List ((UInt8 × FieldInfo) × Result CanDataValue)}
    (accepted : (rows.all fun row => row.2.isOk) = true) :
    rows = (storedRows rows).map fun row => (row.1, .ok row.2) := by
  induction rows with
  | nil => rfl
  | cons row rest ih =>
      obtain ⟨field, received⟩ := row
      simp only [List.all_cons, Bool.and_eq_true] at accepted
      cases received with
      | error failure => cases accepted.1
      | ok value =>
          rw [storedRows, List.map_cons, ← ih accepted.2]

namespace CanNode

variable (liquidCan : LiquidCan) (node : CanNode)

/-- One row for each position of a group: the id there, the field registered under it, and the value
unpacked for that position with the types of the fields. -/
structure GroupRows (group : TelemetryGroupDefinition) (packed : PackedCanDataValues)
    (rows : List ((UInt8 × FieldInfo) × CanDataValue)) : Prop where
  ids : rows.map (fun row => row.1.1) = group.fields
  registered : ∀ row ∈ rows, node.telemetryFields.lookup row.1.1 = some row.1.2
  unpacked : liquidCan.unpack packed (rows.map fun row => row.1.2.dataType) =
    rows.map fun row => .ok row.2

variable {liquidCan node}

theorem groupRows_of_accepted {payload : TelemetryGroupUpdatePayload} {group : TelemetryGroupDefinition}
    {layout : List (UInt8 × FieldInfo)} {results : List (Result CanDataValue)}
    (defined : node.telemetryGroups.lookup payload.groupId = some group)
    (found : node.groupLayout payload.groupId = some layout)
    (unpacked : liquidCan.unpack payload.values (layout.map (·.2.dataType)) = results)
    (sameLength : results.length = layout.length)
    (accepted : ((layout.zip results).all fun row => row.2.isOk) = true) :
    node.GroupRows liquidCan group payload.values (storedRows (layout.zip results)) := by
  have rowwise := storedRows_of_accepted accepted
  have fields : (storedRows (layout.zip results)).map (·.1) = layout := by
    have firsts := congrArg (List.map Prod.fst) rowwise
    rw [List.map_fst_zip sameLength.ge, List.map_map] at firsts
    exact firsts.symm
  have values : (storedRows (layout.zip results)).map (fun row => .ok row.2) = results := by
    have seconds := congrArg (List.map Prod.snd) rowwise
    rw [List.map_snd_zip sameLength.le, List.map_map] at seconds
    exact seconds.symm
  obtain ⟨grouped, infos⟩ := groupLayout_eq_some found
  rw [defined] at grouped
  obtain rfl := Option.some.inj grouped
  generalize storedRows (layout.zip results) = rows at fields values
  subst fields
  refine ⟨List.map_map.symm, ?_, ?_⟩
  · intro row member
    exact infos row.1 (List.mem_map_of_mem member)
  · rw [values, ← unpacked, List.map_map]
    rfl

theorem lookup_cacheAll_absent {timestamp : DateTime} {id : UInt8}
    {rows : List ((UInt8 × FieldInfo) × CanDataValue)} (absent : ∀ row ∈ rows, row.1.1 ≠ id) :
    (node.cacheAll timestamp rows).values.lookup id = node.values.lookup id := by
  induction rows using List.reverseRecOn with
  | nil => rfl
  | append_singleton rows row ih =>
      have different : id ≠ row.1.1 := (absent row (by simp)).symm
      rw [cacheAll_append, KeyedMap.lookup_insert_eq, if_neg different]
      exact ih fun earlier member => absent earlier (List.mem_append_left _ member)

theorem lookup_cacheAll_last {timestamp : DateTime} {row : (UInt8 × FieldInfo) × CanDataValue}
    {before after : List ((UInt8 × FieldInfo) × CanDataValue)}
    (last : ∀ later ∈ after, later.1.1 ≠ row.1.1) :
    (node.cacheAll timestamp (before ++ row :: after)).values.lookup row.1.1 =
      some (timestamp, row.2) := by
  induction after using List.reverseRecOn with
  | nil => rw [cacheAll_append, KeyedMap.lookup_insert_eq, if_pos rfl]
  | append_singleton after latest ih =>
      have regrouped : before ++ row :: (after ++ [latest]) = (before ++ row :: after) ++ [latest] := by simp
      have different : row.1.1 ≠ latest.1.1 := (last latest (by simp)).symm
      rw [regrouped, cacheAll_append, KeyedMap.lookup_insert_eq, if_neg different]
      exact ih fun later member => last later (List.mem_append_left _ member)

end CanNode

namespace NodeManager

variable (liquidCan : LiquidCan) {manager : NodeManager} {timestamp : DateTime} {canMsgId : CanMessageId}
  {groupUpdate : TelemetryGroupUpdatePayload} {node : CanNode} {group : TelemetryGroupDefinition}

theorem group_update_decoded
    (complete : ∀ packed types, (liquidCan.unpack packed types).length = types.length)
    (registered : manager.canNodes.lookup canMsgId.senderId = some node)
    (defined : node.telemetryGroups.lookup groupUpdate.groupId = some group)
    (accepted : (manager.handleTelemetryGroupUpdate liquidCan timestamp canMsgId groupUpdate).result =
      .ok ()) :
    ∃ rows values, node.GroupRows liquidCan group groupUpdate.values rows ∧
      (manager.handleTelemetryGroupUpdate liquidCan timestamp canMsgId groupUpdate).events =
        rows.map (fun row => .nodeFieldUpdated
          (telemetryLog timestamp canMsgId.senderId row.1.1 row.1.2 row.2)) ∧
      (∀ before row after, rows = before ++ row :: after → (∀ later ∈ after, later.1.1 ≠ row.1.1) →
        values.lookup row.1.1 = some (timestamp, row.2)) ∧
      (∀ id, id ∉ group.fields → values.lookup id = node.values.lookup id) ∧
      (manager.handleTelemetryGroupUpdate liquidCan timestamp canMsgId groupUpdate).manager.slot
        canMsgId.senderId = { manager.slot canMsgId.senderId with registered := some { node with values } } ∧
      (∀ other, other ≠ canMsgId.senderId →
        (manager.handleTelemetryGroupUpdate liquidCan timestamp canMsgId groupUpdate).manager.slot other =
          manager.slot other) ∧
      (manager.handleTelemetryGroupUpdate liquidCan timestamp canMsgId groupUpdate).manager.mapping =
        manager.mapping := by
  have handled := handleTelemetryGroupUpdate_layout liquidCan manager timestamp canMsgId groupUpdate node
    registered
  cases found : node.groupLayout groupUpdate.groupId with
  | none =>
      rw [found] at handled
      obtain ⟨failure, rejected⟩ := handled
      rw [rejected] at accepted
      cases accepted
  | some layout =>
      rw [found] at handled
      simp only at handled
      rw [handled] at accepted ⊢
      have confined := storeGroupValues_confined timestamp canMsgId.senderId groupUpdate.groupId
        (layout.zip (liquidCan.unpack groupUpdate.values (layout.map (·.2.dataType)))) manager node registered
      have whole := confined.accepted
      rw [accepted] at whole
      have sameLength := complete groupUpdate.values (layout.map (·.2.dataType))
      rw [List.length_map] at sameLength
      have rows := CanNode.groupRows_of_accepted defined found rfl sameLength whole.symm
      refine ⟨_, _, rows, confined.events, ?_, ?_, confined.slot, confined.others, confined.mapping⟩
      · rintro before row after split last
        rw [split]
        exact CanNode.lookup_cacheAll_last last
      · intro id outside
        refine CanNode.lookup_cacheAll_absent ?_
        rintro row member rfl
        rw [← rows.ids] at outside
        exact outside (List.mem_map_of_mem member)

def repeatedManager : NodeManager :=
  (new {}).replay LiquidCan.littleEndian (tankOperations [0, 0])

def repeatedUpdate : Handled :=
  repeatedManager.handleTelemetryGroupUpdate LiquidCan.littleEndian 1 ⟨5, 0⟩
    ⟨1, ⟨[0x34, 0x12, 0x78, 0x56]⟩⟩

theorem group_update_decoded_repeated : ∃ rows : List ((UInt8 × FieldInfo) × CanDataValue),
    Transition.Run (Performs LiquidCan.littleEndian) (new {}) (tankOperations [0, 0]) repeatedManager ∧
    rows.map (fun row => row.1.1) = [0, 0] ∧
    repeatedUpdate.events = rows.map fun row =>
      .nodeFieldUpdated (telemetryLog 1 5 row.1.1 row.1.2 row.2) := by
  have grouped : (repeatedManager.canNodes.lookup 5).map (fun node => node.telemetryGroups.lookup 1) =
      some (some ⟨[0, 0]⟩) := by decide
  have accepted : repeatedUpdate.result.toOption = some () := by decide
  obtain ⟨node, registered, defined⟩ := Option.map_eq_some_iff.mp grouped
  obtain ⟨rows, values, decoded, events, _⟩ := group_update_decoded LiquidCan.littleEndian
    LiquidCan.littleEndian_lawful.unpackLength registered defined (ok_of_toOption accepted)
  exact ⟨rows, (run_iff_replay LiquidCan.littleEndian).mpr rfl, decoded.ids, events⟩

end NodeManager

end FerroFlow
