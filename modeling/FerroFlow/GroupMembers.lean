import FerroFlow.Registration

/-! Telemetry groups: how the ids they list relate to the telemetry fields a node registered. Only
the numbers are compared when a registration is completed. -/

namespace FerroFlow

namespace CanNode

def groupMembers (node : CanNode) : List UInt8 :=
  node.telemetryGroups.values.flatMap fun group => group.fields

theorem groupMembers_length (node : CanNode) : node.groupMembers.length = node.groupedFieldCount := by
  simp only [groupMembers, groupedFieldCount, List.length_flatMap]

theorem groupMembers_eq (node : CanNode) :
    node.groupMembers = node.telemetryGroups.toPairs.flatMap fun entry => entry.2.fields := by
  simp only [groupMembers, KeyedMap.values_eq_toPairs, List.flatMap_map]

theorem mem_groupMembers_iff (node : CanNode) (id : UInt8) :
    id ∈ node.groupMembers ↔
      ∃ groupId group, node.telemetryGroups.lookup groupId = some group ∧ id ∈ group.fields := by
  rw [groupMembers_eq, List.mem_flatMap]
  constructor
  · rintro ⟨⟨groupId, group⟩, defined, member⟩
    exact ⟨groupId, group, (KeyedMap.mem_toPairs_iff _ _ _).mp defined, member⟩
  · rintro ⟨groupId, group, defined, member⟩
    exact ⟨(groupId, group), (KeyedMap.mem_toPairs_iff _ _ _).mpr defined, member⟩

theorem one_group {node : CanNode} (unique : node.groupMembers.Nodup) {id firstId secondId : UInt8}
    {first second : TelemetryGroupDefinition}
    (firstDefined : node.telemetryGroups.lookup firstId = some first) (inFirst : id ∈ first.fields)
    (secondDefined : node.telemetryGroups.lookup secondId = some second)
    (inSecond : id ∈ second.fields) : firstId = secondId := by
  rw [groupMembers_eq, List.nodup_flatMap] at unique
  by_contra different
  have symmetric : Std.Symm (Function.onFun List.Disjoint
      fun entry : UInt8 × TelemetryGroupDefinition => entry.2.fields) :=
    ⟨fun _ _ disjoint => disjoint.symm⟩
  have distinct : (firstId, first) ≠ (secondId, second) :=
    fun same => different (congrArg Prod.fst same)
  have apart := unique.2.forall ((KeyedMap.mem_toPairs_iff _ _ _).mpr firstDefined)
    ((KeyedMap.mem_toPairs_iff _ _ _).mpr secondDefined) distinct
  exact apart inFirst inSecond

end CanNode

namespace NodeManager

theorem groupFieldInfos_ok_iff (node : CanNode) (nodeId groupId : UInt8) (fieldIds : List UInt8) :
    (∃ fieldInfos, groupFieldInfos node nodeId groupId fieldIds = .ok fieldInfos) ↔
      fieldIds ⊆ node.telemetryFields.keys := by
  have known (id : UInt8) :
      (∃ fieldInfo, node.telemetryFields.lookup id = some fieldInfo) ↔ id ∈ node.telemetryFields.keys := by
    rw [← AList.mem_keys, ← AList.lookup_isSome, Option.isSome_iff_exists]
  induction fieldIds with
  | nil => exact ⟨fun _ => List.nil_subset _, fun _ => ⟨[], rfl⟩⟩
  | cons id rest ih =>
      rw [List.cons_subset]
      simp only [groupFieldInfos, List.mapM_cons, Checks.bind_ok_iff, orFail_ok_iff] at ih ⊢
      constructor
      · rintro ⟨fieldInfos, fieldInfo, defined, others, resolved, _⟩
        exact ⟨(known id).mp ⟨fieldInfo, defined⟩, ih.mp ⟨others, resolved⟩⟩
      · rintro ⟨member, inside⟩
        obtain ⟨fieldInfo, defined⟩ := (known id).mpr member
        obtain ⟨others, resolved⟩ := ih.mpr inside
        exact ⟨_, fieldInfo, defined, others, resolved, rfl⟩

variable (liquidCan : LiquidCan)

/-- A registered node lists as many group members as it has telemetry fields. They are the same
ones exactly when none is listed twice and all are registered, or when none is left out; then each
field is in one group, and no update of a group lacks a definition. -/
theorem group_members_match_fields {mapping : Mapping} {operations : List Operation}
    {manager : NodeManager} (run : Transition.Run (Performs liquidCan) (new mapping) operations manager)
    {nodeId : UInt8} {node : CanNode} (registered : manager.canNodes.lookup nodeId = some node) :
    node.groupMembers.length = node.telemetryFields.keys.length ∧
    (node.groupMembers.Perm node.telemetryFields.keys ↔
      node.groupMembers.Nodup ∧ node.groupMembers ⊆ node.telemetryFields.keys) ∧
    (node.groupMembers.Perm node.telemetryFields.keys ↔ node.telemetryFields.keys ⊆ node.groupMembers) ∧
    (node.groupMembers.Perm node.telemetryFields.keys →
      (∀ id ∈ node.telemetryFields.keys, ∃! groupId, ∃ group,
        node.telemetryGroups.lookup groupId = some group ∧ id ∈ group.fields) ∧
      ∀ groupId group, node.telemetryGroups.lookup groupId = some group →
        ∃ fieldInfos, groupFieldInfos node nodeId groupId group.fields = .ok fieldInfos) := by
  have complete := (settled_run liquidCan run nodeId).complete node registered
  obtain ⟨telemetry, _, grouped⟩ := node.nodeRegistrationComplete_iff.mp complete
  have keys : node.telemetryFields.keys.length = node.telemetryFields.size := by
    simp [AList.keys, List.keys, KeyedMap.size]
  have count : node.groupMembers.length = node.telemetryFields.keys.length := by
    rw [node.groupMembers_length, grouped, keys, telemetry]
  have unique := node.telemetryFields.keys_nodup
  refine ⟨count, List.perm_iff_listed_once unique count, List.perm_iff_covers unique count, ?_⟩
  intro same
  have listedOnce : node.groupMembers.Nodup := same.nodup_iff.mpr unique
  constructor
  · intro id member
    obtain ⟨groupId, group, defined, listed⟩ :=
      (node.mem_groupMembers_iff id).mp (same.symm.subset member)
    refine ⟨groupId, ⟨group, defined, listed⟩, ?_⟩
    rintro otherId ⟨other, otherDefined, otherListed⟩
    exact CanNode.one_group listedOnce otherDefined otherListed defined listed
  · intro groupId group defined
    apply (groupFieldInfos_ok_iff node nodeId groupId group.fields).mpr
    intro id member
    exact same.subset ((node.mem_groupMembers_iff id).mpr ⟨groupId, group, defined, member⟩)

def tankOperations (members : List UInt8) : List Operation := [
  .message 0 ⟨5, 0⟩ (.nodeInfoAnnouncement ⟨2, 0, 0, 0, "tank"⟩),
  .message 0 ⟨5, 0⟩ (.telemetryValueRegistration ⟨0, .uint16, "pressure"⟩),
  .message 0 ⟨5, 0⟩ (.telemetryValueRegistration ⟨1, .uint16, "level"⟩),
  .message 0 ⟨5, 0⟩ (.telemetryGroupDefinition ⟨1, members⟩)]

theorem group_members_match_fields_tank : ∃ manager node,
    Transition.Run (Performs LiquidCan.littleEndian) (new {}) (tankOperations [1, 0]) manager ∧
    manager.canNodes.lookup 5 = some node ∧ node.groupMembers.Perm node.telemetryFields.keys := by
  have run := (run_iff_replay LiquidCan.littleEndian).mpr
    (rfl : (new {}).replay LiquidCan.littleEndian (tankOperations [1, 0]) = _)
  have covers : (((new {}).replay LiquidCan.littleEndian (tankOperations [1, 0])).canNodes.lookup 5).map
      (fun node => decide (node.telemetryFields.keys ⊆ node.groupMembers)) = some true := by
    decide
  obtain ⟨node, registered, covered⟩ := Option.map_eq_some_iff.mp covers
  exact ⟨_, node, run, registered, (group_members_match_fields LiquidCan.littleEndian run
    registered).2.2.1.mpr (of_decide_eq_true covered)⟩

theorem group_members_miss_field :
    ¬ ∀ (mapping : Mapping) (operations : List Operation) (manager : NodeManager) (nodeId : UInt8)
        (node : CanNode),
      Transition.Run (Performs LiquidCan.littleEndian) (new mapping) operations manager →
      manager.canNodes.lookup nodeId = some node →
      node.groupMembers.Perm node.telemetryFields.keys := by
  intro claim
  have run := (run_iff_replay LiquidCan.littleEndian).mpr
    (rfl : (new {}).replay LiquidCan.littleEndian (tankOperations [0, 0]) = _)
  have repeated : (((new {}).replay LiquidCan.littleEndian (tankOperations [0, 0])).canNodes.lookup 5).map
      (fun node => decide (node.groupMembers.Perm node.telemetryFields.keys)) = some false := by
    decide
  obtain ⟨node, registered, notSame⟩ := Option.map_eq_some_iff.mp repeated
  exact of_decide_eq_false notSame (claim _ _ _ _ node run registered)

end NodeManager

end FerroFlow
