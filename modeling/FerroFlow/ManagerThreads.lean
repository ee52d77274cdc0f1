import FerroFlow.ValueCache

/-! The message handler and the heartbeat thread share the node manager. The loop over a group update and
the loop over the nodes are taken step by step here, and overlap freely. -/

namespace FerroFlow

open NodeManager (nextHeartbeat sendHeartbeat telemetryLog)

structure Storing where
  timestamp : DateTime
  nodeId : UInt8
  groupId : UInt8
  rows : List ((UInt8 × FieldInfo) × Result CanDataValue)

/-- The loop of the heartbeat thread over the nodes: those there when it began, and those it has been to. -/
structure Round where
  due : List UInt8
  visited : List UInt8 := []

/-- What the iterator of the map promises: it yields entries that are there, and none of them twice. -/
abbrev Round.Yields (round : Round) (nodes : HashMap UInt8 CanNode) (nodeId : UInt8) : Prop :=
  nodeId ∈ nodes.keys ∧ nodeId ∉ round.visited

/-- It does not end before it has yielded all entries that were there from the beginning. -/
abbrev Round.Exhausted (round : Round) : Prop :=
  round.due.all round.visited.contains

structure ManagerThreads where
  manager : NodeManager
  storing : Option Storing := none
  round : Option Round := none
  logged : List Event := []
  requested : List Event := []

namespace NodeManager

variable (liquidCan : LiquidCan)

def openGroupUpdate (manager : NodeManager) (timestamp : DateTime) (canMsgId : CanMessageId)
    (groupUpdate : TelemetryGroupUpdatePayload) : Result Storing :=
  let nodeId := canMsgId.senderId
  let groupId := groupUpdate.groupId
  match manager.canNodes.lookup nodeId with
  | none => bail s!"received telemetry group update for node {nodeId} but it is not registered"
  | some node =>
      match node.telemetryGroups.lookup groupId with
      | none => bail
          s!"received telemetry group update for node {nodeId} and group {groupId} but the group is not defined"
      | some group =>
          match groupFieldInfos node nodeId groupId group.fields with
          | .error failure => .error failure
          | .ok fieldInfos =>
              let rawValues := liquidCan.unpack groupUpdate.values (fieldInfos.map (·.dataType))
              .ok { timestamp, nodeId, groupId, rows := (group.fields.zip fieldInfos).zip rawValues }

def cacheValue (manager : NodeManager) (timestamp : DateTime) (nodeId id : UInt8) (value : CanDataValue) :
    NodeManager :=
  match manager.canNodes.lookup nodeId with
  | some node =>
      let node := { node with values := node.values.insert id (timestamp, value) }
      { manager with canNodes := manager.canNodes.insert nodeId node }
  | none => manager

def requestHeartbeat (manager : NodeManager) (timestamp : DateTime) (nodeId : UInt8) : Handled :=
  match manager.canNodes.lookup nodeId with
  | some node =>
      .accept { manager with canNodes := manager.canNodes.insert nodeId (sendHeartbeat timestamp node) }
        [.sendCanMessage nodeId (.heartbeatReq { counter := nextHeartbeat node })]
  | none => .accept manager

end NodeManager

namespace ManagerThreads

inductive Act
  | handle (timestamp : DateTime) (id : CanMessageId) (message : CanMessage)
  | store
  | beginRound
  | visit (nodeId : UInt8) (timestamp : DateTime)
  | endRound

section System

variable (liquidCan : LiquidCan)

def handle (timestamp : DateTime) (id : CanMessageId) (message : CanMessage) (state : ManagerThreads) :
    ManagerThreads :=
  match message with
  | .telemetryGroupUpdate payload =>
      match state.manager.openGroupUpdate liquidCan timestamp id payload with
      | .ok storing => { state with storing := some storing }
      | .error _ => state
  | message =>
      let handled := state.manager.handleCanMessageFromNode liquidCan timestamp id message
      { state with manager := handled.manager, logged := state.logged ++ handled.events }

def store (storing : Storing) (state : ManagerThreads) : ManagerThreads :=
  match storing.rows with
  | ((id, fieldInfo), .ok value) :: rest => { state with
      manager := state.manager.cacheValue storing.timestamp storing.nodeId id value
      storing := some { storing with rows := rest }
      logged := state.logged ++
        [.nodeFieldUpdated (telemetryLog storing.timestamp storing.nodeId id fieldInfo value)] }
  | _ => { state with storing := none }

def visit (nodeId : UInt8) (timestamp : DateTime) (round : Round) (state : ManagerThreads) : ManagerThreads :=
  let handled := state.manager.requestHeartbeat timestamp nodeId
  { state with
    manager := handled.manager
    round := some { round with visited := round.visited ++ [nodeId] }
    requested := state.requested ++ handled.events }

/-- A node that registers during a round may be visited or not. -/
def next (state : ManagerThreads) : Act → Option ManagerThreads
  | .handle timestamp id message =>
      if state.storing.isNone then some (state.handle liquidCan timestamp id message) else none
  | .store => state.storing.map fun storing => state.store storing
  | .beginRound =>
      if state.round.isNone then some { state with round := some { due := state.manager.canNodes.keys } }
      else none
  | .visit nodeId timestamp => do
      let round ← state.round
      if round.Yields state.manager.canNodes nodeId then some (state.visit nodeId timestamp round) else none
  | .endRound => do
      let round ← state.round
      if round.Exhausted then some { state with round := none } else none

def Steps (start : ManagerThreads) (act : Act) (finish : ManagerThreads) : Prop :=
  start.next liquidCan act = some finish

/-- The same steps, whatever the iterator yields. -/
def advance (state : ManagerThreads) : Act → Option ManagerThreads
  | .visit nodeId timestamp => state.round.map fun round => state.visit nodeId timestamp round
  | .endRound => state.round.map fun _ => { state with round := none }
  | act => state.next liquidCan act

def Advances (start : ManagerThreads) (act : Act) (finish : ManagerThreads) : Prop :=
  start.advance liquidCan act = some finish

end System

end ManagerThreads

/-- All slots of the manager, each operation at one instant. -/
structure Nodes where
  slots : UInt8 → NodeSlot
  logged : List Event
  requested : List Event

namespace Nodes

inductive Input
  | message (timestamp : DateTime) (id : CanMessageId) (message : CanMessage)
  | heartbeat (nodeId : UInt8) (timestamp : DateTime)

def take (liquidCan : LiquidCan) (nodes : Nodes) : Input → Nodes
  | .message timestamp id message =>
      let outcome := (nodes.slots id.senderId).handle liquidCan id.senderId timestamp message
      { slots := Function.update nodes.slots id.senderId outcome.slot
        logged := nodes.logged ++ outcome.events
        requested := nodes.requested }
  | .heartbeat nodeId timestamp =>
      { slots := Function.update nodes.slots nodeId ((nodes.slots nodeId).heartbeat timestamp)
        logged := nodes.logged
        requested := nodes.requested ++ ((nodes.slots nodeId).registered.map fun node =>
          .sendCanMessage nodeId (.heartbeatReq { counter := nextHeartbeat node })).toList }

def Takes (liquidCan : LiquidCan) (start : Nodes) (input : Input) (finish : Nodes) : Prop :=
  start.take liquidCan input = finish

def Input.seenBy (nodeId : UInt8) : Input → Option SlotInput
  | .message timestamp id received => if id.senderId = nodeId then some (.message timestamp received) else none
  | .heartbeat other timestamp => if other = nodeId then some (.heartbeat timestamp) else none

theorem slot_run {liquidCan : LiquidCan} {start finish : Nodes} {inputs : List Input}
    (run : Transition.Run (Takes liquidCan) start inputs finish) (nodeId : UInt8) :
    Transition.Run (NodeSlot.Takes liquidCan nodeId) (start.slots nodeId)
      (inputs.filterMap (Input.seenBy nodeId)) (finish.slots nodeId) := by
  apply run.project (fun nodes => nodes.slots nodeId) (Input.seenBy nodeId)
  · rintro before input after seen rfl visible
    cases input with
    | message timestamp id message =>
        obtain ⟨rfl, same⟩ := Option.ite_none_right_eq_some.mp visible
        obtain rfl := Option.some.inj same
        exact (Function.update_self _ _ before.slots).symm
    | heartbeat other timestamp =>
        obtain ⟨rfl, same⟩ := Option.ite_none_right_eq_some.mp visible
        obtain rfl := Option.some.inj same
        exact (Function.update_self _ _ before.slots).symm
  · rintro before input after rfl hidden
    cases input with
    | message timestamp id message =>
        have different : nodeId ≠ id.senderId := by
          rintro rfl
          simp [Input.seenBy] at hidden
        exact Function.update_of_ne different _ _
    | heartbeat other timestamp =>
        have different : nodeId ≠ other := by
          rintro rfl
          simp [Input.seenBy] at hidden
        exact Function.update_of_ne different _ _

end Nodes

namespace Storing

def logs (storing : Storing) : List Event :=
  (storedRows storing.rows).map fun row =>
    .nodeFieldUpdated (telemetryLog storing.timestamp storing.nodeId row.1.1 row.1.2 row.2)

def settle (storing : Storing) (slot : NodeSlot) : NodeSlot :=
  { slot with registered := slot.registered.map (CanNode.cacheAll storing.timestamp (storedRows storing.rows)) }

theorem settle_done {storing : Storing} (done : storedRows storing.rows = []) (slot : NodeSlot) :
    storing.settle slot = slot := by
  have same : CanNode.cacheAll storing.timestamp [] = id := rfl
  unfold settle
  rw [done, same, Option.map_id_fun, id_eq]

theorem settle_heartbeat (storing : Storing) (slot : NodeSlot) (timestamp : DateTime) :
    storing.settle (slot.heartbeat timestamp) = (storing.settle slot).heartbeat timestamp := by
  unfold settle NodeSlot.heartbeat
  rw [Option.map_map, Option.map_map]
  rfl

end Storing

namespace NodeManager

variable {liquidCan : LiquidCan} {manager : NodeManager} {timestamp : DateTime} {canMsgId : CanMessageId}
  {payload : TelemetryGroupUpdatePayload}

theorem openGroupUpdate_cases (liquidCan : LiquidCan) (manager : NodeManager) (timestamp : DateTime)
    (canMsgId : CanMessageId) (payload : TelemetryGroupUpdatePayload) :
    (∃ failure, manager.openGroupUpdate liquidCan timestamp canMsgId payload = .error failure ∧
      manager.handleTelemetryGroupUpdate liquidCan timestamp canMsgId payload = .reject manager failure) ∨
    ∃ rows node, manager.canNodes.lookup canMsgId.senderId = some node ∧
      manager.openGroupUpdate liquidCan timestamp canMsgId payload =
        .ok { timestamp, nodeId := canMsgId.senderId, groupId := payload.groupId, rows } ∧
      manager.handleTelemetryGroupUpdate liquidCan timestamp canMsgId payload =
        storeGroupValues timestamp canMsgId.senderId payload.groupId rows manager node := by
  simp only [openGroupUpdate, handleTelemetryGroupUpdate]
  cases registered : manager.canNodes.lookup canMsgId.senderId with
  | none => exact Or.inl ⟨_, rfl, rfl⟩
  | some node =>
      dsimp only
      cases defined : node.telemetryGroups.lookup payload.groupId with
      | none => exact Or.inl ⟨_, rfl, rfl⟩
      | some group =>
          dsimp only
          cases resolved : groupFieldInfos node canMsgId.senderId payload.groupId group.fields with
          | error failure => exact Or.inl ⟨failure, rfl, rfl⟩
          | ok fieldInfos => exact Or.inr ⟨_, node, rfl, rfl, rfl⟩

theorem slot_insertNode (manager : NodeManager) (nodeId : UInt8) (node : CanNode) :
    ({ manager with canNodes := manager.canNodes.insert nodeId node } : NodeManager).slot =
      Function.update manager.slot nodeId { manager.slot nodeId with registered := some node } := by
  funext other
  have confined := confined_insertNode manager nodeId node []
  by_cases same : other = nodeId
  · subst same
    rw [Function.update_self]
    exact confined.slot
  · rw [Function.update_of_ne same]
    exact confined.others other same

theorem slot_unregistered {manager : NodeManager} {nodeId : UInt8} (absent : manager.canNodes.lookup nodeId = none) :
    { manager.slot nodeId with registered := none } = manager.slot nodeId := by
  simp [slot, absent]

theorem slot_cacheValue (manager : NodeManager) (timestamp : DateTime) (nodeId id : UInt8) (value : CanDataValue) :
    (manager.cacheValue timestamp nodeId id value).slot = Function.update manager.slot nodeId
      { manager.slot nodeId with registered := (manager.slot nodeId).registered.map fun node =>
          { node with values := node.values.insert id (timestamp, value) } } := by
  unfold cacheValue
  cases found : manager.canNodes.lookup nodeId with
  | none =>
      rw [slot_registered, found, Option.map_none, slot_unregistered found, Function.update_eq_self]
  | some node =>
      rw [slot_registered, found]
      exact slot_insertNode manager nodeId _

theorem slot_requestHeartbeat (manager : NodeManager) (timestamp : DateTime) (nodeId : UInt8) :
    (manager.requestHeartbeat timestamp nodeId).manager.slot =
        Function.update manager.slot nodeId ((manager.slot nodeId).heartbeat timestamp) ∧
      (manager.requestHeartbeat timestamp nodeId).events = ((manager.slot nodeId).registered.map fun node =>
        .sendCanMessage nodeId (.heartbeatReq { counter := nextHeartbeat node })).toList := by
  unfold requestHeartbeat NodeSlot.heartbeat
  cases found : manager.canNodes.lookup nodeId with
  | none =>
      rw [slot_registered, found, Option.map_none, slot_unregistered found, Function.update_eq_self]
      exact ⟨rfl, rfl⟩
  | some node =>
      rw [slot_registered, found]
      exact ⟨slot_insertNode manager nodeId _, rfl⟩

end NodeManager

namespace ManagerThreads

section Settled

variable {liquidCan : LiquidCan}

def settleAt (storing : Option Storing) (nodeId : UInt8) (slot : NodeSlot) : NodeSlot :=
  match storing with
  | some storing => if nodeId = storing.nodeId then storing.settle slot else slot
  | none => slot

theorem settleAt_heartbeat (storing : Option Storing) (nodeId : UInt8) (slot : NodeSlot) (timestamp : DateTime) :
    settleAt storing nodeId (slot.heartbeat timestamp) = (settleAt storing nodeId slot).heartbeat timestamp := by
  cases storing with
  | none => rfl
  | some storing =>
      simp only [settleAt, storing.settle_heartbeat]
      split <;> rfl

def settled (state : ManagerThreads) (nodeId : UInt8) : NodeSlot :=
  settleAt state.storing nodeId (state.manager.slot nodeId)

def nodes (state : ManagerThreads) : Nodes where
  slots := state.settled
  logged := state.logged ++ (state.storing.map Storing.logs).getD []
  requested := state.requested

theorem nodes_of_idle {state : ManagerThreads} (idle : state.storing = none) :
    state.nodes = ⟨state.manager.slot, state.logged, state.requested⟩ := by
  have slots : state.settled = state.manager.slot := by
    funext nodeId
    unfold settled
    rw [idle]
    rfl
  unfold nodes
  rw [slots, idle]
  simp

end Settled

section Refinement

variable {liquidCan : LiquidCan} {state after : ManagerThreads} {act : Act}

def Act.input? : Act → Option Nodes.Input
  | .handle timestamp id message => some (.message timestamp id message)
  | .visit nodeId timestamp => some (.heartbeat nodeId timestamp)
  | _ => none

theorem nodes_ext {left right : Nodes} (slots : left.slots = right.slots) (logged : left.logged = right.logged)
    (requested : left.requested = right.requested) : left = right := by
  cases left
  cases right
  obtain rfl : _ = _ := slots
  obtain rfl : _ = _ := logged
  obtain rfl : _ = _ := requested
  rfl

theorem slots_of_confined {manager : NodeManager} {nodeId : UInt8} {handled : Handled} {outcome : SlotOutcome}
    (confined : NodeManager.Confined manager nodeId handled outcome) :
    handled.manager.slot = Function.update manager.slot nodeId outcome.slot := by
  funext other
  by_cases same : other = nodeId
  · subst same
    rw [Function.update_self]
    exact confined.slot
  · rw [Function.update_of_ne same]
    exact confined.others other same

theorem nodes_update (idle : state.storing = none) (timestamp : DateTime) (id : CanMessageId)
    (payload : TelemetryGroupUpdatePayload) :
    (state.handle liquidCan timestamp id (.telemetryGroupUpdate payload)).nodes =
      state.nodes.take liquidCan (.message timestamp id (.telemetryGroupUpdate payload)) := by
  have confined := NodeManager.confined_handle liquidCan state.manager timestamp id (.telemetryGroupUpdate payload)
  simp only [handle]
  rcases NodeManager.openGroupUpdate_cases liquidCan state.manager timestamp id payload with
    ⟨failure, refused, rejected⟩ | ⟨rows, node, registered, opened, stores⟩
  · simp only [refused, nodes_of_idle idle, Nodes.take]
    have same := confined.slot
    have silent := confined.events
    simp only [NodeManager.handleCanMessageFromNode, rejected, Handled.reject] at same silent
    rw [← same, ← silent, Function.update_eq_self, List.append_nil]
  · have loop := NodeManager.storeGroupValues_confined timestamp id.senderId payload.groupId rows state.manager
      node registered
    simp only [NodeManager.handleCanMessageFromNode, stores] at confined
    simp only [opened, nodes_of_idle idle, Nodes.take]
    refine nodes_ext ?_ ?_ rfl
    · funext other
      have cached : (state.manager.slot id.senderId).registered = some node := registered
      rw [← confined.slot, loop.slot]
      by_cases same : other = id.senderId
      · subst same
        simp only [nodes, settled, settleAt, Storing.settle, cached, Option.map_some, ↓reduceIte, Function.update_self]
      · simp only [nodes, settled, settleAt, same, ↓reduceIte, Function.update_of_ne same]
    · rw [← confined.events, loop.events]
      rfl

theorem nodes_atOnce {timestamp : DateTime} {id : CanMessageId} {message : CanMessage} (idle : state.storing = none)
    (atOnce : state.handle liquidCan timestamp id message =
      let handled := state.manager.handleCanMessageFromNode liquidCan timestamp id message
      { state with manager := handled.manager, logged := state.logged ++ handled.events }) :
    (state.handle liquidCan timestamp id message).nodes =
      state.nodes.take liquidCan (.message timestamp id message) := by
  have confined := NodeManager.confined_handle liquidCan state.manager timestamp id message
  have later (manager : NodeManager) (logged : List Event) :
      ({ state with manager, logged } : ManagerThreads).nodes = ⟨manager.slot, logged, state.requested⟩ :=
    nodes_of_idle idle
  rw [atOnce, later, nodes_of_idle idle]
  exact nodes_ext (slots_of_confined confined) (congrArg (state.logged ++ ·) confined.events) rfl

theorem nodes_handle (idle : state.storing = none) (timestamp : DateTime) (id : CanMessageId)
    (message : CanMessage) : (state.handle liquidCan timestamp id message).nodes =
      state.nodes.take liquidCan (.message timestamp id message) := by
  cases message with
  | telemetryGroupUpdate payload => exact nodes_update idle timestamp id payload
  | _ => exact nodes_atOnce idle rfl

theorem settle_next (timestamp : DateTime) (nodeId groupId id : UInt8) (fieldInfo : FieldInfo) (value : CanDataValue)
    (rest : List ((UInt8 × FieldInfo) × Result CanDataValue)) (slot : NodeSlot) :
    (Storing.mk timestamp nodeId groupId (((id, fieldInfo), .ok value) :: rest)).settle slot =
      (Storing.mk timestamp nodeId groupId rest).settle { slot with registered := slot.registered.map fun node =>
        { node with values := node.values.insert id (timestamp, value) } } := by
  unfold Storing.settle
  rw [Option.map_map]
  rfl

theorem nodes_store {storing : Storing} (busy : state.storing = some storing) :
    (state.store storing).nodes = state.nodes := by
  obtain ⟨timestamp, nodeId, groupId, rows⟩ := storing
  have ended (done : storedRows rows = []) : ({ state with storing := none } : ManagerThreads).nodes = state.nodes := by
    have still (slot : NodeSlot) : (Storing.mk timestamp nodeId groupId rows).settle slot = slot :=
      Storing.settle_done done slot
    refine nodes_ext ?_ ?_ rfl
    · funext other
      simp only [nodes, settled, settleAt, busy, still, ite_self]
    · simp only [nodes, busy, Storing.logs, done, List.map_nil, Option.map_none, Option.map_some, Option.getD_none,
        Option.getD_some]
  match rows with
  | [] => exact ended rfl
  | (_, .error failure) :: rest => exact ended rfl
  | ((id, fieldInfo), .ok value) :: rest =>
      refine nodes_ext ?_ ?_ rfl
      · funext other
        simp only [nodes, settled, settleAt, store, busy, NodeManager.slot_cacheValue]
        by_cases same : other = nodeId
        · subst same
          rw [if_pos rfl, if_pos rfl, Function.update_self, settle_next]
        · rw [if_neg same, if_neg same, Function.update_of_ne same]
      · simp only [nodes, store, busy, Storing.logs, storedRows, List.map_cons, Option.map_some, Option.getD_some,
          List.append_assoc, List.singleton_append]

theorem nodes_visit (nodeId : UInt8) (timestamp : DateTime) (round : Round) :
    (state.visit nodeId timestamp round).nodes = state.nodes.take liquidCan (.heartbeat nodeId timestamp) := by
  obtain ⟨slots, events⟩ := NodeManager.slot_requestHeartbeat state.manager timestamp nodeId
  have seen : ((state.settled nodeId).registered.map fun node =>
        Event.sendCanMessage nodeId (.heartbeatReq { counter := nextHeartbeat node })) =
      ((state.manager.slot nodeId).registered.map fun node =>
        .sendCanMessage nodeId (.heartbeatReq { counter := nextHeartbeat node })) := by
    unfold settled settleAt
    split
    · split
      · unfold Storing.settle
        rw [Option.map_map]
        rfl
      · rfl
    · rfl
  refine nodes_ext ?_ rfl ?_
  · funext other
    simp only [nodes, settled, visit, slots, Nodes.take]
    by_cases same : other = nodeId
    · subst same
      rw [Function.update_self, Function.update_self, settleAt_heartbeat]
    · rw [Function.update_of_ne same, Function.update_of_ne same]
      rfl
  · simp only [nodes, visit, Nodes.take, seen, events]

theorem advances_of_steps (stepped : Steps liquidCan state act after) : Advances liquidCan state act after := by
  cases act with
  | visit nodeId timestamp =>
      simp only [Steps, next, Option.bind_eq_bind, Option.bind_eq_some_iff, Option.ite_none_right_eq_some,
        Option.some.injEq] at stepped
      obtain ⟨round, busy, _, rfl⟩ := stepped
      exact Option.map_eq_some_iff.mpr ⟨round, busy, rfl⟩
  | endRound =>
      simp only [Steps, next, Option.bind_eq_bind, Option.bind_eq_some_iff, Option.ite_none_right_eq_some,
        Option.some.injEq] at stepped
      obtain ⟨round, busy, _, rfl⟩ := stepped
      exact Option.map_eq_some_iff.mpr ⟨round, busy, rfl⟩
  | _ => exact stepped

theorem nodes_advance (advanced : Advances liquidCan state act after) :
    match act.input? with
    | some input => Nodes.Takes liquidCan state.nodes input after.nodes
    | none => after.nodes = state.nodes := by
  cases act with
  | handle timestamp id message =>
      simp only [Advances, advance, next, Option.ite_none_right_eq_some, Option.isNone_iff_eq_none, Option.some.injEq]
        at advanced
      obtain ⟨idle, rfl⟩ := advanced
      exact (nodes_handle idle timestamp id message).symm
  | store =>
      obtain ⟨storing, busy, rfl⟩ := Option.map_eq_some_iff.mp advanced
      exact nodes_store busy
  | beginRound =>
      simp only [Advances, advance, next, Option.ite_none_right_eq_some, Option.some.injEq] at advanced
      obtain ⟨_, rfl⟩ := advanced
      rfl
  | visit nodeId timestamp =>
      obtain ⟨round, _, rfl⟩ := Option.map_eq_some_iff.mp advanced
      exact (nodes_visit nodeId timestamp round).symm
  | endRound =>
      obtain ⟨round, _, rfl⟩ := Option.map_eq_some_iff.mp advanced
      rfl

theorem nodes_next (stepped : Steps liquidCan state act after) :
    match act.input? with
    | some input => Nodes.Takes liquidCan state.nodes input after.nodes
    | none => after.nodes = state.nodes :=
  nodes_advance (advances_of_steps stepped)

theorem nodes_run {acts : List Act} (run : Transition.Run (Steps liquidCan) state acts after) :
    Transition.Run (Nodes.Takes liquidCan) state.nodes (acts.filterMap Act.input?) after.nodes := by
  refine run.project nodes Act.input? ?_ ?_
  · intro before act later input stepped visible
    have taken := nodes_next stepped
    rw [visible] at taken
    exact taken
  · intro before act later stepped hidden
    have taken := nodes_next stepped
    rw [hidden] at taken
    exact taken

theorem settled_of_elsewhere {nodeId : UInt8} (elsewhere : ∀ storing ∈ state.storing, storing.nodeId ≠ nodeId) :
    state.settled nodeId = state.manager.slot nodeId := by
  unfold settled settleAt
  cases busy : state.storing with
  | none => rfl
  | some storing => exact if_neg fun same => elsewhere storing busy same.symm

/-- However the loops of the two threads interleave, all slots and the logs go as if every message had been
handled at once, and every heartbeat sent at once. -/
theorem operations_atomic {acts : List Act} (run : Transition.Run (Steps liquidCan) state acts after)
    (idle : state.storing = none) :
    Transition.Run (Nodes.Takes liquidCan) ⟨state.manager.slot, state.logged, state.requested⟩
        (acts.filterMap Act.input?) after.nodes ∧
      (∀ nodeId, Transition.Run (NodeSlot.Takes liquidCan nodeId) (state.manager.slot nodeId)
        ((acts.filterMap Act.input?).filterMap (Nodes.Input.seenBy nodeId)) (after.settled nodeId)) ∧
      after.logged <+: after.nodes.logged ∧
      (∀ nodeId, (∀ storing ∈ after.storing, storing.nodeId ≠ nodeId) →
        after.settled nodeId = after.manager.slot nodeId) ∧
      (after.storing = none → after.nodes = ⟨after.manager.slot, after.logged, after.requested⟩) := by
  have taken := nodes_run run
  rw [nodes_of_idle idle] at taken
  exact ⟨taken, Nodes.slot_run taken, List.prefix_append _ _, fun _ => settled_of_elsewhere, nodes_of_idle⟩

end Refinement

section Partway

variable {liquidCan : LiquidCan} {state after : ManagerThreads} {act : Act}

def Act.handles : Act → Bool
  | .handle _ _ _ => true
  | _ => false

def remaining (state : ManagerThreads) : List ((UInt8 × FieldInfo) × CanDataValue) :=
  (state.storing.map fun storing => storedRows storing.rows).getD []

def cached (state : ManagerThreads) (nodeId : UInt8) : Option (HashMap UInt8 (DateTime × CanDataValue)) :=
  (state.manager.slot nodeId).registered.map CanNode.values

/-- What a reader sees of a group update: the values that were there, with the first of the new ones over them. -/
structure Partway (start : ManagerThreads) (timestamp : DateTime) (nodeId : UInt8)
    (rows : List ((UInt8 × FieldInfo) × CanDataValue)) (state : ManagerThreads) : Prop where
  storing : ∀ storing ∈ state.storing, storing.timestamp = timestamp ∧ storing.nodeId = nodeId
  stored : ∃ done, rows = done ++ state.remaining ∧
    state.logged = start.logged ++ done.map (fun row =>
      .nodeFieldUpdated (telemetryLog timestamp nodeId row.1.1 row.1.2 row.2)) ∧
    state.cached nodeId = (start.cached nodeId).map fun values =>
      done.foldl (fun values row => values.insert row.1.1 (timestamp, row.2)) values

theorem cached_visit (nodeId : UInt8) (timestamp : DateTime) (round : Round) (other : UInt8) :
    (state.visit nodeId timestamp round).cached other = state.cached other := by
  unfold cached visit
  rw [(NodeManager.slot_requestHeartbeat state.manager timestamp nodeId).1]
  by_cases same : other = nodeId
  · subst same
    rw [Function.update_self, NodeSlot.heartbeat, Option.map_map]
    rfl
  · rw [Function.update_of_ne same]

theorem cached_cacheValue (state : ManagerThreads) (timestamp : DateTime) (nodeId id : UInt8) (value : CanDataValue)
    (other : UInt8) :
    (((state.manager.cacheValue timestamp nodeId id value).slot other).registered.map CanNode.values) =
      if other = nodeId then (state.cached nodeId).map fun values => values.insert id (timestamp, value)
      else state.cached other := by
  rw [NodeManager.slot_cacheValue]
  by_cases same : other = nodeId
  · subst same
    rw [if_pos rfl, Function.update_self, cached, Option.map_map, Option.map_map]
    rfl
  · rw [if_neg same, Function.update_of_ne same]
    rfl

variable {start : ManagerThreads} {timestamp : DateTime} {nodeId : UInt8}
  {rows : List ((UInt8 × FieldInfo) × CanDataValue)}

theorem partway_store (partway : Partway start timestamp nodeId rows state) {storing : Storing}
    (busy : state.storing = some storing) : Partway start timestamp nodeId rows (state.store storing) := by
  obtain ⟨done, split, logged, cached⟩ := partway.stored
  obtain ⟨time, sender, groupId, pending⟩ := storing
  obtain ⟨rfl, rfl⟩ : time = timestamp ∧ sender = nodeId := partway.storing _ busy
  have still : state.remaining = storedRows pending := by
    unfold remaining
    rw [busy]
    rfl
  rw [still] at split
  have ended (through : storedRows pending = []) :
      Partway start time sender rows { state with storing := none } := by
    refine ⟨fun storing impossible => (Option.not_mem_none storing impossible).elim, ⟨done, ?_, logged, cached⟩⟩
    rw [split, through]
    rfl
  match pending with
  | [] => exact ended rfl
  | (_, .error failure) :: rest => exact ended rfl
  | ((id, fieldInfo), .ok value) :: rest =>
      refine ⟨?_, ⟨done ++ [((id, fieldInfo), value)], ?_, ?_, ?_⟩⟩
      · rintro storing same
        obtain rfl := Option.some.inj same
        exact ⟨rfl, rfl⟩
      · rw [split, List.append_assoc]
        rfl
      · rw [List.map_append, ← List.append_assoc, ← logged]
        rfl
      · refine (cached_cacheValue state time sender id value sender).trans ?_
        rw [if_pos rfl, cached, Option.map_map]
        simp only [List.foldl_append]
        rfl

theorem partway_next (partway : Partway start timestamp nodeId rows state)
    (stepped : Steps liquidCan state act after) (noOther : act.handles = false) :
    Partway start timestamp nodeId rows after := by
  obtain ⟨done, split, logged, cached⟩ := partway.stored
  cases act with
  | handle time id message => cases noOther
  | store =>
      obtain ⟨storing, busy, rfl⟩ := Option.map_eq_some_iff.mp stepped
      exact partway_store partway busy
  | beginRound =>
      simp only [Steps, next, Option.ite_none_right_eq_some, Option.some.injEq] at stepped
      obtain ⟨_, rfl⟩ := stepped
      exact ⟨partway.storing, ⟨done, split, logged, cached⟩⟩
  | visit other time =>
      simp only [Steps, next, Option.bind_eq_bind, Option.bind_eq_some_iff, Option.ite_none_right_eq_some,
        Option.some.injEq] at stepped
      obtain ⟨round, _, _, rfl⟩ := stepped
      exact ⟨partway.storing, ⟨done, split, logged, (cached_visit other time round nodeId).trans cached⟩⟩
  | endRound =>
      simp only [Steps, next, Option.bind_eq_bind, Option.bind_eq_some_iff, Option.ite_none_right_eq_some,
        Option.some.injEq] at stepped
      obtain ⟨round, _, _, rfl⟩ := stepped
      exact ⟨partway.storing, ⟨done, split, logged, cached⟩⟩

theorem partway_run {acts : List Act} (partway : Partway start timestamp nodeId rows state)
    (run : Transition.Run (Steps liquidCan) state acts after) (noOther : ∀ act ∈ acts, act.handles = false) :
    Partway start timestamp nodeId rows after := by
  induction run with
  | nil => exact partway
  | cons first _ ih =>
      rw [List.forall_mem_cons] at noOther
      exact ih (partway_next partway first noOther.1) noOther.2

theorem partway_of_update {payload : TelemetryGroupUpdatePayload} {id : CanMessageId} {opened : ManagerThreads}
    {acts : List Act}
    (first : Steps liquidCan start (.handle timestamp id (.telemetryGroupUpdate payload)) opened)
    (run : Transition.Run (Steps liquidCan) opened acts after) (noOther : ∀ act ∈ acts, act.handles = false) :
    ∃ rows, ((start.manager.slot id.senderId).handle liquidCan id.senderId timestamp
        (.telemetryGroupUpdate payload)).events = rows.map (fun row =>
          .nodeFieldUpdated (telemetryLog timestamp id.senderId row.1.1 row.1.2 row.2)) ∧
      Partway start timestamp id.senderId rows after := by
  simp only [Steps, next, Option.ite_none_right_eq_some, Option.isNone_iff_eq_none, Option.some.injEq, handle]
    at first
  obtain ⟨idle, opens⟩ := first
  have confined := NodeManager.confined_handle liquidCan start.manager timestamp id (.telemetryGroupUpdate payload)
  rcases NodeManager.openGroupUpdate_cases liquidCan start.manager timestamp id payload with
    ⟨failure, refused, rejected⟩ | ⟨rows, node, registered, opened, stores⟩
  · rw [refused] at opens
    subst opens
    refine ⟨[], ?_, partway_run ⟨?_, ⟨[], ?_, ?_, ?_⟩⟩ run noOther⟩
    · simp only [NodeManager.handleCanMessageFromNode, rejected, Handled.reject] at confined
      exact confined.events.symm
    · intro storing busy
      rw [idle] at busy
      exact (Option.not_mem_none storing busy).elim
    · simp [remaining, idle]
    · simp
    · simp
  · rw [opened] at opens
    subst opens
    have begun : Partway start timestamp id.senderId (storedRows rows)
        { start with storing := some ⟨timestamp, id.senderId, payload.groupId, rows⟩ } := by
      refine ⟨?_, ⟨[], rfl, ?_, ?_⟩⟩
      · rintro storing same
        obtain rfl := Option.some.inj same
        exact ⟨rfl, rfl⟩
      · simp
      · exact Option.map_id'.symm
    refine ⟨storedRows rows, ?_, partway_run begun run noOther⟩
    simp only [NodeManager.handleCanMessageFromNode, stores] at confined
    rw [← confined.events, (NodeManager.storeGroupValues_confined timestamp id.senderId payload.groupId rows
      start.manager node registered).events]

theorem heartbeats_of_inputs {acts : List Act} (noOther : ∀ act ∈ acts, act.handles = false) (nodeId : UInt8) :
    ∃ times : List DateTime, (acts.filterMap Act.input?).filterMap (Nodes.Input.seenBy nodeId) =
      times.map SlotInput.heartbeat := by
  induction acts with
  | nil => exact ⟨[], rfl⟩
  | cons act acts ih =>
      rw [List.forall_mem_cons] at noOther
      obtain ⟨times, same⟩ := ih noOther.2
      cases act with
      | handle timestamp id message => cases noOther.1
      | visit visited timestamp =>
          by_cases here : visited = nodeId
          · exact ⟨timestamp :: times, by simp [Act.input?, Nodes.Input.seenBy, here, same]⟩
          · exact ⟨times, by simp [Act.input?, Nodes.Input.seenBy, here, same]⟩
      | _ => exact ⟨times, same⟩

theorem others_of_update {payload : TelemetryGroupUpdatePayload} {id : CanMessageId} {opened : ManagerThreads}
    {acts : List Act}
    (first : Steps liquidCan start (.handle timestamp id (.telemetryGroupUpdate payload)) opened)
    (run : Transition.Run (Steps liquidCan) opened acts after) (noOther : ∀ act ∈ acts, act.handles = false)
    (partway : Partway start timestamp id.senderId rows after) {other : UInt8} (different : other ≠ id.senderId) :
    ∃ times : List DateTime, Transition.Run (NodeSlot.Takes liquidCan other) (start.manager.slot other)
      (times.map SlotInput.heartbeat) (after.manager.slot other) := by
  have idle : start.storing = none := by
    simp only [Steps, next, Option.ite_none_right_eq_some, Option.isNone_iff_eq_none] at first
    exact first.1
  have taken := nodes_run (Transition.Run.cons first run)
  rw [nodes_of_idle idle] at taken
  have slots := Nodes.slot_run taken
  obtain ⟨times, heartbeats⟩ := heartbeats_of_inputs noOther other
  refine ⟨times, ?_⟩
  have settled : after.settled other = after.manager.slot other :=
    settled_of_elsewhere fun storing busy => (partway.storing storing busy).2 ▸ different.symm
  rw [← heartbeats, ← settled]
  have unseen : Nodes.Input.seenBy other (.message timestamp id (.telemetryGroupUpdate payload)) = none :=
    if_neg different.symm
  have seen := slots other
  simp only [List.filterMap_cons, Act.input?, unseen] at seen
  exact seen

def tankRegisters : List Act := [
  .handle 0 ⟨5, 0⟩ (.nodeInfoAnnouncement ⟨2, 0, 0, 0, "tank"⟩),
  .handle 0 ⟨5, 0⟩ (.telemetryValueRegistration ⟨0, .uint16, "pressure"⟩),
  .handle 0 ⟨5, 0⟩ (.telemetryValueRegistration ⟨1, .uint16, "level"⟩),
  .handle 0 ⟨5, 0⟩ (.telemetryGroupDefinition ⟨1, [0, 1]⟩)]

def tankUpdate : TelemetryGroupUpdatePayload := ⟨1, ⟨[0x34, 0x12, 0x78, 0x56]⟩⟩

def tankManager : ManagerThreads := { manager := .new {} }

theorem operations_atomic_tank : ∃ after,
    Transition.Run (Steps LiquidCan.littleEndian) tankManager
      (tankRegisters ++ [.handle 1 ⟨5, 0⟩ (.telemetryGroupUpdate tankUpdate), .store, .beginRound, .visit 5 2]) after ∧
    after.logged.length = 1 ∧ after.nodes.logged.length = 2 ∧ after.requested.length = 1 ∧
    after.logged <+: after.nodes.logged := by
  obtain ⟨after, run, logged, settled, requested⟩ : ∃ after,
      Transition.Run (Steps LiquidCan.littleEndian) tankManager
        (tankRegisters ++ [.handle 1 ⟨5, 0⟩ (.telemetryGroupUpdate tankUpdate), .store, .beginRound, .visit 5 2])
          after ∧
      after.logged.length = 1 ∧ after.nodes.logged.length = 2 ∧ after.requested.length = 1 :=
    ⟨_, Transition.run_iff_foldlM.mpr rfl, rfl, rfl, rfl⟩
  exact ⟨after, run, logged, settled, requested, (operations_atomic run rfl).2.2.1⟩

end Partway

end ManagerThreads

end FerroFlow
