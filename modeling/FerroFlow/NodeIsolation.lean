import FerroFlow.UpdateLog

/-! Nodes do not interfere: what becomes of a node depends on its own messages alone. The heartbeats
that the server sends leave no trace in a node but the record of the one sent last. -/

namespace FerroFlow

def CanNode.withoutSent (node : CanNode) : CanNode :=
  { node with latestHeartbeatSent := none }

def NodeSlot.own (slot : NodeSlot) : NodeSlot :=
  { slot with registered := slot.registered.map CanNode.withoutSent }

variable (liquidCan : LiquidCan)

theorem CanNode.receive_withoutSent (node : CanNode) (nodeId : UInt8) (timestamp : DateTime)
    (message : CanMessage) :
    node.withoutSent.receive liquidCan nodeId timestamp message =
      { node.receive liquidCan nodeId timestamp message with
        node := (node.receive liquidCan nodeId timestamp message).node.withoutSent } := by
  have decoded : node.withoutSent.decode liquidCan message = node.decode liquidCan message := by
    cases message <;> rfl
  unfold receive
  split
  · rfl
  · rw [decoded]
    cases node.decode liquidCan message <;> rfl

namespace NodeSlot

theorem own_announce (slot : NodeSlot) (info : RegistrationInfo) :
    (slot.own.announce info).own = (slot.announce info).own := by
  obtain ⟨registering, registered⟩ := slot
  unfold announce own
  split
  · rfl
  · cases registered <;> rfl

theorem own_settle (slot : NodeSlot) (node : CanNode) :
    (slot.own.settle node).own = (slot.settle node).own := by
  obtain ⟨registering, registered⟩ := slot
  unfold settle own
  split
  · rfl
  · cases registered <;> rfl

theorem own_heartbeat (slot : NodeSlot) (timestamp : DateTime) :
    (slot.heartbeat timestamp).own = slot.own := by
  obtain ⟨registering, registered⟩ := slot
  cases registered <;> rfl

theorem own_own (slot : NodeSlot) : slot.own.own = slot.own := by
  obtain ⟨registering, registered⟩ := slot
  cases registered <;> rfl

theorem handle_own (slot : NodeSlot) (nodeId : UInt8) (timestamp : DateTime) (message : CanMessage) :
    let outcome := slot.handle liquidCan nodeId timestamp message
    let ofOwn := slot.own.handle liquidCan nodeId timestamp message
    ofOwn.slot.own = outcome.slot.own ∧ ofOwn.accepted = outcome.accepted ∧
      ofOwn.events = outcome.events := by
  by_cases announced : ∃ payload, message = .nodeInfoAnnouncement payload
  · obtain ⟨payload, same⟩ := announced
    subst same
    exact ⟨own_announce slot _, rfl, rfl⟩
  · have other : ∀ payload, message ≠ .nodeInfoAnnouncement payload :=
      fun payload same => announced ⟨payload, same⟩
    cases effect : message.registration? with
    | some register =>
        simp only [handle_registration liquidCan effect]
        have pending : slot.own.registering = slot.registering := rfl
        rw [pending]
        cases slot.registering with
        | none => exact ⟨own_own slot, rfl, rfl⟩
        | some node => exact ⟨own_settle slot _, rfl, rfl⟩
    | none =>
        simp only [handle_value liquidCan effect other]
        cases registered : slot.registered with
        | none =>
            have absent : slot.own.registered = none := by rw [own, registered]; rfl
            rw [absent]
            exact ⟨own_own slot, rfl, rfl⟩
        | some node =>
            have present : slot.own.registered = some node.withoutSent := by rw [own, registered]; rfl
            rw [present]
            simp only [node.receive_withoutSent]
            exact ⟨rfl, trivial, trivial⟩

end NodeSlot

namespace NodeManager

def Operation.sentBy (nodeId : UInt8) : Operation → Option (DateTime × CanMessage)
  | .message timestamp id received => if id.senderId = nodeId then some (timestamp, received) else none
  | .heartbeat _ => none

/-- What a run shows of a node besides its entries: how each of its messages fared, and the updates
that were dispatched for it. -/
structure Shown where
  outcomes : List Bool := []
  updates : List FieldLog := []

def watchNode (nodeId : UInt8) (before : NodeManager) (operation : Operation) (_after : NodeManager)
    (shown : Shown) : Shown where
  outcomes := match operation.sentBy nodeId with
    | some _ => shown.outcomes ++ [(before.perform liquidCan operation).result.isOk]
    | none => shown.outcomes
  updates := shown.updates ++
    (before.perform liquidCan operation).events.filterMap (fieldLog? nodeId)

def OwnStep (nodeId : UInt8) (start : NodeSlot × Shown) (sent : DateTime × CanMessage)
    (finish : NodeSlot × Shown) : Prop :=
  let outcome := start.1.handle liquidCan nodeId sent.1 sent.2
  (outcome.slot.own, {
    outcomes := start.2.outcomes ++ [outcome.accepted]
    updates := start.2.updates ++ outcome.events.filterMap (fieldLog? nodeId) : Shown }) = finish

theorem sentBy_eq_some {nodeId : UInt8} {operation : Operation} {sent : DateTime × CanMessage} :
    operation.sentBy nodeId = some sent ↔
      ∃ id : CanMessageId, operation = .message sent.1 id sent.2 ∧ id.senderId = nodeId := by
  obtain ⟨timestamp, message⟩ := sent
  cases operation with
  | heartbeat time => simp [Operation.sentBy]
  | message time id received =>
      simp only [Operation.sentBy, Option.ite_none_right_eq_some, Option.some.injEq, Prod.mk.injEq,
        Operation.message.injEq]
      constructor
      · rintro ⟨sender, sameTime, sameMessage⟩
        exact ⟨id, ⟨sameTime, rfl, sameMessage⟩, sender⟩
      · rintro ⟨_, ⟨sameTime, sameId, sameMessage⟩, sender⟩
        exact ⟨sameId ▸ sender, sameTime, sameMessage⟩

theorem ownStep_of_performs {nodeId : UInt8} {start finish : NodeManager × Shown} {operation : Operation}
    {sent : DateTime × CanMessage} (fromNode : operation.sentBy nodeId = some sent)
    (taken : Transition.Watched (watchNode liquidCan nodeId) (Performs liquidCan) start operation finish) :
    OwnStep liquidCan nodeId ((start.1.slot nodeId).own, start.2) sent
      ((finish.1.slot nodeId).own, finish.2) := by
  obtain ⟨manager, shown⟩ := start
  obtain ⟨next, after⟩ := finish
  obtain ⟨performed, noted⟩ := taken
  obtain ⟨id, same, sender⟩ := sentBy_eq_some.mp fromNode
  simp only at performed noted
  subst noted
  subst performed
  subst same
  subst sender
  obtain ⟨slot, accepted, events⟩ := NodeSlot.handle_own liquidCan (manager.slot id.senderId) id.senderId
    sent.1 sent.2
  have confined := confined_handle liquidCan manager sent.1 id sent.2
  have outcome : (manager.perform liquidCan (.message sent.1 id sent.2)).result.isOk =
      ((manager.slot id.senderId).handle liquidCan id.senderId sent.1 sent.2).accepted := confined.accepted
  have dispatched : (manager.perform liquidCan (.message sent.1 id sent.2)).events =
      ((manager.slot id.senderId).handle liquidCan id.senderId sent.1 sent.2).events := confined.events
  have after : (manager.perform liquidCan (.message sent.1 id sent.2)).manager.slot id.senderId =
      ((manager.slot id.senderId).handle liquidCan id.senderId sent.1 sent.2).slot := confined.slot
  simp only [OwnStep, watchNode, fromNode, slot, accepted, events, outcome, dispatched, after]

theorem own_of_unseen {nodeId : UInt8} {start finish : NodeManager × Shown} {operation : Operation}
    (unseen : operation.sentBy nodeId = none)
    (taken : Transition.Watched (watchNode liquidCan nodeId) (Performs liquidCan) start operation finish) :
    ((finish.1.slot nodeId).own, finish.2) = ((start.1.slot nodeId).own, start.2) := by
  obtain ⟨manager, shown⟩ := start
  obtain ⟨next, after⟩ := finish
  obtain ⟨performed, noted⟩ := taken
  simp only at performed noted
  subst noted
  have taken := slot_perform liquidCan manager next operation nodeId performed
  have logs := perform_logs liquidCan manager operation nodeId
  cases operation with
  | heartbeat timestamp =>
      simp only [Operation.seenBy] at taken logs
      have beaten : next.slot nodeId = (manager.slot nodeId).heartbeat timestamp := taken.symm
      have nothing : (([] : List Event).filterMap (fieldLog? nodeId)) = [] := rfl
      simp only [NodeSlot.dispatched, nothing] at logs
      simp only [watchNode, unseen, logs, List.append_nil, beaten, NodeSlot.own_heartbeat]
  | message timestamp id message =>
      have elsewhere : id.senderId ≠ nodeId := by
        intro sender
        rw [Operation.sentBy, if_pos sender] at unseen
        cases unseen
      simp only [Operation.seenBy, elsewhere, ↓reduceIte] at taken logs
      simp only [watchNode, unseen, logs, List.append_nil, taken]

theorem own_run {nodeId : UInt8} {start finish : NodeManager × Shown} {operations : List Operation}
    (run : Transition.Run (Transition.Watched (watchNode liquidCan nodeId) (Performs liquidCan)) start
      operations finish) :
    Transition.Run (OwnStep liquidCan nodeId) ((start.1.slot nodeId).own, start.2)
      (operations.filterMap (Operation.sentBy nodeId)) ((finish.1.slot nodeId).own, finish.2) :=
  run.project (fun state => ((state.1.slot nodeId).own, state.2)) (Operation.sentBy nodeId)
    (fun _ _ _ _ taken fromNode => ownStep_of_performs liquidCan fromNode taken)
    (fun _ _ _ taken unseen => own_of_unseen liquidCan unseen taken)

structure Alike (left right : NodeManager) : Prop where
  mapping : left.mapping = right.mapping
  slots : ∀ nodeId, left.slot nodeId = right.slot nodeId

structure FaredAlike (left right : Handled) : Prop where
  outcome : left.result.isOk = right.result.isOk
  events : left.events = right.events

theorem faredAlike_of_slot {left right : NodeManager} (timestamp : DateTime) (id : CanMessageId)
    (message : CanMessage) (same : left.slot id.senderId = right.slot id.senderId) :
    FaredAlike (left.handleCanMessageFromNode liquidCan timestamp id message)
      (right.handleCanMessageFromNode liquidCan timestamp id message) := by
  have onLeft := confined_handle liquidCan left timestamp id message
  have onRight := confined_handle liquidCan right timestamp id message
  constructor
  · rw [onLeft.accepted, onRight.accepted, same]
  · rw [onLeft.events, onRight.events, same]

theorem messages_commute (manager : NodeManager) {leftId rightId : CanMessageId}
    (different : leftId.senderId ≠ rightId.senderId) (leftTime rightTime : DateTime)
    (left right : CanMessage) :
    let leftFirst := manager.handleCanMessageFromNode liquidCan leftTime leftId left
    let rightFirst := manager.handleCanMessageFromNode liquidCan rightTime rightId right
    let rightThen := leftFirst.manager.handleCanMessageFromNode liquidCan rightTime rightId right
    let leftThen := rightFirst.manager.handleCanMessageFromNode liquidCan leftTime leftId left
    Alike rightThen.manager leftThen.manager ∧ FaredAlike leftFirst leftThen ∧
      FaredAlike rightThen rightFirst := by
  intro leftFirst rightFirst rightThen leftThen
  have atLeft := confined_handle liquidCan manager leftTime leftId left
  have atRight := confined_handle liquidCan manager rightTime rightId right
  have afterLeft := confined_handle liquidCan leftFirst.manager rightTime rightId right
  have afterRight := confined_handle liquidCan rightFirst.manager leftTime leftId left
  have leftKept : rightFirst.manager.slot leftId.senderId = manager.slot leftId.senderId :=
    atRight.others _ different
  have rightKept : leftFirst.manager.slot rightId.senderId = manager.slot rightId.senderId :=
    atLeft.others _ different.symm
  refine ⟨⟨?_, ?_⟩, ?_, ?_⟩
  · rw [afterLeft.mapping, atLeft.mapping, afterRight.mapping, atRight.mapping]
  · intro nodeId
    by_cases isLeft : nodeId = leftId.senderId
    · subst isLeft
      rw [afterLeft.others _ different, atLeft.slot, afterRight.slot, leftKept]
    · by_cases isRight : nodeId = rightId.senderId
      · subst isRight
        rw [afterLeft.slot, rightKept, afterRight.others _ isLeft, atRight.slot]
      · rw [afterLeft.others _ isRight, atLeft.others _ isLeft, afterRight.others _ isLeft,
          atRight.others _ isRight]
  · exact faredAlike_of_slot liquidCan leftTime leftId left leftKept.symm
  · exact faredAlike_of_slot liquidCan rightTime rightId right rightKept

/-- Runs with the same messages of a node show the same of it: its entries up to the heartbeat sent last,
the outcomes of its messages, and the updates for it. Messages of different nodes commute. -/
theorem nodes_do_not_interfere {mapping : Mapping} {nodeId : UInt8} {left right : List Operation}
    {leftFinish rightFinish : NodeManager × Shown}
    (leftRun : Transition.Run (Transition.Watched (watchNode liquidCan nodeId) (Performs liquidCan))
      (new mapping, {}) left leftFinish)
    (rightRun : Transition.Run (Transition.Watched (watchNode liquidCan nodeId) (Performs liquidCan))
      (new mapping, {}) right rightFinish)
    (same : left.filterMap (Operation.sentBy nodeId) = right.filterMap (Operation.sentBy nodeId)) :
    (leftFinish.1.slot nodeId).own = (rightFinish.1.slot nodeId).own ∧ leftFinish.2 = rightFinish.2 ∧
    ∀ (manager : NodeManager) (leftId rightId : CanMessageId), leftId.senderId ≠ rightId.senderId →
      ∀ leftTime rightTime leftMessage rightMessage,
        let leftFirst := manager.handleCanMessageFromNode liquidCan leftTime leftId leftMessage
        let rightFirst := manager.handleCanMessageFromNode liquidCan rightTime rightId rightMessage
        let rightThen := leftFirst.manager.handleCanMessageFromNode liquidCan rightTime rightId rightMessage
        let leftThen := rightFirst.manager.handleCanMessageFromNode liquidCan leftTime leftId leftMessage
        Alike rightThen.manager leftThen.manager ∧ FaredAlike leftFirst leftThen ∧
          FaredAlike rightThen rightFirst := by
  have fromLeft := own_run liquidCan leftRun
  have fromRight := own_run liquidCan rightRun
  rw [same] at fromLeft
  have equal := (Transition.run_iff_foldl.mp fromLeft).symm.trans (Transition.run_iff_foldl.mp fromRight)
  obtain ⟨slots, shown⟩ := Prod.mk.inj equal
  refine ⟨slots, shown, ?_⟩
  intro manager leftId rightId different leftTime rightTime leftMessage rightMessage
  exact messages_commute liquidCan manager different leftTime rightTime leftMessage rightMessage

def crowdedOperations : List Operation :=
  [.message 0 ⟨6, 0⟩ (.nodeInfoAnnouncement ⟨0, 0, 0, 0, "valve"⟩), .heartbeat 0] ++
    pumpOperations 7 8 ++ [.heartbeat 3, .message 4 ⟨6, 0⟩ (.heartbeatRes ⟨0⟩)]

theorem nodes_do_not_interfere_pump :
    (((new pumpMapping).replay LiquidCan.littleEndian crowdedOperations).slot 5).own =
      ((pumpManager 7 8).slot 5).own := by
  have crowded : Transition.Run (Performs LiquidCan.littleEndian) (new pumpMapping) crowdedOperations
      ((new pumpMapping).replay LiquidCan.littleEndian crowdedOperations) :=
    (run_iff_replay LiquidCan.littleEndian).mpr rfl
  obtain ⟨_, left⟩ := crowded.watched (watchNode LiquidCan.littleEndian 5) {}
  obtain ⟨_, right⟩ := (pumpManager_run 7 8).watched (watchNode LiquidCan.littleEndian 5) {}
  exact (nodes_do_not_interfere LiquidCan.littleEndian left right rfl).1

end NodeManager

end FerroFlow
