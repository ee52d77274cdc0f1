import FerroFlow.UpdateLog

/-! The numbering of the heartbeats sent to a node. The counter starts at zero with each entry in
`can_nodes` and is a `u32` that is incremented without a guard. -/

namespace FerroFlow

theorem CanMessage.registration_sent {message : CanMessage} {register : CanNode → CanNode}
    (effect : message.registration? = some register) (node : CanNode) :
    (register node).latestHeartbeatSent = node.latestHeartbeatSent := by
  cases message <;> simp only [registration?, reduceCtorEq, Option.some.injEq] at effect <;>
    subst effect <;> rfl

theorem CanNode.receive_sent (liquidCan : LiquidCan) (node : CanNode) (nodeId : UInt8)
    (timestamp : DateTime) (message : CanMessage) :
    (node.receive liquidCan nodeId timestamp message).node.latestHeartbeatSent =
      node.latestHeartbeatSent := by
  simp only [receive]
  split
  · rfl
  · cases node.decode liquidCan message <;> rfl

namespace NodeSlot

variable (liquidCan : LiquidCan)

def Unsent (slot : NodeSlot) : Prop :=
  ∀ node, slot.registering = some node → node.latestHeartbeatSent = none

theorem Unsent.takes {nodeId : UInt8} {slot next : NodeSlot} {input : SlotInput} (unsent : slot.Unsent)
    (taken : slot.Takes liquidCan nodeId input next) : next.Unsent := by
  refine registering_takes liquidCan (fun _ => rfl) ?_ unsent taken
  intro message register node effect none
  rw [CanMessage.registration_sent effect, none]

theorem places_rejected {nodeId : UInt8} {slot : NodeSlot} {timestamp : DateTime} {message : CanMessage}
    (other : ∀ payload, message ≠ .nodeInfoAnnouncement payload)
    (refused : (slot.handle liquidCan nodeId timestamp message).accepted = false) :
    slot.places (.message timestamp message) = false := by
  cases effect : message.registration? with
  | none => exact places_value effect other
  | some register =>
      rw [handle_registration liquidCan effect] at refused
      rw [places_registration effect]
      cases registering : slot.registering with
      | none => rfl
      | some pending =>
          rw [registering] at refused
          cases refused

theorem sent_of_takes {nodeId : UInt8} {slot next : NodeSlot} {timestamp : DateTime}
    {message : CanMessage} {after : CanNode} (unsent : slot.Unsent)
    (taken : slot.Takes liquidCan nodeId (.message timestamp message) next)
    (registered : next.registered = some after) :
    (slot.places (.message timestamp message) = true ∧ after.latestHeartbeatSent = none) ∨
    (slot.places (.message timestamp message) = false ∧ ∃ node, slot.registered = some node ∧
      after.latestHeartbeatSent = node.latestHeartbeatSent) := by
  cases change_of_takes liquidCan taken with
  | announced timestamp payload =>
      simp only [announce] at registered
      split at registered
      · rename_i complete
        have new := Option.some.inj registered
        exact Or.inl ⟨complete, by rw [← new]; rfl⟩
      · rename_i incomplete
        exact Or.inr ⟨Bool.eq_false_of_not_eq_true incomplete, after, registered, rfl⟩
  | @registered message register pending timestamp effect found =>
      have placed : slot.places (.message timestamp message) = _ := places_registration effect
      rw [found] at placed
      simp only [settle] at registered
      split at registered
      · rename_i complete
        have completed := Option.some.inj registered
        refine Or.inl ⟨placed.trans complete, ?_⟩
        rw [← completed, CanMessage.registration_sent effect]
        exact unsent pending found
      · rename_i incomplete
        exact Or.inr ⟨placed.trans (Bool.eq_false_of_not_eq_true incomplete), after, registered, rfl⟩
  | @received message node timestamp noEffect other found =>
      have same := Option.some.inj registered
      refine Or.inr ⟨places_value noEffect other, node, found, ?_⟩
      rw [← same]
      exact node.receive_sent liquidCan nodeId timestamp message
  | rejected timestamp other refused =>
      exact Or.inr ⟨places_rejected liquidCan other refused, after, registered, rfl⟩

end NodeSlot

namespace NodeManager

def heartbeatCounter? (nodeId : UInt8) : Event → Option UInt32
  | .sendCanMessage receiver (.heartbeatReq payload) =>
      if receiver = nodeId then some payload.counter else none
  | _ => none

def incrementOverflows (manager : NodeManager) (nodeId : UInt8) : Bool :=
  match (manager.canNodes.lookup nodeId).bind fun node => node.latestHeartbeatSent with
  | some (_, counter) => decide (2 ^ 32 ≤ counter.toNat + 1)
  | none => false

/-- What an onlooker notes since the entry of a node was placed: each call of
`dispatch_heartbeat_requests` with the counters it sent to the node, the counters sent to it
otherwise, and whether an increment overflowed. -/
structure SentHeartbeats where
  calls : List (DateTime × List UInt32) := []
  stray : List UInt32 := []
  overflowed : Bool := false

def watchHeartbeats (liquidCan : LiquidCan) (nodeId : UInt8) (before : NodeManager)
    (operation : Operation) (_after : NodeManager) (sent : SentHeartbeats) : SentHeartbeats :=
  let counters := (before.perform liquidCan operation).events.filterMap (heartbeatCounter? nodeId)
  match operation with
  | .heartbeat timestamp => { sent with
      calls := sent.calls ++ [(timestamp, counters)]
      overflowed := sent.overflowed || before.incrementOverflows nodeId }
  | .message _ _ _ =>
      if operation.places before nodeId then { stray := counters }
      else { sent with stray := sent.stray ++ counters }

/-- One heartbeat for each call, numbered from zero, and the last one on record. -/
structure Numbered (node : CanNode) (sent : SentHeartbeats) : Prop where
  counters : sent.calls.map (fun call => call.2.map UInt32.toNat) =
    (List.range sent.calls.length).map fun position => [position]
  stray : sent.stray = []
  latest : node.latestHeartbeatSent =
    sent.calls.getLast?.bind fun call => call.2.getLast?.map fun counter => (call.1, counter)
  increments : sent.overflowed = false

/-- The numbering as the code has it, modulo 2^32. -/
structure Counted (node : CanNode) (sent : SentHeartbeats) : Prop where
  counters : sent.calls.map (fun call => call.2) =
    (List.range sent.calls.length).map fun position => [UInt32.ofNat position]
  stray : sent.stray = []
  latest : node.latestHeartbeatSent =
    sent.calls.getLast?.map fun call => (call.1, UInt32.ofNat (sent.calls.length - 1))
  overflowed : sent.overflowed = decide (2 ^ 32 < sent.calls.length)

theorem counted_nothing {node : CanNode} (none : node.latestHeartbeatSent = none) :
    Counted node {} :=
  ⟨rfl, rfl, none, rfl⟩

theorem Counted.next {node : CanNode} {sent : SentHeartbeats} (counted : Counted node sent) :
    nextHeartbeat node = UInt32.ofNat sent.calls.length := by
  have latest := counted.latest
  rcases List.eq_nil_or_concat sent.calls with none | ⟨earlier, last, split⟩
  · rw [none, List.getLast?_nil, Option.map_none] at latest
    simp only [nextHeartbeat, latest, none]
    rfl
  · rw [List.concat_eq_append] at split
    rw [split, List.getLast?_concat, Option.map_some] at latest
    simp only [nextHeartbeat, latest, split, List.length_append, List.length_singleton,
      Nat.add_sub_cancel, UInt32.ofNat_add]
    rfl

theorem Counted.overflows {manager : NodeManager} {nodeId : UInt8} {node : CanNode}
    {sent : SentHeartbeats} (counted : Counted node sent)
    (registered : manager.canNodes.lookup nodeId = some node) :
    (sent.overflowed || manager.incrementOverflows nodeId) =
      decide (2 ^ 32 < sent.calls.length + 1) := by
  have latest := counted.latest
  simp only [incrementOverflows, registered, Option.bind_some, counted.overflowed]
  rcases List.eq_nil_or_concat sent.calls with none | ⟨earlier, last, split⟩
  · rw [none, List.getLast?_nil, Option.map_none] at latest
    rw [latest, none]
    rfl
  · rw [List.concat_eq_append] at split
    rw [split, List.getLast?_concat, Option.map_some] at latest
    simp only [latest, split, List.length_append, List.length_singleton, Nat.add_sub_cancel,
      UInt32.toNat_ofNat', ← Bool.decide_or, decide_eq_decide]
    omega

theorem Counted.call {node : CanNode} {sent : SentHeartbeats} (counted : Counted node sent)
    (timestamp : DateTime) :
    Counted (sendHeartbeat timestamp node) { sent with
      calls := sent.calls ++ [(timestamp, [nextHeartbeat node])]
      overflowed := decide (2 ^ 32 < sent.calls.length + 1) } := by
  constructor
  · simp only [List.map_append, List.map_singleton, counted.counters, List.length_append,
      List.length_singleton, List.range_succ, counted.next]
  · exact counted.stray
  · simp only [sendHeartbeat, List.getLast?_concat, Option.map_some, List.length_append,
      List.length_singleton, Nat.add_sub_cancel, counted.next]
  · simp only [List.length_append, List.length_singleton]

variable (liquidCan : LiquidCan)

theorem message_counters (manager : NodeManager) (timestamp : DateTime) (id : CanMessageId)
    (message : CanMessage) (nodeId : UInt8) :
    (manager.perform liquidCan (.message timestamp id message)).events.filterMap
      (heartbeatCounter? nodeId) = [] := by
  change (manager.handleCanMessageFromNode liquidCan timestamp id message).events.filterMap
    (heartbeatCounter? nodeId) = []
  rw [(confined_handle liquidCan manager timestamp id message).events, List.filterMap_eq_nil_iff]
  intro event member
  rcases (manager.slot id.senderId).handle_events liquidCan id.senderId timestamp message with
    silent | ⟨node, rows, _, _, events⟩
  · rw [silent] at member
    cases member
  · rw [events] at member
    obtain ⟨row, _, same⟩ := List.mem_map.mp member
    rw [← same]
    rfl

theorem call_counters (manager : NodeManager) (timestamp : DateTime) (nodeId : UInt8) :
    (manager.perform liquidCan (.heartbeat timestamp)).events.filterMap (heartbeatCounter? nodeId) =
      (manager.canNodes.lookup nodeId).toList.map nextHeartbeat := by
  rw [← KeyedMap.filterMap_toPairs]
  exact List.filterMap_map

variable {liquidCan}

theorem counted_call {manager : NodeManager} {timestamp : DateTime} {nodeId : UInt8}
    {sent : SentHeartbeats}
    (counted : ∀ node, manager.canNodes.lookup nodeId = some node → Counted node sent)
    {next : NodeManager} (performed : manager.Performs liquidCan (.heartbeat timestamp) next)
    {after : CanNode} (registered : next.canNodes.lookup nodeId = some after) :
    Counted after (watchHeartbeats liquidCan nodeId manager (.heartbeat timestamp) next sent) := by
  have taken := slot_dispatchHeartbeatRequests manager timestamp nodeId
  subst performed
  have found : ((manager.slot nodeId).heartbeat timestamp).registered = some after := by
    rw [← taken]
    exact registered
  obtain ⟨node, earlier, rfl⟩ := Option.map_eq_some_iff.mp found
  rw [slot_registered] at earlier
  have before := counted node earlier
  simp only [watchHeartbeats, call_counters, earlier, before.overflows earlier]
  exact before.call timestamp

theorem counted_message {manager : NodeManager} {timestamp : DateTime} {id : CanMessageId}
    {message : CanMessage} {nodeId : UInt8} {sent : SentHeartbeats}
    (unsent : (manager.slot nodeId).Unsent)
    (counted : ∀ node, manager.canNodes.lookup nodeId = some node → Counted node sent)
    {next : NodeManager} (performed : manager.Performs liquidCan (.message timestamp id message) next)
    {after : CanNode} (registered : next.canNodes.lookup nodeId = some after) :
    Counted after
      (watchHeartbeats liquidCan nodeId manager (.message timestamp id message) next sent) := by
  have taken := slot_perform liquidCan manager next _ nodeId performed
  simp only [watchHeartbeats, message_counters, List.append_nil]
  have kept {node : CanNode} (found : manager.canNodes.lookup nodeId = some node)
      (same : after.latestHeartbeatSent = node.latestHeartbeatSent) : Counted after sent := by
    have before := counted node found
    exact ⟨before.counters, before.stray, same.trans before.latest, before.overflowed⟩
  cases seen : Operation.seenBy nodeId (.message timestamp id message) with
  | none =>
      rw [seen] at taken
      have unchanged : manager.canNodes.lookup nodeId = some after := by
        rw [← slot_registered, ← taken]
        exact registered
      simp only [Operation.places, seen, Bool.false_eq_true, ↓reduceIte]
      exact kept unchanged rfl
  | some input =>
      rw [seen] at taken
      obtain ⟨sender, arrived⟩ := Option.ite_none_right_eq_some.mp seen
      obtain rfl := Option.some.inj arrived
      simp only [Operation.places, seen]
      rcases NodeSlot.sent_of_takes liquidCan unsent taken registered with
        ⟨places, none⟩ | ⟨stays, node, found, same⟩
      · rw [if_pos places]
        exact counted_nothing none
      · rw [stays, if_neg Bool.false_ne_true]
        exact kept found same

theorem unsent_performs {manager next : NodeManager} {operation : Operation} {nodeId : UInt8}
    (unsent : (manager.slot nodeId).Unsent) (performed : manager.Performs liquidCan operation next) :
    (next.slot nodeId).Unsent := by
  have taken := slot_perform liquidCan manager next operation nodeId performed
  cases seen : operation.seenBy nodeId with
  | none =>
      rw [seen] at taken
      rw [taken]
      exact unsent
  | some input =>
      rw [seen] at taken
      exact unsent.takes liquidCan taken

theorem counted_run {mapping : Mapping} {operations : List Operation} {manager : NodeManager}
    {nodeId : UInt8} {sent : SentHeartbeats}
    (run : Transition.Run (Transition.Watched (watchHeartbeats liquidCan nodeId) (Performs liquidCan))
      (new mapping, {}) operations (manager, sent)) {node : CanNode}
    (registered : manager.canNodes.lookup nodeId = some node) : Counted node sent := by
  have tracked := run.invariant (fun state => (state.1.slot nodeId).Unsent ∧
    ∀ node, state.1.canNodes.lookup nodeId = some node → Counted node state.2) ?_ ⟨?_, ?_⟩
  · exact tracked.2 node registered
  · rintro ⟨before, sent⟩ operation ⟨after, noted⟩ ⟨unsent, counted⟩ ⟨performed, watched⟩
    simp only at unsent counted performed watched
    subst watched
    refine ⟨unsent_performs unsent performed, fun node registered => ?_⟩
    cases operation with
    | heartbeat timestamp => exact counted_call counted performed registered
    | message timestamp id message => exact counted_message unsent counted performed registered
  · intro node impossible
    simp at impossible
  · intro node impossible
    simp [new] at impossible

theorem Numbered.calls_le {node : CanNode} {sent : SentHeartbeats} (numbered : Numbered node sent) :
    sent.calls.length ≤ 2 ^ 32 := by
  by_contra more
  have later := congrArg (fun counters => counters[2 ^ 32]?) numbered.counters
  have inside : 2 ^ 32 < sent.calls.length := by omega
  simp only [List.getElem?_map, List.getElem?_range inside, Option.map_some,
    Option.map_eq_some_iff] at later
  obtain ⟨call, _, sentLater⟩ := later
  obtain ⟨counter, _, number⟩ := List.map_eq_singleton_iff.mp sentLater
  have bound := counter.toNat_lt
  omega

theorem Counted.numbered {node : CanNode} {sent : SentHeartbeats} (counted : Counted node sent)
    (few : sent.calls.length ≤ 2 ^ 32) : Numbered node sent := by
  constructor
  · have counters := congrArg (List.map (List.map UInt32.toNat)) counted.counters
    rw [List.map_map, List.map_map] at counters
    refine counters.trans (List.map_congr_left fun position member => ?_)
    have bound := List.mem_range.mp member
    have small : position < UInt32.size := lt_of_lt_of_le bound few
    simp only [Function.comp_apply, List.map_singleton, UInt32.toNat_ofNat_of_lt' small]
  · exact counted.stray
  · have counters := counted.counters
    rw [counted.latest]
    rcases List.eq_nil_or_concat sent.calls with none | ⟨earlier, last, split⟩
    · rw [none]
      rfl
    · rw [List.concat_eq_append] at split
      rw [split, List.length_append, List.length_singleton, List.range_succ, List.map_append,
        List.map_append] at counters
      have ends := List.cons.inj (List.append_inj' counters rfl).2
      simp only [split, List.getLast?_concat, Option.map_some, Option.bind_some, ends.1,
        List.length_append, List.length_singleton, Nat.add_sub_cancel, List.getLast?_singleton]
  · rw [counted.overflowed, decide_eq_false (by omega)]

theorem heartbeats_numbered_iff {mapping : Mapping} {operations : List Operation}
    {manager : NodeManager} {nodeId : UInt8} {sent : SentHeartbeats}
    (run : Transition.Run (Transition.Watched (watchHeartbeats liquidCan nodeId) (Performs liquidCan))
      (new mapping, {}) operations (manager, sent)) {node : CanNode}
    (registered : manager.canNodes.lookup nodeId = some node) :
    Numbered node sent ↔ sent.calls.length ≤ 2 ^ 32 :=
  ⟨Numbered.calls_le, (counted_run run registered).numbered⟩

theorem watched_cons {manager : NodeManager} {nodeId : UInt8} {sent : SentHeartbeats}
    {operation : Operation} {operations : List Operation} {final : NodeManager × SentHeartbeats}
    (rest : Transition.Run (Transition.Watched (watchHeartbeats liquidCan nodeId) (Performs liquidCan))
      ((manager.perform liquidCan operation).manager, watchHeartbeats liquidCan nodeId manager operation
        (manager.perform liquidCan operation).manager sent) operations final) :
    Transition.Run (Transition.Watched (watchHeartbeats liquidCan nodeId) (Performs liquidCan))
      (manager, sent) (operation :: operations) final := by
  refine Transition.Run.cons ?_ rest
  exact ⟨rfl, rfl⟩

def announceBare : Operation :=
  .message 0 ⟨5, 0⟩ (.nodeInfoAnnouncement ⟨0, 0, 0, 0, "valve"⟩)

def twoHeartbeats : List Operation := [announceBare, .heartbeat 1,
  .message 2 ⟨5, 0⟩ (.heartbeatRes ⟨0⟩), .heartbeat 3, announceBare, .heartbeat 4]

theorem heartbeats_numbered_twice : ∃ manager sent node,
    Transition.Run (Transition.Watched (watchHeartbeats LiquidCan.littleEndian 5)
      (Performs LiquidCan.littleEndian)) (new {}, {}) twoHeartbeats (manager, sent) ∧
    manager.canNodes.lookup 5 = some node ∧ Numbered node sent := by
  have run : Transition.Run (Transition.Watched (watchHeartbeats LiquidCan.littleEndian 5)
      (Performs LiquidCan.littleEndian)) (new {}, {}) twoHeartbeats _ :=
    watched_cons (watched_cons (watched_cons (watched_cons (watched_cons (watched_cons (.nil _))))))
  have registered : (((new {}).replay LiquidCan.littleEndian twoHeartbeats).canNodes.lookup 5).isSome =
      true := by decide
  obtain ⟨node, found⟩ := Option.isSome_iff_exists.mp registered
  exact ⟨_, _, node, run, found, (heartbeats_numbered_iff run found).mpr (by decide)⟩

theorem calls_run (liquidCan : LiquidCan) (nodeId : UInt8) (count : ℕ) (manager : NodeManager)
    (sent : SentHeartbeats) (registered : ∃ node, manager.canNodes.lookup nodeId = some node) : ∃ final later,
      Transition.Run (Transition.Watched (watchHeartbeats liquidCan nodeId) (Performs liquidCan))
        (manager, sent) (List.replicate count (.heartbeat 0)) (final, later) ∧
      (∃ node, final.canNodes.lookup nodeId = some node) ∧
      later.calls.length = sent.calls.length + count := by
  induction count generalizing manager sent with
  | zero => exact ⟨manager, sent, Transition.Run.nil _, registered, rfl⟩
  | succ count ih =>
      obtain ⟨node, found⟩ := registered
      have still : (manager.dispatchHeartbeatRequests 0).manager.canNodes.lookup nodeId =
          some (sendHeartbeat 0 node) := by
        rw [← slot_registered, slot_dispatchHeartbeatRequests, NodeSlot.heartbeat, slot_registered, found]
        rfl
      obtain ⟨final, later, run, present, calls⟩ := ih _ (watchHeartbeats liquidCan nodeId manager
        (.heartbeat 0) (manager.dispatchHeartbeatRequests 0).manager sent) ⟨_, still⟩
      refine ⟨final, later, watched_cons run, present, ?_⟩
      simp only [watchHeartbeats, List.length_append, List.length_singleton] at calls
      omega

theorem heartbeats_repeat :
    ¬ ∀ (mapping : Mapping) (operations : List Operation) (manager : NodeManager) (nodeId : UInt8)
        (sent : SentHeartbeats) (node : CanNode),
      Transition.Run (Transition.Watched (watchHeartbeats LiquidCan.littleEndian nodeId)
        (Performs LiquidCan.littleEndian)) (new mapping, {}) operations (manager, sent) →
      manager.canNodes.lookup nodeId = some node → Numbered node sent := by
  intro claim
  obtain ⟨manager, sent, run, ⟨node, registered⟩, calls⟩ := calls_run LiquidCan.littleEndian 5
    (2 ^ 32 + 1) ((new {}).perform LiquidCan.littleEndian announceBare).manager {} ⟨_, rfl⟩
  have numbered := claim {} (announceBare :: List.replicate (2 ^ 32 + 1) (.heartbeat 0)) manager 5 sent node
    (watched_cons run) registered
  have few := numbered.calls_le
  rw [calls] at few
  simp at few

end NodeManager

end FerroFlow
