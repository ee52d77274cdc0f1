import FerroFlow.HeartbeatCounters
import FerroFlow.ManagerThreads

/-! The rounds of the heartbeat thread, while messages are handled: whom a round reaches, and how the
requests to one node are numbered. -/

namespace FerroFlow

open NodeManager (nextHeartbeat sendHeartbeat heartbeatCounter?)

namespace NodeSlot

variable {liquidCan : LiquidCan}

theorem stays_registered {nodeId : UInt8} {slot next : NodeSlot} {input : SlotInput}
    (taken : slot.Takes liquidCan nodeId input next) (registered : slot.registered.isSome = true) :
    next.registered.isSome = true := by
  obtain ⟨node, found⟩ := Option.isSome_iff_exists.mp registered
  obtain ⟨after, later, _⟩ := takes_registered liquidCan taken found
  rw [later]
  rfl

theorem steady_message {nodeId : UInt8} {slot next : NodeSlot} {timestamp : DateTime} {message : CanMessage}
    {node : CanNode} (taken : slot.Takes liquidCan nodeId (.message timestamp message) next)
    (other : ∀ payload, message ≠ .nodeInfoAnnouncement payload) (steady : slot.registering = none)
    (registered : slot.registered = some node) :
    next.registering = none ∧ ∃ after, next.registered = some after ∧ nextHeartbeat after = nextHeartbeat node := by
  cases change_of_takes liquidCan taken with
  | announced timestamp payload => exact absurd rfl (other payload)
  | registered timestamp effect registering =>
      rw [steady] at registering
      cases registering
  | @received message before timestamp noEffect _ found =>
      rw [registered] at found
      obtain rfl := Option.some.inj found
      refine ⟨steady, _, rfl, ?_⟩
      unfold nextHeartbeat
      rw [CanNode.receive_sent]
  | rejected timestamp _ refused => exact ⟨steady, node, registered, rfl⟩

end NodeSlot

namespace Nodes

variable {liquidCan : LiquidCan} {start finish : Nodes} {nodeId : UInt8}

def Input.announces (nodeId : UInt8) : Input → Bool
  | .message _ id (.nodeInfoAnnouncement _) => id.senderId = nodeId
  | _ => false

def Input.isHeartbeatOf (nodeId : UInt8) : Input → Bool
  | .heartbeat other _ => other = nodeId
  | _ => false

theorem nextHeartbeat_sent (node : CanNode) (timestamp : DateTime) :
    nextHeartbeat (sendHeartbeat timestamp node) = nextHeartbeat node + 1 := rfl

theorem steady_input {start next : Nodes} {input : Input} {node : CanNode} (taken : start.Takes liquidCan input next)
    (calm : input.announces nodeId = false) (silent : input.isHeartbeatOf nodeId = false)
    (steady : (start.slots nodeId).registering = none) (registered : (start.slots nodeId).registered = some node) :
    (next.slots nodeId).registering = none ∧
      (∃ after, (next.slots nodeId).registered = some after ∧ nextHeartbeat after = nextHeartbeat node) ∧
      next.requested.filterMap (heartbeatCounter? nodeId) = start.requested.filterMap (heartbeatCounter? nodeId) := by
  subst taken
  cases input with
  | message timestamp id message =>
      by_cases sender : nodeId = id.senderId
      · subst sender
        have other : ∀ payload, message ≠ .nodeInfoAnnouncement payload := by
          rintro payload rfl
          simp [Input.announces] at calm
        have moved : (start.slots id.senderId).Takes liquidCan id.senderId (.message timestamp message) _ := rfl
        obtain ⟨still, after, found, same⟩ := NodeSlot.steady_message moved other steady registered
        simp only [take, Function.update_self]
        exact ⟨still, ⟨after, found, same⟩, trivial⟩
      · simp only [take, Function.update_of_ne sender]
        exact ⟨steady, ⟨node, registered, rfl⟩, trivial⟩
  | heartbeat other timestamp =>
      have different : nodeId ≠ other := by
        rintro rfl
        simp [Input.isHeartbeatOf] at silent
      simp only [take, Function.update_of_ne different]
      refine ⟨steady, ⟨node, registered, rfl⟩, ?_⟩
      cases (start.slots other).registered with
      | none => simp
      | some found => simp [heartbeatCounter?, different.symm]

theorem counters_run {inputs : List Input} {node : CanNode}
    (run : Transition.Run (Takes liquidCan) start inputs finish) (steady : (start.slots nodeId).registering = none)
    (registered : (start.slots nodeId).registered = some node)
    (calm : ∀ input ∈ inputs, input.announces nodeId = false) :
    finish.requested.filterMap (heartbeatCounter? nodeId) = start.requested.filterMap (heartbeatCounter? nodeId) ++
      (List.range (inputs.countP (Input.isHeartbeatOf nodeId))).map fun position =>
        nextHeartbeat node + UInt32.ofNat position := by
  induction run generalizing node with
  | nil => simp
  | @cons start input middle inputs finish first _ ih =>
      obtain ⟨now, later⟩ := List.forall_mem_cons.mp calm
      cases due : input.isHeartbeatOf nodeId with
      | false =>
          obtain ⟨still, ⟨after, found, same⟩, requested⟩ := steady_input first now due steady registered
          rw [ih still found later, requested, same, List.countP_cons_of_neg (by simp [due])]
      | true =>
          cases input with
          | message timestamp id message => cases due
          | heartbeat other timestamp =>
              obtain rfl : other = nodeId := of_decide_eq_true due
              subst first
              have sent : ((start.take liquidCan (.heartbeat other timestamp)).slots other).registered =
                  some (sendHeartbeat timestamp node) := by
                simp only [take, Function.update_self, NodeSlot.heartbeat, registered, Option.map_some]
              have still : ((start.take liquidCan (.heartbeat other timestamp)).slots other).registering = none := by
                simp only [take, Function.update_self]
                exact steady
              rw [ih still sent later, List.countP_cons_of_pos due, List.range_succ_eq_map, List.map_cons, List.map_map]
              have shifted (position : ℕ) : nextHeartbeat node + 1 + UInt32.ofNat position =
                  nextHeartbeat node + UInt32.ofNat (position + 1) := by
                rw [UInt32.ofNat_add, UInt32.add_assoc, UInt32.add_comm 1]
                rfl
              simp [take, registered, heartbeatCounter?, nextHeartbeat_sent, shifted]

end Nodes

namespace ManagerThreads

section Rounds

variable {liquidCan : LiquidCan} {start state after : ManagerThreads} {act : Act}

def Act.visited? : Act → Option UInt8
  | .visit nodeId _ => some nodeId
  | _ => none

theorem mem_keys_iff {nodeId : UInt8} :
    nodeId ∈ state.manager.canNodes.keys ↔ (state.settled nodeId).registered.isSome = true := by
  have same : (state.settled nodeId).registered.isSome = (state.manager.slot nodeId).registered.isSome := by
    unfold settled settleAt
    split
    · split
      · exact Option.isSome_map
      · rfl
    · rfl
  rw [same, NodeManager.slot_registered, AList.lookup_isSome, AList.mem_keys]

theorem keys_advance (advanced : Advances liquidCan state act after) {nodeId : UInt8}
    (member : nodeId ∈ state.manager.canNodes.keys) : nodeId ∈ after.manager.canNodes.keys := by
  rw [mem_keys_iff] at member ⊢
  have taken := nodes_advance advanced
  cases seen : act.input? with
  | none =>
      rw [seen] at taken
      have same : after.settled nodeId = state.settled nodeId := congrFun (congrArg Nodes.slots taken) nodeId
      rwa [same]
  | some input =>
      rw [seen] at taken
      have run := Nodes.slot_run (Transition.Run.cons taken (Transition.Run.nil after.nodes)) nodeId
      exact run.invariant (fun slot => slot.registered.isSome = true)
        (fun _ _ _ found taken => NodeSlot.stays_registered taken found) member

theorem keys_next (stepped : Steps liquidCan state act after) {nodeId : UInt8}
    (member : nodeId ∈ state.manager.canNodes.keys) : nodeId ∈ after.manager.canNodes.keys :=
  keys_advance (advances_of_steps stepped) member

theorem keys_run {acts : List Act} (run : Transition.Run (Advances liquidCan) state acts after) {nodeId : UInt8}
    (member : nodeId ∈ state.manager.canNodes.keys) : nodeId ∈ after.manager.canNodes.keys :=
  run.invariant (fun state => nodeId ∈ state.manager.canNodes.keys)
    (fun _ _ _ there stepped => keys_advance stepped there) member

theorem handler_keeps (stepped : Steps liquidCan state act after) (handling : act.handles = true ∨ act = .store) :
    after.round = state.round ∧ after.requested = state.requested := by
  cases act with
  | handle timestamp id message =>
      simp only [Steps, next, Option.ite_none_right_eq_some, Option.some.injEq] at stepped
      obtain ⟨_, rfl⟩ := stepped
      cases message with
      | telemetryGroupUpdate payload =>
          simp only [handle]
          split <;> exact ⟨rfl, rfl⟩
      | _ => exact ⟨rfl, rfl⟩
  | store =>
      obtain ⟨storing, _, rfl⟩ := Option.map_eq_some_iff.mp stepped
      unfold store
      split <;> exact ⟨rfl, rfl⟩
  | _ => simp [Act.handles] at handling

theorem beats_keep (stepped : Steps liquidCan state act after) (beats : act.handles = false) (other : act ≠ .store) :
    after.storing = state.storing ∧ after.logged = state.logged := by
  cases act with
  | handle timestamp id message => cases beats
  | store => exact absurd rfl other
  | beginRound =>
      simp only [Steps, next, Option.ite_none_right_eq_some, Option.some.injEq] at stepped
      obtain ⟨_, rfl⟩ := stepped
      exact ⟨rfl, rfl⟩
  | visit nodeId timestamp =>
      simp only [Steps, next, Option.bind_eq_bind, Option.bind_eq_some_iff, Option.ite_none_right_eq_some,
        Option.some.injEq] at stepped
      obtain ⟨_, _, _, rfl⟩ := stepped
      exact ⟨rfl, rfl⟩
  | endRound =>
      simp only [Steps, next, Option.bind_eq_bind, Option.bind_eq_some_iff, Option.ite_none_right_eq_some,
        Option.some.injEq] at stepped
      obtain ⟨_, _, _, rfl⟩ := stepped
      exact ⟨rfl, rfl⟩

/-- What an iteration over the map promises, however long it takes: it yields entries that are there, none of them
twice, and all that are there from beginning to end. -/
structure Iterates (liquidCan : LiquidCan) (opened : ManagerThreads) (acts : List Act) : Prop where
  there : ∀ before nodeId timestamp after state, acts = before ++ .visit nodeId timestamp :: after →
    Transition.Run (Advances liquidCan) opened before state → nodeId ∈ state.manager.canNodes.keys
  once : (acts.filterMap Act.visited?).Nodup
  all : ∀ nodeId, (∀ before after state, acts = before ++ after →
      Transition.Run (Advances liquidCan) opened before state → nodeId ∈ state.manager.canNodes.keys) →
    nodeId ∈ acts.filterMap Act.visited?

def noteVisit (state : ManagerThreads) (act : Act) (_ : ManagerThreads) (visits : List (UInt8 × CanNode)) :
    List (UInt8 × CanNode) :=
  visits ++ (act.visited?.bind fun nodeId => (state.manager.canNodes.lookup nodeId).map (nodeId, ·)).toList

def request (visit : UInt8 × CanNode) : Event :=
  .sendCanMessage visit.1 (.heartbeatReq { counter := nextHeartbeat visit.2 })

theorem requested_advance (advanced : Advances liquidCan state act after) (visits : List (UInt8 × CanNode)) :
    ∃ more, noteVisit state act after visits = visits ++ more ∧
      after.requested = state.requested ++ more.map request := by
  refine ⟨_, rfl, ?_⟩
  have undisturbed (handling : act.handles = true ∨ act = .store) (stepped : Steps liquidCan state act after)
      (elsewhere : act.visited? = none) : after.requested = state.requested ++ List.map request
        (act.visited?.bind fun nodeId => (state.manager.canNodes.lookup nodeId).map (nodeId, ·)).toList := by
    rw [(handler_keeps stepped handling).2, elsewhere]
    exact (List.append_nil _).symm
  cases act with
  | handle timestamp id message => exact undisturbed (Or.inl rfl) advanced rfl
  | store => exact undisturbed (Or.inr rfl) advanced rfl
  | beginRound =>
      simp only [Advances, advance, next, Option.ite_none_right_eq_some, Option.some.injEq] at advanced
      obtain ⟨_, rfl⟩ := advanced
      exact (List.append_nil _).symm
  | visit nodeId timestamp =>
      obtain ⟨round, _, rfl⟩ := Option.map_eq_some_iff.mp advanced
      unfold visit NodeManager.requestHeartbeat
      cases registered : state.manager.canNodes.lookup nodeId <;>
        simp [Act.visited?, registered, request, Handled.accept]
  | endRound =>
      obtain ⟨round, _, rfl⟩ := Option.map_eq_some_iff.mp advanced
      exact (List.append_nil _).symm

theorem requested_run {acts : List Act} {begun finish : ManagerThreads × List (UInt8 × CanNode)}
    (run : Transition.Run (Transition.Watched noteVisit (Advances liquidCan)) begun acts finish) :
    ∃ more, finish.2 = begun.2 ++ more ∧ finish.1.requested = begun.1.requested ++ more.map request := by
  refine run.invariant (fun seen => ∃ more, seen.2 = begun.2 ++ more ∧
    seen.1.requested = begun.1.requested ++ more.map request) ?_ ⟨[], by simp, by simp⟩
  rintro ⟨state, visits⟩ act ⟨after, later⟩ ⟨more, listed, requested⟩ ⟨advanced, noted⟩
  obtain ⟨now, split, asked⟩ := requested_advance advanced visits
  simp only at noted listed requested
  refine ⟨more ++ now, ?_, ?_⟩
  · rw [noted, split, listed, List.append_assoc]
  · rw [asked, requested, List.map_append, List.append_assoc]

theorem visited_run {acts : List Act} {begun finish : ManagerThreads × List (UInt8 × CanNode)}
    (run : Transition.Run (Transition.Watched noteVisit (Advances liquidCan)) begun acts finish)
    (there : ∀ before nodeId timestamp after state, acts = before ++ .visit nodeId timestamp :: after →
      Transition.Run (Advances liquidCan) begun.1 before state → nodeId ∈ state.manager.canNodes.keys) :
    finish.2.map Prod.fst = begun.2.map Prod.fst ++ acts.filterMap Act.visited? := by
  induction run with
  | nil => exact (List.append_nil _).symm
  | @cons begun act middle acts finish first _ ih =>
      obtain ⟨advanced, noted⟩ := first
      rw [ih fun before nodeId timestamp after state split reached => there (act :: before) nodeId timestamp after state
        (by rw [split, List.cons_append]) (Transition.Run.cons advanced reached), noted]
      cases act with
      | visit nodeId timestamp =>
          have member := there [] nodeId timestamp acts begun.1 rfl (Transition.Run.nil _)
          rw [← AList.mem_keys, ← AList.lookup_isSome] at member
          obtain ⟨node, registered⟩ := Option.isSome_iff_exists.mp member
          simp [noteVisit, Act.visited?, registered]
      | _ => simp [noteVisit, Act.visited?, List.filterMap_cons]

/-- Whatever is handled meanwhile, a round requests a heartbeat of each entry that the iteration yields, with the
counter that follows the one noted there; by what the iteration promises, each node that was registered when the round
began is visited, and no node twice. -/
theorem round_correct {opened before finish : ManagerThreads} {acts : List Act} {visits : List (UInt8 × CanNode)}
    (first : Advances liquidCan start .beginRound opened)
    (run : Transition.Run (Transition.Watched noteVisit (Advances liquidCan)) (opened, []) acts (before, visits))
    (iterates : Iterates liquidCan opened acts) (last : Advances liquidCan before .endRound finish) :
    visits.map Prod.fst = acts.filterMap Act.visited? ∧
      finish.requested = start.requested ++ visits.map request ∧ (visits.map Prod.fst).Nodup ∧
      start.manager.canNodes.keys ⊆ visits.map Prod.fst ∧ visits.map Prod.fst ⊆ finish.manager.canNodes.keys := by
  obtain ⟨_, begun⟩ := Option.ite_none_right_eq_some.mp first
  obtain rfl := Option.some.inj begun
  obtain ⟨round, _, rfl⟩ := Option.map_eq_some_iff.mp last
  have listed : visits.map Prod.fst = acts.filterMap Act.visited? := visited_run run iterates.there
  obtain ⟨more, split, requested⟩ := requested_run run
  obtain rfl : visits = more := split
  refine ⟨listed, requested, ?_, ?_, ?_⟩
  · rw [listed]
    exact iterates.once
  · intro nodeId due
    rw [listed]
    exact iterates.all nodeId fun _ _ _ _ reached => keys_run reached due
  · intro nodeId member
    rw [listed] at member
    obtain ⟨act, performed, visited⟩ := List.mem_filterMap.mp member
    obtain ⟨earlier, later, rfl⟩ := List.append_of_mem performed
    obtain ⟨middle, past, rest⟩ := Transition.run_append_iff.mp run.unwatched
    cases act with
    | visit other timestamp =>
        obtain rfl := Option.some.inj visited
        exact keys_run rest (iterates.there earlier other timestamp later middle rfl past)
    | _ => cases visited

end Rounds

section Counters

variable {liquidCan : LiquidCan} {start finish : ManagerThreads} {nodeId : UInt8}

def Act.announces (nodeId : UInt8) : Act → Bool
  | .handle _ id (.nodeInfoAnnouncement _) => id.senderId = nodeId
  | _ => false

def Act.visits (nodeId : UInt8) : Act → Bool
  | .visit other _ => other = nodeId
  | _ => false

theorem countP_visits (acts : List Act) : (acts.filterMap Act.input?).countP (Nodes.Input.isHeartbeatOf nodeId) =
    acts.countP (Act.visits nodeId) := by
  rw [List.countP_filterMap]
  congr 1
  funext act
  cases act <;> rfl

/-- Until a registered node announces itself again, the requests sent to it are numbered without a gap, one
for each visit, whatever the handler does meanwhile. -/
theorem counters_correct {acts : List Act} {node : CanNode} (run : Transition.Run (Steps liquidCan) start acts finish)
    (steady : start.manager.registeringNodes.lookup nodeId = none)
    (registered : start.manager.canNodes.lookup nodeId = some node)
    (calm : ∀ act ∈ acts, act.announces nodeId = false) :
    finish.requested.filterMap (heartbeatCounter? nodeId) = start.requested.filterMap (heartbeatCounter? nodeId) ++
      (List.range (acts.countP (Act.visits nodeId))).map fun position =>
        nextHeartbeat node + UInt32.ofNat position := by
  have still : (start.settled nodeId).registering = none := by
    unfold settled settleAt
    split
    · split
      · exact steady
      · exact steady
    · exact steady
  obtain ⟨after, found, same⟩ : ∃ after, (start.settled nodeId).registered = some after ∧
      nextHeartbeat after = nextHeartbeat node := by
    unfold settled settleAt
    cases start.storing with
    | none => exact ⟨node, registered, rfl⟩
    | some storing =>
        dsimp only
        split
        · refine ⟨node.cacheAll storing.timestamp (storedRows storing.rows), ?_, rfl⟩
          rw [Storing.settle, NodeManager.slot_registered, registered, Option.map_some]
        · exact ⟨node, registered, rfl⟩
  have quiet : ∀ input ∈ acts.filterMap Act.input?, input.announces nodeId = false := by
    intro input member
    obtain ⟨act, performed, same⟩ := List.mem_filterMap.mp member
    have silent := calm act performed
    cases act with
    | handle timestamp id message =>
        obtain rfl := Option.some.inj same
        cases message with
        | nodeInfoAnnouncement payload => exact silent
        | _ => rfl
    | visit other timestamp =>
        obtain rfl := Option.some.inj same
        rfl
    | _ => cases same
  rw [← countP_visits, ← same]
  exact Nodes.counters_run (nodes_run run) still found quiet

def tankBegins : ManagerThreads :=
  ((tankRegisters ++ [Act.beginRound]).foldlM (next LiquidCan.littleEndian) tankManager).getD tankManager

/-- A pump that registers in the middle of a round is visited too. -/
def pumpJoins : List Act := [
  .handle 2 ⟨6, 0⟩ (.nodeInfoAnnouncement ⟨0, 0, 0, 0, "pump"⟩), .visit 6 2, .visit 5 3]

theorem pumpJoins_registered {state : ManagerThreads}
    (joined : Advances LiquidCan.littleEndian tankBegins (.handle 2 ⟨6, 0⟩ (.nodeInfoAnnouncement ⟨0, 0, 0, 0, "pump"⟩))
      state) : 5 ∈ state.manager.canNodes.keys ∧ 6 ∈ state.manager.canNodes.keys := by
  have evaluated : (tankBegins.advance LiquidCan.littleEndian
      (.handle 2 ⟨6, 0⟩ (.nodeInfoAnnouncement ⟨0, 0, 0, 0, "pump"⟩))).map
        (fun state => state.manager.canNodes.keys) = some [6, 5] := by decide
  rw [joined, Option.map_some, Option.some.injEq] at evaluated
  simp [evaluated]

theorem pumpJoins_iterates : Iterates LiquidCan.littleEndian tankBegins pumpJoins where
  there := by
    rintro before nodeId timestamp after state split reached
    rcases before with _ | ⟨first, rest⟩
    · cases split
    · obtain ⟨middle, joined, later⟩ := Transition.run_cons_iff.mp reached
      obtain ⟨rfl, tail⟩ := List.cons.inj split
      obtain ⟨tank, pump⟩ := pumpJoins_registered joined
      have member : Act.visit nodeId timestamp ∈ [Act.visit 6 2, .visit 5 3] := tail ▸ by simp
      simp only [List.mem_cons, Act.visit.injEq, List.not_mem_nil, or_false] at member
      rcases member with ⟨rfl, _⟩ | ⟨rfl, _⟩
      · exact keys_run later pump
      · exact keys_run later tank
  once := by decide
  all nodeId stays := by
    have registered : tankBegins.manager.canNodes.keys = [5] := by decide
    have due := stays [] pumpJoins tankBegins rfl (Transition.Run.nil _)
    rw [registered, List.mem_singleton] at due
    subst due
    decide

theorem round_correct_pump : ∃ start before finish visits,
    Transition.Run (Steps LiquidCan.littleEndian) tankManager tankRegisters start ∧
    Advances LiquidCan.littleEndian start .beginRound tankBegins ∧
    Transition.Run (Transition.Watched noteVisit (Advances LiquidCan.littleEndian)) (tankBegins, []) pumpJoins
      (before, visits) ∧
    Advances LiquidCan.littleEndian before .endRound finish ∧
    visits.map Prod.fst = [6, 5] ∧ visits.map (fun visit => nextHeartbeat visit.2) = [0, 0] ∧
    finish.requested = start.requested ++ visits.map request := by
  have opening : ((tankRegisters ++ [Act.beginRound]).foldlM (next LiquidCan.littleEndian) tankManager).isSome =
      true := by
    decide
  obtain ⟨opened, begun⟩ := Option.isSome_iff_exists.mp opening
  obtain rfl : tankBegins = opened := by rw [tankBegins, begun, Option.getD_some]
  obtain ⟨start, reached, beginning⟩ := Transition.run_append_iff.mp (Transition.run_iff_foldlM.mpr begun)
  obtain ⟨_, first, ended⟩ := Transition.run_cons_iff.mp beginning
  obtain rfl := Transition.run_nil_iff.mp ended
  have evaluated : (pumpJoins.foldlM (fun seen act => (advance LiquidCan.littleEndian seen.1 act).map fun after =>
      (after, noteVisit seen.1 act after seen.2)) (tankBegins, [])).any (fun seen =>
        (seen.1.advance LiquidCan.littleEndian .endRound).isSome &&
          decide (seen.2.map (fun visit => nextHeartbeat visit.2) = [0, 0])) = true := by decide
  obtain ⟨⟨before, visits⟩, joined, seen⟩ := (Option.any_eq_true _ _).mp evaluated
  simp only [Bool.and_eq_true, decide_eq_true_eq] at seen
  obtain ⟨ending, counted⟩ := seen
  obtain ⟨finish, last⟩ := Option.isSome_iff_exists.mp ending
  have run := Transition.run_watched_iff_foldlM.mpr joined
  obtain ⟨listed, requested, _⟩ := round_correct first run pumpJoins_iterates last
  exact ⟨start, before, finish, visits, reached, first, run, last, listed, counted, requested⟩

theorem counters_correct_tank : ∃ start finish,
    Transition.Run (Steps LiquidCan.littleEndian) tankManager tankRegisters start ∧
    Transition.Run (Steps LiquidCan.littleEndian) start (.beginRound :: pumpJoins) finish ∧
    finish.requested.filterMap (heartbeatCounter? 5) = [0] := by
  obtain ⟨start, finish, reached, run, registered⟩ : ∃ start finish,
      Transition.Run (Steps LiquidCan.littleEndian) tankManager tankRegisters start ∧
      Transition.Run (Steps LiquidCan.littleEndian) start (.beginRound :: pumpJoins) finish ∧
      start.manager.registeringNodes.lookup 5 = none ∧ start.requested = [] ∧
      (start.manager.canNodes.lookup 5).map nextHeartbeat = some 0 :=
    ⟨_, _, Transition.run_iff_foldlM.mpr rfl, Transition.run_iff_foldlM.mpr rfl, rfl, rfl, rfl⟩
  obtain ⟨steady, none, first⟩ := registered
  obtain ⟨node, found, zero⟩ := Option.map_eq_some_iff.mp first
  have counters := counters_correct run steady found (by decide)
  rw [none, zero] at counters
  exact ⟨start, finish, reached, run, counters⟩

end Counters

end ManagerThreads

end FerroFlow
