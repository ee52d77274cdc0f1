import FerroFlow.Telemetry

/-! The messages that the handler takes from its queue: they come from the interfaces alone, and the node
manager goes as if it handled them at once, one after the other. -/

namespace FerroFlow

open Broadcast (takenFrom)
open NodeManager (telemetryLog)

namespace Nodes

def Input.received? : Input → Option (CanMessageId × CanMessage)
  | .message _ id received => some (id, received)
  | .heartbeat _ _ => none

end Nodes

namespace Server

section Reads

variable {config : Config} {framing : LiquidCanFraming} {liquidCan : LiquidCan} {state after : Server}

def Act.read? (source : ℕ) : Act → Option ReadFrame
  | .other act => act.read? source
  | _ => none

def reads (source : ℕ) (acts : List Act) : List ReadFrame :=
  acts.filterMap (Act.read? source)

def Act.handled? : Act → Option (CanMessageId × CanMessage)
  | .handle _ id message => some (id, message)
  | _ => none

theorem reads_trafficActs (source : ℕ) (state : Server) (act : Act) :
    CanTraffic.reads source (state.trafficActs act) = (act.read? source).toList := by
  cases act with
  | other act =>
      simp only [CanTraffic.reads, trafficActs, Act.read?]
      cases read : act.read? source <;> simp [read]
  | dispatchLog => cases due : state.threads.logged[state.logsSent]? <;> simp [trafficActs, due] <;> rfl
  | dispatchRequest =>
      cases due : state.threads.requested[state.requestsSent]? <;> simp [trafficActs, due] <;> rfl
  | _ => rfl

theorem reads_cons (source : ℕ) (act : Act) (acts : List Act) :
    reads source (act :: acts) = (act.read? source).toList ++ reads source acts := by
  unfold reads
  cases read : act.read? source <;> simp [read]

theorem traffic_run {acts : List Act} (run : Transition.Run (Steps config framing liquidCan) state acts after) :
    ∃ journal, Transition.Run (CanTraffic.Steps config framing) state.traffic journal after.traffic ∧
      ∀ source, CanTraffic.reads source journal = reads source acts := by
  induction run with
  | nil state => exact ⟨[], Transition.Run.nil _, fun _ => rfl⟩
  | @cons state act middle acts after first _ ih =>
      obtain ⟨journal, rest, same⟩ := ih
      refine ⟨state.trafficActs act ++ journal, (traffic_next first).append rest, fun source => ?_⟩
      rw [reads_cons, ← reads_trafficActs source state act, ← same source]
      exact List.filterMap_append

end Reads

section Handled

variable {config : Config} {framing : LiquidCanFraming} {liquidCan : LiquidCan} {mapping : Mapping}
  {state after : Server} {act : Act} {past : List Act}

def Handles (past : List Act) (state : Server) : Prop :=
  Consumer.Finds (fun entry => entry.2.message?) (state.traffic.inbox .canMsgHandler) state.handled
    (past.filterMap Act.handled?)

theorem inbox_grows (stepped : Steps config framing liquidCan state act after) (worker : Worker) :
    state.traffic.inbox worker <+: after.traffic.inbox worker :=
  inbox_run (traffic_next stepped) worker

theorem handles_next (handles : Handles past state) (stepped : Steps config framing liquidCan state act after) :
    Handles (past ++ [act]) after := by
  have grown := handles.grow (inbox_grows stepped .canMsgHandler)
  have quiet (silent : act.handled? = none) (still : after.handled = state.handled) :
      Handles (past ++ [act]) after := by
    unfold Handles
    rw [List.filterMap_append, List.filterMap_cons_none silent, List.filterMap_nil, List.append_nil, still]
    exact grown
  cases effect_of_steps stepped with
  | @handle timestamp id message event threads moved ready waiting content =>
      obtain ⟨⟨thread, same⟩, there, rfl⟩ := Option.map_eq_some_iff.mp waiting
      have found := grown.next there
      simp only [content, Option.toList_some] at found
      unfold Handles
      rw [List.filterMap_append]
      exact found
  | @endHandling event ready idle waiting shutdown =>
      obtain ⟨⟨thread, same⟩, there, rfl⟩ := Option.map_eq_some_iff.mp waiting
      have nothing : same.message? = none := by
        cases same <;> first | rfl | cases shutdown
      have found := grown.next there
      simp only [nothing, Option.toList_none] at found
      unfold Handles
      rw [List.filterMap_append]
      exact found
  | _ => exact quiet rfl rfl

theorem handles_run {acts : List Act} {finish : Server}
    (run : Transition.Run (Steps config framing liquidCan) (new config mapping) acts finish) :
    Handles acts finish := by
  have begun : Handles [] (new config mapping) := Consumer.finds_new _ _
  exact run.history Handles (fun _ _ _ _ handles stepped => handles_next handles stepped) begun

theorem input_received (stepped : Steps config framing liquidCan state act after) :
    (act.manager?.bind fun seen => seen.input?.bind Nodes.Input.received?) = act.handled? := by
  cases act with
  | manage act =>
      cases act with
      | handle timestamp id message =>
          cases effect_of_steps stepped with
          | manage allowed _ => cases allowed
      | _ => rfl
  | _ => rfl

/-- What the node manager is given to do, each operation at one instant. -/
def inputs (acts : List Act) : List Nodes.Input :=
  (acts.filterMap Act.manager?).filterMap ManagerThreads.Act.input?

theorem inputs_received {acts : List Act} (run : Transition.Run (Steps config framing liquidCan) state acts after) :
    (inputs acts).filterMap Nodes.Input.received? = acts.filterMap Act.handled? := by
  unfold inputs
  rw [List.filterMap_filterMap, List.filterMap_filterMap]
  exact List.filterMap_congr (run.labels fun _ _ _ stepped => input_received stepped)

theorem inputs_run {acts : List Act} {finish : Server}
    (run : Transition.Run (Steps config framing liquidCan) (new config mapping) acts finish) :
    Transition.Run (Nodes.Takes liquidCan) ⟨(NodeManager.new mapping).slot, [], []⟩ (inputs acts)
      finish.threads.nodes := by
  have taken := ManagerThreads.nodes_run (threads_run run)
  rwa [ManagerThreads.nodes_of_idle rfl] at taken

end Handled

section Origin

variable {config : Config} {framing : LiquidCanFraming} {liquidCan : LiquidCan} {mapping : Mapping}

theorem message_of_event {act : CanTraffic.Act} (free : act.isFree = true) {thread : Thread} {event : Event}
    (started : act.event? config framing thread = some event) (isMessage : event.message?.isSome = true) :
    ∃ source fromInterface, thread = .worker (.canRecv source) ∧
      config.canBusInterfaces[source]? = some fromInterface := by
  rcases start_of_event started with ⟨source, read, _, same, received⟩ | ⟨_, command⟩ | rfl
  · simp only [CanTraffic.receives, Option.bind_eq_bind, Option.bind_eq_some_iff] at received
    obtain ⟨fromInterface, there, _⟩ := received
    exact ⟨source, fromInterface, same, there⟩
  · exfalso
    cases event with
    | canMessageReceived id message => cases command
    | _ => cases isMessage
  · cases event with
    | canMessageReceived id message =>
        cases thread with
        | worker worker => cases worker <;> cases free
        | _ => cases free
    | _ => cases isMessage

theorem message_of_queued {journal : List CanTraffic.Act} {traffic : CanTraffic}
    (run : Transition.Run (CanTraffic.Steps config framing) (CanTraffic.new config) journal traffic)
    {entry : Thread × Event} (member : entry ∈ traffic.inbox .canMsgHandler)
    (isMessage : entry.2.message?.isSome = true) :
    ∃ source fromInterface, entry.1 = .worker (.canRecv source) ∧
      config.canBusInterfaces[source]? = some fromInterface := by
  have queued : entry.2 ∈ traffic.startUp.dispatching.queuedFrom entry.1 Worker.canMsgHandler.channel := by
    rw [← Broadcast.takenFrom_inbox]
    exact List.mem_map.mpr ⟨entry, List.mem_filter.mpr ⟨member, decide_eq_true rfl⟩, rfl⟩
  obtain ⟨act, performed, started⟩ := List.mem_filterMap.mp (heard_subset run _ _ queued)
  exact message_of_event (CanTraffic.free_run run act performed) started isMessage

end Origin

section Partway

variable {config : Config} {framing : LiquidCanFraming} {liquidCan : LiquidCan} {mapping : Mapping}
  {start state after : Server} {act : Act}

def Act.handles (act : Act) : Bool :=
  act.manager?.any ManagerThreads.Act.handles

structure Pending (start state : Server) : Prop where
  since : start.logsSent ≤ state.logsSent
  logged : state.threads.logged.length ≤ state.logsSent + 1

theorem logged_store {start finish : ManagerThreads} (stepped : ManagerThreads.Steps liquidCan start .store finish) :
    finish.logged.length ≤ start.logged.length + 1 := by
  obtain ⟨storing, _, rfl⟩ := Option.map_eq_some_iff.mp stepped
  unfold ManagerThreads.store
  split <;> simp

theorem sent_of_ready (ready : state.handlerReady = true) : state.logsSent = state.threads.logged.length := by
  simp only [handlerReady, Bool.decide_and, Bool.and_eq_true, decide_eq_true_eq] at ready
  exact ready.2.2

theorem pending_next (pending : Pending start state) (stepped : Steps config framing liquidCan state act after)
    (noOther : act.handles = false) : Pending start after := by
  cases effect_of_steps stepped with
  | handle moved _ _ _ => cases noOther
  | @manage seen threads allowed moved =>
      by_cases stores : seen = .store
      · subst stores
        refine ⟨pending.since, ?_⟩
        have sent : state.logsSent = state.threads.logged.length := sent_of_ready allowed
        have grown := logged_store moved
        simp only [sent]
        exact grown
      · exact ⟨pending.since, (ManagerThreads.beats_keep moved noOther stores).2.symm ▸ pending.logged⟩
  | dispatchLog due _ => exact ⟨Nat.le_succ_of_le pending.since, Nat.le_succ_of_le pending.logged⟩
  | _ => exact ⟨pending.since, pending.logged⟩

theorem pending_run {acts : List Act} (run : Transition.Run (Steps config framing liquidCan) state acts after)
    (noOther : ∀ act ∈ acts, act.handles = false) (pending : Pending start state) : Pending start after := by
  induction run with
  | nil => exact pending
  | cons first _ ih =>
      rw [List.forall_mem_cons] at noOther
      exact ih noOther.2 (pending_next pending first noOther.1)

theorem manager_handles {acts : List Act} (noOther : ∀ act ∈ acts, act.handles = false) :
    ∀ act ∈ acts.filterMap Act.manager?, act.handles = false := by
  intro act member
  obtain ⟨seen, performed, same⟩ := List.mem_filterMap.mp member
  have quiet := noOther seen performed
  unfold Act.handles at quiet
  rw [same] at quiet
  exact quiet

theorem logged_update {start finish : ManagerThreads} {timestamp : DateTime} {id : CanMessageId}
    {payload : TelemetryGroupUpdatePayload}
    (stepped : ManagerThreads.Steps liquidCan start (.handle timestamp id (.telemetryGroupUpdate payload)) finish) :
    finish.logged = start.logged := by
  obtain ⟨_, same⟩ := Option.ite_none_right_eq_some.mp stepped
  obtain rfl := Option.some.inj same
  simp only [ManagerThreads.handle]
  split <;> rfl

/-- In the midst of a group update, whatever the other threads do: the first of its values are stored, their logs
are dispatched but for the last at most, and to the other nodes come heartbeats only. -/
theorem update_partway {timestamp : DateTime} {id : CanMessageId} {payload : TelemetryGroupUpdatePayload}
    {opened : Server} {past acts : List Act} {earlier journal : List CanTraffic.Act}
    (reached : Transition.Run (Transition.Watched note (Steps config framing liquidCan)) (new config mapping, []) past
      (start, earlier))
    (first : Steps config framing liquidCan start (.handle timestamp id (.telemetryGroupUpdate payload)) opened)
    (run : Transition.Run (Transition.Watched note (Steps config framing liquidCan)) (opened, earlier) acts
      (after, journal)) (noOther : ∀ act ∈ acts, act.handles = false) :
    ∃ rows dispatched outstanding : List ((UInt8 × FieldInfo) × CanDataValue),
      ((start.threads.manager.slot id.senderId).handle liquidCan id.senderId timestamp
        (.telemetryGroupUpdate payload)).events = rows.map (fun row =>
          .nodeFieldUpdated (telemetryLog timestamp id.senderId row.1.1 row.1.2 row.2)) ∧
      rows = dispatched ++ outstanding ++ after.threads.remaining ∧ outstanding.length ≤ 1 ∧
      begun config framing .canMsgHandler journal = begun config framing .canMsgHandler earlier ++
        dispatched.map (fun row => .nodeFieldUpdated (telemetryLog timestamp id.senderId row.1.1 row.1.2 row.2)) ∧
      after.threads.cached id.senderId = (start.threads.cached id.senderId).map (fun values =>
        (dispatched ++ outstanding).foldl (fun values row => values.insert row.1.1 (timestamp, row.2)) values) ∧
      ∀ other ≠ id.senderId, ∃ times : List DateTime, Transition.Run (NodeSlot.Takes liquidCan other)
        (start.threads.manager.slot other) (times.map SlotInput.heartbeat) (after.threads.manager.slot other) := by
  have atStart : Accounts config framing start earlier := accounts_run reached (accounts_new config framing mapping)
  have atOpening : Accounts config framing opened (earlier ++ []) := accounts_next atStart first
  rw [List.append_nil] at atOpening
  have atEnd : Accounts config framing after journal := accounts_run run atOpening
  cases effect_of_steps first with
  | handle moved ready waiting content =>
      have sent := sent_of_ready ready
      have elsewhere := threads_run run.unwatched
      have quiet := manager_handles noOther
      obtain ⟨rows, events, partway⟩ := ManagerThreads.partway_of_update moved elsewhere quiet
      obtain ⟨done, split, logged, cached⟩ := partway.stored
      have pending : Pending start after := by
        refine pending_run run.unwatched noOther ⟨Nat.le_refl _, ?_⟩
        simp only [logged_update moved, sent]
        exact Nat.le_succ _
      set reachedNow := after.logsSent - start.threads.logged.length with reachedNow_eq
      refine ⟨rows, done.take reachedNow, done.drop reachedNow, events, ?_, ?_, ?_, ?_, ?_⟩
      · rw [List.take_append_drop]
        exact split
      · have longer := pending.logged
        rw [logged, List.length_append, List.length_map] at longer
        rw [List.length_drop]
        omega
      · have before : begun config framing .canMsgHandler earlier = start.threads.logged := by
          rw [atStart.logs, sent, List.take_length]
        have since := pending.since
        rw [atEnd.logs, before, logged, List.take_append, List.take_of_length_le (by omega), List.map_take]
      · rw [List.take_append_drop]
        exact cached
      · intro other different
        exact ManagerThreads.others_of_update moved elsewhere quiet partway different

def levelFraming : LiquidCanFraming :=
  { tankFraming with
    tryFrom := fun frame =>
      match frame.data with
      | [0] => .ok (.nodeInfoAnnouncement ⟨2, 0, 0, 0, "tank"⟩)
      | [2] => .ok (.telemetryGroupDefinition ⟨1, [0, 1]⟩)
      | [4] => .ok (.telemetryValueRegistration ⟨1, .uint16, "level"⟩)
      | _ => tankFraming.tryFrom frame }

def levelUpdate : TelemetryGroupUpdatePayload := ⟨1, ⟨[7, 0, 9, 0]⟩⟩

def levelRegisters : List Act :=
  startsUp ++ tankSends [0] ++ tankSends [1] ++ tankSends [4] ++ tankSends [2] ++ tankSends [3, 7, 0, 9, 0] ++ [
    .handle 0 ⟨5, 1⟩ (.nodeInfoAnnouncement ⟨2, 0, 0, 0, "tank"⟩),
    .handle 0 ⟨5, 1⟩ (.telemetryValueRegistration ⟨0, .uint16, "pressure"⟩),
    .handle 0 ⟨5, 1⟩ (.telemetryValueRegistration ⟨1, .uint16, "level"⟩),
    .handle 0 ⟨5, 1⟩ (.telemetryGroupDefinition ⟨1, [0, 1]⟩)]

def levelUpdates : List Act := [.manage .store, .manage .beginRound, .manage (.visit 5 2), .dispatchLog]

theorem update_partway_tank : ∃ start opened after earlier journal,
    Transition.Run (Transition.Watched note (Steps tankConfig levelFraming .littleEndian)) (new tankConfig {}, [])
      levelRegisters (start, earlier) ∧
    Steps tankConfig levelFraming .littleEndian start (.handle 1 ⟨5, 1⟩ (.telemetryGroupUpdate levelUpdate)) opened ∧
    Transition.Run (Transition.Watched note (Steps tankConfig levelFraming .littleEndian)) (opened, earlier)
      levelUpdates (after, journal) ∧
    after.threads.remaining.length = 1 ∧ after.logsSent = 1 ∧
    ∃ rows dispatched outstanding : List ((UInt8 × FieldInfo) × CanDataValue),
      rows = dispatched ++ outstanding ++ after.threads.remaining ∧ outstanding.length ≤ 1 ∧
      begun tankConfig levelFraming .canMsgHandler journal =
        begun tankConfig levelFraming .canMsgHandler earlier ++
          dispatched.map fun row => .nodeFieldUpdated (telemetryLog 1 5 row.1.1 row.1.2 row.2) := by
  have evaluated : ((levelRegisters ++
      .handle 1 ⟨5, 1⟩ (.telemetryGroupUpdate levelUpdate) :: levelUpdates).foldlM
        (next tankConfig levelFraming .littleEndian) (new tankConfig {})).map
          (fun state => (state.threads.remaining.length, state.logsSent)) = some (1, 1) := by decide
  obtain ⟨after, reached, seen⟩ := Option.map_eq_some_iff.mp evaluated
  obtain ⟨waiting, sent⟩ := Prod.mk.inj seen
  obtain ⟨start, registers, rest⟩ := Transition.run_append_iff.mp (Transition.run_iff_foldlM.mpr reached)
  obtain ⟨opened, first, updates⟩ := Transition.run_cons_iff.mp rest
  obtain ⟨earlier, registering⟩ := Transition.Run.watched registers note []
  obtain ⟨journal, updating⟩ := Transition.Run.watched updates note earlier
  obtain ⟨rows, dispatched, outstanding, _, split, one, begins, _⟩ :=
    update_partway registering first updating (by decide)
  exact ⟨start, opened, after, earlier, journal, registering, first, updating, waiting, sent, rows, dispatched,
    outstanding, split, one, begins⟩

end Partway

section Correct

variable {config : Config} {framing : LiquidCanFraming} {liquidCan : LiquidCan} {mapping : Mapping}
  {early late : List Act} {finish : Server}

/-- What has been read from an interface for the server, and not been handled yet. -/
def unhandled (config : Config) (source : ℕ) (state : Server) : List Event :=
  takenFrom (.worker (.canRecv source)) ((state.traffic.inbox .canMsgHandler).drop state.handled) ++
    state.traffic.startUp.dispatching.onTheWay EventListener.wants (.worker (.canRecv source))
      (Worker.canMsgHandler.listener config.canBusInterfaces)

/-- The handler handles what is read from the interfaces for the server, once and in the order of each
interface, and nothing else; and the nodes and the logs go as if it handled each message at one instant. -/
theorem messages_handled
    (run : Transition.Run (Steps config framing liquidCan) (new config mapping)
      (early ++ .other (.other (.proceed (.subscribe .canMsgHandler))) :: late) finish) :
    ∃ taken, taken <+: finish.traffic.inbox .canMsgHandler ∧
      (inputs (early ++ .other (.other (.proceed (.subscribe .canMsgHandler))) :: late)).filterMap
        Nodes.Input.received? = taken.filterMap (fun entry => entry.2.message?) ∧
      (∀ entry ∈ taken, entry.2.message?.isSome = true → ∃ source fromInterface,
        entry.1 = .worker (.canRecv source) ∧ config.canBusInterfaces[source]? = some fromInterface) ∧
      (∀ (source : ℕ) (fromInterface : String), config.canBusInterfaces[source]? = some fromInterface →
        takenFrom (.worker (.canRecv source)) taken <+: (reads source late).filterMap framing.forServer ∧
        (Worker.canMsgHandler.channel ∉ finish.traffic.startUp.dispatching.closed →
          takenFrom (.worker (.canRecv source)) taken ++ finish.unhandled config source =
            (reads source late).filterMap framing.forServer)) ∧
      Transition.Run (Nodes.Takes liquidCan) ⟨(NodeManager.new mapping).slot, [], []⟩
        (inputs (early ++ .other (.other (.proceed (.subscribe .canMsgHandler))) :: late)) finish.threads.nodes := by
  obtain ⟨start, before, rest⟩ := Transition.run_append_iff.mp run
  obtain ⟨opened, subscribing, after⟩ := Transition.run_cons_iff.mp rest
  obtain ⟨first, reached, _⟩ := traffic_run before
  obtain ⟨journal, later, sameReads⟩ := traffic_run after
  have seen : Transition.Run (CanTraffic.Steps config framing) start.traffic
      (.other (.proceed (.subscribe .canMsgHandler)) :: journal) finish.traffic :=
    (traffic_next subscribing).append later
  refine ⟨_, List.take_prefix finish.handled _, (inputs_received run).trans (handles_run run).found, ?_, ?_,
    inputs_run run⟩
  · intro entry member isMessage
    exact message_of_queued (reached.append seen) (List.mem_of_mem_take member) isMessage
  · intro source fromInterface there
    obtain ⟨queued, given⟩ := CanTraffic.handed_since reached seen there
    rw [sameReads] at queued given
    have split := Broadcast.takenFrom_inbox (Thread.worker (.canRecv source)) Worker.canMsgHandler.channel
      finish.traffic.startUp.dispatching
    rw [← List.take_append_drop finish.handled (finish.traffic.startUp.dispatching.inbox _),
      Broadcast.takenFrom_append] at split
    constructor
    · rw [← split] at queued
      exact (List.prefix_append _ _).trans queued
    · intro alive
      rw [← given alive, StartUp.account, ← split, List.append_assoc]
      rfl

def tankMessages : List Act :=
  tankLogs ++ (tankSends [3, 9, 0]).take 3

theorem messages_handled_tank : ∃ finish,
    Transition.Run (Steps tankConfig tankFraming .littleEndian) (new tankConfig {}) tankMessages finish ∧
    (finish.unhandled tankConfig 0).length = 1 ∧ ∃ taken, taken <+: finish.traffic.inbox .canMsgHandler ∧
      takenFrom (.worker (.canRecv 0)) taken ++ finish.unhandled tankConfig 0 =
        (reads 0 (tankMessages.drop 16)).filterMap tankFraming.forServer := by
  have evaluated : (tankMessages.foldlM (next tankConfig tankFraming .littleEndian) (new tankConfig {})).map
      (fun state => ((state.unhandled tankConfig 0).length, state.traffic.startUp.dispatching.closed)) =
        some (1, []) := by decide
  obtain ⟨finish, reached, seen⟩ := Option.map_eq_some_iff.mp evaluated
  simp only [Prod.mk.injEq] at seen
  obtain ⟨waiting, allOpen⟩ := seen
  have run := Transition.run_iff_foldlM.mpr reached
  have split : tankMessages = tankMessages.take 15 ++
      .other (.other (.proceed (.subscribe .canMsgHandler))) :: tankMessages.drop 16 := rfl
  rw [split] at run
  obtain ⟨taken, first, _, _, accounted, _⟩ := messages_handled run
  refine ⟨finish, split ▸ run, waiting, taken, first, (accounted 0 "can0" rfl).2 ?_⟩
  rw [allOpen]
  exact List.not_mem_nil

end Correct

end Server

end FerroFlow
