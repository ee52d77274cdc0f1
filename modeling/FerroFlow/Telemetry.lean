import FerroFlow.Server

/-! From the interfaces to the database, and from the heartbeat thread to the interfaces: nothing is lost,
doubled or reordered between the threads of the server. -/

namespace FerroFlow

open Broadcast (takenFrom)

namespace Server

section Channels

variable {config : Config} {framing : LiquidCanFraming} {journal : List CanTraffic.Act} {traffic : CanTraffic}

theorem spawned_of_start {worker : Worker} {event : Event} {start finish : CanTraffic}
    (stepped : CanTraffic.Steps config framing start (.other (.start (.worker worker) event)) finish) :
    worker ∈ finish.startUp.spawned := by
  have moved := CanTraffic.startUp_next stepped
  have allowed := (StartUp.step_cases moved).1
  simp only [StartUp.allows, StartUp.isRunning, Bool.decide_and, Bool.and_eq_true, decide_eq_true_eq] at allowed
  exact StartUp.spawned_next moved allowed.1

theorem silent_until_spawned {worker : Worker} (noReceiver : ∀ index, worker ≠ .canRecv index)
    (run : Transition.Run (CanTraffic.Steps config framing) (CanTraffic.new config) journal traffic)
    (absent : worker ∉ traffic.startUp.spawned) : begun config framing worker journal = [] := by
  have silent := run.history (fun past state => worker ∉ state.startUp.spawned → begun config framing worker past = [])
    ?_ (fun _ => rfl : worker ∉ (CanTraffic.new config).startUp.spawned → begun config framing worker [] = [])
  · exact silent absent
  · intro past start act finish before stepped absent
    rw [begun_append, before fun member => absent (CanTraffic.spawned_next stepped member), List.nil_append]
    cases started : act.event? config framing (.worker worker) with
    | none => rfl
    | some event =>
        exfalso
        rcases start_of_event started with ⟨index, _, _, same, _⟩ | ⟨same, _⟩ | rfl
        · exact noReceiver index (Thread.worker.inj same)
        · cases same
        · exact absent (spawned_of_start stepped)

theorem heard_since (run : Transition.Run (CanTraffic.Steps config framing) (CanTraffic.new config) journal traffic)
    {listener : Worker} (member : listener ∈ traffic.startUp.subscribed) :
    ∃ earlier act later left, journal = earlier ++ act :: later ∧
      Transition.Run (CanTraffic.Steps config framing) (CanTraffic.new config) earlier left ∧
      listener ∉ left.startUp.subscribed ∧ (∀ thread, act.event? config framing thread = none) ∧ ∀ thread,
        let heard := (later.filterMap (CanTraffic.Act.event? config framing thread)).filter
          (listener.listener config.canBusInterfaces).wants
        traffic.startUp.dispatching.queuedFrom thread listener.channel <+: heard ∧
        (listener.channel ∉ traffic.startUp.dispatching.closed →
          traffic.startUp.account config listener thread = heard) := by
  obtain ⟨earlier, act, later, left, right, split, reached, changes, rest, notYet, subscribed⟩ :=
    run.becomes (fun state => listener ∈ state.startUp.subscribed) (by simp [CanTraffic.new, StartUp.new]) member
  have moved := CanTraffic.startUp_next changes
  cases seen : act.startUp? config framing with
  | none =>
      rw [seen] at moved
      rw [moved] at subscribed
      exact absurd subscribed notYet
  | some seenAct =>
      rw [seen] at moved
      have now : listener ∈ seenAct.subscribes := by
        rw [(StartUp.step_cases moved).2.2, List.mem_append] at subscribed
        exact subscribed.resolve_left notYet
      have silent (thread : Thread) : act.event? config framing thread = none := by
        unfold CanTraffic.Act.event?
        rw [seen]
        cases seenAct with
        | proceed instruction =>
            obtain rfl := Instruction.mem_subscribes_iff.mp now
            rfl
        | runnerSubscribes => rfl
        | _ => cases now
      refine ⟨earlier, act, later, left, split, reached, notYet, silent, fun thread => ?_⟩
      have invariant := StartUp.invariant_run (CanTraffic.startUp_run reached) (StartUp.invariant_new config)
      have given := StartUp.account_since invariant moved now (CanTraffic.startUp_run rest) thread
      rw [CanTraffic.dispatched_eq] at given
      exact given.symm

theorem unheard (run : Transition.Run (CanTraffic.Steps config framing) (CanTraffic.new config) journal traffic)
    {listener : Worker} (absent : listener ∉ traffic.startUp.subscribed) (thread : Thread) :
    traffic.startUp.account config listener thread = [] :=
  StartUp.account_absent (StartUp.invariant_run (CanTraffic.startUp_run run) (StartUp.invariant_new config)) absent
    thread

theorem heard_subset (run : Transition.Run (CanTraffic.Steps config framing) (CanTraffic.new config) journal traffic)
    (listener : Worker) (thread : Thread) : traffic.startUp.dispatching.queuedFrom thread listener.channel ⊆
      journal.filterMap (CanTraffic.Act.event? config framing thread) := by
  by_cases member : listener ∈ traffic.startUp.subscribed
  · obtain ⟨earlier, act, later, left, rfl, _, _, _, heard⟩ := heard_since run member
    intro event queued
    obtain ⟨listed, _⟩ := List.mem_filter.mp ((heard thread).1.subset queued)
    obtain ⟨performed, there, started⟩ := List.mem_filterMap.mp listed
    exact List.mem_filterMap.mpr
      ⟨performed, List.mem_append_right _ (List.mem_cons_of_mem _ there), started⟩
  · rw [(List.append_eq_nil_iff.mp (unheard run member thread)).1]
    exact List.nil_subset _

theorem heard_in_full (run : Transition.Run (CanTraffic.Steps config framing) (CanTraffic.new config) journal traffic)
    {listener : Worker} {thread : Thread}
    (silent : ∀ earlier later state, journal = earlier ++ later →
      Transition.Run (CanTraffic.Steps config framing) (CanTraffic.new config) earlier state →
      listener ∉ state.startUp.subscribed → earlier.filterMap (CanTraffic.Act.event? config framing thread) = []) :
    let heard := (journal.filterMap (CanTraffic.Act.event? config framing thread)).filter
      (listener.listener config.canBusInterfaces).wants
    traffic.startUp.dispatching.queuedFrom thread listener.channel <+: heard ∧
    (listener.channel ∉ traffic.startUp.dispatching.closed →
      traffic.startUp.account config listener thread = heard) := by
  by_cases member : listener ∈ traffic.startUp.subscribed
  · obtain ⟨earlier, act, later, left, rfl, reached, notYet, subscribing, heard⟩ := heard_since run member
    rw [List.filterMap_append, silent earlier _ left rfl reached notYet,
      List.filterMap_cons_none (subscribing _), List.nil_append]
    exact heard thread
  · have nothing := unheard run member thread
    dsimp only
    rw [silent journal [] traffic (List.append_nil _).symm run member, nothing,
      (List.append_eq_nil_iff.mp nothing).1]
    exact ⟨List.prefix_refl _, fun _ => rfl⟩

theorem heard_of_spawned
    (run : Transition.Run (CanTraffic.Steps config framing) (CanTraffic.new config) journal traffic)
    {listener speaker : Worker} (noReceiver : ∀ index, speaker ≠ .canRecv index)
    (hears : ∀ past state, Transition.Run (CanTraffic.Steps config framing) (CanTraffic.new config) past state →
      speaker ∈ state.startUp.spawned → listener ∈ state.startUp.subscribed) :
    let heard := (begun config framing speaker journal).filter (listener.listener config.canBusInterfaces).wants
    traffic.startUp.dispatching.queuedFrom (.worker speaker) listener.channel <+: heard ∧
    (listener.channel ∉ traffic.startUp.dispatching.closed →
      traffic.startUp.account config listener (.worker speaker) = heard) :=
  heard_in_full run fun _ _ _ _ reached notYet =>
    silent_until_spawned noReceiver reached fun running => notYet (hears _ _ reached running)

theorem canMsgHandler_program (config : Config) : ∃ early late,
    runWithDependencies config = early ++ .spawn .canMsgHandler :: late ∧ .spawn .canMsgHandler ∉ early ∧
      (config.databaseUrl ≠ "" → .databaseLogger ∈ early.flatMap Instruction.subscribes) := by
  refine ⟨spawnCanThreads config.canBusInterfaces ++ spawnSequenceRunnerThread ++
    (if config.databaseUrl = "" then [] else spawnLoggingWorker) ++ [.subscribe .canMsgHandler],
    .returned [.canMsgHandler] :: spawnHeartbeatThread ++ [.startNodeRegistration], ?_, ?_, ?_⟩
  · simp [runWithDependencies, spawnCanMsgHandlerThread]
  · split <;> simp [spawnCanThreads, receivers, spawnSequenceRunnerThread, spawnLoggingWorker]
  · intro database
    rw [if_neg database]
    simp [spawnLoggingWorker, Instruction.subscribes]

theorem heartbeat_program (config : Config) : ∃ early late,
    runWithDependencies config = early ++ .spawn .heartbeat :: late ∧ .spawn .heartbeat ∉ early ∧
      .canSend ∈ early.flatMap Instruction.subscribes := by
  refine ⟨spawnCanThreads config.canBusInterfaces ++ spawnSequenceRunnerThread ++
    (if config.databaseUrl = "" then [] else spawnLoggingWorker) ++ spawnCanMsgHandlerThread ++
    [.subscribe .heartbeat], [.returned [.heartbeat], .startNodeRegistration], ?_, ?_, ?_⟩
  · simp [runWithDependencies, spawnHeartbeatThread]
  · split <;> simp [spawnCanThreads, receivers, spawnSequenceRunnerThread, spawnLoggingWorker,
      spawnCanMsgHandlerThread]
  · simp only [List.flatMap_append, StartUp.spawnCanThreads_subscribes]
    simp

theorem logger_hears (database : config.databaseUrl ≠ "") (past : List CanTraffic.Act) (state : CanTraffic)
    (run : Transition.Run (CanTraffic.Steps config framing) (CanTraffic.new config) past state)
    (running : .canMsgHandler ∈ state.startUp.spawned) : .databaseLogger ∈ state.startUp.subscribed := by
  obtain ⟨early, late, program, first, subscribes⟩ := canMsgHandler_program config
  exact StartUp.subscribed_of_spawned (StartUp.follows_run (CanTraffic.startUp_run run)) program first running
    _ (subscribes database)

theorem sender_hears (past : List CanTraffic.Act) (state : CanTraffic)
    (run : Transition.Run (CanTraffic.Steps config framing) (CanTraffic.new config) past state)
    (running : .heartbeat ∈ state.startUp.spawned) : .canSend ∈ state.startUp.subscribed := by
  obtain ⟨early, late, program, first, subscribes⟩ := heartbeat_program config
  exact StartUp.subscribed_of_spawned (StartUp.follows_run (CanTraffic.startUp_run run)) program first running
    _ subscribes

end Channels

section Logs

variable {config : Config} {framing : LiquidCanFraming} {liquidCan : LiquidCan} {mapping : Mapping}
  {state : Server} {journal : List CanTraffic.Act}

/-- The logs between the handler and the logging worker: queued, being handed out, and yet to be dispatched. -/
def logsUnderWay (config : Config) (state : Server) : List FieldLog :=
  (takenFrom (.worker .canMsgHandler) ((state.traffic.inbox .databaseLogger).drop state.recorded) ++
    state.traffic.startUp.dispatching.onTheWay EventListener.wants (.worker .canMsgHandler)
      (Worker.databaseLogger.listener config.canBusInterfaces) ++
    state.threads.logged.drop state.logsSent).filterMap Event.log?

theorem wants_log {event : Event} (log : event.log?.isSome = true) (interfaces : List String) :
    (Worker.databaseLogger.listener interfaces).wants event = true := by
  cases event <;> first | rfl | cases log

theorem given_logs (database : config.databaseUrl ≠ "") (accounts : Accounts config framing state journal) :
    state.traffic.startUp.dispatching.queuedFrom (.worker .canMsgHandler) Worker.databaseLogger.channel <+:
      state.threads.logged.take state.logsSent ∧
    (Worker.databaseLogger.channel ∉ state.traffic.startUp.dispatching.closed →
      state.traffic.startUp.account config .databaseLogger (.worker .canMsgHandler) =
        state.threads.logged.take state.logsSent) := by
  have heard := heard_of_spawned accounts.traffic (by simp) (logger_hears database)
  have all : (begun config framing .canMsgHandler journal).filter
      (Worker.databaseLogger.listener config.canBusInterfaces).wants = state.threads.logged.take state.logsSent := by
    rw [accounts.logs, List.filter_eq_self]
    intro event member
    exact wants_log (accounts.logged event (List.mem_of_mem_take member)) _
  rwa [all] at heard

theorem rows_of_handler (accounts : Accounts config framing state journal) :
    state.logging.logs = (takenFrom (.worker .canMsgHandler)
      ((state.traffic.inbox .databaseLogger).take state.recorded)).filterMap Event.log? := by
  rw [accounts.rows.found]
  refine Broadcast.filterMap_takenFrom fun entry member other => ?_
  have queued : entry.2 ∈ state.traffic.startUp.dispatching.queuedFrom entry.1 Worker.databaseLogger.channel := by
    rw [← Broadcast.takenFrom_inbox]
    exact List.mem_map.mpr ⟨entry, List.mem_filter.mpr ⟨List.mem_of_mem_take member, decide_eq_true rfl⟩, rfl⟩
  exact accounts.others entry.1 other _ (heard_subset accounts.traffic _ _ queued)

theorem queue_split (state : Server) : takenFrom (.worker .canMsgHandler)
      ((state.traffic.inbox .databaseLogger).take state.recorded) ++
    takenFrom (.worker .canMsgHandler) ((state.traffic.inbox .databaseLogger).drop state.recorded) =
      state.traffic.startUp.dispatching.queuedFrom (.worker .canMsgHandler) Worker.databaseLogger.channel := by
  rw [← Broadcast.takenFrom_append, List.take_append_drop]
  exact Broadcast.takenFrom_inbox _ _ _

theorem rows_underWay (database : config.databaseUrl ≠ "") (accounts : Accounts config framing state journal)
    (alive : Worker.databaseLogger.channel ∉ state.traffic.startUp.dispatching.closed) :
    state.logging.conn.fieldLogs ++ state.logging.batch ++ state.logsUnderWay config =
      state.threads.logged.filterMap Event.log? := by
  have rows : state.logging.conn.fieldLogs ++ state.logging.batch = _ := rows_of_handler accounts
  unfold logsUnderWay
  rw [rows, ← List.filterMap_append, ← List.append_assoc, ← List.append_assoc, queue_split]
  have given := (given_logs database accounts).2 alive
  unfold StartUp.account at given
  rw [given, List.take_append_drop]

/-- The rows of the database and the waiting batch are the first logs that the handler made, in order and
once; and while the logging worker lives, the others are all on their way to it. -/
theorem telemetry_recorded (database : config.databaseUrl ≠ "") {acts : List Act} {finish : Server}
    (run : Transition.Run (Steps config framing liquidCan) (new config mapping) acts finish) :
    finish.logging.conn.fieldLogs ++ finish.logging.batch <+: finish.threads.logged.filterMap Event.log? ∧
    (Worker.databaseLogger.channel ∉ finish.traffic.startUp.dispatching.closed →
      finish.logging.conn.fieldLogs ++ finish.logging.batch ++ finish.logsUnderWay config =
        finish.threads.logged.filterMap Event.log?) := by
  obtain ⟨journal, _, accounts⟩ := accounts_of_run run
  constructor
  · have rows : finish.logging.conn.fieldLogs ++ finish.logging.batch = _ := rows_of_handler accounts
    have first := (given_logs database accounts).1
    rw [← queue_split] at first
    rw [rows]
    exact (((List.prefix_append _ _).trans first).trans (List.take_prefix _ _)).filterMap _
  · exact rows_underWay database accounts

def tankConfig : Config where
  canBusInterfaces := ["can0"]
  databaseUrl := "postgres://localhost"

def tankFraming : LiquidCanFraming where
  nodeIdInvalid := 0
  nodeIdBroadcast := 63
  nodeIdServer := 1
  idFromRaw := CanTraffic.plainFraming.idFromRaw
  idIntoRaw := CanTraffic.plainFraming.idIntoRaw
  tryFrom frame :=
    match frame.data with
    | [0] => .ok (.nodeInfoAnnouncement ⟨1, 0, 0, 0, "tank"⟩)
    | [1] => .ok (.telemetryValueRegistration ⟨0, .uint16, "pressure"⟩)
    | [2] => .ok (.telemetryGroupDefinition ⟨1, [0]⟩)
    | 3 :: values => .ok (.telemetryGroupUpdate ⟨1, ⟨values⟩⟩)
    | _ => bail "unknown message"
  intoFrame := CanTraffic.plainFraming.intoFrame

def handsOut (thread : Thread) : List Act :=
  List.replicate 5 (.other (.other (.send thread))) ++ [.other (.other (.finish thread))]

def startsUp : List Act :=
  (runWithDependencies tankConfig).map (fun instruction => .other (.other (.proceed instruction))) ++ handsOut .main

def tankSends (data : List UInt8) : List Act :=
  .other (.receive 0 (.frame (.fd ⟨.standard ⟨37, by decide⟩, true, data⟩))) :: handsOut (.worker (.canRecv 0))

def tankRegisters : List Act :=
  tankSends [0] ++ tankSends [1] ++ tankSends [2] ++ [
    .handle 0 ⟨5, 1⟩ (.nodeInfoAnnouncement ⟨1, 0, 0, 0, "tank"⟩),
    .handle 0 ⟨5, 1⟩ (.telemetryValueRegistration ⟨0, .uint16, "pressure"⟩),
    .handle 0 ⟨5, 1⟩ (.telemetryGroupDefinition ⟨1, [0]⟩)]

def tankUpdates (timestamp : DateTime) (pressure : UInt8) : List Act :=
  tankSends [3, pressure, 0] ++
    [.handle timestamp ⟨5, 1⟩ (.telemetryGroupUpdate ⟨1, ⟨[pressure, 0]⟩⟩), .manage .store]

def tankLogs : List Act :=
  startsUp ++ tankRegisters ++ tankUpdates 1 7 ++ [.dispatchLog] ++ handsOut (.worker .canMsgHandler) ++
    [.manage .store, .record (.ok ()), .flush (.ok ())] ++ tankUpdates 2 8

theorem telemetry_recorded_tank : ∃ finish,
    Transition.Run (Steps tankConfig tankFraming .littleEndian) (new tankConfig {}) tankLogs finish ∧
    finish.logging.conn.fieldLogs.map FieldLog.timestamp = [1] ∧ finish.logging.batch.length = 0 ∧
    (finish.logsUnderWay tankConfig).map FieldLog.timestamp = [2] ∧
    finish.logging.conn.fieldLogs ++ finish.logging.batch ++ finish.logsUnderWay tankConfig =
      finish.threads.logged.filterMap Event.log? := by
  have evaluated : (tankLogs.foldlM (next tankConfig tankFraming .littleEndian) (new tankConfig {})).map
      (fun state => (state.logging.conn.fieldLogs.map FieldLog.timestamp, state.logging.batch.length,
        (state.logsUnderWay tankConfig).map FieldLog.timestamp, state.traffic.startUp.dispatching.closed)) =
        some ([1], 0, [2], []) := by decide
  obtain ⟨finish, reached, seen⟩ := Option.map_eq_some_iff.mp evaluated
  simp only [Prod.mk.injEq] at seen
  obtain ⟨rows, waiting, underWay, allOpen⟩ := seen
  have run := Transition.run_iff_foldlM.mpr reached
  refine ⟨finish, run, rows, waiting, underWay, (telemetry_recorded (by decide) run).2 ?_⟩
  rw [allOpen]
  exact List.not_mem_nil

end Logs

section Requests

variable {config : Config} {framing : LiquidCanFraming} {liquidCan : LiquidCan} {mapping : Mapping}
  {state : Server} {journal : List CanTraffic.Act}

theorem wants_command {event : Event} (command : event.isCommand = true) (interfaces : List String) :
    (Worker.canSend.listener interfaces).wants event = true := by
  cases event <;> first | rfl | cases command

theorem given_requests (accounts : Accounts config framing state journal) :
    state.traffic.startUp.dispatching.queuedFrom (.worker .heartbeat) Worker.canSend.channel <+:
      state.threads.requested.take state.requestsSent ∧
    (Worker.canSend.channel ∉ state.traffic.startUp.dispatching.closed →
      state.traffic.startUp.account config .canSend (.worker .heartbeat) =
        state.threads.requested.take state.requestsSent) := by
  have heard := heard_of_spawned accounts.traffic (by simp) sender_hears
  have all : (begun config framing .heartbeat journal).filter
      (Worker.canSend.listener config.canBusInterfaces).wants = state.threads.requested.take state.requestsSent := by
    rw [accounts.requests, List.filter_eq_self]
    intro event member
    exact wants_command (accounts.requested event (List.mem_of_mem_take member)) _
  rwa [all] at heard

def requestsUnderWay (config : Config) (destination : ℕ) (state : Server) : List Event :=
  takenFrom (.worker .heartbeat) (state.traffic.beingWritten destination) ++
    state.traffic.unsent config (.worker .heartbeat) ++ state.threads.requested.drop state.requestsSent

/-- The heartbeat requests that the node manager has made are handed to every interface, in order and once;
and while the send thread lives, those not handed to it yet are on their way. -/
theorem heartbeats_written {acts : List Act} {finish : Server}
    (run : Transition.Run (Steps config framing liquidCan) (new config mapping) acts finish) {destination : ℕ}
    {interface : String} (there : config.canBusInterfaces[destination]? = some interface) :
    finish.traffic.framesTriedTo destination (.worker .heartbeat) <+:
      finish.threads.requested.filterMap (framing.outgoing interface) ∧
    (Worker.canSend.channel ∉ finish.traffic.startUp.dispatching.closed →
      finish.traffic.framesTriedTo destination (.worker .heartbeat) ++
          (finish.requestsUnderWay config destination).filterMap (framing.outgoing interface) =
        finish.threads.requested.filterMap (framing.outgoing interface)) := by
  obtain ⟨journal, _, accounts⟩ := accounts_of_run run
  obtain ⟨first, whole⟩ := given_requests accounts
  have ordered := CanTraffic.inOrder_run accounts.traffic (CanTraffic.inOrder_new config framing)
  constructor
  · exact (ordered.first there _).trans ((first.trans (List.take_prefix _ _)).filterMap _)
  · intro alive
    have complete := ordered.complete there (.worker .heartbeat)
    rw [whole alive] at complete
    unfold requestsUnderWay
    rw [List.filterMap_append, ← List.append_assoc, complete, ← List.filterMap_append, List.take_append_drop]

def tankBeats : List Act :=
  startsUp ++ tankRegisters ++ [.manage .beginRound, .manage (.visit 5 1), .dispatchRequest] ++
    handsOut (.worker .heartbeat) ++
    [.other .take, .other (.write true), .other .nextEvent, .other .take, .other (.write true),
      .manage .endRound, .manage .beginRound, .manage (.visit 5 2), .dispatchRequest]

theorem heartbeats_written_tank : ∃ finish,
    Transition.Run (Steps tankConfig tankFraming .littleEndian) (new tankConfig {}) tankBeats finish ∧
    (finish.traffic.framesTriedTo 0 (.worker .heartbeat)).length = 1 ∧
    (finish.requestsUnderWay tankConfig 0).length = 1 ∧
    finish.traffic.framesTriedTo 0 (.worker .heartbeat) ++
        (finish.requestsUnderWay tankConfig 0).filterMap (tankFraming.outgoing "can0") =
      finish.threads.requested.filterMap (tankFraming.outgoing "can0") := by
  have evaluated : (tankBeats.foldlM (next tankConfig tankFraming .littleEndian) (new tankConfig {})).map
      (fun state => ((state.traffic.framesTriedTo 0 (.worker .heartbeat)).length,
        (state.requestsUnderWay tankConfig 0).length, state.traffic.startUp.dispatching.closed)) =
        some (1, 1, []) := by decide
  obtain ⟨finish, reached, seen⟩ := Option.map_eq_some_iff.mp evaluated
  simp only [Prod.mk.injEq] at seen
  obtain ⟨written, underWay, allOpen⟩ := seen
  have run := Transition.run_iff_foldlM.mpr reached
  refine ⟨finish, run, written, underWay, ?_⟩
  have there : tankConfig.canBusInterfaces[0]? = some "can0" := rfl
  refine (heartbeats_written run there).2 ?_
  rw [allOpen]
  exact List.not_mem_nil

end Requests

end Server

end FerroFlow
