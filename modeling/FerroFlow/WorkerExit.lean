import FerroFlow.Shutdown

/-! How the logging worker ends. The dispatcher holds the only sender of the worker's channel, and goes no
earlier than the thread scope of the server ends; so the worker leaves at the first shutdown, and its
receive call never reports a closed channel. -/

namespace FerroFlow

namespace LoggingWorker

def iterateTraced (worker : LoggingWorker) (iteration : Iteration) :
    LoggingWorker × List (List FieldLog) :=
  let flush (worker : LoggingWorker) := ((worker.flushBatch iteration.answer).worker, [worker.batch])
  let flushed := if worker.batch.isEmpty then (worker, []) else flush worker
  match iteration.received with
  | .ok (.nodeFieldUpdated log) =>
      let worker := { worker with batch := worker.batch ++ [log] }
      if worker.batch.length < batchSizeLimit then (worker, []) else flush worker
  | .ok .shutdown => ({ flushed.1 with running := false }, flushed.2)
  | .ok _ => (worker, [])
  | .error .timeout => flushed
  | .error .disconnected =>
      if worker.batch.isEmpty then (worker, []) else ({ flushed.1 with running := false }, flushed.2)

def flushes (worker : LoggingWorker) (iteration : Iteration) : List (List FieldLog) :=
  (worker.iterateTraced iteration).2

theorem iterateTraced_worker (worker : LoggingWorker) (iteration : Iteration) :
    (worker.iterateTraced iteration).1 = worker.iterate iteration := by
  obtain ⟨received, answer⟩ := iteration
  cases received with
  | ok event =>
      cases event with
      | nodeFieldUpdated log =>
          simp only [iterateTraced, iterate]
          split <;> rfl
      | shutdown =>
          simp only [iterateTraced, iterate]
          split <;> rfl
      | _ => rfl
  | error failure =>
      cases failure with
      | timeout =>
          simp only [iterateTraced, iterate]
          split <;> rfl
      | disconnected =>
          simp only [iterateTraced, iterate]
          split <;> rfl

def Iteration.Closes (iteration : Iteration) : Prop :=
  iteration.received = .ok .shutdown ∨ iteration.received = .error .disconnected

theorem flushes_le_one (worker : LoggingWorker) (iteration : Iteration) :
    (worker.flushes iteration).length ≤ 1 := by
  obtain ⟨received, answer⟩ := iteration
  cases received with
  | ok event =>
      cases event with
      | nodeFieldUpdated log =>
          simp only [flushes, iterateTraced]
          split <;> simp
      | shutdown =>
          simp only [flushes, iterateTraced]
          split <;> simp
      | _ => simp [flushes, iterateTraced]
  | error failure =>
      cases failure with
      | timeout =>
          simp only [flushes, iterateTraced]
          split <;> simp
      | disconnected =>
          simp only [flushes, iterateTraced]
          split <;> simp

def Iteration.isShutdown (iteration : Iteration) : Bool :=
  match iteration.received with
  | .ok .shutdown => true
  | _ => false

theorem isShutdown_iff {iteration : Iteration} : iteration.isShutdown = true ↔ iteration.received = .ok .shutdown := by
  unfold Iteration.isShutdown
  split
  · next same => simp [same]
  · next other => simpa using other

theorem leaves_of_shutdown (worker : LoggingWorker) {iteration : Iteration}
    (shutdown : iteration.received = .ok .shutdown) : (worker.iterate iteration).running = false := by
  obtain ⟨received, answer⟩ := iteration
  simp only at shutdown
  subst shutdown
  rfl

theorem run_of_stopped {worker next : LoggingWorker} {iterations : List Iteration}
    (run : Transition.Run Steps worker iterations next) (stopped : worker.running = false) :
    iterations = [] ∧ next = worker := by
  cases run with
  | nil => exact ⟨rfl, rfl⟩
  | cons first rest =>
      rw [(iterate_of_steps first).1] at stopped
      cases stopped

end LoggingWorker

namespace CanTraffic

variable {config : Config} {framing : LiquidCanFraming} {start finish : CanTraffic} {act : Act}

theorem done_next (stepped : Steps config framing start act finish) (done : start.startUp.program = []) :
    finish.startUp.program = [] ∧ finish.startUp.spawned = start.startUp.spawned := by
  have moved := startUp_next stepped
  cases visible : act.startUp? config framing with
  | none =>
      rw [visible] at moved
      rw [moved]
      exact ⟨done, rfl⟩
  | some seen =>
      rw [visible] at moved
      rcases StartUp.program_next moved with ⟨instruction, _, program, _⟩ | ⟨_, program, spawned⟩
      · rw [done] at program
        cases program
      · exact ⟨program.elim (fun same => same.trans done) id, spawned⟩

end CanTraffic

/-- The server in its thread scope. The dispatcher is dropped, with the senders it holds, after the scope. -/
structure ThreadScope where
  server : Server
  dropped : Bool := false

namespace ThreadScope

inductive Act
  | server (act : Server.Act)
  | drop
  | disconnected (answer : Except String Unit)

/-- The scope waits for its threads. How the sequence runner comes to its end is not followed here. -/
def isJoined (scope : ThreadScope) : Bool :=
  scope.server.traffic.startUp.program.isEmpty ∧
    (scope.server.traffic.startUp.dispatching.walks.lookup .main).isNone ∧
    scope.server.traffic.startUp.spawned.all fun worker => worker = .sequenceRunner ∨ !scope.server.runs worker

/-- A worker's sender is moved into the dispatcher when the worker is subscribed. -/
def hasSender (scope : ThreadScope) (worker : Worker) : Bool :=
  !scope.dropped ∧ worker ∈ scope.server.traffic.startUp.subscribed

def isTimeout : Server.Act → Bool
  | .flush _ => true
  | _ => false

section System

variable (config : Config) (framing : LiquidCanFraming) (liquidCan : LiquidCan)

def disconnect (answer : Except String Unit) (scope : ThreadScope) : Option ThreadScope := do
  let logging ← scope.server.logging.step { received := .error .disconnected, answer }
  if scope.server.isIdle .databaseLogger ∧ ¬ scope.hasSender .databaseLogger ∧
      (scope.server.nextFor .databaseLogger scope.server.recorded).isNone then
    some { scope with server := { scope.server with logging } }
  else none

def next (scope : ThreadScope) : Act → Option ThreadScope
  | .server act =>
      if isTimeout act → scope.hasSender .databaseLogger then
        (scope.server.next config framing liquidCan act).map fun server => { scope with server }
      else none
  | .drop => if scope.isJoined then some { scope with dropped := true } else none
  | .disconnected answer => scope.disconnect answer

def Steps (start : ThreadScope) (act : Act) (finish : ThreadScope) : Prop :=
  start.next config framing liquidCan act = some finish

def new (mapping : Mapping) : ThreadScope where
  server := .new config mapping

end System

def iteration? (scope : ThreadScope) : Act → Option LoggingWorker.Iteration
  | .server (.record answer) => (scope.server.nextFor .databaseLogger scope.server.recorded).map fun event =>
      { received := .ok event, answer }
  | .server (.flush answer) => some { received := .error .timeout, answer }
  | .disconnected answer => some { received := .error .disconnected, answer }
  | _ => none

def note (scope : ThreadScope) (act : Act) (_ : ThreadScope) (iterations : List LoggingWorker.Iteration) :
    List LoggingWorker.Iteration :=
  iterations ++ (scope.iteration? act).toList

section Exit

variable {config : Config} {framing : LiquidCanFraming} {liquidCan : LiquidCan} {mapping : Mapping}
  {scope after : ThreadScope} {act : Act} {iterations : List LoggingWorker.Iteration}

structure Held (config : Config) (framing : LiquidCanFraming) (scope : ThreadScope) : Prop where
  traffic : ∃ journal, Transition.Run (CanTraffic.Steps config framing) (CanTraffic.new config) journal
    scope.server.traffic
  dropped : scope.dropped = true → scope.server.traffic.startUp.program = [] ∧
    (.databaseLogger ∈ scope.server.traffic.startUp.spawned → scope.server.logging.running = false)

theorem held_new (config : Config) (framing : LiquidCanFraming) (mapping : Mapping) :
    Held config framing (new config mapping) where
  traffic := ⟨[], Transition.Run.nil _⟩
  dropped impossible := by cases impossible

theorem logger_program (database : config.databaseUrl ≠ "") : ∃ early late,
    runWithDependencies config = early ++ .spawn .databaseLogger :: late ∧ .spawn .databaseLogger ∉ early ∧
      .databaseLogger ∈ early.flatMap Instruction.subscribes := by
  refine ⟨spawnCanThreads config.canBusInterfaces ++ spawnSequenceRunnerThread ++
    [.attempt, .subscribe .databaseLogger], .returned [.databaseLogger] :: spawnCanMsgHandlerThread ++
    spawnHeartbeatThread ++ [.startNodeRegistration], ?_, ?_, ?_⟩
  · simp [runWithDependencies, spawnLoggingWorker, database]
  · simp [spawnCanThreads, receivers, spawnSequenceRunnerThread]
  · simp [Instruction.subscribes]

theorem spawn_logger_not_mem (none : config.databaseUrl = "") :
    .spawn .databaseLogger ∉ runWithDependencies config := by
  simp [runWithDependencies, none, spawnCanThreads, receivers, spawnSequenceRunnerThread, spawnCanMsgHandlerThread,
    spawnHeartbeatThread]

theorem logger_subscribed {journal : List CanTraffic.Act} {traffic : CanTraffic}
    (run : Transition.Run (CanTraffic.Steps config framing) (CanTraffic.new config) journal traffic)
    (spawned : .databaseLogger ∈ traffic.startUp.spawned) : .databaseLogger ∈ traffic.startUp.subscribed := by
  have follows := StartUp.follows_run (CanTraffic.startUp_run run)
  by_cases none : config.databaseUrl = ""
  · rw [follows.spawned, List.mem_flatMap] at spawned
    obtain ⟨instruction, member, spawns⟩ := spawned
    have planned := follows.done.subset member
    cases instruction with
    | spawn worker =>
        obtain rfl := List.mem_singleton.mp spawns
        exact absurd planned (spawn_logger_not_mem none)
    | _ => cases spawns
  · obtain ⟨early, late, program, first, subscribes⟩ := logger_program none
    exact StartUp.subscribed_of_spawned follows program first spawned _ subscribes

theorem Held.hasSender (held : Held config framing scope)
    (spawned : .databaseLogger ∈ scope.server.traffic.startUp.spawned) (running : scope.server.logging.running = true) :
    scope.hasSender .databaseLogger = true := by
  obtain ⟨journal, run⟩ := held.traffic
  cases dropped : scope.dropped with
  | false => simp [ThreadScope.hasSender, dropped, logger_subscribed run spawned]
  | true =>
      rw [(held.dropped dropped).2 spawned] at running
      cases running

theorem spawned_of_isIdle {server : Server} {worker : Worker} (idle : server.isIdle worker = true) :
    worker ∈ server.traffic.startUp.spawned := by
  simp only [Server.isIdle, Bool.decide_and, Bool.and_eq_true, decide_eq_true_eq] at idle
  exact idle.1

inductive Effect (config : Config) (framing : LiquidCanFraming) (liquidCan : LiquidCan) (scope : ThreadScope) :
    Act → ThreadScope → Prop
  | server {act server} : Server.Steps config framing liquidCan scope.server act server →
      Effect config framing liquidCan scope (.server act) { scope with server }
  | drop : scope.isJoined = true → Effect config framing liquidCan scope .drop { scope with dropped := true }
  | disconnected {answer logging} : .databaseLogger ∈ scope.server.traffic.startUp.spawned →
      scope.hasSender .databaseLogger = false →
      scope.server.logging.Steps { received := .error .disconnected, answer } logging →
      Effect config framing liquidCan scope (.disconnected answer)
        { scope with server := { scope.server with logging } }

theorem effect_of_steps (stepped : Steps config framing liquidCan scope act after) :
    Effect config framing liquidCan scope act after := by
  cases act with
  | server act =>
      obtain ⟨_, stepped⟩ := Option.ite_none_right_eq_some.mp stepped
      obtain ⟨server, moved, rfl⟩ := Option.map_eq_some_iff.mp stepped
      exact Effect.server moved
  | drop =>
      obtain ⟨joined, same⟩ := Option.ite_none_right_eq_some.mp stepped
      obtain rfl := Option.some.inj same
      exact Effect.drop joined
  | disconnected answer =>
      simp only [Steps, next, disconnect, Option.bind_eq_bind, Option.bind_eq_some_iff,
        Option.ite_none_right_eq_some, Option.some.injEq] at stepped
      obtain ⟨logging, moved, ⟨idle, unheld, _⟩, rfl⟩ := stepped
      exact Effect.disconnected (spawned_of_isIdle idle) (Bool.not_eq_true _ ▸ unheld) moved

theorem done_next {server next : Server} {act : Server.Act}
    (stepped : Server.Steps config framing liquidCan server act next)
    (done : server.traffic.startUp.program = []) :
    next.traffic.startUp.program = [] ∧ next.traffic.startUp.spawned = server.traffic.startUp.spawned :=
  (Server.traffic_next stepped).invariant
    (fun traffic => traffic.startUp.program = [] ∧ traffic.startUp.spawned = server.traffic.startUp.spawned)
    (fun _ _ _ before moved => by
      obtain ⟨program, spawned⟩ := CanTraffic.done_next moved before.1
      exact ⟨program, spawned.trans before.2⟩) ⟨done, rfl⟩

theorem stopped_of_isJoined (joined : scope.isJoined = true) : scope.server.traffic.startUp.program = [] ∧
    (.databaseLogger ∈ scope.server.traffic.startUp.spawned → scope.server.logging.running = false) := by
  simp only [isJoined, Bool.decide_and, Bool.and_eq_true, decide_eq_true_eq, List.isEmpty_iff,
    List.all_eq_true] at joined
  obtain ⟨done, _, joined⟩ := joined
  refine ⟨done, fun spawned => ?_⟩
  simpa [Server.runs] using joined _ spawned

theorem held_next (held : Held config framing scope) (stepped : Steps config framing liquidCan scope act after) :
    Held config framing after := by
  cases effect_of_steps stepped with
  | server moved =>
      constructor
      · obtain ⟨journal, run⟩ := held.traffic
        exact ⟨_, run.append (Server.traffic_next moved)⟩
      · intro dropped
        obtain ⟨done, stopped⟩ := held.dropped dropped
        obtain ⟨program, spawned⟩ := done_next moved done
        refine ⟨program, fun member => ?_⟩
        have still : scope.server.runs .databaseLogger = false := stopped (spawned ▸ member)
        exact Server.runs_next moved still
  | drop joined => exact ⟨held.traffic, fun _ => stopped_of_isJoined joined⟩
  | disconnected spawned unheld moved =>
      rw [held.hasSender spawned (LoggingWorker.iterate_of_steps moved).1] at unheld
      cases unheld

theorem held_run {acts : List Act}
    (run : Transition.Run (Steps config framing liquidCan) (new config mapping) acts after) :
    Held config framing after :=
  run.invariant (Held config framing) (fun _ _ _ => held_next) (held_new config framing mapping)

theorem logging_next (stepped : Steps config framing liquidCan scope act after) :
    Transition.Run LoggingWorker.Steps scope.server.logging (scope.iteration? act).toList after.server.logging := by
  cases effect_of_steps stepped with
  | server moved =>
      cases Server.effect_of_steps moved with
      | record waiting recorded =>
          simp only [iteration?, waiting, Option.map_some, Option.toList_some]
          exact Transition.Run.cons recorded (Transition.Run.nil _)
      | flush _ flushed => exact Transition.Run.cons flushed (Transition.Run.nil _)
      | _ => exact Transition.Run.nil _
  | drop _ => exact Transition.Run.nil _
  | disconnected _ _ moved => exact Transition.Run.cons moved (Transition.Run.nil _)

theorem connected_next (held : Held config framing scope) (stepped : Steps config framing liquidCan scope act after)
    {iteration : LoggingWorker.Iteration} (makes : scope.iteration? act = some iteration) :
    iteration.received ≠ .error .disconnected := by
  cases effect_of_steps stepped with
  | @server act _ _ =>
      cases act with
      | record answer =>
          obtain ⟨event, _, rfl⟩ := Option.map_eq_some_iff.mp makes
          simp
      | flush answer =>
          obtain rfl := Option.some.inj makes
          simp
      | _ => cases makes
  | drop _ => cases makes
  | disconnected spawned unheld moved =>
      rw [held.hasSender spawned (LoggingWorker.iterate_of_steps moved).1] at unheld
      cases unheld

theorem iterations_run {acts : List Act} {start finish : ThreadScope × List LoggingWorker.Iteration}
    (run : Transition.Run (Transition.Watched note (Steps config framing liquidCan)) start acts finish)
    (held : Held config framing start.1) (began : Transition.Run LoggingWorker.Steps {} start.2 start.1.server.logging)
    (connected : ∀ iteration ∈ start.2, iteration.received ≠ .error .disconnected) :
    Transition.Run LoggingWorker.Steps {} finish.2 finish.1.server.logging ∧
      ∀ iteration ∈ finish.2, iteration.received ≠ .error .disconnected := by
  refine (run.invariant (fun seen => Held config framing seen.1 ∧
    Transition.Run LoggingWorker.Steps {} seen.2 seen.1.server.logging ∧
    ∀ iteration ∈ seen.2, iteration.received ≠ .error .disconnected) ?_ ⟨held, began, connected⟩).2
  rintro ⟨scope, iterations⟩ act ⟨after, later⟩ ⟨held, began, connected⟩ ⟨stepped, noted⟩
  simp only at noted
  subst noted
  refine ⟨held_next held stepped, began.append (logging_next stepped), List.forall_mem_append.mpr ⟨connected, ?_⟩⟩
  intro iteration member
  exact connected_next held stepped (Option.mem_toList.mp member)

/-- Whatever the worker received, was answered and had in its batch before: the iteration that receives the
shutdown is its last. -/
theorem worker_stops {acts : List Act} {finish : ThreadScope} (run : Transition.Run
      (Transition.Watched note (Steps config framing liquidCan)) (new config mapping, []) acts (finish, iterations)) :
    Transition.Run LoggingWorker.Steps {} iterations finish.server.logging ∧
    (∀ before iteration rest start, iterations = before ++ iteration :: rest →
      Transition.Run LoggingWorker.Steps {} before start → iteration.Closes →
        (start.flushes iteration).length ≤ 1 ∧ (start.iterate iteration).running = false ∧ rest = [] ∧
          finish.server.logging.running = false) ∧
    (∀ iteration ∈ iterations, iteration.received ≠ .error .disconnected) ∧
    (.databaseLogger ∈ finish.server.traffic.startUp.spawned → finish.hasSender .databaseLogger = false →
      finish.server.logging.running = false) := by
  obtain ⟨made, connected⟩ := iterations_run run (held_new config framing mapping) (Transition.Run.nil _) (by simp)
  refine ⟨made, ?_, connected, ?_⟩
  · rintro before iteration rest start rfl past closes
    have shutdown := closes.resolve_right (connected iteration (by simp))
    obtain ⟨middle, earlier, later⟩ := Transition.run_append_iff.mp made
    obtain rfl := Transition.run_unique earlier past
    obtain ⟨next, stepped, after⟩ := Transition.run_cons_iff.mp later
    obtain ⟨_, rfl⟩ := LoggingWorker.iterate_of_steps stepped
    have left := LoggingWorker.leaves_of_shutdown middle shutdown
    obtain ⟨rfl, same⟩ := LoggingWorker.run_of_stopped after left
    exact ⟨LoggingWorker.flushes_le_one middle iteration, left, rfl, same ▸ left⟩
  · intro spawned unheld
    by_contra running
    rw [(held_run run.unwatched).hasSender spawned (Bool.not_eq_false _ ▸ running)] at unheld
    cases unheld

/-- One log waits in the batch when the server is shut down, and the last flush fails. -/
def tankLeaves : List Server.Act :=
  Server.startsUp ++ Server.tankRegisters ++ Server.tankUpdates 1 7 ++ [.dispatchLog] ++
    Server.handsOut (.worker .canMsgHandler) ++
    [.manage .store, .record (.ok ()), .other (.other (.start (.outside 0) .shutdown))] ++
    Server.handsOut (.outside 0) ++
    [.record (.error "connection lost"), .other (.stopReceiving 0), .endHandling, .manage .beginRound,
      .manage (.visit 5 0), .dispatchRequest] ++ Server.handsOut (.worker .heartbeat) ++
    [.manage .endRound, .endBeating, .other .take, .other (.write true), .other .nextEvent, .other .take]

def tankEnds : List Act :=
  tankLeaves.map .server ++ [.drop]

theorem worker_stops_tank : ∃ finish first last start,
    Transition.Run (Transition.Watched note (Steps Server.tankConfig Server.tankFraming .littleEndian))
      (new Server.tankConfig {}, []) tankEnds (finish, [first, last]) ∧
    Transition.Run LoggingWorker.Steps {} [first] start ∧ finish.server.logging.batch.length = 1 ∧
    (start.flushes last).length ≤ 1 ∧ (start.iterate last).running = false ∧
    finish.hasSender .databaseLogger = false ∧ finish.server.logging.running = false := by
  have evaluated : (tankEnds.foldlM (fun seen act =>
      (next Server.tankConfig Server.tankFraming .littleEndian seen.1 act).map fun after =>
        (after, note seen.1 act after seen.2)) (new Server.tankConfig {}, [])).any (fun seen =>
      !seen.1.hasSender .databaseLogger && decide (.databaseLogger ∈ seen.1.server.traffic.startUp.spawned) &&
        decide (seen.1.server.logging.batch.length = 1) &&
        decide (seen.2.map LoggingWorker.Iteration.isShutdown = [false, true])) = true := by decide +kernel
  obtain ⟨⟨finish, iterations⟩, reached, seen⟩ := (Option.any_eq_true _ _).mp evaluated
  simp only [Bool.and_eq_true, Bool.not_eq_true', decide_eq_true_eq] at seen
  obtain ⟨⟨⟨unheld, spawned⟩, waiting⟩, made⟩ := seen
  obtain ⟨first, rest, rfl, _, made⟩ := List.map_eq_cons_iff.mp made
  obtain ⟨last, none, rfl, shutdown, empty⟩ := List.map_eq_cons_iff.mp made
  obtain rfl := List.map_eq_nil_iff.mp empty
  have run := Transition.run_watched_iff_foldlM.mpr reached
  obtain ⟨worker, leaves, _, stops⟩ := worker_stops run
  obtain ⟨start, past, _⟩ := Transition.run_append_iff.mp (show Transition.Run _ _ ([first] ++ [last]) _ from worker)
  obtain ⟨flushes, left, _, _⟩ := leaves [first] last [] start rfl past
    (Or.inl (LoggingWorker.isShutdown_iff.mp shutdown))
  exact ⟨finish, first, last, start, run, past, waiting, flushes, left, unheld, stops spawned unheld⟩

end Exit

end ThreadScope

end FerroFlow
