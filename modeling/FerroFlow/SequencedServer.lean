import FerroFlow.RunnerThread
import FerroFlow.Telemetry

/-! The server and its sequences: the runner takes its events from its own queue, and the threads it spawns
read the node manager and dispatch what their settings come to. -/

namespace FerroFlow

/-- The thread a sequence runs in. The other threads of the process have the odd numbers. -/
def sequenceThread (index : ℕ) : Thread := .outside (2 * index)

def Thread.sequence? : Thread → Option ℕ
  | .outside number => if number % 2 = 0 then some (number / 2) else none
  | _ => none

theorem Thread.sequence?_eq_some {thread : Thread} {index : ℕ} :
    thread.sequence? = some index ↔ thread = sequenceThread index := by
  unfold Thread.sequence? sequenceThread
  cases thread with
  | outside number =>
      simp only [Option.ite_none_right_eq_some, Option.some.injEq, Thread.outside.injEq]
      omega
  | _ => simp

theorem Thread.sequence?_sequenceThread (index : ℕ) : (sequenceThread index).sequence? = some index :=
  Thread.sequence?_eq_some.mpr rfl

def SequenceThread.commands (thread : SequenceThread) : List Event :=
  thread.executed.flatMap Execution.events

def SequenceRunner.commandsOf (runner : SequenceRunner) (index : ℕ) : List Event :=
  ((runner.scope[index]?).map SequenceThread.commands).getD []

/-- `received` tells how far the runner has come in its queue, `sent` how much of its commands each sequence
has dispatched. -/
structure SequencedServer where
  server : Server
  runner : SequenceRunner
  received : ℕ := 0
  sent : ℕ → ℕ := fun _ => 0

namespace SequencedServer

inductive Act
  | server (act : Server.Act)
  | receive
  | proceed
  | advance (index : ℕ)
  | dispatchCommand (index : ℕ)
  | tick (elapsed : ℕ)
  | leave

/-- The runner and the sequences do nothing but what is below. -/
def isOther : Server.Act → Bool
  | .other (.other (.start (.worker .sequenceRunner) _)) => false
  | .other (.other (.start thread _)) => thread.sequence?.isNone
  | .other (.other (.close .sequenceRunner)) => false
  | _ => true

def commandsOf (index : ℕ) (state : SequencedServer) : List Event :=
  state.runner.commandsOf index

def isIdle (index : ℕ) (state : SequencedServer) : Bool :=
  (state.server.traffic.startUp.dispatching.walks.lookup (sequenceThread index)).isNone

def isReady (index : ℕ) (state : SequencedServer) : Bool :=
  state.isIdle index ∧ state.sent index = (state.commandsOf index).length

section System

variable (config : Config) (framing : LiquidCanFraming) (liquidCan : LiquidCan)

/-- The runner and the sequences see the node manager as the server has it. -/
def stepServer (act : Server.Act) (state : SequencedServer) : Option SequencedServer := do
  let server ← state.server.next config framing liquidCan act
  let runner ← state.runner.step (.nodes server.threads.manager)
  some { state with server, runner }

def receive (state : SequencedServer) : Option SequencedServer := do
  let event ← state.server.nextFor .sequenceRunner state.received
  let runner ← state.runner.step (.receive event)
  some { state with runner, received := state.received + 1 }

def stepRunner (move : SequenceRunner.Move) (state : SequencedServer) : Option SequencedServer :=
  (state.runner.step move).map fun runner => { state with runner }

def dispatchCommand (index : ℕ) (state : SequencedServer) : Option SequencedServer := do
  let event ← (state.commandsOf index)[state.sent index]?
  let server ← state.server.next config framing liquidCan (.other (.other (.start (sequenceThread index) event)))
  some { state with server, sent := Function.update state.sent index (state.sent index + 1) }

def leave (state : SequencedServer) : Option SequencedServer :=
  if state.runner.control = .stopped then
    (state.server.next config framing liquidCan (.other (.other (.close .sequenceRunner)))).map
      fun server => { state with server }
  else none

def next (state : SequencedServer) : Act → Option SequencedServer
  | .server act => if isOther act then state.stepServer config framing liquidCan act else none
  | .receive => state.receive
  | .proceed => state.stepRunner .proceed
  | .advance index => if state.isReady index then state.stepRunner (.thread index) else none
  | .dispatchCommand index => state.dispatchCommand config framing liquidCan index
  | .tick elapsed => state.stepRunner (.tick elapsed)
  | .leave => state.leave config framing liquidCan

def Steps (start : SequencedServer) (act : Act) (finish : SequencedServer) : Prop :=
  start.next config framing liquidCan act = some finish

def new (mapping : Mapping) (clock : Instant) : SequencedServer where
  server := Server.new config mapping
  runner := SequenceRunner.new (NodeManager.new mapping) clock

inductive Effect (state : SequencedServer) : Act → SequencedServer → Prop
  | server {act server runner} : isOther act = true → Server.Steps config framing liquidCan state.server act server →
      state.runner.Steps (.nodes server.threads.manager) runner →
      Effect state (.server act) { state with server, runner }
  | receive {event runner} : state.server.nextFor .sequenceRunner state.received = some event →
      state.runner.Steps (.receive event) runner →
      Effect state .receive { state with runner, received := state.received + 1 }
  | proceed {runner} : state.runner.Steps .proceed runner → Effect state .proceed { state with runner }
  | advance {index runner} : state.isReady index = true → state.runner.Steps (.thread index) runner →
      Effect state (.advance index) { state with runner }
  | dispatchCommand {index event server} : (state.commandsOf index)[state.sent index]? = some event →
      Server.Steps config framing liquidCan state.server (.other (.other (.start (sequenceThread index) event)))
        server →
      Effect state (.dispatchCommand index)
        { state with server, sent := Function.update state.sent index (state.sent index + 1) }
  | tick {elapsed runner} : state.runner.Steps (.tick elapsed) runner →
      Effect state (.tick elapsed) { state with runner }
  | leave {server} : state.runner.control = .stopped →
      Server.Steps config framing liquidCan state.server (.other (.other (.close .sequenceRunner))) server →
      Effect state .leave { state with server }

end System

section Parts

variable {config : Config} {framing : LiquidCanFraming} {liquidCan : LiquidCan} {state after : SequencedServer}
  {act : Act}

theorem stepRunner_cases {move : SequenceRunner.Move} (stepped : state.stepRunner move = some after) :
    ∃ runner, state.runner.Steps move runner ∧ after = { state with runner } := by
  obtain ⟨runner, moved, rfl⟩ := Option.map_eq_some_iff.mp stepped
  exact ⟨runner, moved, rfl⟩

theorem effect_of_steps (stepped : Steps config framing liquidCan state act after) :
    Effect config framing liquidCan state act after := by
  cases act with
  | server act =>
      simp only [Steps, next, stepServer, Option.bind_eq_bind, Option.ite_none_right_eq_some, Option.bind_eq_some_iff,
        Option.some.injEq] at stepped
      obtain ⟨other, server, moved, runner, seen, rfl⟩ := stepped
      exact Effect.server other moved seen
  | receive =>
      simp only [Steps, next, receive, Option.bind_eq_bind, Option.bind_eq_some_iff, Option.some.injEq] at stepped
      obtain ⟨event, waiting, runner, moved, rfl⟩ := stepped
      exact Effect.receive waiting moved
  | proceed =>
      have stepped : state.stepRunner .proceed = some after := stepped
      obtain ⟨runner, moved, rfl⟩ := stepRunner_cases stepped
      exact Effect.proceed moved
  | advance index =>
      obtain ⟨ready, stepped⟩ := Option.ite_none_right_eq_some.mp stepped
      obtain ⟨runner, moved, rfl⟩ := stepRunner_cases stepped
      exact Effect.advance ready moved
  | dispatchCommand index =>
      simp only [Steps, next, dispatchCommand, Option.bind_eq_bind, Option.bind_eq_some_iff, Option.some.injEq]
        at stepped
      obtain ⟨event, due, server, moved, rfl⟩ := stepped
      exact Effect.dispatchCommand due moved
  | tick elapsed =>
      have stepped : state.stepRunner (.tick elapsed) = some after := stepped
      obtain ⟨runner, moved, rfl⟩ := stepRunner_cases stepped
      exact Effect.tick moved
  | leave =>
      obtain ⟨stopped, stepped⟩ := Option.ite_none_right_eq_some.mp stepped
      obtain ⟨server, moved, rfl⟩ := Option.map_eq_some_iff.mp stepped
      exact Effect.leave stopped moved

end Parts

end SequencedServer

namespace CanTraffic

section Idle

variable {config : Config} {framing : LiquidCanFraming} {state after : CanTraffic} {act : Act} {thread : Thread}

theorem moves_next (stepped : Steps config framing state act after) :
    Transition.Run Dispatching.Steps state.startUp.dispatching
      ((act.startUp? config framing).bind (StartUp.Act.move? config framing.nodeIdBroadcast)).toList
      after.startUp.dispatching := by
  have moved := startUp_next stepped
  cases seen : act.startUp? config framing with
  | none =>
      rw [seen] at moved
      rw [moved]
      exact Transition.Run.nil _
  | some seenAct =>
      rw [seen] at moved
      exact StartUp.dispatch_run (StartUp.step_cases moved).2.1

theorem idle_next (stepped : Steps config framing state act after)
    (idle : state.startUp.dispatching.walks.lookup thread = none) (silent : act.event? config framing thread = none) :
    after.startUp.dispatching.walks.lookup thread = none := by
  have moved := moves_next stepped
  unfold Act.event? at silent
  cases seen : (act.startUp? config framing).bind (StartUp.Act.move? config framing.nodeIdBroadcast) with
  | none =>
      rw [seen] at moved
      rw [Transition.run_nil_iff.mp moved]
      exact idle
  | some move =>
      rw [seen] at moved
      obtain ⟨_, single, rest⟩ := Transition.run_cons_iff.mp moved
      obtain rfl := Transition.run_nil_iff.mp rest
      rw [← Option.bind_assoc, seen] at silent
      exact Broadcast.idle_next single idle silent

theorem senders_next (stepped : Steps config framing state act after) (worker : Worker) :
    ∃ more, after.inbox worker = state.inbox worker ++ more ∧
      ∀ entry ∈ more, state.startUp.dispatching.walks.lookup entry.1 ≠ none := by
  have moved := moves_next stepped
  cases seen : (act.startUp? config framing).bind (StartUp.Act.move? config framing.nodeIdBroadcast) with
  | none =>
      rw [seen] at moved
      refine ⟨[], ?_, by simp⟩
      rw [List.append_nil, inbox, Transition.run_nil_iff.mp moved, inbox]
  | some move =>
      rw [seen] at moved
      obtain ⟨_, single, rest⟩ := Transition.run_cons_iff.mp moved
      obtain rfl := Transition.run_nil_iff.mp rest
      exact Broadcast.senders_next single worker.channel

theorem subscribed_next (stepped : Steps config framing state act after) :
    state.startUp.subscribed ⊆ after.startUp.subscribed := by
  have moved := startUp_next stepped
  cases seen : act.startUp? config framing with
  | none =>
      rw [seen] at moved
      rw [moved]
      exact List.Subset.refl _
  | some seenAct =>
      rw [seen] at moved
      rw [(StartUp.step_cases moved).2.2]
      exact List.subset_append_left _ _

end Idle

end CanTraffic

namespace StartUp

variable {config : Config} {nodeIdBroadcast : UInt8} {acts : List Act} {state : StartUp}

theorem runner_spawned (run : Transition.Run (Steps config nodeIdBroadcast) (new config) acts state)
    (subscribed : .sequenceRunner ∈ state.subscribed) : .sequenceRunner ∈ state.spawned := by
  have kept := run.invariant
    (fun state => Invariant config state ∧ (.sequenceRunner ∈ state.subscribed → .sequenceRunner ∈ state.spawned)) ?_
    ⟨invariant_new config, fun member => by cases member⟩
  · exact kept.2 subscribed
  · rintro start act finish ⟨invariant, before⟩ stepped
    refine ⟨invariant_step invariant stepped, fun member => ?_⟩
    rw [(step_cases stepped).2.2, List.mem_append] at member
    rcases member with earlier | now
    · exact spawned_next stepped (before earlier)
    · cases act with
      | proceed instruction =>
          obtain rfl := Instruction.mem_subscribes_iff.mp now
          rcases program_next stepped with ⟨_, same, program, _⟩ | ⟨silent, _⟩
          · obtain rfl := Act.proceed.inj same
            exact absurd (program ▸ List.mem_cons_self) invariant.runner
          · cases silent
      | runnerSubscribes =>
          have allowed := (step_cases stepped).1
          simp only [allows, Bool.decide_and, Bool.and_eq_true, decide_eq_true_eq] at allowed
          exact spawned_next stepped allowed.1
      | _ => cases now

theorem sequenceRunner_program (config : Config) : ∃ early late,
    runWithDependencies config = early ++ .spawn .sequenceRunner :: late ∧ .spawn .sequenceRunner ∉ early ∧
      .canSend ∈ early.flatMap Instruction.subscribes := by
  refine ⟨spawnCanThreads config.canBusInterfaces, .returned [.sequenceRunner] ::
    (if config.databaseUrl = "" then [] else spawnLoggingWorker) ++ spawnCanMsgHandlerThread ++
    spawnHeartbeatThread ++ [.startNodeRegistration], ?_, ?_, ?_⟩
  · simp [runWithDependencies, spawnSequenceRunnerThread]
  · simp [spawnCanThreads, receivers]
  · rw [spawnCanThreads_subscribes]
    simp

theorem sender_before_runner (run : Transition.Run (Steps config nodeIdBroadcast) (new config) acts state)
    (subscribed : .sequenceRunner ∈ state.subscribed) : .canSend ∈ state.subscribed := by
  obtain ⟨early, late, program, first, subscribes⟩ := sequenceRunner_program config
  exact subscribed_of_spawned (follows_run run) program first (runner_spawned run subscribed) _ subscribes

end StartUp

end FerroFlow
