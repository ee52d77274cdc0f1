import FerroFlow.Dispatcher

/-! Start-up: the calling thread subscribes and spawns the workers one after the other, while threads
that already run dispatch events. The sequence runner alone subscribes in its own thread. -/

namespace FerroFlow

open Broadcast (Move started takenFrom due)

inductive Worker
  | canRecv (index : ℕ)
  | canSend
  | sequenceRunner
  | databaseLogger
  | canMsgHandler
  | heartbeat
deriving DecidableEq, Repr

/-- The calling thread, the workers, and all other threads of the process. -/
inductive Thread
  | main
  | worker (worker : Worker)
  | outside (number : ℕ)
deriving DecidableEq, Repr

structure Config where
  canBusInterfaces : List String
  databaseUrl : String

namespace Worker

def channel : Worker → Channel
  | canSend => 0
  | sequenceRunner => 1
  | databaseLogger => 2
  | canMsgHandler => 3
  | heartbeat => 4
  | canRecv index => index + 5

def debugName (interfaces : List String) : Worker → String
  | canRecv index =>
      let interface := (interfaces[index]?).getD ""
      s!"CAN recv thread ({interface})"
  | canSend => "CAN send thread"
  | sequenceRunner => "Sequence Runner thread"
  | databaseLogger => "Database logging thread"
  | canMsgHandler => "Can message handler thread"
  | heartbeat => "Heartbeat thread"

def subscribedEvents : Worker → List EventKind
  | canRecv _ => [.shutdown]
  | canSend => [.sendCanMessage, .relayCanMessage, .shutdown]
  | sequenceRunner => [.sequence, .shutdown]
  | databaseLogger => [.shutdown, .nodeFieldUpdated]
  | canMsgHandler => [.shutdown, .canMessageReceived]
  | heartbeat => [.shutdown]

def listener (interfaces : List String) (worker : Worker) : EventListener where
  debugName := worker.debugName interfaces
  sender := worker.channel
  subscribedEvents := worker.subscribedEvents

theorem channel_inj {left right : Worker} : left.channel = right.channel ↔ left = right := by
  constructor
  · intro same
    cases left <;> cases right <;> simp_all [channel]
  · rintro rfl
    rfl

end Worker

inductive Instruction
  | ensure (holds : Bool)
  | attempt
  | subscribe (worker : Worker)
  | spawn (worker : Worker)
  | returned (workers : List Worker)
  | startNodeRegistration
deriving DecidableEq, Repr

namespace Instruction

def subscribes : Instruction → List Worker
  | subscribe worker => [worker]
  | _ => []

def spawns : Instruction → List Worker
  | spawn worker => [worker]
  | _ => []

def returns : Instruction → List Worker
  | returned workers => workers
  | _ => []

end Instruction

theorem Instruction.mem_subscribes_iff {instruction : Instruction} {worker : Worker} :
    worker ∈ instruction.subscribes ↔ instruction = .subscribe worker := by
  cases instruction <;> simp [Instruction.subscribes, eq_comm]

def receivers (interfaces : List String) : List Worker :=
  (List.range interfaces.length).map Worker.canRecv

/-- Sockets are opened and set up first; then each receive thread is subscribed and spawned, and last
the send thread. -/
def spawnCanThreads (interfaces : List String) : List Instruction :=
  .ensure (interfaces ≠ []) :: interfaces.flatMap (fun _ => [.attempt, .attempt]) ++
    (receivers interfaces).flatMap (fun worker => [.attempt, .subscribe worker, .spawn worker]) ++
    [.subscribe .canSend, .spawn .canSend, .returned (.canSend :: receivers interfaces)]

def spawnSequenceRunnerThread : List Instruction :=
  [.spawn .sequenceRunner, .returned [.sequenceRunner]]

def spawnLoggingWorker : List Instruction :=
  [.attempt, .subscribe .databaseLogger, .spawn .databaseLogger, .returned [.databaseLogger]]

def spawnCanMsgHandlerThread : List Instruction :=
  [.subscribe .canMsgHandler, .spawn .canMsgHandler, .returned [.canMsgHandler]]

def spawnHeartbeatThread : List Instruction :=
  [.subscribe .heartbeat, .spawn .heartbeat, .returned [.heartbeat]]

def runWithDependencies (config : Config) : List Instruction :=
  spawnCanThreads config.canBusInterfaces ++ spawnSequenceRunnerThread ++
    (if config.databaseUrl = "" then [] else spawnLoggingWorker) ++ spawnCanMsgHandlerThread ++
    spawnHeartbeatThread ++ [.startNodeRegistration]

structure StartUp where
  program : List Instruction
  subscribed : List Worker := []
  spawned : List Worker := []
  returned : List Worker := []
  dispatching : Dispatching Thread := {}

namespace StartUp

inductive Act
  | proceed (instruction : Instruction)
  | fail
  | runnerSubscribes
  | start (thread : Thread) (event : Event)
  | send (thread : Thread)
  | finish (thread : Thread)
  | close (worker : Worker)

def Act.subscribes : Act → List Worker
  | proceed instruction => instruction.subscribes
  | runnerSubscribes => [.sequenceRunner]
  | _ => []

/-- A worker runs from its spawn on; the sequence runner subscribes before anything else. -/
def isRunning (state : StartUp) : Thread → Bool
  | .main => false
  | .worker worker => worker ∈ state.spawned ∧ (worker = .sequenceRunner → worker ∈ state.subscribed)
  | .outside _ => true

def allows (state : StartUp) : Act → Bool
  | .proceed instruction => state.program.head? = some instruction ∧ instruction ≠ .ensure false ∧
      (state.dispatching.walks.lookup .main).isNone
  | .fail => state.program.head? = some .attempt ∨ state.program.head? = some (.ensure false)
  | .runnerSubscribes => .sequenceRunner ∈ state.spawned ∧ .sequenceRunner ∉ state.subscribed
  | .start thread _ => state.isRunning thread
  | .send _ => true
  | .finish _ => true
  | .close worker => worker ∈ state.spawned ∧ worker ∈ state.subscribed

section System

variable (config : Config) (nodeIdBroadcast : UInt8)

def Act.move? : Act → Option (Move Thread EventListener Channel Event)
  | proceed (.subscribe worker) => some (.subscribe (worker.listener config.canBusInterfaces))
  | proceed .startNodeRegistration => some (.start .main (.sendCanMessage nodeIdBroadcast .nodeInfoReq))
  | proceed _ => none
  | fail => none
  | runnerSubscribes => some (.subscribe (Worker.sequenceRunner.listener config.canBusInterfaces))
  | start thread event => some (.start thread event)
  | send thread => some (.send thread)
  | finish thread => some (.finish thread)
  | close worker => some (.close worker.channel)

def dispatch (state : StartUp) (act : Act) : Option (Dispatching Thread) :=
  match act.move? config nodeIdBroadcast with
  | some move => state.dispatching.next EventListener.sender EventListener.wants move
  | none => some state.dispatching

def next (state : StartUp) (act : Act) : Option StartUp :=
  if state.allows act then do
    let dispatching ← state.dispatch config nodeIdBroadcast act
    some {
      program := match act with
        | .proceed _ => state.program.tail
        | .fail => []
        | _ => state.program
      subscribed := state.subscribed ++ act.subscribes
      spawned := match act with
        | .proceed instruction => state.spawned ++ instruction.spawns
        | _ => state.spawned
      returned := match act with
        | .proceed instruction => state.returned ++ instruction.returns
        | _ => state.returned
      dispatching := dispatching }
  else none

def Steps (start : StartUp) (act : Act) (finish : StartUp) : Prop :=
  start.next config nodeIdBroadcast act = some finish

def new : StartUp where
  program := runWithDependencies config

end System

def Ordered : List Worker → List Instruction → Prop
  | _, [] => True
  | subscribed, instruction :: rest =>
      (∀ worker ∈ instruction.returns, worker ≠ .sequenceRunner → worker ∈ subscribed) ∧
        Ordered (subscribed ++ instruction.subscribes) rest

theorem Ordered.mono {program : List Instruction} {subscribed others : List Worker}
    (ordered : Ordered subscribed program) (more : subscribed ⊆ others) : Ordered others program := by
  induction program generalizing subscribed others with
  | nil => trivial
  | cons instruction rest ih =>
      obtain ⟨first, later⟩ := ordered
      refine ⟨fun worker returned other => more (first worker returned other), ih later ?_⟩
      exact List.append_subset.mpr ⟨List.subset_append_of_subset_left _ more, List.subset_append_right _ _⟩

theorem ordered_append_iff {program rest : List Instruction} {subscribed : List Worker} :
    Ordered subscribed (program ++ rest) ↔
      Ordered subscribed program ∧ Ordered (subscribed ++ program.flatMap Instruction.subscribes) rest := by
  induction program generalizing subscribed with
  | nil => simp [Ordered]
  | cons instruction program ih =>
      simp only [List.cons_append, Ordered, ih, List.flatMap_cons, List.append_assoc, and_assoc]

theorem ordered_of_silent {program : List Instruction} (silent : ∀ instruction ∈ program, instruction.returns = [])
    (subscribed : List Worker) : Ordered subscribed program := by
  induction program generalizing subscribed with
  | nil => trivial
  | cons instruction program ih =>
      rw [List.forall_mem_cons] at silent
      refine ⟨?_, ih silent.2 _⟩
      rw [silent.1]
      simp

structure Invariant (config : Config) (state : StartUp) : Prop where
  listeners : state.dispatching.listeners =
    state.subscribed.map (Worker.listener config.canBusInterfaces)
  fresh : (state.subscribed ++ state.program.flatMap Instruction.subscribes).Nodup
  runner : Instruction.subscribe .sequenceRunner ∉ state.program
  ordered : Ordered state.subscribed state.program
  returned : ∀ worker ∈ state.returned, worker ≠ .sequenceRunner → worker ∈ state.subscribed
  sound : state.dispatching.Sound EventListener.sender EventListener.wants

theorem spawnCanThreads_subscribes (interfaces : List String) :
    (spawnCanThreads interfaces).flatMap Instruction.subscribes = receivers interfaces ++ [.canSend] := by
  simp [spawnCanThreads, List.flatMap_append, List.flatMap_assoc, Instruction.subscribes,
    List.flatMap_singleton']

theorem program_subscribes (config : Config) :
    (runWithDependencies config).flatMap Instruction.subscribes =
      receivers config.canBusInterfaces ++ [.canSend] ++
        (if config.databaseUrl = "" then [] else [.databaseLogger]) ++ [.canMsgHandler, .heartbeat] := by
  unfold runWithDependencies
  simp only [List.flatMap_append, spawnCanThreads_subscribes]
  split <;> simp [spawnSequenceRunnerThread, spawnLoggingWorker, spawnCanMsgHandlerThread,
    spawnHeartbeatThread, Instruction.subscribes]

theorem program_fresh (config : Config) :
    ((runWithDependencies config).flatMap Instruction.subscribes).Nodup ∧
      Instruction.subscribe .sequenceRunner ∉ runWithDependencies config := by
  rw [program_subscribes]
  constructor
  · have distinct : ((List.range config.canBusInterfaces.length).map Worker.canRecv).Nodup :=
      List.nodup_range.map fun left right same => Worker.canRecv.inj same
    split <;> simp [List.nodup_append, receivers, distinct]
  · intro member
    have listed : Worker.sequenceRunner ∈ (runWithDependencies config).flatMap Instruction.subscribes :=
      List.mem_flatMap.mpr ⟨_, member, List.mem_singleton.mpr rfl⟩
    rw [program_subscribes] at listed
    split at listed <;> simp [receivers] at listed

theorem spawnCanThreads_ordered (interfaces : List String) : Ordered [] (spawnCanThreads interfaces) := by
  have whole := spawnCanThreads_subscribes interfaces
  unfold spawnCanThreads at whole ⊢
  rw [ordered_append_iff]
  refine ⟨ordered_of_silent ?_ [], ?_⟩
  · intro instruction member
    rcases List.mem_append.mp member with opening | looping
    · rcases List.mem_cons.mp opening with rfl | attempted
      · rfl
      · obtain ⟨_, _, block⟩ := List.mem_flatMap.mp attempted
        simp only [List.mem_cons, List.not_mem_nil, or_false, or_self] at block
        rw [block]
        rfl
    · obtain ⟨worker, _, block⟩ := List.mem_flatMap.mp looping
      simp only [List.mem_cons, List.not_mem_nil, or_false] at block
      rcases block with rfl | rfl | rfl <;> rfl
  · rw [List.flatMap_append] at whole
    rw [List.append_cancel_right whole]
    simp +contextual [Ordered, Instruction.returns, Instruction.subscribes]

theorem program_ordered (config : Config) : Ordered [] (runWithDependencies config) := by
  unfold runWithDependencies
  simp only [ordered_append_iff, spawnCanThreads_ordered, true_and]
  split <;> simp [Ordered, spawnSequenceRunnerThread, spawnLoggingWorker, spawnCanMsgHandlerThread,
    spawnHeartbeatThread, Instruction.returns, Instruction.subscribes]

theorem invariant_new (config : Config) : Invariant config (new config) where
  listeners := rfl
  fresh := (program_fresh config).1
  runner := (program_fresh config).2
  ordered := program_ordered config
  returned := by simp [new]
  sound := by
    intro delivery member
    cases member

section Step

variable {config : Config} {nodeIdBroadcast : UInt8} {state after : StartUp} {act : Act}

theorem step_cases (stepped : Steps config nodeIdBroadcast state act after) :
    state.allows act = true ∧ state.dispatch config nodeIdBroadcast act = some after.dispatching ∧
      after.subscribed = state.subscribed ++ act.subscribes := by
  simp only [Steps, next, Option.ite_none_right_eq_some, Option.bind_eq_bind, Option.bind_eq_some_iff,
    Option.some.injEq] at stepped
  obtain ⟨allowed, dispatching, dispatched, rfl⟩ := stepped
  exact ⟨allowed, dispatched, rfl⟩

theorem program_cases (stepped : Steps config nodeIdBroadcast state act after) :
    (∃ instruction, act = .proceed instruction ∧ state.program = instruction :: after.program ∧
      after.returned = state.returned ++ instruction.returns) ∨
    ((after.program = state.program ∨ after.program = []) ∧ after.returned = state.returned ∧
      (act.subscribes = [] ∨ act.subscribes = [.sequenceRunner] ∧ .sequenceRunner ∉ state.subscribed)) := by
  simp only [Steps, next, Option.ite_none_right_eq_some, Option.bind_eq_bind, Option.bind_eq_some_iff,
    Option.some.injEq] at stepped
  obtain ⟨allowed, dispatching, dispatched, rfl⟩ := stepped
  cases act with
  | proceed instruction =>
      simp only [allows, Bool.decide_and, Bool.and_eq_true, decide_eq_true_eq] at allowed
      exact Or.inl ⟨instruction, rfl, (List.cons_head?_tail allowed.1).symm, rfl⟩
  | fail => exact Or.inr ⟨Or.inr rfl, rfl, Or.inl rfl⟩
  | runnerSubscribes =>
      simp only [allows, Bool.decide_and, Bool.and_eq_true, decide_eq_true_eq] at allowed
      exact Or.inr ⟨Or.inl rfl, rfl, Or.inr ⟨rfl, allowed.2⟩⟩
  | start thread event => exact Or.inr ⟨Or.inl rfl, rfl, Or.inl rfl⟩
  | send thread => exact Or.inr ⟨Or.inl rfl, rfl, Or.inl rfl⟩
  | finish thread => exact Or.inr ⟨Or.inl rfl, rfl, Or.inl rfl⟩
  | close worker => exact Or.inr ⟨Or.inl rfl, rfl, Or.inl rfl⟩

theorem dispatch_run {dispatching : Dispatching Thread}
    (dispatched : state.dispatch config nodeIdBroadcast act = some dispatching) :
    Transition.Run Dispatching.Steps state.dispatching (act.move? config nodeIdBroadcast).toList dispatching := by
  unfold dispatch at dispatched
  split at dispatched
  · next move same =>
      rw [same]
      exact Transition.Run.cons dispatched (Transition.Run.nil _)
  · next same =>
      rw [same, Option.some.inj dispatched]
      exact Transition.Run.nil _

theorem added_move (config : Config) (nodeIdBroadcast : UInt8) (act : Act) :
    (act.move? config nodeIdBroadcast).toList.flatMap Move.added =
      act.subscribes.map (Worker.listener config.canBusInterfaces) := by
  cases act with
  | proceed instruction => cases instruction <;> rfl
  | _ => rfl

theorem invariant_step (invariant : Invariant config state)
    (stepped : Steps config nodeIdBroadcast state act after) : Invariant config after := by
  obtain ⟨_, dispatched, subscribed⟩ := step_cases stepped
  have moved := dispatch_run dispatched
  have listeners : after.dispatching.listeners =
      after.subscribed.map (Worker.listener config.canBusInterfaces) := by
    rw [Broadcast.listeners_run moved, added_move, invariant.listeners, subscribed, List.map_append]
  have sound := Broadcast.sound_since moved invariant.sound
  rcases program_cases stepped with ⟨instruction, rfl, program, returned⟩ | ⟨program, returned, silent⟩
  · have fresh := invariant.fresh
    have runner := invariant.runner
    have ordered := invariant.ordered
    rw [program] at fresh runner ordered
    rw [List.flatMap_cons, ← List.append_assoc] at fresh
    refine ⟨listeners, ?_, fun member => runner (List.mem_cons_of_mem _ member), ?_, ?_, sound⟩
    · rw [subscribed]
      exact fresh
    · rw [subscribed]
      exact ordered.2
    · rw [returned, subscribed]
      intro worker member other
      rcases List.mem_append.mp member with before | now
      · exact List.mem_append_left _ (invariant.returned worker before other)
      · exact List.mem_append_left _ (ordered.1 worker now other)
  · have more : state.subscribed ⊆ after.subscribed := by
      rw [subscribed]
      exact List.subset_append_left _ _
    have fresh : (state.subscribed ++ act.subscribes ++
        state.program.flatMap Instruction.subscribes).Nodup := by
      rcases silent with none | ⟨own, absent⟩
      · rw [none, List.append_nil]
        exact invariant.fresh
      · rw [own, List.append_assoc, List.singleton_append, List.nodup_middle, List.nodup_cons]
        refine ⟨?_, invariant.fresh⟩
        intro member
        rcases List.mem_append.mp member with before | later
        · exact absent before
        · obtain ⟨instruction, planned, subscribes⟩ := List.mem_flatMap.mp later
          rw [Instruction.mem_subscribes_iff] at subscribes
          subst subscribes
          exact invariant.runner planned
    rw [← subscribed] at fresh
    refine ⟨listeners, ?_, ?_, ?_, ?_, sound⟩
    · rcases program with same | stopped
      · rw [same]
        exact fresh
      · rw [stopped]
        exact ((List.Sublist.refl _).append (List.nil_sublist _)).nodup fresh
    · rcases program with same | stopped
      · rw [same]
        exact invariant.runner
      · simp [stopped]
    · rcases program with same | stopped
      · rw [same]
        exact invariant.ordered.mono more
      · rw [stopped]
        trivial
    · rw [returned]
      intro worker member other
      exact more (invariant.returned worker member other)

theorem invariant_run {acts : List Act} (run : Transition.Run (Steps config nodeIdBroadcast) state acts after)
    (invariant : Invariant config state) : Invariant config after :=
  run.invariant (Invariant config) (fun _ _ _ before stepped => invariant_step before stepped) invariant

end Step

section Accounts

variable (config : Config)

def account (worker : Worker) (thread : Thread) (state : StartUp) : List Event :=
  state.dispatching.queuedFrom thread worker.channel ++
    state.dispatching.onTheWay EventListener.wants thread (worker.listener config.canBusInterfaces)

variable (nodeIdBroadcast : UInt8)

def dispatched (worker : Worker) (thread : Thread) (acts : List Act) : List Event :=
  (started thread (acts.filterMap (Act.move? config nodeIdBroadcast))).filter
    (worker.listener config.canBusInterfaces).wants

def InTime (worker : Worker) (state : StartUp) (act : Act) : Prop :=
  worker ∉ state.subscribed → ∀ thread, dispatched config nodeIdBroadcast worker thread [act] = []

variable {config nodeIdBroadcast} {state after : StartUp} {act : Act} {worker : Worker}

theorem dispatched_cons (thread : Thread) (act : Act) (acts : List Act) :
    dispatched config nodeIdBroadcast worker thread (act :: acts) =
      dispatched config nodeIdBroadcast worker thread [act] ++
        dispatched config nodeIdBroadcast worker thread acts := by
  unfold dispatched started
  rw [← List.singleton_append, List.filterMap_append, List.filterMap_append, List.filter_append]

theorem moves_run {acts : List Act} (run : Transition.Run (Steps config nodeIdBroadcast) state acts after) :
    Transition.Run Dispatching.Steps state.dispatching (acts.filterMap (Act.move? config nodeIdBroadcast))
      after.dispatching := by
  refine run.project StartUp.dispatching (Act.move? config nodeIdBroadcast) ?_ ?_
  · intro before act later move stepped visible
    have moved := (step_cases stepped).2.1
    unfold dispatch at moved
    rw [visible] at moved
    exact moved
  · intro before act later stepped hidden
    have moved := (step_cases stepped).2.1
    unfold dispatch at moved
    rw [hidden] at moved
    exact (Option.some.inj moved).symm

theorem Invariant.here (invariant : Invariant config state) {position : ℕ}
    (there : state.subscribed[position]? = some worker) :
    state.dispatching.listeners[position]? = some (worker.listener config.canBusInterfaces) := by
  rw [invariant.listeners, List.getElem?_map, there]
  rfl

theorem Invariant.unshared (invariant : Invariant config state) {position : ℕ}
    (there : state.subscribed[position]? = some worker) : state.dispatching.Unshared
      EventListener.sender position (worker.listener config.canBusInterfaces) := by
  intro other sharing elsewhere same
  rw [invariant.listeners, List.getElem?_map, Option.map_eq_some_iff] at elsewhere
  obtain ⟨sharer, listed, rfl⟩ := elsewhere
  obtain rfl : sharer = worker := Worker.channel_inj.mp same
  obtain ⟨inside, _⟩ := List.getElem?_eq_some_iff.mp listed
  exact (List.getElem?_inj inside (List.nodup_append.mp invariant.fresh).1).mp (listed.trans there.symm)

theorem account_absent (invariant : Invariant config state) (absent : worker ∉ state.subscribed)
    (thread : Thread) : state.account config worker thread = [] := by
  have others : ∀ other ∈ state.dispatching.listeners,
      other.sender ≠ (worker.listener config.canBusInterfaces).sender := by
    rw [invariant.listeners]
    intro other member same
    obtain ⟨sharer, listed, rfl⟩ := List.mem_map.mp member
    obtain rfl : sharer = worker := Worker.channel_inj.mp same
    exact absent listed
  obtain ⟨queued, coming⟩ := Broadcast.nothing_of_absent invariant.sound others thread
  unfold account
  rw [coming, List.append_nil]
  exact queued

theorem Invariant.account_at (invariant : Invariant config state) {position : ℕ}
    (there : state.subscribed[position]? = some worker) (thread : Thread) :
    state.dispatching.queuedFrom thread worker.channel = takenFrom thread (state.dispatching.received position) ∧
      state.account config worker thread = takenFrom thread (state.dispatching.received position) ++
        due position (worker.listener config.canBusInterfaces).wants state.dispatching.walks thread := by
  have queued := Broadcast.queuedFrom_of_unshared invariant.sound (invariant.here there)
    (invariant.unshared there) thread
  refine ⟨queued, ?_⟩
  rw [← queued, ← Broadcast.onTheWay_of_unshared (invariant.here there) (invariant.unshared there)]
  rfl

theorem account_subscribed {acts : List Act} (invariant : Invariant config state)
    (run : Transition.Run (Steps config nodeIdBroadcast) state acts after) (member : worker ∈ state.subscribed)
    (thread : Thread) :
    (worker.channel ∉ after.dispatching.closed → after.account config worker thread =
      state.account config worker thread ++ dispatched config nodeIdBroadcast worker thread acts) ∧
    after.dispatching.queuedFrom thread worker.channel <+:
      state.account config worker thread ++ dispatched config nodeIdBroadcast worker thread acts := by
  obtain ⟨position, there⟩ := List.mem_iff_getElem?.mp member
  have stays : after.subscribed[position]? = some worker := by
    refine run.invariant (fun state => state.subscribed[position]? = some worker) ?_ there
    intro before act later now stepped
    rw [(step_cases stepped).2.2, List.getElem?_append_left (List.getElem?_eq_some_iff.mp now).1, now]
  have since := Broadcast.received_since (moves_run run) (invariant.here there) thread
  obtain ⟨queued, account⟩ := (invariant_run run invariant).account_at stays thread
  rw [queued, account, (invariant.account_at there thread).2]
  exact since

theorem account_subscribing (invariant : Invariant config state)
    (stepped : Steps config nodeIdBroadcast state act after) (absent : worker ∉ state.subscribed)
    (now : worker ∈ act.subscribes) (thread : Thread) : after.account config worker thread = [] := by
  obtain ⟨_, moved, _⟩ := step_cases stepped
  have subscribes : act.move? config nodeIdBroadcast =
      some (.subscribe (worker.listener config.canBusInterfaces)) := by
    cases act with
    | proceed instruction =>
        obtain rfl := Instruction.mem_subscribes_iff.mp now
        rfl
    | runnerSubscribes =>
        obtain rfl := List.mem_singleton.mp now
        rfl
    | _ => cases now
  have moved : Dispatching.Steps state.dispatching
      (.subscribe (worker.listener config.canBusInterfaces)) after.dispatching := by
    unfold dispatch at moved
    rw [subscribes] at moved
    exact moved
  obtain ⟨idle, same⟩ := Broadcast.subscribe_next moved
  have before := account_absent invariant absent thread
  unfold account at before ⊢
  rw [same, List.append_eq_nil_iff]
  exact ⟨(List.append_eq_nil_iff.mp before).1,
    Broadcast.onTheWay_of_idle (Broadcast.lookup_of_idle idle thread)⟩

theorem account_step (invariant : Invariant config state)
    (stepped : Steps config nodeIdBroadcast state act after)
    (alive : worker.channel ∉ after.dispatching.closed) (thread : Thread) :
    after.account config worker thread = state.account config worker thread ++
      if worker ∈ state.subscribed then dispatched config nodeIdBroadcast worker thread [act] else [] := by
  by_cases member : worker ∈ state.subscribed
  · rw [if_pos member]
    have single := Transition.Run.cons stepped (Transition.Run.nil after)
    exact (account_subscribed invariant single member thread).1 alive
  · rw [if_neg member, List.append_nil, account_absent invariant member]
    by_cases now : worker ∈ act.subscribes
    · exact account_subscribing invariant stepped member now thread
    · refine account_absent (invariant_step invariant stepped) ?_ thread
      rw [(step_cases stepped).2.2, List.mem_append, not_or]
      exact ⟨member, now⟩

theorem closed_run {acts : List Act} (run : Transition.Run (Steps config nodeIdBroadcast) state acts after) :
    state.dispatching.closed ⊆ after.dispatching.closed :=
  Broadcast.closed_run (moves_run run)

theorem account_since {acts : List Act} {middle : StartUp} (invariant : Invariant config state)
    (stepped : Steps config nodeIdBroadcast state act middle) (now : worker ∈ act.subscribes)
    (run : Transition.Run (Steps config nodeIdBroadcast) middle acts after) (thread : Thread) :
    (worker.channel ∉ after.dispatching.closed →
      after.account config worker thread = dispatched config nodeIdBroadcast worker thread acts) ∧
    after.dispatching.queuedFrom thread worker.channel <+:
      dispatched config nodeIdBroadcast worker thread acts := by
  have invariantThen := invariant_step invariant stepped
  have subscribed := (step_cases stepped).2.2
  have absent : worker ∉ state.subscribed := by
    have fresh := (List.nodup_append.mp invariantThen.fresh).1
    rw [subscribed, List.nodup_append] at fresh
    exact fun before => fresh.2.2 worker before worker now rfl
  have member : worker ∈ middle.subscribed := by
    rw [subscribed]
    exact List.mem_append_right _ now
  have given := account_subscribed invariantThen run member thread
  rw [account_subscribing invariant stepped absent now thread, List.nil_append] at given
  exact given

theorem account_run {acts : List Act} (run : Transition.Run (Steps config nodeIdBroadcast) state acts after)
    (invariant : Invariant config state) (alive : worker.channel ∉ after.dispatching.closed)
    (thread : Thread) : ∃ given, given.Sublist (dispatched config nodeIdBroadcast worker thread acts) ∧
      after.account config worker thread = state.account config worker thread ++ given := by
  induction run with
  | nil => exact ⟨[], List.nil_sublist _, (List.append_nil _).symm⟩
  | @cons state act middle acts after first rest ih =>
      have aliveThen : worker.channel ∉ middle.dispatching.closed := fun gone => alive (closed_run rest gone)
      obtain ⟨given, some, later⟩ := ih (invariant_step invariant first) alive
      rw [account_step invariant first aliveThen, List.append_assoc] at later
      refine ⟨_, ?_, later⟩
      rw [dispatched_cons thread act acts]
      refine List.Sublist.append ?_ some
      split
      · exact List.Sublist.refl _
      · exact List.nil_sublist _

theorem account_iff {acts : List Act} (run : Transition.Run (Steps config nodeIdBroadcast) state acts after)
    (invariant : Invariant config state) (alive : worker.channel ∉ after.dispatching.closed) :
    (∀ thread, after.account config worker thread =
        state.account config worker thread ++ dispatched config nodeIdBroadcast worker thread acts) ↔
      Transition.Run (Transition.Restrict (InTime config nodeIdBroadcast worker)
        (Steps config nodeIdBroadcast)) state acts after := by
  induction run with
  | nil =>
      constructor
      · intro _
        exact Transition.Run.nil _
      · intro _ thread
        exact (List.append_nil _).symm
  | @cons state act middle acts after first rest ih =>
      have aliveThen : worker.channel ∉ middle.dispatching.closed := fun gone => alive (closed_run rest gone)
      have invariantThen := invariant_step invariant first
      have step := account_step invariant first aliveThen
      rw [Transition.run_cons_iff]
      constructor
      · intro all
        have split (thread : Thread) :
            (if worker ∈ state.subscribed then dispatched config nodeIdBroadcast worker thread [act] else []) =
                dispatched config nodeIdBroadcast worker thread [act] ∧
              after.account config worker thread = middle.account config worker thread ++
                dispatched config nodeIdBroadcast worker thread acts := by
          have whole := all thread
          obtain ⟨given, some, later⟩ := account_run rest invariantThen alive thread
          rw [later, step, List.append_assoc, List.append_right_inj,
            dispatched_cons thread act acts] at whole
          have counted := congrArg List.length whole
          rw [List.length_append, List.length_append] at counted
          have early : (if worker ∈ state.subscribed then
              dispatched config nodeIdBroadcast worker thread [act] else []).length ≤
                (dispatched config nodeIdBroadcast worker thread [act]).length := by
            split
            · exact le_rfl
            · exact Nat.zero_le _
          have late := some.length_le
          obtain ⟨same, rfl⟩ := List.append_inj whole (by omega)
          exact ⟨same, later⟩
        refine ⟨middle, ⟨?_, first⟩, (ih invariantThen alive).mp fun thread => (split thread).2⟩
        intro absent thread
        rw [← (split thread).1, if_neg absent]
      · rintro ⟨next, ⟨inTime, stepped⟩, later⟩ thread
        obtain rfl : next = middle := Option.some.inj (stepped.symm.trans first)
        rw [(ih invariantThen alive).mpr later thread, step, dispatched_cons thread act acts,
          List.append_assoc]
        by_cases member : worker ∈ state.subscribed
        · rw [if_pos member]
        · rw [if_neg member, inTime member thread]

/-- Once a spawn function has returned, the worker is given every event of its kinds, in the order of each
thread, if and only if no dispatch of such an event begins before the worker has subscribed. Only the
sequence runner, which subscribes in its own thread, can be too late. -/
theorem given_everything_iff {before acts : List Act} {start finish : StartUp}
    (reached : Transition.Run (Steps config nodeIdBroadcast) (new config) before start)
    (run : Transition.Run (Steps config nodeIdBroadcast) start acts finish)
    (returned : worker ∈ start.returned) (alive : worker.channel ∉ finish.dispatching.closed) :
    ((∀ thread, finish.account config worker thread =
        start.account config worker thread ++ dispatched config nodeIdBroadcast worker thread acts) ↔
      Transition.Run (Transition.Restrict (InTime config nodeIdBroadcast worker)
        (Steps config nodeIdBroadcast)) start acts finish) ∧
    (worker ≠ .sequenceRunner → ∀ thread, finish.account config worker thread =
      start.account config worker thread ++ dispatched config nodeIdBroadcast worker thread acts) := by
  have invariant := invariant_run reached (invariant_new config)
  refine ⟨account_iff run invariant alive, fun other => (account_iff run invariant alive).mpr ?_⟩
  refine run.restrict (fun state => worker ∈ state.subscribed) (fun _ => True) ?_
    (invariant.returned worker returned other) fun _ _ => trivial
  intro state act after member _ stepped
  refine ⟨fun absent => absurd member absent, ?_⟩
  rw [(step_cases stepped).2.2]
  exact List.mem_append_left _ member

end Accounts

section Runs

def smallConfig : Config where
  canBusInterfaces := ["can0"]
  databaseUrl := ""

def startsUp : List Act :=
  (runWithDependencies smallConfig).map .proceed ++ List.replicate 4 (.send .main) ++ [.finish .main]

def dispatchesShutdown (listeners : ℕ) : List Act :=
  .start (.outside 0) .shutdown :: List.replicate listeners (.send (.outside 0)) ++ [.finish (.outside 0)]

theorem shutdown_missed : ∃ start finish : StartUp,
    Transition.Run (Steps smallConfig 63) (new smallConfig) startsUp start ∧
    Transition.Run (Steps smallConfig 63) start (dispatchesShutdown 4 ++ [.runnerSubscribes]) finish ∧
    .sequenceRunner ∈ start.returned ∧ .sequenceRunner ∈ finish.subscribed ∧
    Worker.channel .sequenceRunner ∉ finish.dispatching.closed ∧
    dispatched smallConfig 63 .sequenceRunner (.outside 0) (dispatchesShutdown 4 ++ [.runnerSubscribes]) =
      [.shutdown] ∧
    finish.dispatching.walks.keys = [] ∧ finish.dispatching.queue (Worker.channel .sequenceRunner) = [] :=
  ⟨_, _, Transition.run_iff_foldlM.mpr rfl, Transition.run_iff_foldlM.mpr rfl, by decide, by decide,
    by decide, rfl, rfl, rfl⟩

theorem given_everything_iff_shutdown : ∃ start finish : StartUp,
    Transition.Run (Steps smallConfig 63) (new smallConfig) startsUp start ∧
    Transition.Run (Steps smallConfig 63) start (dispatchesShutdown 4 ++ [.runnerSubscribes]) finish ∧
    finish.account smallConfig .heartbeat (.outside 0) = [.shutdown] := by
  obtain ⟨start, finish, reached, run, returned, alive, before⟩ : ∃ start finish : StartUp,
      Transition.Run (Steps smallConfig 63) (new smallConfig) startsUp start ∧
      Transition.Run (Steps smallConfig 63) start (dispatchesShutdown 4 ++ [.runnerSubscribes]) finish ∧
      .heartbeat ∈ start.returned ∧ Worker.channel .heartbeat ∉ finish.dispatching.closed ∧
      start.account smallConfig .heartbeat (.outside 0) = [] :=
    ⟨_, _, Transition.run_iff_foldlM.mpr rfl, Transition.run_iff_foldlM.mpr rfl, by decide, by decide, rfl⟩
  have given := (given_everything_iff reached run returned alive).2 (by decide) (.outside 0)
  rw [before] at given
  exact ⟨start, finish, reached, run, given⟩

end Runs

end StartUp

end FerroFlow
