import FerroFlow.Discovery
import FerroFlow.HeartbeatRounds
import FerroFlow.Lib.Consumer
import FerroFlow.LoggingWorker

/-! The whole server: the CAN threads, the message handler and the heartbeat thread with the node manager
they share, and the logging worker, each taking its events from its own queue. -/

namespace FerroFlow

/-- `handled` and `recorded` tell how far the handler and the logging worker have come in their queues,
`logsSent` and `requestsSent` how much of what the manager had them dispatch they have dispatched. The
heartbeat thread is `opening` until it begins its first round. -/
structure Server where
  traffic : CanTraffic
  threads : ManagerThreads
  logging : LoggingWorker := {}
  handling : Bool := true
  beating : Bool := true
  opening : Bool := true
  handled : ℕ := 0
  recorded : ℕ := 0
  logsSent : ℕ := 0
  requestsSent : ℕ := 0

def Event.log? : Event → Option FieldLog
  | .nodeFieldUpdated log => some log
  | _ => none

def Event.message? : Event → Option (CanMessageId × CanMessage)
  | .canMessageReceived id message => some (id, message)
  | _ => none

def Event.isShutdown : Event → Bool
  | .shutdown => true
  | _ => false

namespace Server

inductive Act
  | other (act : CanTraffic.Act)
  | handle (timestamp : DateTime) (id : CanMessageId) (message : CanMessage)
  | endHandling
  | manage (act : ManagerThreads.Act)
  | dispatchLog
  | dispatchRequest
  | endBeating
  | record (answer : Except String Unit)
  | flush (answer : Except String Unit)
  | leave (worker : Worker)

/-- What is left to the rest of the server: logs come from the handler alone, and the three workers below
do nothing but what is below. -/
def isOutside : CanTraffic.Act → Bool
  | .other (.start (.worker .canMsgHandler) _) => false
  | .other (.start (.worker .heartbeat) _) => false
  | .other (.start (.worker .databaseLogger) _) => false
  | .other (.start _ (.nodeFieldUpdated _)) => false
  | .other (.close .canMsgHandler) => false
  | .other (.close .heartbeat) => false
  | .other (.close .databaseLogger) => false
  | _ => true

def isIdle (worker : Worker) (state : Server) : Bool :=
  worker ∈ state.traffic.startUp.spawned ∧
    (state.traffic.startUp.dispatching.walks.lookup (.worker worker)).isNone

def handlerReady (state : Server) : Bool :=
  state.isIdle .canMsgHandler ∧ state.handling ∧ state.logsSent = state.threads.logged.length

def heartbeatReady (state : Server) : Bool :=
  state.isIdle .heartbeat ∧ state.beating ∧ state.requestsSent = state.threads.requested.length

def nextFor (worker : Worker) (position : ℕ) (state : Server) : Option Event :=
  ((state.traffic.inbox worker)[position]?).map Prod.snd

/-- The first round begins before the heartbeat thread looks at its queue, any other when it is empty. -/
def mayManage (state : Server) : ManagerThreads.Act → Bool
  | .handle _ _ _ => false
  | .store => state.handlerReady
  | .beginRound => state.heartbeatReady ∧ (state.opening ∨ (state.nextFor .heartbeat 0).isNone)
  | _ => state.heartbeatReady

def beginsRound : ManagerThreads.Act → Bool
  | .beginRound => true
  | _ => false

def hasLeft (state : Server) : Worker → Bool
  | .canMsgHandler => !state.handling
  | .heartbeat => !state.beating
  | .databaseLogger => !state.logging.running
  | _ => false

section System

variable (config : Config) (framing : LiquidCanFraming) (liquidCan : LiquidCan)

def handle (timestamp : DateTime) (id : CanMessageId) (message : CanMessage) (state : Server) : Option Server := do
  let threads ← state.threads.next liquidCan (.handle timestamp id message)
  if state.handlerReady ∧ (state.nextFor .canMsgHandler state.handled).bind Event.message? = some (id, message) then
    some { state with threads, handled := state.handled + 1 }
  else none

def endHandling (state : Server) : Option Server := do
  let event ← state.nextFor .canMsgHandler state.handled
  if state.handlerReady ∧ state.threads.storing.isNone ∧ event.isShutdown then
    some { state with handling := false, handled := state.handled + 1 }
  else none

def endBeating (state : Server) : Option Server := do
  let event ← state.nextFor .heartbeat 0
  if state.heartbeatReady ∧ ¬ state.opening ∧ state.threads.round.isNone ∧ event.isShutdown then
    some { state with beating := false }
  else none

def dispatchFrom (worker : Worker) (event : Event) (state : Server) : Option CanTraffic :=
  state.traffic.next config framing (.other (.start (.worker worker) event))

def dispatchLog (state : Server) : Option Server := do
  let event ← state.threads.logged[state.logsSent]?
  let traffic ← state.dispatchFrom config framing .canMsgHandler event
  some { state with traffic, logsSent := state.logsSent + 1 }

def dispatchRequest (state : Server) : Option Server := do
  let event ← state.threads.requested[state.requestsSent]?
  let traffic ← state.dispatchFrom config framing .heartbeat event
  some { state with traffic, requestsSent := state.requestsSent + 1 }

def record (answer : Except String Unit) (state : Server) : Option Server := do
  let event ← state.nextFor .databaseLogger state.recorded
  let logging ← state.logging.step { received := .ok event, answer }
  if state.isIdle .databaseLogger then some { state with logging, recorded := state.recorded + 1 } else none

/-- Nothing has arrived within the timeout. -/
def flush (answer : Except String Unit) (state : Server) : Option Server := do
  let logging ← state.logging.step { received := .error .timeout, answer }
  if state.isIdle .databaseLogger ∧ (state.nextFor .databaseLogger state.recorded).isNone then
    some { state with logging }
  else none

def next (state : Server) : Act → Option Server
  | .other act =>
      if isOutside act then (state.traffic.next config framing act).map fun traffic => { state with traffic } else none
  | .handle timestamp id message => state.handle liquidCan timestamp id message
  | .endHandling => state.endHandling
  | .manage act =>
      if state.mayManage act then
        (state.threads.next liquidCan act).map fun threads =>
          { state with threads, opening := state.opening && !beginsRound act }
      else none
  | .dispatchLog => state.dispatchLog config framing
  | .dispatchRequest => state.dispatchRequest config framing
  | .endBeating => state.endBeating
  | .record answer => state.record answer
  | .flush answer => state.flush answer
  | .leave worker =>
      if state.hasLeft worker then
        (state.traffic.next config framing (.other (.close worker))).map fun traffic => { state with traffic }
      else none

def Steps (start : Server) (act : Act) (finish : Server) : Prop :=
  start.next config framing liquidCan act = some finish

def new (mapping : Mapping) : Server where
  traffic := CanTraffic.new config
  threads := { manager := .new mapping }

end System

section Effects

variable (config : Config) (framing : LiquidCanFraming) (liquidCan : LiquidCan)

inductive Effect (state : Server) : Act → Server → Prop
  | other {act traffic} : isOutside act = true → CanTraffic.Steps config framing state.traffic act traffic →
      Effect state (.other act) { state with traffic }
  | handle {timestamp id message event threads} :
      ManagerThreads.Steps liquidCan state.threads (.handle timestamp id message) threads →
      state.handlerReady = true → state.nextFor .canMsgHandler state.handled = some event →
      event.message? = some (id, message) →
      Effect state (.handle timestamp id message) { state with threads, handled := state.handled + 1 }
  | endHandling {event} : state.handlerReady = true → state.threads.storing = none →
      state.nextFor .canMsgHandler state.handled = some event → event.isShutdown = true →
      Effect state .endHandling { state with handling := false, handled := state.handled + 1 }
  | manage {act threads} : state.mayManage act = true → ManagerThreads.Steps liquidCan state.threads act threads →
      Effect state (.manage act) { state with threads, opening := state.opening && !beginsRound act }
  | dispatchLog {event traffic} : state.threads.logged[state.logsSent]? = some event →
      CanTraffic.Steps config framing state.traffic (.other (.start (.worker .canMsgHandler) event)) traffic →
      Effect state .dispatchLog { state with traffic, logsSent := state.logsSent + 1 }
  | dispatchRequest {event traffic} : state.threads.requested[state.requestsSent]? = some event →
      CanTraffic.Steps config framing state.traffic (.other (.start (.worker .heartbeat) event)) traffic →
      Effect state .dispatchRequest { state with traffic, requestsSent := state.requestsSent + 1 }
  | endBeating {event} : state.heartbeatReady = true → state.nextFor .heartbeat 0 = some event →
      event.isShutdown = true → Effect state .endBeating { state with beating := false }
  | record {answer event logging} : state.nextFor .databaseLogger state.recorded = some event →
      state.logging.Steps { received := .ok event, answer } logging →
      Effect state (.record answer) { state with logging, recorded := state.recorded + 1 }
  | flush {answer logging} : state.nextFor .databaseLogger state.recorded = none →
      state.logging.Steps { received := .error .timeout, answer } logging →
      Effect state (.flush answer) { state with logging }
  | leave {worker traffic} : state.hasLeft worker = true →
      CanTraffic.Steps config framing state.traffic (.other (.close worker)) traffic →
      Effect state (.leave worker) { state with traffic }

variable {config framing liquidCan} {state after : Server} {act : Act}

theorem effect_of_steps (stepped : Steps config framing liquidCan state act after) :
    Effect config framing liquidCan state act after := by
  cases act with
  | other act =>
      obtain ⟨outside, stepped⟩ := Option.ite_none_right_eq_some.mp stepped
      obtain ⟨traffic, moved, rfl⟩ := Option.map_eq_some_iff.mp stepped
      exact Effect.other outside moved
  | handle timestamp id message =>
      simp only [Steps, next, handle, Option.bind_eq_bind, Option.bind_eq_some_iff, Option.ite_none_right_eq_some,
        Option.some.injEq] at stepped
      obtain ⟨threads, handled, ⟨ready, event, waiting, content⟩, rfl⟩ := stepped
      exact Effect.handle handled ready waiting content
  | endHandling =>
      simp only [Steps, next, endHandling, Option.bind_eq_bind, Option.bind_eq_some_iff,
        Option.ite_none_right_eq_some, Option.isNone_iff_eq_none, Option.some.injEq] at stepped
      obtain ⟨event, waiting, ⟨ready, idle, shutdown⟩, rfl⟩ := stepped
      exact Effect.endHandling ready idle waiting shutdown
  | manage act =>
      obtain ⟨allowed, stepped⟩ := Option.ite_none_right_eq_some.mp stepped
      obtain ⟨threads, moved, rfl⟩ := Option.map_eq_some_iff.mp stepped
      exact Effect.manage allowed moved
  | dispatchLog =>
      simp only [Steps, next, dispatchLog, Option.bind_eq_bind, Option.bind_eq_some_iff, Option.some.injEq] at stepped
      obtain ⟨event, due, traffic, moved, rfl⟩ := stepped
      exact Effect.dispatchLog due moved
  | dispatchRequest =>
      simp only [Steps, next, dispatchRequest, Option.bind_eq_bind, Option.bind_eq_some_iff, Option.some.injEq]
        at stepped
      obtain ⟨event, due, traffic, moved, rfl⟩ := stepped
      exact Effect.dispatchRequest due moved
  | endBeating =>
      simp only [Steps, next, endBeating, Option.bind_eq_bind, Option.bind_eq_some_iff,
        Option.ite_none_right_eq_some, Option.some.injEq] at stepped
      obtain ⟨event, waiting, ⟨ready, _, _, shutdown⟩, rfl⟩ := stepped
      exact Effect.endBeating ready waiting shutdown
  | record answer =>
      simp only [Steps, next, record, Option.bind_eq_bind, Option.bind_eq_some_iff, Option.ite_none_right_eq_some,
        Option.some.injEq] at stepped
      obtain ⟨event, waiting, logging, moved, _, rfl⟩ := stepped
      exact Effect.record waiting moved
  | flush answer =>
      simp only [Steps, next, flush, Option.bind_eq_bind, Option.bind_eq_some_iff, Option.ite_none_right_eq_some,
        Option.isNone_iff_eq_none, Option.some.injEq] at stepped
      obtain ⟨logging, moved, ⟨_, silent⟩, rfl⟩ := stepped
      exact Effect.flush silent moved
  | leave worker =>
      obtain ⟨left, stepped⟩ := Option.ite_none_right_eq_some.mp stepped
      obtain ⟨traffic, moved, rfl⟩ := Option.map_eq_some_iff.mp stepped
      exact Effect.leave left moved

end Effects

section Parts

variable {config : Config} {framing : LiquidCanFraming} {liquidCan : LiquidCan} {state after : Server} {act : Act}

def Act.manager? : Act → Option ManagerThreads.Act
  | .handle timestamp id message => some (.handle timestamp id message)
  | .manage act => some act
  | _ => none

theorem threads_next (stepped : Steps config framing liquidCan state act after) :
    match act.manager? with
    | some seen => ManagerThreads.Steps liquidCan state.threads seen after.threads
    | none => after.threads = state.threads := by
  cases effect_of_steps stepped with
  | handle handled _ _ _ => exact handled
  | manage _ moved => exact moved
  | _ => rfl

theorem threads_run {acts : List Act} (run : Transition.Run (Steps config framing liquidCan) state acts after) :
    Transition.Run (ManagerThreads.Steps liquidCan) state.threads (acts.filterMap Act.manager?) after.threads := by
  refine run.project threads Act.manager? ?_ ?_
  · intro before act later seen stepped visible
    have moved := threads_next stepped
    rw [visible] at moved
    exact moved
  · intro before act later stepped hidden
    have moved := threads_next stepped
    rw [hidden] at moved
    exact moved

def trafficActs (state : Server) : Act → List CanTraffic.Act
  | .other act => [act]
  | .dispatchLog => (state.threads.logged[state.logsSent]?).toList.map fun event =>
      .other (.start (.worker .canMsgHandler) event)
  | .dispatchRequest => (state.threads.requested[state.requestsSent]?).toList.map fun event =>
      .other (.start (.worker .heartbeat) event)
  | .leave worker => [.other (.close worker)]
  | _ => []

theorem traffic_next (stepped : Steps config framing liquidCan state act after) :
    Transition.Run (CanTraffic.Steps config framing) state.traffic (state.trafficActs act) after.traffic := by
  cases effect_of_steps stepped with
  | other _ moved => exact Transition.Run.cons moved (Transition.Run.nil _)
  | dispatchLog due moved =>
      simp only [trafficActs, due, Option.toList_some, List.map_cons, List.map_nil]
      exact Transition.Run.cons moved (Transition.Run.nil _)
  | dispatchRequest due moved =>
      simp only [trafficActs, due, Option.toList_some, List.map_cons, List.map_nil]
      exact Transition.Run.cons moved (Transition.Run.nil _)
  | leave _ moved => exact Transition.Run.cons moved (Transition.Run.nil _)
  | _ => exact Transition.Run.nil _

theorem inbox_run {acts : List CanTraffic.Act} {start finish : CanTraffic}
    (run : Transition.Run (CanTraffic.Steps config framing) start acts finish) (worker : Worker) :
    start.inbox worker <+: finish.inbox worker :=
  run.invariant (fun traffic => start.inbox worker <+: traffic.inbox worker)
    (fun _ _ _ before stepped => before.trans (CanTraffic.inbox_next stepped worker)) (List.prefix_refl _)

end Parts

section Emissions

variable {config : Config} {framing : LiquidCanFraming} {liquidCan : LiquidCan}

theorem logs_of_handle (manager : NodeManager) (timestamp : DateTime) (id : CanMessageId) (message : CanMessage) :
    ∀ event ∈ (manager.handleCanMessageFromNode liquidCan timestamp id message).events, event.log?.isSome = true := by
  rw [(NodeManager.confined_handle liquidCan manager timestamp id message).events]
  intro event member
  rcases (manager.slot id.senderId).handle_events liquidCan id.senderId timestamp message with
    silent | ⟨node, rows, _, _, events⟩
  · rw [silent] at member
    cases member
  · rw [events] at member
    obtain ⟨row, _, same⟩ := List.mem_map.mp member
    rw [← same]
    rfl

theorem emissions_next {start finish : ManagerThreads} {act : ManagerThreads.Act}
    (stepped : ManagerThreads.Steps liquidCan start act finish) :
    (∃ logs, finish.logged = start.logged ++ logs ∧ ∀ event ∈ logs, event.log?.isSome = true) ∧
      ∃ requests, finish.requested = start.requested ++ requests ∧ ∀ event ∈ requests, event.isCommand = true := by
  have nothing {before after : List Event} {kind : Event → Prop} (same : after = before) :
      ∃ more, after = before ++ more ∧ ∀ event ∈ more, kind event := ⟨[], by rw [same, List.append_nil], by simp⟩
  cases act with
  | handle timestamp id message =>
      have kept := (ManagerThreads.handler_keeps stepped (Or.inl rfl)).2
      refine ⟨?_, nothing kept⟩
      simp only [ManagerThreads.Steps, ManagerThreads.next, Option.ite_none_right_eq_some, Option.some.injEq]
        at stepped
      obtain ⟨_, rfl⟩ := stepped
      cases message with
      | telemetryGroupUpdate payload =>
          simp only [ManagerThreads.handle]
          split <;> exact nothing rfl
      | _ => exact ⟨_, rfl, logs_of_handle start.manager timestamp id _⟩
  | store =>
      have kept := (ManagerThreads.handler_keeps stepped (Or.inr rfl)).2
      refine ⟨?_, nothing kept⟩
      obtain ⟨storing, _, rfl⟩ := Option.map_eq_some_iff.mp stepped
      unfold ManagerThreads.store
      split
      · refine ⟨_, rfl, ?_⟩
        simp [Event.log?]
      · exact nothing rfl
  | beginRound =>
      obtain ⟨_, same⟩ := Option.ite_none_right_eq_some.mp stepped
      obtain rfl := Option.some.inj same
      exact ⟨nothing rfl, nothing rfl⟩
  | visit nodeId timestamp =>
      simp only [ManagerThreads.Steps, ManagerThreads.next, Option.bind_eq_bind, Option.bind_eq_some_iff,
        Option.ite_none_right_eq_some, Option.some.injEq] at stepped
      obtain ⟨round, _, _, rfl⟩ := stepped
      refine ⟨nothing rfl, _, rfl, ?_⟩
      rw [(NodeManager.slot_requestHeartbeat start.manager timestamp nodeId).2]
      cases (start.manager.slot nodeId).registered <;> simp [Event.isCommand]
  | endRound =>
      simp only [ManagerThreads.Steps, ManagerThreads.next, Option.bind_eq_bind, Option.bind_eq_some_iff,
        Option.ite_none_right_eq_some, Option.some.injEq] at stepped
      obtain ⟨round, _, _, rfl⟩ := stepped
      exact ⟨nothing rfl, nothing rfl⟩

theorem receives_no_log {index : ℕ} {read : ReadFrame} {event : Event}
    (received : CanTraffic.receives config framing index read = some event) : event.log? = none := by
  simp only [CanTraffic.receives, Option.bind_eq_bind, Option.bind_eq_some_iff] at received
  obtain ⟨interface, _, heard⟩ := received
  rw [LiquidCanFraming.receiveFrame_routes] at heard
  cases relayed : framing.forRelay read with
  | some frame =>
      rw [relayed] at heard
      obtain rfl := Option.some.inj heard
      rfl
  | none =>
      rw [relayed, Option.map_none, Option.none_or] at heard
      obtain ⟨id, message, rfl⟩ := LiquidCanFraming.message_of_forServer heard
      rfl

theorem start_of_event {thread : Thread} {act : CanTraffic.Act} {event : Event}
    (started : act.event? config framing thread = some event) :
    (∃ index read, act = .receive index read ∧ thread = .worker (.canRecv index) ∧
      CanTraffic.receives config framing index read = some event) ∨
    (thread = .main ∧ event.isCommand = true) ∨ act = .other (.start thread event) := by
  cases act with
  | other seen =>
      cases seen with
      | proceed instruction =>
          cases instruction with
          | startNodeRegistration =>
              obtain ⟨rfl, same⟩ := Option.ite_none_right_eq_some.mp started
              obtain rfl := Option.some.inj same
              exact Or.inr (Or.inl ⟨rfl, rfl⟩)
          | _ => cases started
      | start starter other =>
          obtain ⟨rfl, same⟩ := Option.ite_none_right_eq_some.mp started
          obtain rfl := Option.some.inj same
          exact Or.inr (Or.inr rfl)
      | _ => cases started
  | receive index read =>
      left
      cases heard : CanTraffic.receives config framing index read with
      | none => simp [CanTraffic.Act.event?, CanTraffic.Act.startUp?, heard] at started
      | some other =>
          simp only [CanTraffic.Act.event?, CanTraffic.Act.startUp?, heard, Option.map_some, Option.bind_some,
            StartUp.Act.move?, Broadcast.Move.event?, Option.ite_none_right_eq_some, Option.some.injEq] at started
          obtain ⟨rfl, rfl⟩ := started
          exact ⟨index, read, rfl, rfl, heard⟩
  | _ => cases started

theorem event_of_outside {act : CanTraffic.Act} (outside : isOutside act = true) {thread : Thread} {event : Event}
    (started : act.event? config framing thread = some event) :
    thread ≠ .worker .canMsgHandler ∧ thread ≠ .worker .heartbeat ∧ event.log? = none := by
  rcases start_of_event started with ⟨index, read, rfl, rfl, received⟩ | ⟨rfl, command⟩ | rfl
  · exact ⟨by simp, by simp, receives_no_log received⟩
  · refine ⟨by simp, by simp, ?_⟩
    cases event <;> first | rfl | cases command
  · refine ⟨?_, ?_, ?_⟩
    · rintro rfl
      cases outside
    · rintro rfl
      cases outside
    · cases event with
      | nodeFieldUpdated log =>
          cases thread with
          | worker worker => cases worker <;> cases outside
          | _ => cases outside
      | _ => rfl

end Emissions

section Accounts

variable {config : Config} {framing : LiquidCanFraming} {liquidCan : LiquidCan} {mapping : Mapping}

def note (state : Server) (act : Act) (_ : Server) (journal : List CanTraffic.Act) : List CanTraffic.Act :=
  journal ++ state.trafficActs act

def begun (config : Config) (framing : LiquidCanFraming) (worker : Worker) (journal : List CanTraffic.Act) :
    List Event :=
  journal.filterMap (CanTraffic.Act.event? config framing (.worker worker))

structure Accounts (config : Config) (framing : LiquidCanFraming) (state : Server) (journal : List CanTraffic.Act) :
    Prop where
  traffic : Transition.Run (CanTraffic.Steps config framing) (CanTraffic.new config) journal state.traffic
  logs : begun config framing .canMsgHandler journal = state.threads.logged.take state.logsSent
  requests : begun config framing .heartbeat journal = state.threads.requested.take state.requestsSent
  logged : ∀ event ∈ state.threads.logged, event.log?.isSome = true
  requested : ∀ event ∈ state.threads.requested, event.isCommand = true
  others : ∀ thread, thread ≠ .worker .canMsgHandler →
    ∀ event ∈ journal.filterMap (CanTraffic.Act.event? config framing thread), event.log? = none
  rows : Consumer.Finds (fun entry => entry.2.log?) (state.traffic.inbox .databaseLogger) state.recorded
    state.logging.logs
  logsSent : state.logsSent ≤ state.threads.logged.length
  requestsSent : state.requestsSent ≤ state.threads.requested.length

theorem accounts_new (config : Config) (framing : LiquidCanFraming) (mapping : Mapping) :
    Accounts config framing (new config mapping) [] where
  traffic := Transition.Run.nil _
  logs := rfl
  requests := rfl
  logged := by simp [new]
  requested := by simp [new]
  others := by simp
  rows := Consumer.finds_new _ _
  logsSent := Nat.zero_le _
  requestsSent := Nat.zero_le _

variable {state after : Server} {journal : List CanTraffic.Act} {act : Act}

theorem Accounts.traffics (accounts : Accounts config framing state journal) {seen : CanTraffic.Act}
    {traffic : CanTraffic} (moved : CanTraffic.Steps config framing state.traffic seen traffic) {logsSent requestsSent : ℕ}
    (logs : begun config framing .canMsgHandler (journal ++ [seen]) = state.threads.logged.take logsSent)
    (requests : begun config framing .heartbeat (journal ++ [seen]) = state.threads.requested.take requestsSent)
    (others : ∀ thread, thread ≠ .worker .canMsgHandler → ∀ event,
      seen.event? config framing thread = some event → event.log? = none)
    (logsInside : logsSent ≤ state.threads.logged.length)
    (requestsInside : requestsSent ≤ state.threads.requested.length) :
    Accounts config framing { state with traffic, logsSent, requestsSent } (journal ++ [seen]) := by
  constructor
  · exact accounts.traffic.append (Transition.Run.cons moved (Transition.Run.nil _))
  · exact logs
  · exact requests
  · exact accounts.logged
  · exact accounts.requested
  · intro thread other event member
    rw [List.filterMap_append, List.mem_append] at member
    rcases member with before | now
    · exact accounts.others thread other event before
    · obtain ⟨act, performed, started⟩ := List.mem_filterMap.mp now
      obtain rfl := List.mem_singleton.mp performed
      exact others thread other event started
  · exact accounts.rows.grow (CanTraffic.inbox_next moved .databaseLogger)
  · exact logsInside
  · exact requestsInside

theorem Accounts.manages (accounts : Accounts config framing state journal) {seen : ManagerThreads.Act}
    {threads : ManagerThreads} (moved : ManagerThreads.Steps liquidCan state.threads seen threads) (opening : Bool)
    (handled : ℕ) : Accounts config framing { state with threads, opening, handled } journal := by
  obtain ⟨⟨logs, logged, areLogs⟩, requests, requested, areCommands⟩ := emissions_next moved
  constructor
  · exact accounts.traffic
  · rw [logged, List.take_append_of_le_length accounts.logsSent]
    exact accounts.logs
  · rw [requested, List.take_append_of_le_length accounts.requestsSent]
    exact accounts.requests
  · rw [logged]
    exact List.forall_mem_append.mpr ⟨accounts.logged, areLogs⟩
  · rw [requested]
    exact List.forall_mem_append.mpr ⟨accounts.requested, areCommands⟩
  · exact accounts.others
  · exact accounts.rows
  · rw [logged, List.length_append]
    exact Nat.le_add_right_of_le accounts.logsSent
  · rw [requested, List.length_append]
    exact Nat.le_add_right_of_le accounts.requestsSent

theorem logs_of_iteration {worker logging : LoggingWorker} {iteration : LoggingWorker.Iteration}
    (moved : worker.Steps iteration logging) : logging.logs = worker.logs ++ iteration.log?.toList := by
  obtain ⟨_, rfl⟩ := LoggingWorker.iterate_of_steps moved
  exact (LoggingWorker.effect_iterate worker iteration).logs

theorem begun_append (worker : Worker) (journal : List CanTraffic.Act) (act : CanTraffic.Act) :
    begun config framing worker (journal ++ [act]) =
      begun config framing worker journal ++ (act.event? config framing (.worker worker)).toList := by
  unfold begun
  rw [List.filterMap_append, List.append_cancel_left_eq]
  cases started : act.event? config framing (.worker worker) <;> simp [started]

theorem accounts_record (accounts : Accounts config framing state journal) {answer : Except String Unit} {event : Event}
    {logging : LoggingWorker} (waiting : state.nextFor .databaseLogger state.recorded = some event)
    (moved : state.logging.Steps { received := .ok event, answer } logging) :
    Accounts config framing { state with logging, recorded := state.recorded + 1 } journal := by
  obtain ⟨⟨thread, same⟩, there, rfl⟩ := Option.map_eq_some_iff.mp waiting
  have shown : LoggingWorker.Iteration.log? { received := .ok same, answer } = same.log? := by
    cases same <;> rfl
  refine { accounts with rows := ?_ }
  rw [logs_of_iteration moved, shown]
  exact accounts.rows.next there

theorem accounts_dispatchLog (accounts : Accounts config framing state journal) {event : Event} {traffic : CanTraffic}
    (due : state.threads.logged[state.logsSent]? = some event)
    (moved : CanTraffic.Steps config framing state.traffic (.other (.start (.worker .canMsgHandler) event)) traffic) :
    Accounts config framing { state with traffic, logsSent := state.logsSent + 1 }
      (journal ++ [.other (.start (.worker .canMsgHandler) event)]) := by
  refine accounts.traffics moved ?_ ?_ ?_ (List.getElem?_eq_some_iff.mp due).1 accounts.requestsSent
  · rw [begun_append, accounts.logs, List.take_add_one, due]
    rfl
  · rw [begun_append, accounts.requests]
    exact List.append_nil _
  · intro thread other event started
    obtain ⟨same, _⟩ := Option.ite_none_right_eq_some.mp started
    exact absurd same.symm other

theorem accounts_dispatchRequest (accounts : Accounts config framing state journal) {event : Event}
    {traffic : CanTraffic} (due : state.threads.requested[state.requestsSent]? = some event)
    (moved : CanTraffic.Steps config framing state.traffic (.other (.start (.worker .heartbeat) event)) traffic) :
    Accounts config framing { state with traffic, requestsSent := state.requestsSent + 1 }
      (journal ++ [.other (.start (.worker .heartbeat) event)]) := by
  obtain ⟨inside, here⟩ := List.getElem?_eq_some_iff.mp due
  refine accounts.traffics moved ?_ ?_ ?_ accounts.logsSent inside
  · rw [begun_append, accounts.logs]
    exact List.append_nil _
  · rw [begun_append, accounts.requests, List.take_add_one, due]
    rfl
  · intro thread _ other started
    obtain ⟨_, same⟩ := Option.ite_none_right_eq_some.mp started
    obtain rfl := Option.some.inj same
    have command := accounts.requested event (here ▸ List.getElem_mem inside)
    cases event <;> first | rfl | cases command

theorem accounts_other (accounts : Accounts config framing state journal) {seen : CanTraffic.Act} {traffic : CanTraffic}
    (moved : CanTraffic.Steps config framing state.traffic seen traffic)
    (foreign : ∀ thread event, seen.event? config framing thread = some event →
      thread ≠ .worker .canMsgHandler ∧ thread ≠ .worker .heartbeat ∧ event.log? = none) :
    Accounts config framing { state with traffic } (journal ++ [seen]) := by
  refine accounts.traffics moved ?_ ?_ ?_ accounts.logsSent accounts.requestsSent
  · have silent : seen.event? config framing (.worker .canMsgHandler) = none :=
      Option.eq_none_iff_forall_ne_some.mpr fun event started => (foreign _ event started).1 rfl
    rw [begun_append, accounts.logs, silent]
    exact List.append_nil _
  · have silent : seen.event? config framing (.worker .heartbeat) = none :=
      Option.eq_none_iff_forall_ne_some.mpr fun event started => (foreign _ event started).2.1 rfl
    rw [begun_append, accounts.requests, silent]
    exact List.append_nil _
  · intro thread _ event started
    exact (foreign thread event started).2.2

theorem accounts_next (accounts : Accounts config framing state journal)
    (stepped : Steps config framing liquidCan state act after) :
    Accounts config framing after (journal ++ state.trafficActs act) := by
  have quiet {later : Server} (kept : Accounts config framing later journal) :
      Accounts config framing later (journal ++ []) := by rwa [List.append_nil]
  cases effect_of_steps stepped with
  | other outside moved => exact accounts_other accounts moved fun thread event => event_of_outside outside
  | handle moved _ _ _ => exact quiet (accounts.manages moved state.opening (state.handled + 1))
  | endHandling _ _ _ _ => exact quiet { accounts with }
  | manage _ moved => exact quiet (accounts.manages moved _ state.handled)
  | dispatchLog due moved =>
      simp only [trafficActs, due, Option.toList_some, List.map_cons, List.map_nil]
      exact accounts_dispatchLog accounts due moved
  | dispatchRequest due moved =>
      simp only [trafficActs, due, Option.toList_some, List.map_cons, List.map_nil]
      exact accounts_dispatchRequest accounts due moved
  | endBeating _ _ _ => exact quiet { accounts with }
  | record waiting moved => exact quiet (accounts_record accounts waiting moved)
  | flush _ moved =>
      refine quiet { accounts with rows := ?_ }
      rw [logs_of_iteration moved]
      exact (List.append_nil state.logging.logs).symm ▸ accounts.rows
  | leave _ moved =>
      refine accounts_other accounts moved fun thread event started => ?_
      cases started

theorem accounts_run {acts : List Act} {start finish : Server × List CanTraffic.Act}
    (run : Transition.Run (Transition.Watched note (Steps config framing liquidCan)) start acts finish)
    (accounts : Accounts config framing start.1 start.2) : Accounts config framing finish.1 finish.2 := by
  refine run.invariant (fun seen => Accounts config framing seen.1 seen.2) ?_ accounts
  rintro ⟨before, journal⟩ act ⟨after, later⟩ accounts ⟨stepped, noted⟩
  simp only at noted
  subst noted
  exact accounts_next accounts stepped

theorem accounts_of_run {acts : List Act} {finish : Server}
    (run : Transition.Run (Steps config framing liquidCan) (new config mapping) acts finish) :
    ∃ journal, Transition.Run (Transition.Watched note (Steps config framing liquidCan)) (new config mapping, []) acts
        (finish, journal) ∧ Accounts config framing finish journal := by
  obtain ⟨journal, watched⟩ := run.watched note []
  exact ⟨journal, watched, accounts_run watched (accounts_new config framing mapping)⟩

end Accounts

end Server

end FerroFlow
