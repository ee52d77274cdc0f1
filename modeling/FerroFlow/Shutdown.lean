import FerroFlow.Messages

/-! How the workers come to their end: each takes its events up to the first shutdown, and its channel
stays open until then. -/

namespace FerroFlow

open Broadcast (takenFrom)

def endsWorker (entry : Thread × Event) : Bool :=
  entry.2.isShutdown

def Worker.isCan : Worker → Bool
  | canRecv _ => true
  | canSend => true
  | _ => false

namespace CanTraffic

section Taken

variable {config : Config} {framing : LiquidCanFraming} {state after : CanTraffic} {act : Act}

def Advances (state after : CanTraffic) (worker : Worker) : Prop :=
  (after.taken worker = state.taken worker ∧ (worker ∈ after.ended ↔ worker ∈ state.ended)) ∨
  ∃ entry, state.pending worker = some entry ∧ worker.isCan = true ∧ worker ∉ state.ended ∧
    after.taken worker = state.taken worker + 1 ∧ (worker ∈ after.ended ↔ endsWorker entry = true)

theorem advances_still (taken : after.taken = state.taken) (ended : after.ended = state.ended) (worker : Worker) :
    Advances state after worker := by
  refine Or.inl ⟨congrFun taken worker, ?_⟩
  rw [ended]

theorem advances_advance {reader : Worker} {entry : Thread × Event} (pending : state.pending reader = some entry)
    (reads : reader.isCan = true) (looping : reader ∉ state.ended) (taken : after.taken = (state.advance reader).taken)
    (ended : after.ended = if endsWorker entry then reader :: state.ended else state.ended) (worker : Worker) :
    Advances state after worker := by
  by_cases same : worker = reader
  · subst same
    refine Or.inr ⟨entry, pending, reads, looping, (congrFun taken worker).trans (taken_advance_self worker state), ?_⟩
    rw [ended]
    cases endsWorker entry <;> simp [looping]
  · refine Or.inl ⟨(congrFun taken worker).trans (taken_advance_of_ne same state), ?_⟩
    rw [ended]
    cases endsWorker entry <;> simp [same]

theorem not_ended_of_looping {worker : Worker} (looping : state.isLooping worker = true) : worker ∉ state.ended := by
  simp only [isLooping, Bool.decide_and, Bool.and_eq_true, decide_eq_true_eq] at looping
  exact looping.2.1

theorem pendingShutdown_iff {worker : Worker} {entry : Thread × Event} (pending : state.pending worker = some entry) :
    state.pendingShutdown worker = endsWorker entry := by
  obtain ⟨thread, event⟩ := entry
  unfold pendingShutdown
  rw [pending]
  cases event <;> rfl

theorem pending_of_shutdown {worker : Worker} (shutdown : state.pendingShutdown worker = true) :
    ∃ entry, state.pending worker = some entry ∧ endsWorker entry = true := by
  cases pending : state.pending worker with
  | none =>
      unfold pendingShutdown at shutdown
      rw [pending] at shutdown
      cases shutdown
  | some entry => exact ⟨entry, rfl, (pendingShutdown_iff pending).symm.trans shutdown⟩

theorem advances_receive {index : ℕ} {read : ReadFrame}
    (stepped : state.receive config framing index read = some after) (worker : Worker) :
    Advances state after worker := by
  simp only [receive, Option.ite_none_right_eq_some] at stepped
  obtain ⟨⟨looping, noShutdown⟩, stepped⟩ := stepped
  set polled := if (state.pending (.canRecv index)).isSome then state.advance (.canRecv index) else state
    with polling
  have kept : after.taken = polled.taken ∧ after.ended = polled.ended := by
    cases heard : receives config framing index read with
    | none =>
        rw [heard] at stepped
        obtain rfl := Option.some.inj stepped
        exact ⟨rfl, rfl⟩
    | some event =>
        rw [heard] at stepped
        obtain ⟨startUp, _, rfl⟩ := stepOther_iff.mp stepped
        exact ⟨rfl, rfl⟩
  cases pending : state.pending (.canRecv index) with
  | none =>
      rw [pending] at polling
      rw [polling] at kept
      exact advances_still kept.1 kept.2 worker
  | some entry =>
      rw [pending] at polling
      rw [polling] at kept
      rw [pendingShutdown_iff pending] at noShutdown
      refine advances_advance pending rfl (not_ended_of_looping looping) kept.1 ?_ worker
      rw [if_neg noShutdown]
      exact kept.2

theorem advances_take (stepped : state.take = some after) (worker : Worker) : Advances state after worker := by
  simp only [take, Option.bind_eq_bind, Option.bind_eq_some_iff, Option.ite_none_right_eq_some] at stepped
  obtain ⟨⟨thread, event⟩, pending, ⟨looping, _⟩, took⟩ := stepped
  refine advances_advance pending rfl (not_ended_of_looping looping) ?_ ?_ worker
  · cases event <;> (obtain rfl := Option.some.inj took; rfl)
  · cases event <;> (obtain rfl := Option.some.inj took; rfl)

theorem advances_next (stepped : Steps config framing state act after) (worker : Worker) :
    Advances state after worker := by
  cases act with
  | other seen =>
      simp only [Steps, next, Option.ite_none_right_eq_some] at stepped
      obtain ⟨startUp, _, rfl⟩ := stepOther_iff.mp stepped.2
      refine advances_still ?_ ?_ worker <;> rfl
  | receive index read => exact advances_receive stepped worker
  | stopReceiving index =>
      simp only [Steps, next, stopReceiving, Option.ite_none_right_eq_some, Option.some.injEq] at stepped
      obtain ⟨⟨looping, shutdown⟩, rfl⟩ := stepped
      obtain ⟨entry, pending, ends⟩ := pending_of_shutdown shutdown
      refine advances_advance pending rfl (not_ended_of_looping looping) ?_ ?_ worker
      · rfl
      · rw [if_pos ends]
  | take => exact advances_take stepped worker
  | write succeeds =>
      simp only [Steps, next, write, Option.bind_eq_bind, Option.bind_eq_some_iff, Option.some.injEq] at stepped
      obtain ⟨_, _, _, _, rfl⟩ := stepped
      refine advances_still ?_ ?_ worker <;> rfl
  | nextEvent =>
      simp only [Steps, next, nextEvent, Option.bind_eq_bind, Option.bind_eq_some_iff,
        Option.ite_none_right_eq_some, Option.some.injEq] at stepped
      obtain ⟨_, _, _, rfl⟩ := stepped
      refine advances_still ?_ ?_ worker <;> rfl
  | leave leaver =>
      simp only [Steps, next, Option.ite_none_right_eq_some] at stepped
      obtain ⟨startUp, _, rfl⟩ := stepOther_iff.mp stepped.2
      refine advances_still ?_ ?_ worker <;> rfl

def Ends (state : CanTraffic) (worker : Worker) : Prop :=
  Consumer.Stops endsWorker (state.inbox worker) (state.taken worker) (decide (worker ∉ state.ended))

theorem ends_next {worker : Worker} (ends : state.Ends worker) (stepped : Steps config framing state act after) :
    after.Ends worker := by
  have grows := inbox_next stepped worker
  unfold Ends at ends ⊢
  rcases advances_next stepped worker with ⟨taken, ended⟩ | ⟨entry, pending, _, looping, taken, ended⟩
  · rw [taken, decide_eq_decide.mpr (not_congr ended)]
    exact ends.grow grows
  · rw [decide_eq_true looping] at ends
    have goesOn : decide (worker ∉ after.ended) = !endsWorker entry := by
      cases last : endsWorker entry <;> simp [ended, last]
    rw [taken, goesOn]
    exact (ends.next pending).grow grows

theorem ended_next (stepped : Steps config framing state act after) {worker : Worker} (ended : worker ∈ state.ended) :
    worker ∈ after.ended := by
  rcases advances_next stepped worker with ⟨_, same⟩ | ⟨_, _, _, looping, _⟩
  · exact same.mpr ended
  · exact absurd ended looping

theorem isCan_next (stepped : Steps config framing state act after) {worker : Worker}
    (before : worker ∈ state.ended → worker.isCan = true) (ended : worker ∈ after.ended) : worker.isCan = true := by
  rcases advances_next stepped worker with ⟨_, same⟩ | ⟨_, _, reads, _⟩
  · exact before (same.mp ended)
  · exact reads

def Act.closes : Act → List Worker
  | other (.close worker) => [worker]
  | leave worker => [worker]
  | _ => []

theorem closed_next (stepped : Steps config framing state act after) :
    after.startUp.dispatching.closed = act.closes.map Worker.channel ++ state.startUp.dispatching.closed := by
  have moved := startUp_next stepped
  cases seen : act.startUp? config framing with
  | none =>
      rw [seen] at moved
      rw [moved]
      cases act <;> first | rfl | cases seen
  | some seenAct =>
      rw [seen] at moved
      have dispatched := (StartUp.step_cases moved).2.1
      have same : ((seenAct.move? config framing.nodeIdBroadcast).map Broadcast.Move.closes).getD [] =
          act.closes.map Worker.channel := by
        cases act with
        | other act =>
            obtain rfl := Option.some.inj seen
            cases act with
            | proceed instruction => cases instruction <;> rfl
            | _ => rfl
        | receive index read =>
            obtain ⟨event, _, rfl⟩ := Option.map_eq_some_iff.mp seen
            rfl
        | leave worker =>
            obtain rfl := Option.some.inj seen
            rfl
        | _ => cases seen
      rw [← same]
      unfold StartUp.dispatch at dispatched
      cases move : seenAct.move? config framing.nodeIdBroadcast with
      | none =>
          rw [move] at dispatched
          rw [← Option.some.inj dispatched]
          rfl
      | some move =>
          rw [move] at dispatched
          exact Broadcast.closed_next dispatched

end Taken

end CanTraffic

namespace Server

section Ending

variable {config : Config} {framing : LiquidCanFraming} {liquidCan : LiquidCan} {mapping : Mapping}
  {state after : Server} {act : Act}

/-- How far a worker has come in its queue. The sequence runner stands apart, and does not move here. -/
def position (state : Server) : Worker → ℕ
  | .canMsgHandler => state.handled
  | .databaseLogger => state.recorded
  | .heartbeat => if state.beating then 0 else 1
  | worker => state.traffic.taken worker

def runs (state : Server) : Worker → Bool
  | .canMsgHandler => state.handling
  | .databaseLogger => state.logging.running
  | .heartbeat => state.beating
  | worker => decide (worker ∉ state.traffic.ended)

def Ends (state : Server) (worker : Worker) : Prop :=
  Consumer.Stops endsWorker (state.traffic.inbox worker) (state.position worker) (state.runs worker)

structure Ending (state : Server) : Prop where
  ends : ∀ worker, state.Ends worker
  readers : ∀ worker ∈ state.traffic.ended, worker.isCan = true
  closed : ∀ worker, worker ≠ .sequenceRunner → worker.channel ∈ state.traffic.startUp.dispatching.closed →
    state.runs worker = false

theorem Ending.open_of_running (ending : Ending state) {worker : Worker} (apart : worker ≠ .sequenceRunner)
    (runs : state.runs worker = true) : worker.channel ∉ state.traffic.startUp.dispatching.closed := by
  intro closed
  rw [ending.closed worker apart closed] at runs
  cases runs

theorem running_of_iteration {worker logging : LoggingWorker} {event : Event} {answer : Except String Unit}
    (moved : worker.Steps { received := .ok event, answer } logging) :
    worker.running = true ∧ logging.running = !event.isShutdown := by
  obtain ⟨running, rfl⟩ := LoggingWorker.iterate_of_steps moved
  refine ⟨running, ?_⟩
  cases event with
  | nodeFieldUpdated log =>
      simp only [LoggingWorker.iterate]
      split
      · exact running
      · exact (LoggingWorker.flushBatch_running _ _).trans running
  | shutdown => rfl
  | _ => exact running

theorem running_of_timeout {worker logging : LoggingWorker} {answer : Except String Unit}
    (moved : worker.Steps { received := .error .timeout, answer } logging) : logging.running = worker.running := by
  obtain ⟨running, rfl⟩ := LoggingWorker.iterate_of_steps moved
  simp only [LoggingWorker.iterate]
  split
  · rfl
  · exact LoggingWorker.flushBatch_running _ _

theorem handling_of_ready (ready : state.handlerReady = true) : state.handling = true := by
  simp only [handlerReady, Bool.decide_and, Bool.and_eq_true, decide_eq_true_eq] at ready
  exact ready.2.1

theorem beating_of_ready (ready : state.heartbeatReady = true) : state.beating = true := by
  simp only [heartbeatReady, Bool.decide_and, Bool.and_eq_true, decide_eq_true_eq] at ready
  exact ready.2.1

def Comes (state after : Server) (worker : Worker) : Prop :=
  (after.position worker = state.position worker ∧ after.runs worker = state.runs worker) ∨
  ∃ entry, (state.traffic.inbox worker)[state.position worker]? = some entry ∧ state.runs worker = true ∧
    after.position worker = state.position worker + 1 ∧ after.runs worker = !endsWorker entry

theorem comes_logger (stepped : Steps config framing liquidCan state act after) :
    Comes state after .databaseLogger := by
  cases effect_of_steps stepped with
  | record waiting moved =>
      obtain ⟨entry, there, rfl⟩ := Option.map_eq_some_iff.mp waiting
      obtain ⟨running, runs⟩ := running_of_iteration moved
      exact Or.inr ⟨entry, there, running, rfl, runs⟩
  | flush _ moved => exact Or.inl ⟨rfl, running_of_timeout moved⟩
  | _ => exact Or.inl ⟨rfl, rfl⟩

theorem comes_handler (stepped : Steps config framing liquidCan state act after) :
    Comes state after .canMsgHandler := by
  cases effect_of_steps stepped with
  | handle moved ready waiting content =>
      obtain ⟨⟨thread, event⟩, there, rfl⟩ := Option.map_eq_some_iff.mp waiting
      have goesOn : endsWorker (thread, event) = false := by
        cases event <;> first | rfl | cases content
      have handling := handling_of_ready ready
      refine Or.inr ⟨_, there, handling, rfl, ?_⟩
      rw [goesOn]
      exact handling
  | endHandling ready idle waiting shutdown =>
      obtain ⟨entry, there, rfl⟩ := Option.map_eq_some_iff.mp waiting
      refine Or.inr ⟨_, there, handling_of_ready ready, rfl, ?_⟩
      unfold endsWorker
      rw [shutdown]
      rfl
  | _ => exact Or.inl ⟨rfl, rfl⟩

theorem comes_heartbeat (stepped : Steps config framing liquidCan state act after) : Comes state after .heartbeat := by
  cases effect_of_steps stepped with
  | endBeating ready waiting shutdown =>
      obtain ⟨entry, there, rfl⟩ := Option.map_eq_some_iff.mp waiting
      have beating := beating_of_ready ready
      have first : state.position .heartbeat = 0 := if_pos beating
      refine Or.inr ⟨entry, by rwa [first], beating, by rw [first]; rfl, ?_⟩
      unfold endsWorker
      rw [shutdown]
      rfl
  | _ => exact Or.inl ⟨rfl, rfl⟩

theorem ends_comes {worker : Worker} (ends : state.Ends worker)
    (stepped : Steps config framing liquidCan state act after) (comes : Comes state after worker) :
    after.Ends worker := by
  have grows := inbox_grows stepped worker
  unfold Ends at ends ⊢
  rcases comes with ⟨position, runs⟩ | ⟨entry, there, running, position, runs⟩
  · rw [position, runs]
    exact ends.grow grows
  · rw [running] at ends
    rw [position, runs]
    exact (ends.next there).grow grows

theorem ends_traffic {worker : Worker} (ends : state.traffic.Ends worker)
    (stepped : Steps config framing liquidCan state act after) : after.traffic.Ends worker :=
  (traffic_next stepped).invariant (fun traffic => traffic.Ends worker)
    (fun _ _ _ before moved => CanTraffic.ends_next before moved) ends

theorem ends_next {worker : Worker} (ends : state.Ends worker)
    (stepped : Steps config framing liquidCan state act after) : after.Ends worker := by
  cases worker with
  | databaseLogger => exact ends_comes ends stepped (comes_logger stepped)
  | canMsgHandler => exact ends_comes ends stepped (comes_handler stepped)
  | heartbeat => exact ends_comes ends stepped (comes_heartbeat stepped)
  | _ => exact ends_traffic ends stepped

theorem stays_stopped {worker : Worker} (stopped : state.runs worker = false) (comes : Comes state after worker) :
    after.runs worker = false := by
  rcases comes with ⟨_, same⟩ | ⟨_, _, running, _⟩
  · exact same.trans stopped
  · rw [stopped] at running
    cases running

theorem ended_traffic {worker : Worker} (ended : worker ∈ state.traffic.ended)
    (stepped : Steps config framing liquidCan state act after) : worker ∈ after.traffic.ended :=
  (traffic_next stepped).invariant (fun traffic => worker ∈ traffic.ended)
    (fun _ _ _ before moved => CanTraffic.ended_next moved before) ended

theorem runs_next {worker : Worker} (stepped : Steps config framing liquidCan state act after)
    (stopped : state.runs worker = false) : after.runs worker = false := by
  cases worker with
  | databaseLogger => exact stays_stopped stopped (comes_logger stepped)
  | canMsgHandler => exact stays_stopped stopped (comes_handler stepped)
  | heartbeat => exact stays_stopped stopped (comes_heartbeat stepped)
  | _ =>
      simp only [runs, decide_eq_false_iff_not, not_not] at stopped ⊢
      exact ended_traffic stopped stepped

theorem runs_of_isCan {worker : Worker} (reads : worker.isCan = true) :
    state.runs worker = decide (worker ∉ state.traffic.ended) := by
  cases worker <;> first | rfl | cases reads

theorem runs_of_hasLeft {worker : Worker} (left : state.hasLeft worker = true) : state.runs worker = false := by
  cases worker <;> first | exact Bool.not_eq_true' _ ▸ left | cases left

theorem closes_of_outside {seen : CanTraffic.Act} {traffic : CanTraffic} (outside : isOutside seen = true)
    (moved : CanTraffic.Steps config framing state.traffic seen traffic) {worker : Worker}
    (closes : worker ∈ seen.closes) : worker = .sequenceRunner ∨ worker ∈ state.traffic.ended := by
  cases seen with
  | other act =>
      cases act with
      | close closing =>
          obtain rfl := List.mem_singleton.mp closes
          simp only [CanTraffic.Steps, CanTraffic.next, Option.ite_none_right_eq_some] at moved
          obtain ⟨free, _⟩ := moved
          cases worker with
          | sequenceRunner => exact Or.inl rfl
          | canRecv index => cases free
          | canSend => cases free
          | _ => cases outside
      | _ => cases closes
  | leave leaver =>
      obtain rfl := List.mem_singleton.mp closes
      simp only [CanTraffic.Steps, CanTraffic.next, Option.ite_none_right_eq_some] at moved
      exact Or.inr moved.1
  | _ => cases closes

theorem closed_next (readers : ∀ worker ∈ state.traffic.ended, worker.isCan = true)
    (stepped : Steps config framing liquidCan state act after) {worker : Worker} (apart : worker ≠ .sequenceRunner)
    (closed : worker.channel ∈ after.traffic.startUp.dispatching.closed) :
    worker.channel ∈ state.traffic.startUp.dispatching.closed ∨ state.runs worker = false := by
  have here {seen : CanTraffic.Act} {traffic : CanTraffic}
      (moved : CanTraffic.Steps config framing state.traffic seen traffic)
      (closed : worker.channel ∈ traffic.startUp.dispatching.closed) :
      worker.channel ∈ state.traffic.startUp.dispatching.closed ∨ worker ∈ seen.closes := by
    rw [CanTraffic.closed_next moved, List.mem_append, List.mem_map] at closed
    rcases closed with ⟨other, closes, same⟩ | before
    · exact Or.inr (Worker.channel_inj.mp same ▸ closes)
    · exact Or.inl before
  cases effect_of_steps stepped with
  | other outside moved =>
      refine (here moved closed).imp_right fun closes => ?_
      have ended := (closes_of_outside outside moved closes).resolve_left apart
      rw [runs_of_isCan (readers worker ended)]
      simpa using ended
  | dispatchLog _ moved => exact (here moved closed).imp_right fun closes => by cases closes
  | dispatchRequest _ moved => exact (here moved closed).imp_right fun closes => by cases closes
  | leave left moved =>
      refine (here moved closed).imp_right fun closes => ?_
      obtain rfl := List.mem_singleton.mp closes
      exact runs_of_hasLeft left
  | _ => exact Or.inl closed

theorem readers_next (readers : ∀ worker ∈ state.traffic.ended, worker.isCan = true)
    (stepped : Steps config framing liquidCan state act after) :
    ∀ worker ∈ after.traffic.ended, worker.isCan = true :=
  (traffic_next stepped).invariant (fun traffic => ∀ worker ∈ traffic.ended, worker.isCan = true)
    (fun _ _ _ before moved worker => CanTraffic.isCan_next moved (before worker)) readers

theorem ending_next (ending : Ending state) (stepped : Steps config framing liquidCan state act after) :
    Ending after where
  ends worker := ends_next (ending.ends worker) stepped
  readers := readers_next ending.readers stepped
  closed worker apart closed := by
    refine runs_next stepped ?_
    rcases closed_next ending.readers stepped apart closed with before | stopped
    · exact ending.closed worker apart before
    · exact stopped

theorem ending_new (config : Config) (mapping : Mapping) : Ending (new config mapping) where
  ends worker := by
    have begun := Consumer.stops_new endsWorker ((new config mapping).traffic.inbox worker)
    cases worker <;> exact begun
  readers worker impossible := by cases impossible
  closed worker apart impossible := by cases impossible

theorem ending_run {acts : List Act} {finish : Server}
    (run : Transition.Run (Steps config framing liquidCan) (new config mapping) acts finish) : Ending finish :=
  run.invariant Ending (fun _ _ _ ending stepped => ending_next ending stepped) (ending_new config mapping)

end Ending

section Correct

variable {config : Config} {framing : LiquidCanFraming} {liquidCan : LiquidCan} {mapping : Mapping} {finish : Server}

def untilShutdown (queue : List (Thread × Event)) : List (Thread × Event) :=
  queue.takeWhile fun entry => !endsWorker entry

theorem shutdown_of_ends {entry : Thread × Event} (ends : endsWorker entry = true) :
    entry = (entry.1, .shutdown) := by
  obtain ⟨thread, event⟩ := entry
  cases event <;> first | rfl | cases ends

theorem taken_of_stopped {worker : Worker} (ending : Ending finish) (stopped : finish.runs worker = false) :
    ∃ thread, (finish.traffic.inbox worker).take (finish.position worker) =
      untilShutdown (finish.traffic.inbox worker) ++ [(thread, .shutdown)] := by
  have ends := ending.ends worker
  unfold Ends at ends
  rw [stopped] at ends
  obtain ⟨last, shutdown, taken⟩ := ends.before
  refine ⟨last.1, ?_⟩
  rw [← shutdown_of_ends shutdown]
  exact taken

section Stopped

variable {state after : Server} {act : Act} {acts : List Act}

end Stopped

end Correct

end Server

end FerroFlow
