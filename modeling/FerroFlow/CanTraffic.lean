import FerroFlow.CanThreads
import FerroFlow.StartUp

/-! The CAN threads at work: the receive threads dispatch what they read, and the send thread takes its
events one after the other and writes to one interface after the other. -/

namespace FerroFlow

open Broadcast (started)

structure Sending where
  thread : Thread
  event : Event
  reached : ℕ

structure Write where
  thread : Thread
  event : Event
  destination : ℕ
  frame : CanAnyFrame
  succeeded : Bool

structure CanTraffic where
  startUp : StartUp
  taken : Worker → ℕ := fun _ => 0
  ended : List Worker := []
  sending : Option Sending := none
  writes : List Write := []

namespace CanTraffic

inductive Act
  | other (act : StartUp.Act)
  | receive (index : ℕ) (read : ReadFrame)
  | stopReceiving (index : ℕ)
  | take
  | write (succeeds : Bool)
  | nextEvent
  | leave (worker : Worker)

/-- Only `receiveFrame` makes messages and relays, and the CAN threads do nothing but what is below. -/
def isFree : StartUp.Act → Bool
  | .start (.worker (.canRecv _)) _ => false
  | .start (.worker .canSend) _ => false
  | .start _ (.relayCanMessage _ _) => false
  | .start _ (.canMessageReceived _ _) => false
  | .close (.canRecv _) => false
  | .close .canSend => false
  | _ => true

def inbox (worker : Worker) (state : CanTraffic) : List (Thread × Event) :=
  state.startUp.dispatching.inbox worker.channel

def pending (worker : Worker) (state : CanTraffic) : Option (Thread × Event) :=
  (state.inbox worker)[state.taken worker]?

def pendingShutdown (worker : Worker) (state : CanTraffic) : Bool :=
  match state.pending worker with
  | some (_, .shutdown) => true
  | _ => false

def advance (worker : Worker) (state : CanTraffic) : CanTraffic where
  startUp := state.startUp
  taken := Function.update state.taken worker (state.taken worker + 1)
  ended := state.ended
  sending := state.sending
  writes := state.writes

theorem taken_advance_self (worker : Worker) (state : CanTraffic) :
    (state.advance worker).taken worker = state.taken worker + 1 :=
  Function.update_self worker _ _

theorem taken_advance_of_ne {worker other : Worker} (different : other ≠ worker) (state : CanTraffic) :
    (state.advance worker).taken other = state.taken other :=
  Function.update_of_ne different _ _

def isLooping (worker : Worker) (state : CanTraffic) : Bool :=
  worker ∈ state.startUp.spawned ∧ worker ∉ state.ended ∧
    (state.startUp.dispatching.walks.lookup (.worker worker)).isNone

section System

variable (config : Config) (framing : LiquidCanFraming)

def stepOther (act : StartUp.Act) (state : CanTraffic) : Option CanTraffic :=
  (state.startUp.next config framing.nodeIdBroadcast act).map fun startUp => { state with startUp := startUp }

def receives (index : ℕ) (read : ReadFrame) : Option Event := do
  let interface ← config.canBusInterfaces[index]?
  (framing.receiveFrame interface read).toOption.join

/-- A receive thread looks for a shutdown in its queue before every read. -/
def receive (index : ℕ) (read : ReadFrame) (state : CanTraffic) : Option CanTraffic :=
  let worker := Worker.canRecv index
  if state.isLooping worker ∧ ¬ state.pendingShutdown worker then
    let polled := if (state.pending worker).isSome then state.advance worker else state
    match receives config framing index read with
    | some event => polled.stepOther config framing (.start (.worker worker) event)
    | none => some polled
  else none

def stopReceiving (index : ℕ) (state : CanTraffic) : Option CanTraffic :=
  let worker := Worker.canRecv index
  if state.isLooping worker ∧ state.pendingShutdown worker then
    some { state.advance worker with ended := worker :: state.ended }
  else none

def take (state : CanTraffic) : Option CanTraffic := do
  let (thread, event) ← state.pending .canSend
  if state.isLooping .canSend ∧ state.sending.isNone then
    match event with
    | .shutdown => some { state.advance .canSend with ended := .canSend :: state.ended }
    | .sendCanMessage _ _ => some { state.advance .canSend with sending := some ⟨thread, event, 0⟩ }
    | .relayCanMessage _ _ => some { state.advance .canSend with sending := some ⟨thread, event, 0⟩ }
    | _ => some (state.advance .canSend)
  else none

/-- A failed write is reported, and the loop over the interfaces goes on. -/
def write (succeeds : Bool) (state : CanTraffic) : Option CanTraffic := do
  let sending ← state.sending
  let interface ← config.canBusInterfaces[sending.reached]?
  some { state with
    sending := some { sending with reached := sending.reached + 1 }
    writes := state.writes ++ (framing.outgoing interface sending.event).toList.map fun frame =>
      ⟨sending.thread, sending.event, sending.reached, frame, succeeds⟩ }

def nextEvent (state : CanTraffic) : Option CanTraffic := do
  let sending ← state.sending
  if sending.reached = config.canBusInterfaces.length then some { state with sending := none } else none

def next (state : CanTraffic) : Act → Option CanTraffic
  | .other act => if isFree act then state.stepOther config framing act else none
  | .receive index read => state.receive config framing index read
  | .stopReceiving index => state.stopReceiving index
  | .take => state.take
  | .write succeeds => state.write config framing succeeds
  | .nextEvent => state.nextEvent config
  | .leave worker => if worker ∈ state.ended then state.stepOther config framing (.close worker) else none

def Steps (start : CanTraffic) (act : Act) (finish : CanTraffic) : Prop :=
  start.next config framing act = some finish

def new : CanTraffic where
  startUp := StartUp.new config

def Act.startUp? : Act → Option StartUp.Act
  | other act => some act
  | receive index read => (receives config framing index read).map (.start (.worker (.canRecv index)))
  | leave worker => some (.close worker)
  | _ => none

end System

section Step

variable {config : Config} {framing : LiquidCanFraming} {state after : CanTraffic} {act : Act}

theorem stepOther_iff {seen : StartUp.Act} : state.stepOther config framing seen = some after ↔
    ∃ startUp, StartUp.Steps config framing.nodeIdBroadcast state.startUp seen startUp ∧
      { state with startUp := startUp } = after :=
  Option.map_eq_some_iff

theorem receive_cases {index : ℕ} {read : ReadFrame} (stepped : state.receive config framing index read = some after) :
    (match receives config framing index read with
      | some event => StartUp.Steps config framing.nodeIdBroadcast state.startUp
          (.start (.worker (.canRecv index)) event) after.startUp
      | none => after.startUp = state.startUp) ∧
    after.taken .canSend = state.taken .canSend ∧ after.sending = state.sending ∧ after.writes = state.writes := by
  simp only [receive, Option.ite_none_right_eq_some] at stepped
  obtain ⟨_, stepped⟩ := stepped
  set polled := if (state.pending (.canRecv index)).isSome then state.advance (.canRecv index) else state
    with polling
  have kept : polled.startUp = state.startUp ∧ polled.taken .canSend = state.taken .canSend ∧
      polled.sending = state.sending ∧ polled.writes = state.writes := by
    rw [polling]
    split
    · exact ⟨rfl, taken_advance_of_ne (by simp) state, rfl, rfl⟩
    · exact ⟨rfl, rfl, rfl, rfl⟩
  cases heard : receives config framing index read with
  | none =>
      rw [heard] at stepped
      obtain rfl := Option.some.inj stepped
      exact kept
  | some event =>
      rw [heard] at stepped
      obtain ⟨startUp, started, rfl⟩ := stepOther_iff.mp stepped
      rw [kept.1] at started
      exact ⟨started, kept.2⟩

theorem startUp_next (stepped : Steps config framing state act after) :
    match act.startUp? config framing with
    | some seen => StartUp.Steps config framing.nodeIdBroadcast state.startUp seen after.startUp
    | none => after.startUp = state.startUp := by
  cases act with
  | other seen =>
      simp only [Steps, next, Option.ite_none_right_eq_some] at stepped
      obtain ⟨startUp, taken, rfl⟩ := stepOther_iff.mp stepped.2
      exact taken
  | receive index read =>
      have received := (receive_cases stepped).1
      simp only [Act.startUp?]
      cases heard : receives config framing index read with
      | none =>
          rw [heard] at received
          exact received
      | some event =>
          rw [heard] at received
          exact received
  | stopReceiving index =>
      simp only [Steps, next, stopReceiving, Option.ite_none_right_eq_some, Option.some.injEq] at stepped
      obtain ⟨_, rfl⟩ := stepped
      rfl
  | take =>
      simp only [Steps, next, take, Option.bind_eq_bind, Option.bind_eq_some_iff,
        Option.ite_none_right_eq_some] at stepped
      obtain ⟨⟨thread, event⟩, _, _, took⟩ := stepped
      cases event <;> (obtain rfl := Option.some.inj took; rfl)
  | write succeeds =>
      simp only [Steps, next, write, Option.bind_eq_bind, Option.bind_eq_some_iff, Option.some.injEq] at stepped
      obtain ⟨_, _, _, _, rfl⟩ := stepped
      rfl
  | nextEvent =>
      simp only [Steps, next, nextEvent, Option.bind_eq_bind, Option.bind_eq_some_iff,
        Option.ite_none_right_eq_some, Option.some.injEq] at stepped
      obtain ⟨_, _, _, rfl⟩ := stepped
      rfl
  | leave worker =>
      simp only [Steps, next, Option.ite_none_right_eq_some] at stepped
      obtain ⟨startUp, taken, rfl⟩ := stepOther_iff.mp stepped.2
      exact taken

theorem startUp_run {acts : List Act} (run : Transition.Run (Steps config framing) state acts after) :
    Transition.Run (StartUp.Steps config framing.nodeIdBroadcast) state.startUp
      (acts.filterMap (Act.startUp? config framing)) after.startUp := by
  refine run.project CanTraffic.startUp (Act.startUp? config framing) ?_ ?_
  · intro before act later seen stepped visible
    have moved := startUp_next stepped
    rw [visible] at moved
    exact moved
  · intro before act later stepped hidden
    have moved := startUp_next stepped
    rw [hidden] at moved
    exact moved

theorem inbox_next (stepped : Steps config framing state act after) (worker : Worker) :
    state.inbox worker <+: after.inbox worker :=
  Broadcast.inbox_run (StartUp.moves_run (startUp_run (Transition.Run.cons stepped (Transition.Run.nil after))))
    worker.channel

end Step

section Reads

def Act.read? (index : ℕ) : Act → Option ReadFrame
  | receive source read => if source = index then some read else none
  | _ => none

def reads (index : ℕ) (acts : List Act) : List ReadFrame :=
  acts.filterMap (Act.read? index)

def Act.isFree : Act → Bool
  | other act => CanTraffic.isFree act
  | _ => true

variable (config : Config) (framing : LiquidCanFraming)

def Act.event? (thread : Thread) (act : Act) : Option Event :=
  (act.startUp? config framing).bind fun seen =>
    (seen.move? config framing.nodeIdBroadcast).bind (Broadcast.Move.event? thread)

variable {config framing} {state after : CanTraffic} {act : Act} {acts : List Act} {worker : Worker}
  {index : ℕ} {interface : String}

theorem dispatched_eq (worker : Worker) (thread : Thread) (acts : List Act) :
    StartUp.dispatched config framing.nodeIdBroadcast worker thread (acts.filterMap (Act.startUp? config framing)) =
      (acts.filterMap (Act.event? config framing thread)).filter
        (worker.listener config.canBusInterfaces).wants := by
  unfold StartUp.dispatched started
  rw [List.filterMap_filterMap, List.filterMap_filterMap]
  rfl

theorem free_run (run : Transition.Run (Steps config framing) state acts after) : ∀ act ∈ acts, act.isFree = true := by
  induction run with
  | nil => simp
  | @cons state act middle acts after first _ ih =>
      refine List.forall_mem_cons.mpr ⟨?_, ih⟩
      cases act with
      | other seen =>
          simp only [Steps, next, Option.ite_none_right_eq_some] at first
          exact first.1
      | _ => rfl

theorem event_of_receiver (free : act.isFree = true) (there : config.canBusInterfaces[index]? = some interface) :
    act.event? config framing (.worker (.canRecv index)) =
      (act.read? index).bind fun read => (framing.receiveFrame interface read).toOption.join := by
  cases act with
  | other seen =>
      cases seen with
      | proceed instruction => cases instruction <;> rfl
      | start thread event =>
          have different : thread ≠ .worker (.canRecv index) := by
            rintro rfl
            cases free
          exact if_neg different
      | _ => rfl
  | receive source read =>
      by_cases own : source = index
      · subst own
        cases heard : (framing.receiveFrame interface read).toOption.join <;>
          simp [Act.event?, Act.startUp?, Act.read?, receives, there, heard, StartUp.Act.move?,
            Broadcast.Move.event?]
      · cases heard : receives config framing source read <;>
          simp [Act.event?, Act.startUp?, Act.read?, heard, own, StartUp.Act.move?, Broadcast.Move.event?]
  | leave worker => rfl
  | _ => rfl

theorem frameTo_of_free {starter : Thread} {event : Event} (free : CanTraffic.isFree (.start starter event) = true)
    (interface : String) : event.frameTo interface = none := by
  cases event with
  | relayCanMessage fromInterface frame =>
      cases starter with
      | worker worker => cases worker <;> cases free
      | _ => cases free
  | _ => rfl

theorem event_of_other {thread : Thread} (free : act.isFree = true)
    (noReceiver : ∀ index, thread ≠ .worker (.canRecv index)) (interface : String) :
    (act.event? config framing thread).bind (Event.frameTo interface) = none := by
  cases act with
  | other seen =>
      cases seen with
      | proceed instruction =>
          cases instruction with
          | startNodeRegistration =>
              by_cases own : Thread.main = thread <;>
                simp [Act.event?, Act.startUp?, StartUp.Act.move?, Broadcast.Move.event?, own, Event.frameTo]
          | _ => rfl
      | start starter event =>
          have nothing := frameTo_of_free free interface
          by_cases own : starter = thread <;>
            simp [Act.event?, Act.startUp?, StartUp.Act.move?, Broadcast.Move.event?, own, nothing]
      | _ => rfl
  | receive source read =>
      cases heard : receives config framing source read with
      | none => simp [Act.event?, Act.startUp?, heard]
      | some event =>
          simp [Act.event?, Act.startUp?, heard, StartUp.Act.move?, Broadcast.Move.event?, (noReceiver source).symm]
  | _ => rfl

theorem receiver_dispatches (free : ∀ act ∈ acts, act.isFree = true)
    (there : config.canBusInterfaces[index]? = some interface) (worker : Worker) :
    StartUp.dispatched config framing.nodeIdBroadcast worker (.worker (.canRecv index))
        (acts.filterMap (Act.startUp? config framing)) =
      (reads index acts).filterMap fun read => (((framing.forRelay read).map (.relayCanMessage interface)).or
        (framing.forServer read)).filter (worker.listener config.canBusInterfaces).wants := by
  rw [dispatched_eq, List.filter_filterMap]
  unfold reads
  rw [List.filterMap_filterMap]
  refine List.filterMap_congr fun act member => ?_
  rw [event_of_receiver (free act member) there]
  cases act.read? index with
  | none => rfl
  | some read =>
      rw [Option.bind_some, LiquidCanFraming.receiveFrame_routes]
      rfl

end Reads

section Heedless

def heedless (state : CanTraffic) : CanTraffic where
  startUp := state.startUp
  taken := state.taken
  ended := state.ended
  sending := state.sending
  writes := state.writes.map fun write => { write with succeeded := true }

def Act.heedless : Act → Act
  | write _ => write true
  | act => act

variable {config : Config} {framing : LiquidCanFraming}

theorem stepOther_heedless (state : CanTraffic) (act : StartUp.Act) :
    (state.stepOther config framing act).map heedless = state.heedless.stepOther config framing act := by
  unfold stepOther
  rw [Option.map_map]
  rfl

theorem receive_heedless (state : CanTraffic) (index : ℕ) (read : ReadFrame) :
    (state.receive config framing index read).map heedless = state.heedless.receive config framing index read := by
  have polled (worker : Worker) :
      heedless (if (state.pending worker).isSome then state.advance worker else state) =
        if (state.heedless.pending worker).isSome then state.heedless.advance worker else state.heedless := by
    rw [apply_ite heedless]
    rfl
  unfold receive
  rw [apply_ite (Option.map heedless)]
  congr 1
  rw [← polled]
  cases receives config framing index read with
  | none => rfl
  | some event => exact stepOther_heedless _ _

theorem take_heedless (state : CanTraffic) : state.take.map heedless = state.heedless.take := by
  unfold take
  change _ = (state.pending .canSend).bind _
  cases state.pending .canSend with
  | none => rfl
  | some entry =>
      obtain ⟨thread, event⟩ := entry
      rw [Option.bind_eq_bind, Option.bind_some, Option.bind_some, apply_ite (Option.map heedless)]
      cases event <;> rfl

theorem write_heedless (state : CanTraffic) (succeeds : Bool) :
    (state.write config framing succeeds).map heedless = state.heedless.write config framing true := by
  unfold write
  change _ = state.sending.bind _
  cases state.sending with
  | none => rfl
  | some sending =>
      cases there : config.canBusInterfaces[sending.reached]? with
      | none => simp [there]
      | some interface => simp [there, heedless]

theorem next_heedless (state : CanTraffic) (act : Act) :
    (state.next config framing act).map heedless = state.heedless.next config framing act.heedless := by
  cases act with
  | other seen =>
      simp only [next, Act.heedless, apply_ite (Option.map heedless), stepOther_heedless, Option.map_none]
  | receive index read => exact receive_heedless state index read
  | stopReceiving index =>
      simp only [next, Act.heedless, stopReceiving, apply_ite (Option.map heedless), Option.map_none]
      rfl
  | take => exact take_heedless state
  | write succeeds => exact write_heedless state succeeds
  | nextEvent =>
      simp only [next, nextEvent, Act.heedless]
      change _ = state.sending.bind _
      cases state.sending with
      | none => rfl
      | some sending => 
        simp only [Option.bind_eq_bind, Option.bind_some, apply_ite (Option.map heedless), Option.map_none]
        rfl
  | leave worker =>
      simp only [next, Act.heedless, apply_ite (Option.map heedless), stepOther_heedless, Option.map_none]
      rfl

/-- Whether writes succeed or fail makes no difference to what is written next. -/
theorem heedless_run {acts others : List Act} {state after : CanTraffic}
    (run : Transition.Run (Steps config framing) state acts after)
    (same : others.map Act.heedless = acts.map Act.heedless) :
    ∃ finish, Transition.Run (Steps config framing) state others finish ∧ finish.heedless = after.heedless := by
  have seen : Transition.Run (Steps config framing) state.heedless (acts.map Act.heedless) after.heedless := by
    rw [← List.filterMap_eq_map]
    refine run.project heedless (some ∘ Act.heedless) ?_ ?_
    · intro before act later seenAct stepped visible
      obtain rfl := Option.some.inj visible
      exact (next_heedless before act).symm.trans (congrArg (Option.map heedless) stepped)
    · intro before act later _ hidden
      cases hidden
  rw [← same, ← List.filterMap_eq_map] at seen
  refine seen.lift heedless (some ∘ Act.heedless) (fun _ => True) (fun _ _ _ _ _ => trivial) ?_ ?_ trivial
  · intro before act seenAct later _ visible stepped
    obtain rfl := Option.some.inj visible
    exact Option.map_eq_some_iff.mp ((next_heedless before act).trans stepped)
  · intro before act _ hidden
    cases hidden

end Heedless

end CanTraffic

end FerroFlow
