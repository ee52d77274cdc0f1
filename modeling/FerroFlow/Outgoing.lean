import FerroFlow.Relay

/-! What the send thread writes: it tries to write to each interface all that was dispatched for it, in one
order, and the same commands of the server to all of them; a write that fails is not tried again. -/

namespace FerroFlow

open Broadcast (takenFrom)

def Event.isCommand : Event → Bool
  | .sendCanMessage _ _ => true
  | _ => false

namespace LiquidCanFraming

variable (framing : LiquidCanFraming)

def brings (interface : String) (entry : Thread × Event) : Bool :=
  (framing.outgoing interface entry.2).isSome

variable {framing}

theorem outgoing_of_command {event : Event} (command : event.isCommand = true) (left right : String) :
    framing.outgoing left event = framing.outgoing right event := by
  cases event with
  | sendCanMessage receiver message => rfl
  | _ => cases command

theorem outgoing_of_unwanted {interface : String} {interfaces : List String} {event : Event}
    (unwanted : (Worker.canSend.listener interfaces).wants event = false) :
    framing.outgoing interface event = none := by
  cases event with
  | sendCanMessage receiver message => cases unwanted
  | relayCanMessage fromInterface frame => cases unwanted
  | _ => rfl

theorem filterMap_wanted (interface : String) (interfaces : List String) (events : List Event) :
    (events.filter (Worker.canSend.listener interfaces).wants).filterMap (framing.outgoing interface) =
      events.filterMap (framing.outgoing interface) := by
  rw [List.filterMap_filter]
  refine List.filterMap_congr fun event _ => ?_
  cases wanted : (Worker.canSend.listener interfaces).wants event with
  | true => rfl
  | false => exact (outgoing_of_unwanted wanted).symm

end LiquidCanFraming

namespace CanTraffic

section Accounts

def writtenTo (destination : ℕ) (state : CanTraffic) : List (Thread × Event) :=
  state.writes.filterMap fun write =>
    if write.destination = destination then some (write.thread, write.event) else none

def beingWritten (destination : ℕ) (state : CanTraffic) : List (Thread × Event) :=
  match state.sending with
  | some sending => if sending.reached ≤ destination then [(sending.thread, sending.event)] else []
  | none => []

/-- The frames that were handed to an interface for a thread, whether or not the write succeeded. -/
def framesTriedTo (destination : ℕ) (thread : Thread) (state : CanTraffic) : List CanAnyFrame :=
  state.writes.filterMap fun write =>
    if write.destination = destination ∧ write.thread = thread then some write.frame else none

def framesWrittenTo (destination : ℕ) (thread : Thread) (state : CanTraffic) : List CanAnyFrame :=
  framesTriedTo destination thread { state with writes := state.writes.filter Write.succeeded }

def commandsTriedTo (destination : ℕ) (state : CanTraffic) : List (Thread × CanAnyFrame) :=
  state.writes.filterMap fun write =>
    if write.destination = destination ∧ write.event.isCommand = true then some (write.thread, write.frame) else none

def unsent (config : Config) (thread : Thread) (state : CanTraffic) : List Event :=
  takenFrom thread ((state.inbox .canSend).drop (state.taken .canSend)) ++
    state.startUp.dispatching.onTheWay EventListener.wants thread (Worker.canSend.listener config.canBusInterfaces)

end Accounts

section InOrder

structure InOrder (config : Config) (framing : LiquidCanFraming) (state : CanTraffic) : Prop where
  inside : state.taken .canSend ≤ (state.inbox .canSend).length
  written : ∀ (destination : ℕ) (interface : String), config.canBusInterfaces[destination]? = some interface →
    state.writtenTo destination ++ (state.beingWritten destination).filter (framing.brings interface) =
      ((state.inbox .canSend).take (state.taken .canSend)).filter (framing.brings interface)
  framed : ∀ write ∈ state.writes, ∃ interface, config.canBusInterfaces[write.destination]? = some interface ∧
    framing.outgoing interface write.event = some write.frame

variable {config : Config} {framing : LiquidCanFraming} {state after : CanTraffic} {act : Act}

theorem InOrder.carry (ordered : InOrder config framing state) (grows : state.inbox .canSend <+: after.inbox .canSend)
    (taken : after.taken .canSend = state.taken .canSend) (sending : after.sending = state.sending)
    (writes : after.writes = state.writes) : InOrder config framing after := by
  obtain ⟨more, whole⟩ := grows
  constructor
  · rw [taken, ← whole, List.length_append]
    exact Nat.le_add_right_of_le ordered.inside
  · intro destination interface there
    have same := ordered.written destination interface there
    unfold writtenTo beingWritten at same ⊢
    rw [taken, sending, writes, ← whole, List.take_append_of_le_length ordered.inside]
    exact same
  · rw [writes]
    exact ordered.framed

theorem being_of_take (framing : LiquidCanFraming) (stepped : state.take = some after) : ∃ thread event,
    (state.inbox .canSend)[state.taken .canSend]? = some (thread, event) ∧ state.sending = none ∧
    after.startUp = state.startUp ∧ after.taken .canSend = state.taken .canSend + 1 ∧
    after.writes = state.writes ∧ ∀ destination interface,
      (after.beingWritten destination).filter (framing.brings interface) =
        [(thread, event)].filter (framing.brings interface) := by
  simp only [take, Option.bind_eq_bind, Option.bind_eq_some_iff, Option.ite_none_right_eq_some,
    Option.isNone_iff_eq_none] at stepped
  obtain ⟨⟨thread, event⟩, next, ⟨_, idle⟩, took⟩ := stepped
  refine ⟨thread, event, next, idle, ?_⟩
  have counted := taken_advance_self .canSend state
  cases event with
  | relayCanMessage fromInterface frame =>
      obtain rfl := Option.some.inj took
      exact ⟨rfl, counted, rfl, fun destination interface => by simp [beingWritten]⟩
  | sendCanMessage receiver message =>
      obtain rfl := Option.some.inj took
      exact ⟨rfl, counted, rfl, fun destination interface => by simp [beingWritten]⟩
  | _ =>
      obtain rfl := Option.some.inj took
      refine ⟨rfl, counted, rfl, ?_⟩
      intro destination interface
      simp [beingWritten, advance, idle, LiquidCanFraming.brings, LiquidCanFraming.outgoing]

theorem inOrder_take (ordered : InOrder config framing state) (stepped : state.take = some after) :
    InOrder config framing after := by
  obtain ⟨thread, event, next, idle, same, taken, writes, being⟩ := being_of_take framing stepped
  obtain ⟨inside, _⟩ := List.getElem?_eq_some_iff.mp next
  have longer : (state.inbox .canSend).take (state.taken .canSend + 1) =
      (state.inbox .canSend).take (state.taken .canSend) ++ [(thread, event)] := by
    rw [List.take_add_one, next]
    rfl
  have unchanged : after.inbox .canSend = state.inbox .canSend := by
    unfold inbox
    rw [same]
  constructor
  · rw [taken, unchanged]
    exact inside
  · intro destination interface there
    have before := ordered.written destination interface there
    unfold writtenTo at before ⊢
    unfold beingWritten at before
    rw [idle, List.filter_nil, List.append_nil] at before
    rw [being, writes, before, taken, unchanged, longer, List.filter_append]
  · rw [writes]
    exact ordered.framed

theorem written_write (sending : Sending) (interface : String) (succeeds : Bool) (destination : ℕ) :
    ((framing.outgoing interface sending.event).toList.map fun frame =>
        (⟨sending.thread, sending.event, sending.reached, frame, succeeds⟩ : Write)).filterMap (fun write =>
      if write.destination = destination then some (write.thread, write.event) else none) =
    if sending.reached = destination then
      [(sending.thread, sending.event)].filter (framing.brings interface)
    else [] := by
  have shown : framing.brings interface (sending.thread, sending.event) =
      (framing.outgoing interface sending.event).isSome := rfl
  cases brought : framing.outgoing interface sending.event <;>
    by_cases here : sending.reached = destination <;> simp [here, shown, brought]

theorem inOrder_write {succeeds : Bool} (ordered : InOrder config framing state)
    (stepped : state.write config framing succeeds = some after) : InOrder config framing after := by
  simp only [write, Option.bind_eq_bind, Option.bind_eq_some_iff, Option.some.injEq] at stepped
  obtain ⟨sending, busy, interface, there, rfl⟩ := stepped
  refine ⟨ordered.inside, ?_, ?_⟩
  · intro destination other elsewhere
    refine Eq.trans ?_ (ordered.written destination other elsewhere)
    unfold writtenTo beingWritten
    rw [busy, List.filterMap_append, written_write, List.append_assoc]
    congr 1
    dsimp only
    rcases Nat.lt_trichotomy sending.reached destination with before | now | past
    · rw [if_neg before.ne, if_pos (Nat.succ_le_of_lt before), if_pos before.le, List.nil_append]
    · obtain rfl : interface = other := by
        rw [now, elsewhere] at there
        exact (Option.some.inj there).symm
      rw [if_pos now, if_neg (by omega), if_pos now.le, List.filter_nil, List.append_nil]
    · rw [if_neg past.ne', if_neg (by omega), if_neg (by omega), List.nil_append]
  · intro write member
    rcases List.mem_append.mp member with before | now
    · exact ordered.framed write before
    · obtain ⟨frame, brought, rfl⟩ := List.mem_map.mp now
      exact ⟨interface, there, Option.mem_toList.mp brought⟩

theorem inOrder_nextEvent (ordered : InOrder config framing state) (stepped : state.nextEvent config = some after) :
    InOrder config framing after := by
  simp only [nextEvent, Option.bind_eq_bind, Option.bind_eq_some_iff, Option.ite_none_right_eq_some,
    Option.some.injEq] at stepped
  obtain ⟨sending, busy, through, rfl⟩ := stepped
  refine ⟨ordered.inside, ?_, ordered.framed⟩
  intro destination interface there
  have same := ordered.written destination interface there
  obtain ⟨inside, _⟩ := List.getElem?_eq_some_iff.mp there
  unfold beingWritten at same ⊢
  rw [busy] at same
  dsimp only at same
  rw [if_neg fun still => by omega] at same
  exact same

theorem inOrder_step (ordered : InOrder config framing state) (stepped : Steps config framing state act after) :
    InOrder config framing after := by
  have grows := inbox_next stepped .canSend
  cases act with
  | other seen =>
      simp only [Steps, next, Option.ite_none_right_eq_some] at stepped
      obtain ⟨startUp, _, rfl⟩ := stepOther_iff.mp stepped.2
      exact ordered.carry grows rfl rfl rfl
  | receive index read =>
      obtain ⟨_, taken, sending, writes⟩ := receive_cases stepped
      exact ordered.carry grows taken sending writes
  | stopReceiving index =>
      simp only [Steps, next, stopReceiving, Option.ite_none_right_eq_some, Option.some.injEq] at stepped
      obtain ⟨_, rfl⟩ := stepped
      have different : Worker.canSend ≠ .canRecv index := by
        intro same
        cases same
      exact ordered.carry grows (taken_advance_of_ne different state) rfl rfl
  | take => exact inOrder_take ordered stepped
  | write succeeds => exact inOrder_write ordered stepped
  | nextEvent => exact inOrder_nextEvent ordered stepped
  | leave worker =>
      simp only [Steps, next, Option.ite_none_right_eq_some] at stepped
      obtain ⟨startUp, _, rfl⟩ := stepOther_iff.mp stepped.2
      exact ordered.carry grows rfl rfl rfl

theorem inOrder_run {acts : List Act} (run : Transition.Run (Steps config framing) state acts after)
    (ordered : InOrder config framing state) : InOrder config framing after :=
  run.invariant (InOrder config framing) (fun _ _ _ before stepped => inOrder_step before stepped) ordered

theorem inOrder_new (config : Config) (framing : LiquidCanFraming) : InOrder config framing (new config) := by
  refine ⟨Nat.zero_le _, fun _ _ _ => rfl, ?_⟩
  intro write member
  cases member

end InOrder

section Complete

variable {config : Config} {framing : LiquidCanFraming} {state : CanTraffic} {destination : ℕ} {interface : String}

theorem filterMap_brings (thread : Thread) (entries : List (Thread × Event)) :
    (takenFrom thread (entries.filter (framing.brings interface))).filterMap (framing.outgoing interface) =
      (takenFrom thread entries).filterMap (framing.outgoing interface) := by
  unfold takenFrom
  rw [List.filter_filter, List.filterMap_map, List.filterMap_map, List.filterMap_filter, List.filterMap_filter]
  refine List.filterMap_congr fun entry _ => ?_
  by_cases own : entry.1 = thread <;> cases brought : framing.outgoing interface entry.2 <;>
    simp [own, LiquidCanFraming.brings, brought]

theorem frames_of_writes {writes : List Write} (there : config.canBusInterfaces[destination]? = some interface)
    (framed : ∀ write ∈ writes, ∃ interface, config.canBusInterfaces[write.destination]? = some interface ∧
      framing.outgoing interface write.event = some write.frame) (thread : Thread) :
    (writes.filterMap fun write =>
        if write.destination = destination ∧ write.thread = thread then some write.frame else none) =
      (takenFrom thread (writes.filterMap fun write =>
        if write.destination = destination then some (write.thread, write.event) else none)).filterMap
          (framing.outgoing interface) := by
  induction writes with
  | nil => rfl
  | cons write writes ih =>
      obtain ⟨⟨own, listed, brought⟩, others⟩ := List.forall_mem_cons.mp framed
      have later := ih others
      unfold takenFrom at later ⊢
      by_cases here : write.destination = destination
      · rw [here, there] at listed
        obtain rfl := Option.some.inj listed
        by_cases sender : write.thread = thread <;> simp [here, sender, brought, later]
      · simp [here, later]

theorem InOrder.frames (ordered : InOrder config framing state)
    (there : config.canBusInterfaces[destination]? = some interface) (thread : Thread) :
    state.framesTriedTo destination thread =
      (takenFrom thread (state.writtenTo destination)).filterMap (framing.outgoing interface) :=
  frames_of_writes there ordered.framed thread

theorem InOrder.taken (ordered : InOrder config framing state)
    (there : config.canBusInterfaces[destination]? = some interface) (thread : Thread) :
    state.framesTriedTo destination thread ++
        (takenFrom thread (state.beingWritten destination)).filterMap (framing.outgoing interface) =
      (takenFrom thread ((state.inbox .canSend).take (state.taken .canSend))).filterMap
        (framing.outgoing interface) := by
  rw [ordered.frames there, ← filterMap_brings thread (state.beingWritten destination),
    ← filterMap_brings thread ((state.inbox .canSend).take _), ← ordered.written destination interface there,
    Broadcast.takenFrom_append, List.filterMap_append]

theorem InOrder.complete (ordered : InOrder config framing state)
    (there : config.canBusInterfaces[destination]? = some interface) (thread : Thread) :
    state.framesTriedTo destination thread ++
        (takenFrom thread (state.beingWritten destination) ++ state.unsent config thread).filterMap
          (framing.outgoing interface) =
      (state.startUp.account config .canSend thread).filterMap (framing.outgoing interface) := by
  unfold unsent StartUp.account
  rw [List.filterMap_append, ← List.append_assoc, ordered.taken there, List.filterMap_append, List.filterMap_append,
    ← List.append_assoc, ← List.filterMap_append, ← Broadcast.takenFrom_append, List.take_append_drop,
    ← Broadcast.takenFrom_inbox]
  rfl

theorem InOrder.first (ordered : InOrder config framing state)
    (there : config.canBusInterfaces[destination]? = some interface) (thread : Thread) :
    state.framesTriedTo destination thread <+:
      (state.startUp.dispatching.queuedFrom thread Worker.canSend.channel).filterMap (framing.outgoing interface) := by
  have whole := Broadcast.takenFrom_append thread ((state.inbox .canSend).take (state.taken .canSend))
    ((state.inbox .canSend).drop (state.taken .canSend))
  rw [List.take_append_drop] at whole
  rw [← Broadcast.takenFrom_inbox]
  change _ <+: List.filterMap _ (takenFrom thread (state.inbox .canSend))
  rw [whole, List.filterMap_append, ← ordered.taken there, List.append_assoc]
  exact List.prefix_append _ _

end Complete

section Agreement

variable {config : Config} {framing : LiquidCanFraming} {state : CanTraffic} {earlier later : ℕ}
  {first second : String}

theorem being_cases (state : CanTraffic) (order : earlier ≤ later) :
    (state.beingWritten later).length ≤ 1 ∧
      (state.beingWritten earlier = [] ∨ state.beingWritten earlier = state.beingWritten later) := by
  unfold beingWritten
  cases state.sending with
  | none => exact ⟨Nat.zero_le _, Or.inl rfl⟩
  | some sending =>
      dsimp only
      by_cases due : sending.reached ≤ earlier
      · rw [if_pos due, if_pos (due.trans order)]
        exact ⟨le_rfl, Or.inr rfl⟩
      · rw [if_neg due]
        refine ⟨?_, Or.inl rfl⟩
        split
        · exact le_rfl
        · exact Nat.zero_le _

def commandFrames (framing : LiquidCanFraming) (reference : String) (entries : List (Thread × Event)) :
    List (Thread × CanAnyFrame) :=
  (entries.filter fun entry => entry.2.isCommand).filterMap
    fun entry => (framing.outgoing reference entry.2).map (Prod.mk entry.1)

theorem commandFrames_append (reference : String) (left right : List (Thread × Event)) :
    commandFrames framing reference (left ++ right) =
      commandFrames framing reference left ++ commandFrames framing reference right := by
  unfold commandFrames
  rw [List.filter_append, List.filterMap_append]

theorem commandFrames_brings (reference interface : String) (entries : List (Thread × Event)) :
    commandFrames framing reference (entries.filter (framing.brings interface)) =
      commandFrames framing reference entries := by
  unfold commandFrames
  simp only [List.filterMap_filter]
  refine List.filterMap_congr fun entry _ => ?_
  cases command : entry.2.isCommand with
  | true =>
      rw [LiquidCanFraming.brings, LiquidCanFraming.outgoing_of_command command interface reference]
      cases framing.outgoing reference entry.2 <;> rfl
  | false => rw [if_neg Bool.false_ne_true, ite_self]

theorem commandFrames_length_le (reference : String) (entries : List (Thread × Event)) :
    (commandFrames framing reference entries).length ≤ entries.length :=
  (List.length_filterMap_le _ _).trans (List.length_filter_le _ _)

theorem commands_of_writes {writes : List Write} {destination : ℕ} {interface : String}
    (there : config.canBusInterfaces[destination]? = some interface)
    (framed : ∀ write ∈ writes, ∃ interface, config.canBusInterfaces[write.destination]? = some interface ∧
      framing.outgoing interface write.event = some write.frame) (reference : String) :
    (writes.filterMap fun write => if write.destination = destination ∧ write.event.isCommand = true then
        some (write.thread, write.frame) else none) =
      commandFrames framing reference (writes.filterMap fun write =>
        if write.destination = destination then some (write.thread, write.event) else none) := by
  induction writes with
  | nil => rfl
  | cons write writes ih =>
      obtain ⟨⟨own, listed, brought⟩, others⟩ := List.forall_mem_cons.mp framed
      have rest := ih others
      unfold commandFrames at rest ⊢
      by_cases here : write.destination = destination
      · rw [here, there] at listed
        obtain rfl := Option.some.inj listed
        cases command : write.event.isCommand with
        | true =>
            rw [LiquidCanFraming.outgoing_of_command command interface reference] at brought
            simp [here, command, brought, rest]
        | false => simp [here, command, rest]
      · simp [here, rest]

theorem InOrder.commands_taken (ordered : InOrder config framing state) {destination : ℕ} {interface : String}
    (there : config.canBusInterfaces[destination]? = some interface) (reference : String) :
    state.commandsTriedTo destination ++ commandFrames framing reference (state.beingWritten destination) =
      commandFrames framing reference ((state.inbox .canSend).take (state.taken .canSend)) := by
  rw [← commandFrames_brings reference interface (state.beingWritten destination),
    ← commandFrames_brings reference interface ((state.inbox .canSend).take _),
    ← ordered.written destination interface there, commandFrames_append]
  exact congrArg (· ++ _) (commands_of_writes there ordered.framed reference)

theorem InOrder.agreement (ordered : InOrder config framing state) (order : earlier ≤ later)
    (there : config.canBusInterfaces[earlier]? = some first)
    (elsewhere : config.canBusInterfaces[later]? = some second) :
    ∃ outstanding, outstanding.length ≤ 1 ∧
      state.commandsTriedTo later ++ outstanding = state.commandsTriedTo earlier := by
  have same := (ordered.commands_taken there first).trans (ordered.commands_taken elsewhere first).symm
  obtain ⟨single, none | equal⟩ := being_cases state order
  · rw [none] at same
    refine ⟨commandFrames framing first (state.beingWritten later), ?_, ?_⟩
    · exact (commandFrames_length_le first _).trans single
    · exact same.symm.trans (List.append_nil _)
  · rw [equal] at same
    exact ⟨[], Nat.zero_le _, (List.append_nil _).trans (List.append_cancel_right same).symm⟩

end Agreement

section Correct

variable {config : Config} {framing : LiquidCanFraming} {before after : List Act} {start finish : CanTraffic}

theorem dispatched_frames (thread : Thread) (acts : List Act) (interface : String) :
    (StartUp.dispatched config framing.nodeIdBroadcast .canSend thread
        (acts.filterMap (Act.startUp? config framing))).filterMap (framing.outgoing interface) =
      (acts.filterMap (Act.event? config framing thread)).filterMap (framing.outgoing interface) := by
  rw [dispatched_eq, LiquidCanFraming.filterMap_wanted]

/-- Once the send thread is subscribed, it tries to write to each interface the frames of all that a thread
dispatches, in order and once, whichever writes fail; and to all interfaces the same commands in one order. -/
theorem outgoing_correct (reached : Transition.Run (Steps config framing) (new config) before start)
    (run : Transition.Run (Steps config framing) start (.other (.proceed (.subscribe .canSend)) :: after) finish) :
    (∀ (destination : ℕ) (interface : String), config.canBusInterfaces[destination]? = some interface →
      ∀ thread,
        finish.framesTriedTo destination thread <+:
          (after.filterMap (Act.event? config framing thread)).filterMap (framing.outgoing interface) ∧
        (finish.framesWrittenTo destination thread).Sublist
          ((after.filterMap (Act.event? config framing thread)).filterMap (framing.outgoing interface)) ∧
        (Worker.canSend.channel ∉ finish.startUp.dispatching.closed →
          finish.framesTriedTo destination thread ++
              (takenFrom thread (finish.beingWritten destination) ++ finish.unsent config thread).filterMap
                (framing.outgoing interface) =
            (after.filterMap (Act.event? config framing thread)).filterMap (framing.outgoing interface))) ∧
    ∀ (earlier later : ℕ), earlier ≤ later → later < config.canBusInterfaces.length →
      ∃ outstanding, outstanding.length ≤ 1 ∧
        finish.commandsTriedTo later ++ outstanding = finish.commandsTriedTo earlier := by
  have ordered := inOrder_run (reached.append run) (inOrder_new config framing)
  constructor
  · intro destination interface there thread
    obtain ⟨given, first⟩ := given_since reached run thread
    rw [← dispatched_frames thread after interface]
    have tried := (ordered.first there thread).trans (first.filterMap _)
    refine ⟨tried, (List.filter_sublist.filterMap _).trans tried.sublist, fun alive => ?_⟩
    rw [ordered.complete there, given alive]
  · intro earlier later order inside
    exact ordered.agreement order (List.getElem?_eq_getElem (order.trans_lt inside)) (List.getElem?_eq_getElem inside)

def sendsCommand : List Act :=
  [.other (.proceed (.spawn .canSend)), .other (.start (.outside 0) (.sendCanMessage 5 .nodeInfoReq))] ++
    List.replicate 3 (.other (.send (.outside 0))) ++ [.other (.finish (.outside 0)), .take, .write true]

theorem outgoing_correct_command : ∃ start finish,
    Transition.Run (Steps twoInterfaces plainFraming) (new twoInterfaces) receiversStart start ∧
    Transition.Run (Steps twoInterfaces plainFraming) start
      (.other (.proceed (.subscribe .canSend)) :: sendsCommand) finish ∧
    (finish.framesTriedTo 0 (.outside 0)).length = 1 ∧ finish.framesTriedTo 1 (.outside 0) = [] ∧
    finish.framesTriedTo 1 (.outside 0) ++ (takenFrom (.outside 0) (finish.beingWritten 1) ++
      finish.unsent twoInterfaces (.outside 0)).filterMap (plainFraming.outgoing "can1") =
        [.fd ⟨.standard ⟨161, by decide⟩, true, []⟩] ∧
    ∃ outstanding, outstanding.length ≤ 1 ∧ finish.commandsTriedTo 1 ++ outstanding = finish.commandsTriedTo 0 := by
  obtain ⟨start, finish, reached, run, alive, written, waiting⟩ : ∃ start finish,
      Transition.Run (Steps twoInterfaces plainFraming) (new twoInterfaces) receiversStart start ∧
      Transition.Run (Steps twoInterfaces plainFraming) start
        (.other (.proceed (.subscribe .canSend)) :: sendsCommand) finish ∧
      Worker.canSend.channel ∉ finish.startUp.dispatching.closed ∧
      (finish.framesTriedTo 0 (.outside 0)).length = 1 ∧ finish.framesTriedTo 1 (.outside 0) = [] :=
    ⟨_, _, Transition.run_iff_foldlM.mpr rfl, Transition.run_iff_foldlM.mpr rfl, by decide, by decide, by decide⟩
  obtain ⟨frames, agreement⟩ := outgoing_correct reached run
  have account := (frames 1 "can1" rfl (.outside 0)).2.2 alive
  exact ⟨start, finish, reached, run, written, waiting, account.trans (by decide),
    agreement 0 1 (by decide) (by decide)⟩

end Correct

end CanTraffic

end FerroFlow
