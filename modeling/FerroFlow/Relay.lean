import FerroFlow.CanTraffic

/-! What is relayed: every frame for another node that is read once the send thread is subscribed, to all
interfaces but its own. -/

namespace FerroFlow

open Broadcast (takenFrom)

namespace CanTraffic

section Accounts

def relayedTo (destination : ℕ) (thread : Thread) (state : CanTraffic) : List CanAnyFrame :=
  state.writes.filterMap fun write =>
    if write.thread = thread ∧ write.destination = destination ∧ write.event.isRelay = true then some write.frame
    else none

def beingRelayed (destination : ℕ) (interface : String) (thread : Thread) (state : CanTraffic) :
    List CanAnyFrame :=
  match state.sending with
  | some sending =>
      if sending.thread = thread ∧ sending.reached ≤ destination then (sending.event.frameTo interface).toList
      else []
  | none => []

def waiting (config : Config) (interface : String) (thread : Thread) (state : CanTraffic) : List CanAnyFrame :=
  (takenFrom thread ((state.inbox .canSend).drop (state.taken .canSend)) ++
    state.startUp.dispatching.onTheWay EventListener.wants thread
      (Worker.canSend.listener config.canBusInterfaces)).filterMap (Event.frameTo interface)

end Accounts

section Faithful

structure Faithful (config : Config) (state : CanTraffic) : Prop where
  inside : state.taken .canSend ≤ (state.inbox .canSend).length
  written : ∀ (destination : ℕ) (interface : String), config.canBusInterfaces[destination]? = some interface →
    ∀ thread, state.relayedTo destination thread ++ state.beingRelayed destination interface thread =
      (takenFrom thread ((state.inbox .canSend).take (state.taken .canSend))).filterMap (Event.frameTo interface)

variable {config : Config} {framing : LiquidCanFraming} {state after : CanTraffic} {act : Act}

theorem Faithful.carry (faithful : Faithful config state) (grows : state.inbox .canSend <+: after.inbox .canSend)
    (taken : after.taken .canSend = state.taken .canSend) (sending : after.sending = state.sending)
    (writes : after.writes = state.writes) : Faithful config after := by
  obtain ⟨more, whole⟩ := grows
  constructor
  · rw [taken, ← whole, List.length_append]
    exact Nat.le_add_right_of_le faithful.inside
  · intro destination interface there thread
    have same := faithful.written destination interface there thread
    unfold relayedTo beingRelayed at same ⊢
    rw [taken, sending, writes, ← whole, List.take_append_of_le_length faithful.inside]
    exact same

theorem relayed_write (sending : Sending) (interface : String) (succeeds : Bool) (destination : ℕ)
    (thread : Thread) :
    ((framing.outgoing interface sending.event).toList.map fun frame =>
        (⟨sending.thread, sending.event, sending.reached, frame, succeeds⟩ : Write)).filterMap (fun write =>
      if write.thread = thread ∧ write.destination = destination ∧ write.event.isRelay = true then some write.frame
      else none) =
    if sending.thread = thread ∧ sending.reached = destination then (sending.event.frameTo interface).toList
    else [] := by
  obtain ⟨sender, event, reached⟩ := sending
  cases event with
  | relayCanMessage fromInterface frame =>
      by_cases own : interface = fromInterface
      · simp [LiquidCanFraming.outgoing, Event.frameTo, own]
      · by_cases here : sender = thread ∧ reached = destination <;>
          simp [LiquidCanFraming.outgoing, Event.frameTo, Event.isRelay, own, here]
  | _ => simp [Event.frameTo, Event.isRelay]

theorem take_cases (stepped : state.take = some after) : ∃ thread event,
    (state.inbox .canSend)[state.taken .canSend]? = some (thread, event) ∧ state.sending = none ∧
    after.startUp = state.startUp ∧ after.taken .canSend = state.taken .canSend + 1 ∧
    after.writes = state.writes ∧
    ∀ destination interface other, after.beingRelayed destination interface other =
      if thread = other then (event.frameTo interface).toList else [] := by
  simp only [take, Option.bind_eq_bind, Option.bind_eq_some_iff, Option.ite_none_right_eq_some,
    Option.isNone_iff_eq_none] at stepped
  obtain ⟨⟨thread, event⟩, next, ⟨_, idle⟩, took⟩ := stepped
  refine ⟨thread, event, next, idle, ?_⟩
  have counted := taken_advance_self .canSend state
  cases event with
  | relayCanMessage fromInterface frame =>
      obtain rfl := Option.some.inj took
      refine ⟨rfl, counted, rfl, ?_⟩
      intro destination interface other
      simp only [beingRelayed, Nat.zero_le, and_true]
  | sendCanMessage receiver message =>
      obtain rfl := Option.some.inj took
      refine ⟨rfl, counted, rfl, ?_⟩
      intro destination interface other
      simp only [beingRelayed, Event.frameTo, Option.toList_none, ite_self]
  | _ =>
      obtain rfl := Option.some.inj took
      refine ⟨rfl, counted, rfl, ?_⟩
      intro destination interface other
      simp only [beingRelayed, advance, idle, Event.frameTo, Option.toList_none, ite_self]

theorem faithful_take (faithful : Faithful config state) (stepped : state.take = some after) :
    Faithful config after := by
  obtain ⟨thread, event, next, idle, same, taken, writes, being⟩ := take_cases stepped
  obtain ⟨inside, _⟩ := List.getElem?_eq_some_iff.mp next
  have longer : (state.inbox .canSend).take (state.taken .canSend + 1) =
      (state.inbox .canSend).take (state.taken .canSend) ++ [(thread, event)] := by
    rw [List.take_add_one, next]
    rfl
  constructor
  · rw [taken, inbox, same]
    exact inside
  · intro destination interface there other
    have before := faithful.written destination interface there other
    unfold relayedTo at before ⊢
    rw [being, writes, taken, inbox, same]
    unfold beingRelayed at before
    rw [idle, List.append_nil] at before
    change _ = List.filterMap _ (takenFrom other ((state.inbox .canSend).take _))
    rw [longer, Broadcast.takenFrom_append, List.filterMap_append, before]
    congr 1
    by_cases own : thread = other <;> cases brought : event.frameTo interface <;>
      simp [takenFrom, own, brought]

theorem faithful_write {succeeds : Bool} (faithful : Faithful config state)
    (stepped : state.write config framing succeeds = some after) : Faithful config after := by
  simp only [write, Option.bind_eq_bind, Option.bind_eq_some_iff, Option.some.injEq] at stepped
  obtain ⟨sending, busy, interface, there, rfl⟩ := stepped
  refine ⟨faithful.inside, ?_⟩
  intro destination other elsewhere thread
  have same := faithful.written destination other elsewhere thread
  refine Eq.trans ?_ same
  unfold relayedTo beingRelayed
  rw [busy, List.filterMap_append, relayed_write, List.append_assoc]
  congr 1
  dsimp only
  by_cases own : sending.thread = thread
  · simp only [own, true_and]
    rcases Nat.lt_trichotomy sending.reached destination with before | now | past
    · rw [if_neg before.ne, if_pos (Nat.succ_le_of_lt before), if_pos before.le, List.nil_append]
    · obtain rfl : interface = other := by
        rw [now, elsewhere] at there
        exact (Option.some.inj there).symm
      rw [if_pos now, if_neg (by omega), if_pos now.le, List.append_nil]
    · rw [if_neg past.ne', if_neg (by omega), if_neg (by omega), List.nil_append]
  · rw [if_neg fun both => own both.1, if_neg fun both => own both.1, if_neg fun both => own both.1,
      List.nil_append]

theorem faithful_nextEvent (faithful : Faithful config state) (stepped : state.nextEvent config = some after) :
    Faithful config after := by
  simp only [nextEvent, Option.bind_eq_bind, Option.bind_eq_some_iff, Option.ite_none_right_eq_some,
    Option.some.injEq] at stepped
  obtain ⟨sending, busy, through, rfl⟩ := stepped
  refine ⟨faithful.inside, ?_⟩
  intro destination interface there thread
  have same := faithful.written destination interface there thread
  obtain ⟨inside, _⟩ := List.getElem?_eq_some_iff.mp there
  unfold beingRelayed at same ⊢
  rw [busy] at same
  dsimp only at same
  rw [if_neg fun still => by omega] at same
  exact same

theorem faithful_step (faithful : Faithful config state) (stepped : Steps config framing state act after) :
    Faithful config after := by
  have grows := inbox_next stepped .canSend
  cases act with
  | other seen =>
      simp only [Steps, next, Option.ite_none_right_eq_some] at stepped
      obtain ⟨startUp, _, rfl⟩ := stepOther_iff.mp stepped.2
      exact faithful.carry grows rfl rfl rfl
  | receive index read =>
      obtain ⟨_, taken, sending, writes⟩ := receive_cases stepped
      exact faithful.carry grows taken sending writes
  | stopReceiving index =>
      simp only [Steps, next, stopReceiving, Option.ite_none_right_eq_some, Option.some.injEq] at stepped
      obtain ⟨_, rfl⟩ := stepped
      have different : Worker.canSend ≠ .canRecv index := by
        intro same
        cases same
      exact faithful.carry grows (taken_advance_of_ne different state) rfl rfl
  | take => exact faithful_take faithful stepped
  | write succeeds => exact faithful_write faithful stepped
  | nextEvent => exact faithful_nextEvent faithful stepped
  | leave worker =>
      simp only [Steps, next, Option.ite_none_right_eq_some] at stepped
      obtain ⟨startUp, _, rfl⟩ := stepOther_iff.mp stepped.2
      exact faithful.carry grows rfl rfl rfl

theorem faithful_run {acts : List Act} (run : Transition.Run (Steps config framing) state acts after)
    (faithful : Faithful config state) : Faithful config after :=
  run.invariant (Faithful config) (fun _ _ _ before stepped => faithful_step before stepped) faithful

theorem faithful_new (config : Config) : Faithful config (new config) := by
  refine ⟨Nat.zero_le _, ?_⟩
  intro destination interface there thread
  rfl

theorem Faithful.complete (faithful : Faithful config state) {destination : ℕ} {interface : String}
    (there : config.canBusInterfaces[destination]? = some interface) (thread : Thread) :
    state.relayedTo destination thread ++ state.beingRelayed destination interface thread ++
        state.waiting config interface thread =
      (state.startUp.account config .canSend thread).filterMap (Event.frameTo interface) := by
  unfold waiting StartUp.account
  rw [faithful.written destination interface there, List.filterMap_append, ← List.append_assoc,
    ← List.filterMap_append, ← Broadcast.takenFrom_append, List.take_append_drop, List.filterMap_append,
    ← Broadcast.takenFrom_inbox]
  rfl

theorem Faithful.first (faithful : Faithful config state) {destination : ℕ} {interface : String}
    (there : config.canBusInterfaces[destination]? = some interface) (thread : Thread) :
    state.relayedTo destination thread <+:
      (state.startUp.dispatching.queuedFrom thread Worker.canSend.channel).filterMap (Event.frameTo interface) := by
  have taken := faithful.written destination interface there thread
  have whole := Broadcast.takenFrom_append thread ((state.inbox .canSend).take (state.taken .canSend))
    ((state.inbox .canSend).drop (state.taken .canSend))
  rw [List.take_append_drop] at whole
  rw [← Broadcast.takenFrom_inbox]
  change _ <+: List.filterMap _ (takenFrom thread (state.inbox .canSend))
  rw [whole, List.filterMap_append, ← taken, List.append_assoc]
  exact List.prefix_append _ _

end Faithful

section Correct

variable {config : Config} {framing : LiquidCanFraming} {before after : List Act} {start finish : CanTraffic}

theorem given_since {worker : Worker} (reached : Transition.Run (Steps config framing) (new config) before start)
    (run : Transition.Run (Steps config framing) start (.other (.proceed (.subscribe worker)) :: after) finish)
    (thread : Thread) :
    (worker.channel ∉ finish.startUp.dispatching.closed → finish.startUp.account config worker thread =
      StartUp.dispatched config framing.nodeIdBroadcast worker thread
        (after.filterMap (Act.startUp? config framing))) ∧
    finish.startUp.dispatching.queuedFrom thread worker.channel <+:
      StartUp.dispatched config framing.nodeIdBroadcast worker thread
        (after.filterMap (Act.startUp? config framing)) := by
  obtain ⟨middle, first, rest⟩ := Transition.run_cons_iff.mp run
  have invariant := StartUp.invariant_run (startUp_run reached) (StartUp.invariant_new config)
  exact StartUp.account_since invariant (startUp_next first) (List.mem_singleton.mpr rfl) (startUp_run rest) thread

variable {interface : String}

theorem sent_of_read (destination : String) (read : ReadFrame) :
    ((((framing.forRelay read).map (.relayCanMessage interface)).or (framing.forServer read)).filter
      (Worker.canSend.listener config.canBusInterfaces).wants).bind (Event.frameTo destination) =
    if destination = interface then none else framing.forRelay read := by
  cases relayed : framing.forRelay read with
  | some frame => rfl
  | none =>
      rw [Option.map_none, Option.none_or, ite_self]
      cases handed : framing.forServer read with
      | none => rfl
      | some event =>
          obtain ⟨id, message, rfl⟩ := LiquidCanFraming.message_of_forServer handed
          rfl

theorem handed_of_read (read : ReadFrame) :
    (((framing.forRelay read).map (.relayCanMessage interface)).or (framing.forServer read)).filter
      (Worker.canMsgHandler.listener config.canBusInterfaces).wants = framing.forServer read := by
  cases handed : framing.forServer read with
  | none =>
      rw [Option.or_none]
      cases framing.forRelay read <;> rfl
  | some event =>
      rw [(LiquidCanFraming.forRelay_or_forServer read).resolve_right (by simp [handed])]
      obtain ⟨id, message, rfl⟩ := LiquidCanFraming.message_of_forServer handed
      rfl

theorem relayed_since (reached : Transition.Run (Steps config framing) (new config) before start)
    (run : Transition.Run (Steps config framing) start (.other (.proceed (.subscribe .canSend)) :: after) finish)
    {source destination : ℕ} {fromInterface toInterface : String}
    (fromThere : config.canBusInterfaces[source]? = some fromInterface)
    (toThere : config.canBusInterfaces[destination]? = some toInterface) :
    finish.relayedTo destination (.worker (.canRecv source)) <+:
      (if toInterface = fromInterface then [] else (reads source after).filterMap framing.forRelay) ∧
    (Worker.canSend.channel ∉ finish.startUp.dispatching.closed →
      finish.relayedTo destination (.worker (.canRecv source)) ++
          finish.beingRelayed destination toInterface (.worker (.canRecv source)) ++
          finish.waiting config toInterface (.worker (.canRecv source)) =
        if toInterface = fromInterface then [] else (reads source after).filterMap framing.forRelay) := by
  have faithful := faithful_run (reached.append run) (faithful_new config)
  have free := (List.forall_mem_cons.mp (free_run run)).2
  have frames : (StartUp.dispatched config framing.nodeIdBroadcast .canSend (.worker (.canRecv source))
      (after.filterMap (Act.startUp? config framing))).filterMap (Event.frameTo toInterface) =
        if toInterface = fromInterface then [] else (reads source after).filterMap framing.forRelay := by
    rw [receiver_dispatches free fromThere, List.filterMap_filterMap]
    simp only [sent_of_read]
    by_cases own : toInterface = fromInterface <;> simp [own]
  obtain ⟨given, first⟩ := given_since reached run (.worker (.canRecv source))
  constructor
  · rw [← frames]
    exact (faithful.first toThere _).trans (first.filterMap _)
  · intro alive
    rw [faithful.complete toThere, given alive, frames]

theorem relayed_of_other (reached : Transition.Run (Steps config framing) (new config) before start)
    (run : Transition.Run (Steps config framing) start (.other (.proceed (.subscribe .canSend)) :: after) finish)
    {thread : Thread} (noReceiver : ∀ index, thread ≠ .worker (.canRecv index)) {destination : ℕ}
    {toInterface : String} (toThere : config.canBusInterfaces[destination]? = some toInterface) :
    finish.relayedTo destination thread = [] := by
  have faithful := faithful_run (reached.append run) (faithful_new config)
  have free := (List.forall_mem_cons.mp (free_run run)).2
  have nothing : (StartUp.dispatched config framing.nodeIdBroadcast .canSend thread
      (after.filterMap (Act.startUp? config framing))).filterMap (Event.frameTo toInterface) = [] := by
    rw [dispatched_eq, List.filterMap_filter, List.filterMap_filterMap, List.filterMap_eq_nil_iff]
    intro act member
    have nothing : (act.event? config framing thread).bind (Event.frameTo toInterface) = none :=
      event_of_other (free act member) noReceiver toInterface
    cases begun : act.event? config framing thread with
    | none => rfl
    | some event =>
        rw [begun, Option.bind_some] at nothing
        rw [Option.bind_some, nothing, ite_self]
  have first := (faithful.first toThere thread).trans ((given_since reached run thread).2.filterMap _)
  rw [nothing] at first
  exact List.prefix_nil.mp first

theorem handed_since (reached : Transition.Run (Steps config framing) (new config) before start)
    (run : Transition.Run (Steps config framing) start (.other (.proceed (.subscribe .canMsgHandler)) :: after) finish)
    {source : ℕ} {fromInterface : String} (fromThere : config.canBusInterfaces[source]? = some fromInterface) :
    finish.startUp.dispatching.queuedFrom (.worker (.canRecv source)) Worker.canMsgHandler.channel <+:
      (reads source after).filterMap framing.forServer ∧
    (Worker.canMsgHandler.channel ∉ finish.startUp.dispatching.closed →
      finish.startUp.account config .canMsgHandler (.worker (.canRecv source)) =
        (reads source after).filterMap framing.forServer) := by
  have free := (List.forall_mem_cons.mp (free_run run)).2
  have given := given_since reached run (.worker (.canRecv source))
  rw [receiver_dispatches free fromThere] at given
  simp only [handed_of_read] at given
  exact given.symm

/-- From the subscription of the send thread on, what is read for another node is relayed to all other
interfaces, in order and once, and never to its own; what is read for the server is handed to it, once
the handler is subscribed. No frame goes both ways, and a failed write makes no difference to the others. -/
theorem relay_correct (reached : Transition.Run (Steps config framing) (new config) before start)
    (run : Transition.Run (Steps config framing) start (.other (.proceed (.subscribe .canSend)) :: after) finish) :
    (∀ (interface : String) (read : ReadFrame), (framing.receiveFrame interface read).toOption.join =
        ((framing.forRelay read).map (.relayCanMessage interface)).or (framing.forServer read) ∧
      (framing.forRelay read = none ∨ framing.forServer read = none)) ∧
    (∀ (destination : ℕ) (toInterface : String), config.canBusInterfaces[destination]? = some toInterface →
      (∀ (source : ℕ) (fromInterface : String), config.canBusInterfaces[source]? = some fromInterface →
        finish.relayedTo destination (.worker (.canRecv source)) <+:
          (if toInterface = fromInterface then [] else (reads source after).filterMap framing.forRelay) ∧
        (Worker.canSend.channel ∉ finish.startUp.dispatching.closed →
          finish.relayedTo destination (.worker (.canRecv source)) ++
              finish.beingRelayed destination toInterface (.worker (.canRecv source)) ++
              finish.waiting config toInterface (.worker (.canRecv source)) =
            if toInterface = fromInterface then [] else (reads source after).filterMap framing.forRelay)) ∧
      ∀ thread, (∀ index, thread ≠ .worker (.canRecv index)) → finish.relayedTo destination thread = []) ∧
    (∀ early late, after = early ++ .other (.proceed (.subscribe .canMsgHandler)) :: late →
      ∀ (source : ℕ) (fromInterface : String), config.canBusInterfaces[source]? = some fromInterface →
        finish.startUp.dispatching.queuedFrom (.worker (.canRecv source)) Worker.canMsgHandler.channel <+:
          (reads source late).filterMap framing.forServer ∧
        (Worker.canMsgHandler.channel ∉ finish.startUp.dispatching.closed →
          finish.startUp.account config .canMsgHandler (.worker (.canRecv source)) =
            (reads source late).filterMap framing.forServer)) ∧
    ∀ others, others.map Act.heedless = after.map Act.heedless → ∃ otherFinish,
      Transition.Run (Steps config framing) start (.other (.proceed (.subscribe .canSend)) :: others) otherFinish ∧
        otherFinish.heedless = finish.heedless := by
  refine ⟨?_, ?_, ?_, ?_⟩
  · intro interface read
    exact ⟨LiquidCanFraming.receiveFrame_routes interface read, LiquidCanFraming.forRelay_or_forServer read⟩
  · intro destination toInterface toThere
    constructor
    · intro source fromInterface fromThere
      exact relayed_since reached run fromThere toThere
    · intro thread noReceiver
      exact relayed_of_other reached run noReceiver toThere
  · rintro early late rfl source fromInterface fromThere
    rw [← List.cons_append] at run
    obtain ⟨middle, first, rest⟩ := Transition.run_append_iff.mp run
    exact handed_since (reached.append first) rest fromThere
  · intro others same
    exact heedless_run run (congrArg (List.cons _) same)

end Correct

section Runs

def plainFraming : LiquidCanFraming where
  nodeIdInvalid := 0
  nodeIdBroadcast := 63
  nodeIdServer := 1
  idFromRaw raw := ⟨UInt8.ofNat (raw.toNat % 32), UInt8.ofNat (raw.toNat / 32)⟩
  idIntoRaw id := UInt16.ofNat (id.receiverId.toNat * 32 + id.senderId.toNat)
  tryFrom frame := if frame.data = [] then .ok .nodeInfoReq else bail "unknown message"
  intoFrame _ := ⟨.standard ⟨0, by decide⟩, false, []⟩

def twoInterfaces : Config where
  canBusInterfaces := ["can0", "can1"]
  databaseUrl := ""

def frameForNode (data : List UInt8) : CanFdFrame where
  id := .standard ⟨162, by decide⟩
  brs := true
  data := data

def readsFrame (listeners : ℕ) (data : List UInt8) : List Act :=
  .receive 0 (.frame (.fd (frameForNode data))) ::
    List.replicate listeners (.other (.send (.worker (.canRecv 0)))) ++ [.other (.finish (.worker (.canRecv 0)))]

def receiversStart : List Act :=
  ((spawnCanThreads twoInterfaces.canBusInterfaces).take 11).map fun instruction => .other (.proceed instruction)

def sendsFrame : List Act :=
  [.other (.proceed (.spawn .canSend))] ++ readsFrame 3 [2] ++ [.take, .write true, .write false, .nextEvent]

theorem early_frame_lost : ∃ finish, Transition.Run (Steps twoInterfaces plainFraming) (new twoInterfaces)
      (receiversStart ++ readsFrame 2 [1] ++ .other (.proceed (.subscribe .canSend)) :: sendsFrame) finish ∧
    ¬ finish.relayedTo 1 (.worker (.canRecv 0)) <+:
      (reads 0 (receiversStart ++ readsFrame 2 [1] ++ .other (.proceed (.subscribe .canSend)) :: sendsFrame)).filterMap
        plainFraming.forRelay := by
  refine ⟨_, Transition.run_iff_foldlM.mpr rfl, ?_⟩
  decide

theorem relay_correct_twoInterfaces : ∃ start finish,
    Transition.Run (Steps twoInterfaces plainFraming) (new twoInterfaces) receiversStart start ∧
    Transition.Run (Steps twoInterfaces plainFraming) start
      (.other (.proceed (.subscribe .canSend)) :: sendsFrame) finish ∧
    finish.relayedTo 1 (.worker (.canRecv 0)) ++ finish.beingRelayed 1 "can1" (.worker (.canRecv 0)) ++
      finish.waiting twoInterfaces "can1" (.worker (.canRecv 0)) = [.fd (frameForNode [2])] := by
  obtain ⟨start, finish, reached, run, alive⟩ : ∃ start finish,
      Transition.Run (Steps twoInterfaces plainFraming) (new twoInterfaces) receiversStart start ∧
      Transition.Run (Steps twoInterfaces plainFraming) start
        (.other (.proceed (.subscribe .canSend)) :: sendsFrame) finish ∧
      Worker.canSend.channel ∉ finish.startUp.dispatching.closed :=
    ⟨_, _, Transition.run_iff_foldlM.mpr rfl, Transition.run_iff_foldlM.mpr rfl, by decide⟩
  have relayed := (((relay_correct reached run).2.1 1 "can1" rfl).1 0 "can0" rfl).2 alive
  exact ⟨start, finish, reached, run, relayed.trans (by decide)⟩

end Runs

end CanTraffic

end FerroFlow
