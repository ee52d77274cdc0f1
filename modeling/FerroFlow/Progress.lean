import FerroFlow.Shutdown

/-! How much the threads still have to do of what they are at, and that nothing keeps them from going on
with it. -/

namespace FerroFlow

namespace StartUp

section Progress

variable {config : Config} {nodeIdBroadcast : UInt8} {state after : StartUp} {act : Act}

def toSubscribe (state : StartUp) : ℕ :=
  state.program.length + if .sequenceRunner ∈ state.subscribed then 0 else 1

theorem runnerLeft_le (more : state.subscribed ⊆ after.subscribed) :
    (if .sequenceRunner ∈ after.subscribed then 0 else 1) ≤ if .sequenceRunner ∈ state.subscribed then 0 else 1 := by
  by_cases before : .sequenceRunner ∈ state.subscribed
  · rw [if_pos before, if_pos (more before)]
  · rw [if_neg before]
    split <;> omega

theorem toSubscribe_next (stepped : Steps config nodeIdBroadcast state act after) :
    after.toSubscribe < state.toSubscribe ∨
      after.toSubscribe = state.toSubscribe ∧ after.dispatching.listeners = state.dispatching.listeners := by
  obtain ⟨_, dispatched, subscribed⟩ := step_cases stepped
  have listeners : after.dispatching.listeners = state.dispatching.listeners ++
      act.subscribes.map (Worker.listener config.canBusInterfaces) := by
    rw [Broadcast.listeners_run (dispatch_run dispatched), added_move]
  have runner := runnerLeft_le (subscribed ▸ List.subset_append_left _ _)
  unfold toSubscribe
  rcases program_cases stepped with ⟨instruction, _, program, _⟩ | ⟨program, _, silent | ⟨own, absent⟩⟩
  · left
    rw [program, List.length_cons]
    omega
  · rw [silent, List.append_nil] at subscribed
    rw [silent, List.map_nil, List.append_nil] at listeners
    rw [subscribed]
    rcases program with same | stopped
    · exact Or.inr ⟨by rw [same], listeners⟩
    · rw [stopped]
      cases state.program with
      | nil => exact Or.inr ⟨rfl, listeners⟩
      | cons instruction program =>
          left
          simp only [List.length_nil, List.length_cons]
          omega
  · left
    have present : .sequenceRunner ∈ after.subscribed := by
      rw [subscribed, own]
      exact List.mem_append_right _ (List.mem_singleton_self _)
    rw [if_pos present, if_neg absent]
    rcases program with same | stopped
    · rw [same]
      omega
    · rw [stopped, List.length_nil]
      omega

def Act.thread : Act → Thread
  | proceed _ => .main
  | fail => .main
  | runnerSubscribes => .worker .sequenceRunner
  | start thread _ => thread
  | send thread => thread
  | finish thread => thread
  | close worker => .worker worker

theorem ahead_of_other (stepped : Steps config nodeIdBroadcast state act after)
    (listeners : after.dispatching.listeners = state.dispatching.listeners) {thread : Thread}
    (other : act.thread ≠ thread) : after.dispatching.ahead thread = state.dispatching.ahead thread := by
  have moved := (step_cases stepped).2.1
  unfold dispatch at moved
  cases seen : act.move? config nodeIdBroadcast with
  | none =>
      rw [seen] at moved
      rw [← Option.some.inj moved]
  | some move =>
      rw [seen] at moved
      have foreign : move.event? thread = none ∧ move.isBy thread = false := by
        cases act with
        | proceed instruction =>
            cases instruction <;>
              first | (obtain rfl := Option.some.inj seen; exact ⟨if_neg other, rfl⟩) |
                (obtain rfl := Option.some.inj seen; exact ⟨rfl, rfl⟩) | cases seen
        | start starter event =>
            obtain rfl := Option.some.inj seen
            exact ⟨if_neg other, rfl⟩
        | send sender =>
            obtain rfl := Option.some.inj seen
            exact ⟨rfl, decide_eq_false other⟩
        | finish finisher =>
            obtain rfl := Option.some.inj seen
            exact ⟨rfl, decide_eq_false other⟩
        | fail => cases seen
        | _ =>
            obtain rfl := Option.some.inj seen
            exact ⟨rfl, rfl⟩
      exact Broadcast.ahead_of_other listeners foreign.1 foreign.2 moved

theorem ahead_of_walking (stepped : Steps config nodeIdBroadcast state act after)
    (listeners : after.dispatching.listeners = state.dispatching.listeners) {thread : Thread} {walk : Event × ℕ}
    (walking : state.dispatching.walks.lookup thread = some walk) :
    after.dispatching.ahead thread ≤ state.dispatching.ahead thread := by
  have moved := (step_cases stepped).2.1
  unfold dispatch at moved
  cases seen : act.move? config nodeIdBroadcast with
  | none =>
      rw [seen] at moved
      rw [← Option.some.inj moved]
  | some move =>
      rw [seen] at moved
      exact Broadcast.ahead_of_walking listeners walking moved

/-- Nobody has subscribed, and no thread has farther to go in its dispatch than before, or has begun one but
the one whose step it is. -/
structure Still (mover : Thread) (state after : StartUp) : Prop where
  toSubscribe : after.toSubscribe = state.toSubscribe
  others : ∀ thread, mover ≠ thread → after.dispatching.ahead thread = state.dispatching.ahead thread
  walking : ∀ thread walk, state.dispatching.walks.lookup thread = some walk →
    after.dispatching.ahead thread ≤ state.dispatching.ahead thread

theorem still_refl (mover : Thread) (state : StartUp) : Still mover state state :=
  ⟨rfl, fun _ _ => rfl, fun _ _ _ => le_refl _⟩

theorem still_next (stepped : Steps config nodeIdBroadcast state act after) :
    after.toSubscribe < state.toSubscribe ∨ Still act.thread state after :=
  (toSubscribe_next stepped).imp_right fun ⟨same, listeners⟩ =>
    ⟨same, fun _ other => ahead_of_other stepped listeners other, fun _ _ walking =>
      ahead_of_walking stepped listeners walking⟩

theorem ahead_of_own (stepped : Steps config nodeIdBroadcast state act after) {thread : Thread}
    (own : act = .send thread ∨ act = .finish thread) :
    after.dispatching.ahead thread < state.dispatching.ahead thread := by
  rcases own with rfl | rfl
  · have moved : Dispatching.Steps state.dispatching (.send thread) after.dispatching := (step_cases stepped).2.1
    exact Broadcast.ahead_of_own (by simp [Broadcast.Move.isBy]) moved
  · have moved : Dispatching.Steps state.dispatching (.finish thread) after.dispatching := (step_cases stepped).2.1
    exact Broadcast.ahead_of_own (by simp [Broadcast.Move.isBy]) moved

theorem inside_run {acts : List Act} (run : Transition.Run (Steps config nodeIdBroadcast) (new config) acts after) :
    after.dispatching.Inside := by
  refine (moves_run run).invariant (fun dispatching => dispatching.Inside)
    (fun _ _ _ inside moved => Broadcast.inside_next inside moved) ?_
  intro thread walk walking
  cases walking

theorem walks_on (inside : state.dispatching.Inside) {thread : Thread} {walk : Event × ℕ}
    (walking : state.dispatching.walks.lookup thread = some walk) :
    ∃ act after, (act = .send thread ∨ act = .finish thread) ∧ Steps config nodeIdBroadcast state act after := by
  obtain ⟨move, dispatching, own, moved⟩ : ∃ move after, Broadcast.Move.isBy thread move = true ∧
    state.dispatching.next EventListener.sender EventListener.wants move = some after :=
    Broadcast.walks_on inside walking
  cases move with
  | send sender =>
      obtain rfl : sender = thread := of_decide_eq_true own
      refine ⟨.send sender, { state with dispatching := dispatching }, Or.inl rfl, ?_⟩
      simp [Steps, next, allows, dispatch, Act.move?, moved, Act.subscribes]
  | finish finisher =>
      obtain rfl : finisher = thread := of_decide_eq_true own
      refine ⟨.finish finisher, { state with dispatching := dispatching }, Or.inr rfl, ?_⟩
      simp [Steps, next, allows, dispatch, Act.move?, moved, Act.subscribes]
  | _ => cases own

theorem Invariant.wanted (invariant : Invariant config state) {worker : Worker} {entry : Thread × Event}
    (member : entry ∈ state.dispatching.inbox worker.channel) :
    (worker.listener config.canBusInterfaces).wants entry.2 = true := by
  obtain ⟨delivery, delivered, rfl⟩ := List.mem_map.mp member
  obtain ⟨made, sameChannel⟩ := List.mem_filter.mp delivered
  obtain ⟨listener, there, channel, accepted⟩ := invariant.sound delivery made
  have listed := List.mem_of_getElem? there
  rw [invariant.listeners] at listed
  obtain ⟨other, _, rfl⟩ := List.mem_map.mp listed
  obtain rfl : other = worker := Worker.channel_inj.mp (channel.symm.trans (of_decide_eq_true sameChannel))
  exact accepted

end Progress

end StartUp

namespace CanTraffic

section Progress

variable {config : Config} {framing : LiquidCanFraming} {state after : CanTraffic} {act : Act}

def Act.thread : Act → Thread
  | other act => act.thread
  | receive index _ => .worker (.canRecv index)
  | stopReceiving index => .worker (.canRecv index)
  | take => .worker .canSend
  | write _ => .worker .canSend
  | nextEvent => .worker .canSend
  | leave worker => .worker worker

theorem thread_of_startUp {seen : StartUp.Act} (visible : act.startUp? config framing = some seen) :
    seen.thread = act.thread := by
  cases act with
  | other act =>
      obtain rfl := Option.some.inj visible
      rfl
  | receive index read =>
      obtain ⟨event, _, rfl⟩ := Option.map_eq_some_iff.mp visible
      rfl
  | leave worker =>
      obtain rfl := Option.some.inj visible
      rfl
  | _ => cases visible

theorem still_next (stepped : Steps config framing state act after) :
    after.startUp.toSubscribe < state.startUp.toSubscribe ∨ StartUp.Still act.thread state.startUp after.startUp := by
  have moved := startUp_next stepped
  cases visible : act.startUp? config framing with
  | none =>
      rw [visible] at moved
      rw [moved]
      exact Or.inr (StartUp.still_refl _ _)
  | some seen =>
      rw [visible] at moved
      rw [← thread_of_startUp visible]
      exact StartUp.still_next moved

theorem ahead_of_own {thread : Thread} (stepped : Steps config framing state act after)
    (own : act = .other (.send thread) ∨ act = .other (.finish thread)) :
    after.startUp.dispatching.ahead thread < state.startUp.dispatching.ahead thread := by
  have moved := startUp_next stepped
  rcases own with rfl | rfl
  · exact StartUp.ahead_of_own moved (Or.inl rfl)
  · exact StartUp.ahead_of_own moved (Or.inr rfl)

/-- What the CAN threads have of their own: how far they are in their queues, whether they still run, and
what is being sent. -/
structure Keeps (worker : Worker) (state after : CanTraffic) : Prop where
  taken : after.taken worker = state.taken worker
  ended : worker ∈ after.ended ↔ worker ∈ state.ended
  sending : worker = .canSend → after.sending = state.sending

theorem Keeps.of_same {worker : Worker} (taken : after.taken = state.taken) (ended : after.ended = state.ended)
    (sending : after.sending = state.sending) : Keeps worker state after where
  taken := congrFun taken worker
  ended := by rw [ended]
  sending _ := sending

theorem Keeps.of_advance {worker reader : Worker} (apart : worker ≠ reader)
    (taken : after.taken = (state.advance reader).taken)
    (ended : after.ended = state.ended ∨ after.ended = reader :: state.ended)
    (sending : worker = .canSend → after.sending = state.sending) : Keeps worker state after where
  taken := (congrFun taken worker).trans (taken_advance_of_ne apart state)
  ended := by
    rcases ended with same | left
    · rw [same]
    · rw [left, List.mem_cons, or_iff_right apart]
  sending := sending

theorem receive_polls {index : ℕ} {read : ReadFrame} (stepped : state.receive config framing index read = some after) :
    after.ended = state.ended ∧ after.taken =
      (if (state.pending (.canRecv index)).isSome then state.advance (.canRecv index) else state).taken := by
  simp only [receive, Option.ite_none_right_eq_some] at stepped
  obtain ⟨_, stepped⟩ := stepped
  set polled := if (state.pending (.canRecv index)).isSome then state.advance (.canRecv index) else state
    with polling
  have kept : polled.ended = state.ended := by
    rw [polling]
    split <;> rfl
  cases heard : receives config framing index read with
  | none =>
      rw [heard] at stepped
      obtain rfl := Option.some.inj stepped
      exact ⟨kept, rfl⟩
  | some event =>
      rw [heard] at stepped
      obtain ⟨startUp, _, rfl⟩ := stepOther_iff.mp stepped
      exact ⟨kept, rfl⟩

theorem keeps_of_startUp {seen : StartUp.Act} (stepped : Steps config framing state (.other seen) after)
    (worker : Worker) : Keeps worker state after := by
  simp only [Steps, next, Option.ite_none_right_eq_some] at stepped
  obtain ⟨startUp, _, rfl⟩ := stepOther_iff.mp stepped.2
  constructor <;> intros <;> rfl

theorem keeps_of_other {worker : Worker} (stepped : Steps config framing state act after)
    (other : act.thread ≠ .worker worker) : Keeps worker state after := by
  have apart {reader : Worker} (own : act.thread = .worker reader) : worker ≠ reader := by
    rintro rfl
    exact other own
  cases act with
  | other seen => exact keeps_of_startUp stepped worker
  | receive index read =>
      obtain ⟨ended, taken⟩ := receive_polls stepped
      have sending := (receive_cases stepped).2.2.1
      split at taken
      · exact Keeps.of_advance (apart rfl) taken (Or.inl ended) fun _ => sending
      · exact Keeps.of_same taken ended sending
  | stopReceiving index =>
      simp only [Steps, next, stopReceiving, Option.ite_none_right_eq_some, Option.some.injEq] at stepped
      obtain ⟨_, rfl⟩ := stepped
      refine Keeps.of_advance (apart rfl) ?_ (Or.inr rfl) fun _ => ?_ <;> rfl
  | take =>
      simp only [Steps, next, take, Option.bind_eq_bind, Option.bind_eq_some_iff,
        Option.ite_none_right_eq_some] at stepped
      obtain ⟨⟨thread, event⟩, _, _, took⟩ := stepped
      refine Keeps.of_advance (apart rfl) ?_ ?_ fun same => absurd same (apart rfl)
      · cases event <;> (obtain rfl := Option.some.inj took; rfl)
      · cases event <;>
          first | (obtain rfl := Option.some.inj took; exact Or.inl rfl) |
            (obtain rfl := Option.some.inj took; exact Or.inr rfl)
  | write succeeds =>
      simp only [Steps, next, write, Option.bind_eq_bind, Option.bind_eq_some_iff, Option.some.injEq] at stepped
      obtain ⟨_, _, _, _, rfl⟩ := stepped
      refine ⟨rfl, Iff.rfl, fun same => absurd same (apart rfl)⟩
  | nextEvent =>
      simp only [Steps, next, nextEvent, Option.bind_eq_bind, Option.bind_eq_some_iff,
        Option.ite_none_right_eq_some, Option.some.injEq] at stepped
      obtain ⟨_, _, _, rfl⟩ := stepped
      refine ⟨rfl, Iff.rfl, fun same => absurd same (apart rfl)⟩
  | leave leaver =>
      simp only [Steps, next, Option.ite_none_right_eq_some] at stepped
      obtain ⟨startUp, _, rfl⟩ := stepOther_iff.mp stepped.2
      constructor <;> intros <;> rfl

def toWrite (config : Config) (state : CanTraffic) : ℕ :=
  match state.sending with
  | some sending => config.canBusInterfaces.length - sending.reached + 1
  | none => 0

def SendingInside (config : Config) (state : CanTraffic) : Prop :=
  ∀ sending, state.sending = some sending → sending.reached ≤ config.canBusInterfaces.length

theorem toWrite_of_sending {sending : Sending} (busy : state.sending = some sending) :
    state.toWrite config = config.canBusInterfaces.length - sending.reached + 1 := by
  unfold toWrite
  rw [busy]

theorem toWrite_write {succeeds : Bool} (stepped : state.write config framing succeeds = some after) :
    after.toWrite config < state.toWrite config := by
  simp only [write, Option.bind_eq_bind, Option.bind_eq_some_iff, Option.some.injEq] at stepped
  obtain ⟨sending, busy, interface, there, rfl⟩ := stepped
  obtain ⟨inner, _⟩ := List.getElem?_eq_some_iff.mp there
  rw [toWrite_of_sending busy]
  change config.canBusInterfaces.length - (sending.reached + 1) + 1 < _
  omega

theorem toWrite_nextEvent (stepped : state.nextEvent config = some after) :
    after.toWrite config < state.toWrite config := by
  simp only [nextEvent, Option.bind_eq_bind, Option.bind_eq_some_iff, Option.ite_none_right_eq_some,
    Option.some.injEq] at stepped
  obtain ⟨sending, busy, _, rfl⟩ := stepped
  rw [toWrite_of_sending busy]
  exact Nat.succ_pos _

theorem sendingInside_next (inside : state.SendingInside config) (stepped : Steps config framing state act after) :
    after.SendingInside config := by
  intro sending busy
  by_cases other : act.thread = .worker .canSend
  · cases act with
    | take =>
        simp only [Steps, next, take, Option.bind_eq_bind, Option.bind_eq_some_iff,
          Option.ite_none_right_eq_some, Option.isNone_iff_eq_none] at stepped
        obtain ⟨⟨thread, event⟩, _, ⟨_, idle⟩, took⟩ := stepped
        have begun : after.sending = none ∨ after.sending = some ⟨thread, event, 0⟩ := by
          cases event <;>
            first | (obtain rfl := Option.some.inj took; exact Or.inl idle) |
              (obtain rfl := Option.some.inj took; exact Or.inr rfl)
        rcases begun with none | some
        · rw [none] at busy
          cases busy
        · rw [some] at busy
          rw [← Option.some.inj busy]
          exact Nat.zero_le _
    | write succeeds =>
        simp only [Steps, next, write, Option.bind_eq_bind, Option.bind_eq_some_iff, Option.some.injEq] at stepped
        obtain ⟨before, _, interface, there, rfl⟩ := stepped
        rw [← Option.some.inj busy]
        exact (List.getElem?_eq_some_iff.mp there).1
    | nextEvent =>
        simp only [Steps, next, nextEvent, Option.bind_eq_bind, Option.bind_eq_some_iff,
          Option.ite_none_right_eq_some, Option.some.injEq] at stepped
        obtain ⟨_, _, _, rfl⟩ := stepped
        cases busy
    | other seen =>
        simp only [Steps, next, Option.ite_none_right_eq_some] at stepped
        obtain ⟨startUp, _, rfl⟩ := stepOther_iff.mp stepped.2
        exact inside sending busy
    | leave leaver =>
        simp only [Steps, next, Option.ite_none_right_eq_some] at stepped
        obtain ⟨startUp, _, rfl⟩ := stepOther_iff.mp stepped.2
        exact inside sending busy
    | _ => cases other
  · rw [(keeps_of_other stepped other).sending rfl] at busy
    exact inside sending busy

theorem sendingInside_run {acts : List Act} (run : Transition.Run (Steps config framing) (new config) acts after) :
    after.SendingInside config := by
  refine run.invariant (fun traffic => traffic.SendingInside config)
    (fun _ _ _ inside stepped => sendingInside_next inside stepped) ?_
  intro sending busy
  cases busy

theorem walks_on (inside : state.startUp.dispatching.Inside) {thread : Thread} {walk : Event × ℕ}
    (walking : state.startUp.dispatching.walks.lookup thread = some walk) :
    ∃ act after, (act = .send thread ∨ act = .finish thread) ∧ Steps config framing state (.other act) after := by
  obtain ⟨act, startUp, own, moved⟩ : ∃ act after, (act = .send thread ∨ act = .finish thread) ∧
    StartUp.Steps config framing.nodeIdBroadcast state.startUp act after := StartUp.walks_on inside walking
  refine ⟨act, { state with startUp := startUp }, own, ?_⟩
  have free : isFree act = true := by rcases own with rfl | rfl <;> rfl
  rw [Steps, next, if_pos free]
  exact stepOther_iff.mpr ⟨startUp, moved, rfl⟩

theorem receives_on {index : ℕ} (looping : state.isLooping (.canRecv index) = true) :
    ∃ act after, act.thread = .worker (.canRecv index) ∧ (∀ seen, act ≠ .other seen) ∧
      Steps config framing state act after := by
  cases shutdown : state.pendingShutdown (.canRecv index) with
  | true =>
      refine ⟨.stopReceiving index, ?_⟩
      simp only [Steps, next, stopReceiving, looping, shutdown, and_self, ↓reduceIte]
      exact ⟨_, rfl, fun _ => by simp, rfl⟩
  | false =>
      have silent : receives config framing index .timedOut = none := by
        unfold receives
        cases config.canBusInterfaces[index]? <;> rfl
      refine ⟨.receive index .timedOut, ?_⟩
      simp only [Steps, next, receive, looping, shutdown, silent, Bool.false_eq_true, not_false_eq_true, and_self,
        ↓reduceIte]
      exact ⟨_, rfl, fun _ => by simp, rfl⟩

theorem sends_on (inside : state.SendingInside config) (looping : state.isLooping .canSend = true)
    {entry : Thread × Event} (pending : state.pending .canSend = some entry) :
    ∃ act after, act.thread = .worker .canSend ∧ (∀ seen, act ≠ .other seen) ∧ Steps config framing state act after := by
  cases busy : state.sending with
  | none =>
      obtain ⟨thread, event⟩ := entry
      refine ⟨.take, ?_⟩
      simp only [Steps, next, take, pending, busy, looping, Option.bind_eq_bind, Option.bind_some, Option.isNone_none,
        and_self, ↓reduceIte]
      cases event <;> exact ⟨_, rfl, fun _ => by simp, rfl⟩
  | some sending =>
      rcases Nat.lt_or_eq_of_le (inside sending busy) with inner | through
      · refine ⟨.write true, ?_⟩
        simp only [Steps, next, write, busy, List.getElem?_eq_getElem inner, Option.bind_eq_bind, Option.bind_some]
        exact ⟨_, rfl, fun _ => by simp, rfl⟩
      · refine ⟨.nextEvent, ?_⟩
        simp only [Steps, next, nextEvent, busy, through, Option.bind_eq_bind, Option.bind_some, ↓reduceIte]
        exact ⟨_, rfl, fun _ => by simp, rfl⟩

end Progress

end CanTraffic

namespace Round

def toVisit (round : Round) : ℕ :=
  ((Finset.range 256).filter fun number => UInt8.ofNat number ∉ round.visited).card

theorem toVisit_le (round : Round) : round.toVisit ≤ 256 :=
  (Finset.card_filter_le _ _).trans_eq (Finset.card_range 256)

theorem toVisit_visit (round : Round) {nodeId : UInt8} (fresh : nodeId ∉ round.visited) :
    toVisit { round with visited := round.visited ++ [nodeId] } < round.toVisit := by
  apply Finset.card_lt_card
  rw [Finset.ssubset_iff_of_subset]
  · refine ⟨nodeId.toNat, ?_, ?_⟩
    · simpa using ⟨nodeId.toNat_lt, fresh⟩
    · simp
  · intro number
    simp only [Finset.mem_filter, List.mem_append, not_or]
    rintro ⟨bounded, unseen, _⟩
    exact ⟨bounded, unseen⟩

end Round

namespace ManagerThreads

section Progress

variable {liquidCan : LiquidCan} {state after : ManagerThreads} {act : Act}

def toStore (state : ManagerThreads) : ℕ :=
  match state.storing with
  | some storing => storing.rows.length + 1
  | none => 0

def toVisit (state : ManagerThreads) : ℕ :=
  match state.round with
  | some round => round.toVisit + 1
  | none => 0

theorem toVisit_of_round {round : Round} (busy : state.round = some round) : state.toVisit = round.toVisit + 1 := by
  unfold toVisit
  rw [busy]

theorem toVisit_lt (state : ManagerThreads) : state.toVisit < 258 := by
  unfold toVisit
  split
  · next round _ =>
      have bounded := round.toVisit_le
      omega
  · omega

theorem toVisit_next (stepped : Steps liquidCan state act after) (beats : act.handles = false) (other : act ≠ .store)
    (begun : act ≠ .beginRound) : after.toVisit < state.toVisit := by
  cases act with
  | handle timestamp id message => cases beats
  | store => exact absurd rfl other
  | beginRound => exact absurd rfl begun
  | visit nodeId timestamp =>
      simp only [Steps, next, Option.bind_eq_bind, Option.bind_eq_some_iff, Option.ite_none_right_eq_some,
        Option.some.injEq] at stepped
      obtain ⟨round, busy, ⟨_, fresh⟩, rfl⟩ := stepped
      have nearer := round.toVisit_visit fresh
      rw [toVisit_of_round busy]
      exact Nat.succ_lt_succ nearer
  | endRound =>
      simp only [Steps, next, Option.bind_eq_bind, Option.bind_eq_some_iff, Option.ite_none_right_eq_some,
        Option.some.injEq] at stepped
      obtain ⟨round, busy, _, rfl⟩ := stepped
      rw [toVisit_of_round busy]
      exact Nat.succ_pos _

theorem toStore_store (stepped : Steps liquidCan state .store after) : after.toStore < state.toStore := by
  obtain ⟨storing, busy, rfl⟩ := Option.map_eq_some_iff.mp stepped
  have before : state.toStore = storing.rows.length + 1 := by
    unfold toStore
    rw [busy]
  rw [before]
  unfold store
  split
  · next rows =>
      rw [rows]
      exact Nat.lt_succ_self _
  · exact Nat.succ_pos _

def Due (state : ManagerThreads) : Prop :=
  ∀ round, state.round = some round → round.due ⊆ state.manager.canNodes.keys

theorem due_next (due : Due state) (stepped : Steps liquidCan state act after) : Due after := by
  have kept : state.manager.canNodes.keys ⊆ after.manager.canNodes.keys := fun nodeId => keys_next stepped
  intro round busy
  by_cases handling : act.handles = true ∨ act = .store
  · rw [(handler_keeps stepped handling).1] at busy
    exact List.Subset.trans (due round busy) kept
  · cases act with
    | beginRound =>
        simp only [Steps, next, Option.ite_none_right_eq_some, Option.some.injEq] at stepped
        obtain ⟨_, rfl⟩ := stepped
        rw [← Option.some.inj busy]
        exact List.Subset.refl _
    | visit nodeId timestamp =>
        simp only [Steps, next, Option.bind_eq_bind, Option.bind_eq_some_iff, Option.ite_none_right_eq_some,
          Option.some.injEq] at stepped
        obtain ⟨before, found, _, rfl⟩ := stepped
        rw [← Option.some.inj busy]
        exact List.Subset.trans (due before found) kept
    | endRound =>
        simp only [Steps, next, Option.bind_eq_bind, Option.bind_eq_some_iff, Option.ite_none_right_eq_some,
          Option.some.injEq] at stepped
        obtain ⟨_, _, _, rfl⟩ := stepped
        cases busy
    | store => simp at handling
    | handle timestamp id message => simp [Act.handles] at handling

theorem rounds_on (due : Due state) {round : Round} (busy : state.round = some round) :
    ∃ act after, act.handles = false ∧ act ≠ .store ∧ act ≠ .beginRound ∧ Steps liquidCan state act after := by
  by_cases all : round.Exhausted
  · refine ⟨.endRound, { state with round := none }, rfl, by simp, by simp, ?_⟩
    simp only [Steps, next, busy, Option.bind_eq_bind, Option.bind_some]
    exact if_pos all
  · rw [Round.Exhausted, List.all_eq_true] at all
    push Not at all
    obtain ⟨nodeId, owed, fresh⟩ := all
    have fresh : nodeId ∉ round.visited := by simpa using fresh
    refine ⟨.visit nodeId 0, state.visit nodeId 0 round, rfl, by simp, by simp, ?_⟩
    simp [Steps, next, busy, due round busy owed, fresh]

end Progress

end ManagerThreads

end FerroFlow
