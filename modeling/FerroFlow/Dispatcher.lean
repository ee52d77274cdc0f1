import FerroFlow.Events
import FerroFlow.Lib.Broadcast

/-! The event dispatcher: subscribed listeners, and threads that dispatch events to them at the same
time. The lock on the listeners lets dispatches overlap each other, but not a subscription. -/

namespace FerroFlow

open Broadcast (Move takenFrom due started)

abbrev Channel := ℕ

structure EventListener where
  debugName : String
  sender : Channel
  subscribedEvents : List EventKind
deriving DecidableEq, Repr

def EventListener.wants (listener : EventListener) (event : Event) : Bool :=
  listener.subscribedEvents.contains (EventKind.from event)

structure EventDispatcher where
  listeners : List EventListener := []

namespace EventDispatcher

def subscribe (dispatcher : EventDispatcher) (listener : Channel) (subscribedEvents : List EventKind)
    (debugName : String) : EventDispatcher where
  listeners := dispatcher.listeners ++ [{
    debugName := debugName
    sender := listener
    subscribedEvents := subscribedEvents }]

/-- What a dispatch sends: a channel whose receiver is gone fails, and the dispatch goes on. -/
def dispatch (dispatcher : EventDispatcher) (closed : List Channel) (event : Event) : List (Channel × Event) :=
  dispatcher.listeners.filterMap fun listener =>
    if ¬ listener.wants event = true then none
    else if listener.sender ∈ closed then none
    else some (listener.sender, event)

end EventDispatcher

abbrev Dispatching (Thread : Type) := Broadcast.State Thread EventListener Channel Event

namespace Dispatching

variable {Thread : Type} [DecidableEq Thread]

abbrev Steps : Dispatching Thread → Move Thread EventListener Channel Event → Dispatching Thread → Prop :=
  Broadcast.Steps EventListener.sender EventListener.wants

def dispatcher (state : Dispatching Thread) : EventDispatcher where
  listeners := state.listeners

/-- A dispatch during which no other thread takes a step makes the sends of `dispatch`. -/
theorem dispatch_alone {state : Dispatching Thread} {thread : Thread}
    (idle : state.walks.lookup thread = none) (event : Event) :
    ∃ finish, Transition.Run Steps state
        (.start thread event :: (state.listeners.map fun _ => .send thread) ++ [.finish thread]) finish ∧
      finish.dispatcher = state.dispatcher ∧
      (finish.deliveries.map fun delivery => (delivery.channel, delivery.event)) =
        (state.deliveries.map fun delivery => (delivery.channel, delivery.event)) ++
          state.dispatcher.dispatch state.closed event := by
  obtain ⟨finish, run, listeners, _, _, delivered⟩ :=
    Broadcast.walk_run EventListener.sender EventListener.wants idle event
  refine ⟨finish, run, congrArg EventDispatcher.mk listeners, ?_⟩
  rw [delivered]
  congr 1
  unfold Broadcast.handOut EventDispatcher.dispatch
  congr 1
  funext listener
  by_cases wanted : listener.wants event = true <;> by_cases gone : listener.sender ∈ state.closed <;>
    simp [wanted, gone]

theorem subscribe_step {state after : Dispatching Thread} {listener : Channel}
    {subscribedEvents : List EventKind} {debugName : String}
    (stepped : Steps state (.subscribe ⟨debugName, listener, subscribedEvents⟩) after) :
    state.walks = ∅ ∧ after.dispatcher = state.dispatcher.subscribe listener subscribedEvents debugName := by
  obtain ⟨idle, rfl⟩ := Broadcast.subscribe_next stepped
  exact ⟨KeyedMap.eq_empty_of_keys idle, rfl⟩

/-- A listener with a living receiver gets every event of its kinds whose dispatch begins after the
subscription once, in the order of each thread, as soon as the dispatch has come to it. What the other
listeners subscribe to, and whether their receivers live, makes no difference to it. -/
theorem delivered_exactly_once {before after : List (Move Thread EventListener Channel Event)}
    {subscribed finish : Dispatching Thread} {listener : EventListener}
    (reached : Transition.Run Steps {} before subscribed)
    (run : Transition.Run Steps subscribed (.subscribe listener :: after) finish) :
    (listener.sender ∉ finish.closed → ∀ thread,
      takenFrom thread (finish.received subscribed.listeners.length) ++
          due subscribed.listeners.length listener.wants finish.walks thread =
        (started thread after).filter listener.wants) ∧
    (∀ entry ∈ finish.received subscribed.listeners.length,
      EventKind.from entry.2 ∈ listener.subscribedEvents) ∧
    ((∀ (position : ℕ) (other : EventListener), finish.listeners[position]? = some other →
        other.sender = listener.sender → position = subscribed.listeners.length) →
      finish.queue listener.sender = (finish.received subscribed.listeners.length).map Prod.snd) ∧
    ∀ (otherBefore otherAfter : List (Move Thread EventListener Channel Event)) (other : Dispatching Thread),
      Transition.Run Steps {} otherBefore other → other.walks.keys = [] →
      other.listeners.length = subscribed.listeners.length →
      (listener.sender ∈ other.closed ↔ listener.sender ∈ subscribed.closed) →
      otherAfter.filterMap (Move.seen EventListener.sender listener) =
        after.filterMap (Move.seen EventListener.sender listener) →
      ∃ otherFinish, Transition.Run Steps other (.subscribe listener :: otherAfter) otherFinish ∧
        otherFinish.received subscribed.listeners.length =
          finish.received subscribed.listeners.length := by
  obtain ⟨here, accepted⟩ := Broadcast.accepted_run reached run
  refine ⟨?_, ?_, ?_, ?_⟩
  · intro alive thread
    exact (Broadcast.subscribed_run reached run thread).1 alive
  · intro entry member
    exact List.contains_iff_mem.mp (accepted entry member)
  · exact Broadcast.queue_of_unshared (Broadcast.sound_run (reached.append run)) here
  · intro otherBefore otherAfter other otherReached idle count sameClosed sameMoves
    exact Broadcast.subscribed_undisturbed reached run otherReached idle count sameClosed sameMoves

def overlapping : List (Move Bool EventListener Channel Event) := [
  .start false .shutdown, .start true .pauseSequence, .send true, .close 1, .send false, .send false,
  .send true, .finish true, .finish false]

def heartbeatListener : EventListener := ⟨"Heartbeat thread", 0, [.shutdown]⟩

def handlerListener : EventListener := ⟨"Can message handler thread", 1, [.shutdown, .shutdown]⟩

theorem delivered_exactly_once_overlapping : ∃ finish : Dispatching Bool,
    Transition.Run Steps { listeners := [handlerListener] } (.subscribe heartbeatListener :: overlapping) finish ∧
    takenFrom false (finish.received 1) ++ due 1 heartbeatListener.wants finish.walks false = [.shutdown] ∧
    takenFrom true (finish.received 1) ++ due 1 heartbeatListener.wants finish.walks true = [] := by
  have reached : Transition.Run Steps ({} : Dispatching Bool) [.subscribe handlerListener]
      { listeners := [handlerListener] } := Transition.run_iff_foldlM.mpr rfl
  obtain ⟨finish, run, closed⟩ : ∃ finish : Dispatching Bool,
      Transition.Run Steps { listeners := [handlerListener] } (.subscribe heartbeatListener :: overlapping) finish ∧
        finish.closed = [1] := ⟨_, Transition.run_iff_foldlM.mpr rfl, rfl⟩
  have alive : heartbeatListener.sender ∉ finish.closed := by
    rw [closed]
    decide
  have delivered := (delivered_exactly_once reached run).1 alive
  exact ⟨finish, run, delivered false, delivered true⟩

end Dispatching

end FerroFlow
