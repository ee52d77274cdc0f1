import FerroFlow.Lib.KeyedMap
import FerroFlow.Lib.Transition

/-! Threads that hand their events to all subscribed listeners, one listener after the other. Threads
overlap freely, but nobody subscribes while some thread is on its way through the listeners. Each
listener has a channel, which may be closed at any time. -/

namespace Broadcast

structure Delivery (Thread Channel Event : Type) where
  position : ℕ
  channel : Channel
  thread : Thread
  event : Event
deriving DecidableEq, Repr

structure State (Thread Listener Channel Event : Type) where
  listeners : List Listener := []
  walks : KeyedMap Thread (Event × ℕ) := ∅
  closed : List Channel := []
  deliveries : List (Delivery Thread Channel Event) := []

inductive Move (Thread Listener Channel Event : Type)
  | subscribe (listener : Listener)
  | start (thread : Thread) (event : Event)
  | send (thread : Thread)
  | finish (thread : Thread)
  | close (channel : Channel)
deriving DecidableEq, Repr

/-- What one listener can tell of the others: how many there are, and how far the threads have come. -/
structure View (Thread Event : Type) where
  count : ℕ
  walks : KeyedMap Thread (Event × ℕ)
  isOpen : Bool
  received : List (Thread × Event)

variable {Thread Listener Channel Event : Type} [DecidableEq Thread] [DecidableEq Channel]

def Move.event? (thread : Thread) : Move Thread Listener Channel Event → Option Event
  | .start starter event => if starter = thread then some event else none
  | _ => none

def Move.added : Move Thread Listener Channel Event → List Listener
  | .subscribe listener => [listener]
  | _ => []

def Move.closes : Move Thread Listener Channel Event → List Channel
  | .close channel => [channel]
  | _ => []

def started (thread : Thread) (moves : List (Move Thread Listener Channel Event)) : List Event :=
  moves.filterMap (Move.event? thread)

def takenFrom (thread : Thread) (received : List (Thread × Event)) : List Event :=
  (received.filter fun entry => entry.1 = thread).map Prod.snd

omit [DecidableEq Channel] in
theorem takenFrom_append (thread : Thread) (first rest : List (Thread × Event)) :
    takenFrom thread (first ++ rest) = takenFrom thread first ++ takenFrom thread rest := by
  unfold takenFrom
  rw [List.filter_append, List.map_append]

omit [DecidableEq Channel] in
theorem filterMap_takenFrom {Found : Type} {pick : Event → Option Found} {thread : Thread}
    {received : List (Thread × Event)} (only : ∀ entry ∈ received, entry.1 ≠ thread → pick entry.2 = none) :
    received.filterMap (fun entry => pick entry.2) = (takenFrom thread received).filterMap pick := by
  unfold takenFrom
  rw [List.filterMap_map, List.filterMap_filter]
  refine List.filterMap_congr fun entry member => ?_
  by_cases own : entry.1 = thread
  · rw [if_pos (decide_eq_true own)]
    rfl
  · rw [if_neg (by simpa using own), only entry member own]

def due (position : ℕ) (wants : Event → Bool) (walks : KeyedMap Thread (Event × ℕ)) (thread : Thread) :
    List Event :=
  match walks.lookup thread with
  | some (event, reached) => if reached ≤ position ∧ wants event = true then [event] else []
  | none => []

section Due

variable {position : ℕ} {wants : Event → Bool} {walks others : KeyedMap Thread (Event × ℕ)} {thread : Thread}

theorem due_of_lookup {event : Event} {reached : ℕ} (walking : walks.lookup thread = some (event, reached)) :
    due position wants walks thread = if reached ≤ position ∧ wants event = true then [event] else [] := by
  unfold due
  rw [walking]

theorem due_of_idle (idle : walks.lookup thread = none) : due position wants walks thread = [] := by
  unfold due
  rw [idle]

theorem due_congr (same : walks.lookup thread = others.lookup thread) :
    due position wants walks thread = due position wants others thread := by
  unfold due
  rw [same]

end Due

section System

variable (channel : Listener → Channel) (accepts : Listener → Event → Bool)

/-- A send to a closed channel fails, and the thread goes on to the next listener. -/
def State.handOver (state : State Thread Listener Channel Event) (thread : Thread) (event : Event)
    (position : ℕ) (listener : Listener) : List (Delivery Thread Channel Event) :=
  if accepts listener event = true ∧ channel listener ∉ state.closed then
    [{ position := position, channel := channel listener, thread := thread, event := event }]
  else []

def State.next (state : State Thread Listener Channel Event) :
    Move Thread Listener Channel Event → Option (State Thread Listener Channel Event)
  | .subscribe listener =>
      if state.walks.keys = [] then some { state with listeners := state.listeners ++ [listener] } else none
  | .start thread event =>
      if (state.walks.lookup thread).isNone then
        some { state with walks := state.walks.insert thread (event, 0) }
      else none
  | .send thread => do
      let walk ← state.walks.lookup thread
      let listener ← state.listeners[walk.2]?
      some { state with
        walks := state.walks.insert thread (walk.1, walk.2 + 1)
        deliveries := state.deliveries ++
          state.handOver channel accepts thread walk.1 walk.2 listener }
  | .finish thread => do
      let walk ← state.walks.lookup thread
      if walk.2 = state.listeners.length then some { state with walks := state.walks.erase thread } else none
  | .close closing => some { state with closed := closing :: state.closed }

def Steps (start : State Thread Listener Channel Event) (move : Move Thread Listener Channel Event)
    (finish : State Thread Listener Channel Event) : Prop :=
  start.next channel accepts move = some finish

end System

namespace View

variable {position : ℕ} {wants : Event → Bool} {thread : Thread}

def next (position : ℕ) (wants : Event → Bool) (view : View Thread Event) :
    Move Thread Unit Unit Event → Option (View Thread Event)
  | .subscribe _ => if view.walks.keys = [] then some { view with count := view.count + 1 } else none
  | .start thread event =>
      if (view.walks.lookup thread).isNone then
        some { view with walks := view.walks.insert thread (event, 0) }
      else none
  | .send thread => do
      let walk ← view.walks.lookup thread
      if walk.2 < view.count then some { view with
        walks := view.walks.insert thread (walk.1, walk.2 + 1)
        received := view.received ++
          if walk.2 = position ∧ wants walk.1 = true ∧ view.isOpen = true then [(thread, walk.1)] else [] }
      else none
  | .finish thread => do
      let walk ← view.walks.lookup thread
      if walk.2 = view.count then some { view with walks := view.walks.erase thread } else none
  | .close _ => some { view with isOpen := false }

/-- Nothing is lost, repeated or out of order: what the listener has of a thread and what is still due
are the events the thread started. A closed listener has the first of them. -/
structure Accounted (position : ℕ) (wants : Event → Bool) (thread : Thread) (expected : List Event)
    (view : View Thread Event) : Prop where
  inside : position < view.count
  complete : view.isOpen = true → takenFrom thread view.received ++ due position wants view.walks thread = expected
  first : takenFrom thread view.received <+: expected

variable {view after : View Thread Event} {expected more : List Event}

theorem Accounted.extend (accounted : Accounted position wants thread expected view)
    (inside : position < after.count)
    (complete : after.isOpen = true →
      takenFrom thread after.received ++ due position wants after.walks thread = expected ++ more)
    (kept : after.isOpen = false → takenFrom thread after.received = takenFrom thread view.received) :
    Accounted position wants thread (expected ++ more) after := by
  refine ⟨inside, complete, ?_⟩
  cases isOpen : after.isOpen with
  | true => exact ⟨_, complete isOpen⟩
  | false =>
      rw [kept isOpen]
      exact accounted.first.trans (List.prefix_append expected more)

theorem Accounted.start (accounted : Accounted position wants thread expected view) {starter : Thread}
    {event : Event} (idle : view.walks.lookup starter = none) :
    Accounted position wants thread
      (expected ++ (if starter = thread then some event else none).toList.filter wants)
      { view with walks := view.walks.insert starter (event, 0) } := by
  refine accounted.extend accounted.inside (fun isOpen => ?_) fun _ => rfl
  have complete := accounted.complete isOpen
  by_cases own : starter = thread
  · subst own
    rw [due_of_idle idle, List.append_nil] at complete
    rw [due_of_lookup (AList.lookup_insert _), if_pos rfl, ← complete]
    by_cases wanted : wants event = true <;> simp [wanted]
  · rw [due_congr (AList.lookup_insert_ne (Ne.symm own)), if_neg own, Option.toList_none,
      List.filter_nil, List.append_nil]
    exact complete

theorem takenFrom_send (received : List (Thread × Event)) (sender : Thread) (event : Event) (handed : Prop)
    [Decidable handed] : takenFrom thread (received ++ if handed then [(sender, event)] else []) =
      takenFrom thread received ++ if sender = thread ∧ handed then [event] else [] := by
  by_cases own : sender = thread <;> by_cases given : handed <;> simp [takenFrom, own, given]

theorem Accounted.send (accounted : Accounted position wants thread expected view) {sender : Thread}
    {event : Event} {reached : ℕ} (walking : view.walks.lookup sender = some (event, reached)) :
    Accounted position wants thread (expected ++ []) { view with
      walks := view.walks.insert sender (event, reached + 1)
      received := view.received ++
        if reached = position ∧ wants event = true ∧ view.isOpen = true then [(sender, event)] else [] } := by
  refine accounted.extend accounted.inside ?_ ?_
  · intro isOpen
    have complete := accounted.complete isOpen
    change view.isOpen = true at isOpen
    rw [takenFrom_send, List.append_nil, ← complete, List.append_assoc]
    congr 1
    by_cases own : sender = thread
    · subst own
      -- the walk passes the listener in this step, or its event is as due as before
      rw [due_of_lookup walking, due_of_lookup (AList.lookup_insert _)]
      rcases Nat.lt_trichotomy reached position with before | here | after
      · simp [before.ne, before.le, Nat.succ_le_of_lt before]
      · simp [here, isOpen]
      · simp [after.ne', after.not_ge, (after.trans (Nat.lt_succ_self _)).not_ge]
    · rw [due_congr (AList.lookup_insert_ne (Ne.symm own)), if_neg fun given => own given.1,
        List.nil_append]
  · intro closed
    change view.isOpen = false at closed
    rw [takenFrom_send, if_neg fun given => by simp [closed] at given, List.append_nil]

theorem Accounted.finish (accounted : Accounted position wants thread expected view) {finisher : Thread}
    {event : Event} (walking : view.walks.lookup finisher = some (event, view.count)) :
    Accounted position wants thread (expected ++ []) { view with walks := view.walks.erase finisher } := by
  refine accounted.extend accounted.inside (fun isOpen => ?_) fun _ => rfl
  have complete := accounted.complete isOpen
  have beyond : ¬ view.count ≤ position := accounted.inside.not_ge
  rw [List.append_nil, ← complete]
  by_cases own : finisher = thread
  · subst own
    rw [due_of_lookup walking, if_neg fun due => beyond due.1, due_of_idle (AList.lookup_erase _ _)]
  · rw [due_congr (AList.lookup_erase_ne (Ne.symm own))]

theorem accounted_next {move : Move Thread Unit Unit Event}
    (accounted : Accounted position wants thread expected view)
    (stepped : view.next position wants move = some after) :
    Accounted position wants thread (expected ++ (move.event? thread).toList.filter wants) after := by
  cases move with
  | subscribe _ =>
      simp only [next, Option.ite_none_right_eq_some, Option.some.injEq] at stepped
      obtain ⟨_, rfl⟩ := stepped
      change Accounted position wants thread (expected ++ []) _
      rw [List.append_nil]
      exact ⟨Nat.lt_succ_of_lt accounted.inside, accounted.complete, accounted.first⟩
  | start starter event =>
      simp only [next, Option.ite_none_right_eq_some, Option.some.injEq, Option.isNone_iff_eq_none] at stepped
      obtain ⟨idle, rfl⟩ := stepped
      exact accounted.start idle
  | send sender =>
      simp only [next, Option.bind_eq_bind, Option.bind_eq_some_iff, Option.ite_none_right_eq_some,
        Option.some.injEq] at stepped
      obtain ⟨⟨event, reached⟩, walking, _, rfl⟩ := stepped
      exact accounted.send walking
  | finish finisher =>
      simp only [next, Option.bind_eq_bind, Option.bind_eq_some_iff, Option.ite_none_right_eq_some,
        Option.some.injEq] at stepped
      obtain ⟨⟨event, reached⟩, walking, rfl, rfl⟩ := stepped
      exact accounted.finish walking
  | close _ =>
      obtain rfl := Option.some.inj stepped
      change Accounted position wants thread (expected ++ []) _
      rw [List.append_nil]
      exact ⟨accounted.inside, by simp, accounted.first⟩

theorem accounted_run {moves : List (Move Thread Unit Unit Event)}
    (run : Transition.Run (fun start move finish => start.next position wants move = some finish)
      view moves after)
    (accounted : Accounted position wants thread expected view) :
    Accounted position wants thread (expected ++ (started thread moves).filter wants) after := by
  have initial : Accounted position wants thread (expected ++ (started thread
      ([] : List (Move Thread Unit Unit Event))).filter wants) view := by
    simpa [started] using accounted
  refine run.history (fun past state => Accounted position wants thread
    (expected ++ (started thread past).filter wants) state) ?_ initial
  intro past state move next before stepped
  have extended := accounted_next before stepped
  rw [started, List.filterMap_append, List.filter_append, ← List.append_assoc]
  cases announced : move.event? thread <;> simpa [started, announced] using extended

end View

variable {channel : Listener → Channel} {accepts : Listener → Event → Bool} {position : ℕ}
  {listener : Listener} {thread : Thread}

def Move.seen (channel : Listener → Channel) (listener : Listener) :
    Move Thread Listener Channel Event → Option (Move Thread Unit Unit Event)
  | .subscribe _ => some (.subscribe ())
  | .start thread event => some (.start thread event)
  | .send thread => some (.send thread)
  | .finish thread => some (.finish thread)
  | .close closing => if closing = channel listener then some (.close ()) else none

def State.received (position : ℕ) (state : State Thread Listener Channel Event) : List (Thread × Event) :=
  state.deliveries.filterMap fun delivery =>
    if delivery.position = position then some (delivery.thread, delivery.event) else none

def State.view (channel : Listener → Channel) (position : ℕ) (listener : Listener)
    (state : State Thread Listener Channel Event) : View Thread Event where
  count := state.listeners.length
  walks := state.walks
  isOpen := decide (channel listener ∉ state.closed)
  received := state.received position

theorem started_seen (moves : List (Move Thread Listener Channel Event)) :
    started thread (moves.filterMap (Move.seen channel listener)) = started thread moves := by
  unfold started
  rw [List.filterMap_filterMap]
  congr 1
  funext move
  cases move with
  | close closing => by_cases own : closing = channel listener <;> simp [Move.seen, Move.event?, own]
  | _ => rfl

omit [DecidableEq Thread] in
theorem received_handOver {state : State Thread Listener Channel Event}
    (here : state.listeners[position]? = some listener) {reached : ℕ} {other : Listener}
    (there : state.listeners[reached]? = some other) (sender : Thread) (event : Event)
    (walks : KeyedMap Thread (Event × ℕ)) :
    State.received position { state with
      walks := walks, deliveries := state.deliveries ++ state.handOver channel accepts sender event reached other } =
      state.received position ++
        if reached = position ∧ accepts listener event = true ∧
            decide (channel listener ∉ state.closed) = true then [(sender, event)] else [] := by
  unfold State.received State.handOver
  rw [List.filterMap_append]
  congr 1
  by_cases own : reached = position
  · subst own
    obtain rfl := Option.some.inj (here.symm.trans there)
    simp only [true_and, decide_eq_true_eq]
    split <;> simp
  · simp only [own, false_and, ↓reduceIte]
    split <;> simp [own]

theorem view_next (channel : Listener → Channel) (accepts : Listener → Event → Bool)
    {state : State Thread Listener Channel Event} (here : state.listeners[position]? = some listener)
    (move : Move Thread Listener Channel Event) :
    (state.next channel accepts move).map (State.view channel position listener) =
      match move.seen channel listener with
      | some seen => (state.view channel position listener).next position (accepts listener) seen
      | none => some (state.view channel position listener) := by
  cases move with
  | subscribe other =>
      by_cases idle : state.walks.keys = [] <;>
        simp [State.next, Move.seen, View.next, State.view, State.received, idle]
  | start starter event =>
      cases walking : state.walks.lookup starter <;>
        simp [State.next, Move.seen, View.next, State.view, State.received, walking]
  | send sender =>
      cases walking : state.walks.lookup sender with
      | none => simp [State.next, Move.seen, View.next, State.view, walking]
      | some walk =>
          obtain ⟨event, reached⟩ := walk
          by_cases inside : reached < state.listeners.length
          · have there : state.listeners[reached]? = some state.listeners[reached] :=
              List.getElem?_eq_getElem inside
            simp only [State.next, Move.seen, View.next, State.view, walking, there, inside, ↓reduceIte,
              Option.bind_eq_bind, Option.bind_some, Option.map_some, received_handOver here there]
            rfl
          · have outside : state.listeners[reached]? = none := List.getElem?_eq_none (not_lt.mp inside)
            simp only [State.next, Move.seen, View.next, State.view, walking, outside, inside, ↓reduceIte,
              Option.bind_eq_bind, Option.bind_some, Option.bind_none, Option.map_none]
  | finish finisher =>
      cases walking : state.walks.lookup finisher with
      | none => simp [State.next, Move.seen, View.next, State.view, walking]
      | some walk =>
          by_cases through : walk.2 = state.listeners.length <;>
            simp [State.next, Move.seen, View.next, State.view, State.received, walking, through]
  | close closing =>
      by_cases own : closing = channel listener
      · simp [State.next, Move.seen, View.next, State.view, State.received, own]
      · simp [State.next, Move.seen, State.view, State.received, own, Ne.symm own]

theorem view_next_seen {state : State Thread Listener Channel Event}
    (here : state.listeners[position]? = some listener) {move : Move Thread Listener Channel Event}
    {seen : Move Thread Unit Unit Event} (visible : move.seen channel listener = some seen) :
    (state.next channel accepts move).map (State.view channel position listener) =
      (state.view channel position listener).next position (accepts listener) seen := by
  have viewed := view_next channel accepts here move
  rw [visible] at viewed
  exact viewed

theorem view_next_hidden {state : State Thread Listener Channel Event}
    (here : state.listeners[position]? = some listener) {move : Move Thread Listener Channel Event}
    (hidden : move.seen channel listener = none) :
    (state.next channel accepts move).map (State.view channel position listener) =
      some (state.view channel position listener) := by
  have viewed := view_next channel accepts here move
  rw [hidden] at viewed
  exact viewed

theorem effect_next {state after : State Thread Listener Channel Event}
    {move : Move Thread Listener Channel Event} (stepped : Steps channel accepts state move after) :
    after.listeners = state.listeners ++ move.added ∧ state.closed ⊆ after.closed ∧
      (after.deliveries = state.deliveries ∨
        ∃ thread event reached other, state.listeners[reached]? = some other ∧
          after.deliveries = state.deliveries ++ state.handOver channel accepts thread event reached other) := by
  cases move with
  | subscribe other =>
      simp only [Steps, State.next, Option.ite_none_right_eq_some, Option.some.injEq] at stepped
      obtain ⟨_, rfl⟩ := stepped
      exact ⟨rfl, List.Subset.refl _, Or.inl rfl⟩
  | start starter event =>
      simp only [Steps, State.next, Option.ite_none_right_eq_some, Option.some.injEq] at stepped
      obtain ⟨_, rfl⟩ := stepped
      exact ⟨(List.append_nil _).symm, List.Subset.refl _, Or.inl rfl⟩
  | send sender =>
      simp only [Steps, State.next, Option.bind_eq_bind, Option.bind_eq_some_iff, Option.some.injEq] at stepped
      obtain ⟨walk, _, other, there, rfl⟩ := stepped
      exact ⟨(List.append_nil _).symm, List.Subset.refl _, Or.inr ⟨sender, walk.1, walk.2, other, there, rfl⟩⟩
  | finish finisher =>
      simp only [Steps, State.next, Option.bind_eq_bind, Option.bind_eq_some_iff,
        Option.ite_none_right_eq_some, Option.some.injEq] at stepped
      obtain ⟨_, _, _, rfl⟩ := stepped
      exact ⟨(List.append_nil _).symm, List.Subset.refl _, Or.inl rfl⟩
  | close closing =>
      obtain rfl := Option.some.inj stepped
      exact ⟨(List.append_nil _).symm, List.subset_cons_self _ _, Or.inl rfl⟩

theorem closed_next {state after : State Thread Listener Channel Event}
    {move : Move Thread Listener Channel Event} (stepped : Steps channel accepts state move after) :
    after.closed = move.closes ++ state.closed := by
  cases move with
  | send sender =>
      simp only [Steps, State.next, Option.bind_eq_bind, Option.bind_eq_some_iff, Option.some.injEq] at stepped
      obtain ⟨_, _, _, _, rfl⟩ := stepped
      rfl
  | finish finisher =>
      simp only [Steps, State.next, Option.bind_eq_bind, Option.bind_eq_some_iff,
        Option.ite_none_right_eq_some, Option.some.injEq] at stepped
      obtain ⟨_, _, _, rfl⟩ := stepped
      rfl
  | close closing =>
      obtain rfl := Option.some.inj stepped
      rfl
  | _ =>
      simp only [Steps, State.next, Option.ite_none_right_eq_some, Option.some.injEq] at stepped
      obtain ⟨_, rfl⟩ := stepped
      rfl

theorem here_next {state after : State Thread Listener Channel Event} {move : Move Thread Listener Channel Event}
    (here : state.listeners[position]? = some listener) (stepped : Steps channel accepts state move after) :
    after.listeners[position]? = some listener := by
  obtain ⟨inside, _⟩ := List.getElem?_eq_some_iff.mp here
  rw [(effect_next stepped).1, List.getElem?_append_left inside, here]

section Run

variable {start finish : State Thread Listener Channel Event} {moves : List (Move Thread Listener Channel Event)}

theorem listeners_run (run : Transition.Run (Steps channel accepts) start moves finish) :
    finish.listeners = start.listeners ++ moves.flatMap Move.added := by
  induction run with
  | nil => rw [List.flatMap_nil, List.append_nil]
  | cons first _ ih => rw [ih, (effect_next first).1, List.flatMap_cons, List.append_assoc]

theorem closed_run (run : Transition.Run (Steps channel accepts) start moves finish) :
    start.closed ⊆ finish.closed := by
  induction run with
  | nil => exact List.Subset.refl _
  | cons first _ ih => exact List.Subset.trans (effect_next first).2.1 ih

abbrev ViewSteps (position : ℕ) (wants : Event → Bool) (start : View Thread Event)
    (move : Move Thread Unit Unit Event) (finish : View Thread Event) : Prop :=
  start.next position wants move = some finish

theorem view_run (run : Transition.Run (Steps channel accepts) start moves finish)
    (here : start.listeners[position]? = some listener) :
    Transition.Run (ViewSteps position (accepts listener)) (start.view channel position listener)
      (moves.filterMap (Move.seen channel listener)) (finish.view channel position listener) := by
  have present : Transition.Run (Transition.Restrict
      (fun state _ => state.listeners[position]? = some listener) (Steps channel accepts)) start moves finish :=
    run.restrict (fun state => state.listeners[position]? = some listener) (fun _ => True)
      (fun _ _ _ now _ stepped => ⟨now, here_next now stepped⟩) here fun _ _ => trivial
  refine present.project (State.view channel position listener) (Move.seen channel listener) ?_ ?_
  · rintro state move after seen ⟨now, stepped⟩ visible
    exact (view_next_seen now visible).symm.trans (congrArg (Option.map _) stepped)
  · rintro state move after ⟨now, stepped⟩ hidden
    exact Option.some.inj ((congrArg (Option.map _) stepped).symm.trans (view_next_hidden now hidden))

omit [DecidableEq Channel] in
theorem lookup_of_idle (idle : start.walks.keys = []) (thread : Thread) : start.walks.lookup thread = none := by
  rw [AList.lookup_eq_none, AList.mem_keys, idle]
  exact List.not_mem_nil

/-- What a subscribed listener has received from a thread, and what is still due, grows by the events of
the thread's moves that the listener accepts, as long as its channel is open. -/
theorem received_since (run : Transition.Run (Steps channel accepts) start moves finish)
    (here : start.listeners[position]? = some listener) (thread : Thread) :
    (channel listener ∉ finish.closed →
      takenFrom thread (finish.received position) ++ due position (accepts listener) finish.walks thread =
        takenFrom thread (start.received position) ++ due position (accepts listener) start.walks thread ++
          (started thread moves).filter (accepts listener)) ∧
    takenFrom thread (finish.received position) <+:
      takenFrom thread (start.received position) ++ due position (accepts listener) start.walks thread ++
        (started thread moves).filter (accepts listener) := by
  obtain ⟨inside, _⟩ := List.getElem?_eq_some_iff.mp here
  have initial : View.Accounted position (accepts listener) thread
      (takenFrom thread (start.received position) ++ due position (accepts listener) start.walks thread)
      (start.view channel position listener) :=
    ⟨inside, fun _ => rfl, List.prefix_append _ _⟩
  have accounted := View.accounted_run (view_run run here) initial
  rw [started_seen] at accounted
  exact ⟨fun isOpen => accounted.complete (decide_eq_true isOpen), accounted.first⟩

/-- A run in which other listeners differ, or lose their channels at other times, gives the listener
the same events in the same order. -/
theorem received_undisturbed {other : State Thread Listener Channel Event}
    {otherMoves : List (Move Thread Listener Channel Event)}
    (run : Transition.Run (Steps channel accepts) start moves finish)
    (here : start.listeners[position]? = some listener)
    (otherHere : other.listeners[position]? = some listener)
    (sameStart : other.view channel position listener = start.view channel position listener)
    (sameMoves : otherMoves.filterMap (Move.seen channel listener) =
      moves.filterMap (Move.seen channel listener)) :
    ∃ otherFinish, Transition.Run (Steps channel accepts) other otherMoves otherFinish ∧
      otherFinish.received position = finish.received position := by
  have seenRun := view_run run here
  rw [← sameStart, ← sameMoves] at seenRun
  obtain ⟨otherFinish, otherRun, same⟩ : ∃ otherFinish,
      Transition.Run (Steps channel accepts) other otherMoves otherFinish ∧
        otherFinish.view channel position listener = finish.view channel position listener := by
    refine seenRun.lift (State.view channel position listener) (Move.seen channel listener)
      (fun state => state.listeners[position]? = some listener)
      (fun _ _ _ now stepped => here_next now stepped) ?_ ?_ otherHere
    · intro state move seen after now visible stepped
      exact Option.map_eq_some_iff.mp ((view_next_seen now visible).trans stepped)
    · intro state move now hidden
      exact Option.map_eq_some_iff.mp (view_next_hidden now hidden)
  exact ⟨otherFinish, otherRun, congrArg View.received same⟩

end Run

def State.Sound (channel : Listener → Channel) (accepts : Listener → Event → Bool)
    (state : State Thread Listener Channel Event) : Prop :=
  ∀ delivery ∈ state.deliveries, ∃ listener, state.listeners[delivery.position]? = some listener ∧
    delivery.channel = channel listener ∧ accepts listener delivery.event = true

theorem sound_next {state after : State Thread Listener Channel Event} {move : Move Thread Listener Channel Event}
    (sound : state.Sound channel accepts) (stepped : Steps channel accepts state move after) :
    after.Sound channel accepts := by
  intro delivery member
  obtain ⟨_, _, same | ⟨thread, event, reached, other, there, delivered⟩⟩ := effect_next stepped
  · rw [same] at member
    obtain ⟨listener, here, facts⟩ := sound delivery member
    exact ⟨listener, here_next here stepped, facts⟩
  · rw [delivered, List.mem_append] at member
    rcases member with before | now
    · obtain ⟨listener, here, facts⟩ := sound delivery before
      exact ⟨listener, here_next here stepped, facts⟩
    · unfold State.handOver at now
      split at now
      · next handed =>
          obtain rfl := List.mem_singleton.mp now
          exact ⟨other, here_next there stepped, rfl, handed.1⟩
      · cases now

theorem sound_since {start finish : State Thread Listener Channel Event}
    {moves : List (Move Thread Listener Channel Event)}
    (run : Transition.Run (Steps channel accepts) start moves finish) (sound : start.Sound channel accepts) :
    finish.Sound channel accepts :=
  run.invariant (State.Sound channel accepts) (fun _ _ _ before stepped => sound_next before stepped) sound

theorem sound_run {state : State Thread Listener Channel Event} {moves : List (Move Thread Listener Channel Event)}
    (run : Transition.Run (Steps channel accepts) {} moves state) : state.Sound channel accepts :=
  sound_since run (by intro delivery member; cases member)

theorem subscribe_next {state after : State Thread Listener Channel Event}
    (stepped : Steps channel accepts state (.subscribe listener) after) :
    state.walks.keys = [] ∧ after = { state with listeners := state.listeners ++ [listener] } := by
  simp only [Steps, State.next, Option.ite_none_right_eq_some, Option.some.injEq] at stepped
  exact ⟨stepped.1, stepped.2.symm⟩

omit [DecidableEq Thread] [DecidableEq Channel] in
theorem received_fresh {state : State Thread Listener Channel Event} (sound : state.Sound channel accepts)
    (listeners : List Listener) :
    State.received state.listeners.length { state with listeners := listeners } = [] := by
  unfold State.received
  rw [List.filterMap_eq_nil_iff]
  intro delivery member
  obtain ⟨_, there, _⟩ := sound delivery member
  obtain ⟨inside, _⟩ := List.getElem?_eq_some_iff.mp there
  rw [if_neg inside.ne]

section Subscribed

variable {before after : List (Move Thread Listener Channel Event)}
  {subscribed finish : State Thread Listener Channel Event}

/-- A listener that subscribes receives, of every thread, the events the thread starts with from then
on and that the listener accepts: each once, in the thread's order. -/
theorem subscribed_run (reached : Transition.Run (Steps channel accepts) {} before subscribed)
    (run : Transition.Run (Steps channel accepts) subscribed (.subscribe listener :: after) finish)
    (thread : Thread) :
    (channel listener ∉ finish.closed →
      takenFrom thread (finish.received subscribed.listeners.length) ++
          due subscribed.listeners.length (accepts listener) finish.walks thread =
        (started thread after).filter (accepts listener)) ∧
    takenFrom thread (finish.received subscribed.listeners.length) <+:
      (started thread after).filter (accepts listener) := by
  obtain ⟨middle, first, rest⟩ := Transition.run_cons_iff.mp run
  obtain ⟨idle, rfl⟩ := subscribe_next first
  have accounted := received_since rest List.getElem?_concat_length thread
  rw [received_fresh (sound_run reached), due_of_idle (lookup_of_idle idle thread)] at accounted
  exact accounted

theorem accepted_run (reached : Transition.Run (Steps channel accepts) {} before subscribed)
    (run : Transition.Run (Steps channel accepts) subscribed (.subscribe listener :: after) finish) :
    finish.listeners[subscribed.listeners.length]? = some listener ∧
      ∀ entry ∈ finish.received subscribed.listeners.length, accepts listener entry.2 = true := by
  obtain ⟨middle, first, rest⟩ := Transition.run_cons_iff.mp run
  obtain ⟨idle, rfl⟩ := subscribe_next first
  have here : finish.listeners[subscribed.listeners.length]? = some listener :=
    rest.invariant (fun state => state.listeners[subscribed.listeners.length]? = some listener)
      (fun _ _ _ now stepped => here_next now stepped) List.getElem?_concat_length
  refine ⟨here, ?_⟩
  intro entry member
  obtain ⟨delivery, delivered, shown⟩ := List.mem_filterMap.mp member
  obtain ⟨receiver, there, _, wanted⟩ := sound_run (reached.append run) delivery delivered
  split at shown
  · next own =>
      obtain rfl := Option.some.inj shown
      rw [own, here] at there
      rw [Option.some.inj there]
      exact wanted
  · cases shown

theorem subscribed_undisturbed {otherBefore otherAfter : List (Move Thread Listener Channel Event)}
    {other : State Thread Listener Channel Event}
    (reached : Transition.Run (Steps channel accepts) {} before subscribed)
    (run : Transition.Run (Steps channel accepts) subscribed (.subscribe listener :: after) finish)
    (otherReached : Transition.Run (Steps channel accepts) {} otherBefore other)
    (idle : other.walks.keys = []) (count : other.listeners.length = subscribed.listeners.length)
    (sameClosed : channel listener ∈ other.closed ↔ channel listener ∈ subscribed.closed)
    (sameMoves : otherAfter.filterMap (Move.seen channel listener) =
      after.filterMap (Move.seen channel listener)) :
    ∃ otherFinish, Transition.Run (Steps channel accepts) other (.subscribe listener :: otherAfter) otherFinish ∧
      otherFinish.received subscribed.listeners.length = finish.received subscribed.listeners.length := by
  obtain ⟨middle, first, rest⟩ := Transition.run_cons_iff.mp run
  obtain ⟨subscribedIdle, rfl⟩ := subscribe_next first
  let begun : State Thread Listener Channel Event := { other with listeners := other.listeners ++ [listener] }
  have subscribes : Steps channel accepts other (.subscribe listener) begun := by
    simp only [Steps, State.next, idle, ↓reduceIte]
    rfl
  have here : begun.listeners[subscribed.listeners.length]? = some listener := by
    rw [← count]
    exact List.getElem?_concat_length
  have fresh : State.received subscribed.listeners.length begun = [] := by
    rw [← count]
    exact received_fresh (sound_run otherReached) _
  have sameStart : begun.view channel subscribed.listeners.length listener = State.view channel
      subscribed.listeners.length listener { subscribed with listeners := subscribed.listeners ++ [listener] } := by
    unfold State.view
    rw [fresh, received_fresh (sound_run reached)]
    simp only [begun, List.length_append, count, sameClosed, KeyedMap.eq_empty_of_keys idle,
      KeyedMap.eq_empty_of_keys subscribedIdle]
  obtain ⟨otherFinish, otherRun, same⟩ :=
    received_undisturbed rest List.getElem?_concat_length here sameStart sameMoves
  exact ⟨otherFinish, Transition.Run.cons subscribes otherRun, same⟩

end Subscribed

def State.queue (state : State Thread Listener Channel Event) (channel : Channel) : List Event :=
  (state.deliveries.filter fun delivery => delivery.channel = channel).map Delivery.event

def State.queuedFrom (thread : Thread) (channel : Channel) (state : State Thread Listener Channel Event) :
    List Event :=
  (state.deliveries.filter fun delivery => delivery.channel = channel ∧ delivery.thread = thread).map
    Delivery.event

def State.inbox (channel : Channel) (state : State Thread Listener Channel Event) : List (Thread × Event) :=
  (state.deliveries.filter fun delivery => delivery.channel = channel).map fun delivery =>
    (delivery.thread, delivery.event)

theorem takenFrom_inbox (thread : Thread) (channel : Channel) (state : State Thread Listener Channel Event) :
    takenFrom thread (state.inbox channel) = state.queuedFrom thread channel := by
  unfold takenFrom State.inbox State.queuedFrom
  rw [List.filter_map, List.map_map, List.filter_filter]
  congr 1
  refine List.filter_congr fun delivery _ => ?_
  simp [and_comm]

theorem inbox_run {start finish : State Thread Listener Channel Event}
    {moves : List (Move Thread Listener Channel Event)}
    (run : Transition.Run (Steps channel accepts) start moves finish) (target : Channel) :
    start.inbox target <+: finish.inbox target := by
  refine run.invariant (fun state => start.inbox target <+: state.inbox target) ?_ (List.prefix_refl _)
  intro state move after before stepped
  refine before.trans ?_
  unfold State.inbox
  obtain ⟨_, _, same | ⟨_, _, _, _, _, delivered⟩⟩ := effect_next stepped
  · simp only [same, List.prefix_rfl]
  · rw [delivered, List.filter_append, List.map_append]
    exact List.prefix_append _ _

theorem senders_next {state after : State Thread Listener Channel Event} {move : Move Thread Listener Channel Event}
    (stepped : Steps channel accepts state move after) (target : Channel) :
    ∃ more, after.inbox target = state.inbox target ++ more ∧
      ∀ entry ∈ more, state.walks.lookup entry.1 ≠ none := by
  have nothing (same : after.deliveries = state.deliveries) : ∃ more,
      after.inbox target = state.inbox target ++ more ∧ ∀ entry ∈ more, state.walks.lookup entry.1 ≠ none :=
    ⟨[], by rw [State.inbox, same, List.append_nil, State.inbox], by simp⟩
  cases move with
  | subscribe other =>
      obtain ⟨_, rfl⟩ := Option.ite_some_none_eq_some.mp stepped
      exact nothing rfl
  | start starter event =>
      obtain ⟨_, rfl⟩ := Option.ite_some_none_eq_some.mp stepped
      exact nothing rfl
  | send sender =>
      simp only [Steps, State.next, Option.bind_eq_bind, Option.bind_eq_some_iff, Option.some.injEq] at stepped
      obtain ⟨walk, walking, other, _, rfl⟩ := stepped
      refine ⟨_, by rw [State.inbox, List.filter_append, List.map_append]; rfl, ?_⟩
      intro entry member
      obtain ⟨delivery, delivered, rfl⟩ := List.mem_map.mp member
      have made := (List.mem_filter.mp delivered).1
      unfold State.handOver at made
      split at made
      · rw [List.mem_singleton.mp made, walking]
        exact Option.some_ne_none _
      · cases made
  | finish finisher =>
      simp only [Steps, State.next, Option.bind_eq_bind, Option.bind_eq_some_iff,
        Option.ite_none_right_eq_some, Option.some.injEq] at stepped
      obtain ⟨_, _, _, rfl⟩ := stepped
      exact nothing rfl
  | close closing =>
      obtain rfl := Option.some.inj stepped
      exact nothing rfl

theorem idle_next {state after : State Thread Listener Channel Event} {move : Move Thread Listener Channel Event}
    (stepped : Steps channel accepts state move after) (idle : state.walks.lookup thread = none)
    (notBegun : move.event? thread = none) : after.walks.lookup thread = none := by
  cases move with
  | subscribe other =>
      obtain ⟨_, rfl⟩ := Option.ite_some_none_eq_some.mp stepped
      exact idle
  | start starter event =>
      obtain ⟨_, rfl⟩ := Option.ite_some_none_eq_some.mp stepped
      rw [AList.lookup_insert_ne, idle]
      rintro rfl
      simp [Move.event?] at notBegun
  | send sender =>
      simp only [Steps, State.next, Option.bind_eq_bind, Option.bind_eq_some_iff, Option.some.injEq] at stepped
      obtain ⟨walk, walking, _, _, rfl⟩ := stepped
      rw [AList.lookup_insert_ne, idle]
      rintro rfl
      rw [idle] at walking
      cases walking
  | finish finisher =>
      simp only [Steps, State.next, Option.bind_eq_bind, Option.bind_eq_some_iff,
        Option.ite_none_right_eq_some, Option.some.injEq] at stepped
      obtain ⟨walk, walking, _, rfl⟩ := stepped
      rw [AList.lookup_erase_ne, idle]
      rintro rfl
      rw [idle] at walking
      cases walking
  | close closing =>
      obtain rfl := Option.some.inj stepped
      exact idle

def State.onTheWay [DecidableEq Listener] (accepts : Listener → Event → Bool) (thread : Thread)
    (listener : Listener) (state : State Thread Listener Channel Event) : List Event :=
  match state.walks.lookup thread with
  | some (event, reached) =>
      if listener ∈ state.listeners.drop reached ∧ accepts listener event = true then [event] else []
  | none => []

omit [DecidableEq Channel] in
theorem onTheWay_of_idle [DecidableEq Listener] {state : State Thread Listener Channel Event}
    (idle : state.walks.lookup thread = none) : state.onTheWay accepts thread listener = [] := by
  unfold State.onTheWay
  rw [idle]

section Unshared

def State.Unshared (channel : Listener → Channel) (position : ℕ) (listener : Listener)
    (state : State Thread Listener Channel Event) : Prop :=
  ∀ (other : ℕ) (sharing : Listener), state.listeners[other]? = some sharing →
    channel sharing = channel listener → other = position

variable {state : State Thread Listener Channel Event}

omit [DecidableEq Thread] [DecidableEq Channel] in
theorem channel_iff_of_unshared (sound : state.Sound channel accepts)
    (here : state.listeners[position]? = some listener) (unshared : state.Unshared channel position listener)
    {delivery : Delivery Thread Channel Event} (member : delivery ∈ state.deliveries) :
    delivery.channel = channel listener ↔ delivery.position = position := by
  obtain ⟨receiver, there, through, _⟩ := sound delivery member
  constructor
  · intro own
    exact unshared delivery.position receiver there (through.symm.trans own)
  · intro own
    rw [own, here] at there
    rw [through, Option.some.inj there]

omit [DecidableEq Thread] in
theorem inbox_of_unshared (sound : state.Sound channel accepts)
    (here : state.listeners[position]? = some listener) (unshared : state.Unshared channel position listener) :
    state.inbox (channel listener) = state.received position := by
  have filtered : (state.deliveries.filter fun delivery => delivery.channel = channel listener) =
      state.deliveries.filter fun delivery => delivery.position = position :=
    List.filter_congr fun delivery member =>
      decide_eq_decide.mpr (channel_iff_of_unshared sound here unshared member)
  unfold State.inbox State.received
  rw [filtered]
  clear filtered
  induction state.deliveries with
  | nil => rfl
  | cons delivery rest ih => by_cases own : delivery.position = position <;> simp [own, ih]

omit [DecidableEq Thread] in
theorem queue_of_unshared (sound : state.Sound channel accepts)
    (here : state.listeners[position]? = some listener) (unshared : state.Unshared channel position listener) :
    state.queue (channel listener) = (state.received position).map Prod.snd := by
  rw [← inbox_of_unshared sound here unshared, State.inbox, List.map_map]
  rfl

theorem queuedFrom_of_unshared (sound : state.Sound channel accepts)
    (here : state.listeners[position]? = some listener) (unshared : state.Unshared channel position listener)
    (thread : Thread) :
    state.queuedFrom thread (channel listener) = takenFrom thread (state.received position) := by
  rw [← takenFrom_inbox, inbox_of_unshared sound here unshared]

omit [DecidableEq Channel] in
theorem onTheWay_of_unshared [DecidableEq Listener] (here : state.listeners[position]? = some listener)
    (unshared : state.Unshared channel position listener) (thread : Thread) :
    state.onTheWay accepts thread listener = due position (accepts listener) state.walks thread := by
  have ahead (reached : ℕ) : listener ∈ state.listeners.drop reached ↔ reached ≤ position := by
    rw [List.mem_iff_getElem?]
    constructor
    · rintro ⟨further, there⟩
      rw [List.getElem?_drop] at there
      have same := unshared _ listener there rfl
      omega
    · intro before
      refine ⟨position - reached, ?_⟩
      rw [List.getElem?_drop, Nat.add_sub_cancel' before, here]
  unfold State.onTheWay due
  simp only [ahead]

theorem nothing_of_absent [DecidableEq Listener] (sound : state.Sound channel accepts)
    (absent : ∀ other ∈ state.listeners, channel other ≠ channel listener) (thread : Thread) :
    state.queuedFrom thread (channel listener) = [] ∧ state.onTheWay accepts thread listener = [] := by
  constructor
  · unfold State.queuedFrom
    rw [List.map_eq_nil_iff, List.filter_eq_nil_iff]
    intro delivery member through
    obtain ⟨receiver, there, same, _⟩ := sound delivery member
    exact absent receiver (List.mem_of_getElem? there) (same.symm.trans (of_decide_eq_true through).1)
  · unfold State.onTheWay
    split
    · rw [if_neg]
      rintro ⟨ahead, _⟩
      exact absent listener (List.mem_of_mem_drop ahead) rfl
    · rfl

end Unshared

section Ahead

def State.ahead (thread : Thread) (state : State Thread Listener Channel Event) : ℕ :=
  match state.walks.lookup thread with
  | some walk => state.listeners.length - walk.2 + 1
  | none => 0

def State.Inside (state : State Thread Listener Channel Event) : Prop :=
  ∀ thread walk, state.walks.lookup thread = some walk → walk.2 ≤ state.listeners.length

def Move.isBy (thread : Thread) : Move Thread Listener Channel Event → Bool
  | .send sender => sender = thread
  | .finish finisher => finisher = thread
  | _ => false

variable {state after : State Thread Listener Channel Event} {move : Move Thread Listener Channel Event}

omit [DecidableEq Channel] in
theorem ahead_of_lookup {walk : Event × ℕ} (walking : state.walks.lookup thread = some walk) :
    state.ahead thread = state.listeners.length - walk.2 + 1 := by
  unfold State.ahead
  rw [walking]

omit [DecidableEq Channel] in
theorem ahead_of_idle (idle : state.walks.lookup thread = none) : state.ahead thread = 0 := by
  unfold State.ahead
  rw [idle]

omit [DecidableEq Channel] in
theorem ahead_congr (listeners : after.listeners = state.listeners)
    (same : after.walks.lookup thread = state.walks.lookup thread) : after.ahead thread = state.ahead thread := by
  unfold State.ahead
  rw [listeners, same]

theorem inside_next (inside : state.Inside) (stepped : Steps channel accepts state move after) : after.Inside := by
  intro thread walk walking
  cases move with
  | subscribe other =>
      obtain ⟨_, rfl⟩ := Option.ite_some_none_eq_some.mp stepped
      have before := inside thread walk walking
      simp only [List.length_append, List.length_singleton]
      omega
  | start starter event =>
      obtain ⟨_, rfl⟩ := Option.ite_some_none_eq_some.mp stepped
      by_cases own : thread = starter
      · subst own
        rw [AList.lookup_insert] at walking
        rw [← Option.some.inj walking]
        exact Nat.zero_le _
      · rw [AList.lookup_insert_ne own] at walking
        exact inside thread walk walking
  | send sender =>
      simp only [Steps, State.next, Option.bind_eq_bind, Option.bind_eq_some_iff, Option.some.injEq] at stepped
      obtain ⟨before, _, other, there, rfl⟩ := stepped
      by_cases own : thread = sender
      · subst own
        rw [AList.lookup_insert] at walking
        rw [← Option.some.inj walking]
        exact (List.getElem?_eq_some_iff.mp there).1
      · rw [AList.lookup_insert_ne own] at walking
        exact inside thread walk walking
  | finish finisher =>
      simp only [Steps, State.next, Option.bind_eq_bind, Option.bind_eq_some_iff,
        Option.ite_none_right_eq_some, Option.some.injEq] at stepped
      obtain ⟨before, _, _, rfl⟩ := stepped
      by_cases own : thread = finisher
      · subst own
        rw [AList.lookup_erase] at walking
        cases walking
      · rw [AList.lookup_erase_ne own] at walking
        exact inside thread walk walking
  | close closing =>
      obtain rfl := Option.some.inj stepped
      exact inside thread walk walking

theorem ahead_of_other (listeners : after.listeners = state.listeners) (notBegun : move.event? thread = none)
    (other : move.isBy thread = false) (stepped : Steps channel accepts state move after) :
    after.ahead thread = state.ahead thread := by
  refine ahead_congr listeners ?_
  cases move with
  | subscribe listener =>
      obtain ⟨_, rfl⟩ := Option.ite_some_none_eq_some.mp stepped
      rfl
  | start starter event =>
      obtain ⟨_, rfl⟩ := Option.ite_some_none_eq_some.mp stepped
      refine AList.lookup_insert_ne ?_
      rintro rfl
      simp [Move.event?] at notBegun
  | send sender =>
      simp only [Steps, State.next, Option.bind_eq_bind, Option.bind_eq_some_iff, Option.some.injEq] at stepped
      obtain ⟨_, _, _, _, rfl⟩ := stepped
      exact AList.lookup_insert_ne (Ne.symm (of_decide_eq_false other))
  | finish finisher =>
      simp only [Steps, State.next, Option.bind_eq_bind, Option.bind_eq_some_iff,
        Option.ite_none_right_eq_some, Option.some.injEq] at stepped
      obtain ⟨_, _, _, rfl⟩ := stepped
      exact AList.lookup_erase_ne (Ne.symm (of_decide_eq_false other))
  | close closing =>
      obtain rfl := Option.some.inj stepped
      rfl

theorem ahead_of_own (own : move.isBy thread = true) (stepped : Steps channel accepts state move after) :
    after.ahead thread < state.ahead thread := by
  cases move with
  | send sender =>
      obtain rfl : sender = thread := of_decide_eq_true own
      simp only [Steps, State.next, Option.bind_eq_bind, Option.bind_eq_some_iff, Option.some.injEq] at stepped
      obtain ⟨walk, walking, listener, there, rfl⟩ := stepped
      obtain ⟨inside, _⟩ := List.getElem?_eq_some_iff.mp there
      rw [ahead_of_lookup walking, ahead_of_lookup (AList.lookup_insert _)]
      change state.listeners.length - (walk.2 + 1) + 1 < _
      omega
  | finish finisher =>
      obtain rfl : finisher = thread := of_decide_eq_true own
      simp only [Steps, State.next, Option.bind_eq_bind, Option.bind_eq_some_iff,
        Option.ite_none_right_eq_some, Option.some.injEq] at stepped
      obtain ⟨walk, walking, _, rfl⟩ := stepped
      rw [ahead_of_lookup walking, ahead_of_idle (AList.lookup_erase _ _)]
      exact Nat.succ_pos _
  | _ => cases own

theorem ahead_of_walking (listeners : after.listeners = state.listeners) {walk : Event × ℕ}
    (walking : state.walks.lookup thread = some walk) (stepped : Steps channel accepts state move after) :
    after.ahead thread ≤ state.ahead thread := by
  by_cases own : move.isBy thread = true
  · exact (ahead_of_own own stepped).le
  · refine (ahead_of_other listeners ?_ (Bool.eq_false_iff.mpr own) stepped).le
    cases move with
    | start starter event =>
        obtain ⟨idle, _⟩ := Option.ite_some_none_eq_some.mp stepped
        refine if_neg ?_
        rintro rfl
        rw [walking] at idle
        cases idle
    | _ => rfl

theorem walks_on (inside : state.Inside) {walk : Event × ℕ} (walking : state.walks.lookup thread = some walk) :
    ∃ move after, Move.isBy thread move = true ∧ Steps channel accepts state move after := by
  rcases Nat.lt_or_eq_of_le (inside thread walk walking) with inner | through
  · obtain ⟨listener, there⟩ : ∃ listener, state.listeners[walk.2]? = some listener :=
      ⟨_, List.getElem?_eq_getElem inner⟩
    refine ⟨.send thread, { state with
      walks := state.walks.insert thread (walk.1, walk.2 + 1)
      deliveries := state.deliveries ++ state.handOver channel accepts thread walk.1 walk.2 listener }, ?_, ?_⟩
    · simp [Move.isBy]
    · simp [Steps, State.next, walking, there]
  · refine ⟨.finish thread, { state with walks := state.walks.erase thread }, ?_, ?_⟩
    · simp [Move.isBy]
    · simp [Steps, State.next, walking, through]

end Ahead

section Alone

variable (channel) (accepts)

def handOut (listeners : List Listener) (closed : List Channel) (event : Event) : List (Channel × Event) :=
  listeners.filterMap fun listener =>
    if accepts listener event = true ∧ channel listener ∉ closed then some (channel listener, event) else none

theorem sends_run {before rest : List Listener} {start : State Thread Listener Channel Event} {event : Event}
    (whole : start.listeners = before ++ rest) (walking : start.walks.lookup thread = some (event, before.length)) :
    ∃ finish, Transition.Run (Steps channel accepts) start (rest.map fun _ => .send thread) finish ∧
      finish.listeners = start.listeners ∧ finish.closed = start.closed ∧
      finish.walks.lookup thread = some (event, start.listeners.length) ∧
      (finish.deliveries.map fun delivery => (delivery.channel, delivery.event)) =
        (start.deliveries.map fun delivery => (delivery.channel, delivery.event)) ++
          handOut channel accepts rest start.closed event := by
  induction rest generalizing before start with
  | nil => exact ⟨start, Transition.Run.nil _, rfl, rfl, by simpa [whole] using walking, by simp [handOut]⟩
  | cons listener rest ih =>
      have there : start.listeners[before.length]? = some listener := by
        rw [whole]
        simp
      let middle : State Thread Listener Channel Event := { start with
        walks := start.walks.insert thread (event, before.length + 1)
        deliveries := start.deliveries ++
          start.handOver channel accepts thread event before.length listener }
      have first : Steps channel accepts start (.send thread) middle := by
        simp only [Steps, State.next, walking, there, Option.bind_eq_bind, Option.bind_some]
        rfl
      have wholeNext : middle.listeners = (before ++ [listener]) ++ rest := by
        rw [List.append_assoc]
        exact whole
      have walkingNext : middle.walks.lookup thread = some (event, (before ++ [listener]).length) := by
        rw [List.length_append]
        exact AList.lookup_insert _
      obtain ⟨finish, sends, listeners, closed, through, delivered⟩ := ih wholeNext walkingNext
      refine ⟨finish, Transition.Run.cons first sends, listeners, closed, through, ?_⟩
      rw [delivered]
      change ((start.deliveries ++ _).map _) ++ handOut channel accepts rest start.closed event = _
      rw [List.map_append, List.append_assoc]
      congr 1
      unfold State.handOver handOut
      by_cases handed : accepts listener event = true ∧ channel listener ∉ start.closed <;> simp [handed]

theorem walk_run {start : State Thread Listener Channel Event} (idle : start.walks.lookup thread = none)
    (event : Event) : ∃ finish, Transition.Run (Steps channel accepts) start
        (.start thread event :: (start.listeners.map fun _ => .send thread) ++ [.finish thread]) finish ∧
      finish.listeners = start.listeners ∧ finish.closed = start.closed ∧
      finish.walks.lookup thread = none ∧
      (finish.deliveries.map fun delivery => (delivery.channel, delivery.event)) =
        (start.deliveries.map fun delivery => (delivery.channel, delivery.event)) ++
          handOut channel accepts start.listeners start.closed event := by
  let begun : State Thread Listener Channel Event :=
    { start with walks := start.walks.insert thread (event, 0) }
  have first : Steps channel accepts start (.start thread event) begun := by
    simp only [Steps, State.next, idle, Option.isNone_none, ↓reduceIte]
    rfl
  have walking : begun.walks.lookup thread = some (event, ([] : List Listener).length) := AList.lookup_insert _
  obtain ⟨through, sends, listeners, closed, position, delivered⟩ :=
    sends_run channel accepts (show begun.listeners = [] ++ start.listeners from rfl) walking
  have last : Steps channel accepts through (.finish thread)
      { through with walks := through.walks.erase thread } := by
    simp only [Steps, State.next, position, listeners, Option.bind_eq_bind, Option.bind_some, ↓reduceIte]
  exact ⟨_, (Transition.Run.cons first sends).append (Transition.Run.cons last (Transition.Run.nil _)),
    listeners, closed, AList.lookup_erase _ _, delivered⟩

end Alone

end Broadcast
