import FerroFlow.SequencedServer

/-! What the sequences have handed to the interfaces: of each sequence the commands its settings come to, in
their order, and nothing of a sequence once a later one has begun. -/

namespace FerroFlow

open Broadcast (takenFrom)

namespace SequenceThread

variable {thread next : SequenceThread}

theorem commands_congr (same : next.executed = thread.executed) : next.commands = thread.commands := by
  unfold commands
  rw [same]

theorem returnWith_executed (thread : SequenceThread) (result : Except SequenceRunError Unit) :
    (thread.returnWith result).executed = thread.executed := by
  rcases thread.returnWith_cases result with ⟨_, _, returned⟩ | ⟨_, returned⟩ <;> rw [returned]

theorem isFinished_of_continues {thread : SequenceThread} (continues : Continues thread.control) :
    thread.isFinished = false := by
  unfold isFinished
  rcases continues with same | ⟨since, same⟩ | ⟨since, same⟩ <;> rw [same]

theorem commands_of_advance (advanced : thread.advance = some next) :
    thread.commands <+: next.commands ∧ (next.isFinished = true → next.commands = thread.commands) := by
  have nothing (same : next.executed = thread.executed) :
      thread.commands <+: next.commands ∧ (next.isFinished = true → next.commands = thread.commands) := by
    rw [commands_congr same]
    exact ⟨List.prefix_refl _, fun _ => rfl⟩
  cases advances_of_advance advanced with
  | completed control schedule => exact nothing (returnWith_executed _ _)
  | aborted listening queue => exact nothing (returnWith_executed _ _)
  | shutDown listening queue => exact nothing (returnWith_executed _ _)
  | performed performing schedule continues =>
      refine ⟨?_, fun finished => ?_⟩
      · unfold commands
        rw [List.flatMap_append]
        exact List.prefix_append _ _
      · rw [isFinished_of_continues continues] at finished
        cases finished
  | _ => exact nothing rfl

end SequenceThread

def Event.sequences? : Event → Option (Sequence × Sequence)
  | .startSequence seq abortSeq => some (seq, abortSeq)
  | _ => none

namespace SequenceRunner

/-- What a step may do to a thread of the runner, other than a step of its own. -/
inductive Kept (runner next : SequenceRunner) (index : ℕ) : Prop
  | absent : runner.scope[index]? = none → next.scope[index]? = none → Kept runner next index
  | fresh {seq abortSeq clock nodeManager} : runner.control = .starting seq abortSeq → index = runner.scope.length →
      next.scope[index]? = some (.spawn seq abortSeq clock nodeManager) → Kept runner next index
  | same {thread queue connected clock nodeManager} : runner.scope[index]? = some thread →
      next.scope[index]? = some { thread with queue, connected, clock, nodeManager } → Kept runner next index

def Harmless (change : SequenceThread → SequenceThread) : Prop :=
  ∀ thread, ∃ queue connected clock nodeManager, change thread = { thread with queue, connected, clock, nodeManager }

variable {runner next : SequenceRunner} {index : ℕ} {move : Move}

theorem kept_of_scope (same : next.scope = runner.scope) : Kept runner next index := by
  cases located : runner.scope[index]? with
  | none => exact Kept.absent located (same ▸ located)
  | some thread => exact Kept.same located (same ▸ located)

theorem kept_map {change : SequenceThread → SequenceThread} (harmless : Harmless change)
    (scope : next.scope = runner.scope.map change) : Kept runner next index := by
  have there : next.scope[index]? = (runner.scope[index]?).map change := by
    rw [scope, List.getElem?_map]
  cases located : runner.scope[index]? with
  | none => exact Kept.absent located (by rw [there, located]; rfl)
  | some thread =>
      obtain ⟨queue, connected, clock, nodeManager, changed⟩ := harmless thread
      rw [located, Option.map_some, changed] at there
      exact Kept.same located there

theorem kept_modify {place : ℕ} {change : SequenceThread → SequenceThread} (harmless : Harmless change)
    (scope : next.scope = runner.scope.modify place change) : Kept runner next index := by
  have there : next.scope[index]? = (runner.scope[index]?).map fun thread =>
      if place = index then change thread else thread := by
    rw [scope, List.getElem?_modify]
    rfl
  cases located : runner.scope[index]? with
  | none => exact Kept.absent located (by rw [there, located]; rfl)
  | some thread =>
      rw [located, Option.map_some] at there
      by_cases here : place = index
      · obtain ⟨queue, connected, clock, nodeManager, changed⟩ := harmless thread
        rw [if_pos here, changed] at there
        exact Kept.same located there
      · rw [if_neg here] at there
        exact Kept.same located there

theorem harmless_disconnect : Harmless fun thread => { thread with connected := false } :=
  fun thread => ⟨thread.queue, false, thread.clock, thread.nodeManager, rfl⟩

theorem harmless_deliver (cmd : SequenceCmd) : Harmless fun thread => thread.deliver cmd := by
  intro thread
  dsimp only [SequenceThread.deliver]
  split
  · exact ⟨thread.queue, thread.connected, thread.clock, thread.nodeManager, rfl⟩
  · exact ⟨thread.queue ++ [cmd], thread.connected, thread.clock, thread.nodeManager, rfl⟩

theorem kept_dropHandle (runner : SequenceRunner) (index : ℕ) : Kept runner runner.dropHandle index := by
  cases handle : runner.lastSequenceHandle with
  | none => exact kept_of_scope (by simp [dropHandle, handle])
  | some last =>
      have scope : runner.dropHandle.scope = runner.scope.modify last.controllerTx
          fun thread => { thread with connected := false } := by
        simp only [dropHandle, handle]
      exact kept_modify harmless_disconnect scope

theorem kept_proceed (proceeded : runner.proceed = some next) : Kept runner next index := by
  cases control : runner.control with
  | receiving => simp [proceed, control] at proceeded
  | starting seq abortSeq =>
      simp only [proceed, control, Option.some.injEq] at proceeded
      subst proceeded
      have length := (sameThreads_dropHandle runner).length
      have appended : ({ runner.spawnSequence seq abortSeq with control := .receiving } : SequenceRunner).scope =
        runner.dropHandle.scope ++ [.spawn seq abortSeq runner.clock runner.nodeManager] := rfl
      rcases Nat.lt_trichotomy index runner.scope.length with before | here | beyond
      · have there : (runner.dropHandle.scope ++ [.spawn seq abortSeq runner.clock runner.nodeManager])[index]? =
            runner.dropHandle.scope[index]? := List.getElem?_append_left (length ▸ before)
        cases kept_dropHandle runner index with
        | absent located same => exact Kept.absent located (appended ▸ there.trans same)
        | fresh _ newest _ => exact absurd newest before.ne
        | same located same => exact Kept.same located (appended ▸ there.trans same)
      · have newest : (runner.dropHandle.scope ++ [_])[runner.dropHandle.scope.length]? =
            some (.spawn seq abortSeq runner.clock runner.nodeManager) := List.getElem?_concat_length
        rw [length, ← here] at newest
        exact Kept.fresh control here (appended ▸ newest)
      · refine Kept.absent (List.getElem?_eq_none beyond.le) ?_
        rw [appended, List.getElem?_eq_none]
        rw [List.length_append, length, List.length_singleton]
        exact beyond
  | sending cmd =>
      simp only [proceed, control, Option.some.injEq] at proceeded
      subst proceeded
      cases handle : runner.lastSequenceHandle with
      | none => exact kept_of_scope (by simp [send, handle])
      | some last =>
          have scope : (runner.send cmd).scope = runner.scope.modify last.controllerTx
              fun thread => thread.deliver cmd := by
            simp only [send, handle]
          exact kept_modify (harmless_deliver cmd) scope
  | leaving =>
      simp only [proceed, control, Option.some.injEq] at proceeded
      subst proceeded
      cases kept_dropHandle runner index with
      | absent located same => exact Kept.absent located same
      | fresh starting newest same => exact Kept.fresh starting newest same
      | same located same => exact Kept.same located same
  | stopped => simp [proceed, control] at proceeded

theorem kept_steps (stepped : runner.Steps move next) (other : move ≠ .thread index) : Kept runner next index := by
  cases move with
  | receive event =>
      obtain ⟨_, rfl⟩ := Option.ite_some_none_eq_some.mp stepped
      exact kept_of_scope (runner.receive_keeps event).1
  | closed =>
      obtain ⟨_, rfl⟩ := Option.ite_some_none_eq_some.mp stepped
      exact kept_of_scope rfl
  | proceed => exact kept_proceed stepped
  | thread place =>
      simp only [Steps, step, Option.bind_eq_some_iff, Option.map_eq_some_iff] at stepped
      obtain ⟨thread, located, after, advanced, rfl⟩ := stepped
      have apart : place ≠ index := fun same => other (congrArg Move.thread same)
      have there : (runner.scope.set place after)[index]? = runner.scope[index]? := List.getElem?_set_ne apart
      cases found : runner.scope[index]? with
      | none => exact Kept.absent found (there.trans found)
      | some thread => exact Kept.same found (there.trans found)
  | tick elapsed =>
      obtain rfl := Option.some.inj stepped
      refine kept_map (fun thread => ?_) rfl
      exact ⟨thread.queue, thread.connected, thread.clock + elapsed, thread.nodeManager, rfl⟩
  | nodes nodeManager =>
      obtain rfl := Option.some.inj stepped
      refine kept_map (fun thread => ?_) rfl
      exact ⟨thread.queue, thread.connected, thread.clock, nodeManager, rfl⟩

theorem thread_steps (stepped : runner.Steps (.thread index) next) : ∃ thread after,
    runner.scope[index]? = some thread ∧ thread.advance = some after ∧
      next = { runner with scope := runner.scope.set index after } := by
  simp only [Steps, step, Option.bind_eq_some_iff, Option.map_eq_some_iff] at stepped
  obtain ⟨thread, located, after, advanced, rfl⟩ := stepped
  exact ⟨thread, after, located, advanced, rfl⟩

theorem commandsOf_some {thread : SequenceThread} (located : runner.scope[index]? = some thread) :
    runner.commandsOf index = thread.commands := by
  unfold commandsOf
  rw [located]
  rfl

theorem commandsOf_none (absent : runner.scope[index]? = none) : runner.commandsOf index = [] := by
  unfold commandsOf
  rw [absent]
  rfl

theorem located_of_commands {event : Event} (member : event ∈ runner.commandsOf index) :
    index < runner.scope.length := by
  by_contra outside
  rw [commandsOf_none (List.getElem?_eq_none (Nat.le_of_not_lt outside))] at member
  cases member

theorem Kept.commandsOf (kept : Kept runner next index) : next.commandsOf index = runner.commandsOf index := by
  cases kept with
  | absent located same => rw [commandsOf_none located, commandsOf_none same]
  | fresh _ newest same =>
      rw [commandsOf_some same, commandsOf_none (List.getElem?_eq_none newest.ge)]
      rfl
  | same located same =>
      rw [commandsOf_some same, commandsOf_some located]
      rfl

def IsOver (runner : SequenceRunner) (index : ℕ) : Prop :=
  ∀ thread, runner.scope[index]? = some thread → thread.isFinished = true

theorem Kept.isOver (kept : Kept runner next index) (ended : next.IsOver index) : runner.IsOver index := by
  intro thread located
  cases kept with
  | absent before same =>
      rw [before] at located
      cases located
  | fresh _ newest same =>
      have finished := ended _ same
      cases finished
  | same before same =>
      obtain rfl := Option.some.inj (before.symm.trans located)
      have finished := ended _ same
      exact finished

def pending (runner : SequenceRunner) : List (Sequence × Sequence) :=
  match runner.control with
  | .starting seq abortSeq => [(seq, abortSeq)]
  | _ => []

/-- Each sequence was started by an event of its own, one after the other, and executes in order what the
event brought. -/
structure Started (runner : SequenceRunner) (asked started : List (Sequence × Sequence)) : Prop where
  inOrder : (started ++ runner.pending).Sublist asked
  length : started.length = runner.scope.length
  each : ∀ (index : ℕ) thread seq abortSeq, runner.scope[index]? = some thread →
    started[index]? = some (seq, abortSeq) →
    SequenceThread.InOrder (flattenAndInterpolate seq) (flattenAndInterpolate abortSeq) thread

theorem inOrder_next (moved : runner.Steps move next) {after : SequenceThread}
    (located : next.scope[index]? = some after) :
    (∃ thread, runner.scope[index]? = some thread ∧ ∀ mainActions abortActions,
      SequenceThread.InOrder mainActions abortActions thread →
        SequenceThread.InOrder mainActions abortActions after) ∨
    ∃ seq abortSeq, runner.control = .starting seq abortSeq ∧ index = runner.scope.length ∧
      SequenceThread.InOrder (flattenAndInterpolate seq) (flattenAndInterpolate abortSeq) after := by
  by_cases own : move = .thread index
  · subst own
    left
    obtain ⟨thread, advanced, before, step, same⟩ := thread_steps moved
    have there : next.scope[index]? = some advanced := by
      rw [same]
      exact List.getElem?_set_self (List.getElem?_eq_some_iff.mp before).1
    obtain rfl := Option.some.inj (there.symm.trans located)
    have moves : thread.Moves .advance advanced := step
    exact ⟨thread, before, fun _ _ inOrder => inOrder.moves moves⟩
  · cases kept_steps moved own with
    | absent _ same =>
        rw [same] at located
        cases located
    | fresh control newest same =>
        obtain rfl := Option.some.inj (same.symm.trans located)
        exact Or.inr ⟨_, _, control, newest, SequenceThread.inOrder_run (Transition.Run.nil _)⟩
    | same before same =>
        obtain rfl := Option.some.inj (same.symm.trans located)
        exact Or.inl ⟨_, before, fun _ _ inOrder => inOrder.keep rfl rfl rfl rfl⟩

def Move.asks : Move → List (Sequence × Sequence)
  | .receive event => event.sequences?.toList
  | _ => []

theorem pending_of_control {runner : SequenceRunner} (other : ∀ seq abortSeq, runner.control ≠ .starting seq abortSeq) :
    runner.pending = [] := by
  unfold pending
  split
  · next seq abortSeq control => exact absurd control (other seq abortSeq)
  · rfl

theorem pending_receive (runner : SequenceRunner) (event : Event) (receiving : runner.control = .receiving) :
    (runner.receive event).pending.Sublist (Move.receive event).asks := by
  have quiet : runner.pending = [] := pending_of_control (by simp [receiving])
  cases event with
  | startSequence seq abortSeq =>
      simp only [receive, runSequence]
      split
      · rw [quiet]
        exact List.nil_sublist _
      · exact List.Sublist.refl _
  | shutdown =>
      simp only [receive]
      split <;> exact List.nil_sublist _
  | pauseSequence =>
      simp only [receive, controlSequence]
      split
      · exact List.nil_sublist _
      · rw [quiet]
        exact List.nil_sublist _
  | resumeSequence =>
      simp only [receive, controlSequence]
      split
      · exact List.nil_sublist _
      · rw [quiet]
        exact List.nil_sublist _
  | abortSequence =>
      simp only [receive, controlSequence]
      split
      · exact List.nil_sublist _
      · rw [quiet]
        exact List.nil_sublist _
  | _ =>
      simp only [receive]
      rw [quiet]
      exact List.nil_sublist _

theorem pending_next (moved : runner.Steps move next) :
    (∃ seq abortSeq, runner.control = .starting seq abortSeq ∧ next.scope.length = runner.scope.length + 1 ∧
      next.pending = [] ∧ move.asks = []) ∨
    next.scope.length = runner.scope.length ∧ next.pending.Sublist (runner.pending ++ move.asks) := by
  cases move with
  | receive event =>
      obtain ⟨receiving, rfl⟩ := Option.ite_some_none_eq_some.mp moved
      have quiet : runner.pending = [] := pending_of_control (by simp [receiving])
      rw [(runner.receive_keeps event).1, quiet]
      exact Or.inr ⟨rfl, pending_receive runner event receiving⟩
  | closed =>
      obtain ⟨receiving, rfl⟩ := Option.ite_some_none_eq_some.mp moved
      exact Or.inr ⟨rfl, List.nil_sublist _⟩
  | proceed =>
      have moved : runner.proceed = some next := moved
      cases control : runner.control with
      | receiving => simp [proceed, control] at moved
      | starting seq abortSeq =>
          simp only [proceed, control, Option.some.injEq] at moved
          subst moved
          refine Or.inl ⟨seq, abortSeq, rfl, ?_, rfl, rfl⟩
          simp [spawnSequence, (sameThreads_dropHandle runner).length]
      | sending cmd =>
          simp only [proceed, control, Option.some.injEq] at moved
          subst moved
          refine Or.inr ⟨(sameThreads_send runner cmd).length, ?_⟩
          rw [pending_of_control]
          · exact List.nil_sublist _
          · intro seq abortSeq
            simp only
            split <;> simp
      | leaving =>
          simp only [proceed, control, Option.some.injEq] at moved
          subst moved
          exact Or.inr ⟨(sameThreads_dropHandle runner).length, List.nil_sublist _⟩
      | stopped => simp [proceed, control] at moved
  | thread index =>
      obtain ⟨thread, after, _, _, rfl⟩ := thread_steps moved
      exact Or.inr ⟨List.length_set, List.sublist_append_left _ _⟩
  | _ =>
      obtain rfl := Option.some.inj moved
      exact Or.inr ⟨List.length_map _, List.sublist_append_left _ _⟩

theorem started_next {asked started : List (Sequence × Sequence)} (begun : Started runner asked started)
    (moved : runner.Steps move next) : ∃ more, Started next (asked ++ move.asks) (started ++ more) := by
  rcases pending_next moved with ⟨seq, abortSeq, control, longer, done, silent⟩ | ⟨length, waiting⟩
  · have waited : runner.pending = [(seq, abortSeq)] := by
      unfold pending
      rw [control]
    refine ⟨[(seq, abortSeq)], ?_, ?_, ?_⟩
    · rw [done, silent, List.append_nil, List.append_nil, ← waited]
      exact begun.inOrder
    · rw [List.length_append, begun.length, longer]
      rfl
    · intro index after own abortOwn located asked
      rcases inOrder_next moved located with ⟨thread, before, keeps⟩ | ⟨_, _, again, newest, inOrder⟩
      · have inside := (List.getElem?_eq_some_iff.mp before).1
        rw [List.getElem?_append_left (begun.length ▸ inside)] at asked
        exact keeps _ _ (begun.each index thread own abortOwn before asked)
      · rw [newest, ← begun.length, List.getElem?_concat_length] at asked
        obtain ⟨rfl, rfl⟩ := LoopControl.starting.inj (control.symm.trans again)
        obtain ⟨rfl, rfl⟩ := Prod.mk.inj (Option.some.inj asked)
        exact inOrder
  · refine ⟨[], ?_, ?_, ?_⟩
    · rw [List.append_nil]
      have whole := begun.inOrder.append (List.Sublist.refl move.asks)
      rw [List.append_assoc] at whole
      exact ((List.Sublist.refl started).append waiting).trans whole
    · rw [List.append_nil, begun.length, length]
    · intro index after seq abortSeq located asked
      rw [List.append_nil] at asked
      rcases inOrder_next moved located with ⟨thread, before, keeps⟩ | ⟨_, _, _, newest, _⟩
      · exact keeps _ _ (begun.each index thread seq abortSeq before asked)
      · rw [newest, ← begun.length, List.getElem?_eq_none (le_refl _)] at asked
        cases asked

end SequenceRunner

namespace SequencedServer

section Tracked

variable (config : Config) (framing : LiquidCanFraming)

def Heard (state : CanTraffic) (act : CanTraffic.Act) : Prop :=
  ∀ index event, act.event? config framing (sequenceThread index) = some event →
    .canSend ∈ state.startUp.subscribed

/-- What the dispatcher and the CAN threads have to do with the sequences: each has dispatched the commands
it has sent, none has anything left once it is over, and in the queue of the send thread they are in order. -/
structure Tracked (runner : SequenceRunner) (sent : ℕ → ℕ) (journal : List CanTraffic.Act) (traffic : CanTraffic) :
    Prop where
  exclusive : runner.Exclusive
  ran : Transition.Run (Transition.Restrict (Heard config framing) (CanTraffic.Steps config framing))
    (CanTraffic.new config) journal traffic
  dispatched : ∀ index, journal.filterMap (CanTraffic.Act.event? config framing (sequenceThread index)) =
    (runner.commandsOf index).take (sent index)
  settled : ∀ index, runner.IsOver index → sent index = (runner.commandsOf index).length ∧
    traffic.startUp.dispatching.walks.lookup (sequenceThread index) = none
  heard : (runner.scope = [] ∧ runner.control = .receiving) ∨ .canSend ∈ traffic.startUp.subscribed
  inOrder : ((traffic.inbox .canSend).filterMap fun entry => entry.1.sequence?).Pairwise (· ≤ ·)

variable {config framing} {runner next : SequenceRunner} {sent : ℕ → ℕ} {journal : List CanTraffic.Act}
  {traffic after : CanTraffic} {act : CanTraffic.Act}

theorem Tracked.traffic_run (tracked : Tracked config framing runner sent journal traffic) :
    Transition.Run (CanTraffic.Steps config framing) (CanTraffic.new config) journal traffic :=
  tracked.ran.weaken

theorem Tracked.queued (tracked : Tracked config framing runner sent journal traffic) {entry : Thread × Event}
    (member : entry ∈ traffic.inbox .canSend) {index : ℕ} (own : entry.1.sequence? = some index) :
    index < runner.scope.length := by
  have sender := Thread.sequence?_eq_some.mp own
  have queued : entry.2 ∈ traffic.startUp.dispatching.queuedFrom (sequenceThread index) Worker.canSend.channel := by
    rw [← Broadcast.takenFrom_inbox]
    exact List.mem_map.mpr ⟨entry, List.mem_filter.mpr ⟨member, decide_eq_true sender⟩, rfl⟩
  have begun := Server.heard_subset tracked.traffic_run .canSend _ queued
  rw [tracked.dispatched index] at begun
  exact SequenceRunner.located_of_commands (List.mem_of_mem_take begun)

theorem Tracked.newest (tracked : Tracked config framing runner sent journal traffic) {index : ℕ}
    (walking : traffic.startUp.dispatching.walks.lookup (sequenceThread index) ≠ none) :
    index + 1 = runner.scope.length := by
  by_contra older
  refine walking (tracked.settled index fun thread located => ?_).2
  have inside := (List.getElem?_eq_some_iff.mp located).1
  exact tracked.exclusive.earlier index thread located (by omega)

theorem Tracked.inOrder_next (tracked : Tracked config framing runner sent journal traffic)
    (stepped : CanTraffic.Steps config framing traffic act after) :
    ((after.inbox .canSend).filterMap fun entry => entry.1.sequence?).Pairwise (· ≤ ·) := by
  obtain ⟨more, grown, walking⟩ := CanTraffic.senders_next stepped .canSend
  have newest : ∀ index ∈ more.filterMap (fun entry => entry.1.sequence?), index + 1 = runner.scope.length := by
    intro index member
    obtain ⟨entry, sent, own⟩ := List.mem_filterMap.mp member
    refine tracked.newest ?_
    rw [← Thread.sequence?_eq_some.mp own]
    exact walking entry sent
  rw [grown, List.filterMap_append, List.pairwise_append]
  refine ⟨tracked.inOrder, ?_, ?_⟩
  · refine List.pairwise_of_forall_mem_list fun first member second other => ?_
    have same := newest first member
    have alike := newest second other
    omega
  · intro first member second other
    obtain ⟨entry, queued, own⟩ := List.mem_filterMap.mp member
    have inside := tracked.queued queued own
    have last := newest second other
    omega

theorem event_append (journal : List CanTraffic.Act) (act : CanTraffic.Act) (thread : Thread) :
    (journal ++ [act]).filterMap (CanTraffic.Act.event? config framing thread) =
      journal.filterMap (CanTraffic.Act.event? config framing thread) ++ (act.event? config framing thread).toList := by
  rw [List.filterMap_append, List.append_cancel_left_eq]
  cases started : act.event? config framing thread <;> simp [started]

theorem Tracked.others (tracked : Tracked config framing runner sent journal traffic)
    (stepped : CanTraffic.Steps config framing traffic act after)
    (foreign : ∀ index, act.event? config framing (sequenceThread index) = none) :
    Tracked config framing runner sent (journal ++ [act]) after where
  exclusive := tracked.exclusive
  ran := by
    refine tracked.ran.append (Transition.Run.cons ⟨?_, stepped⟩ (Transition.Run.nil _))
    intro index event started
    rw [foreign index] at started
    cases started
  dispatched index := by
    rw [event_append, foreign index, tracked.dispatched index]
    exact List.append_nil _
  settled index ended := by
    obtain ⟨all, idle⟩ := tracked.settled index ended
    exact ⟨all, CanTraffic.idle_next stepped idle (foreign index)⟩
  heard := tracked.heard.imp_right fun member => CanTraffic.subscribed_next stepped member
  inOrder := tracked.inOrder_next stepped

theorem Tracked.others_run (tracked : Tracked config framing runner sent journal traffic)
    {acts : List CanTraffic.Act} (run : Transition.Run (CanTraffic.Steps config framing) traffic acts after)
    (foreign : ∀ act ∈ acts, ∀ index, act.event? config framing (sequenceThread index) = none) :
    Tracked config framing runner sent (journal ++ acts) after := by
  induction run generalizing journal with
  | nil =>
      rw [List.append_nil]
      exact tracked
  | @cons traffic act middle acts after first _ ih =>
      obtain ⟨now, later⟩ := List.forall_mem_cons.mp foreign
      rw [← List.singleton_append, ← List.append_assoc]
      exact ih (tracked.others first now) later

theorem sequenceThread_inj {left right : ℕ} : sequenceThread left = sequenceThread right ↔ left = right := by
  simp [sequenceThread]

theorem event_of_start (index other : ℕ) (event : Event) :
    CanTraffic.Act.event? config framing (sequenceThread other) (.other (.start (sequenceThread index) event)) =
      if index = other then some event else none := by
  simp only [CanTraffic.Act.event?, CanTraffic.Act.startUp?, Option.bind_some, StartUp.Act.move?,
    Broadcast.Move.event?, sequenceThread_inj]

theorem Tracked.dispatches (tracked : Tracked config framing runner sent journal traffic) {index : ℕ} {event : Event}
    (due : (runner.commandsOf index)[sent index]? = some event)
    (stepped : CanTraffic.Steps config framing traffic (.other (.start (sequenceThread index) event)) after) :
    Tracked config framing runner (Function.update sent index (sent index + 1))
      (journal ++ [.other (.start (sequenceThread index) event)]) after := by
  have unsettled : ¬ runner.IsOver index := by
    intro ended
    rw [(tracked.settled index ended).1, List.getElem?_eq_none (le_refl _)] at due
    cases due
  constructor
  · exact tracked.exclusive
  · refine tracked.ran.append (Transition.Run.cons ⟨fun _ _ _ => ?_, stepped⟩ (Transition.Run.nil _))
    refine tracked.heard.resolve_left fun ⟨empty, _⟩ => ?_
    have inside := SequenceRunner.located_of_commands (List.mem_of_getElem? due)
    rw [empty] at inside
    exact absurd inside (Nat.not_lt_zero _)
  · intro other
    rw [event_append, event_of_start, tracked.dispatched other]
    by_cases own : index = other
    · subst own
      rw [if_pos rfl, Function.update_self, List.take_add_one, due]
    · rw [if_neg own, Function.update_of_ne (Ne.symm own)]
      exact List.append_nil _
  · intro other ended
    have apart : index ≠ other := fun same => unsettled (same ▸ ended)
    obtain ⟨all, idle⟩ := tracked.settled other ended
    rw [Function.update_of_ne (Ne.symm apart)]
    refine ⟨all, CanTraffic.idle_next stepped idle ?_⟩
    rw [event_of_start, if_neg apart]
  · exact tracked.heard.imp_right fun member => CanTraffic.subscribed_next stepped member
  · exact tracked.inOrder_next stepped

theorem Tracked.moves (tracked : Tracked config framing runner sent journal traffic) {move : SequenceRunner.Move}
    (moved : runner.Steps move next) (noThread : ∀ index, move ≠ .thread index)
    (heard : (next.scope = [] ∧ next.control = .receiving) ∨ .canSend ∈ traffic.startUp.subscribed) :
    Tracked config framing next sent journal traffic where
  exclusive := tracked.exclusive.steps moved
  ran := tracked.ran
  dispatched index := by
    rw [(SequenceRunner.kept_steps moved (noThread index)).commandsOf]
    exact tracked.dispatched index
  settled index ended := by
    have kept := SequenceRunner.kept_steps moved (noThread index)
    rw [kept.commandsOf]
    exact tracked.settled index (kept.isOver ended)
  heard := heard
  inOrder := tracked.inOrder

theorem Tracked.advances (tracked : Tracked config framing runner sent journal traffic) {index : ℕ}
    (all : sent index = (runner.commandsOf index).length)
    (idle : traffic.startUp.dispatching.walks.lookup (sequenceThread index) = none)
    (moved : runner.Steps (.thread index) next) : Tracked config framing next sent journal traffic := by
  obtain ⟨thread, after, located, advanced, same⟩ := SequenceRunner.thread_steps moved
  have inside := (List.getElem?_eq_some_iff.mp located).1
  have there : next.scope[index]? = some after := by
    rw [same]
    exact List.getElem?_set_self inside
  obtain ⟨⟨more, grown⟩, ends⟩ := SequenceThread.commands_of_advance advanced
  have others (other : ℕ) (apart : other ≠ index) : SequenceRunner.Kept runner next other :=
    SequenceRunner.kept_steps moved fun impossible => apart (SequenceRunner.Move.thread.inj impossible).symm
  constructor
  · exact tracked.exclusive.steps moved
  · exact tracked.ran
  · intro other
    rw [tracked.dispatched other]
    by_cases own : other = index
    · subst own
      rw [SequenceRunner.commandsOf_some there, ← grown, all, SequenceRunner.commandsOf_some located,
        List.take_left', List.take_length]
      rfl
    · rw [(others other own).commandsOf]
  · intro other ended
    by_cases own : other = index
    · subst own
      rw [SequenceRunner.commandsOf_some there, ends (ended after there), ← SequenceRunner.commandsOf_some located]
      exact ⟨all, idle⟩
    · rw [(others other own).commandsOf]
      exact tracked.settled other ((others other own).isOver ended)
  · refine Or.inr (tracked.heard.resolve_left fun ⟨empty, _⟩ => ?_)
    rw [empty] at inside
    exact absurd inside (Nat.not_lt_zero _)
  · exact tracked.inOrder

end Tracked

section Run

variable {config : Config} {framing : LiquidCanFraming} {liquidCan : LiquidCan} {mapping : Mapping} {clock : Instant}
  {state after : SequencedServer} {act : Act} {journal : List CanTraffic.Act}

theorem foreign_of_other {act : Server.Act} (other : isOther act = true) (server : Server) :
    ∀ seen ∈ server.trafficActs act, ∀ index, seen.event? config framing (sequenceThread index) = none := by
  intro seen member index
  refine Option.eq_none_iff_forall_ne_some.mpr fun event started => ?_
  rcases Server.start_of_event started with ⟨_, _, _, receiver, _⟩ | ⟨main, _⟩ | rfl
  · cases receiver
  · cases main
  · cases act with
    | other performed =>
        obtain rfl := List.mem_singleton.mp member
        have sequence := Thread.sequence?_sequenceThread index
        simp only [sequenceThread, isOther] at other sequence
        rw [sequence] at other
        cases other
    | dispatchLog =>
        obtain ⟨log, _, same⟩ := List.mem_map.mp member
        cases same
    | dispatchRequest =>
        obtain ⟨request, _, same⟩ := List.mem_map.mp member
        cases same
    | leave worker => cases List.mem_singleton.mp member
    | _ => cases member

theorem heard_of_waiting (run : Transition.Run (CanTraffic.Steps config framing) (CanTraffic.new config) journal
    state.server.traffic) {event : Event}
    (waiting : state.server.nextFor .sequenceRunner state.received = some event) :
    .canSend ∈ state.server.traffic.startUp.subscribed := by
  refine StartUp.sender_before_runner (CanTraffic.startUp_run run) ?_
  by_contra absent
  obtain ⟨entry, there, _⟩ := Option.map_eq_some_iff.mp waiting
  have empty := (List.append_eq_nil_iff.mp (Server.unheard run absent entry.1)).1
  rw [← Broadcast.takenFrom_inbox] at empty
  unfold Broadcast.takenFrom at empty
  rw [List.map_eq_nil_iff, List.filter_eq_nil_iff] at empty
  exact empty entry (List.mem_of_getElem? there) (decide_eq_true rfl)

theorem tracked_next (tracked : Tracked config framing state.runner state.sent journal state.server.traffic)
    (stepped : Steps config framing liquidCan state act after) :
    ∃ more, Tracked config framing after.runner after.sent (journal ++ more) after.server.traffic := by
  have quiet {later : SequencedServer}
      (kept : Tracked config framing later.runner later.sent journal later.server.traffic) :
      ∃ more, Tracked config framing later.runner later.sent (journal ++ more) later.server.traffic :=
    ⟨[], by rwa [List.append_nil]⟩
  have unheard {move : SequenceRunner.Move} {next : SequenceRunner} (moved : state.runner.Steps move next)
      (noEvent : ∀ event, move ≠ .receive event) (goesOn : move ≠ .closed) :
      (next.scope = [] ∧ next.control = .receiving) ∨ .canSend ∈ state.server.traffic.startUp.subscribed := by
    refine tracked.heard.imp_left fun ⟨empty, receiving⟩ => ?_
    cases move with
    | receive event => exact absurd rfl (noEvent event)
    | closed => exact absurd rfl goesOn
    | proceed => simp [SequenceRunner.Steps, SequenceRunner.step, SequenceRunner.proceed, receiving] at moved
    | thread index =>
        obtain ⟨thread, _, located, _⟩ := SequenceRunner.thread_steps moved
        rw [empty] at located
        cases located
    | _ =>
        obtain rfl := Option.some.inj moved
        exact ⟨by simp [empty], receiving⟩
  cases effect_of_steps stepped with
  | server other moved seesNodes =>
      have seen := tracked.moves seesNodes (by simp) (unheard seesNodes (by simp) (by simp))
      exact ⟨_, seen.others_run (Server.traffic_next moved) (foreign_of_other other state.server)⟩
  | receive waiting moved =>
      exact quiet (tracked.moves moved (by simp) (Or.inr (heard_of_waiting tracked.traffic_run waiting)))
  | proceed moved => exact quiet (tracked.moves moved (by simp) (unheard moved (by simp) (by simp)))
  | advance ready moved =>
      simp only [isReady, isIdle, Bool.decide_and, Bool.and_eq_true, decide_eq_true_eq, Option.isNone_iff_eq_none]
        at ready
      exact quiet (tracked.advances ready.2 ready.1 moved)
  | dispatchCommand due moved =>
      obtain ⟨_, single, rest⟩ := Transition.run_cons_iff.mp (Server.traffic_next moved)
      obtain rfl := Transition.run_nil_iff.mp rest
      exact ⟨_, tracked.dispatches due single⟩
  | tick moved => exact quiet (tracked.moves moved (by simp) (unheard moved (by simp) (by simp)))
  | leave stopped moved =>
      refine ⟨_, tracked.others_run (Server.traffic_next moved) fun seen member index => ?_⟩
      obtain rfl := List.mem_singleton.mp member
      rfl

theorem tracked_new (config : Config) (framing : LiquidCanFraming) (mapping : Mapping) (clock : Instant) :
    Tracked config framing (new config mapping clock).runner (new config mapping clock).sent []
      (new config mapping clock).server.traffic where
  exclusive := SequenceRunner.Exclusive.run (Transition.Run.nil _)
  ran := Transition.Run.nil _
  dispatched _ := rfl
  settled _ _ := ⟨rfl, rfl⟩
  heard := Or.inl ⟨rfl, rfl⟩
  inOrder := List.Pairwise.nil

theorem tracked_of_run {acts : List Act} {finish : SequencedServer}
    (run : Transition.Run (Steps config framing liquidCan) (new config mapping clock) acts finish) :
    ∃ journal, Tracked config framing finish.runner finish.sent journal finish.server.traffic := by
  refine run.invariant (fun state => ∃ journal,
    Tracked config framing state.runner state.sent journal state.server.traffic) ?_ ⟨[], tracked_new _ _ _ _⟩
  rintro start act finish ⟨journal, tracked⟩ stepped
  obtain ⟨more, next⟩ := tracked_next tracked stepped
  exact ⟨_, next⟩

end Run

section Written

variable {config : Config} {framing : LiquidCanFraming} {liquidCan : LiquidCan} {mapping : Mapping} {clock : Instant}
  {state after : SequencedServer} {act : Act}

def asked (state : SequencedServer) : List (Sequence × Sequence) :=
  ((state.server.traffic.inbox .sequenceRunner).take state.received).filterMap fun entry => entry.2.sequences?

def turns (destination : ℕ) (state : SequencedServer) : List ℕ :=
  (state.server.traffic.writtenTo destination).filterMap fun entry => entry.1.sequence?

def underWay (config : Config) (destination index : ℕ) (state : SequencedServer) : List Event :=
  takenFrom (sequenceThread index) (state.server.traffic.beingWritten destination) ++
    state.server.traffic.unsent config (sequenceThread index) ++ (state.commandsOf index).drop (state.sent index)

theorem started_next {found started : List (Sequence × Sequence)}
    (begun : state.runner.Started found started)
    (finds : Consumer.Finds (fun entry : Thread × Event => entry.2.sequences?)
      (state.server.traffic.inbox .sequenceRunner) state.received found)
    (stepped : Steps config framing liquidCan state act after) : ∃ found started,
      after.runner.Started found started ∧ Consumer.Finds (fun entry : Thread × Event => entry.2.sequences?)
        (after.server.traffic.inbox .sequenceRunner) after.received found := by
  have silent {runner : SequenceRunner} {move : SequenceRunner.Move} (moved : state.runner.Steps move runner)
      (nothing : move.asks = []) : ∃ started, runner.Started found started := by
    obtain ⟨more, next⟩ := SequenceRunner.started_next begun moved
    rw [nothing, List.append_nil] at next
    exact ⟨_, next⟩
  cases effect_of_steps stepped with
  | server _ moved seesNodes =>
      obtain ⟨started, next⟩ := silent seesNodes rfl
      exact ⟨_, _, next, finds.grow (Server.inbox_run (Server.traffic_next moved) _)⟩
  | receive waiting moved =>
      obtain ⟨entry, there, rfl⟩ := Option.map_eq_some_iff.mp waiting
      obtain ⟨more, next⟩ := SequenceRunner.started_next begun moved
      exact ⟨_, _, next, finds.next there⟩
  | proceed moved =>
      obtain ⟨started, next⟩ := silent moved rfl
      exact ⟨_, _, next, finds⟩
  | advance _ moved =>
      obtain ⟨started, next⟩ := silent moved rfl
      exact ⟨_, _, next, finds⟩
  | dispatchCommand _ moved =>
      exact ⟨_, _, begun, finds.grow (Server.inbox_run (Server.traffic_next moved) _)⟩
  | tick moved =>
      obtain ⟨started, next⟩ := silent moved rfl
      exact ⟨_, _, next, finds⟩
  | leave _ moved =>
      exact ⟨_, _, begun, finds.grow (Server.inbox_run (Server.traffic_next moved) _)⟩

theorem started_of_run {acts : List Act} {finish : SequencedServer}
    (run : Transition.Run (Steps config framing liquidCan) (new config mapping clock) acts finish) :
    ∃ started, finish.runner.Started finish.asked started := by
  have kept : ∃ found started, finish.runner.Started found started ∧ Consumer.Finds
      (fun entry : Thread × Event => entry.2.sequences?) (finish.server.traffic.inbox .sequenceRunner) finish.received
        found := by
    refine run.invariant (fun state => ∃ found started, state.runner.Started found started ∧ Consumer.Finds
      (fun entry : Thread × Event => entry.2.sequences?) (state.server.traffic.inbox .sequenceRunner) state.received
        found) ?_ ?_
    · rintro start act finish ⟨found, started, begun, finds⟩ stepped
      exact started_next begun finds stepped
    · exact ⟨[], [], ⟨List.Sublist.refl _, rfl, fun _ _ _ _ located => by cases located⟩, Consumer.finds_new _ _⟩
  obtain ⟨found, started, begun, finds⟩ := kept
  refine ⟨started, ?_⟩
  unfold asked
  rw [← finds.found]
  exact begun

theorem executed_prefix {mainActions abortActions : List TimedAction} {thread : SequenceThread}
    (inOrder : SequenceThread.InOrder mainActions abortActions thread) :
    thread.executedIn .main <+: mainActions ∧ thread.executedIn .abort <+: abortActions := by
  cases phase : thread.phase with
  | main =>
      obtain ⟨whole, none⟩ := inOrder.inMain phase
      rw [none]
      exact ⟨⟨_, whole⟩, List.nil_prefix⟩
  | abort =>
      obtain ⟨⟨rest, whole⟩, inAbort⟩ := inOrder.inAbort phase
      exact ⟨⟨rest, whole⟩, ⟨_, inAbort⟩⟩

theorem Tracked.given {runner : SequenceRunner} {sent : ℕ → ℕ} {journal : List CanTraffic.Act} {traffic : CanTraffic}
    (tracked : Tracked config framing runner sent journal traffic) (index : ℕ) :
    traffic.startUp.dispatching.queuedFrom (sequenceThread index) Worker.canSend.channel <+:
      ((runner.commandsOf index).take (sent index)).filter (Worker.canSend.listener config.canBusInterfaces).wants ∧
    (Worker.canSend.channel ∉ traffic.startUp.dispatching.closed →
      traffic.startUp.account config .canSend (sequenceThread index) =
        ((runner.commandsOf index).take (sent index)).filter
          (Worker.canSend.listener config.canBusInterfaces).wants) := by
  rw [← tracked.dispatched index]
  refine Server.heard_in_full tracked.traffic_run fun earlier later state split reached absent => ?_
  have ran := tracked.ran
  rw [split] at ran
  obtain ⟨middle, first, _⟩ := Transition.run_append_iff.mp ran
  obtain rfl : middle = state := Option.some.inj
    ((Transition.run_iff_foldlM.mp first.weaken).symm.trans (Transition.run_iff_foldlM.mp reached))
  have silent := first.history (fun past state => .canSend ∉ state.startUp.subscribed →
    past.filterMap (CanTraffic.Act.event? config framing (sequenceThread index)) = []) ?_
    (fun _ => rfl : .canSend ∉ (CanTraffic.new config).startUp.subscribed → List.filterMap _ [] = [])
  · exact silent absent
  · rintro past start act finish before ⟨heard, stepped⟩ absent
    have notYet : .canSend ∉ start.startUp.subscribed := fun member =>
      absent (CanTraffic.subscribed_next stepped member)
    rw [event_append, before notYet, List.nil_append]
    cases started : act.event? config framing (sequenceThread index) with
    | none => rfl
    | some event => exact absurd (heard index event started) notYet

/-- Sequences are started by the events that ask for it, in their order, and each executes its schedules in
order; the commands of each sequence are handed to every interface, in order and once, and none once a command
of a later sequence has been. -/
theorem sequences_written {acts : List Act} {finish : SequencedServer}
    (run : Transition.Run (Steps config framing liquidCan) (new config mapping clock) acts finish) :
    (∃ started : List (Sequence × Sequence), started.Sublist finish.asked ∧
      started.length = finish.runner.scope.length ∧
      ∀ (index : ℕ) thread seq abortSeq, finish.runner.scope[index]? = some thread →
        started[index]? = some (seq, abortSeq) →
        thread.executedIn .main <+: flattenAndInterpolate seq ∧
        thread.executedIn .abort <+: flattenAndInterpolate abortSeq) ∧
    ∀ (destination : ℕ) (interface : String), config.canBusInterfaces[destination]? = some interface →
      (finish.turns destination).Pairwise (· ≤ ·) ∧
      ∀ index, finish.server.traffic.framesTriedTo destination (sequenceThread index) <+:
          (finish.commandsOf index).filterMap (framing.outgoing interface) ∧
        (Worker.canSend.channel ∉ finish.server.traffic.startUp.dispatching.closed →
          finish.server.traffic.framesTriedTo destination (sequenceThread index) ++
              (finish.underWay config destination index).filterMap (framing.outgoing interface) =
            (finish.commandsOf index).filterMap (framing.outgoing interface)) := by
  obtain ⟨journal, tracked⟩ := tracked_of_run run
  have ordered := CanTraffic.inOrder_run tracked.traffic_run (CanTraffic.inOrder_new config framing)
  constructor
  · obtain ⟨started, begun⟩ := started_of_run run
    refine ⟨started, (List.sublist_append_left _ _).trans begun.inOrder, begun.length, ?_⟩
    intro index thread seq abortSeq located there
    exact executed_prefix (begun.each index thread seq abortSeq located there)
  · intro destination interface there
    constructor
    · have written : (finish.server.traffic.writtenTo destination).Sublist (finish.server.traffic.inbox .canSend) := by
        have whole := ordered.written destination interface there
        exact (whole ▸ List.sublist_append_left _ _).trans (List.filter_sublist.trans (List.take_sublist _ _))
      exact tracked.inOrder.sublist (written.filterMap _)
    · intro index
      obtain ⟨first, whole⟩ := tracked.given index
      constructor
      · have frames := (ordered.first there (sequenceThread index)).trans (first.filterMap (framing.outgoing interface))
        rw [LiquidCanFraming.filterMap_wanted] at frames
        exact frames.trans ((List.take_prefix _ _).filterMap _)
      · intro alive
        have complete := ordered.complete there (sequenceThread index)
        rw [whole alive, LiquidCanFraming.filterMap_wanted] at complete
        unfold underWay
        rw [List.filterMap_append, ← List.append_assoc, complete, ← List.filterMap_append, commandsOf,
          List.take_append_drop]

def pumpFraming : LiquidCanFraming where
  nodeIdInvalid := 0
  nodeIdBroadcast := 63
  nodeIdServer := 1
  idFromRaw := CanTraffic.plainFraming.idFromRaw
  idIntoRaw := CanTraffic.plainFraming.idIntoRaw
  tryFrom frame :=
    match frame.data with
    | [0] => .ok (.nodeInfoAnnouncement ⟨0, 1, 0, 0, "pump"⟩)
    | [1] => .ok (.parameterRegistration ⟨8, .uint8, "setpoint"⟩)
    | _ => bail "unknown message"
  intoFrame := CanTraffic.plainFraming.intoFrame

def setsPump (value : F64) : TimedAction where
  timestamp := .finite 0
  action := .setParam { param := "setpoint", value }

def pumpSequence : Sequence where
  name := "pump"
  globals := { startTime := .finite 0, endTime := .finite 10, interpolationInterval := ⟨10 ^ 9⟩ }
  steps := [{ name := "set", timestamp := .finite 0, actions := [setsPump (.finite 1), setsPump (.finite 2)] }]

def traffics (act : StartUp.Act) : Act := .server (.other (.other act))

def handsOut (listeners : ℕ) (thread : Thread) : List Act :=
  List.replicate listeners (traffics (.send thread)) ++ [traffics (.finish thread)]

def startsUp : List Act :=
  (runWithDependencies StartUp.smallConfig).map (fun instruction => traffics (.proceed instruction)) ++
    handsOut 4 .main ++ [traffics .runnerSubscribes]

def pumpRegisters : List Act :=
  (Server.tankSends [0] ++ Server.tankSends [1]).map .server ++ [
    .server (.handle 0 ⟨5, 1⟩ (.nodeInfoAnnouncement ⟨0, 1, 0, 0, "pump"⟩)),
    .server (.handle 0 ⟨5, 1⟩ (.parameterRegistration ⟨8, .uint8, "setpoint"⟩))]

def startsPump : List Act :=
  traffics (.start (.outside 1) (.startSequence pumpSequence pumpSequence)) :: handsOut 5 (.outside 1) ++
    [.receive, .proceed]

def setsTwice : List Act :=
  startsUp ++ pumpRegisters ++ startsPump ++ [.advance 0, .advance 0, .advance 0, .dispatchCommand 0] ++
    handsOut 5 (sequenceThread 0) ++
    [.server (.other .take), .server (.other (.write true)), .server (.other .nextEvent), .server (.other .take),
      .server (.other (.write true)), .advance 0, .advance 0]

theorem sequences_written_pump : ∃ finish,
    Transition.Run (Steps StartUp.smallConfig pumpFraming .littleEndian)
      (new StartUp.smallConfig NodeManager.pumpMapping 0) setsTwice finish ∧
    (finish.server.traffic.framesTriedTo 0 (sequenceThread 0)).length = 1 ∧
    (finish.underWay StartUp.smallConfig 0 0).length = 1 ∧ finish.turns 0 = [0] ∧
    finish.server.traffic.framesTriedTo 0 (sequenceThread 0) ++
        (finish.underWay StartUp.smallConfig 0 0).filterMap (pumpFraming.outgoing "can0") =
      (finish.commandsOf 0).filterMap (pumpFraming.outgoing "can0") := by
  have evaluated : (setsTwice.foldlM (next StartUp.smallConfig pumpFraming .littleEndian)
      (new StartUp.smallConfig NodeManager.pumpMapping 0)).map (fun state =>
        ((state.server.traffic.framesTriedTo 0 (sequenceThread 0)).length,
          (state.underWay StartUp.smallConfig 0 0).length, state.turns 0,
          state.server.traffic.startUp.dispatching.closed)) = some (1, 1, [0], []) := by decide +kernel
  obtain ⟨finish, reached, seen⟩ := Option.map_eq_some_iff.mp evaluated
  simp only [Prod.mk.injEq] at seen
  obtain ⟨written, waiting, turned, allOpen⟩ := seen
  have run := Transition.run_iff_foldlM.mpr reached
  have there : StartUp.smallConfig.canBusInterfaces[0]? = some "can0" := rfl
  refine ⟨finish, run, written, waiting, turned, (((sequences_written run).2 0 "can0" there).2 0).2 ?_⟩
  rw [allOpen]
  exact List.not_mem_nil

end Written

end SequencedServer

end FerroFlow
