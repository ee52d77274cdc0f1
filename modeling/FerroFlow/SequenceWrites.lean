import FerroFlow.SequenceCommands
import FerroFlow.SequencePauses
import FerroFlow.TypedWrites

/-! Where a write of a sequence comes from: a setting of that sequence, carried out on the nodes as the server
had them at that moment. -/

namespace FerroFlow

def Action.commands (nodeManager : NodeManager) : Action → List Event
  | .hold _ => []
  | .setParam paramState => (nodeManager.setValue paramState.param (.ofF64 paramState.value)).events

namespace SequenceThread

variable {thread next : SequenceThread}

theorem executed_of_advance (advanced : thread.advance = some next) : next.executed = thread.executed ∨
    ∃ timedAction, next.executed = thread.executed ++
      [⟨thread.phase, timedAction, thread.clock, timedAction.action.commands thread.nodeManager⟩] := by
  by_cases same : next.executed = thread.executed
  · exact Or.inl same
  · right
    have moved : thread.Moves .advance next := advanced
    have performing := (executes_of_moves moved same).2
    cases schedule : thread.schedule with
    | nil => simp [advance, performing, schedule] at advanced
    | cons timedAction rest =>
        simp only [advance, performing, schedule, Option.some.injEq] at advanced
        subst advanced
        refine ⟨timedAction, ?_⟩
        unfold performAction Action.commands
        cases timedAction.action <;> rfl

theorem advance_keeps (advanced : thread.advance = some next) :
    next.clock = thread.clock ∧ next.nodeManager = thread.nodeManager := by
  have returned (thread : SequenceThread) (result : Except SequenceRunError Unit) :
      (thread.returnWith result).clock = thread.clock ∧
        (thread.returnWith result).nodeManager = thread.nodeManager := by
    rcases thread.returnWith_cases result with ⟨_, _, same⟩ | ⟨_, same⟩ <;> (rw [same]; exact ⟨rfl, rfl⟩)
  cases advances_of_advance advanced with
  | completed control schedule => exact returned _ _
  | aborted listening queue => exact returned _ _
  | shutDown listening queue => exact returned _ _
  | _ => exact ⟨rfl, rfl⟩

end SequenceThread

namespace SequenceRunner

def InStep (runner : SequenceRunner) : Prop :=
  ∀ thread ∈ runner.scope, thread.clock = runner.clock ∧ thread.nodeManager = runner.nodeManager

variable {runner next : SequenceRunner} {move : Move}

theorem forall_mem_modify {property : SequenceThread → Prop} {scope : List SequenceThread} {place : ℕ}
    {change : SequenceThread → SequenceThread} (all : ∀ thread ∈ scope, property thread)
    (changed : ∀ thread, property thread → property (change thread)) :
    ∀ thread ∈ scope.modify place change, property thread := by
  intro thread member
  obtain ⟨index, located⟩ := List.mem_iff_getElem?.mp member
  rw [List.getElem?_modify] at located
  obtain ⟨before, there, rfl⟩ := Option.map_eq_some_iff.mp located
  have held := all before (List.mem_of_getElem? there)
  split
  · exact changed before held
  · exact held

theorem inStep_dropHandle (inStep : InStep runner) : InStep runner.dropHandle := by
  unfold dropHandle
  split
  · exact inStep
  · exact forall_mem_modify inStep fun _ held => held

theorem inStep_send (inStep : InStep runner) (cmd : SequenceCmd) : InStep (runner.send cmd) := by
  unfold send
  split
  · exact inStep
  · refine forall_mem_modify inStep fun thread held => ?_
    unfold SequenceThread.deliver
    split <;> exact held

theorem dropHandle_keeps (runner : SequenceRunner) :
    runner.dropHandle.clock = runner.clock ∧ runner.dropHandle.nodeManager = runner.nodeManager := by
  unfold dropHandle
  split <;> exact ⟨rfl, rfl⟩

theorem inStep_proceed (inStep : InStep runner) (proceeded : runner.proceed = some next) :
    InStep next ∧ next.nodeManager = runner.nodeManager := by
  cases control : runner.control with
  | receiving => simp [proceed, control] at proceeded
  | starting seq abortSeq =>
      simp only [proceed, control, Option.some.injEq] at proceeded
      subst proceeded
      obtain ⟨clock, nodeManager⟩ := dropHandle_keeps runner
      refine ⟨List.forall_mem_append.mpr ⟨inStep_dropHandle inStep, ?_⟩, nodeManager⟩
      intro thread member
      rw [List.mem_singleton.mp member]
      exact ⟨clock.symm, nodeManager.symm⟩
  | sending cmd =>
      simp only [proceed, control, Option.some.injEq] at proceeded
      subst proceeded
      refine ⟨inStep_send inStep cmd, ?_⟩
      simp only [send]
      split <;> rfl
  | leaving =>
      simp only [proceed, control, Option.some.injEq] at proceeded
      subst proceeded
      exact ⟨inStep_dropHandle inStep, (dropHandle_keeps runner).2⟩
  | stopped => simp [proceed, control] at proceeded

theorem receive_sees (runner : SequenceRunner) (event : Event) :
    (runner.receive event).clock = runner.clock ∧ (runner.receive event).nodeManager = runner.nodeManager := by
  constructor
  · cases event <;> simp only [receive, runSequence, controlSequence] <;> split <;> rfl
  · cases event <;> simp only [receive, runSequence, controlSequence] <;> split <;> rfl

theorem inStep_next (inStep : InStep runner) (moved : runner.Steps move next)
    (sees : ∀ nodeManager, move ≠ .nodes nodeManager) : InStep next ∧ next.nodeManager = runner.nodeManager := by
  cases move with
  | receive event =>
      obtain ⟨_, rfl⟩ := Option.ite_some_none_eq_some.mp moved
      obtain ⟨clock, nodeManager⟩ := runner.receive_sees event
      refine ⟨?_, nodeManager⟩
      unfold InStep
      rw [(runner.receive_keeps event).1, clock, nodeManager]
      exact inStep
  | closed =>
      obtain ⟨_, rfl⟩ := Option.ite_some_none_eq_some.mp moved
      exact ⟨inStep, rfl⟩
  | proceed => exact inStep_proceed inStep moved
  | thread index =>
      obtain ⟨thread, after, located, advanced, rfl⟩ := thread_steps moved
      refine ⟨?_, rfl⟩
      intro other member
      rcases List.mem_or_eq_of_mem_set member with before | rfl
      · exact inStep other before
      · obtain ⟨clock, nodeManager⟩ := SequenceThread.advance_keeps advanced
        rw [clock, nodeManager]
        exact inStep thread (List.mem_of_getElem? located)
  | tick elapsed =>
      obtain rfl := Option.some.inj moved
      refine ⟨?_, rfl⟩
      intro thread member
      obtain ⟨before, there, rfl⟩ := List.mem_map.mp member
      obtain ⟨clock, nodeManager⟩ := inStep before there
      exact ⟨congrArg (· + elapsed) clock, nodeManager⟩
  | nodes nodeManager => exact absurd rfl (sees nodeManager)

theorem inStep_nodes (inStep : InStep runner) {nodeManager : NodeManager}
    (moved : runner.Steps (.nodes nodeManager) next) :
    InStep next ∧ next.nodeManager = nodeManager := by
  obtain rfl := Option.some.inj moved
  refine ⟨?_, rfl⟩
  intro thread member
  obtain ⟨before, there, rfl⟩ := List.mem_map.mp member
  exact ⟨(inStep before there).1, rfl⟩

end SequenceRunner

namespace SequencedServer

variable {config : Config} {framing : LiquidCanFraming} {liquidCan : LiquidCan} {mapping : Mapping} {clock : Instant}
  {state after : SequencedServer} {act : Act} {acts : List Act} {finish : SequencedServer}

structure Shared (state : SequencedServer) : Prop where
  inStep : state.runner.InStep
  nodes : state.runner.nodeManager = state.server.threads.manager

theorem shared_next (shared : Shared state) (stepped : Steps config framing liquidCan state act after) :
    Shared after := by
  have sees {runner : SequenceRunner} {move : SequenceRunner.Move} (moved : state.runner.Steps move runner)
      (other : ∀ nodeManager, move ≠ .nodes nodeManager) (received : ℕ) :
      Shared { state with runner, received } := by
    obtain ⟨inStep, same⟩ := SequenceRunner.inStep_next shared.inStep moved other
    exact ⟨inStep, same.trans shared.nodes⟩
  have outside {seen : CanTraffic.Act} {server : Server}
      (moved : Server.Steps config framing liquidCan state.server (.other seen) server) (sent : ℕ → ℕ) :
      Shared { state with server, sent } := by
    have same : server.threads = state.server.threads := Server.threads_next moved
    refine ⟨shared.inStep, ?_⟩
    rw [same]
    exact shared.nodes
  cases effect_of_steps stepped with
  | server _ _ seesNodes =>
      obtain ⟨inStep, same⟩ := SequenceRunner.inStep_nodes shared.inStep seesNodes
      exact ⟨inStep, same⟩
  | receive _ moved => exact sees moved (by simp) _
  | proceed moved => exact sees moved (by simp) _
  | advance _ moved => exact sees moved (by simp) _
  | dispatchCommand _ moved => exact outside moved _
  | tick moved => exact sees moved (by simp) _
  | leave _ moved => exact outside moved _

theorem shared_run (run : Transition.Run (Steps config framing liquidCan) (new config mapping clock) acts finish) :
    Shared finish := by
  refine run.invariant Shared (fun _ _ _ shared stepped => shared_next shared stepped) ⟨?_, rfl⟩
  intro thread member
  cases member

/-- The action was carried out by a step of its sequence in the run, on the nodes and at the time of then. -/
def CarriedOut (config : Config) (framing : LiquidCanFraming) (liquidCan : LiquidCan) (start : SequencedServer)
    (acts : List Act) (index : ℕ) (execution : Execution) : Prop :=
  ∃ before later middle, acts = before ++ .advance index :: later ∧
    Transition.Run (Steps config framing liquidCan) start before middle ∧
    execution.time = middle.runner.clock ∧
    execution.events = execution.timedAction.action.commands middle.server.threads.manager

theorem CarriedOut.more {start : SequencedServer} {index : ℕ} {execution : Execution}
    (carried : CarriedOut config framing liquidCan start acts index execution) (act : Act) :
    CarriedOut config framing liquidCan start (acts ++ [act]) index execution := by
  obtain ⟨before, later, middle, rfl, reached, time, events⟩ := carried
  exact ⟨before, later ++ [act], middle, by simp, reached, time, events⟩

theorem executed_of_kept {runner next : SequenceRunner} {index : ℕ} (kept : SequenceRunner.Kept runner next index)
    {thread : SequenceThread} (located : next.scope[index]? = some thread) {execution : Execution}
    (member : execution ∈ thread.executed) :
    ∃ before, runner.scope[index]? = some before ∧ execution ∈ before.executed := by
  cases kept with
  | absent _ same =>
      rw [same] at located
      cases located
  | fresh _ _ same =>
      obtain rfl := Option.some.inj (same.symm.trans located)
      cases member
  | same there same =>
      obtain rfl := Option.some.inj (same.symm.trans located)
      exact ⟨_, there, member⟩

theorem executed_next (shared : Shared state) (stepped : Steps config framing liquidCan state act after) {index : ℕ}
    {thread : SequenceThread} (located : after.runner.scope[index]? = some thread) {execution : Execution}
    (member : execution ∈ thread.executed) :
    (∃ before, state.runner.scope[index]? = some before ∧ execution ∈ before.executed) ∨
    (act = .advance index ∧ execution.time = state.runner.clock ∧
      execution.events = execution.timedAction.action.commands state.server.threads.manager) := by
  cases effect_of_steps stepped with
  | server _ _ seesNodes =>
      exact Or.inl (executed_of_kept (SequenceRunner.kept_steps seesNodes (by simp)) located member)
  | receive _ moved => exact Or.inl (executed_of_kept (SequenceRunner.kept_steps moved (by simp)) located member)
  | proceed moved => exact Or.inl (executed_of_kept (SequenceRunner.kept_steps moved (by simp)) located member)
  | @advance place runner _ moved =>
      by_cases own : place = index
      · subst own
        obtain ⟨earlier, advanced, there, step, same⟩ := SequenceRunner.thread_steps moved
        have here : runner.scope[place]? = some advanced := by
          rw [same]
          exact List.getElem?_set_self (List.getElem?_eq_some_iff.mp there).1
        obtain rfl := Option.some.inj (here.symm.trans located)
        rcases SequenceThread.executed_of_advance step with nothing | ⟨timedAction, executed⟩
        · exact Or.inl ⟨earlier, there, nothing ▸ member⟩
        · rw [executed, List.mem_append] at member
          refine member.imp (fun before => ⟨earlier, there, before⟩) fun now => ?_
          obtain ⟨clock, nodeManager⟩ := shared.inStep earlier (List.mem_of_getElem? there)
          rw [List.mem_singleton.mp now]
          refine ⟨rfl, clock, ?_⟩
          rw [nodeManager, shared.nodes]
      · have other : SequenceRunner.Move.thread place ≠ .thread index := fun same =>
          own (SequenceRunner.Move.thread.inj same)
        exact Or.inl (executed_of_kept (SequenceRunner.kept_steps moved other) located member)
  | dispatchCommand _ _ => exact Or.inl ⟨thread, located, member⟩
  | tick moved => exact Or.inl (executed_of_kept (SequenceRunner.kept_steps moved (by simp)) located member)
  | leave _ _ => exact Or.inl ⟨thread, located, member⟩

theorem carriedOut_run (run : Transition.Run (Steps config framing liquidCan) (new config mapping clock) acts finish)
    {index : ℕ} {thread : SequenceThread} (located : finish.runner.scope[index]? = some thread) {execution : Execution}
    (member : execution ∈ thread.executed) :
    CarriedOut config framing liquidCan (new config mapping clock) acts index execution := by
  have all := run.history (fun past state =>
    Transition.Run (Steps config framing liquidCan) (new config mapping clock) past state ∧
      ∀ (index : ℕ) thread, state.runner.scope[index]? = some thread → ∀ execution ∈ thread.executed,
        CarriedOut config framing liquidCan (new config mapping clock) past index execution) ?_
    ⟨Transition.Run.nil _, fun index thread located => by cases located⟩
  · exact all.2 index thread located execution member
  · rintro past start act finish ⟨reached, carried⟩ stepped
    refine ⟨reached.append (Transition.Run.cons stepped (Transition.Run.nil _)), ?_⟩
    intro index thread located execution member
    rcases executed_next (shared_run reached) stepped located member with ⟨before, there, executed⟩ | ⟨rfl, now⟩
    · exact (carried index before there execution executed).more act
    · exact ⟨past, [], start, rfl, reached, now⟩

theorem queued_of_write {destination : ℕ} {interface : String} {traffic : CanTraffic}
    (ordered : CanTraffic.InOrder config framing traffic)
    (there : config.canBusInterfaces[destination]? = some interface) {write : Write} (member : write ∈ traffic.writes)
    (here : write.destination = destination) : (write.thread, write.event) ∈ traffic.inbox .canSend := by
  have listed : (write.thread, write.event) ∈ traffic.writtenTo destination :=
    List.mem_filterMap.mpr ⟨write, member, if_pos here⟩
  have whole := ordered.written destination interface there
  have taken := (whole ▸ List.mem_append_left _ listed)
  exact List.mem_of_mem_take (List.mem_filter.mp taken).1

/-- Whatever an interface is written for a sequence, a setting of that sequence called for it: when the
sequence came to the setting, the server had the parameter registered under its name, and the value is of the
registered type. -/
theorem sequence_writes_current
    (run : Transition.Run (Steps config framing liquidCan) (new config mapping clock) acts finish) {write : Write}
    (member : write ∈ finish.server.traffic.writes) {index : ℕ} (own : write.thread = sequenceThread index) :
    ∃ thread execution paramState before later middle, finish.runner.scope[index]? = some thread ∧
      execution ∈ thread.executed ∧ execution.timedAction.action = .setParam paramState ∧
      acts = before ++ .advance index :: later ∧
      Transition.Run (Steps config framing liquidCan) (new config mapping clock) before middle ∧
      execution.time = middle.runner.clock ∧
      (middle.server.threads.manager.setValue paramState.param (.ofF64 paramState.value)).events = [write.event] ∧
      middle.server.threads.manager.WritesParameter paramState.param write.event := by
  obtain ⟨journal, tracked⟩ := tracked_of_run run
  have ordered := CanTraffic.inOrder_run tracked.traffic_run (CanTraffic.inOrder_new config framing)
  obtain ⟨interface, there, _⟩ := ordered.framed write member
  have queued : write.event ∈ finish.server.traffic.startUp.dispatching.queuedFrom (sequenceThread index)
      Worker.canSend.channel := by
    rw [← Broadcast.takenFrom_inbox]
    exact List.mem_map.mpr ⟨_, List.mem_filter.mpr ⟨queued_of_write ordered there member rfl, decide_eq_true own⟩, rfl⟩
  have commanded := Server.heard_subset tracked.traffic_run .canSend _ queued
  rw [tracked.dispatched index] at commanded
  have commanded := List.mem_of_mem_take commanded
  have inside := SequenceRunner.located_of_commands commanded
  have located := List.getElem?_eq_getElem inside
  rw [SequenceRunner.commandsOf_some located] at commanded
  obtain ⟨execution, executed, event⟩ := List.mem_flatMap.mp commanded
  obtain ⟨before, later, middle, split, reached, time, events⟩ := carriedOut_run run located executed
  rw [events] at event
  cases action : execution.timedAction.action with
  | hold mode =>
      rw [action] at event
      cases event
  | setParam paramState =>
      rw [action] at event
      have event : write.event ∈ (middle.server.threads.manager.setValue paramState.param
        (.ofF64 paramState.value)).events := event
      cases middle.server.threads.manager.setValue_decided paramState.param (.ofF64 paramState.value) with
      | accepted only _ events allowed =>
          rw [events] at event
          obtain rfl := List.mem_singleton.mp event
          exact ⟨_, execution, paramState, before, later, middle, located, executed, action, split, reached, time,
            events, allowed⟩
      | refused _ _ silent =>
          rw [silent] at event
          cases event

theorem sequence_writes_current_pump : ∃ (finish : SequencedServer) (write : Write) (paramState : ParamState)
      (middle : SequencedServer),
    Transition.Run (Steps StartUp.smallConfig pumpFraming .littleEndian)
      (new StartUp.smallConfig NodeManager.pumpMapping 0) setsTwice finish ∧
    write ∈ finish.server.traffic.writes ∧ write.thread = sequenceThread 0 ∧
    (middle.server.threads.manager.setValue paramState.param (.ofF64 paramState.value)).events = [write.event] ∧
    middle.server.threads.manager.WritesParameter paramState.param write.event := by
  have evaluated : (setsTwice.foldlM (next StartUp.smallConfig pumpFraming .littleEndian)
      (new StartUp.smallConfig NodeManager.pumpMapping 0)).any (fun state =>
        state.server.traffic.writes.any fun write => decide (write.thread = sequenceThread 0)) = true := by
    decide +kernel
  obtain ⟨finish, reached, seen⟩ := (Option.any_eq_true _ _).mp evaluated
  obtain ⟨write, member, own⟩ := List.any_eq_true.mp seen
  have run := Transition.run_iff_foldlM.mpr reached
  obtain ⟨_, _, paramState, _, _, middle, _, _, _, _, _, _, called, allowed⟩ :=
    sequence_writes_current run member (of_decide_eq_true own)
  exact ⟨finish, write, paramState, middle, run, member, of_decide_eq_true own, called, allowed⟩

end SequencedServer

end FerroFlow
