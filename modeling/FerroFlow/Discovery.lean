import FerroFlow.Outgoing

/-! The discovery request, with which the start-up ends: it is handed to every interface once, and
whatever is dispatched from then on finds its listeners. -/

namespace FerroFlow

open Broadcast (started takenFrom)

def Instruction.announces (nodeIdBroadcast : UInt8) : Instruction → Option Event
  | .startNodeRegistration => some (.sendCanMessage nodeIdBroadcast .nodeInfoReq)
  | _ => none

namespace StartUp

def Act.proceeds : Act → List Instruction
  | proceed instruction => [instruction]
  | _ => []

def proceeded (acts : List Act) : List Instruction :=
  acts.flatMap Act.proceeds

structure Follows (config : Config) (past : List Act) (state : StartUp) : Prop where
  whole : state.program = [] ∨ proceeded past ++ state.program = runWithDependencies config
  done : proceeded past <+: runWithDependencies config
  subscribed : ∀ worker ∈ (proceeded past).flatMap Instruction.subscribes, worker ∈ state.subscribed
  spawned : state.spawned = (proceeded past).flatMap Instruction.spawns

section Program

variable {config : Config} {nodeIdBroadcast : UInt8} {state after : StartUp} {past acts : List Act} {act : Act}

theorem follows_new (config : Config) : Follows config [] (new config) where
  whole := Or.inr rfl
  done := List.nil_prefix
  subscribed worker member := by cases member
  spawned := rfl

theorem program_next (stepped : Steps config nodeIdBroadcast state act after) :
    (∃ instruction, act = .proceed instruction ∧ state.program = instruction :: after.program ∧
      after.spawned = state.spawned ++ instruction.spawns) ∨
    act.proceeds = [] ∧ (after.program = state.program ∨ after.program = []) ∧ after.spawned = state.spawned := by
  simp only [Steps, next, Option.ite_none_right_eq_some, Option.bind_eq_bind, Option.bind_eq_some_iff,
    Option.some.injEq] at stepped
  obtain ⟨allowed, dispatching, _, rfl⟩ := stepped
  cases act with
  | proceed instruction =>
      simp only [allows, Bool.decide_and, Bool.and_eq_true, decide_eq_true_eq] at allowed
      exact Or.inl ⟨instruction, rfl, (List.cons_head?_tail allowed.1).symm, rfl⟩
  | fail => exact Or.inr ⟨rfl, Or.inr rfl, rfl⟩
  | _ => exact Or.inr ⟨rfl, Or.inl rfl, rfl⟩

theorem spawned_next (stepped : Steps config nodeIdBroadcast state act after) : state.spawned ⊆ after.spawned := by
  rcases program_next stepped with ⟨instruction, _, _, spawned⟩ | ⟨_, _, spawned⟩
  · rw [spawned]
    exact List.subset_append_left _ _
  · rw [spawned]
    exact List.Subset.refl _

theorem follows_step (follows : Follows config past state)
    (stepped : Steps config nodeIdBroadcast state act after) : Follows config (past ++ [act]) after := by
  have grown := (step_cases stepped).2.2
  have longer : proceeded (past ++ [act]) = proceeded past ++ act.proceeds := by
    simp [proceeded, List.flatMap_append]
  rcases program_next stepped with ⟨instruction, rfl, program, spawned⟩ | ⟨silent, program, spawned⟩
  · have followed : proceeded past ++ [instruction] ++ after.program = runWithDependencies config := by
      have whole := follows.whole
      rw [program] at whole
      simpa using whole
    rw [Act.proceeds] at longer
    constructor
    · rw [longer]
      exact Or.inr followed
    · rw [longer]
      exact ⟨_, followed⟩
    · intro worker member
      rw [longer, List.flatMap_append, List.mem_append] at member
      rw [grown, List.mem_append]
      rcases member with before | now
      · exact Or.inl (follows.subscribed worker before)
      · exact Or.inr (by simpa [Act.subscribes] using now)
    · rw [longer, spawned, follows.spawned, List.flatMap_append]
      simp
  · rw [silent, List.append_nil] at longer
    constructor
    · rw [longer]
      rcases program with same | stopped
      · rw [same]
        exact follows.whole
      · exact Or.inl stopped
    · rw [longer]
      exact follows.done
    · rw [longer, grown]
      intro worker member
      exact List.mem_append_left _ (follows.subscribed worker member)
    · rw [longer, spawned]
      exact follows.spawned

theorem follows_run (run : Transition.Run (Steps config nodeIdBroadcast) (new config) acts after) :
    Follows config acts after :=
  run.history (Follows config) (fun _ _ _ _ before stepped => follows_step before stepped) (follows_new config)

theorem subscribed_of_spawned (follows : Follows config acts state) {worker : Worker} {early late : List Instruction}
    (program : runWithDependencies config = early ++ .spawn worker :: late) (first : .spawn worker ∉ early)
    (running : worker ∈ state.spawned) :
    ∀ other ∈ early.flatMap Instruction.subscribes, other ∈ state.subscribed := by
  have done : .spawn worker ∈ proceeded acts := by
    rw [follows.spawned, List.mem_flatMap] at running
    obtain ⟨instruction, member, spawns⟩ := running
    cases instruction with
    | spawn other =>
        obtain rfl := List.mem_singleton.mp spawns
        exact member
    | _ => cases spawns
  have passed : early <+: proceeded acts := by
    refine (List.prefix_or_prefix_of_prefix follows.done ⟨_, program.symm⟩).resolve_left fun short => ?_
    exact first (short.subset done)
  intro other member
  obtain ⟨instruction, planned, subscribes⟩ := List.mem_flatMap.mp member
  exact follows.subscribed other (List.mem_flatMap.mpr ⟨instruction, passed.subset planned, subscribes⟩)

theorem announced_run (run : Transition.Run (Steps config nodeIdBroadcast) state acts after) :
    started .main (acts.filterMap (Act.move? config nodeIdBroadcast)) =
      (proceeded acts).filterMap (Instruction.announces nodeIdBroadcast) := by
  induction run with
  | nil => rfl
  | @cons state act middle acts after first _ ih =>
      have split : proceeded (act :: acts) = act.proceeds ++ proceeded acts := List.flatMap_cons
      rw [split, List.filterMap_append, ← ih]
      unfold started
      rw [← List.singleton_append, List.filterMap_append, List.filterMap_append, List.append_left_inj]
      cases act with
      | proceed instruction => cases instruction <;> rfl
      | start thread event =>
          have allowed := (step_cases first).1
          cases thread with
          | main => cases allowed
          | _ => rfl
      | _ => rfl

theorem announces_of_silent {program : List Instruction} (silent : .startNodeRegistration ∉ program) :
    program.filterMap (Instruction.announces nodeIdBroadcast) = [] := by
  rw [List.filterMap_eq_nil_iff]
  intro instruction member
  cases instruction with
  | startNodeRegistration => exact absurd member silent
  | _ => rfl

def preparations (config : Config) : List Instruction :=
  spawnCanThreads config.canBusInterfaces ++ spawnSequenceRunnerThread ++
    (if config.databaseUrl = "" then [] else spawnLoggingWorker) ++ spawnCanMsgHandlerThread ++ spawnHeartbeatThread

theorem program_eq (config : Config) :
    runWithDependencies config = preparations config ++ [.startNodeRegistration] := rfl

theorem preparations_silent (config : Config) : .startNodeRegistration ∉ preparations config := by
  unfold preparations
  split <;> simp [spawnCanThreads, receivers, spawnSequenceRunnerThread, spawnLoggingWorker,
    spawnCanMsgHandlerThread, spawnHeartbeatThread]

theorem proceeded_cases (nodeIdBroadcast : UInt8) (follows : Follows config acts state) :
    (.startNodeRegistration ∉ proceeded acts ∧
      (proceeded acts).filterMap (Instruction.announces nodeIdBroadcast) = []) ∨
    (proceeded acts = runWithDependencies config ∧
      (proceeded acts).filterMap (Instruction.announces nodeIdBroadcast) =
        [.sendCanMessage nodeIdBroadcast .nodeInfoReq]) := by
  have silent := preparations_silent config
  have done := follows.done
  rw [program_eq, List.prefix_concat_iff] at done
  rcases done with all | some
  · right
    rw [all, List.filterMap_append, announces_of_silent silent]
    exact ⟨(program_eq config).symm, rfl⟩
  · left
    have still : .startNodeRegistration ∉ proceeded acts := fun member => silent (some.subset member)
    exact ⟨still, announces_of_silent still⟩

theorem proceeded_append (left right : List Act) : proceeded (left ++ right) = proceeded left ++ proceeded right :=
  List.flatMap_append

theorem planned_of_announced (follows : Follows config acts state)
    (announced : (proceeded acts).filterMap (Instruction.announces nodeIdBroadcast) ≠ []) :
    ∀ worker ∈ (runWithDependencies config).flatMap Instruction.subscribes, worker ∈ state.subscribed := by
  rcases proceeded_cases nodeIdBroadcast follows with ⟨_, silent⟩ | ⟨whole, _⟩
  · exact absurd silent announced
  · rw [← whole]
    exact follows.subscribed

theorem canSend_planned (config : Config) :
    Worker.canSend ∈ (runWithDependencies config).flatMap Instruction.subscribes := by
  rw [program_subscribes]
  simp

theorem silent_before (follows : Follows config acts state) (absent : .canSend ∉ state.subscribed) :
    (proceeded acts).filterMap (Instruction.announces nodeIdBroadcast) = [] := by
  by_contra announced
  exact absent (planned_of_announced follows announced .canSend (canSend_planned config))

theorem announces_of_subscribing {worker : Worker} (now : worker ∈ act.subscribes) :
    act.proceeds.filterMap (Instruction.announces nodeIdBroadcast) = [] := by
  cases act with
  | proceed instruction =>
      obtain rfl := Instruction.mem_subscribes_iff.mp now
      rfl
  | _ => rfl

theorem dispatched_main (run : Transition.Run (Steps config nodeIdBroadcast) state acts after) :
    dispatched config nodeIdBroadcast .canSend .main acts =
      (proceeded acts).filterMap (Instruction.announces nodeIdBroadcast) := by
  unfold dispatched
  rw [announced_run run, List.filter_eq_self]
  intro event member
  obtain ⟨instruction, _, announced⟩ := List.mem_filterMap.mp member
  cases instruction with
  | startNodeRegistration =>
      obtain rfl := Option.some.inj announced
      rfl
  | _ => cases announced

theorem account_main (run : Transition.Run (Steps config nodeIdBroadcast) (new config) acts after) :
    after.dispatching.queuedFrom .main Worker.canSend.channel <+:
      (proceeded acts).filterMap (Instruction.announces nodeIdBroadcast) ∧
    (Worker.canSend.channel ∉ after.dispatching.closed → after.account config .canSend .main =
      (proceeded acts).filterMap (Instruction.announces nodeIdBroadcast)) := by
  by_cases member : .canSend ∈ after.subscribed
  · obtain ⟨before, change, since, left, right, rfl, reached, changes, rest, notYet, subscribed⟩ :=
      run.becomes (fun state => .canSend ∈ state.subscribed) (by simp [new]) member
    have now : .canSend ∈ change.subscribes := by
      rw [(step_cases changes).2.2, List.mem_append] at subscribed
      exact subscribed.resolve_left notYet
    have all : dispatched config nodeIdBroadcast .canSend .main since =
        (proceeded (before ++ change :: since)).filterMap (Instruction.announces nodeIdBroadcast) := by
      have split : proceeded (change :: since) = change.proceeds ++ proceeded since := List.flatMap_cons
      rw [dispatched_main rest, proceeded_append, split, List.filterMap_append, List.filterMap_append,
        silent_before (follows_run reached) notYet, announces_of_subscribing now, List.nil_append, List.nil_append]
    have given := account_since (invariant_run reached (invariant_new config)) changes now rest .main
    rw [all] at given
    exact given.symm
  · have nothing := account_absent (invariant_run run (invariant_new config)) member .main
    rw [silent_before (follows_run run) member]
    exact ⟨List.prefix_nil.mpr (List.append_eq_nil_iff.mp nothing).1, fun _ => nothing⟩

end Program

end StartUp

namespace CanTraffic

variable {config : Config} {framing : LiquidCanFraming} {acts : List Act} {finish : CanTraffic}

theorem spawned_next {start : CanTraffic} {act : Act} (stepped : Steps config framing start act finish) :
    start.startUp.spawned ⊆ finish.startUp.spawned := by
  have moved := startUp_next stepped
  cases visible : act.startUp? config framing with
  | none =>
      rw [visible] at moved
      rw [moved]
      exact List.Subset.refl _
  | some seen =>
      rw [visible] at moved
      exact StartUp.spawned_next moved

def discoveryFrame (framing : LiquidCanFraming) (interface : String) : Option CanAnyFrame :=
  framing.outgoing interface (.sendCanMessage framing.nodeIdBroadcast .nodeInfoReq)

theorem mem_proceeded_iff {instruction : Instruction} :
    instruction ∈ StartUp.proceeded (acts.filterMap (Act.startUp? config framing)) ↔
      .other (.proceed instruction) ∈ acts := by
  unfold StartUp.proceeded
  rw [List.mem_flatMap]
  constructor
  · rintro ⟨seen, member, done⟩
    obtain ⟨act, performed, same⟩ := List.mem_filterMap.mp member
    cases seen with
    | proceed other =>
        obtain rfl := List.mem_singleton.mp done
        cases act with
        | other seen =>
            obtain rfl := Option.some.inj same
            exact performed
        | receive index read =>
            obtain ⟨event, _, different⟩ := Option.map_eq_some_iff.mp same
            cases different
        | leave worker => cases same
        | _ => cases same
    | _ => cases done
  · intro member
    exact ⟨.proceed instruction, List.mem_filterMap.mpr ⟨_, member, rfl⟩, List.mem_singleton.mpr rfl⟩

theorem announced_of_mem (run : Transition.Run (Steps config framing) (new config) acts finish)
    (member : .other (.proceed .startNodeRegistration) ∈ acts) :
    (StartUp.proceeded (acts.filterMap (Act.startUp? config framing))).filterMap
      (Instruction.announces framing.nodeIdBroadcast) = [.sendCanMessage framing.nodeIdBroadcast .nodeInfoReq] := by
  rcases StartUp.proceeded_cases framing.nodeIdBroadcast (StartUp.follows_run (startUp_run run)) with
    ⟨absent, _⟩ | ⟨_, announced⟩
  · exact absurd (mem_proceeded_iff.mpr member) absent
  · exact announced

theorem silent_of_absent (absent : .other (.proceed .startNodeRegistration) ∉ acts) :
    (StartUp.proceeded (acts.filterMap (Act.startUp? config framing))).filterMap
      (Instruction.announces framing.nodeIdBroadcast) = [] :=
  StartUp.announces_of_silent fun member => absent (mem_proceeded_iff.mp member)

theorem discovery_of_run (run : Transition.Run (Steps config framing) (new config) acts finish) {destination : ℕ}
    {interface : String} (there : config.canBusInterfaces[destination]? = some interface) :
    finish.framesTriedTo destination .main <+: (discoveryFrame framing interface).toList ∧
    (.other (.proceed .startNodeRegistration) ∉ acts → finish.framesTriedTo destination .main = []) ∧
    (.other (.proceed .startNodeRegistration) ∈ acts → Worker.canSend.channel ∉ finish.startUp.dispatching.closed →
      finish.framesTriedTo destination .main ++
          (takenFrom .main (finish.beingWritten destination) ++ finish.unsent config .main).filterMap
            (framing.outgoing interface) =
        (discoveryFrame framing interface).toList) := by
  have ordered := inOrder_run run (inOrder_new config framing)
  have first := ordered.first there .main
  obtain ⟨queued, account⟩ := StartUp.account_main (startUp_run run)
  have single : ([Event.sendCanMessage framing.nodeIdBroadcast .nodeInfoReq]).filterMap (framing.outgoing interface) =
      (discoveryFrame framing interface).toList := by
    rw [List.filterMap_cons, discoveryFrame]
    cases framing.outgoing interface (.sendCanMessage framing.nodeIdBroadcast .nodeInfoReq) <;> rfl
  have frames := first.trans (queued.filterMap _)
  by_cases member : .other (.proceed .startNodeRegistration) ∈ acts
  · rw [announced_of_mem run member, single] at frames
    refine ⟨frames, fun absent => absurd member absent, ?_⟩
    intro _ alive
    rw [ordered.complete there, account alive, announced_of_mem run member, single]
  · rw [silent_of_absent member, List.filterMap_nil, List.prefix_nil] at frames
    rw [frames]
    exact ⟨List.nil_prefix, fun _ => rfl, fun now => absurd now member⟩

/-- The discovery request is handed to each interface at most once, never before the start-up has come to its
end; then it has been, or is on its way. From then on the workers that the start-up subscribes are given
every event of their kinds. -/
theorem discovery_correct (run : Transition.Run (Steps config framing) (new config) acts finish) :
    (∀ (destination : ℕ) (interface : String), config.canBusInterfaces[destination]? = some interface →
      finish.framesTriedTo destination .main <+: (discoveryFrame framing interface).toList ∧
      (.other (.proceed .startNodeRegistration) ∉ acts → finish.framesTriedTo destination .main = []) ∧
      (.other (.proceed .startNodeRegistration) ∈ acts →
        Worker.canSend.channel ∉ finish.startUp.dispatching.closed →
        finish.framesTriedTo destination .main ++
            (takenFrom .main (finish.beingWritten destination) ++ finish.unsent config .main).filterMap
              (framing.outgoing interface) =
          (discoveryFrame framing interface).toList)) ∧
    ∀ before after, acts = before ++ .other (.proceed .startNodeRegistration) :: after →
      ∀ worker ∈ (runWithDependencies config).flatMap Instruction.subscribes,
        worker.channel ∉ finish.startUp.dispatching.closed → ∀ thread,
          (after.filterMap (Act.event? config framing thread)).filter
              (worker.listener config.canBusInterfaces).wants <:+ finish.startUp.account config worker thread := by
  refine ⟨fun destination interface there => discovery_of_run run there, ?_⟩
  rintro before after rfl worker planned alive thread
  rw [List.append_cons] at run
  obtain ⟨middle, reached, rest⟩ := Transition.run_append_iff.mp run
  have announced := announced_of_mem reached (List.mem_append_right _ (List.mem_singleton.mpr rfl))
  have spoken : (StartUp.proceeded _).filterMap (Instruction.announces framing.nodeIdBroadcast) ≠ [] :=
    announced.trans_ne (List.cons_ne_nil _ _)
  have member := StartUp.planned_of_announced (StartUp.follows_run (startUp_run reached)) spoken worker planned
  have invariant := StartUp.invariant_run (startUp_run reached) (StartUp.invariant_new config)
  rw [(StartUp.account_subscribed invariant (startUp_run rest) member thread).1 alive, dispatched_eq]
  exact List.suffix_append _ _

def startsUpAndDiscovers : List Act :=
  (runWithDependencies twoInterfaces).map (fun instruction => .other (.proceed instruction)) ++
    List.replicate 5 (.other (.send .main)) ++ [.other (.finish .main), .take, .write true]

theorem discovery_correct_twoInterfaces : ∃ finish,
    Transition.Run (Steps twoInterfaces plainFraming) (new twoInterfaces) startsUpAndDiscovers finish ∧
    (finish.framesTriedTo 0 .main).length = 1 ∧ finish.framesTriedTo 1 .main = [] ∧
    finish.framesTriedTo 1 .main ++ (takenFrom .main (finish.beingWritten 1) ++
      finish.unsent twoInterfaces .main).filterMap (plainFraming.outgoing "can1") =
        [.fd ⟨.standard ⟨2017, by decide⟩, true, []⟩] ∧
    [] <:+ finish.startUp.account twoInterfaces .canMsgHandler (.worker (.canRecv 0)) := by
  obtain ⟨finish, run, alive, handling, written, outstanding⟩ : ∃ finish,
      Transition.Run (Steps twoInterfaces plainFraming) (new twoInterfaces) startsUpAndDiscovers finish ∧
      Worker.canSend.channel ∉ finish.startUp.dispatching.closed ∧
      Worker.canMsgHandler.channel ∉ finish.startUp.dispatching.closed ∧
      (finish.framesTriedTo 0 .main).length = 1 ∧ finish.framesTriedTo 1 .main = [] :=
    ⟨_, Transition.run_iff_foldlM.mpr rfl, by decide, by decide, by decide, by decide⟩
  obtain ⟨frames, given⟩ := discovery_correct run
  have once := (frames 1 "can1" rfl).2.2 (by simp [startsUpAndDiscovers, runWithDependencies]) alive
  have later := given ((StartUp.preparations twoInterfaces).map fun instruction => .other (.proceed instruction))
    (List.replicate 5 (.other (.send .main)) ++ [.other (.finish .main), .take, .write true]) rfl .canMsgHandler
    (by simp [StartUp.program_subscribes]) handling (.worker (.canRecv 0))
  exact ⟨finish, run, written, outstanding, once.trans (by decide), later⟩

end CanTraffic

end FerroFlow
