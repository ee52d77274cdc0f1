import FerroFlow.SequenceAbort

/-! The sequence runner thread. It starts sequences and passes commands on to them; the threads it
has spawned run on between its steps. -/

namespace FerroFlow

namespace SequenceThread

def isFinished (thread : SequenceThread) : Bool :=
  match thread.control with
  | .finished _ => true
  | .panicked => true
  | _ => false

/-- A send fails, and the failure is ignored, once the receiver is gone with the thread. -/
def deliver (thread : SequenceThread) (cmd : SequenceCmd) : SequenceThread :=
  if thread.isFinished then thread else { thread with queue := thread.queue ++ [cmd] }

end SequenceThread

structure SequenceHandle where
  controllerTx : ℕ
  threadHandle : ℕ
deriving DecidableEq, Repr

/-- Where the runner thread stands in its loop. A check whether a sequence is running is made
before `starting` and `sending`, and used after them. -/
inductive LoopControl
  | receiving
  | starting (seq abortSeq : Sequence)
  | sending (cmd : SequenceCmd)
  | leaving
  | stopped
deriving DecidableEq

structure SequenceRunner where
  lastSequenceHandle : Option SequenceHandle := none
  nodeManager : NodeManager
  scope : List SequenceThread := []
  clock : Instant
  control : LoopControl := .receiving

namespace SequenceRunner

def new (nodeManager : NodeManager) (clock : Instant) : SequenceRunner :=
  { nodeManager, clock }

def isSequenceRunning (runner : SequenceRunner) : Bool :=
  match runner.lastSequenceHandle with
  | none => false
  | some handle => (runner.scope[handle.threadHandle]?).any fun thread => !thread.isFinished

def dropHandle (runner : SequenceRunner) : SequenceRunner :=
  match runner.lastSequenceHandle with
  | none => runner
  | some handle => { runner with
      lastSequenceHandle := none
      scope := runner.scope.modify handle.controllerTx fun thread => { thread with connected := false } }

def spawnSequence (runner : SequenceRunner) (seq abortSeq : Sequence) : SequenceRunner :=
  { runner.dropHandle with
    lastSequenceHandle := some ⟨runner.scope.length, runner.scope.length⟩
    scope := runner.dropHandle.scope ++ [.spawn seq abortSeq runner.clock runner.nodeManager] }

def send (runner : SequenceRunner) (cmd : SequenceCmd) : SequenceRunner :=
  match runner.lastSequenceHandle with
  | none => runner
  | some handle => { runner with
      scope := runner.scope.modify handle.controllerTx fun thread => thread.deliver cmd }

def runSequence (runner : SequenceRunner) (seq abortSeq : Sequence) : SequenceRunner :=
  if runner.isSequenceRunning then runner else { runner with control := .starting seq abortSeq }

def controlSequence (runner : SequenceRunner) (cmd : SequenceCmd) : SequenceRunner :=
  if runner.isSequenceRunning then { runner with control := .sending cmd } else runner

def receive (runner : SequenceRunner) : Event → SequenceRunner
  | .shutdown =>
      if runner.isSequenceRunning then { runner with control := .sending .shutdown }
      else { runner with control := .leaving }
  | .startSequence seq abortSeq => runner.runSequence seq abortSeq
  | .pauseSequence => runner.controlSequence .pause
  | .resumeSequence => runner.controlSequence .resume
  | .abortSequence => runner.controlSequence .abort
  | _ => runner

def proceed (runner : SequenceRunner) : Option SequenceRunner :=
  match runner.control with
  | .receiving => none
  | .starting seq abortSeq => some { runner.spawnSequence seq abortSeq with control := .receiving }
  | .sending cmd => some { runner.send cmd with
      control := if cmd = .shutdown then .leaving else .receiving }
  | .leaving => some { runner.dropHandle with control := .stopped }
  | .stopped => none

inductive Move
  | receive (event : Event)
  | closed
  | proceed
  | thread (index : ℕ)
  | tick (elapsed : ℕ)
  | nodes (nodeManager : NodeManager)

def step (runner : SequenceRunner) : Move → Option SequenceRunner
  | .receive event => if runner.control = .receiving then some (runner.receive event) else none
  | .closed => if runner.control = .receiving then some { runner with control := .leaving } else none
  | .proceed => runner.proceed
  | .thread index => (runner.scope[index]?).bind fun thread =>
      thread.advance.map fun next => { runner with scope := runner.scope.set index next }
  | .tick elapsed => some { runner with
      clock := runner.clock + elapsed
      scope := runner.scope.map fun thread => { thread with clock := thread.clock + elapsed } }
  | .nodes nodeManager => some { runner with
      nodeManager
      scope := runner.scope.map fun thread => { thread with nodeManager } }

def Steps (runner : SequenceRunner) (move : Move) (next : SequenceRunner) : Prop :=
  runner.step move = some next

end SequenceRunner

namespace SequenceThread

theorem isFinished_congr {thread next : SequenceThread} (same : next.control = thread.control) :
    next.isFinished = thread.isFinished := by
  unfold isFinished
  rw [same]

theorem deliver_control (thread : SequenceThread) (cmd : SequenceCmd) :
    (thread.deliver cmd).control = thread.control := by
  simp only [deliver]
  split <;> rfl

theorem advance_of_isFinished {thread : SequenceThread} (finished : thread.isFinished = true) :
    thread.advance = none := by
  simp only [isFinished] at finished
  cases control : thread.control <;> simp [control, advance] at finished ⊢

end SequenceThread

namespace SequenceRunner

structure SameThreads (runner next : SequenceRunner) : Prop where
  length : next.scope.length = runner.scope.length
  finished : ∀ (index : ℕ) (thread : SequenceThread), next.scope[index]? = some thread →
    ∃ before : SequenceThread, runner.scope[index]? = some before ∧ (before.isFinished = true → thread.isFinished = true)

theorem sameThreads_modify {runner next : SequenceRunner} {place : ℕ}
    {change : SequenceThread → SequenceThread} (scope : next.scope = runner.scope.modify place change)
    (same : ∀ thread, (change thread).control = thread.control) : SameThreads runner next := by
  constructor
  · rw [scope, List.length_modify]
  · intro index thread found
    rw [scope, List.getElem?_modify] at found
    obtain ⟨before, located, changed⟩ := Option.map_eq_some_iff.mp found
    refine ⟨before, located, ?_⟩
    intro finished
    rw [← changed]
    split
    · rw [SequenceThread.isFinished_congr (same before)]
      exact finished
    · exact finished

theorem sameThreads_map {runner next : SequenceRunner} {change : SequenceThread → SequenceThread}
    (scope : next.scope = runner.scope.map change)
    (same : ∀ thread, (change thread).control = thread.control) : SameThreads runner next := by
  constructor
  · rw [scope, List.length_map]
  · intro index thread found
    rw [scope, List.getElem?_map] at found
    obtain ⟨before, located, changed⟩ := Option.map_eq_some_iff.mp found
    refine ⟨before, located, ?_⟩
    intro finished
    rw [← changed, SequenceThread.isFinished_congr (same before)]
    exact finished

theorem sameThreads_refl {runner next : SequenceRunner} (scope : next.scope = runner.scope) :
    SameThreads runner next := by
  constructor
  · rw [scope]
  · intro index thread found
    rw [scope] at found
    exact ⟨thread, found, fun finished => finished⟩

theorem sameThreads_advance {runner : SequenceRunner} {place : ℕ} {thread after : SequenceThread}
    (located : runner.scope[place]? = some thread) (advanced : thread.advance = some after) :
    SameThreads runner { runner with scope := runner.scope.set place after } := by
  constructor
  · exact List.length_set
  · intro index found there
    by_cases same : place = index
    · subst same
      refine ⟨thread, located, ?_⟩
      intro finished
      rw [SequenceThread.advance_of_isFinished finished] at advanced
      cases advanced
    · refine ⟨found, ?_, fun finished => finished⟩
      rwa [List.getElem?_set_ne same] at there

theorem dropHandle_lastSequenceHandle (runner : SequenceRunner) :
    runner.dropHandle.lastSequenceHandle = none := by
  cases handle : runner.lastSequenceHandle <;> simp [dropHandle, handle]

theorem receive_keeps (runner : SequenceRunner) (event : Event) :
    (runner.receive event).scope = runner.scope ∧
      (runner.receive event).lastSequenceHandle = runner.lastSequenceHandle := by
  constructor
  · cases event <;> simp only [receive, runSequence, controlSequence] <;> split <;> rfl
  · cases event <;> simp only [receive, runSequence, controlSequence] <;> split <;> rfl

theorem sameThreads_dropHandle (runner : SequenceRunner) : SameThreads runner runner.dropHandle := by
  cases handle : runner.lastSequenceHandle with
  | none => exact sameThreads_refl (by simp [dropHandle, handle])
  | some last =>
      have scope : runner.dropHandle.scope = runner.scope.modify last.controllerTx
          fun thread => { thread with connected := false } := by
        simp only [dropHandle, handle]
      exact sameThreads_modify scope fun _ => rfl

theorem sameThreads_send (runner : SequenceRunner) (cmd : SequenceCmd) :
    SameThreads runner (runner.send cmd) := by
  cases handle : runner.lastSequenceHandle with
  | none => exact sameThreads_refl (by simp [send, handle])
  | some last =>
      have scope : (runner.send cmd).scope = runner.scope.modify last.controllerTx
          fun thread => thread.deliver cmd := by
        simp only [send, handle]
      exact sameThreads_modify scope fun thread => thread.deliver_control cmd

/-- The handle is that of the last thread, all threads before it are finished, and none is
running any more when a new one is about to be spawned. -/
structure Exclusive (runner : SequenceRunner) : Prop where
  latest : ∀ handle, runner.lastSequenceHandle = some handle →
    handle.controllerTx = handle.threadHandle ∧ handle.threadHandle + 1 = runner.scope.length
  unhandled : runner.lastSequenceHandle = none → runner.scope = [] ∨ runner.control = .stopped
  earlier : ∀ (index : ℕ) (thread : SequenceThread), runner.scope[index]? = some thread →
    index + 1 < runner.scope.length → thread.isFinished = true
  starting : ∀ seq abortSeq, runner.control = .starting seq abortSeq →
    ∀ (index : ℕ) (thread : SequenceThread), runner.scope[index]? = some thread → thread.isFinished = true

namespace Exclusive

variable {runner next : SequenceRunner}

theorem idle (exclusive : Exclusive runner) (active : runner.control ≠ .stopped)
    (idle : runner.isSequenceRunning = false) (index : ℕ) (thread : SequenceThread)
    (located : runner.scope[index]? = some thread) : thread.isFinished = true := by
  cases handle : runner.lastSequenceHandle with
  | none =>
      rcases exclusive.unhandled handle with empty | stopped
      · rw [empty] at located
        cases located
      · exact (active stopped).elim
  | some last =>
      obtain ⟨_, position⟩ := exclusive.latest last handle
      have inside : index < runner.scope.length := (List.getElem?_eq_some_iff.mp located).1
      by_cases newest : index = last.threadHandle
      · subst newest
        simpa [isSequenceRunning, handle, located] using idle
      · exact exclusive.earlier index thread located (by omega)

theorem running (exclusive : Exclusive runner) (active : runner.control ≠ .stopped) {index : ℕ}
    {thread : SequenceThread} (located : runner.scope[index]? = some thread)
    (unfinished : thread.isFinished = false) : runner.isSequenceRunning = true := by
  by_contra idle
  rw [exclusive.idle active (by simpa using idle) index thread located] at unfinished
  cases unfinished

theorem keep (exclusive : Exclusive runner) (same : SameThreads runner next)
    (handle : next.lastSequenceHandle = runner.lastSequenceHandle)
    (stays : runner.control = .stopped → next.control = .stopped)
    (starting : ∀ seq abortSeq, next.control = .starting seq abortSeq →
      ∀ (index : ℕ) (thread : SequenceThread), runner.scope[index]? = some thread →
        thread.isFinished = true) :
    Exclusive next := by
  constructor
  · intro last found
    rw [same.length]
    exact exclusive.latest last (handle.symm.trans found)
  · intro none
    rcases exclusive.unhandled (handle.symm.trans none) with empty | stopped
    · left
      apply List.eq_nil_of_length_eq_zero
      rw [same.length, empty]
      rfl
    · exact Or.inr (stays stopped)
  · intro index thread found before
    obtain ⟨former, located, kept⟩ := same.finished index thread found
    exact kept (exclusive.earlier index former located (by rwa [same.length] at before))
  · intro seq abortSeq control index thread found
    obtain ⟨former, located, kept⟩ := same.finished index thread found
    exact kept (starting seq abortSeq control index former located)

theorem moveTo (exclusive : Exclusive runner) {control : LoopControl} (active : runner.control ≠ .stopped)
    (other : ∀ seq abortSeq, control ≠ .starting seq abortSeq) :
    Exclusive { runner with control := control } :=
  exclusive.keep (sameThreads_refl rfl) rfl (fun stopped => (active stopped).elim)
    fun seq abortSeq starting => (other seq abortSeq starting).elim

theorem controlled (exclusive : Exclusive runner) (active : runner.control ≠ .stopped) (cmd : SequenceCmd) :
    Exclusive (runner.controlSequence cmd) := by
  simp only [controlSequence]
  split
  · exact exclusive.moveTo active (by simp)
  · exact exclusive

theorem received (exclusive : Exclusive runner) (active : runner.control ≠ .stopped) (event : Event) :
    Exclusive (runner.receive event) := by
  cases event with
  | shutdown =>
      simp only [receive]
      split
      · exact exclusive.moveTo active (by simp)
      · exact exclusive.moveTo active (by simp)
  | startSequence seq abortSeq =>
      simp only [receive, runSequence]
      by_cases running : runner.isSequenceRunning = true
      · rw [if_pos running]
        exact exclusive
      · rw [if_neg running]
        exact exclusive.keep (sameThreads_refl rfl) rfl (fun stopped => (active stopped).elim)
          fun _ _ _ => exclusive.idle active (by simpa using running)
  | pauseSequence => exact exclusive.controlled active .pause
  | resumeSequence => exact exclusive.controlled active .resume
  | abortSequence => exact exclusive.controlled active .abort
  | _ => exact exclusive

theorem spawned (exclusive : Exclusive runner) {seq abortSeq : Sequence}
    (control : runner.control = .starting seq abortSeq) :
    Exclusive { runner.spawnSequence seq abortSeq with control := .receiving } := by
  have same := sameThreads_dropHandle runner
  have idle := exclusive.starting seq abortSeq control
  have length : (runner.spawnSequence seq abortSeq).scope.length = runner.scope.length + 1 := by
    simp [spawnSequence, same.length]
  constructor
  · intro handle found
    have newest : (⟨runner.scope.length, runner.scope.length⟩ : SequenceHandle) = handle :=
      Option.some.inj found
    subst newest
    exact ⟨rfl, length.symm⟩
  · intro none
    cases none
  · intro index thread found before
    change index + 1 < (runner.spawnSequence seq abortSeq).scope.length at before
    rw [length] at before
    have older : index < runner.dropHandle.scope.length := by
      rw [same.length]
      omega
    change (runner.dropHandle.scope ++ [_])[index]? = some thread at found
    rw [List.getElem?_append_left older] at found
    obtain ⟨former, located, kept⟩ := same.finished index thread found
    exact kept (idle index former located)
  · intro other abortOther impossible
    cases impossible

theorem proceeded (exclusive : Exclusive runner) (proceeded : runner.proceed = some next) :
    Exclusive next := by
  cases control : runner.control with
  | receiving => simp [proceed, control] at proceeded
  | starting seq abortSeq =>
      simp only [proceed, control, Option.some.injEq] at proceeded
      subst proceeded
      exact exclusive.spawned control
  | sending cmd =>
      simp only [proceed, control, Option.some.injEq] at proceeded
      subst proceeded
      have threads := sameThreads_send runner cmd
      refine exclusive.keep ⟨threads.length, threads.finished⟩ ?_ ?_ ?_
      · simp only [send]
        split
        · rfl
        · rfl
      · intro stopped
        rw [control] at stopped
        cases stopped
      · intro seq abortSeq impossible
        simp only at impossible
        split at impossible <;> cases impossible
  | leaving =>
      simp only [proceed, control, Option.some.injEq] at proceeded
      subst proceeded
      have threads := sameThreads_dropHandle runner
      constructor
      · intro handle found
        have dropped := dropHandle_lastSequenceHandle runner
        exact (Option.some_ne_none handle (found.symm.trans dropped)).elim
      · intro _
        exact Or.inr rfl
      · intro index thread found before
        obtain ⟨former, located, kept⟩ := threads.finished index thread found
        exact kept (exclusive.earlier index former located (by rwa [threads.length] at before))
      · intro seq abortSeq impossible
        cases impossible
  | stopped => simp [proceed, control] at proceeded

theorem steps (exclusive : Exclusive runner) {move : Move} (stepped : runner.Steps move next) :
    Exclusive next := by
  cases move with
  | receive event =>
      simp only [Steps, step] at stepped
      split at stepped
      · rename_i control
        have same := Option.some.inj stepped
        subst same
        exact exclusive.received (by simp [control]) event
      · cases stepped
  | closed =>
      simp only [Steps, step] at stepped
      split at stepped
      · rename_i control
        have same := Option.some.inj stepped
        subst same
        exact exclusive.moveTo (by simp [control]) (by simp)
      · cases stepped
  | proceed => exact exclusive.proceeded stepped
  | thread index =>
      simp only [Steps, step, Option.bind_eq_some_iff, Option.map_eq_some_iff] at stepped
      obtain ⟨thread, located, after, advanced, same⟩ := stepped
      subst same
      exact exclusive.keep (sameThreads_advance located advanced) rfl id exclusive.starting
  | tick elapsed =>
      have same := Option.some.inj stepped
      subst same
      exact exclusive.keep (sameThreads_map rfl fun _ => rfl) rfl id exclusive.starting
  | nodes nodeManager =>
      have same := Option.some.inj stepped
      subst same
      exact exclusive.keep (sameThreads_map rfl fun _ => rfl) rfl id exclusive.starting

theorem run {nodeManager : NodeManager} {clock : Instant} {moves : List Move}
    (run : Transition.Run Steps (new nodeManager clock) moves runner) : Exclusive runner := by
  apply run.invariant Exclusive
  · intro start move finish exclusive stepped
    exact exclusive.steps stepped
  · constructor
    · intro handle found
      cases found
    · intro _
      exact Or.inl rfl
    · intro index thread found
      simp [new] at found
    · intro seq abortSeq impossible
      cases impossible

end Exclusive

variable {runner next : SequenceRunner} {move : Move}

def Drops (runner : SequenceRunner) (move : Move) : Prop :=
  move = .proceed ∧ ∀ cmd, runner.control ≠ .sending cmd

/-- What a step of the runner may do to a thread: nothing, a move that sends it nothing, or, to the
newest thread, the delivery of the command at hand. -/
def Affects (runner : SequenceRunner) (move : Move) (index : ℕ) (thread after : SequenceThread) : Prop :=
  after = thread ∨
    (∃ own, (∀ cmd, own ≠ .send cmd) ∧ (own = .disconnect → runner.Drops move) ∧ thread.Moves own after) ∨
    ∃ cmd, runner.control = .sending cmd ∧ move = .proceed ∧ index + 1 = runner.scope.length ∧
      after = thread.deliver cmd

theorem dropHandle_thread {index : ℕ} {after : SequenceThread} (drops : runner.Drops move)
    (found : runner.dropHandle.scope[index]? = some after) :
    ∃ thread, runner.scope[index]? = some thread ∧ Affects runner move index thread after := by
  cases handle : runner.lastSequenceHandle with
  | none =>
      simp only [dropHandle, handle] at found
      exact ⟨after, found, Or.inl rfl⟩
  | some last =>
      simp only [dropHandle, handle, List.getElem?_modify] at found
      obtain ⟨thread, located, changed⟩ := Option.map_eq_some_iff.mp found
      refine ⟨thread, located, ?_⟩
      split at changed
      · exact Or.inr (Or.inl ⟨.disconnect, by simp, fun _ => drops, congrArg some changed⟩)
      · exact Or.inl changed.symm

theorem proceeded_thread (exclusive : Exclusive runner) (proceeded : runner.proceed = some next) {index : ℕ}
    {after : SequenceThread} (found : next.scope[index]? = some after) :
    (∃ seq abortSeq clock nodeManager, after = .spawn seq abortSeq clock nodeManager) ∨
    ∃ thread, runner.scope[index]? = some thread ∧ Affects runner .proceed index thread after := by
  cases control : runner.control with
  | receiving => simp [proceed, control] at proceeded
  | starting seq abortSeq =>
      simp only [proceed, control, Option.some.injEq] at proceeded
      subst proceeded
      change (runner.dropHandle.scope ++ [_])[index]? = some after at found
      rw [List.getElem?_append] at found
      split at found
      · exact Or.inr (dropHandle_thread ⟨rfl, by simp [control]⟩ found)
      · have newest := List.mem_singleton.mp (List.mem_of_getElem? found)
        exact Or.inl ⟨_, _, _, _, newest⟩
  | sending cmd =>
      right
      simp only [proceed, control, Option.some.injEq] at proceeded
      subst proceeded
      change (runner.send cmd).scope[index]? = some after at found
      cases handle : runner.lastSequenceHandle with
      | none =>
          simp only [send, handle] at found
          exact ⟨after, found, Or.inl rfl⟩
      | some last =>
          obtain ⟨together, newest⟩ := exclusive.latest last handle
          simp only [send, handle, List.getElem?_modify] at found
          obtain ⟨thread, located, changed⟩ := Option.map_eq_some_iff.mp found
          refine ⟨thread, located, ?_⟩
          split at changed
          · rename_i position
            refine Or.inr (Or.inr ⟨cmd, control, rfl, ?_, changed.symm⟩)
            rw [← position, together]
            exact newest
          · exact Or.inl changed.symm
  | leaving =>
      right
      simp only [proceed, control, Option.some.injEq] at proceeded
      subst proceeded
      exact dropHandle_thread ⟨rfl, by simp [control]⟩ found
  | stopped => simp [proceed, control] at proceeded

theorem steps_thread (exclusive : Exclusive runner) (stepped : runner.Steps move next) {index : ℕ}
    {after : SequenceThread} (found : next.scope[index]? = some after) :
    (∃ seq abortSeq clock nodeManager, after = .spawn seq abortSeq clock nodeManager) ∨
    ∃ thread, runner.scope[index]? = some thread ∧ Affects runner move index thread after := by
  cases move with
  | receive event =>
      right
      simp only [Steps, step] at stepped
      split at stepped
      · have same := Option.some.inj stepped
        subst same
        rw [(runner.receive_keeps event).1] at found
        exact ⟨after, found, Or.inl rfl⟩
      · cases stepped
  | closed =>
      right
      simp only [Steps, step] at stepped
      split at stepped
      · have same := Option.some.inj stepped
        subst same
        exact ⟨after, found, Or.inl rfl⟩
      · cases stepped
  | proceed => exact proceeded_thread exclusive stepped found
  | thread place =>
      right
      simp only [Steps, step, Option.bind_eq_some_iff, Option.map_eq_some_iff] at stepped
      obtain ⟨thread, located, advanced, taken, same⟩ := stepped
      subst same
      by_cases here : place = index
      · subst here
        have inside := (List.getElem?_eq_some_iff.mp located).1
        rw [List.getElem?_set_self inside] at found
        have equal := Option.some.inj found
        subst equal
        exact ⟨thread, located, Or.inr (Or.inl ⟨.advance, by simp, by simp, taken⟩)⟩
      · simp only at found
        rw [List.getElem?_set_ne here] at found
        exact ⟨after, found, Or.inl rfl⟩
  | tick elapsed =>
      right
      have same := Option.some.inj stepped
      subst same
      rw [List.getElem?_map] at found
      obtain ⟨thread, located, changed⟩ := Option.map_eq_some_iff.mp found
      exact ⟨thread, located, Or.inr (Or.inl ⟨.tick elapsed, by simp, by simp, congrArg some changed⟩)⟩
  | nodes nodeManager =>
      right
      have same := Option.some.inj stepped
      subst same
      rw [List.getElem?_map] at found
      obtain ⟨thread, located, changed⟩ := Option.map_eq_some_iff.mp found
      exact ⟨thread, located, Or.inr (Or.inl ⟨.nodes nodeManager, by simp, by simp, congrArg some changed⟩)⟩

theorem moves_queue {thread after : SequenceThread} {own : SequenceThread.Move}
    (silent : ∀ cmd, own ≠ .send cmd) (moved : thread.Moves own after) : after.queue <:+ thread.queue := by
  by_cases advances : own = .advance
  · subst advances
    rcases SequenceThread.advance_queue moved with same | ⟨cmd, split⟩
    · rw [same]
    · rw [split]
      exact List.suffix_cons cmd after.queue
  · obtain ⟨queue, connected, clock, nodeManager, same, unchanged | ⟨cmd, sends, _⟩⟩ :=
      SequenceThread.moves_of_ne_advance advances moved
    · rw [same, unchanged]
    · exact (silent cmd sends).elim

theorem unfinished_at_most_one (exclusive : Exclusive runner) :
    (runner.scope.filter fun thread => !thread.isFinished).length ≤ 1 := by
  rcases List.eq_nil_or_concat runner.scope with empty | ⟨older, newest, split⟩
  · rw [empty]
    exact Nat.zero_le _
  · have done : older.filter (fun thread => !thread.isFinished) = [] := by
      rw [List.filter_eq_nil_iff]
      intro thread member
      obtain ⟨index, inside, located⟩ := List.getElem_of_mem member
      have there : runner.scope[index]? = some thread := by
        rw [split, List.concat_eq_append, List.getElem?_append_left inside]
        exact List.getElem?_eq_some_iff.mpr ⟨inside, located⟩
      have finished := exclusive.earlier index thread there (by
        rw [split, List.length_concat]
        omega)
      simp [finished]
    rw [split, List.concat_eq_append, List.filter_append, done, List.nil_append]
    exact List.length_filter_le _ _

/-- At most one sequence thread is unfinished; while one is, a start is rejected and changes
nothing; and a command reaches only the channel of the newest thread. -/
theorem one_sequence_at_a_time {nodeManager : NodeManager} {clock : Instant} {moves : List Move}
    (run : Transition.Run Steps (new nodeManager clock) moves runner) :
    (runner.scope.filter fun thread => !thread.isFinished).length ≤ 1 ∧
    (∀ seq abortSeq next, (∃ thread ∈ runner.scope, thread.isFinished = false) →
      runner.Steps (.receive (.startSequence seq abortSeq)) next → next = runner) ∧
    ∀ move next, runner.Steps move next → ∀ (index : ℕ) (after : SequenceThread),
      next.scope[index]? = some after → after.queue = [] ∨
        ∃ thread, runner.scope[index]? = some thread ∧ (after.queue <:+ thread.queue ∨
          ∃ cmd, runner.control = .sending cmd ∧ move = .proceed ∧ index + 1 = runner.scope.length ∧
            after = thread.deliver cmd) := by
  have exclusive := Exclusive.run run
  refine ⟨unfinished_at_most_one exclusive, ?_, ?_⟩
  · intro seq abortSeq next unfinished stepped
    obtain ⟨thread, member, notFinished⟩ := unfinished
    obtain ⟨index, located⟩ := List.mem_iff_getElem?.mp member
    simp only [Steps, step] at stepped
    split at stepped
    · rename_i control
      have busy := exclusive.running (by simp [control]) located notFinished
      have same := Option.some.inj stepped
      rw [← same]
      simp [receive, runSequence, busy]
    · cases stepped
  · intro move next stepped index after found
    rcases steps_thread exclusive stepped found with ⟨seq, abortSeq, clock, nodeManager, fresh⟩ |
      ⟨thread, located, same | ⟨own, silent, _, moved⟩ | delivered⟩
    · left
      rw [fresh]
      rfl
    · right
      exact ⟨thread, located, Or.inl (by rw [same])⟩
    · right
      exact ⟨thread, located, Or.inl (moves_queue silent moved)⟩
    · right
      exact ⟨thread, located, Or.inr delivered⟩

def openingRunner : SequenceRunner where
  lastSequenceHandle := some ⟨0, 0⟩
  nodeManager := .new {}
  scope := [SequenceThread.openingThread (.finite 1)]
  clock := 0

theorem openingRunner_run : Transition.Run Steps (new (.new {}) 0)
    [.receive (.startSequence (SequenceThread.openingAt (.finite 1)) (SequenceThread.openingAt (.finite 1))),
      .proceed] openingRunner :=
  .cons rfl (.cons rfl (.nil _))

theorem one_sequence_at_a_time_opening :
    openingRunner.step (.receive (.startSequence (SequenceThread.openingAt (.finite 1))
      (SequenceThread.openingAt (.finite 1)))) = some openingRunner := by
  have rejected := (one_sequence_at_a_time openingRunner_run).2.1 _ _ (openingRunner.receive
    (.startSequence (SequenceThread.openingAt (.finite 1)) (SequenceThread.openingAt (.finite 1))))
    ⟨_, List.mem_singleton_self _, rfl⟩ rfl
  exact congrArg some rejected

structure ThreadsRun (runner : SequenceRunner) : Prop where
  ran : ∀ (index : ℕ) (thread : SequenceThread), runner.scope[index]? = some thread →
    ∃ seq abortSeq clock nodeManager moves,
      Transition.Run SequenceThread.Moves (.spawn seq abortSeq clock nodeManager) moves thread
  connected : ∀ (handle : SequenceHandle) (thread : SequenceThread),
    runner.lastSequenceHandle = some handle → runner.scope[handle.controllerTx]? = some thread →
    thread.connected = true

theorem moves_connected {thread after : SequenceThread} {own : SequenceThread.Move}
    (kept : own ≠ .disconnect) (moved : thread.Moves own after) : after.connected = thread.connected := by
  cases own with
  | advance =>
      cases SequenceThread.advances_of_advance moved with
      | completed control schedule =>
          rcases thread.returnWith_cases (.ok ()) with ⟨_, _, returned⟩ | ⟨_, returned⟩ <;> rw [returned]
      | @aborted queue listening split =>
          rcases SequenceThread.returnWith_cases { thread with queue } (.error .aborted) with
            ⟨_, _, returned⟩ | ⟨_, returned⟩ <;> rw [returned]
      | @shutDown queue listening split =>
          rcases SequenceThread.returnWith_cases { thread with queue } (.error .shutdown) with
            ⟨_, _, returned⟩ | ⟨_, returned⟩ <;> rw [returned]
      | _ => rfl
  | send cmd =>
      simp only [SequenceThread.Moves, SequenceThread.step] at moved
      split at moved
      · have same := Option.some.inj moved
        rw [← same]
      · cases moved
  | disconnect => exact (kept rfl).elim
  | tick elapsed =>
      have same := Option.some.inj moved
      rw [← same]
  | nodes nodeManager =>
      have same := Option.some.inj moved
      rw [← same]

theorem deliver_moves {thread : SequenceThread} (connected : thread.connected = true) (cmd : SequenceCmd) :
    ∃ moves, Transition.Run SequenceThread.Moves thread moves (thread.deliver cmd) := by
  simp only [SequenceThread.deliver]
  split
  · exact ⟨[], Transition.Run.nil _⟩
  · have sent : thread.Moves (.send cmd) { thread with queue := thread.queue ++ [cmd] } := by
      simp [SequenceThread.Moves, SequenceThread.step, connected]
    exact ⟨[.send cmd], Transition.Run.cons sent (Transition.Run.nil _)⟩

theorem deliver_connected (thread : SequenceThread) (cmd : SequenceCmd) :
    (thread.deliver cmd).connected = thread.connected := by
  simp only [SequenceThread.deliver]
  split <;> rfl

theorem proceeded_handle (proceeded : runner.proceed = some next) :
    (runner.Drops .proceed ∧ ∀ handle, next.lastSequenceHandle = some handle →
      ∃ seq abortSeq clock nodeManager,
        next.scope[handle.controllerTx]? = some (.spawn seq abortSeq clock nodeManager)) ∨
    (¬ runner.Drops .proceed ∧ next.lastSequenceHandle = runner.lastSequenceHandle) := by
  cases control : runner.control with
  | receiving => simp [proceed, control] at proceeded
  | starting seq abortSeq =>
      left
      simp only [proceed, control, Option.some.injEq] at proceeded
      subst proceeded
      refine ⟨⟨rfl, by simp [control]⟩, ?_⟩
      intro handle found
      have newest : (⟨runner.scope.length, runner.scope.length⟩ : SequenceHandle) = handle :=
        Option.some.inj found
      subst newest
      refine ⟨seq, abortSeq, runner.clock, runner.nodeManager, ?_⟩
      change (runner.dropHandle.scope ++ [_])[runner.scope.length]? = _
      rw [← (sameThreads_dropHandle runner).length, List.getElem?_concat_length]
  | sending cmd =>
      right
      simp only [proceed, control, Option.some.injEq] at proceeded
      subst proceeded
      refine ⟨by simp [Drops, control], ?_⟩
      simp only [send]
      split <;> rfl
  | leaving =>
      left
      simp only [proceed, control, Option.some.injEq] at proceeded
      subst proceeded
      refine ⟨⟨rfl, by simp [control]⟩, ?_⟩
      intro handle found
      have dropped := dropHandle_lastSequenceHandle runner
      exact (Option.some_ne_none handle (found.symm.trans dropped)).elim
  | stopped => simp [proceed, control] at proceeded

theorem steps_handle (stepped : runner.Steps move next) :
    (runner.Drops move ∧ ∀ handle, next.lastSequenceHandle = some handle →
      ∃ seq abortSeq clock nodeManager,
        next.scope[handle.controllerTx]? = some (.spawn seq abortSeq clock nodeManager)) ∨
    (¬ runner.Drops move ∧ next.lastSequenceHandle = runner.lastSequenceHandle) := by
  cases move with
  | receive event =>
      right
      refine ⟨by simp [Drops], ?_⟩
      simp only [Steps, step] at stepped
      split at stepped
      · have same := Option.some.inj stepped
        subst same
        exact (runner.receive_keeps event).2
      · cases stepped
  | closed =>
      right
      refine ⟨by simp [Drops], ?_⟩
      simp only [Steps, step] at stepped
      split at stepped
      · have same := Option.some.inj stepped
        subst same
        rfl
      · cases stepped
  | proceed => exact proceeded_handle stepped
  | thread place =>
      right
      refine ⟨by simp [Drops], ?_⟩
      simp only [Steps, step, Option.bind_eq_some_iff, Option.map_eq_some_iff] at stepped
      obtain ⟨thread, located, advanced, taken, same⟩ := stepped
      subst same
      rfl
  | tick elapsed =>
      right
      refine ⟨by simp [Drops], ?_⟩
      have same := Option.some.inj stepped
      subst same
      rfl
  | nodes nodeManager =>
      right
      refine ⟨by simp [Drops], ?_⟩
      have same := Option.some.inj stepped
      subst same
      rfl

theorem ThreadsRun.steps (threads : ThreadsRun runner) (exclusive : Exclusive runner)
    (stepped : runner.Steps move next) : ThreadsRun next := by
  constructor
  · intro index after found
    rcases steps_thread exclusive stepped found with ⟨seq, abortSeq, clock, nodeManager, fresh⟩ |
      ⟨thread, located, affected⟩
    · exact ⟨seq, abortSeq, clock, nodeManager, [], by rw [fresh]; exact Transition.Run.nil _⟩
    · obtain ⟨seq, abortSeq, clock, nodeManager, moves, run⟩ := threads.ran index thread located
      refine ⟨seq, abortSeq, clock, nodeManager, ?_⟩
      rcases affected with same | ⟨own, _, _, moved⟩ | ⟨cmd, control, _, newest, delivered⟩
      · rw [same]
        exact ⟨moves, run⟩
      · exact ⟨moves ++ [own], run.append (Transition.Run.cons moved (Transition.Run.nil _))⟩
      · have open' : thread.connected = true := by
          cases handle : runner.lastSequenceHandle with
          | none =>
              rcases exclusive.unhandled handle with empty | stopped
              · rw [empty] at located
                cases located
              · rw [control] at stopped
                cases stopped
          | some last =>
              obtain ⟨together, position⟩ := exclusive.latest last handle
              have here : index = last.controllerTx := by omega
              exact threads.connected last thread handle (by rw [← here]; exact located)
        obtain ⟨more, sent⟩ := deliver_moves open' cmd
        rw [delivered]
        exact ⟨moves ++ more, run.append sent⟩
  · intro handle after found there
    rcases steps_handle stepped with ⟨_, fresh⟩ | ⟨kept, same⟩
    · obtain ⟨seq, abortSeq, clock, nodeManager, spawned⟩ := fresh handle found
      have equal := Option.some.inj (there.symm.trans spawned)
      rw [equal]
      rfl
    · rw [same] at found
      rcases steps_thread exclusive stepped there with ⟨seq, abortSeq, clock, nodeManager, fresh⟩ |
        ⟨thread, located, affected⟩
      · rw [fresh]
        rfl
      · have before := threads.connected handle thread found located
        rcases affected with unchanged | ⟨own, _, drops, moved⟩ | ⟨cmd, _, _, _, delivered⟩
        · rw [unchanged]
          exact before
        · rw [moves_connected (fun dropped => kept (drops dropped)) moved]
          exact before
        · rw [delivered, deliver_connected]
          exact before

/-- Each thread that the runner has spawned is in a state it can reach on its own, so what holds of
every run of a sequence thread holds of the threads of the runner. -/
theorem threads_run {nodeManager : NodeManager} {clock : Instant} {moves : List Move}
    (run : Transition.Run Steps (new nodeManager clock) moves runner) : ThreadsRun runner := by
  have both : Exclusive runner ∧ ThreadsRun runner := by
    apply run.invariant fun state => Exclusive state ∧ ThreadsRun state
    · rintro start move finish ⟨exclusive, threads⟩ stepped
      exact ⟨exclusive.steps stepped, threads.steps exclusive stepped⟩
    · refine ⟨Exclusive.run (Transition.Run.nil _), ?_, ?_⟩
      · intro index thread found
        simp [new] at found
      · intro handle thread found
        cases found
  exact both.2

end SequenceRunner

end FerroFlow
