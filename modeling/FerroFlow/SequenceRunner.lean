import FerroFlow.Lib.Transition
import FerroFlow.NodeValues
import FerroFlow.SequenceBuilder

/-! The sequence thread: it executes the main schedule, and the abort schedule if the main one
was aborted. Commands reach it through one channel; its steps interleave with sends,
the clock and the other threads that work on the node manager. -/

namespace FerroFlow

def f64ApproxEq (left right epsilon : F64) : Bool :=
  decide ((if left > right then left - right else right - left) ≤ epsilon)

def HoldCondition.evaluate (condition : HoldCondition) (nodeManager : NodeManager) : Bool :=
  match nodeManager.getValue condition.field with
  | none => false
  | some actual =>
      let eps : F64 := .finite (1 / 10 ^ 6)
      match condition.comparison with
      | .equal => f64ApproxEq actual.value condition.value eps
      | .notEq => !f64ApproxEq actual.value condition.value eps
      | .less => decide (actual.value < condition.value) && !f64ApproxEq actual.value condition.value eps
      | .lessEq => decide (actual.value < condition.value) || f64ApproxEq actual.value condition.value eps
      | .greater => decide (actual.value > condition.value) && !f64ApproxEq actual.value condition.value eps
      | .greaterEq => decide (actual.value > condition.value) || f64ApproxEq actual.value condition.value eps

def HoldMode.shouldHold (mode : HoldMode) (nodeManager : NodeManager) : Bool :=
  match mode with
  | .always => true
  | .conditional conditions => conditions.all fun condition => condition.evaluate nodeManager

inductive SequenceCmd
  | pause
  | resume
  | abort
  | shutdown
deriving DecidableEq, Repr

inductive SequenceRunError
  | aborted
  | shutdown
deriving DecidableEq, Repr

inductive Phase
  | main
  | abort
deriving DecidableEq, Repr

inductive Control
  | start
  | waiting
  | receiving (deadline : Instant)
  | performing
  | paused (pausedAt : Instant)
  | held (pausedAt : Instant)
  | finished (result : Except SequenceRunError Unit)
  | panicked
deriving DecidableEq

structure Execution where
  phase : Phase
  timedAction : TimedAction
  time : Instant
  events : List Event

structure SequenceThread where
  queue : List SequenceCmd := []
  connected : Bool := true
  clock : Instant
  nodeManager : NodeManager
  phase : Phase := .main
  control : Control := .start
  schedule : List TimedAction
  abortSchedule : List TimedAction
  origin : Instant := 0
  pauseOffset : Duration := .zero
  executed : List Execution := []

namespace SequenceThread

def spawn (seq abortSeq : Sequence) (clock : Instant) (nodeManager : NodeManager) :
    SequenceThread where
  clock := clock
  nodeManager := nodeManager
  schedule := flattenAndInterpolate seq
  abortSchedule := flattenAndInterpolate abortSeq

/-- `execute_actions` returns: an aborted main schedule is followed by the abort schedule. -/
def returnWith (thread : SequenceThread) (result : Except SequenceRunError Unit) : SequenceThread :=
  match thread.phase, result with
  | .main, .error .aborted =>
      { thread with phase := .abort, control := .start, schedule := thread.abortSchedule }
  | _, _ => { thread with control := .finished result }

def deadline (thread : SequenceThread) (timedAction : TimedAction) : Result Instant := do
  let offset ← Duration.fromSecsF64 timedAction.timestamp
  let unpaused ← Instant.after thread.origin offset
  Instant.after unpaused thread.pauseOffset

def performAction (thread : SequenceThread) (timedAction : TimedAction) : SequenceThread :=
  match timedAction.action with
  | .hold mode =>
      { thread with
        executed := thread.executed ++ [⟨thread.phase, timedAction, thread.clock, []⟩]
        control :=
          if mode.shouldHold thread.nodeManager then .held thread.clock else .waiting }
  | .setParam paramState =>
      let commanded := thread.nodeManager.setValue paramState.param (.ofF64 paramState.value)
      { thread with
        executed := thread.executed ++ [⟨thread.phase, timedAction, thread.clock, commanded.events⟩]
        control := .waiting }

def waitForResume (thread : SequenceThread) (pausedAt : Instant) : Option SequenceThread :=
  match thread.queue with
  | .pause :: queue => some { thread with queue }
  | .resume :: queue => some { thread with
      queue
      pauseOffset := thread.pauseOffset.add ⟨thread.clock - pausedAt⟩
      control := .waiting }
  | .abort :: queue => some ({ thread with queue }.returnWith (.error .aborted))
  | .shutdown :: queue => some ({ thread with queue }.returnWith (.error .shutdown))
  | [] => if thread.connected then none else some (thread.returnWith (.error .shutdown))

/-- `recv_timeout` in the wait loop: it times out on an empty channel once the deadline is reached. -/
def receiveTimeout (thread : SequenceThread) (deadline : Instant) : Option SequenceThread :=
  match thread.queue with
  | .resume :: queue => some { thread with queue, control := .waiting }
  | .pause :: queue => some { thread with queue, control := .paused thread.clock }
  | .abort :: queue => some ({ thread with queue }.returnWith (.error .aborted))
  | .shutdown :: queue => some ({ thread with queue }.returnWith (.error .shutdown))
  | [] =>
      if thread.connected then
        if deadline ≤ thread.clock then some { thread with control := .performing } else none
      else some (thread.returnWith (.error .shutdown))

/-- The next step of the thread itself; `none` while it is blocked and once it is over. -/
def advance (thread : SequenceThread) : Option SequenceThread :=
  match thread.control with
  | .start => some { thread with control := .waiting, origin := thread.clock, pauseOffset := .zero }
  | .waiting =>
      match thread.schedule with
      | [] => some (thread.returnWith (.ok ()))
      | timedAction :: _ =>
          match thread.deadline timedAction with
          | .error _ => some { thread with control := .panicked }
          | .ok deadline =>
              if deadline ≤ thread.clock then some { thread with control := .performing }
              else some { thread with control := .receiving deadline }
  | .receiving deadline => thread.receiveTimeout deadline
  | .performing =>
      match thread.schedule with
      | [] => none
      | timedAction :: rest => some ({ thread with schedule := rest }.performAction timedAction)
  | .paused pausedAt => thread.waitForResume pausedAt
  | .held pausedAt => thread.waitForResume pausedAt
  | .finished _ => none
  | .panicked => none

inductive Move
  | advance
  | send (cmd : SequenceCmd)
  | disconnect
  | tick (elapsed : ℕ)
  | nodes (nodeManager : NodeManager)

def step (thread : SequenceThread) : Move → Option SequenceThread
  | .advance => thread.advance
  | .send cmd => if thread.connected then some { thread with queue := thread.queue ++ [cmd] } else none
  | .disconnect => some { thread with connected := false }
  | .tick elapsed => some { thread with clock := thread.clock + elapsed }
  | .nodes nodeManager => some { thread with nodeManager }

def Moves (thread : SequenceThread) (move : Move) (next : SequenceThread) : Prop :=
  thread.step move = some next

def executedIn (thread : SequenceThread) (phase : Phase) : List TimedAction :=
  (thread.executed.filter fun execution => execution.phase = phase).map (·.timedAction)

end SequenceThread

end FerroFlow
