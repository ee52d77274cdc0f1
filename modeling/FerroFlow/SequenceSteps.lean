import FerroFlow.SequenceRunner

/-! What one step of the sequence thread can do, and what every run of it keeps. -/

namespace FerroFlow

namespace SequenceThread

def replay (thread : SequenceThread) (moves : List Move) : Option SequenceThread :=
  moves.foldlM step thread

theorem run_iff_replay {thread final : SequenceThread} {moves : List Move} :
    Transition.Run Moves thread moves final ↔ thread.replay moves = some final :=
  Transition.run_iff_foldlM

def Listening (thread : SequenceThread) : Prop :=
  (∃ deadline, thread.control = .receiving deadline) ∨ (∃ since, thread.control = .paused since) ∨
    ∃ since, thread.control = .held since

def Continues (control : Control) : Prop :=
  control = .waiting ∨ (∃ since, control = .paused since) ∨ ∃ since, control = .held since

inductive Advances (thread : SequenceThread) : SequenceThread → Prop
  | started : thread.control = .start → Advances thread
      { thread with control := .waiting, origin := thread.clock, pauseOffset := .zero }
  | completed : thread.control = .waiting → thread.schedule = [] →
      Advances thread (thread.returnWith (.ok ()))
  | panicked {timedAction rest failure} : thread.control = .waiting →
      thread.schedule = timedAction :: rest → thread.deadline timedAction = .error failure →
      Advances thread { thread with control := .panicked }
  | due {timedAction rest deadline} : thread.control = .waiting →
      thread.schedule = timedAction :: rest → thread.deadline timedAction = .ok deadline →
      deadline ≤ thread.clock → Advances thread { thread with control := .performing }
  | early {timedAction rest deadline} : thread.control = .waiting →
      thread.schedule = timedAction :: rest → thread.deadline timedAction = .ok deadline →
      thread.clock < deadline → Advances thread { thread with control := .receiving deadline }
  | received {cmd queue control pauseOffset} : thread.Listening → thread.queue = cmd :: queue →
      cmd = .pause ∨ cmd = .resume → Continues control →
      Advances thread { thread with queue, control, pauseOffset }
  | aborted {queue} : thread.Listening → thread.queue = .abort :: queue →
      Advances thread ({ thread with queue }.returnWith (.error .aborted))
  | shutDown {queue} : thread.Listening →
      thread.queue = .shutdown :: queue ∨ thread.queue = [] ∧ queue = [] ∧ thread.connected = false →
      Advances thread ({ thread with queue }.returnWith (.error .shutdown))
  | timedOut {deadline} : thread.control = .receiving deadline → thread.queue = [] →
      thread.connected = true → deadline ≤ thread.clock →
      Advances thread { thread with control := .performing }
  | performed {timedAction rest events control} : thread.control = .performing →
      thread.schedule = timedAction :: rest → Continues control →
      Advances thread { thread with
        schedule := rest
        executed := thread.executed ++ [⟨thread.phase, timedAction, thread.clock, events⟩]
        control := control }

theorem advances_disconnected {thread : SequenceThread} (listening : thread.Listening)
    (queue : thread.queue = []) (closed : thread.connected = false) :
    Advances thread (thread.returnWith (.error .shutdown)) := by
  have same : thread = { thread with queue := [] } := by
    cases thread
    simp_all
  nth_rewrite 2 [same]
  exact .shutDown listening (Or.inr ⟨queue, rfl, closed⟩)

theorem advances_waitForResume {thread next : SequenceThread} {since : Instant}
    (listening : thread.Listening) (advanced : thread.waitForResume since = some next)
    (blocked : Continues thread.control) : Advances thread next := by
  unfold waitForResume at advanced
  cases queue : thread.queue with
  | nil =>
      simp only [queue] at advanced
      split at advanced
      · cases advanced
      · rename_i closed
        obtain rfl := Option.some.inj advanced
        exact advances_disconnected listening queue (by simpa using closed)
  | cons cmd rest =>
      cases cmd with
      | pause =>
          simp only [queue] at advanced
          obtain rfl := Option.some.inj advanced
          exact .received listening queue (Or.inl rfl) blocked
      | resume =>
          simp only [queue] at advanced
          obtain rfl := Option.some.inj advanced
          exact .received listening queue (Or.inr rfl) (Or.inl rfl)
      | abort =>
          simp only [queue] at advanced
          obtain rfl := Option.some.inj advanced
          exact .aborted listening queue
      | shutdown =>
          simp only [queue] at advanced
          obtain rfl := Option.some.inj advanced
          exact .shutDown listening (Or.inl queue)

theorem advances_receiveTimeout {thread next : SequenceThread} {deadline : Instant}
    (receiving : thread.control = .receiving deadline)
    (advanced : thread.receiveTimeout deadline = some next) : Advances thread next := by
  have listening : thread.Listening := Or.inl ⟨deadline, receiving⟩
  unfold receiveTimeout at advanced
  cases queue : thread.queue with
  | nil =>
      simp only [queue] at advanced
      split at advanced
      · rename_i connected
        split at advanced
        · rename_i reached
          obtain rfl := Option.some.inj advanced
          simpa only [queue] using Advances.timedOut receiving queue connected reached
        · cases advanced
      · rename_i closed
        obtain rfl := Option.some.inj advanced
        exact advances_disconnected listening queue (by simpa using closed)
  | cons cmd rest =>
      cases cmd with
      | pause =>
          simp only [queue] at advanced
          obtain rfl := Option.some.inj advanced
          exact .received listening queue (Or.inl rfl) (Or.inr (Or.inl ⟨_, rfl⟩))
      | resume =>
          simp only [queue] at advanced
          obtain rfl := Option.some.inj advanced
          exact .received listening queue (Or.inr rfl) (Or.inl rfl)
      | abort =>
          simp only [queue] at advanced
          obtain rfl := Option.some.inj advanced
          exact .aborted listening queue
      | shutdown =>
          simp only [queue] at advanced
          obtain rfl := Option.some.inj advanced
          exact .shutDown listening (Or.inl queue)

theorem advances_performAction {thread : SequenceThread} {timedAction : TimedAction}
    {rest : List TimedAction} (performing : thread.control = .performing)
    (schedule : thread.schedule = timedAction :: rest) :
    Advances thread ({ thread with schedule := rest }.performAction timedAction) := by
  unfold performAction
  cases timedAction.action with
  | hold mode =>
      apply Advances.performed performing schedule
      by_cases holds : mode.shouldHold thread.nodeManager = true
      · simp only [holds, ↓reduceIte]
        exact Or.inr (Or.inr ⟨_, rfl⟩)
      · simp only [holds, ↓reduceIte, Bool.false_eq_true]
        exact Or.inl rfl
  | setParam paramState => exact .performed performing schedule (Or.inl rfl)

theorem advances_of_advance {thread next : SequenceThread} (advanced : thread.advance = some next) :
    Advances thread next := by
  unfold advance at advanced
  cases control : thread.control with
  | start =>
      simp only [control] at advanced
      obtain rfl := Option.some.inj advanced
      exact .started control
  | waiting =>
      simp only [control] at advanced
      cases schedule : thread.schedule with
      | nil =>
          simp only [schedule] at advanced
          obtain rfl := Option.some.inj advanced
          exact .completed control schedule
      | cons timedAction rest =>
          simp only [schedule] at advanced
          cases computed : thread.deadline timedAction with
          | error failure =>
              simp only [computed] at advanced
              obtain rfl := Option.some.inj advanced
              simpa only [schedule] using Advances.panicked control schedule computed
          | ok deadline =>
              simp only [computed] at advanced
              split at advanced
              · rename_i reached
                obtain rfl := Option.some.inj advanced
                simpa only [schedule] using Advances.due control schedule computed reached
              · rename_i ahead
                obtain rfl := Option.some.inj advanced
                simpa only [schedule] using
                  Advances.early control schedule computed (Nat.lt_of_not_le ahead)
  | receiving deadline =>
      simp only [control] at advanced
      exact advances_receiveTimeout control advanced
  | performing =>
      simp only [control] at advanced
      cases schedule : thread.schedule with
      | nil =>
          simp only [schedule] at advanced
          cases advanced
      | cons timedAction rest =>
          simp only [schedule] at advanced
          obtain rfl := Option.some.inj advanced
          exact advances_performAction control schedule
  | paused since =>
      simp only [control] at advanced
      have listening : thread.Listening := Or.inr (Or.inl ⟨since, control⟩)
      exact advances_waitForResume listening advanced (Or.inr (Or.inl ⟨since, control⟩))
  | held since =>
      simp only [control] at advanced
      have listening : thread.Listening := Or.inr (Or.inr ⟨since, control⟩)
      exact advances_waitForResume listening advanced (Or.inr (Or.inr ⟨since, control⟩))
  | finished result =>
      simp only [control] at advanced
      cases advanced
  | panicked =>
      simp only [control] at advanced
      cases advanced

theorem returnWith_cases (thread : SequenceThread) (result : Except SequenceRunError Unit) :
    (thread.phase = .main ∧ result = .error .aborted ∧ thread.returnWith result =
        { thread with phase := .abort, control := .start, schedule := thread.abortSchedule }) ∨
      (¬ (thread.phase = .main ∧ result = .error .aborted) ∧
        thread.returnWith result = { thread with control := .finished result }) := by
  unfold returnWith
  cases phase : thread.phase with
  | abort => exact Or.inr ⟨by simp, by simp⟩
  | main =>
      cases result with
      | ok value => exact Or.inr ⟨by simp, by simp⟩
      | error reason =>
          cases reason with
          | aborted => exact Or.inl ⟨rfl, rfl, by simp⟩
          | shutdown => exact Or.inr ⟨by simp, by simp⟩

theorem returnWith_queue (thread : SequenceThread) (result : Except SequenceRunError Unit) :
    (thread.returnWith result).queue = thread.queue := by
  rcases thread.returnWith_cases result with ⟨_, _, returned⟩ | ⟨_, returned⟩ <;> rw [returned]

theorem advance_queue {thread next : SequenceThread} (advanced : thread.advance = some next) :
    next.queue = thread.queue ∨ ∃ cmd, thread.queue = cmd :: next.queue := by
  cases advances_of_advance advanced with
  | completed control schedule => exact Or.inl (returnWith_queue _ _)
  | @received cmd queue control pauseOffset listening split harmless continues =>
      exact Or.inr ⟨cmd, split⟩
  | aborted listening split =>
      right
      rw [returnWith_queue]
      exact ⟨_, split⟩
  | shutDown listening split =>
      rw [returnWith_queue]
      rcases split with queued | ⟨empty, none, closed⟩
      · exact Or.inr ⟨_, queued⟩
      · exact Or.inl (none.trans empty.symm)
  | _ => exact Or.inl rfl

theorem moves_of_ne_advance {thread next : SequenceThread} {move : Move} (other : move ≠ .advance)
    (moved : thread.Moves move next) : ∃ queue connected clock nodeManager,
      next = { thread with queue, connected, clock, nodeManager } ∧
        (queue = thread.queue ∨ ∃ cmd, move = .send cmd ∧ queue = thread.queue ++ [cmd]) := by
  unfold Moves step at moved
  cases move with
  | advance => exact (other rfl).elim
  | send cmd =>
      simp only at moved
      split at moved
      · obtain rfl := Option.some.inj moved
        exact ⟨_, _, _, _, rfl, Or.inr ⟨cmd, rfl, rfl⟩⟩
      · cases moved
  | disconnect =>
      obtain rfl := Option.some.inj moved
      exact ⟨_, _, _, _, rfl, Or.inl rfl⟩
  | tick elapsed =>
      obtain rfl := Option.some.inj moved
      exact ⟨_, _, _, _, rfl, Or.inl rfl⟩
  | nodes nodeManager =>
      obtain rfl := Option.some.inj moved
      exact ⟨_, _, _, _, rfl, Or.inl rfl⟩

theorem executedIn_of_executed_eq {thread next : SequenceThread} (same : next.executed = thread.executed)
    (phase : Phase) : next.executedIn phase = thread.executedIn phase := by
  unfold executedIn
  rw [same]

structure InOrder (mainActions abortActions : List TimedAction) (thread : SequenceThread) : Prop where
  abortSchedule : thread.abortSchedule = abortActions
  inMain : thread.phase = .main →
    thread.executedIn .main ++ thread.schedule = mainActions ∧ thread.executedIn .abort = []
  inAbort : thread.phase = .abort → (∃ rest, thread.executedIn .main ++ rest = mainActions) ∧
    thread.executedIn .abort ++ thread.schedule = abortActions

variable {mainActions abortActions : List TimedAction} {thread next : SequenceThread}

theorem InOrder.keep (inOrder : InOrder mainActions abortActions thread)
    (abortSame : next.abortSchedule = thread.abortSchedule) (phase : next.phase = thread.phase)
    (schedule : next.schedule = thread.schedule) (executed : next.executed = thread.executed) :
    InOrder mainActions abortActions next := by
  constructor
  · rw [abortSame]
    exact inOrder.abortSchedule
  · rw [phase, schedule, executedIn_of_executed_eq executed, executedIn_of_executed_eq executed]
    exact inOrder.inMain
  · rw [phase, schedule, executedIn_of_executed_eq executed, executedIn_of_executed_eq executed]
    exact inOrder.inAbort

theorem InOrder.returnWith (inOrder : InOrder mainActions abortActions thread)
    (result : Except SequenceRunError Unit) :
    InOrder mainActions abortActions (thread.returnWith result) := by
  rcases thread.returnWith_cases result with ⟨main, _, returned⟩ | ⟨_, returned⟩
  · rw [returned]
    obtain ⟨whole, none⟩ := inOrder.inMain main
    constructor
    · exact inOrder.abortSchedule
    · intro impossible
      cases impossible
    · intro _
      refine ⟨⟨thread.schedule, whole⟩, ?_⟩
      change thread.executedIn .abort ++ thread.abortSchedule = abortActions
      rw [none, inOrder.abortSchedule, List.nil_append]
  · rw [returned]
    exact inOrder.keep rfl rfl rfl rfl

theorem InOrder.perform (inOrder : InOrder mainActions abortActions thread) {timedAction : TimedAction}
    {rest : List TimedAction} (schedule : thread.schedule = timedAction :: rest) (events : List Event)
    (control : Control) : InOrder mainActions abortActions { thread with
      schedule := rest
      executed := thread.executed ++ [⟨thread.phase, timedAction, thread.clock, events⟩]
      control := control } := by
  constructor
  · exact inOrder.abortSchedule
  · intro main
    obtain ⟨whole, none⟩ := inOrder.inMain main
    simp only at main
    rw [← whole, ← none]
    simp [executedIn, main, schedule]
  · intro abort
    obtain ⟨whole, inAbort⟩ := inOrder.inAbort abort
    simp only at abort
    constructor
    · simpa [executedIn, abort] using whole
    · rw [← inAbort]
      simp [executedIn, abort, schedule]

theorem InOrder.moves (inOrder : InOrder mainActions abortActions thread) {move : Move}
    (moved : thread.Moves move next) : InOrder mainActions abortActions next := by
  by_cases own : move = .advance
  · subst own
    cases advances_of_advance moved with
    | completed control schedule => exact inOrder.returnWith _
    | @aborted queue listening split =>
        have received : InOrder mainActions abortActions { thread with queue } :=
          inOrder.keep rfl rfl rfl rfl
        exact received.returnWith _
    | @shutDown queue listening split =>
        have received : InOrder mainActions abortActions { thread with queue } :=
          inOrder.keep rfl rfl rfl rfl
        exact received.returnWith _
    | performed control schedule continues => exact inOrder.perform schedule _ _
    | _ => exact inOrder.keep rfl rfl rfl rfl
  · obtain ⟨queue, connected, clock, nodeManager, rfl, _⟩ := moves_of_ne_advance own moved
    exact inOrder.keep rfl rfl rfl rfl

theorem InOrder.run (inOrder : InOrder mainActions abortActions thread) {moves : List Move}
    (run : Transition.Run Moves thread moves next) : InOrder mainActions abortActions next := by
  apply run.invariant (InOrder mainActions abortActions)
  · intro start move finish inOrder moved
    exact inOrder.moves moved
  · exact inOrder

theorem inOrder_run {seq abortSeq : Sequence} {clock : Instant} {nodeManager : NodeManager}
    {moves : List Move}
    (run : Transition.Run Moves (spawn seq abortSeq clock nodeManager) moves thread) :
    InOrder (flattenAndInterpolate seq) (flattenAndInterpolate abortSeq) thread := by
  refine InOrder.run ?_ run
  constructor
  · rfl
  · intro _
    exact ⟨rfl, rfl⟩
  · intro impossible
    cases impossible

theorem abort_phase_moves {move : Move} (aborting : thread.phase = .abort)
    (moved : thread.Moves move next) :
    next.phase = .abort ∧ next.executedIn .main = thread.executedIn .main := by
  by_cases own : move = .advance
  · subst own
    cases advances_of_advance moved with
    | completed control schedule =>
        rcases thread.returnWith_cases (.ok ()) with ⟨main, _, _⟩ | ⟨_, returned⟩
        · rw [aborting] at main
          cases main
        · rw [returned]
          exact ⟨aborting, rfl⟩
    | @aborted queue listening split =>
        rcases returnWith_cases { thread with queue } (.error .aborted) with ⟨main, _, _⟩ | ⟨_, returned⟩
        · simp only [aborting] at main
          cases main
        · rw [returned]
          exact ⟨aborting, rfl⟩
    | @shutDown queue listening split =>
        rcases returnWith_cases { thread with queue } (.error .shutdown) with ⟨main, _, _⟩ | ⟨_, returned⟩
        · simp only [aborting] at main
          cases main
        · rw [returned]
          exact ⟨aborting, rfl⟩
    | performed control schedule continues =>
        refine ⟨aborting, ?_⟩
        simp [executedIn, aborting]
    | _ => exact ⟨aborting, rfl⟩
  · obtain ⟨queue, connected, clock, nodeManager, rfl, _⟩ := moves_of_ne_advance own moved
    exact ⟨aborting, rfl⟩

def PanicsAtDeadline (thread : SequenceThread) : Prop :=
  thread.control = .panicked → ∃ timedAction rest failure,
    thread.schedule = timedAction :: rest ∧ thread.deadline timedAction = .error failure

theorem panicsAtDeadline_of_ne (running : thread.control ≠ .panicked) : thread.PanicsAtDeadline :=
  fun panicked => (running panicked).elim

theorem Continues.not_performing {control : Control} (continues : Continues control) :
    control ≠ .performing := by
  rcases continues with rfl | ⟨since, rfl⟩ | ⟨since, rfl⟩ <;> simp

theorem Continues.not_finished {control : Control} (continues : Continues control)
    (result : Except SequenceRunError Unit) : control ≠ .finished result := by
  rcases continues with rfl | ⟨since, rfl⟩ | ⟨since, rfl⟩ <;> simp

theorem Continues.not_panicked {control : Control} (continues : Continues control) :
    control ≠ .panicked := by
  rcases continues with rfl | ⟨since, rfl⟩ | ⟨since, rfl⟩ <;> simp

theorem returnWith_not_panicked (thread : SequenceThread) (result : Except SequenceRunError Unit) :
    (thread.returnWith result).control ≠ .panicked := by
  rcases thread.returnWith_cases result with ⟨_, _, returned⟩ | ⟨_, returned⟩ <;> simp [returned]

theorem PanicsAtDeadline.moves (panics : thread.PanicsAtDeadline) {move : Move}
    (moved : thread.Moves move next) : next.PanicsAtDeadline := by
  by_cases own : move = .advance
  · subst own
    cases advances_of_advance moved with
    | completed control schedule => exact panicsAtDeadline_of_ne (returnWith_not_panicked _ _)
    | @panicked timedAction rest failure control schedule computed =>
        exact fun _ => ⟨timedAction, rest, failure, schedule, computed⟩
    | received listening queue harmless continues =>
        exact panicsAtDeadline_of_ne continues.not_panicked
    | aborted listening queue => exact panicsAtDeadline_of_ne (returnWith_not_panicked _ _)
    | shutDown listening queue => exact panicsAtDeadline_of_ne (returnWith_not_panicked _ _)
    | performed control schedule continues => exact panicsAtDeadline_of_ne continues.not_panicked
    | _ => exact panicsAtDeadline_of_ne (by simp)
  · obtain ⟨queue, connected, clock, nodeManager, rfl, _⟩ := moves_of_ne_advance own moved
    exact panics

theorem panicsAtDeadline_run {seq abortSeq : Sequence} {clock : Instant} {nodeManager : NodeManager}
    {moves : List Move}
    (run : Transition.Run Moves (spawn seq abortSeq clock nodeManager) moves thread) :
    thread.PanicsAtDeadline := by
  apply run.invariant PanicsAtDeadline
  · intro start move finish panics moved
    exact panics.moves moved
  · exact panicsAtDeadline_of_ne (by simp [spawn])

end SequenceThread

end FerroFlow
