import FerroFlow.SequenceAbort

/-! How the sequence thread keeps time: what its pauses and holds add to the deadlines, and how
far its clock has come when it executes an action. -/

namespace FerroFlow

def Control.pausedSince? : Control → Option Instant
  | .paused since => some since
  | .held since => some since
  | _ => none

namespace SequenceThread

inductive Receives (thread : SequenceThread) (queue : List SequenceCmd) :
    SequenceCmd → SequenceThread → Prop
  | paused {deadline} : thread.control = .receiving deadline →
      Receives thread queue .pause { thread with queue, control := .paused thread.clock }
  | ignored {deadline} : thread.control = .receiving deadline →
      Receives thread queue .resume { thread with queue, control := .waiting }
  | remained {since} : thread.control.pausedSince? = some since →
      Receives thread queue .pause { thread with queue }
  | resumed {since} : thread.control.pausedSince? = some since →
      Receives thread queue .resume { thread with
        queue
        pauseOffset := thread.pauseOffset.add ⟨thread.clock - since⟩
        control := .waiting }

theorem receives_of_waitForResume {thread next : SequenceThread} {cmd : SequenceCmd}
    {queue : List SequenceCmd} {since : Instant} (paused : thread.control.pausedSince? = some since)
    (split : thread.queue = cmd :: queue) (harmless : cmd = .pause ∨ cmd = .resume)
    (waited : thread.waitForResume since = some next) : Receives thread queue cmd next := by
  rcases harmless with pause | resume
  · subst pause
    simp only [waitForResume, split, Option.some.injEq] at waited
    subst waited
    exact Receives.remained paused
  · subst resume
    simp only [waitForResume, split, Option.some.injEq] at waited
    subst waited
    exact Receives.resumed paused

theorem receives_of_advance {thread next : SequenceThread} {cmd : SequenceCmd}
    {queue : List SequenceCmd} (listening : thread.Listening) (split : thread.queue = cmd :: queue)
    (harmless : cmd = .pause ∨ cmd = .resume) (advanced : thread.advance = some next) :
    Receives thread queue cmd next := by
  rcases listening with ⟨deadline, control⟩ | ⟨since, control⟩ | ⟨since, control⟩
  · rcases harmless with pause | resume
    · subst pause
      simp only [advance, control, receiveTimeout, split, Option.some.injEq] at advanced
      subst advanced
      exact Receives.paused control
    · subst resume
      simp only [advance, control, receiveTimeout, split, Option.some.injEq] at advanced
      subst advanced
      exact Receives.ignored control
  · simp only [advance, control] at advanced
    exact receives_of_waitForResume (by rw [control]; rfl) split harmless advanced
  · simp only [advance, control] at advanced
    exact receives_of_waitForResume (by rw [control]; rfl) split harmless advanced

def holdsAt (thread : SequenceThread) (timedAction : TimedAction) : Bool :=
  match timedAction.action with
  | .hold mode => mode.shouldHold thread.nodeManager
  | .setParam _ => false

theorem performs_of_advance {thread next : SequenceThread} {timedAction : TimedAction}
    {rest : List TimedAction} (performing : thread.control = .performing)
    (schedule : thread.schedule = timedAction :: rest) (advanced : thread.advance = some next) :
    ∃ events, next = { thread with
      schedule := rest
      executed := thread.executed ++ [⟨thread.phase, timedAction, thread.clock, events⟩]
      control := if thread.holdsAt timedAction then .held thread.clock else .waiting } := by
  simp only [advance, performing, schedule, Option.some.injEq] at advanced
  subst advanced
  cases timedAction with
  | mk timestamp action =>
      cases action with
      | hold mode => exact ⟨[], rfl⟩
      | setParam paramState => exact ⟨_, rfl⟩

/-- What an onlooker with a clock notes of a call of `execute_actions`: when it began, since when
it has been paused or held, and for how long it was before. -/
structure CallTimes where
  origin : Instant := 0
  pausedAt : Option Instant := none
  pausedTime : ℕ := 0

def CallTimes.watch (before : SequenceThread) (_ : Move) (after : SequenceThread) (times : CallTimes) :
    CallTimes :=
  if before.control = .start then { origin := after.clock }
  else
    match times.pausedAt, after.control.pausedSince? with
    | none, some _ => { times with pausedAt := some after.clock }
    | some began, none => { times with
        pausedAt := none
        pausedTime := times.pausedTime + (after.clock - began) }
    | _, _ => times

namespace CallTimes

variable {before after : SequenceThread} {move : Move} {times : CallTimes}

theorem watch_start (starting : before.control = .start) :
    times.watch before move after = { origin := after.clock } := by
  simp [watch, starting]

theorem watch_unpaused (started : before.control ≠ .start) (running : times.pausedAt = none)
    (unpaused : after.control.pausedSince? = none) : times.watch before move after = times := by
  simp [watch, started, running, unpaused]

theorem watch_paused (started : before.control ≠ .start) {began since : Instant}
    (paused : times.pausedAt = some began) (still : after.control.pausedSince? = some since) :
    times.watch before move after = times := by
  simp [watch, started, paused, still]

theorem watch_enter (started : before.control ≠ .start) (running : times.pausedAt = none)
    {since : Instant} (entered : after.control.pausedSince? = some since) :
    times.watch before move after = { times with pausedAt := some after.clock } := by
  simp [watch, started, running, entered]

theorem watch_leave (started : before.control ≠ .start) {began : Instant}
    (paused : times.pausedAt = some began) (left : after.control.pausedSince? = none) :
    times.watch before move after = { times with
      pausedAt := none
      pausedTime := times.pausedTime + (after.clock - began) } := by
  simp [watch, started, paused, left]

theorem watch_origin (started : before.control ≠ .start) :
    (times.watch before move after).origin = times.origin := by
  simp only [watch, started, ↓reduceIte]
  split <;> rfl

theorem watch_pausedAt (started : before.control ≠ .start) (left : after.control.pausedSince? = none) :
    (times.watch before move after).pausedAt = none := by
  cases paused : times.pausedAt with
  | none => rw [watch_unpaused started paused left, paused]
  | some began => rw [watch_leave started paused left]

end CallTimes

theorem clock_mono {thread next : SequenceThread} {move : Move} (moved : thread.Moves move next) :
    thread.clock ≤ next.clock := by
  cases move with
  | advance =>
      cases advances_of_advance moved with
      | completed control schedule =>
          rcases thread.returnWith_cases (.ok ()) with ⟨_, _, returned⟩ | ⟨_, returned⟩ <;> simp [returned]
      | @aborted queue listening split =>
          rcases returnWith_cases { thread with queue } (.error .aborted) with
            ⟨_, _, returned⟩ | ⟨_, returned⟩ <;> simp [returned]
      | @shutDown queue listening split =>
          rcases returnWith_cases { thread with queue } (.error .shutdown) with
            ⟨_, _, returned⟩ | ⟨_, returned⟩ <;> simp [returned]
      | _ => exact Nat.le_refl _
  | send cmd =>
      simp only [Moves, step] at moved
      split at moved
      · have same := Option.some.inj moved
        subst same
        exact Nat.le_refl _
      · cases moved
  | disconnect =>
      have same := Option.some.inj moved
      subst same
      exact Nat.le_refl _
  | tick elapsed =>
      have same := Option.some.inj moved
      subst same
      exact Nat.le_add_right _ _
  | nodes nodeManager =>
      have same := Option.some.inj moved
      subst same
      exact Nat.le_refl _

structure InTime (thread : SequenceThread) (times : CallTimes) : Prop where
  origin : thread.control ≠ .start → times.origin = thread.origin
  pausedAt : thread.control ≠ .start → times.pausedAt = thread.control.pausedSince?
  pausedTime : thread.control ≠ .start → (∀ result, thread.control ≠ .finished result) →
    times.pausedTime = thread.pauseOffset.nanos
  receiving : ∀ deadline, thread.control = .receiving deadline → ∃ timedAction rest,
    thread.schedule = timedAction :: rest ∧ thread.deadline timedAction = .ok deadline
  performing : thread.control = .performing → ∃ timedAction rest deadline,
    thread.schedule = timedAction :: rest ∧ thread.deadline timedAction = .ok deadline ∧
      deadline ≤ thread.clock

theorem inTime_start {thread : SequenceThread} (starting : thread.control = .start) (times : CallTimes) :
    InTime thread times := by
  constructor
  · intro started
    exact (started starting).elim
  · intro started
    exact (started starting).elim
  · intro started
    exact (started starting).elim
  · intro deadline receiving
    rw [starting] at receiving
    cases receiving
  · intro performing
    rw [starting] at performing
    cases performing

namespace InTime

variable {thread next : SequenceThread} {times : CallTimes}

theorem returned (inTime : InTime thread times) (started : thread.control ≠ .start)
    (queue : List SequenceCmd) (result : Except SequenceRunError Unit) :
    InTime ({ thread with queue }.returnWith result)
      (times.watch thread .advance ({ thread with queue }.returnWith result)) := by
  rcases returnWith_cases { thread with queue } result with ⟨_, _, returned⟩ | ⟨_, returned⟩
  · rw [returned]
    exact inTime_start rfl _
  · rw [returned]
    constructor
    · intro _
      rw [CallTimes.watch_origin started]
      exact inTime.origin started
    · intro _
      exact CallTimes.watch_pausedAt started rfl
    · intro _ running
      exact (running result rfl).elim
    · intro deadline impossible
      cases impossible
    · intro impossible
      cases impossible

theorem ran (inTime : InTime thread times) (started : thread.control ≠ .start)
    (running : ∀ result, thread.control ≠ .finished result)
    (before : thread.control.pausedSince? = none) (after : next.control.pausedSince? = none)
    (origin : next.origin = thread.origin) (pauseOffset : next.pauseOffset = thread.pauseOffset)
    (receiving : ∀ deadline, next.control = .receiving deadline → ∃ timedAction rest,
      next.schedule = timedAction :: rest ∧ next.deadline timedAction = .ok deadline)
    (performing : next.control = .performing → ∃ timedAction rest deadline,
      next.schedule = timedAction :: rest ∧ next.deadline timedAction = .ok deadline ∧
        deadline ≤ next.clock) :
    InTime next (times.watch thread .advance next) := by
  have unpaused : times.pausedAt = none := by rw [inTime.pausedAt started, before]
  rw [CallTimes.watch_unpaused started unpaused after]
  constructor
  · intro _
    rw [origin, inTime.origin started]
  · intro _
    rw [unpaused, after]
  · intro _ _
    rw [pauseOffset, inTime.pausedTime started running]
  · exact receiving
  · exact performing

theorem entered (inTime : InTime thread times) (started : thread.control ≠ .start)
    (running : ∀ result, thread.control ≠ .finished result)
    (before : thread.control.pausedSince? = none) (after : next.control.pausedSince? = some next.clock)
    (origin : next.origin = thread.origin) (pauseOffset : next.pauseOffset = thread.pauseOffset) :
    InTime next (times.watch thread .advance next) := by
  have unpaused : times.pausedAt = none := by rw [inTime.pausedAt started, before]
  rw [CallTimes.watch_enter started unpaused after]
  constructor
  · intro _
    rw [origin]
    exact inTime.origin started
  · intro _
    exact after.symm
  · intro _ _
    rw [pauseOffset]
    exact inTime.pausedTime started running
  · intro deadline receiving
    rw [receiving] at after
    cases after
  · intro performing
    rw [performing] at after
    cases after

theorem resumed (inTime : InTime thread times) {since : Instant}
    (paused : thread.control.pausedSince? = some since) (queue : List SequenceCmd) :
    let next := { thread with
      queue
      pauseOffset := thread.pauseOffset.add ⟨thread.clock - since⟩
      control := .waiting }
    InTime next (times.watch thread .advance next) := by
  have started : thread.control ≠ .start := by
    intro starting
    rw [starting] at paused
    cases paused
  have running : ∀ result, thread.control ≠ .finished result := by
    intro result finished
    rw [finished] at paused
    cases paused
  have began : times.pausedAt = some since := by rw [inTime.pausedAt started, paused]
  intro next
  rw [CallTimes.watch_leave started began rfl]
  constructor
  · intro _
    exact inTime.origin started
  · intro _
    rfl
  · intro _ _
    change times.pausedTime + (thread.clock - since) = thread.pauseOffset.nanos + (thread.clock - since)
    rw [inTime.pausedTime started running]
  · intro deadline impossible
    cases impossible
  · intro impossible
    cases impossible

theorem listening_started (listening : thread.Listening) : thread.control ≠ .start := by
  rcases listening with ⟨deadline, control⟩ | ⟨since, control⟩ | ⟨since, control⟩ <;> simp [control]

theorem remained (inTime : InTime thread times) {since : Instant}
    (paused : thread.control.pausedSince? = some since) (queue : List SequenceCmd) :
    InTime { thread with queue } (times.watch thread .advance { thread with queue }) := by
  have started : thread.control ≠ .start := by
    intro starting
    rw [starting] at paused
    cases paused
  have began : times.pausedAt = some since := by rw [inTime.pausedAt started, paused]
  have still : ({ thread with queue } : SequenceThread).control.pausedSince? = some since := paused
  rw [CallTimes.watch_paused started began still]
  exact ⟨inTime.origin, inTime.pausedAt, inTime.pausedTime, inTime.receiving, inTime.performing⟩

theorem received (inTime : InTime thread times) {cmd : SequenceCmd} {queue : List SequenceCmd}
    (receives : Receives thread queue cmd next) : InTime next (times.watch thread .advance next) := by
  cases receives with
  | paused control => exact inTime.entered (by simp [control]) (by simp [control]) (by rw [control]; rfl) rfl rfl rfl
  | ignored control =>
      exact inTime.ran (by simp [control]) (by simp [control]) (by rw [control]; rfl) rfl rfl rfl
        (by simp) (by simp)
  | remained paused => exact inTime.remained paused queue
  | resumed paused => exact inTime.resumed paused queue

theorem advances (inTime : InTime thread times) (advanced : thread.advance = some next) :
    InTime next (times.watch thread .advance next) := by
  cases advances_of_advance advanced with
  | started control =>
      rw [CallTimes.watch_start control]
      constructor
      · intro _
        rfl
      · intro _
        rfl
      · intro _ _
        rfl
      · intro deadline impossible
        cases impossible
      · intro impossible
        cases impossible
  | completed control schedule => exact inTime.returned (by simp [control]) thread.queue _
  | panicked control schedule computed =>
      exact inTime.ran (by simp [control]) (by simp [control]) (by rw [control]; rfl) rfl rfl rfl
        (by simp) (by simp)
  | @due timedAction rest deadline control schedule computed reached =>
      exact inTime.ran (by simp [control]) (by simp [control]) (by rw [control]; rfl) rfl rfl rfl
        (by simp) (fun _ => ⟨timedAction, rest, deadline, schedule, computed, reached⟩)
  | @early timedAction rest deadline control schedule computed ahead =>
      refine inTime.ran (by simp [control]) (by simp [control]) (by rw [control]; rfl) rfl rfl rfl
        ?_ (by simp)
      intro other receiving
      have same := Control.receiving.inj receiving
      subst same
      exact ⟨timedAction, rest, schedule, computed⟩
  | @received cmd queue control pauseOffset listening split harmless continues =>
      exact inTime.received (receives_of_advance listening split harmless advanced)
  | aborted listening split => exact inTime.returned (listening_started listening) _ _
  | shutDown listening split => exact inTime.returned (listening_started listening) _ _
  | @timedOut deadline control empty connected reached =>
      obtain ⟨timedAction, rest, schedule, computed⟩ := inTime.receiving deadline control
      exact inTime.ran (by simp [control]) (by simp [control]) (by rw [control]; rfl) rfl rfl rfl
        (by simp) (fun _ => ⟨timedAction, rest, deadline, schedule, computed, reached⟩)
  | @performed timedAction rest events after control schedule continues =>
      obtain ⟨dispatched, same⟩ := performs_of_advance control schedule advanced
      have placed : after = if thread.holdsAt timedAction then .held thread.clock else .waiting :=
        congrArg SequenceThread.control same
      by_cases holds : thread.holdsAt timedAction = true
      · rw [if_pos holds] at placed
        subst placed
        exact inTime.entered (by simp [control]) (by simp [control]) (by rw [control]; rfl) rfl rfl rfl
      · rw [if_neg holds] at placed
        subst placed
        exact inTime.ran (by simp [control]) (by simp [control]) (by rw [control]; rfl) rfl rfl rfl
          (by simp) (by simp)

theorem moves (inTime : InTime thread times) {move : Move} (moved : thread.Moves move next) :
    InTime next (times.watch thread move next) := by
  by_cases own : move = .advance
  · subst own
    exact inTime.advances moved
  · obtain ⟨queue, connected, clock, nodeManager, same, _⟩ := moves_of_ne_advance own moved
    by_cases starting : thread.control = .start
    · have still : next.control = .start := by
        rw [same]
        exact starting
      exact inTime_start still _
    · have later : thread.clock ≤ next.clock := clock_mono moved
      have unchanged : times.watch thread move next = times := by
        have still : next.control.pausedSince? = times.pausedAt := by
          rw [same, inTime.pausedAt starting]
        cases paused : times.pausedAt with
        | none => exact CallTimes.watch_unpaused starting paused (still.trans paused)
        | some began => exact CallTimes.watch_paused starting paused (still.trans paused)
      rw [unchanged]
      subst same
      refine ⟨inTime.origin, inTime.pausedAt, inTime.pausedTime, inTime.receiving, ?_⟩
      intro performing
      obtain ⟨timedAction, rest, deadline, schedule, computed, reached⟩ := inTime.performing performing
      exact ⟨timedAction, rest, deadline, schedule, computed, reached.trans later⟩

theorem run {call : SequenceThread} {labels : List Move} (starting : call.control = .start)
    (watched : Transition.Run (Transition.Watched CallTimes.watch Moves) (call, {}) labels
      (thread, times)) : InTime thread times := by
  apply watched.invariant fun state => InTime state.1 state.2
  · intro start move finish inTime moved
    rw [moved.2]
    exact inTime.moves moved.1
  · exact inTime_start starting _

end InTime

structure Performing (call thread : SequenceThread) : Prop where
  phase : thread.phase = call.phase ∨ thread.phase = .abort
  performed : ∃ performed rest, thread.executedIn call.phase = call.executedIn call.phase ++ performed ∧
    performed ++ rest = call.schedule ∧ (thread.phase = call.phase → rest = thread.schedule)
  finished : thread.control = .finished (.ok ()) → thread.schedule = []

namespace Performing

variable {call thread next : SequenceThread}

theorem keep (performing : Performing call thread) (phase : next.phase = thread.phase)
    (schedule : next.schedule = thread.schedule) (executed : next.executed = thread.executed)
    (finished : next.control = .finished (.ok ()) → thread.schedule = []) : Performing call next := by
  constructor
  · rw [phase]
    exact performing.phase
  · rw [executedIn_of_executed_eq executed, phase, schedule]
    exact performing.performed
  · rw [schedule]
    exact finished

theorem returned (performing : Performing call thread) (queue : List SequenceCmd)
    {result : Except SequenceRunError Unit} (complete : result = .ok () → thread.schedule = []) :
    Performing call ({ thread with queue }.returnWith result) := by
  rcases returnWith_cases { thread with queue } result with ⟨main, _, returned⟩ | ⟨_, returned⟩
  · rw [returned]
    obtain ⟨performed, rest, executed, whole, _⟩ := performing.performed
    refine ⟨Or.inr rfl, ⟨performed, rest, executed, whole, ?_⟩, ?_⟩
    · intro ended
      have inMain : call.phase = .main := by
        rcases performing.phase with same | aborting
        · exact same.symm.trans main
        · exact absurd (main.symm.trans aborting) (by simp)
      rw [inMain] at ended
      cases ended
    · intro impossible
      cases impossible
  · rw [returned]
    refine performing.keep rfl rfl rfl ?_
    intro finished
    exact complete (Control.finished.inj finished)

theorem acted (performing : Performing call thread) {timedAction : TimedAction} {rest : List TimedAction}
    (schedule : thread.schedule = timedAction :: rest) (events : List Event) {control : Control}
    (continues : Continues control) : Performing call { thread with
      schedule := rest
      executed := thread.executed ++ [⟨thread.phase, timedAction, thread.clock, events⟩]
      control := control } := by
  obtain ⟨performed, remaining, executed, whole, current⟩ := performing.performed
  refine ⟨performing.phase, ?_, fun finished => (continues.not_finished _ finished).elim⟩
  by_cases same : thread.phase = call.phase
  · refine ⟨performed ++ [timedAction], rest, ?_, ?_, fun _ => rfl⟩
    · rw [← List.append_assoc, ← executed]
      simp [executedIn, same]
    · rw [List.append_assoc, List.singleton_append, ← schedule, ← current same]
      exact whole
  · refine ⟨performed, remaining, ?_, whole, fun equal => (same equal).elim⟩
    rw [← executed]
    simp [executedIn, same]

theorem moves (performing : Performing call thread) {move : Move} (moved : thread.Moves move next) :
    Performing call next := by
  by_cases own : move = .advance
  · subst own
    cases advances_of_advance moved with
    | completed control schedule => exact performing.returned thread.queue fun _ => schedule
    | aborted listening split => exact performing.returned _ (by simp)
    | shutDown listening split => exact performing.returned _ (by simp)
    | received listening split harmless continues =>
        exact performing.keep rfl rfl rfl fun finished => (continues.not_finished _ finished).elim
    | performed control schedule continues => exact performing.acted schedule _ continues
    | _ => exact performing.keep rfl rfl rfl (by simp)
  · obtain ⟨queue, connected, clock, nodeManager, same, _⟩ := moves_of_ne_advance own moved
    subst same
    exact performing.keep rfl rfl rfl performing.finished

theorem run {moves : List Move} (starting : call.control = .start)
    (run : Transition.Run Moves call moves thread) : Performing call thread := by
  apply run.invariant (Performing call)
  · intro start move finish performing moved
    exact performing.moves moved
  · refine ⟨Or.inl rfl, ⟨[], call.schedule, by simp, rfl, fun _ => rfl⟩, ?_⟩
    intro finished
    rw [starting] at finished
    cases finished

end Performing

theorem deadline_ok {thread : SequenceThread} {timedAction : TimedAction} {deadline : Instant}
    (computed : thread.deadline timedAction = .ok deadline) :
    ∃ offset, Duration.fromSecsF64 timedAction.timestamp = .ok offset ∧
      deadline = thread.origin + offset.nanos + thread.pauseOffset.nanos := by
  obtain ⟨offset, converted, added⟩ := Checks.bind_ok_iff.mp computed
  obtain ⟨unpaused, first, second⟩ := Checks.bind_ok_iff.mp added
  have sum {instant sum : Instant} {duration : Duration}
      (fits : instant.after duration = .ok sum) : sum = instant + duration.nanos := by
    simp only [Instant.after] at fits
    split at fits
    · exact (Except.ok.inj fits).symm
    · cases fits
  refine ⟨offset, converted, ?_⟩
  rw [sum second, sum first]

theorem executes_of_moves {thread next : SequenceThread} {move : Move} (moved : thread.Moves move next)
    (executes : next.executed ≠ thread.executed) : move = .advance ∧ thread.control = .performing := by
  by_cases own : move = .advance
  · subst own
    refine ⟨rfl, ?_⟩
    cases advances_of_advance moved with
    | performed control schedule continues => exact control
    | completed control schedule =>
        rcases thread.returnWith_cases (.ok ()) with ⟨_, _, returned⟩ | ⟨_, returned⟩ <;>
          exact (executes (by rw [returned])).elim
    | @aborted queue listening split =>
        rcases returnWith_cases { thread with queue } (.error .aborted) with
          ⟨_, _, returned⟩ | ⟨_, returned⟩ <;> exact (executes (by rw [returned])).elim
    | @shutDown queue listening split =>
        rcases returnWith_cases { thread with queue } (.error .shutdown) with
          ⟨_, _, returned⟩ | ⟨_, returned⟩ <;> exact (executes (by rw [returned])).elim
    | _ => exact (executes rfl).elim
  · obtain ⟨queue, connected, clock, nodeManager, same, _⟩ := moves_of_ne_advance own moved
    subst same
    exact (executes rfl).elim

/-- What a call of `execute_actions` performs, and when: the actions of its schedule in order, none
while it is paused or held, none before its time by more than the rounding to nanoseconds, and all
of them if it returns `Ok`. -/
theorem execute_actions_paced {call thread : SequenceThread} {moves : List Move} {times : CallTimes}
    (starting : call.control = .start)
    (watched : Transition.Run (Transition.Watched CallTimes.watch Moves) (call, {}) moves
      (thread, times)) :
    (∃ performed rest, thread.executedIn call.phase = call.executedIn call.phase ++ performed ∧
      performed ++ rest = call.schedule ∧
      (thread.phase = call.phase → thread.control = .finished (.ok ()) → performed = call.schedule)) ∧
    ∀ move next, thread.Moves move next → next.executed ≠ thread.executed →
      thread.control.pausedSince? = none ∧ times.pausedAt = none ∧
      ∃ timedAction rest events, thread.schedule = timedAction :: rest ∧
        next.executed = thread.executed ++ [⟨thread.phase, timedAction, thread.clock, events⟩] ∧
        ∃ secs offset, timedAction.timestamp = .finite secs ∧
          Duration.fromSecsF64 (.finite secs) = .ok offset ∧
          |(offset.nanos : ℚ) - secs * 10 ^ 9| ≤ 1 / 2 ∧
          times.origin + offset.nanos + times.pausedTime ≤ thread.clock := by
  constructor
  · have performing := Performing.run starting watched.unwatched
    obtain ⟨performed, rest, executed, whole, current⟩ := performing.performed
    refine ⟨performed, rest, executed, whole, ?_⟩
    intro same finished
    rw [← whole, current same, performing.finished finished, List.append_nil]
  · intro move next moved executes
    have inTime := InTime.run starting watched
    obtain ⟨own, control⟩ := executes_of_moves moved executes
    subst own
    have started : thread.control ≠ .start := by simp [control]
    have unpaused : thread.control.pausedSince? = none := by
      rw [control]
      rfl
    obtain ⟨timedAction, rest, deadline, schedule, computed, reached⟩ := inTime.performing control
    obtain ⟨events, same⟩ := performs_of_advance control schedule moved
    obtain ⟨offset, converted, sum⟩ := deadline_ok computed
    obtain ⟨secs, finite, near⟩ := Duration.fromSecsF64_near converted
    refine ⟨unpaused, (inTime.pausedAt started).trans unpaused, timedAction, rest, events, schedule,
      ?_, secs, offset, finite, ?_, near, ?_⟩
    · rw [same]
    · rw [← finite]
      exact converted
    · rw [inTime.origin started, inTime.pausedTime started (by simp [control]), ← sum]
      exact reached

def holdingSequence : Sequence where
  name := "holding"
  globals := { startTime := .finite 0, endTime := .finite 10, interpolationInterval := ⟨10 ^ 9⟩ }
  steps := [
    { name := "wait", timestamp := .finite 0, actions := [⟨.finite 0, .hold .always⟩] },
    { name := "open"
      timestamp := .finite 1
      actions := [⟨.finite 1, .setParam { param := "valve", value := .finite 1 }⟩] }]

def holdingThread : SequenceThread :=
  spawn holdingSequence holdingSequence 0 (.new {})

def holdingMoves : List Move := [.advance, .advance, .advance, .tick (5 * 10 ^ 9), .send .resume,
  .advance, .advance, .tick (10 ^ 9), .advance]

theorem execute_actions_paced_holding : ∃ thread times,
    Transition.Run (Transition.Watched CallTimes.watch Moves) (holdingThread, {}) holdingMoves
      (thread, times) ∧
    (thread.executedIn .main).length = 1 ∧ times.pausedTime = 5 * 10 ^ 9 ∧
    ∃ offset, Duration.fromSecsF64 (.finite 1) = .ok offset ∧
      times.origin + offset.nanos + times.pausedTime ≤ thread.clock := by
  have computed : (holdingThread.replay holdingMoves).map (fun thread => (thread.control,
      thread.pauseOffset.nanos, thread.schedule.map (·.timestamp), (thread.executedIn .main).length)) =
      some (.performing, 5 * 10 ^ 9, [.finite 1], 1) := by decide +kernel
  obtain ⟨thread, reached, outcome⟩ := Option.map_eq_some_iff.mp computed
  simp only [Prod.mk.injEq] at outcome
  obtain ⟨control, pauseOffset, timestamps, executed⟩ := outcome
  obtain ⟨times, watched⟩ := (run_iff_replay.mpr reached).watched CallTimes.watch {}
  obtain ⟨timedAction, rest, schedule⟩ := List.exists_cons_of_ne_nil
    (show thread.schedule ≠ [] by rintro empty; simp [empty] at timestamps)
  have performs : thread.Moves .advance ({ thread with schedule := rest }.performAction timedAction) := by
    simp [Moves, step, advance, control, schedule]
  obtain ⟨events, same⟩ := performs_of_advance control schedule performs
  have paced := (execute_actions_paced rfl watched).2 _ _ performs (by rw [same]; simp)
  obtain ⟨_, _, first, others, _, split, _, secs, offset, finite, converted, _, onTime⟩ := paced
  refine ⟨thread, times, watched, executed, ?_, offset, ?_, onTime⟩
  · rw [← pauseOffset]
    exact (InTime.run rfl watched).pausedTime (by simp [control]) (by simp [control])
  · have one : timedAction.timestamp = .finite 1 := by
      rw [schedule, List.map_cons] at timestamps
      exact (List.cons.inj timestamps).1
    rw [schedule] at split
    rw [← (List.cons.inj split).1, one] at finite
    rw [ExactFloat.finite.inj finite]
    exact converted

/-- A deadline is rounded to nanoseconds, so an action less than half a nanosecond after the origin
is performed at the origin. -/
theorem action_early_by_rounding :
    ¬ ∀ (call thread next : SequenceThread) (moves : List Move) (times : CallTimes) (move : Move)
        (execution : Execution) (secs : ℚ), call.control = .start →
      Transition.Run (Transition.Watched CallTimes.watch Moves) (call, {}) moves (thread, times) →
      thread.Moves move next → next.executed = thread.executed ++ [execution] →
      execution.timedAction.timestamp = .finite secs →
      (times.origin : ℚ) + secs * 10 ^ 9 + times.pausedTime ≤ execution.time := by
  intro claim
  have computed : ((openingThread (.finite (1 / 2 ^ 32))).replay [.advance, .advance]).map
      (fun thread => (thread.control, thread.clock, thread.schedule.map (·.timestamp))) =
      some (.performing, 0, [.finite (1 / 2 ^ 32)]) := by decide +kernel
  obtain ⟨thread, reached, outcome⟩ := Option.map_eq_some_iff.mp computed
  simp only [Prod.mk.injEq] at outcome
  obtain ⟨control, clock, timestamps⟩ := outcome
  obtain ⟨times, watched⟩ := (run_iff_replay.mpr reached).watched CallTimes.watch {}
  obtain ⟨timedAction, rest, schedule⟩ := List.exists_cons_of_ne_nil
    (show thread.schedule ≠ [] by rintro empty; simp [empty] at timestamps)
  have performs : thread.Moves .advance ({ thread with schedule := rest }.performAction timedAction) := by
    simp [Moves, step, advance, control, schedule]
  obtain ⟨events, same⟩ := performs_of_advance control schedule performs
  rw [schedule, List.map_cons] at timestamps
  have early := claim _ _ _ _ _ _ ⟨thread.phase, timedAction, thread.clock, events⟩ (1 / 2 ^ 32) rfl
    watched performs (by rw [same]) (List.cons.inj timestamps).1
  simp only [clock, Nat.cast_zero] at early
  have positive : (0 : ℚ) < 1 / 2 ^ 32 * 10 ^ 9 := by norm_num
  have originNonneg : (0 : ℚ) ≤ times.origin := Nat.cast_nonneg _
  have pausedNonneg : (0 : ℚ) ≤ times.pausedTime := Nat.cast_nonneg _
  linarith

end SequenceThread

end FerroFlow
