import FerroFlow.SequenceSteps

/-! Aborting a sequence: when a queued abort takes effect before the next action, and when the
abort schedule is executed to its end. -/

namespace FerroFlow

/-- An abort is queued and no shutdown is queued before it. -/
def AbortPending (queue : List SequenceCmd) : Prop :=
  ∃ before after, queue = before ++ .abort :: after ∧ .shutdown ∉ before

namespace AbortPending

variable {queue : List SequenceCmd} {cmd : SequenceCmd}

theorem mem (pending : AbortPending queue) : .abort ∈ queue := by
  obtain ⟨before, after, rfl, _⟩ := pending
  simp

theorem not_nil : ¬ AbortPending [] := by
  intro pending
  have member := pending.mem
  cases member

theorem tail (pending : AbortPending (cmd :: queue)) (other : cmd ≠ .abort) :
    cmd ≠ .shutdown ∧ AbortPending queue := by
  obtain ⟨before, after, split, clear⟩ := pending
  cases before with
  | nil => exact (other (List.cons.inj split).1).elim
  | cons first before =>
      obtain ⟨rfl, rfl⟩ := List.cons.inj split
      simp only [List.mem_cons, not_or] at clear
      exact ⟨fun same => clear.1 same.symm, before, after, rfl, clear.2⟩

theorem send (pending : AbortPending queue) (cmd : SequenceCmd) : AbortPending (queue ++ [cmd]) := by
  obtain ⟨before, after, rfl, clear⟩ := pending
  exact ⟨before, after ++ [cmd], by simp, clear⟩

theorem of_send (pending : AbortPending (queue ++ [cmd])) (absent : ¬ AbortPending queue) :
    cmd = .abort ∧ .shutdown ∉ queue := by
  obtain ⟨before, after, split, clear⟩ := pending
  rcases List.eq_nil_or_concat after with rfl | ⟨between, last, rfl⟩
  · obtain ⟨rfl, same⟩ := List.append_inj' split rfl
    exact ⟨(List.cons.inj same).1, clear⟩
  · have regrouped : queue ++ [cmd] = (before ++ .abort :: between) ++ [last] := by
      rw [split]
      simp
    obtain ⟨rfl, _⟩ := List.append_inj' regrouped rfl
    exact (absent ⟨before, between, rfl, clear⟩).elim

end AbortPending

def SequenceThread.Move.isAdvance : SequenceThread.Move → Bool
  | .advance => true
  | _ => false

namespace SequenceThread

structure AboutToExecute (thread : SequenceThread) : Prop where
  main : thread.phase = .main
  remaining : thread.schedule ≠ []
  notFinished : ∀ result, thread.control ≠ .finished result
  notPanicked : thread.control ≠ .panicked

/-- What keeps a queued abort from being overtaken by the next action: the deadline is still
ahead whenever it is computed, and the abort does not come after the wait has ended. -/
def NotOvertaken (thread : SequenceThread) : Move → Prop
  | .advance => thread.phase = .main → thread.control = .waiting → AbortPending thread.queue →
      ∀ timedAction rest, thread.schedule = timedAction :: rest →
        ∃ deadline, thread.deadline timedAction = .ok deadline ∧ thread.clock < deadline
  | .send .abort => thread.phase = .main → thread.control = .performing → .shutdown ∈ thread.queue
  | _ => True

def Undisturbed (thread : SequenceThread) : Prop :=
  thread.phase = .main → thread.control = .performing → ¬ AbortPending thread.queue

theorem returnWith_not_performing (thread : SequenceThread) (result : Except SequenceRunError Unit) :
    (thread.returnWith result).control ≠ .performing := by
  rcases thread.returnWith_cases result with ⟨_, _, returned⟩ | ⟨_, returned⟩ <;> simp [returned]

theorem NotOvertaken.not_due {thread : SequenceThread} (allowed : thread.NotOvertaken .advance)
    (main : thread.phase = .main) (control : thread.control = .waiting)
    (pending : AbortPending thread.queue) {timedAction : TimedAction} {rest : List TimedAction}
    (schedule : thread.schedule = timedAction :: rest) {deadline : Instant}
    (computed : thread.deadline timedAction = .ok deadline) : ¬ deadline ≤ thread.clock := by
  obtain ⟨other, otherComputed, ahead⟩ := allowed main control pending timedAction rest schedule
  rw [computed] at otherComputed
  obtain rfl := Except.ok.inj otherComputed
  exact Nat.not_le_of_lt ahead

theorem Undisturbed.moves {thread next : SequenceThread} {move : Move} (undisturbed : thread.Undisturbed)
    (moved : Transition.Restrict NotOvertaken Moves thread move next) : next.Undisturbed := by
  obtain ⟨allowed, moved⟩ := moved
  intro main performing
  by_cases own : move = .advance
  · subst own
    cases advances_of_advance moved with
    | started control => cases performing
    | completed control schedule => exact (returnWith_not_performing _ _ performing).elim
    | panicked control schedule computed => cases performing
    | @due timedAction rest deadline control schedule computed reached =>
        intro pending
        exact allowed.not_due main control pending schedule computed reached
    | early control schedule computed ahead => cases performing
    | received listening queue harmless continues => exact (continues.not_performing performing).elim
    | aborted listening queue => exact (returnWith_not_performing _ _ performing).elim
    | shutDown listening queue => exact (returnWith_not_performing _ _ performing).elim
    | timedOut control queue connected reached =>
        simp only [queue]
        exact AbortPending.not_nil
    | performed control schedule continues => exact (continues.not_performing performing).elim
  · obtain ⟨queue, connected, clock, nodeManager, rfl, same | ⟨cmd, rfl, same⟩⟩ :=
      moves_of_ne_advance own moved
    · rw [same]
      exact undisturbed main performing
    · intro pending
      simp only [same] at pending
      obtain ⟨rfl, clear⟩ := pending.of_send (undisturbed main performing)
      exact clear (allowed main performing)

structure Aborting (thread : SequenceThread) : Prop extends AboutToExecute thread where
  pending : AbortPending thread.queue
  notPerforming : thread.control ≠ .performing

def stepsToAbort (thread : SequenceThread) : ℕ :=
  2 * thread.queue.idxOf .abort +
    match thread.control with
    | .start => 3
    | .waiting => 2
    | _ => 1

theorem stepsToAbort_bound {thread : SequenceThread} (pending : AbortPending thread.queue) :
    thread.stepsToAbort ≤ 2 * thread.queue.length + 1 := by
  have index := List.idxOf_lt_length_of_mem pending.mem
  unfold stepsToAbort
  split <;> omega

theorem stepsToAbort_continues {control : Control} (continues : Continues control) :
    (match control with
    | .start => 3
    | .waiting => 2
    | _ => 1) ≤ 2 := by
  rcases continues with rfl | ⟨since, rfl⟩ | ⟨since, rfl⟩ <;> simp

theorem stepsToAbort_listening {thread : SequenceThread} (listening : thread.Listening) :
    thread.stepsToAbort = 2 * thread.queue.idxOf .abort + 1 := by
  rcases listening with ⟨deadline, control⟩ | ⟨since, control⟩ | ⟨since, control⟩ <;>
    simp [stepsToAbort, control]

theorem Aborting.advance {thread next : SequenceThread} (aborting : thread.Aborting)
    (allowed : thread.NotOvertaken .advance) (advanced : thread.advance = some next) :
    next.executed = thread.executed ∧
      (next.phase = .abort ∨ next.Aborting ∧ next.stepsToAbort < thread.stepsToAbort) := by
  cases advances_of_advance advanced with
  | started control =>
      refine ⟨rfl, Or.inr ⟨⟨⟨aborting.main, aborting.remaining, by simp, by simp⟩,
        aborting.pending, by simp⟩, ?_⟩⟩
      simp [stepsToAbort, control]
  | completed control schedule => exact (aborting.remaining schedule).elim
  | @panicked timedAction rest failure control schedule computed =>
      obtain ⟨deadline, other, _⟩ := allowed aborting.main control aborting.pending timedAction rest schedule
      rw [computed] at other
      cases other
  | @due timedAction rest deadline control schedule computed reached =>
      exact (allowed.not_due aborting.main control aborting.pending schedule computed reached).elim
  | early control schedule computed ahead =>
      refine ⟨rfl, Or.inr ⟨⟨⟨aborting.main, aborting.remaining, by simp, by simp⟩,
        aborting.pending, by simp⟩, ?_⟩⟩
      simp [stepsToAbort, control]
  | @received cmd queue control pauseOffset listening split harmless continues =>
      have pending := aborting.pending
      rw [split] at pending
      have other : cmd ≠ .abort := by rcases harmless with rfl | rfl <;> simp
      refine ⟨rfl, Or.inr ⟨⟨⟨aborting.main, aborting.remaining, continues.not_finished,
        continues.not_panicked⟩, (pending.tail other).2, continues.not_performing⟩, ?_⟩⟩
      have index : thread.queue.idxOf .abort = queue.idxOf .abort + 1 := by
        rw [split, List.idxOf_cons_ne _ other]
      have bound := stepsToAbort_continues continues
      rw [stepsToAbort_listening listening, index]
      unfold stepsToAbort
      simp only at bound ⊢
      omega
  | aborted listening split =>
      rcases returnWith_cases { thread with queue := _ } (.error .aborted) with
        ⟨_, _, returned⟩ | ⟨other, _⟩
      · rw [returned]
        exact ⟨rfl, Or.inl rfl⟩
      · exact (other ⟨aborting.main, rfl⟩).elim
  | shutDown listening split =>
      have pending := aborting.pending
      rcases split with queued | ⟨empty, _⟩
      · rw [queued] at pending
        exact ((pending.tail (by simp)).1 rfl).elim
      · rw [empty] at pending
        exact (AbortPending.not_nil pending).elim
  | timedOut control empty connected reached =>
      have pending := aborting.pending
      rw [empty] at pending
      exact (AbortPending.not_nil pending).elim
  | performed control schedule continues => exact (aborting.notPerforming control).elim

theorem Aborting.wait {thread next : SequenceThread} {move : Move} (aborting : thread.Aborting)
    (other : move ≠ .advance) (moved : thread.Moves move next) :
    next.executed = thread.executed ∧ next.Aborting ∧ next.stepsToAbort = thread.stepsToAbort := by
  obtain ⟨queue, connected, clock, nodeManager, rfl, same | ⟨cmd, _, same⟩⟩ :=
    moves_of_ne_advance other moved
  · subst same
    exact ⟨rfl, ⟨⟨aborting.main, aborting.remaining, aborting.notFinished, aborting.notPanicked⟩,
      aborting.pending, aborting.notPerforming⟩, rfl⟩
  · subst same
    refine ⟨rfl, ⟨⟨aborting.main, aborting.remaining, aborting.notFinished, aborting.notPanicked⟩,
      aborting.pending.send cmd, aborting.notPerforming⟩, ?_⟩
    simp only [stepsToAbort, List.idxOf_append_of_mem aborting.pending.mem]

theorem waitForResume_some {thread : SequenceThread} (queued : thread.queue ≠ []) (pausedAt : Instant) :
    ∃ next, thread.waitForResume pausedAt = some next := by
  unfold waitForResume
  cases queue : thread.queue with
  | nil => exact (queued queue).elim
  | cons cmd rest => cases cmd <;> exact ⟨_, rfl⟩

theorem receiveTimeout_some {thread : SequenceThread} (queued : thread.queue ≠ []) (deadline : Instant) :
    ∃ next, thread.receiveTimeout deadline = some next := by
  unfold receiveTimeout
  cases queue : thread.queue with
  | nil => exact (queued queue).elim
  | cons cmd rest => cases cmd <;> exact ⟨_, rfl⟩

theorem Aborting.advance_some {thread : SequenceThread} (aborting : thread.Aborting) :
    ∃ next, thread.advance = some next := by
  have queued : thread.queue ≠ [] := List.ne_nil_of_mem aborting.pending.mem
  unfold SequenceThread.advance
  cases control : thread.control with
  | start => exact ⟨_, rfl⟩
  | waiting =>
      cases schedule : thread.schedule with
      | nil => exact (aborting.remaining schedule).elim
      | cons timedAction rest =>
          simp only
          split
          · exact ⟨_, rfl⟩
          · split <;> exact ⟨_, rfl⟩
  | performing => exact (aborting.notPerforming control).elim
  | finished result => exact (aborting.notFinished result control).elim
  | panicked => exact (aborting.notPanicked control).elim
  | receiving deadline => exact receiveTimeout_some queued deadline
  | paused since => exact waitForResume_some queued since
  | held since => exact waitForResume_some queued since

theorem abort_phase_run {thread final : SequenceThread} {moves : List Move}
    (run : Transition.Run Moves thread moves final) (aborting : thread.phase = .abort) :
    final.phase = .abort ∧ final.executedIn .main = thread.executedIn .main := by
  induction run with
  | nil => exact ⟨aborting, rfl⟩
  | cons first _ ih =>
      obtain ⟨next, same⟩ := abort_phase_moves aborting first
      obtain ⟨last, whole⟩ := ih next
      exact ⟨last, whole.trans same⟩

def ownSteps (moves : List Move) : ℕ :=
  moves.countP Move.isAdvance

theorem Aborting.run {thread final : SequenceThread} {moves : List Move}
    (run : Transition.Run (Transition.Restrict NotOvertaken Moves) thread moves final)
    (aborting : thread.Aborting) : final.executedIn .main = thread.executedIn .main ∧
      (final.phase = .abort ∨
        final.Aborting ∧ final.stepsToAbort + ownSteps moves ≤ thread.stepsToAbort) := by
  induction run with
  | nil => exact ⟨rfl, Or.inr ⟨aborting, by simp [ownSteps]⟩⟩
  | @cons start move middle moves finish first rest ih =>
      obtain ⟨allowed, moved⟩ := first
      by_cases own : move = .advance
      · subst own
        obtain ⟨same, reached | ⟨closer, fewer⟩⟩ := aborting.advance allowed moved
        · obtain ⟨last, whole⟩ := abort_phase_run rest.weaken reached
          exact ⟨whole.trans (executedIn_of_executed_eq same .main), Or.inl last⟩
        · obtain ⟨whole, outcome⟩ := ih closer
          refine ⟨whole.trans (executedIn_of_executed_eq same .main), ?_⟩
          rcases outcome with last | ⟨still, bound⟩
          · exact Or.inl last
          · refine Or.inr ⟨still, ?_⟩
            have counted : ownSteps (.advance :: moves) = ownSteps moves + 1 :=
              List.countP_cons_of_pos rfl
            omega
      · obtain ⟨same, still, equal⟩ := aborting.wait own moved
        obtain ⟨whole, outcome⟩ := ih still
        refine ⟨whole.trans (executedIn_of_executed_eq same .main), ?_⟩
        have counted : ownSteps (move :: moves) = ownSteps moves := by
          cases move with
          | advance => exact (own rfl).elim
          | _ => exact List.countP_cons_of_neg (by simp [Move.isAdvance])
        rw [counted, ← equal]
        exact outcome

/-- In a run in which no queued abort is overtaken, an abort that is queued when a main action is
next keeps this and all later main actions from being executed, and the abort schedule starts
after a bounded number of steps. -/
theorem abort_takes_effect {seq abortSeq : Sequence} {clock : Instant} {nodeManager : NodeManager}
    {before after : List Move} {thread final : SequenceThread}
    (run : Transition.Run (Transition.Restrict NotOvertaken Moves)
      (spawn seq abortSeq clock nodeManager) before thread)
    (about : thread.AboutToExecute) (pending : AbortPending thread.queue)
    (continued : Transition.Run (Transition.Restrict NotOvertaken Moves) thread after final) :
    thread.control ≠ .performing ∧
    final.executedIn .main = thread.executedIn .main ∧
    (final.phase = .main → ∃ next, final.advance = some next) ∧
    (2 * thread.queue.length + 1 ≤ ownSteps after → final.phase = .abort) ∧
    (final.phase = .abort →
      final.executedIn .abort ++ final.schedule = flattenAndInterpolate abortSeq) := by
  have undisturbed : thread.Undisturbed := by
    apply run.invariant Undisturbed
    · intro start move finish holds moved
      exact holds.moves moved
    · intro _ impossible
      cases impossible
  have notPerforming : thread.control ≠ .performing :=
    fun performing => undisturbed about.main performing pending
  have aborting : thread.Aborting := ⟨about, pending, notPerforming⟩
  obtain ⟨same, outcome⟩ := aborting.run continued
  refine ⟨notPerforming, same, ?_, ?_, ?_⟩
  · intro main
    rcases outcome with abort | ⟨still, _⟩
    · rw [main] at abort
      cases abort
    · exact still.advance_some
  · intro enough
    rcases outcome with abort | ⟨still, bound⟩
    · exact abort
    · have most := stepsToAbort_bound pending
      have least : 1 ≤ final.stepsToAbort := by
        unfold stepsToAbort
        split <;> omega
      omega
  · intro abort
    exact ((inOrder_run (run.append continued).weaken).inAbort abort).2

def openingAt (timestamp : TimestampSec) : Sequence where
  name := "opening"
  globals := { startTime := .finite 0, endTime := .finite 10, interpolationInterval := ⟨10 ^ 9⟩ }
  steps := [{
    name := "open"
    timestamp := .finite 0
    actions := [{ timestamp, action := .setParam { param := "valve", value := .finite 1 } }] }]

def openingThread (timestamp : TimestampSec) : SequenceThread :=
  spawn (openingAt timestamp) (openingAt timestamp) 0 (.new {})

def abortedThread (timestamp : TimestampSec) : SequenceThread :=
  { openingThread timestamp with control := .waiting, queue := [.abort] }

theorem abortedThread_run (timestamp : TimestampSec) :
    Transition.Run (Transition.Restrict NotOvertaken Moves) (openingThread timestamp)
      [.advance, .send .abort] (abortedThread timestamp) := by
  refine .cons ⟨?_, rfl⟩ (.cons ⟨?_, rfl⟩ (.nil _))
  · intro _ impossible
    cases impossible
  · intro _ impossible
    cases impossible

theorem abortedThread_deadline :
    (abortedThread (.finite 1)).schedule.map (abortedThread (.finite 1)).deadline = [.ok (10 ^ 9)] := by
  decide +kernel

theorem abortedThread_advance : ∃ timedAction, (abortedThread (.finite 1)).schedule = [timedAction] ∧
    (abortedThread (.finite 1)).deadline timedAction = .ok (10 ^ 9) ∧
    (abortedThread (.finite 1)).advance =
      some { abortedThread (.finite 1) with control := .receiving (10 ^ 9) } := by
  have computed := abortedThread_deadline
  cases schedule : (abortedThread (.finite 1)).schedule with
  | nil => simp [schedule] at computed
  | cons timedAction rest =>
      rw [schedule, List.map_cons] at computed
      obtain ⟨deadline, none⟩ := List.cons.inj computed
      have ahead : (abortedThread (.finite 1)).clock < 10 ^ 9 := by decide
      have waiting : (abortedThread (.finite 1)).control = .waiting := rfl
      refine ⟨timedAction, by simpa using none, deadline, ?_⟩
      simp only [advance, waiting, schedule, deadline, Nat.not_le_of_lt ahead, ↓reduceIte]

theorem abortedThread_continues : ∃ final, Transition.Run (Transition.Restrict NotOvertaken Moves)
    (abortedThread (.finite 1)) [.advance, .advance, .advance] final := by
  obtain ⟨timedAction, schedule, deadline, waits⟩ := abortedThread_advance
  refine ⟨_, .cons ⟨?_, waits⟩ (.cons ⟨?_, rfl⟩ (.cons ⟨?_, rfl⟩ (.nil _)))⟩
  · intro _ _ _ other tail same
    rw [schedule] at same
    obtain rfl := (List.cons.inj same).1
    exact ⟨_, deadline, by decide⟩
  · intro _ impossible
    cases impossible
  · intro impossible
    cases impossible

theorem abort_takes_effect_opening : ∃ final, Transition.Run Moves (abortedThread (.finite 1))
    [.advance, .advance, .advance] final ∧ final.executedIn .main = [] ∧ final.phase = .abort := by
  obtain ⟨final, continued⟩ := abortedThread_continues
  have remaining : (abortedThread (.finite 1)).schedule ≠ [] := by
    intro empty
    have computed := abortedThread_deadline
    simp [empty] at computed
  have about : (abortedThread (.finite 1)).AboutToExecute :=
    ⟨rfl, remaining, by simp [abortedThread], by simp [abortedThread]⟩
  have effect := abort_takes_effect (abortedThread_run (.finite 1)) about ⟨[], [], rfl, by simp⟩ continued
  exact ⟨final, continued.weaken, effect.2.1, effect.2.2.2.1 (by decide)⟩

theorem queued_abort_overtaken :
    ¬ ∀ (seq abortSeq : Sequence) (clock : Instant) (nodeManager : NodeManager) (before after : List Move)
        (thread final : SequenceThread),
      seq.validate = .ok () → abortSeq.validate = .ok () →
      Transition.Run Moves (spawn seq abortSeq clock nodeManager) before thread →
      thread.AboutToExecute → AbortPending thread.queue → Transition.Run Moves thread after final →
      final.executedIn .main = thread.executedIn .main := by
  intro claim
  have valid : (openingAt (.finite 0)).validate = .ok () := by decide
  have remaining : (abortedThread (.finite 0)).schedule.length = 1 := by decide
  have about : (abortedThread (.finite 0)).AboutToExecute :=
    ⟨rfl, List.ne_nil_of_length_eq_add_one remaining, by simp [abortedThread], by simp [abortedThread]⟩
  have executes : ((abortedThread (.finite 0)).replay [.advance, .advance]).map
      (fun final => (final.executedIn .main).length) = some 1 := by decide +kernel
  obtain ⟨final, reached, executed⟩ := Option.map_eq_some_iff.mp executes
  have unchanged := claim _ _ _ _ _ _ _ final valid valid (abortedThread_run (.finite 0)).weaken about
    ⟨[], [], rfl, by simp⟩ (run_iff_replay.mpr reached)
  rw [unchanged] at executed
  cases executed

/-- No abort, shutdown or disconnect reaches the thread while it executes the abort schedule. -/
def NotStopped (thread : SequenceThread) (move : Move) : Prop :=
  move = .advance → thread.phase = .abort → thread.Listening →
    thread.queue.head? ≠ some .abort ∧ thread.queue.head? ≠ some .shutdown ∧
      (thread.queue = [] → thread.connected = true)

def Uncut (thread : SequenceThread) : Prop :=
  ∀ result, thread.control = .finished result → result = .ok () ∧ thread.schedule = []

theorem uncut_of_running {thread : SequenceThread}
    (running : ∀ result, thread.control ≠ .finished result) : thread.Uncut :=
  fun result finished => (running result finished).elim

theorem uncut_moves {thread next : SequenceThread} {move : Move}
    (uncut : thread.phase = .abort → thread.Uncut)
    (moved : Transition.Restrict NotStopped Moves thread move next) (aborting : next.phase = .abort) :
    next.Uncut := by
  obtain ⟨allowed, moved⟩ := moved
  by_cases own : move = .advance
  · subst own
    cases advances_of_advance moved with
    | completed control schedule =>
        rcases thread.returnWith_cases (.ok ()) with ⟨_, impossible, _⟩ | ⟨_, returned⟩
        · cases impossible
        · rw [returned]
          intro result finished
          obtain rfl := Control.finished.inj finished
          exact ⟨rfl, schedule⟩
    | received listening queue harmless continues => exact uncut_of_running continues.not_finished
    | @aborted queue listening split =>
        rcases returnWith_cases { thread with queue } (.error .aborted) with
          ⟨_, _, returned⟩ | ⟨other, returned⟩
        · rw [returned]
          exact uncut_of_running (by simp)
        · rw [returned] at aborting
          have harmless := (allowed rfl aborting listening).1
          simp [split] at harmless
    | @shutDown queue listening split =>
        rcases returnWith_cases { thread with queue } (.error .shutdown) with
          ⟨_, impossible, _⟩ | ⟨other, returned⟩
        · cases impossible
        · rw [returned] at aborting
          obtain ⟨_, notShutDown, connected⟩ := allowed rfl aborting listening
          rcases split with queued | ⟨empty, _, closed⟩
          · simp [queued] at notShutDown
          · rw [connected empty] at closed
            cases closed
    | performed control schedule continues => exact uncut_of_running continues.not_finished
    | _ => exact uncut_of_running (by simp)
  · obtain ⟨queue, connected, clock, nodeManager, rfl, _⟩ := moves_of_ne_advance own moved
    exact uncut aborting

/-- Once the main schedule was aborted, the abort schedule is executed in order, and the thread
does not return before its end unless it is stopped again. -/
theorem abort_schedule_completed {seq abortSeq : Sequence} {clock : Instant} {nodeManager : NodeManager}
    {moves : List Move} {thread : SequenceThread}
    (run : Transition.Run (Transition.Restrict NotStopped Moves)
      (spawn seq abortSeq clock nodeManager) moves thread) (aborting : thread.phase = .abort) :
    thread.executedIn .abort ++ thread.schedule = flattenAndInterpolate abortSeq ∧
    (∀ result, thread.control = .finished result →
      result = .ok () ∧ thread.executedIn .abort = flattenAndInterpolate abortSeq) ∧
    (thread.control = .panicked → ∃ timedAction rest failure,
      thread.schedule = timedAction :: rest ∧ thread.deadline timedAction = .error failure) := by
  have whole := ((inOrder_run run.weaken).inAbort aborting).2
  have uncut : thread.phase = .abort → thread.Uncut := by
    apply run.invariant fun state => state.phase = .abort → state.Uncut
    · intro start move finish holds moved
      exact uncut_moves holds moved
    · intro impossible
      cases impossible
  refine ⟨whole, ?_, panicsAtDeadline_run run.weaken⟩
  intro result finished
  obtain ⟨succeeded, empty⟩ := uncut aborting result finished
  rw [empty, List.append_nil] at whole
  exact ⟨succeeded, whole⟩

theorem silent_run_not_stopped {thread final : SequenceThread} {moves : List Move}
    (run : Transition.Run Moves thread moves final) (empty : thread.queue = [])
    (connected : thread.connected = true)
    (silent : ∀ move ∈ moves, (∀ cmd, move ≠ .send cmd) ∧ move ≠ .disconnect) :
    Transition.Run (Transition.Restrict NotStopped Moves) thread moves final := by
  refine run.restrict (fun state => state.queue = [] ∧ state.connected = true) _ ?_
    ⟨empty, connected⟩ silent
  rintro start move finish ⟨nothing, stillOpen⟩ ⟨noSend, noDisconnect⟩ moved
  constructor
  · intro _ _ _
    simp [nothing, stillOpen]
  · cases move with
    | advance =>
        cases advances_of_advance moved with
        | completed control schedule =>
            rcases start.returnWith_cases (.ok ()) with ⟨_, _, returned⟩ | ⟨_, returned⟩ <;>
              rw [returned] <;> exact ⟨nothing, stillOpen⟩
        | received listening queue harmless continues => simp [nothing] at queue
        | aborted listening queue => simp [nothing] at queue
        | shutDown listening queue => simp [nothing, stillOpen] at queue
        | _ => exact ⟨nothing, stillOpen⟩
    | send cmd => exact (noSend cmd rfl).elim
    | disconnect => exact (noDisconnect rfl).elim
    | tick elapsed =>
        obtain rfl := Option.some.inj moved
        exact ⟨nothing, stillOpen⟩
    | nodes nodeManager =>
        obtain rfl := Option.some.inj moved
        exact ⟨nothing, stillOpen⟩

def abortingThread : SequenceThread :=
  { abortedThread (.finite 1) with queue := [], phase := .abort, control := .start }

theorem abortingThread_run : Transition.Run (Transition.Restrict NotStopped Moves)
    (openingThread (.finite 1)) [.advance, .send .abort, .advance, .advance] abortingThread := by
  obtain ⟨_, _, _, waits⟩ := abortedThread_advance
  refine .cons ⟨?_, rfl⟩ (.cons ⟨?_, rfl⟩ (.cons ⟨?_, waits⟩ (.cons ⟨?_, rfl⟩ (.nil _)))) <;>
  · intro _ impossible
    cases impossible

theorem abort_schedule_completed_opening : ∃ moves thread,
    Transition.Run Moves (openingThread (.finite 1)) moves thread ∧ thread.control = .finished (.ok ()) ∧
      thread.executedIn .abort = flattenAndInterpolate (openingAt (.finite 1)) := by
  have completes : (abortingThread.replay [.advance, .tick (10 ^ 9), .advance, .advance, .advance]).map
      (fun thread => (thread.phase, thread.control)) = some (.abort, .finished (.ok ())) := by
    decide +kernel
  obtain ⟨thread, reached, outcome⟩ := Option.map_eq_some_iff.mp completes
  simp only [Prod.mk.injEq] at outcome
  have silent := silent_run_not_stopped (run_iff_replay.mpr reached) rfl rfl (by simp)
  have run := abortingThread_run.append silent
  have completed := abort_schedule_completed run outcome.1
  exact ⟨_, thread, run.weaken, outcome.2, (completed.2.1 _ outcome.2).2⟩

theorem second_abort_cuts_abort_schedule :
    ¬ ∀ (seq abortSeq : Sequence) (clock : Instant) (nodeManager : NodeManager) (moves : List Move)
        (thread : SequenceThread) (result : Except SequenceRunError Unit),
      seq.validate = .ok () → abortSeq.validate = .ok () →
      Transition.Run Moves (spawn seq abortSeq clock nodeManager) moves thread →
      thread.phase = .abort → thread.control = .finished result →
      (∀ move ∈ moves, move ≠ .send .shutdown ∧ move ≠ .disconnect) →
      thread.executedIn .abort = flattenAndInterpolate abortSeq := by
  intro claim
  have valid : (openingAt (.finite 1)).validate = .ok () := by decide
  have cut : ((openingThread (.finite 1)).replay [.advance, .send .abort, .send .abort, .advance, .advance,
      .advance, .advance, .advance]).map (fun thread => (thread.phase, thread.control,
        (thread.executedIn .abort).length)) = some (.abort, .finished (.error .aborted), 0) := by
    decide +kernel
  obtain ⟨thread, reached, outcome⟩ := Option.map_eq_some_iff.mp cut
  simp only [Prod.mk.injEq] at outcome
  have completed := claim _ _ _ _ _ thread _ valid valid (run_iff_replay.mpr reached) outcome.1 outcome.2.1
    (by simp)
  have remaining : (flattenAndInterpolate (openingAt (.finite 1))).length = 1 := by decide
  have none := outcome.2.2
  rw [completed, remaining] at none
  cases none

end SequenceThread

end FerroFlow
