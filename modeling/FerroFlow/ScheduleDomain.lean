import FerroFlow.MachineRamp
import FerroFlow.SequenceSteps
import FerroFlow.SequenceValidation

/-! When all timestamps of the schedule of an accepted sequence can become durations, and when the
sequence thread does not panic at a deadline. -/

namespace FerroFlow

namespace Sequence

variable {seq : Sequence}

/-- The start time and the times of all actions are numbers, and no action is `2 ^ 64` seconds
or more after the start, as the subtraction rounds. -/
structure Timeable (seq : Sequence) : Prop where
  start : seq.globals.startTime.isFinite = true
  actions : ∀ timedAction ∈ seq.flattenedActions, timedAction.timestamp.isFinite = true ∧
    (timedAction.timestamp - seq.globals.startTime).toBinary64 < .finite (2 ^ 64)

section Schedule

open Machine

variable {memory : ℕ}

theorem lt_of_toBinary64_lt {value bound : ℚ} (nonneg : 0 ≤ value)
    (less : (ExactFloat.finite value).toBinary64 < .finite bound) :
    (ExactFloat.finite value).toBinary64 = .finite (ExactFloat.roundBinary64 value) := by
  simp only [ExactFloat.toBinary64] at less ⊢
  split
  · rename_i large
    simp only [large, ↓reduceIte] at less
    unfold ExactFloat.infinite at less
    split at less
    · cases less
    · simp only [nonneg.lt_of_ne' ‹_›, ↓reduceIte] at less
      cases less
  · rfl

theorem Timeable.shifted (timeable : seq.Timeable) (valid : seq.Valid) {timedAction : TimedAction}
    (member : timedAction ∈ seq.flattenedActions) :
    ∃ time, ((binary64 memory).shifted seq.globals timedAction).timestamp = .finite time ∧
      0 ≤ time ∧ time < 2 ^ 64 ∧ ExactFloat.roundBinary64 time = time := by
  obtain ⟨startTime, start⟩ := (ExactFloat.isFinite_iff _).mp timeable.start
  obtain ⟨finite, early⟩ := timeable.actions timedAction member
  obtain ⟨time, actionAt⟩ := (ExactFloat.isFinite_iff _).mp finite
  have late := (valid.bounds member).1
  rw [actionAt, start, ExactFloat.finite_le_finite] at late
  rw [actionAt, start, ExactFloat.finite_sub_finite] at early
  have nonneg : 0 ≤ time - startTime := by linarith
  have rounds := lt_of_toBinary64_lt nonneg early
  refine ⟨ExactFloat.roundBinary64 (time - startTime), ?_, ExactFloat.roundBinary64_nonneg nonneg, ?_,
    ExactFloat.roundBinary64_idempotent nonneg⟩
  · change (timedAction.timestamp - seq.globals.startTime).toBinary64 = _
    rw [actionAt, start, ExactFloat.finite_sub_finite, rounds]
  · rwa [rounds, ExactFloat.finite_lt_finite] at early

theorem Timeable.onTimeline (timeable : seq.Timeable) (valid : seq.Valid) {pushed : TimedAction}
    (member : pushed ∈ (binary64 memory).timeline seq) :
    ∃ time, pushed.timestamp = .finite time ∧ 0 ≤ time ∧ time < 2 ^ 64 ∧
      ExactFloat.roundBinary64 time = time := by
  obtain ⟨timedAction, listed, rfl⟩ := List.mem_map.mp member
  exact timeable.shifted valid listed

theorem settingOf_timestamp {globals : Globals} {param : String} {timedAction : TimedAction} {setting : TimedValue}
    (set : settingOf globals.onTimeline param timedAction = some setting) :
    setting.timestamp = timedAction.timestamp :=
  (settingOf_eq_some_iff.mp set).2.2.trans (sub_zero_time _)

theorem Timeable.inDomain_inserted (timeable : seq.Timeable) (valid : seq.Valid) (small : memory ≤ 2 ^ 48)
    {past rest : List TimedAction} {second inserted : TimedAction}
    (split : (binary64 memory).timeline seq = past ++ second :: rest)
    (fits : (binary64 memory).TicksFit seq.globals past second)
    (member : inserted ∈ (binary64 memory).insertedBefore seq.globals past second) :
    Duration.InDomain inserted.timestamp := by
  unfold Machine.insertedBefore at member
  split at member
  · cases member
  · rename_i param start finish known
    obtain ⟨ramps, tick, positive, inside, rfl⟩ := Machine.mem_ramp_iff.mp member
    obtain ⟨between, consecutive⟩ := settings_eq_some_iff.mp known
    obtain ⟨before, first, whole, opened⟩ := consecutive.split
    have firstListed : first ∈ (binary64 memory).timeline seq := by simp [split, whole]
    have secondListed : second ∈ (binary64 memory).timeline seq := by simp [split]
    obtain ⟨openingTime, openingAt, openingNonneg, _⟩ := timeable.onTimeline valid firstListed
    obtain ⟨closingTime, closingAt, _, closingBound, closingExact⟩ := timeable.onTimeline valid secondListed
    have few := fits param start finish known ramps
    obtain ⟨startTime, finishTime, step, quotient, counted⟩ := exists_counted small (by omega) few
    have startIs : openingTime = startTime := by
      have same := openingAt.symm.trans ((settingOf_timestamp opened).symm.trans counted.startAt)
      exact ExactFloat.finite.inj same
    have finishIs : closingTime = finishTime := by
      have same := closingAt.symm.trans ((settingOf_timestamp consecutive.second).symm.trans counted.finishAt)
      exact ExactFloat.finite.inj same
    subst startIs finishIs
    obtain ⟨time, insertedAt, nonneg, upTo⟩ := counted.timestamp small few openingNonneg closingExact
      closingBound.le positive inside ((binary64 memory).round (finish.timestamp - start.timestamp))
    exact (Duration.inDomain_iff _).mpr ⟨time, insertedAt, nonneg, upTo.trans_lt closingBound⟩

theorem inDomain_of_timeable (valid : seq.Valid) (timeable : seq.Timeable) (small : memory ≤ 2 ^ 48)
    {schedule : List TimedAction} (scheduled : (binary64 memory).flattenAndInterpolate seq = .ok schedule) :
    ∀ pushed ∈ schedule, Duration.InDomain pushed.timestamp := by
  obtain ⟨rfl, fits⟩ := flattenAndInterpolate_ok_iff.mp scheduled
  intro pushed member
  rcases (mem_scheduled_iff _ _ _ _).mp member with listed | ⟨past, second, rest, split, inserted⟩
  · obtain ⟨time, pushedAt, nonneg, bound, _⟩ := timeable.onTimeline valid listed
    exact (Duration.inDomain_iff _).mpr ⟨time, pushedAt, nonneg, bound⟩
  · refine timeable.inDomain_inserted valid small split (ticksFit_of_length ?_) inserted
    have grouped : (binary64 memory).timeline seq = (past ++ [second]) ++ rest := by simp [split]
    rw [grouped, scheduled_append, List.length_append] at fits
    exact (Nat.le_add_right _ _).trans fits

theorem timeable_of_inDomain (valid : seq.Valid) {schedule : List TimedAction}
    (scheduled : (binary64 memory).flattenAndInterpolate seq = .ok schedule)
    (inDomain : ∀ pushed ∈ schedule, Duration.InDomain pushed.timestamp) : seq.Timeable := by
  obtain ⟨rfl, _⟩ := flattenAndInterpolate_ok_iff.mp scheduled
  have actions : ∀ timedAction ∈ seq.flattenedActions, timedAction.timestamp.isFinite = true ∧
      seq.globals.startTime.isFinite = true ∧
      (timedAction.timestamp - seq.globals.startTime).toBinary64 < .finite (2 ^ 64) := by
    intro timedAction member
    have listed : (binary64 memory).shifted seq.globals timedAction ∈
        (binary64 memory).scheduled seq.globals [] ((binary64 memory).timeline seq) :=
      (mem_scheduled_iff _ _ _ _).mpr (Or.inl (List.mem_map_of_mem member))
    obtain ⟨value, rounds, _, bound⟩ := (Duration.inDomain_iff _).mp (inDomain _ listed)
    change (timedAction.timestamp - seq.globals.startTime).toBinary64 = .finite value at rounds
    obtain ⟨difference, subtracted⟩ := ExactFloat.finite_of_toBinary64 rounds
    obtain ⟨time, startTime, actionAt, start⟩ := ExactFloat.sub_eq_finite subtracted
    rw [rounds, ExactFloat.finite_lt_finite]
    exact ⟨by rw [actionAt]; rfl, by rw [start]; rfl, bound⟩
  constructor
  · obtain ⟨timedAction, member⟩ := valid.exists_action
    exact (actions timedAction member).2.1
  · intro timedAction member
    exact ⟨(actions timedAction member).1, (actions timedAction member).2.2⟩

end Schedule

end Sequence

namespace SequenceThread

def spawnOn (machine : Machine) (seq abortSeq : Sequence) (clock : Instant) (nodeManager : NodeManager) :
    Result SequenceThread := do
  let schedule ← machine.flattenAndInterpolate seq
  let abortSchedule ← machine.flattenAndInterpolate abortSeq
  .ok { clock, nodeManager, schedule, abortSchedule }

/-- The next deadline is a time that the clock can show. -/
def DeadlineFits (thread : SequenceThread) : Move → Prop
  | .advance => thread.control = .waiting → ∀ timedAction rest duration,
      thread.schedule = timedAction :: rest → Duration.fromSecsF64 timedAction.timestamp = .ok duration →
      thread.origin + duration.nanos + thread.pauseOffset.nanos < instantLimit
  | _ => True

theorem deadline_ok_iff {thread : SequenceThread} {timedAction : TimedAction} {duration : Duration}
    (converted : Duration.fromSecsF64 timedAction.timestamp = .ok duration) :
    (∃ deadline, thread.deadline timedAction = .ok deadline) ↔
      thread.origin + duration.nanos + thread.pauseOffset.nanos < instantLimit := by
  simp only [deadline, converted, Checks.bind_ok_iff, Instant.after, Except.ok.injEq, exists_eq_left']
  constructor
  · rintro ⟨deadline, unpaused, first, second⟩
    split at first
    · obtain rfl := Except.ok.inj first
      split at second
      · assumption
      · cases second
    · cases first
  · intro whole
    have part : thread.origin + duration.nanos < instantLimit := Nat.lt_of_le_of_lt (Nat.le_add_right _ _) whole
    exact ⟨_, _, by rw [if_pos part], by rw [if_pos whole]⟩

theorem panics_iff {thread : SequenceThread} (waiting : thread.control = .waiting)
    (inDomain : ∀ timedAction ∈ thread.schedule, Duration.InDomain timedAction.timestamp) :
    (∃ next, thread.advance = some next ∧ next.control = .panicked) ↔ ¬ thread.DeadlineFits .advance := by
  cases schedule : thread.schedule with
  | nil =>
      refine iff_of_false ?_ (not_not.mpr ?_)
      · rintro ⟨next, advanced, panicked⟩
        simp only [advance, waiting, schedule, Option.some.injEq] at advanced
        exact returnWith_not_panicked thread (.ok ()) (advanced ▸ panicked)
      · intro _ timedAction rest duration some
        rw [schedule] at some
        cases some
  | cons timedAction rest =>
      obtain ⟨duration, converted⟩ := (Duration.fromSecsF64_ok_iff _).mpr
        (inDomain timedAction (by rw [schedule]; exact List.mem_cons_self))
      have fits : thread.DeadlineFits .advance ↔ ∃ deadline, thread.deadline timedAction = .ok deadline := by
        rw [deadline_ok_iff converted]
        constructor
        · intro fits
          exact fits waiting timedAction rest duration schedule converted
        · intro small _ _ _ _ same sameDuration
          rw [schedule] at same
          obtain ⟨rfl, rfl⟩ := List.cons.inj same
          obtain rfl := Except.ok.inj (converted.symm.trans sameDuration)
          exact small
      rw [fits]
      cases computed : thread.deadline timedAction with
      | error failure =>
          refine iff_of_true ⟨{ thread with control := .panicked }, ?_, rfl⟩ (by simp)
          simp only [advance, waiting, schedule, computed]
      | ok deadline =>
          refine iff_of_false ?_ (by simp)
          rintro ⟨next, advanced, panicked⟩
          simp only [advance, waiting, schedule, computed] at advanced
          split at advanced <;> obtain rfl := Option.some.inj advanced <;> cases panicked

theorem InOrder.inDomain {mainActions abortActions : List TimedAction} {thread : SequenceThread}
    (inOrder : InOrder mainActions abortActions thread)
    (mainDomain : ∀ timedAction ∈ mainActions, Duration.InDomain timedAction.timestamp)
    (abortDomain : ∀ timedAction ∈ abortActions, Duration.InDomain timedAction.timestamp) :
    ∀ timedAction ∈ thread.schedule, Duration.InDomain timedAction.timestamp := by
  intro timedAction member
  cases phase : thread.phase with
  | main =>
      have whole := (inOrder.inMain phase).1
      exact mainDomain timedAction (by simp [← whole, member])
  | abort =>
      have whole := (inOrder.inAbort phase).2
      exact abortDomain timedAction (by simp [← whole, member])

theorem moves_not_panicked {thread next : SequenceThread} {move : Move}
    (inDomain : ∀ timedAction ∈ thread.schedule, Duration.InDomain timedAction.timestamp)
    (running : thread.control ≠ .panicked)
    (moved : Transition.Restrict DeadlineFits Moves thread move next) : next.control ≠ .panicked := by
  obtain ⟨fits, moved⟩ := moved
  by_cases own : move = .advance
  · subst own
    intro panicked
    cases advances_of_advance moved with
    | completed control schedule => exact returnWith_not_panicked _ _ panicked
    | panicked control schedule computed => exact (panics_iff control inDomain).mp ⟨_, moved, rfl⟩ fits
    | received listening queue harmless continues => exact continues.not_panicked panicked
    | aborted listening queue => exact returnWith_not_panicked _ _ panicked
    | shutDown listening queue => exact returnWith_not_panicked _ _ panicked
    | performed control schedule continues => exact continues.not_panicked panicked
    | _ => cases panicked
  · obtain ⟨queue, connected, clock, nodeManager, rfl, _⟩ := moves_of_ne_advance own moved
    exact running

end SequenceThread

namespace Sequence

variable {seq abortSeq : Sequence} {memory : ℕ}

theorem spawnOn_inOrder {machine : Machine} {clock : Instant} {nodeManager : NodeManager}
    {spawned : SequenceThread} (started : SequenceThread.spawnOn machine seq abortSeq clock nodeManager = .ok spawned) :
    ∃ schedule abortSchedule, machine.flattenAndInterpolate seq = .ok schedule ∧
      machine.flattenAndInterpolate abortSeq = .ok abortSchedule ∧ spawned.control = .start ∧
      SequenceThread.InOrder schedule abortSchedule spawned := by
  simp only [SequenceThread.spawnOn, Checks.bind_ok_iff, Except.ok.injEq] at started
  obtain ⟨schedule, scheduled, abortSchedule, abortScheduled, rfl⟩ := started
  refine ⟨schedule, abortSchedule, scheduled, abortScheduled, rfl, rfl, ?_, ?_⟩
  · intro _
    exact ⟨rfl, rfl⟩
  · intro impossible
    cases impossible

/-- The timestamps of the schedule of an accepted sequence are durations exactly when the sequence is
timeable. The thread of two such sequences panics at a deadline exactly if no `Instant` is that late, and
never in a run whose deadlines all fit. -/
theorem schedule_inDomain_iff (validated : seq.validate = .ok ()) (small : memory ≤ 2 ^ 48) :
    (∀ schedule, (Machine.binary64 memory).flattenAndInterpolate seq = .ok schedule →
      ((∀ pushed ∈ schedule, Duration.InDomain pushed.timestamp) ↔ seq.Timeable)) ∧
    (seq.Timeable → ∀ abortSeq : Sequence, abortSeq.validate = .ok () → abortSeq.Timeable →
      ∀ clock nodeManager spawned,
        SequenceThread.spawnOn (.binary64 memory) seq abortSeq clock nodeManager = .ok spawned →
        (∀ moves thread, Transition.Run SequenceThread.Moves spawned moves thread → thread.control = .waiting →
          ((∃ next, thread.advance = some next ∧ next.control = .panicked) ↔ ¬ thread.DeadlineFits .advance)) ∧
        ∀ moves thread, Transition.Run (Transition.Restrict SequenceThread.DeadlineFits SequenceThread.Moves)
          spawned moves thread → thread.control ≠ .panicked) := by
  have valid := (validate_ok_iff seq).mp validated
  refine ⟨fun schedule scheduled => ⟨timeable_of_inDomain valid scheduled,
    fun timeable => inDomain_of_timeable valid timeable small scheduled⟩, ?_⟩
  intro timeable abortSeq abortValidated abortTimeable clock nodeManager spawned started
  have abortValid := (validate_ok_iff abortSeq).mp abortValidated
  obtain ⟨schedule, abortSchedule, scheduled, abortScheduled, fresh, inOrder⟩ := spawnOn_inOrder started
  have mainDomain := inDomain_of_timeable valid timeable small scheduled
  have abortDomain := inDomain_of_timeable abortValid abortTimeable small abortScheduled
  constructor
  · intro moves thread run waiting
    exact SequenceThread.panics_iff waiting ((inOrder.run run).inDomain mainDomain abortDomain)
  · intro moves thread run
    have kept : SequenceThread.InOrder schedule abortSchedule thread ∧ thread.control ≠ .panicked := by
      apply run.invariant fun thread =>
        SequenceThread.InOrder schedule abortSchedule thread ∧ thread.control ≠ .panicked
      · rintro start move finish ⟨inOrder, running⟩ moved
        exact ⟨inOrder.moves moved.2,
          SequenceThread.moves_not_panicked (inOrder.inDomain mainDomain abortDomain) running moved⟩
      · exact ⟨inOrder, by simp [fresh]⟩
    exact kept.2

def openingAtEnd (endTime : TimestampSec) : Sequence where
  name := "late"
  globals := { startTime := .finite 0, endTime := endTime, interpolationInterval := ⟨10 ^ 9⟩ }
  steps := [{
    name := "open"
    timestamp := .finite 0
    actions := [⟨endTime, .setParam ⟨"valve", .finite 1⟩⟩] }]

theorem openingAtEnd_timeable : ∀ seconds ∈ [(60 : ℚ), 10 ^ 19], (openingAtEnd (.finite seconds)).Timeable := by
  have actions : ∀ seconds ∈ [(60 : ℚ), 10 ^ 19],
      ∀ timedAction ∈ (openingAtEnd (.finite seconds)).flattenedActions, timedAction.timestamp.isFinite = true ∧
        (timedAction.timestamp - (openingAtEnd (.finite seconds)).globals.startTime).toBinary64 <
          .finite (2 ^ 64) := by
    decide +kernel
  exact fun seconds member => ⟨rfl, actions seconds member⟩

def openingThread (endTime : TimestampSec) : Result SequenceThread :=
  SequenceThread.spawnOn (.binary64 100) (openingAtEnd endTime) (openingAtEnd endTime) 0 (.new {})

theorem openingThread_run {endTime : TimestampSec} {control : SequenceThread → Bool}
    (runs : ((openingThread endTime).toOption.bind fun spawned =>
      spawned.replay [.advance, .advance]).any control = true) :
    ∃ spawned thread, openingThread endTime = .ok spawned ∧
      Transition.Run SequenceThread.Moves spawned [.advance, .advance] thread ∧ control thread = true := by
  obtain ⟨thread, reached, seen⟩ := (Option.any_eq_true _ _).mp runs
  obtain ⟨spawned, started, replayed⟩ := Option.bind_eq_some_iff.mp reached
  exact ⟨spawned, thread, ok_of_toOption started, SequenceThread.run_iff_replay.mpr replayed, seen⟩

theorem openingAtEnd_waits : ∃ spawned thread, openingThread (.finite 60) = .ok spawned ∧
    Transition.Run (Transition.Restrict SequenceThread.DeadlineFits SequenceThread.Moves) spawned
      [.advance, .advance] thread ∧ thread.control ≠ .panicked := by
  have timeable := openingAtEnd_timeable 60 (by simp)
  have valid : (openingAtEnd (.finite 60)).validate = .ok () := by decide
  have waits : ((openingThread (.finite 60)).toOption.bind fun spawned => spawned.replay [.advance, .advance]).any
      (fun thread => decide (thread.control = .receiving (60 * 10 ^ 9))) = true := by decide +kernel
  obtain ⟨spawned, thread, started, run, receiving⟩ := openingThread_run waits
  obtain ⟨panics, never⟩ := (schedule_inDomain_iff valid (by decide : 100 ≤ 2 ^ 48)).2 timeable _ valid timeable
    _ _ _ started
  obtain ⟨waiting, first, rest⟩ := Transition.run_cons_iff.mp run
  obtain ⟨_, second, same⟩ := Transition.run_cons_iff.mp rest
  obtain rfl := Transition.run_nil_iff.mp same
  have fresh : spawned.control = .start := (spawnOn_inOrder started).choose_spec.choose_spec.2.2.1
  have isWaiting : waiting.control = .waiting := by
    have moved := first
    simp only [SequenceThread.Moves, SequenceThread.step, SequenceThread.advance, fresh, Option.some.injEq] at moved
    rw [← moved]
  have fits : waiting.DeadlineFits .advance := by
    by_contra late
    obtain ⟨next, advanced, panicked⟩ := (panics _ _ (.cons first (.nil _)) isWaiting).mpr late
    obtain rfl := Option.some.inj (advanced.symm.trans second)
    simp [panicked] at receiving
  have restricted : Transition.Run (Transition.Restrict SequenceThread.DeadlineFits SequenceThread.Moves) spawned
      [.advance, .advance] thread :=
    .cons ⟨fun impossible => by simp [fresh] at impossible, first⟩ (.cons ⟨fits, second⟩ (.nil _))
  exact ⟨spawned, thread, started, restricted, never _ _ restricted⟩

theorem late_action_panics :
    (¬ ∀ (memory : ℕ) (seq : Sequence) (schedule : List TimedAction), memory ≤ 2 ^ 48 → seq.validate = .ok () →
      (Machine.binary64 memory).flattenAndInterpolate seq = .ok schedule →
      ∀ pushed ∈ schedule, Duration.InDomain pushed.timestamp) ∧
    ∀ endTime ∈ [ExactFloat.posInf, .finite (10 ^ 19)], (openingAtEnd endTime).validate = .ok () ∧
      ∃ spawned thread, openingThread endTime = .ok spawned ∧
        Transition.Run SequenceThread.Moves spawned [.advance, .advance] thread ∧ thread.control = .panicked := by
  constructor
  · intro claim
    have scheduled : ((Machine.binary64 100).flattenAndInterpolate (openingAtEnd .posInf)).toOption =
        some [⟨.posInf, .setParam ⟨"valve", .finite 1⟩⟩] := by decide
    exact claim 100 _ _ (by decide) (by decide) (ok_of_toOption scheduled) _ (List.mem_singleton_self _)
  · intro endTime member
    have accepted : ∀ endTime ∈ [ExactFloat.posInf, .finite (10 ^ 19)], (openingAtEnd endTime).validate = .ok () := by
      decide
    have panics : ∀ endTime ∈ [ExactFloat.posInf, .finite (10 ^ 19)],
        ((openingThread endTime).toOption.bind fun spawned => spawned.replay [.advance, .advance]).any
          (fun thread => decide (thread.control = .panicked)) = true := by
      decide +kernel
    obtain ⟨spawned, thread, started, run, panicked⟩ := openingThread_run (panics endTime member)
    exact ⟨accepted endTime member, spawned, thread, started, run, of_decide_eq_true panicked⟩

end Sequence

end FerroFlow
