import FerroFlow.SequencePauses

/-! Which `Resume` releases a hold. The channel is first in, first out, and a hold reads on from
where the wait before it stopped. -/

namespace FerroFlow

def Control.isHeld : Control → Bool
  | .held _ => true
  | _ => false

@[simp] theorem Control.isHeld_held (since : Instant) : (Control.held since).isHeld = true := rfl

@[simp] theorem Control.isHeld_performing : Control.performing.isHeld = false := rfl

namespace SequenceThread

/-- What an onlooker who numbers the moves notes: when the queued commands were sent, oldest first,
and with which move the thread entered the hold it is in. -/
structure SentTimes where
  moment : ℕ := 1
  sentAt : List ℕ
  heldAt : Option ℕ := none

namespace SentTimes

def initially (thread : SequenceThread) : SentTimes where
  sentAt := thread.queue.map fun _ => 0

def watch (before : SequenceThread) (move : Move) (after : SequenceThread) (times : SentTimes) :
    SentTimes where
  moment := times.moment + 1
  sentAt := match move with
    | .send _ => times.sentAt ++ [times.moment]
    | _ => times.sentAt.drop (before.queue.length - after.queue.length)
  heldAt :=
    if after.control.isHeld then
      if before.control.isHeld then times.heldAt else some times.moment
    else none

end SentTimes

/-- If a `Resume` is about to release a hold, it was sent after the hold was entered. -/
def HeldFresh (thread : SequenceThread) (times : SentTimes) : Prop :=
  ∀ since rest, thread.control = .held since → thread.queue = .resume :: rest →
    ∃ entered sent, times.heldAt = some entered ∧ times.sentAt.head? = some sent ∧ entered < sent

/-- When a hold is entered, the first queued command other than `Pause` is not a `Resume`. -/
def EntersFresh (thread : SequenceThread) (move : Move) : Prop :=
  move = .advance → thread.control = .performing → ∀ timedAction rest,
    thread.schedule = timedAction :: rest → thread.holdsAt timedAction = true →
    thread.queue.find? (· ≠ .pause) ≠ some .resume

theorem returnWith_not_held (thread : SequenceThread) (result : Except SequenceRunError Unit) :
    (thread.returnWith result).control.isHeld = false := by
  rcases thread.returnWith_cases result with ⟨_, _, returned⟩ | ⟨_, returned⟩ <;> rw [returned] <;> rfl

theorem held_of_advance {thread next : SequenceThread} (advanced : thread.advance = some next)
    (held : next.control.isHeld = true) :
    (thread.control = .performing ∧ next.queue = thread.queue ∧ ∃ timedAction rest,
      thread.schedule = timedAction :: rest ∧ thread.holdsAt timedAction = true) ∨
    (thread.control.isHeld = true ∧ thread.queue = .pause :: next.queue) := by
  cases advances_of_advance advanced with
  | completed control schedule =>
      rw [returnWith_not_held] at held
      cases held
  | aborted listening split =>
      rw [returnWith_not_held] at held
      cases held
  | shutDown listening split =>
      rw [returnWith_not_held] at held
      cases held
  | @received cmd queue after pauseOffset listening split harmless continues =>
      right
      cases receives_of_advance listening split harmless advanced with
      | paused control => cases held
      | ignored control => cases held
      | remained paused => exact ⟨held, split⟩
      | resumed paused => cases held
  | @performed timedAction rest events after control schedule continues =>
      left
      obtain ⟨dispatched, same⟩ := performs_of_advance control schedule advanced
      have placed : after = if thread.holdsAt timedAction then .held thread.clock else .waiting :=
        congrArg SequenceThread.control same
      refine ⟨control, rfl, timedAction, rest, schedule, ?_⟩
      by_contra passes
      rw [if_neg passes] at placed
      subst placed
      cases held
  | _ => cases held

structure SentBefore (thread : SequenceThread) (times : SentTimes) : Prop where
  aligned : times.sentAt.length = thread.queue.length
  past : ∀ sent ∈ times.sentAt, sent < times.moment

structure Guarded (thread : SequenceThread) (times : SentTimes) : Prop extends
    SentBefore thread times where
  guarded : thread.control.isHeld = true → ∃ entered, times.heldAt = some entered ∧
    entered < times.moment ∧ ∀ sent, (thread.queue.zip times.sentAt).find? (fun entry => entry.1 ≠ .pause) =
      some (.resume, sent) → entered < sent

variable {thread next : SequenceThread} {times : SentTimes} {move : Move}

theorem SentBefore.moves (before : SentBefore thread times) (moved : thread.Moves move next) :
    SentBefore next (times.watch thread move next) := by
  have dropped (fewer : ∃ received, thread.queue.length = next.queue.length + received)
      (sentAt : (times.watch thread move next).sentAt =
        times.sentAt.drop (thread.queue.length - next.queue.length)) :
      SentBefore next (times.watch thread move next) := by
    obtain ⟨received, count⟩ := fewer
    constructor
    · rw [sentAt, List.length_drop, before.aligned]
      omega
    · intro sent member
      rw [sentAt] at member
      exact Nat.lt_succ_of_lt (before.past sent (List.mem_of_mem_drop member))
  cases move with
  | advance =>
      apply dropped _ rfl
      rcases advance_queue moved with same | ⟨cmd, split⟩
      · exact ⟨0, by rw [same]; rfl⟩
      · exact ⟨1, by rw [split]; rfl⟩
  | send cmd =>
      simp only [Moves, step] at moved
      split at moved
      · have same := Option.some.inj moved
        subst same
        constructor
        · simp [SentTimes.watch, before.aligned]
        · intro sent member
          rcases List.mem_append.mp member with earlier | now
          · exact Nat.lt_succ_of_lt (before.past sent earlier)
          · rw [List.mem_singleton.mp now]
            exact Nat.lt_succ_self _
      · cases moved
  | disconnect =>
      apply dropped _ rfl
      have same := Option.some.inj moved
      subst same
      exact ⟨0, rfl⟩
  | tick elapsed =>
      apply dropped _ rfl
      have same := Option.some.inj moved
      subst same
      exact ⟨0, rfl⟩
  | nodes nodeManager =>
      apply dropped _ rfl
      have same := Option.some.inj moved
      subst same
      exact ⟨0, rfl⟩

theorem find_zip_fst {queue : List SequenceCmd} {sentAt : List ℕ} (aligned : sentAt.length = queue.length) :
    ((queue.zip sentAt).find? fun entry => entry.1 ≠ .pause).map Prod.fst =
      queue.find? fun cmd => cmd ≠ .pause := by
  have names : (queue.zip sentAt).map Prod.fst = queue :=
    List.map_fst_zip (by rw [aligned])
  nth_rewrite 2 [← names]
  rw [List.find?_map]
  rfl

theorem Guarded.advances (guarded : Guarded thread times) (allowed : thread.EntersFresh .advance)
    (advanced : thread.advance = some next) : Guarded next (times.watch thread .advance next) := by
  refine ⟨guarded.toSentBefore.moves advanced, ?_⟩
  intro held
  rcases held_of_advance advanced held with ⟨performing, same, timedAction, rest, schedule, holds⟩ |
    ⟨still, split⟩
  · have notYet : thread.control.isHeld = false := by
      rw [performing]
      rfl
    refine ⟨times.moment, ?_, Nat.lt_succ_self _, ?_⟩
    · simp [SentTimes.watch, held, notYet]
    · intro sent found
      have kept : (times.watch thread .advance next).sentAt = times.sentAt := by
        simp [SentTimes.watch, same]
      rw [kept, same] at found
      have ahead := find_zip_fst guarded.aligned
      rw [found] at ahead
      exact (allowed rfl performing timedAction rest schedule holds ahead.symm).elim
  · obtain ⟨entered, heldAt, earlier, fresh⟩ := guarded.guarded still
    refine ⟨entered, ?_, Nat.lt_succ_of_lt earlier, ?_⟩
    · simp [SentTimes.watch, held, still, heldAt]
    · intro sent found
      have aligned := guarded.aligned
      rw [split] at aligned
      obtain ⟨first, others, stamps⟩ := List.exists_cons_of_length_eq_add_one aligned
      have kept : (times.watch thread .advance next).sentAt = others := by
        simp [SentTimes.watch, split, stamps]
      rw [kept] at found
      apply fresh sent
      rw [split, stamps]
      simpa using found

theorem Guarded.waits (guarded : Guarded thread times) (other : move ≠ .advance)
    (moved : thread.Moves move next) : Guarded next (times.watch thread move next) := by
  refine ⟨guarded.toSentBefore.moves moved, ?_⟩
  intro held
  obtain ⟨queue, connected, clock, nodeManager, same, sent⟩ := moves_of_ne_advance other moved
  have still : thread.control.isHeld = true := by
    rw [same] at held
    exact held
  obtain ⟨entered, heldAt, earlier, fresh⟩ := guarded.guarded still
  refine ⟨entered, by simp [SentTimes.watch, held, still, heldAt], Nat.lt_succ_of_lt earlier, ?_⟩
  intro moment found
  have nextQueue : next.queue = queue := by rw [same]
  rw [nextQueue] at found
  rcases sent with unchanged | ⟨cmd, sending, longer⟩
  · have kept : (times.watch thread move next).sentAt = times.sentAt := by
      cases move with
      | advance => exact (other rfl).elim
      | send cmd =>
          have grown := (guarded.toSentBefore.moves moved).aligned
          rw [nextQueue, unchanged, ← guarded.aligned] at grown
          simp [SentTimes.watch] at grown
      | _ => simp [SentTimes.watch, nextQueue, unchanged]
    rw [kept, unchanged] at found
    exact fresh moment found
  · subst sending
    have kept : (times.watch thread (.send cmd) next).sentAt = times.sentAt ++ [times.moment] := rfl
    rw [kept, longer, List.zip_append guarded.aligned.symm, List.find?_append] at found
    rcases Option.or_eq_some_iff.mp found with before | ⟨_, now⟩
    · exact fresh moment before
    · have last := List.mem_of_find?_eq_some now
      simp only [List.zip_cons_cons, List.zip_nil_right, List.mem_singleton, Prod.mk.injEq] at last
      rw [last.2]
      exact earlier

theorem Guarded.heldFresh (guarded : Guarded thread times) : HeldFresh thread times := by
  intro since rest control split
  obtain ⟨entered, heldAt, earlier, fresh⟩ := guarded.guarded (by rw [control]; rfl)
  have aligned := guarded.aligned
  rw [split] at aligned
  obtain ⟨first, others, stamps⟩ := List.exists_cons_of_length_eq_add_one aligned
  refine ⟨entered, first, heldAt, by simp [stamps], ?_⟩
  apply fresh first
  simp [split, stamps]

theorem sentBefore_initially (call : SequenceThread) : SentBefore call (.initially call) := by
  constructor
  · simp [SentTimes.initially]
  · intro sent member
    obtain ⟨cmd, queued, rfl⟩ := List.mem_map.mp member
    exact Nat.zero_lt_one

theorem Guarded.run {call : SequenceThread} {moves : List Move} (starting : call.control = .start)
    (watched : Transition.Run (Transition.Watched SentTimes.watch (Transition.Restrict EntersFresh Moves))
      (call, .initially call) moves (thread, times)) : Guarded thread times := by
  apply watched.invariant fun state => Guarded state.1 state.2
  · intro start move finish guarded moved
    obtain ⟨⟨allowed, moved⟩, noted⟩ := moved
    rw [noted]
    by_cases own : move = .advance
    · subst own
      exact guarded.advances allowed moved
    · exact guarded.waits own moved
  · refine ⟨sentBefore_initially call, ?_⟩
    intro held
    simp [starting, Control.isHeld] at held

theorem SentBefore.run {call : SequenceThread} {moves : List Move}
    (watched : Transition.Run (Transition.Watched SentTimes.watch Moves)
      (call, .initially call) moves (thread, times)) : SentBefore thread times := by
  apply watched.invariant fun state => SentBefore state.1 state.2
  · intro start move finish before moved
    rw [moved.2]
    exact before.moves moved.1
  · exact sentBefore_initially call

theorem stale_resume_reached {entered : ℕ} (held : thread.control.isHeld = true)
    (heldAt : times.heldAt = some entered) (stale : ∀ sent ∈ times.sentAt, sent < entered)
    (before : SentBefore thread times) (ahead : thread.queue.find? (· ≠ .pause) = some .resume) :
    ∃ later final, Transition.Run (Transition.Watched SentTimes.watch Moves) (thread, times) later final ∧
      ¬ HeldFresh final.1 final.2 := by
  induction queue : thread.queue generalizing thread times with
  | nil =>
      rw [queue] at ahead
      cases ahead
  | cons cmd rest ih =>
      obtain ⟨since, control⟩ : ∃ since, thread.control = .held since := by
        cases control : thread.control <;> simp [Control.isHeld, control] at held ⊢
      rw [queue] at ahead
      by_cases pause : cmd = .pause
      · subst pause
        have ignored : thread.Moves .advance { thread with queue := rest } := by
          simp [Moves, step, advance, control, waitForResume, queue]
        have nextHeldAt : (times.watch thread .advance { thread with queue := rest }).heldAt = some entered := by
          simp [SentTimes.watch, control, heldAt]
        have stillHeld : ({ thread with queue := rest } : SequenceThread).control.isHeld = true := held
        obtain ⟨later, final, run, notFresh⟩ := ih stillHeld nextHeldAt
          (fun sent member => stale sent (List.mem_of_mem_drop member)) (before.moves ignored)
          (by simpa using ahead) rfl
        exact ⟨.advance :: later, final, Transition.Run.cons ⟨ignored, rfl⟩ run, notFresh⟩
      · refine ⟨[], (thread, times), Transition.Run.nil _, ?_⟩
        intro fresh
        have resume : cmd = .resume := by simpa [List.find?_cons, pause] using ahead
        subst resume
        obtain ⟨moment, sent, same, first, later⟩ := fresh since rest control queue
        rw [heldAt] at same
        have equal := Option.some.inj same
        subst equal
        exact Nat.lt_asymm later (stale sent (List.mem_of_mem_head? first))

theorem stale_entry_released (before : SentBefore thread times) (stale : ¬ thread.EntersFresh .advance) :
    ∃ later final, Transition.Run (Transition.Watched SentTimes.watch Moves) (thread, times) later final ∧
      ¬ HeldFresh final.1 final.2 := by
  simp only [EntersFresh, ne_eq, forall_const, Classical.not_imp, not_forall, not_not] at stale
  obtain ⟨performing, timedAction, rest, schedule, holds, ahead⟩ := stale
  have enters : thread.Moves .advance ({ thread with schedule := rest }.performAction timedAction) := by
    simp [Moves, step, advance, performing, schedule]
  obtain ⟨events, same⟩ := performs_of_advance performing schedule enters
  rw [if_pos holds] at same
  rw [same] at enters
  have notYet : thread.control.isHeld = false := by simp [performing]
  have entered : (times.watch thread .advance { thread with
      schedule := rest
      executed := thread.executed ++ [⟨thread.phase, timedAction, thread.clock, events⟩]
      control := .held thread.clock }).heldAt = some times.moment := by
    simp [SentTimes.watch, notYet]
  obtain ⟨later, final, run, notFresh⟩ := stale_resume_reached rfl entered
    (by simpa [SentTimes.watch] using before.past) (before.moves enters) ahead
  exact ⟨.advance :: later, final, Transition.Run.cons ⟨enters, rfl⟩ run, notFresh⟩

/-- In a run that enters no hold with a `Resume` ahead in the channel, a hold is released only by a
`Resume` that was sent later. Where it does enter one so, the earlier `Resume` can release it. -/
theorem hold_released_by_later_resume {call : SequenceThread} {moves : List Move}
    (starting : call.control = .start)
    (watched : Transition.Run (Transition.Watched SentTimes.watch Moves) (call, .initially call) moves
      (thread, times)) :
    (Transition.Run (Transition.Watched SentTimes.watch (Transition.Restrict EntersFresh Moves))
      (call, .initially call) moves (thread, times) → HeldFresh thread times) ∧
    (¬ thread.EntersFresh .advance → ∃ later final,
      Transition.Run (Transition.Watched SentTimes.watch Moves) (thread, times) later final ∧
        ¬ HeldFresh final.1 final.2) := by
  constructor
  · intro restricted
    exact (Guarded.run starting restricted).heldFresh
  · intro stale
    exact stale_entry_released (SentBefore.run watched) stale

theorem silent_run_enters_fresh {final : SequenceThread} {moves : List Move}
    (run : Transition.Run Moves thread moves final) (empty : thread.queue = [])
    (silent : ∀ move ∈ moves, ∀ cmd, move ≠ .send cmd) :
    Transition.Run (Transition.Restrict EntersFresh Moves) thread moves final := by
  refine run.restrict (fun state => state.queue = []) _ ?_ empty silent
  intro start move finish nothing noSend moved
  constructor
  · intro _ _ _ _ _ _
    simp [nothing]
  · by_cases own : move = .advance
    · subst own
      rcases advance_queue moved with same | ⟨cmd, split⟩
      · exact same.trans nothing
      · rw [nothing] at split
        cases split
    · obtain ⟨queue, connected, clock, nodeManager, same, unchanged | ⟨cmd, sends, _⟩⟩ :=
        moves_of_ne_advance own moved
      · rw [same]
        exact unchanged.trans nothing
      · exact (noSend cmd sends).elim

theorem hold_released_by_later_resume_holding : ∃ thread times,
    Transition.Run (Transition.Watched SentTimes.watch Moves) (holdingThread, .initially holdingThread)
      [.advance, .advance, .advance, .send .resume] (thread, times) ∧
    thread.control = .held 0 ∧ thread.queue = [.resume] ∧
    ∃ entered sent, times.heldAt = some entered ∧ times.sentAt.head? = some sent ∧ entered < sent := by
  have computed : (holdingThread.replay [.advance, .advance, .advance]).map (fun thread =>
      (thread.control, thread.queue, thread.connected)) = some (.held 0, [], true) := by decide +kernel
  obtain ⟨thread, reached, outcome⟩ := Option.map_eq_some_iff.mp computed
  simp only [Prod.mk.injEq] at outcome
  obtain ⟨control, queue, connected⟩ := outcome
  have quiet := silent_run_enters_fresh (run_iff_replay.mpr reached) rfl (by simp)
  have sends : Transition.Restrict EntersFresh Moves thread (.send .resume)
      { thread with queue := thread.queue ++ [.resume] } := by
    refine ⟨?_, by simp [Moves, step, connected]⟩
    intro impossible
    cases impossible
  have whole := quiet.append (Transition.Run.cons sends (Transition.Run.nil _))
  obtain ⟨times, watched⟩ := whole.watched SentTimes.watch (.initially holdingThread)
  have unrestricted : Transition.Run (Transition.Watched SentTimes.watch Moves)
      (holdingThread, .initially holdingThread) [.advance, .advance, .advance, .send .resume]
      ({ thread with queue := thread.queue ++ [.resume] }, times) :=
    watched.mono fun _ _ _ taken => ⟨taken.1.2, taken.2⟩
  refine ⟨_, times, unrestricted, control, by simp [queue], ?_⟩
  exact (hold_released_by_later_resume rfl unrestricted).1 watched 0 [] control (by simp [queue])

/-- A `Resume` that is sent while the sequence runs and its next hold is already due stays in the
channel and releases the hold. -/
theorem stale_resume_releases_hold :
    ¬ ∀ (seq abortSeq : Sequence) (clock : Instant) (nodeManager : NodeManager) (moves : List Move)
        (thread : SequenceThread) (times : SentTimes), seq.validate = .ok () → abortSeq.validate = .ok () →
      Transition.Run (Transition.Watched SentTimes.watch Moves) (spawn seq abortSeq clock nodeManager,
        .initially (spawn seq abortSeq clock nodeManager)) moves (thread, times) →
      HeldFresh thread times := by
  intro claim
  have valid : holdingSequence.validate = .ok () := by decide
  have computed : (holdingThread.replay [.advance, .send .resume, .advance]).map (fun thread =>
      (thread.control, thread.queue, thread.schedule.head?)) =
      some (.performing, [.resume], some ⟨.finite 0, .hold .always⟩) := by decide +kernel
  obtain ⟨thread, reached, outcome⟩ := Option.map_eq_some_iff.mp computed
  simp only [Prod.mk.injEq] at outcome
  obtain ⟨performing, queue, head⟩ := outcome
  obtain ⟨times, watched⟩ := (run_iff_replay.mpr reached).watched SentTimes.watch (.initially holdingThread)
  have stale : ¬ thread.EntersFresh .advance := by
    intro fresh
    obtain ⟨rest, schedule⟩ := List.head?_eq_some_iff.mp head
    exact fresh rfl performing _ rest schedule rfl (by simp [queue])
  obtain ⟨later, final, run, notFresh⟩ := stale_entry_released (SentBefore.run watched) stale
  exact notFresh (claim _ _ _ _ _ final.1 final.2 valid valid (watched.append run))

end SequenceThread

end FerroFlow
