import FerroFlow.Events
import FerroFlow.Lib.Pacing
import FerroFlow.Lib.Transition

/-! The loop of the heartbeat thread and the clock: when its rounds begin, and what becomes of the rounds
that it is too late for. -/

namespace FerroFlow

open Pacing (Behind Spaced NotBefore)

/-- Where the thread stands inside `spawn_heartbeat_thread`: `spawned` and `due` are before a call of
`dispatch_heartbeat_requests`. -/
inductive Beating
  | spawned
  | opening
  | opened
  | looping (nextHeartbeatAt : Instant)
  | receiving (nextHeartbeatAt wakeAt : Instant)
  | due (nextHeartbeatAt : Instant)
  | dispatching (nextHeartbeatAt : Instant)
  | dispatched (nextHeartbeatAt : Instant)
  | late
  | left
  | panicked
deriving DecidableEq, Repr

/-- The rounds are the clock readings at which the calls of `dispatch_heartbeat_requests` began, the latest
one first. -/
structure HeartbeatThread where
  interval : Duration
  clock : Instant
  queue : List Event
  connected : Bool := true
  control : Beating := .spawned
  rounds : List Instant := []

namespace HeartbeatThread

/-- The thread has been subscribed before, so that events may already wait for it. -/
def spawn (interval : Duration) (clock : Instant) (queue : List Event) : HeartbeatThread where
  interval := interval
  clock := clock
  queue := queue

def beginRound (thread : HeartbeatThread) (control : Beating) : HeartbeatThread :=
  { thread with control, rounds := thread.clock :: thread.rounds }

/-- `recv_timeout` times out on an empty channel once the time has come. -/
def receiveTimeout (thread : HeartbeatThread) (nextHeartbeatAt wakeAt : Instant) : Option HeartbeatThread :=
  match thread.queue with
  | .shutdown :: queue => some { thread with queue, control := .left }
  | _ :: queue => some { thread with queue, control := .looping nextHeartbeatAt }
  | [] =>
      if thread.connected then
        if wakeAt ≤ thread.clock then some { thread with control := .due nextHeartbeatAt } else none
      else some { thread with control := .left }

def advance (thread : HeartbeatThread) : Option HeartbeatThread :=
  match thread.control with
  | .spawned => some (thread.beginRound .opening)
  | .opening => some { thread with control := .opened }
  | .opened =>
      match Instant.after thread.clock thread.interval with
      | .ok nextHeartbeatAt => some { thread with control := .looping nextHeartbeatAt }
      | .error _ => some { thread with control := .panicked }
  | .looping nextHeartbeatAt =>
      -- the difference of two instants is zero where the second is later
      let timeout := nextHeartbeatAt - thread.clock
      some { thread with control := .receiving nextHeartbeatAt (thread.clock + timeout) }
  | .receiving nextHeartbeatAt wakeAt => thread.receiveTimeout nextHeartbeatAt wakeAt
  | .due nextHeartbeatAt => some (thread.beginRound (.dispatching nextHeartbeatAt))
  | .dispatching nextHeartbeatAt =>
      match Instant.after nextHeartbeatAt thread.interval with
      | .ok nextHeartbeatAt => some { thread with control := .dispatched nextHeartbeatAt }
      | .error _ => some { thread with control := .panicked }
  | .dispatched nextHeartbeatAt =>
      if nextHeartbeatAt < thread.clock then some { thread with control := .late }
      else some { thread with control := .looping nextHeartbeatAt }
  | .late => some { thread with control := .looping thread.clock }
  | .left => none
  | .panicked => none

inductive Move
  | advance
  | send (event : Event)
  | disconnect
  | tick (elapsed : ℕ)

def step (thread : HeartbeatThread) : Move → Option HeartbeatThread
  | .advance => thread.advance
  | .send event => if thread.connected then some { thread with queue := thread.queue ++ [event] } else none
  | .disconnect => some { thread with connected := false }
  | .tick elapsed => some { thread with clock := thread.clock + elapsed }

def Moves (thread : HeartbeatThread) (move : Move) (next : HeartbeatThread) : Prop :=
  thread.step move = some next

section Advances

variable {thread next : HeartbeatThread}

inductive Advances (thread : HeartbeatThread) : HeartbeatThread → Prop
  | first : thread.control = .spawned → Advances thread (thread.beginRound .opening)
  | opened : thread.control = .opening → Advances thread { thread with control := .opened }
  | scheduled : thread.control = .opened →
      Advances thread { thread with control := .looping (thread.clock + thread.interval.nanos) }
  | waits {deadline} : thread.control = .looping deadline →
      Advances thread { thread with control := .receiving deadline (thread.clock + (deadline - thread.clock)) }
  | ignored {deadline wakeAt event queue} : thread.control = .receiving deadline wakeAt →
      thread.queue = event :: queue → event ≠ .shutdown →
      Advances thread { thread with queue, control := .looping deadline }
  | timedOut {deadline wakeAt} : thread.control = .receiving deadline wakeAt → thread.queue = [] →
      wakeAt ≤ thread.clock → Advances thread { thread with control := .due deadline }
  | began {deadline} : thread.control = .due deadline →
      Advances thread (thread.beginRound (.dispatching deadline))
  | ended {deadline} : thread.control = .dispatching deadline →
      Advances thread { thread with control := .dispatched (deadline + thread.interval.nanos) }
  | missed {deadline} : thread.control = .dispatched deadline → deadline < thread.clock →
      Advances thread { thread with control := .late }
  | kept {deadline} : thread.control = .dispatched deadline → thread.clock ≤ deadline →
      Advances thread { thread with control := .looping deadline }
  | skipped : thread.control = .late → Advances thread { thread with control := .looping thread.clock }
  | stopped (queue) {control} : control = .left ∨ control = .panicked →
      Advances thread { thread with queue, control }

theorem after_ok {instant later : Instant} {duration : Duration} (added : Instant.after instant duration = .ok later) :
    later = instant + duration.nanos := by
  unfold Instant.after at added
  split at added
  · exact (Except.ok.inj added).symm
  · cases added

theorem advances_receive {deadline wakeAt : Instant} (control : thread.control = .receiving deadline wakeAt)
    (received : thread.receiveTimeout deadline wakeAt = some next) : Advances thread next := by
  simp only [receiveTimeout] at received
  split at received
  · obtain rfl := Option.some.inj received
    exact Advances.stopped _ (Or.inl rfl)
  · rename_i event queue other waiting
    obtain rfl := Option.some.inj received
    exact Advances.ignored control waiting other
  · rename_i empty
    split at received
    · obtain ⟨due, same⟩ := Option.ite_none_right_eq_some.mp received
      obtain rfl := Option.some.inj same
      exact Advances.timedOut control empty due
    · obtain rfl := Option.some.inj received
      exact Advances.stopped _ (Or.inl rfl)

theorem advances_of_advance (advanced : thread.advance = some next) : Advances thread next := by
  cases control : thread.control with
  | spawned =>
      simp only [advance, control, Option.some.injEq] at advanced
      obtain rfl := advanced
      exact Advances.first control
  | opening =>
      simp only [advance, control, Option.some.injEq] at advanced
      obtain rfl := advanced
      exact Advances.opened control
  | opened =>
      simp only [advance, control] at advanced
      split at advanced
      · rename_i later added
        obtain rfl := Option.some.inj advanced
        rw [after_ok added]
        exact Advances.scheduled control
      · obtain rfl := Option.some.inj advanced
        exact Advances.stopped _ (Or.inr rfl)
  | looping deadline =>
      simp only [advance, control, Option.some.injEq] at advanced
      obtain rfl := advanced
      exact Advances.waits control
  | receiving deadline wakeAt =>
      simp only [advance, control] at advanced
      exact advances_receive control advanced
  | due deadline =>
      simp only [advance, control, Option.some.injEq] at advanced
      obtain rfl := advanced
      exact Advances.began control
  | dispatching deadline =>
      simp only [advance, control] at advanced
      split at advanced
      · rename_i later added
        obtain rfl := Option.some.inj advanced
        rw [after_ok added]
        exact Advances.ended control
      · obtain rfl := Option.some.inj advanced
        exact Advances.stopped _ (Or.inr rfl)
  | dispatched deadline =>
      simp only [advance, control] at advanced
      split at advanced
      · rename_i isLate
        obtain rfl := Option.some.inj advanced
        exact Advances.missed control isLate
      · rename_i inTime
        obtain rfl := Option.some.inj advanced
        exact Advances.kept control (Nat.le_of_not_lt inTime)
  | late =>
      simp only [advance, control, Option.some.injEq] at advanced
      obtain rfl := advanced
      exact Advances.skipped control
  | left =>
      simp only [advance, control] at advanced
      cases advanced
  | panicked =>
      simp only [advance, control] at advanced
      cases advanced

theorem moves_cases {move : Move} (moved : thread.Moves move next) :
    Advances thread next ∨ (∃ event, next = { thread with queue := thread.queue ++ [event] }) ∨
      next = { thread with connected := false } ∨ ∃ elapsed, next = { thread with clock := thread.clock + elapsed } := by
  cases move with
  | advance => exact Or.inl (advances_of_advance moved)
  | send event =>
      obtain ⟨_, same⟩ := Option.ite_none_right_eq_some.mp moved
      exact Or.inr (Or.inl ⟨event, (Option.some.inj same).symm⟩)
  | disconnect => exact Or.inr (Or.inr (Or.inl (Option.some.inj moved).symm))
  | tick elapsed => exact Or.inr (Or.inr (Or.inr ⟨elapsed, (Option.some.inj moved).symm⟩))

end Advances

section Paced

variable {thread next : HeartbeatThread} {move : Move}

def Keeps (thread : HeartbeatThread) : Prop :=
  match thread.control with
  | .spawned => thread.rounds = []
  | .opening => thread.rounds.length = 1
  | .opened => thread.rounds.length = 1
  | .looping deadline => Behind thread.interval.nanos 0 deadline thread.rounds
  | .receiving deadline wakeAt => Behind thread.interval.nanos 0 deadline thread.rounds ∧ deadline ≤ wakeAt
  | .due deadline => Behind thread.interval.nanos 0 deadline thread.rounds ∧ deadline ≤ thread.clock
  | .dispatching deadline => Behind thread.interval.nanos 0 deadline thread.rounds.tail
  | .dispatched deadline => Behind thread.interval.nanos 1 deadline thread.rounds.tail
  | .late => Behind thread.interval.nanos 1 thread.clock thread.rounds.tail
  | .left => True
  | .panicked => True

structure Paced (thread : HeartbeatThread) : Prop where
  spaced : Spaced thread.interval.nanos thread.rounds
  past : ∀ begun ∈ thread.rounds, begun ≤ thread.clock
  keeps : thread.Keeps

theorem behind_all {gap limit clock : ℕ} {rounds : List ℕ} (past : ∀ begun ∈ rounds, begun ≤ clock)
    (order : clock ≤ limit) (behind : Behind gap 1 limit rounds.tail) : Behind gap 0 limit rounds := by
  cases rounds with
  | nil => trivial
  | cons latest older =>
      refine ⟨?_, behind⟩
      rw [Nat.zero_mul]
      exact Nat.le_trans (past latest List.mem_cons_self) order

theorem paced_advances (paced : Paced thread) (advances : Advances thread next) : Paced next := by
  obtain ⟨spaced, past, keeps⟩ := paced
  unfold Keeps at keeps
  cases advances with
  | first control =>
      rw [control] at keeps
      unfold beginRound
      rw [keeps]
      exact ⟨⟨trivial, trivial⟩, List.forall_mem_singleton.mpr (Nat.le_refl _), rfl⟩
  | opened control =>
      rw [control] at keeps
      exact ⟨spaced, past, keeps⟩
  | scheduled control =>
      rw [control] at keeps
      refine ⟨spaced, past, behind_all past (Nat.le_add_right _ _) ?_⟩
      rw [List.eq_nil_of_length_eq_zero (l := thread.rounds.tail) (by simp [keeps])]
      trivial
  | waits control =>
      rw [control] at keeps
      exact ⟨spaced, past, keeps, Nat.sub_le_iff_le_add'.mp (Nat.le_refl _)⟩
  | ignored control _ _ =>
      rw [control] at keeps
      exact ⟨spaced, past, keeps.1⟩
  | timedOut control _ reached =>
      rw [control] at keeps
      exact ⟨spaced, past, keeps.1, Nat.le_trans keeps.2 reached⟩
  | began control =>
      rw [control] at keeps
      refine ⟨⟨keeps.1.mono keeps.2, spaced⟩, ?_, keeps.1⟩
      exact List.forall_mem_cons.mpr ⟨Nat.le_refl _, past⟩
  | ended control =>
      rw [control] at keeps
      exact ⟨spaced, past, keeps.advance⟩
  | missed control isLate =>
      rw [control] at keeps
      exact ⟨spaced, past, keeps.mono (Nat.le_of_lt isLate)⟩
  | kept control inTime =>
      rw [control] at keeps
      exact ⟨spaced, past, behind_all past inTime keeps⟩
  | skipped control =>
      rw [control] at keeps
      exact ⟨spaced, past, behind_all past (Nat.le_refl _) keeps⟩
  | stopped _ isOver =>
      rcases isOver with rfl | rfl
      · exact ⟨spaced, past, trivial⟩
      · exact ⟨spaced, past, trivial⟩

theorem paced_tick (paced : Paced thread) (elapsed : ℕ) : Paced { thread with clock := thread.clock + elapsed } := by
  obtain ⟨spaced, past, keeps⟩ := paced
  refine ⟨spaced, fun begun member => Nat.le_add_right_of_le (past begun member), ?_⟩
  unfold Keeps at keeps ⊢
  cases control : thread.control with
  | due deadline =>
      rw [control] at keeps
      exact ⟨keeps.1, Nat.le_add_right_of_le keeps.2⟩
  | late =>
      rw [control] at keeps
      exact keeps.mono (Nat.le_add_right _ _)
  | _ =>
      rw [control] at keeps
      exact keeps

theorem paced_next (paced : Paced thread) (moved : thread.Moves move next) : Paced next := by
  rcases moves_cases moved with advances | ⟨event, rfl⟩ | rfl | ⟨elapsed, rfl⟩
  · exact paced_advances paced advances
  · exact ⟨paced.spaced, paced.past, paced.keeps⟩
  · exact ⟨paced.spaced, paced.past, paced.keeps⟩
  · exact paced_tick paced elapsed

theorem paced_spawn (interval : Duration) (clock : Instant) (queue : List Event) :
    Paced (spawn interval clock queue) where
  spaced := trivial
  past _ member := by cases member
  keeps := rfl

theorem paced_run {interval : Duration} {clock : Instant} {queue : List Event} {moves : List Move}
    (run : Transition.Run Moves (spawn interval clock queue) moves thread) : Paced thread :=
  run.invariant Paced (fun _ _ _ paced moved => paced_next paced moved) (paced_spawn interval clock queue)

theorem interval_next (moved : thread.Moves move next) : next.interval = thread.interval := by
  rcases moves_cases moved with advances | ⟨event, rfl⟩ | rfl | ⟨elapsed, rfl⟩
  · cases advances <;> rfl
  · rfl
  · rfl
  · rfl

end Paced

section Told

variable {thread next finish : HeartbeatThread} {moves : List Move}

/-- The thread does not look at its queue again before it begins its next round. -/
def committed (thread : HeartbeatThread) : Bool :=
  match thread.control with
  | .spawned => true
  | .due _ => true
  | _ => false

def Told (thread : HeartbeatThread) : Prop :=
  .shutdown ∈ thread.queue ∨ thread.control = .left ∨ thread.control = .panicked

def Closing (thread next : HeartbeatThread) : Prop :=
  ∃ begun, next.rounds = begun ++ thread.rounds ∧
    begun.length + next.committed.toNat ≤ thread.committed.toNat

theorem closing_same (rounds : next.rounds = thread.rounds) (committed : next.committed = false) :
    Closing thread next :=
  ⟨[], rounds, by simp [committed]⟩

theorem Closing.then {last : HeartbeatThread} (closing : Closing thread next) (further : Closing next last) :
    Closing thread last := by
  obtain ⟨begun, rounds, fewer⟩ := closing
  obtain ⟨begun', rounds', fewer'⟩ := further
  refine ⟨begun' ++ begun, by rw [rounds', rounds, List.append_assoc], ?_⟩
  rw [List.length_append]
  omega

theorem told_advances (told : thread.Told) (advances : Advances thread next) :
    next.Told ∧ Closing thread next := by
  rcases told with waiting | isOver
  · cases advances with
    | first control => exact ⟨Or.inl waiting, [thread.clock], rfl, by simp [committed, beginRound, control]⟩
    | began control => exact ⟨Or.inl waiting, [thread.clock], rfl, by simp [committed, beginRound, control]⟩
    | ignored _ queue other =>
        rw [queue, List.mem_cons] at waiting
        exact ⟨Or.inl (waiting.resolve_left fun same => other same.symm), closing_same rfl rfl⟩
    | timedOut _ empty _ =>
        rw [empty] at waiting
        cases waiting
    | stopped _ isOver =>
        refine ⟨Or.inr isOver, closing_same rfl ?_⟩
        rcases isOver with rfl | rfl <;> rfl
    | _ => exact ⟨Or.inl waiting, closing_same rfl rfl⟩
  · cases advances with
    | stopped _ isOver =>
        refine ⟨Or.inr isOver, closing_same rfl ?_⟩
        rcases isOver with rfl | rfl <;> rfl
    | first control | opened control | scheduled control | waits control | ignored control | timedOut control
    | began control | ended control | missed control | kept control | skipped control =>
        rw [control] at isOver
        simp at isOver

theorem told_next {move : Move} (told : thread.Told) (moved : thread.Moves move next) :
    next.Told ∧ Closing thread next := by
  rcases moves_cases moved with advances | ⟨event, rfl⟩ | rfl | ⟨elapsed, rfl⟩
  · exact told_advances told advances
  · exact ⟨told.imp_left (List.mem_append_left _), [], rfl, by simp [committed]⟩
  · exact ⟨told, [], rfl, by simp [committed]⟩
  · exact ⟨told, [], rfl, by simp [committed]⟩

theorem told_run (told : thread.Told) (run : Transition.Run Moves thread moves finish) :
    Closing thread finish := by
  have kept := run.invariant (fun state => state.Told ∧ Closing thread state)
    (fun start move after before moved => by
      obtain ⟨told, further⟩ := told_next before.1 moved
      exact ⟨told, before.2.then further⟩) ⟨told, [], rfl, by simp⟩
  exact kept.2

end Told

section Grid

variable {thread next finish : HeartbeatThread} {start gap : ℕ} {since : List Instant}

def deadline? (thread : HeartbeatThread) : Option Instant :=
  match thread.control with
  | .looping deadline => some deadline
  | .receiving deadline _ => some deadline
  | .due deadline => some deadline
  | .dispatching deadline => some (deadline + thread.interval.nanos)
  | .dispatched deadline => some deadline
  | _ => none

def inTime (thread : HeartbeatThread) : Bool :=
  thread.control ≠ .late

structure OnGrid (gap start : ℕ) (since : List Instant) (thread : HeartbeatThread) : Prop where
  paced : thread.Paced
  begun : thread.control ∉ [.spawned, .opening, .opened]
  interval : thread.interval.nanos = gap
  rounds : ∃ begun, thread.rounds = begun ++ since ∧ NotBefore gap start begun ∧
    ∀ deadline, thread.deadline? = some deadline → deadline = start + begun.length * gap

theorem onGrid_advances (onGrid : OnGrid gap start since thread) (inTime : thread.control ≠ .late)
    (advances : Advances thread next) : OnGrid gap start since next := by
  obtain ⟨paced, opened, interval, begun, rounds, notBefore, due⟩ := onGrid
  have paced' := paced_advances paced advances
  unfold deadline? at due
  cases advances with
  | first control => simp [control] at opened
  | opened control => simp [control] at opened
  | scheduled control => simp [control] at opened
  | waits control =>
      rw [control] at due
      exact ⟨paced', by simp, interval, begun, rounds, notBefore, due⟩
  | ignored control _ _ =>
      rw [control] at due
      exact ⟨paced', by simp, interval, begun, rounds, notBefore, due⟩
  | timedOut control _ _ =>
      rw [control] at due
      exact ⟨paced', by simp, interval, begun, rounds, notBefore, due⟩
  | @began deadline control =>
      rw [control] at due
      have same := due deadline rfl
      have keeps := paced.keeps
      unfold Keeps at keeps
      rw [control] at keeps
      have first : start + begun.length * gap ≤ thread.clock := same ▸ keeps.2
      refine ⟨paced', by simp [beginRound], interval, thread.clock :: begun, congrArg (List.cons _) rounds,
        ⟨first, notBefore⟩, ?_⟩
      intro later equal
      obtain rfl := Option.some.inj equal
      rw [same, show (thread.beginRound _).interval = thread.interval from rfl, interval, List.length_cons, Nat.succ_mul,
        Nat.add_assoc]
  | ended control =>
      rw [control] at due
      exact ⟨paced', by simp, interval, begun, rounds, notBefore, due⟩
  | missed control _ =>
      refine ⟨paced', by simp, interval, begun, rounds, notBefore, ?_⟩
      intro deadline impossible
      cases impossible
  | kept control _ =>
      rw [control] at due
      exact ⟨paced', by simp, interval, begun, rounds, notBefore, due⟩
  | skipped control => exact absurd control inTime
  | stopped _ isOver =>
      rcases isOver with rfl | rfl
      · exact ⟨paced', by simp, interval, begun, rounds, notBefore, fun _ impossible => by cases impossible⟩
      · exact ⟨paced', by simp, interval, begun, rounds, notBefore, fun _ impossible => by cases impossible⟩

theorem onGrid_next {move : Move} (onGrid : OnGrid gap start since thread) (inTime : thread.control ≠ .late)
    (moved : thread.Moves move next) : OnGrid gap start since next := by
  have paced := paced_next onGrid.paced moved
  rcases moves_cases moved with advances | ⟨event, rfl⟩ | rfl | ⟨elapsed, rfl⟩
  · exact onGrid_advances onGrid inTime advances
  · exact ⟨paced, onGrid.begun, onGrid.interval, onGrid.rounds⟩
  · exact ⟨paced, onGrid.begun, onGrid.interval, onGrid.rounds⟩
  · exact ⟨paced, onGrid.begun, onGrid.interval, onGrid.rounds⟩

theorem onGrid_run {moves : List Move} {deadline : Instant} (paced : thread.Paced)
    (looping : thread.control = .looping deadline)
    (run : Transition.Run (Transition.Restrict (fun thread _ => thread.inTime = true) Moves) thread moves finish) :
    OnGrid thread.interval.nanos deadline thread.rounds finish := by
  refine run.invariant (OnGrid thread.interval.nanos deadline thread.rounds) ?_ ?_
  · rintro before move after onGrid ⟨inTime, moved⟩
    exact onGrid_next onGrid (by simpa [HeartbeatThread.inTime] using inTime) moved
  · refine ⟨paced, by simp [looping], rfl, [], rfl, trivial, ?_⟩
    intro later equal
    unfold deadline? at equal
    rw [looping] at equal
    rw [← Option.some.inj equal, List.length_nil, Nat.zero_mul, Nat.add_zero]

end Grid

/-- From every round, the round after the next begins at least an interval later, so that no window of time
holds more rounds than intervals, and two; while no round ends late the rounds keep to the grid of the first
deadline; and once a shutdown waits, only the round that the thread is committed to still begins. -/
theorem heartbeat_paced {interval : Duration} {clock : Instant} {queue : List Event} {moves : List Move}
    {thread : HeartbeatThread} (run : Transition.Run Moves (spawn interval clock queue) moves thread) :
    Spaced interval.nanos thread.rounds ∧
    (0 < interval.nanos → ∀ first length, thread.rounds.countP (fun begun => first ≤ begun ∧ begun ≤ first + length) ≤
      length / interval.nanos + 2) ∧
    (∀ deadline, thread.control = .looping deadline → ∀ later finish,
      Transition.Run (Transition.Restrict (fun thread _ => thread.inTime = true) Moves) thread later finish →
      ∃ begun, finish.rounds = begun ++ thread.rounds ∧ NotBefore interval.nanos deadline begun ∧
        ∀ next, finish.deadline? = some next → next = deadline + begun.length * interval.nanos) ∧
    (.shutdown ∈ thread.queue → ∀ later finish, Transition.Run Moves thread later finish →
      ∃ begun, finish.rounds = begun ++ thread.rounds ∧ begun.length ≤ thread.committed.toNat) := by
  have paced := paced_run run
  have same : thread.interval = interval :=
    run.invariant (fun state => state.interval = interval)
      (fun _ _ _ before moved => (interval_next moved).trans before)
      rfl
  refine ⟨same ▸ paced.spaced,
    fun positive first length => (same ▸ paced.spaced).count_le positive first length, ?_, ?_⟩
  · intro deadline looping later finish rest
    exact same ▸ (onGrid_run paced looping rest).rounds
  · intro waiting later finish rest
    obtain ⟨begun, rounds, fewer⟩ := told_run (Or.inl waiting) rest
    exact ⟨begun, rounds, Nat.le_of_add_right_le fewer⟩

/-- The second round begins late and the third later still; the thread skips to the present. -/
def lateRounds : List Move := [
  .advance, .advance, .advance, .advance, .tick 12, .advance, .advance, .advance, .advance, .advance, .tick 20,
  .advance, .advance, .advance, .tick 1, .advance, .advance]

def toldLate : List Move := [.advance, .tick 11, .advance, .send .shutdown]

def lastRound : List Move := [.advance, .advance, .advance, .advance, .advance, .advance]

theorem lateRounds_run : ∃ thread told finish,
    Transition.Run Moves (spawn ⟨10⟩ 0 []) lateRounds thread ∧ thread.rounds = [32, 12, 0] ∧
    thread.control = .looping 33 ∧ Transition.Run Moves thread toldLate told ∧ told.control = .due 33 ∧
    told.queue = [.shutdown] ∧ Transition.Run Moves told lastRound finish ∧ finish.rounds = [44, 32, 12, 0] ∧
    finish.control = .left :=
  ⟨_, _, _, Transition.run_iff_foldlM.mpr rfl, rfl, rfl, Transition.run_iff_foldlM.mpr rfl, rfl, rfl,
    Transition.run_iff_foldlM.mpr rfl, rfl, rfl⟩

theorem heartbeat_paced_late : ∃ thread told finish,
    Transition.Run Moves (spawn ⟨10⟩ 0 []) lateRounds thread ∧ thread.rounds = [32, 12, 0] ∧
    thread.control = .looping 33 ∧ Spaced 10 thread.rounds ∧
    thread.rounds.countP (fun begun => 0 ≤ begun ∧ begun ≤ 0 + 12) ≤ 12 / 10 + 2 ∧
    Transition.Run Moves thread toldLate told ∧ told.queue = [.shutdown] ∧
    Transition.Run Moves told lastRound finish ∧ finish.rounds = [44, 32, 12, 0] ∧ finish.control = .left ∧
    ∃ begun, finish.rounds = begun ++ told.rounds ∧ begun.length ≤ 1 := by
  obtain ⟨thread, told, finish, run, rounds, control, toldRun, due, queue, lastRun, rounds', left⟩ := lateRounds_run
  obtain ⟨spaced, counted, _⟩ := heartbeat_paced run
  obtain ⟨_, _, _, closing⟩ := heartbeat_paced (run.append toldRun)
  obtain ⟨begun, same, fewer⟩ := closing (by simp [queue]) lastRound finish lastRun
  rw [committed, due] at fewer
  exact ⟨thread, told, finish, run, rounds, control, spaced, counted (by decide) 0 12, toldRun, queue, lastRun, rounds',
    left, begun, same, fewer⟩

end HeartbeatThread

end FerroFlow
