import FerroFlow.Lib.Fairness
import FerroFlow.Progress
import Mathlib.Data.Prod.Lex

/-! Nobody waits for ever: with a shutdown in its queue a worker can always go on towards its end, and comes
to it unless it is neglected. -/

namespace FerroFlow

namespace Server

def Act.thread : Act → Thread
  | other act => act.thread
  | handle _ _ _ => .worker .canMsgHandler
  | endHandling => .worker .canMsgHandler
  | manage .store => .worker .canMsgHandler
  | manage _ => .worker .heartbeat
  | dispatchLog => .worker .canMsgHandler
  | dispatchRequest => .worker .heartbeat
  | endBeating => .worker .heartbeat
  | record _ => .worker .databaseLogger
  | flush _ => .worker .databaseLogger
  | leave worker => .worker worker

def atWork (config : Config) (state : Server) : Worker → ℕ
  | .canSend => state.traffic.toWrite config
  | .canMsgHandler => state.threads.toStore
  | .heartbeat => (if state.opening then 258 else 0) + state.threads.toVisit
  | _ => 0

def toDispatch (state : Server) : Worker → ℕ
  | .canMsgHandler => state.threads.logged.length - state.logsSent
  | .heartbeat => state.threads.requested.length - state.requestsSent
  | _ => 0

def work (config : Config) (worker : Worker) (state : Server) : ℕ ×ₗ ℕ ×ₗ ℕ :=
  toLex (state.atWork config worker,
    toLex (state.toDispatch worker, state.traffic.startUp.dispatching.ahead (.worker worker)))

def distance (config : Config) (worker : Worker) (state : Server) : ℕ ×ₗ ℕ ×ₗ ℕ ×ₗ ℕ ×ₗ ℕ :=
  toLex (state.traffic.startUp.toSubscribe,
    toLex (Consumer.toTake endsWorker (state.traffic.inbox worker) (state.position worker), state.work config worker))

structure Stopping (worker : Worker) (state : Server) : Prop where
  spawned : worker ∈ state.traffic.startUp.spawned
  asked : ∃ entry ∈ state.traffic.inbox worker, endsWorker entry = true
  running : state.runs worker = true

section Keeps

variable {config : Config} {framing : LiquidCanFraming} {liquidCan : LiquidCan} {state after : Server} {act : Act}
  {worker : Worker}

structure Keeps (config : Config) (worker : Worker) (state after : Server) : Prop where
  position : after.position worker = state.position worker
  atWork : after.atWork config worker = state.atWork config worker
  toDispatch : after.toDispatch worker = state.toDispatch worker

theorem Keeps.of_traffic {traffic : CanTraffic} {logsSent requestsSent : ℕ}
    (kept : CanTraffic.Keeps worker state.traffic traffic)
    (logs : worker = .canMsgHandler → logsSent = state.logsSent)
    (requests : worker = .heartbeat → requestsSent = state.requestsSent) :
    Keeps config worker state { state with traffic, logsSent, requestsSent } := by
  cases worker with
  | canSend =>
      refine ⟨kept.taken, ?_, rfl⟩
      simp only [Server.atWork, CanTraffic.toWrite, kept.sending rfl]
  | canMsgHandler =>
      refine ⟨rfl, rfl, ?_⟩
      simp only [Server.toDispatch, logs rfl]
  | heartbeat =>
      refine ⟨rfl, rfl, ?_⟩
      simp only [Server.toDispatch, requests rfl]
  | databaseLogger => exact ⟨rfl, rfl, rfl⟩
  | _ => exact ⟨kept.taken, rfl, rfl⟩

theorem Keeps.of_handler {threads : ManagerThreads} {handled : ℕ} {seen : ManagerThreads.Act}
    (moved : ManagerThreads.Steps liquidCan state.threads seen threads) (handles : seen.handles = true ∨ seen = .store)
    (other : worker ≠ .canMsgHandler) (opening : Bool) (same : opening = state.opening) :
    Keeps config worker state { state with threads, handled, opening } := by
  subst same
  obtain ⟨round, requested⟩ := ManagerThreads.handler_keeps moved handles
  cases worker with
  | canMsgHandler => exact absurd rfl other
  | heartbeat =>
      refine ⟨rfl, ?_, ?_⟩
      · simp only [Server.atWork, ManagerThreads.toVisit, round]
      · simp only [Server.toDispatch, requested]
  | _ => exact ⟨rfl, rfl, rfl⟩

theorem Keeps.of_beats {threads : ManagerThreads} {seen : ManagerThreads.Act}
    (moved : ManagerThreads.Steps liquidCan state.threads seen threads) (beats : seen.handles = false)
    (stores : seen ≠ .store) (other : worker ≠ .heartbeat) (opening : Bool) :
    Keeps config worker state { state with threads, opening } := by
  obtain ⟨storing, logged⟩ := ManagerThreads.beats_keep moved beats stores
  cases worker with
  | canMsgHandler =>
      refine ⟨rfl, ?_, ?_⟩
      · simp only [Server.atWork, ManagerThreads.toStore, storing]
      · simp only [Server.toDispatch, logged]
  | heartbeat => exact absurd rfl other
  | _ => exact ⟨rfl, rfl, rfl⟩

theorem handles_of_allowed {seen : ManagerThreads.Act} (allowed : state.mayManage seen = true) :
    seen.handles = false := by
  cases seen <;> first | rfl | cases allowed

theorem thread_of_beats {seen : ManagerThreads.Act} (stores : seen ≠ .store) :
    (Act.manage seen).thread = .worker .heartbeat := by
  cases seen <;> first | rfl | exact absurd rfl stores

theorem keeps_of_other (stepped : Steps config framing liquidCan state act after)
    (other : act.thread ≠ .worker worker) : Keeps config worker state after := by
  have apart {reader : Worker} (own : act.thread = .worker reader) : worker ≠ reader := by
    rintro rfl
    exact other own
  cases effect_of_steps stepped with
  | other _ moved => exact Keeps.of_traffic (CanTraffic.keeps_of_other moved other) (fun _ => rfl) fun _ => rfl
  | handle moved _ _ _ => exact Keeps.of_handler moved (Or.inl rfl) (apart rfl) _ rfl
  | endHandling _ _ _ _ =>
      have different := apart rfl
      cases worker <;> first | exact absurd rfl different | exact ⟨rfl, rfl, rfl⟩
  | @manage seen threads allowed moved =>
      by_cases stores : seen = .store
      · subst stores
        exact Keeps.of_handler moved (Or.inr rfl) (apart rfl) _ (by simp [beginsRound])
      · exact Keeps.of_beats moved (handles_of_allowed allowed) stores (apart (thread_of_beats stores)) _
  | dispatchLog _ moved =>
      exact Keeps.of_traffic (CanTraffic.keeps_of_other moved other) (fun same => absurd same (apart rfl)) fun _ => rfl
  | dispatchRequest _ moved =>
      exact Keeps.of_traffic (CanTraffic.keeps_of_other moved other) (fun _ => rfl) fun same => absurd same (apart rfl)
  | endBeating _ _ _ =>
      have different := apart rfl
      cases worker <;> first | exact absurd rfl different | exact ⟨rfl, rfl, rfl⟩
  | record _ _ =>
      have different := apart rfl
      cases worker <;> first | exact absurd rfl different | exact ⟨rfl, rfl, rfl⟩
  | flush _ _ =>
      have different := apart rfl
      cases worker <;> first | exact absurd rfl different | exact ⟨rfl, rfl, rfl⟩
  | leave _ moved => exact Keeps.of_traffic (CanTraffic.keeps_of_other moved other) (fun _ => rfl) fun _ => rfl

end Keeps

section Comes

variable {config : Config} {framing : LiquidCanFraming} {liquidCan : LiquidCan} {state after : Server} {act : Act}
  {worker : Worker}

theorem position_of_isCan (reads : worker.isCan = true) : state.position worker = state.traffic.taken worker := by
  cases worker <;> first | rfl | cases reads

theorem comes_of_advances (reads : worker.isCan = true)
    (advances : CanTraffic.Advances state.traffic after.traffic worker) :
    Comes state after worker := by
  have running : state.runs worker = decide (worker ∉ state.traffic.ended) := runs_of_isCan reads
  have later : after.runs worker = decide (worker ∉ after.traffic.ended) := runs_of_isCan reads
  unfold Comes
  rw [position_of_isCan reads, position_of_isCan reads, running, later]
  rcases advances with ⟨taken, ended⟩ | ⟨entry, pending, _, looping, taken, ended⟩
  · exact Or.inl ⟨taken, decide_eq_decide.mpr (not_congr ended)⟩
  · refine Or.inr ⟨entry, pending, decide_eq_true looping, taken, ?_⟩
    cases last : endsWorker entry <;> simp [ended, last]

theorem comes_next (stepped : Steps config framing liquidCan state act after) (apart : worker ≠ .sequenceRunner) :
    Comes state after worker := by
  by_cases reads : worker.isCan = true
  · refine comes_of_advances reads ?_
    cases effect_of_steps stepped with
    | other _ moved => exact CanTraffic.advances_next moved worker
    | dispatchLog _ moved => exact CanTraffic.advances_next moved worker
    | dispatchRequest _ moved => exact CanTraffic.advances_next moved worker
    | leave _ moved => exact CanTraffic.advances_next moved worker
    | _ => exact CanTraffic.advances_still rfl rfl worker
  · cases worker with
    | databaseLogger => exact comes_logger stepped
    | canMsgHandler => exact comes_handler stepped
    | heartbeat => exact comes_heartbeat stepped
    | sequenceRunner => exact absurd rfl apart
    | _ => exact absurd rfl reads

theorem still_next (stepped : Steps config framing liquidCan state act after) :
    after.traffic.startUp.toSubscribe < state.traffic.startUp.toSubscribe ∨
      StartUp.Still act.thread state.traffic.startUp after.traffic.startUp := by
  cases effect_of_steps stepped with
  | other _ moved => exact CanTraffic.still_next moved
  | dispatchLog _ moved => exact CanTraffic.still_next moved
  | dispatchRequest _ moved => exact CanTraffic.still_next moved
  | leave _ moved => exact CanTraffic.still_next moved
  | _ => exact Or.inr (StartUp.still_refl _ _)

end Comes

section Own

variable {config : Config} {framing : LiquidCanFraming} {liquidCan : LiquidCan} {state after : Server} {act : Act}
  {worker : Worker}

theorem work_of_atWork (less : after.atWork config worker < state.atWork config worker) :
    after.work config worker < state.work config worker :=
  Prod.Lex.toLex_lt_toLex.mpr (Or.inl less)

theorem work_of_toDispatch (same : after.atWork config worker = state.atWork config worker)
    (less : after.toDispatch worker < state.toDispatch worker) : after.work config worker < state.work config worker :=
  Prod.Lex.toLex_lt_toLex.mpr (Or.inr ⟨same, Prod.Lex.toLex_lt_toLex.mpr (Or.inl less)⟩)

theorem work_of_ahead (kept : Keeps config worker state after)
    (less : after.traffic.startUp.dispatching.ahead (.worker worker) <
      state.traffic.startUp.dispatching.ahead (.worker worker)) : after.work config worker < state.work config worker :=
  Prod.Lex.toLex_lt_toLex.mpr (Or.inr ⟨kept.atWork, Prod.Lex.toLex_lt_toLex.mpr (Or.inr ⟨kept.toDispatch, less⟩)⟩)

/-- What a worker's own step comes to: it ends, takes the next event, or has less to do than before. -/
inductive Nearer (config : Config) (worker : Worker) (state after : Server) : Prop
  | ended : after.runs worker = false → Nearer config worker state after
  | taken : after.position worker = state.position worker + 1 → Nearer config worker state after
  | worked : after.work config worker < state.work config worker → Nearer config worker state after

theorem runner_of_free {seen : StartUp.Act} (free : CanTraffic.isFree seen = true)
    (outside : isOutside (.other seen) = true) (own : seen.thread = .worker worker) :
    worker = .sequenceRunner ∨ seen = .send (.worker worker) ∨ seen = .finish (.worker worker) := by
  cases seen with
  | proceed instruction => cases own
  | fail => cases own
  | runnerSubscribes => exact Or.inl (Thread.worker.inj own).symm
  | start thread event =>
      obtain rfl : thread = .worker worker := own
      cases worker with
      | sequenceRunner => exact Or.inl rfl
      | canRecv index => cases free
      | canSend => cases free
      | _ => cases outside
  | send thread =>
      obtain rfl : thread = .worker worker := own
      exact Or.inr (Or.inl rfl)
  | finish thread =>
      obtain rfl : thread = .worker worker := own
      exact Or.inr (Or.inr rfl)
  | close closing =>
      obtain rfl : closing = worker := Thread.worker.inj own
      cases closing with
      | sequenceRunner => exact Or.inl rfl
      | canRecv index => cases free
      | canSend => cases free
      | _ => cases outside

theorem nearer_of_traffic {seen : CanTraffic.Act} {traffic : CanTraffic} (outside : isOutside seen = true)
    (moved : CanTraffic.Steps config framing state.traffic seen traffic) (own : seen.thread = .worker worker)
    (apart : worker ≠ .sequenceRunner) (ending : Ending state) (running : state.runs worker = true)
    {entry : Thread × Event} (following : (state.traffic.inbox worker)[state.position worker]? = some entry) :
    Nearer config worker state { state with traffic } := by
  cases seen with
  | other seen =>
      have free : CanTraffic.isFree seen = true := (Option.ite_none_right_eq_some.mp moved).1
      have kept : Keeps config worker state { state with traffic } :=
        Keeps.of_traffic (CanTraffic.keeps_of_startUp moved worker) (fun _ => rfl) fun _ => rfl
      refine Nearer.worked (work_of_ahead kept (CanTraffic.ahead_of_own moved ?_))
      rcases (runner_of_free free outside own).resolve_left apart with rfl | rfl
      · exact Or.inl rfl
      · exact Or.inr rfl
  | receive index read =>
      obtain rfl : Worker.canRecv index = worker := Thread.worker.inj own
      have taken := (CanTraffic.receive_polls moved).2
      have pending : state.traffic.pending (.canRecv index) = some entry := following
      rw [pending, Option.isSome_some, if_pos rfl] at taken
      exact Nearer.taken ((congrFun taken _).trans (CanTraffic.taken_advance_self _ _))
  | stopReceiving index =>
      obtain rfl : Worker.canRecv index = worker := Thread.worker.inj own
      simp only [CanTraffic.Steps, CanTraffic.next, CanTraffic.stopReceiving, Option.ite_none_right_eq_some,
        Option.some.injEq] at moved
      obtain ⟨_, rfl⟩ := moved
      exact Nearer.ended (by simp [runs])
  | take =>
      obtain rfl : Worker.canSend = worker := Thread.worker.inj own
      have taken := (CanTraffic.being_of_take framing moved).choose_spec.choose_spec.2.2.2.1
      exact Nearer.taken taken
  | write succeeds =>
      obtain rfl : Worker.canSend = worker := Thread.worker.inj own
      exact Nearer.worked (work_of_atWork (CanTraffic.toWrite_write moved))
  | nextEvent =>
      obtain rfl : Worker.canSend = worker := Thread.worker.inj own
      exact Nearer.worked (work_of_atWork (CanTraffic.toWrite_nextEvent moved))
  | leave leaver =>
      obtain rfl : leaver = worker := Thread.worker.inj own
      have ended : leaver ∈ state.traffic.ended := (Option.ite_none_right_eq_some.mp moved).1
      rw [runs_of_isCan (ending.readers leaver ended)] at running
      exact absurd ended (of_decide_eq_true running)

theorem nearer_of_manage {seen : ManagerThreads.Act} {threads : ManagerThreads} (allowed : state.mayManage seen = true)
    (moved : ManagerThreads.Steps liquidCan state.threads seen threads) (own : (Act.manage seen).thread = .worker worker)
    {entry : Thread × Event} (following : (state.traffic.inbox worker)[state.position worker]? = some entry)
    (running : state.runs worker = true) :
    Nearer config worker state { state with threads, opening := state.opening && !beginsRound seen } := by
  apply Nearer.worked
  apply work_of_atWork
  by_cases stores : seen = .store
  · subst stores
    obtain rfl : Worker.canMsgHandler = worker := Thread.worker.inj own
    exact ManagerThreads.toStore_store moved
  · obtain rfl : Worker.heartbeat = worker := Thread.worker.inj ((thread_of_beats stores).symm.trans own)
    by_cases begins : seen = .beginRound
    · subst begins
      have beating : state.beating = true := running
      have first : state.position .heartbeat = 0 := if_pos beating
      rw [first] at following
      have opening : state.heartbeatReady = true ∧ state.opening = true := by
        simpa [mayManage, nextFor, following] using allowed
      have bounded := ManagerThreads.toVisit_lt threads
      simp only [Server.atWork, opening.2, beginsRound, Bool.not_true, Bool.and_false, Bool.false_eq_true, ↓reduceIte]
      omega
    · have nearer := ManagerThreads.toVisit_next moved (handles_of_allowed allowed) stores begins
      have still : beginsRound seen = false := by
        cases seen <;> first | rfl | exact absurd rfl begins
      simp only [Server.atWork, still, Bool.not_false, Bool.and_true]
      omega

theorem nearer_of_own (stepped : Steps config framing liquidCan state act after) (own : act.thread = .worker worker)
    (apart : worker ≠ .sequenceRunner) (ending : Ending state) (stopping : Stopping worker state) :
    Nearer config worker state after := by
  have running := stopping.running
  have ends := ending.ends worker
  unfold Ends at ends
  rw [running] at ends
  obtain ⟨entry, following⟩ := ends.following stopping.asked
  cases effect_of_steps stepped with
  | other outside moved => exact nearer_of_traffic outside moved own apart ending running following
  | handle _ _ _ _ =>
      obtain rfl : Worker.canMsgHandler = worker := Thread.worker.inj own
      exact Nearer.taken rfl
  | endHandling _ _ _ _ =>
      obtain rfl : Worker.canMsgHandler = worker := Thread.worker.inj own
      exact Nearer.ended rfl
  | manage allowed moved => exact nearer_of_manage allowed moved own following running
  | dispatchLog due _ =>
      obtain rfl : Worker.canMsgHandler = worker := Thread.worker.inj own
      obtain ⟨inner, _⟩ := List.getElem?_eq_some_iff.mp due
      refine Nearer.worked (work_of_toDispatch rfl ?_)
      simp only [Server.toDispatch]
      omega
  | dispatchRequest due _ =>
      obtain rfl : Worker.heartbeat = worker := Thread.worker.inj own
      obtain ⟨inner, _⟩ := List.getElem?_eq_some_iff.mp due
      refine Nearer.worked (work_of_toDispatch rfl ?_)
      simp only [Server.toDispatch]
      omega
  | endBeating _ _ _ =>
      obtain rfl : Worker.heartbeat = worker := Thread.worker.inj own
      exact Nearer.ended rfl
  | record _ _ =>
      obtain rfl : Worker.databaseLogger = worker := Thread.worker.inj own
      exact Nearer.taken rfl
  | flush silent _ =>
      obtain rfl : Worker.databaseLogger = worker := Thread.worker.inj own
      have following : (state.traffic.inbox .databaseLogger)[state.recorded]? = some entry := following
      simp [nextFor, following] at silent
  | leave left _ =>
      obtain rfl := Thread.worker.inj own
      rw [runs_of_hasLeft left] at running
      cases running

end Own

section GoesOn

variable {config : Config} {framing : LiquidCanFraming} {liquidCan : LiquidCan} {mapping : Mapping}
  {state after : Server} {act : Act} {worker : Worker}

structure Sane (config : Config) (framing : LiquidCanFraming) (state : Server) : Prop where
  ending : Ending state
  accounts : ∃ journal, Accounts config framing state journal
  due : state.threads.Due

theorem sane_new (config : Config) (framing : LiquidCanFraming) (mapping : Mapping) :
    Sane config framing (new config mapping) where
  ending := ending_new config mapping
  accounts := ⟨[], accounts_new config framing mapping⟩
  due round busy := by cases busy

theorem sane_next (sane : Sane config framing state) (stepped : Steps config framing liquidCan state act after) :
    Sane config framing after where
  ending := ending_next sane.ending stepped
  accounts := by
    obtain ⟨journal, accounts⟩ := sane.accounts
    exact ⟨_, accounts_next accounts stepped⟩
  due := by
    have moved := threads_next stepped
    split at moved
    · exact ManagerThreads.due_next sane.due moved
    · rw [moved]
      exact sane.due

theorem Sane.wanted (sane : Sane config framing state) {worker : Worker} {entry : Thread × Event}
    (member : entry ∈ state.traffic.inbox worker) : (worker.listener config.canBusInterfaces).wants entry.2 = true := by
  obtain ⟨journal, accounts⟩ := sane.accounts
  have invariant := StartUp.invariant_run (CanTraffic.startUp_run accounts.traffic) (StartUp.invariant_new config)
  exact invariant.wanted member

theorem Sane.inside (sane : Sane config framing state) : state.traffic.startUp.dispatching.Inside := by
  obtain ⟨journal, accounts⟩ := sane.accounts
  exact StartUp.inside_run (CanTraffic.startUp_run accounts.traffic)

theorem steps_of_traffic {seen : CanTraffic.Act} {traffic : CanTraffic} (outside : isOutside seen = true)
    (moved : CanTraffic.Steps config framing state.traffic seen traffic) :
    Steps config framing liquidCan state (.other seen) { state with traffic } := by
  have moved : state.traffic.next config framing seen = some traffic := moved
  simp only [Steps, next, outside, moved, ↓reduceIte, Option.map_some]

def Act.handsOn (thread : Thread) : Act → Prop
  | other (.other (.send sender)) => sender = thread
  | other (.other (.finish finisher)) => finisher = thread
  | _ => False

theorem thread_of_handsOn {thread : Thread} (hands : act.handsOn thread) : act.thread = thread := by
  unfold Act.handsOn at hands
  split at hands
  · exact hands
  · exact hands
  · cases hands

theorem walks_on (sane : Sane config framing state) {thread : Thread} {walk : Event × ℕ}
    (walking : state.traffic.startUp.dispatching.walks.lookup thread = some walk) :
    ∃ act after, act.handsOn thread ∧ Steps config framing liquidCan state act after := by
  obtain ⟨seen, traffic, own, moved⟩ : ∃ act after, (act = .send thread ∨ act = .finish thread) ∧
    CanTraffic.Steps config framing state.traffic (.other act) after := CanTraffic.walks_on sane.inside walking
  rcases own with rfl | rfl
  · exact ⟨.other (.other (.send thread)), _, rfl, steps_of_traffic rfl moved⟩
  · exact ⟨.other (.other (.finish thread)), _, rfl, steps_of_traffic rfl moved⟩

theorem steps_of_start {event : Event} (free : CanTraffic.isFree (.start (.worker worker) event) = true)
    (spawned : worker ∈ state.traffic.startUp.spawned) (apart : worker ≠ .sequenceRunner)
    (idle : state.traffic.startUp.dispatching.walks.lookup (.worker worker) = none) :
    ∃ traffic, state.dispatchFrom config framing worker event = some traffic := by
  have allowed : state.traffic.startUp.allows (.start (.worker worker) event) = true := by
    simp [StartUp.allows, StartUp.isRunning, spawned, apart]
  simp [dispatchFrom, CanTraffic.next, free, CanTraffic.stepOther, StartUp.next, StartUp.dispatch, StartUp.Act.move?,
    Broadcast.State.next, allowed, idle]

theorem isOutside_of_thread {seen : CanTraffic.Act} (apart : ∀ other, seen ≠ .other other) : isOutside seen = true := by
  cases seen <;> first | rfl | exact absurd rfl (apart _)

structure Free (worker : Worker) (state : Server) (entry : Thread × Event) : Prop where
  spawned : worker ∈ state.traffic.startUp.spawned
  running : state.runs worker = true
  idle : state.traffic.startUp.dispatching.walks.lookup (.worker worker) = none
  following : (state.traffic.inbox worker)[state.position worker]? = some entry

variable {entry : Thread × Event}

theorem Free.looping (free : Free worker state entry) (reads : worker.isCan = true) :
    state.traffic.isLooping worker = true := by
  have running := free.running
  rw [runs_of_isCan reads] at running
  simp only [CanTraffic.isLooping, free.spawned, free.idle, of_decide_eq_true running, Option.isNone_none,
    not_false_eq_true, and_self, decide_true]

theorem receiver_goes_on {index : ℕ} (free : Free (.canRecv index) state entry) :
    ∃ act after, act.thread = .worker (.canRecv index) ∧ Steps config framing liquidCan state act after := by
  obtain ⟨seen, traffic, own, apart, moved⟩ : ∃ act after, act.thread = .worker (.canRecv index) ∧
    (∀ other, act ≠ .other other) ∧ CanTraffic.Steps config framing state.traffic act after :=
    CanTraffic.receives_on (free.looping rfl)
  exact ⟨.other seen, _, own, steps_of_traffic (isOutside_of_thread apart) moved⟩

theorem sender_goes_on (sane : Sane config framing state) (free : Free .canSend state entry) :
    ∃ act after, act.thread = .worker .canSend ∧ Steps config framing liquidCan state act after := by
  obtain ⟨journal, accounts⟩ := sane.accounts
  obtain ⟨seen, traffic, own, apart, moved⟩ : ∃ act after, act.thread = .worker .canSend ∧
    (∀ other, act ≠ .other other) ∧ CanTraffic.Steps config framing state.traffic act after :=
    CanTraffic.sends_on (CanTraffic.sendingInside_run accounts.traffic) (free.looping rfl) free.following
  exact ⟨.other seen, _, own, steps_of_traffic (isOutside_of_thread apart) moved⟩

theorem Free.isIdle (free : Free worker state entry) : state.isIdle worker = true := by
  simp [Server.isIdle, free.spawned, free.idle]

theorem logger_goes_on (free : Free .databaseLogger state entry) :
    ∃ act after, act.thread = .worker .databaseLogger ∧ Steps config framing liquidCan state act after := by
  have running : state.logging.running = true := free.running
  have following : (state.traffic.inbox .databaseLogger)[state.recorded]? = some entry := free.following
  refine ⟨.record (.ok ()), ?_⟩
  simp only [Steps, next, record, nextFor, following, LoggingWorker.step, running, free.isIdle, Option.map_some,
    Option.bind_eq_bind, Option.bind_some, ↓reduceIte]
  exact ⟨_, rfl, rfl⟩

theorem handler_goes_on (sane : Sane config framing state) (free : Free .canMsgHandler state entry) :
    ∃ act after, act.thread = .worker .canMsgHandler ∧ Steps config framing liquidCan state act after := by
  obtain ⟨journal, accounts⟩ := sane.accounts
  rcases Nat.lt_or_eq_of_le accounts.logsSent with owing | sent
  · have due := List.getElem?_eq_getElem owing
    have log := accounts.logged _ (List.getElem_mem owing)
    obtain ⟨traffic, dispatched⟩ : ∃ traffic,
        state.dispatchFrom config framing .canMsgHandler state.threads.logged[state.logsSent] = some traffic := by
      refine steps_of_start ?_ free.spawned (by simp) free.idle
      cases event : state.threads.logged[state.logsSent] <;> first | rfl | (rw [event] at log; cases log)
    refine ⟨.dispatchLog, ?_⟩
    simp only [Steps, next, dispatchLog, due, dispatched, Option.bind_eq_bind, Option.bind_some]
    exact ⟨_, rfl, rfl⟩
  · have handling : state.handling = true := free.running
    have ready : state.handlerReady = true := by simp [handlerReady, free.isIdle, handling, sent]
    have following : (state.traffic.inbox .canMsgHandler)[state.handled]? = some entry := free.following
    cases storing : state.threads.storing with
    | some busy =>
        refine ⟨.manage .store, ?_⟩
        simp only [Steps, next, mayManage, ready, ManagerThreads.next, storing, Option.map_some, ↓reduceIte]
        exact ⟨_, rfl, rfl⟩
    | none =>
        have wanted := sane.wanted (List.mem_of_getElem? following)
        obtain ⟨thread, event⟩ := entry
        cases event with
        | shutdown =>
            refine ⟨.endHandling, ?_⟩
            simp only [Steps, next, endHandling, nextFor, following, ready, storing, Event.isShutdown, Option.map_some,
              Option.bind_eq_bind, Option.bind_some, Option.isNone_none, and_self, ↓reduceIte]
            exact ⟨_, rfl, rfl⟩
        | canMessageReceived id message =>
            refine ⟨.handle 0 id message, ?_⟩
            simp only [Steps, next, handle, nextFor, following, ready, ManagerThreads.next, storing, Event.message?,
              Option.map_some, Option.bind_eq_bind, Option.bind_some, Option.isNone_none, and_self, ↓reduceIte]
            exact ⟨_, rfl, rfl⟩
        | _ => cases wanted

theorem heartbeat_goes_on (sane : Sane config framing state) (free : Free .heartbeat state entry) :
    ∃ act after, act.thread = .worker .heartbeat ∧ Steps config framing liquidCan state act after := by
  obtain ⟨journal, accounts⟩ := sane.accounts
  rcases Nat.lt_or_eq_of_le accounts.requestsSent with owing | sent
  · have due := List.getElem?_eq_getElem owing
    have command := accounts.requested _ (List.getElem_mem owing)
    obtain ⟨traffic, dispatched⟩ : ∃ traffic,
        state.dispatchFrom config framing .heartbeat state.threads.requested[state.requestsSent] = some traffic := by
      refine steps_of_start ?_ free.spawned (by simp) free.idle
      cases event : state.threads.requested[state.requestsSent] <;>
        first | rfl | (rw [event] at command; cases command)
    refine ⟨.dispatchRequest, ?_⟩
    simp only [Steps, next, dispatchRequest, due, dispatched, Option.bind_eq_bind, Option.bind_some]
    exact ⟨_, rfl, rfl⟩
  · have beating : state.beating = true := free.running
    have ready : state.heartbeatReady = true := by simp [heartbeatReady, free.isIdle, beating, sent]
    have first : state.position .heartbeat = 0 := if_pos beating
    have following := free.following
    rw [first] at following
    cases busy : state.threads.round with
    | some round =>
        obtain ⟨seen, threads, beats, stores, begins, moved⟩ : ∃ act after, act.handles = false ∧ act ≠ .store ∧
          act ≠ .beginRound ∧ ManagerThreads.Steps liquidCan state.threads act after :=
          ManagerThreads.rounds_on sane.due busy
        have allowed : state.mayManage seen = true := by
          cases seen with
          | handle timestamp id message => cases beats
          | store => exact absurd rfl stores
          | beginRound => exact absurd rfl begins
          | _ => exact ready
        have moved : state.threads.next liquidCan seen = some threads := moved
        refine ⟨.manage seen, { state with threads, opening := state.opening && !beginsRound seen },
          thread_of_beats stores, ?_⟩
        simp only [Steps, next, allowed, moved, Option.map_some, ↓reduceIte]
    | none =>
        cases opening : state.opening with
        | true =>
            refine ⟨.manage .beginRound, ?_⟩
            simp only [Steps, next, mayManage, ready, opening, ManagerThreads.next, busy, Option.isNone_none,
              Option.map_some, true_or, and_self, decide_true, ↓reduceIte]
            exact ⟨_, rfl, rfl⟩
        | false =>
            have wanted := sane.wanted (List.mem_of_getElem? following)
            obtain ⟨thread, event⟩ := entry
            cases event with
            | shutdown =>
                refine ⟨.endBeating, ?_⟩
                simp only [Steps, next, endBeating, nextFor, following, ready, opening, busy, Event.isShutdown,
                  Option.map_some, Option.bind_eq_bind, Option.bind_some, Option.isNone_none, Bool.false_eq_true,
                  not_false_eq_true, and_self, ↓reduceIte]
                exact ⟨_, rfl, rfl⟩
            | _ => cases wanted

theorem following_of_stopping (sane : Sane config framing state) (stopping : Stopping worker state) :
    ∃ entry, (state.traffic.inbox worker)[state.position worker]? = some entry := by
  have ends := sane.ending.ends worker
  unfold Ends at ends
  rw [stopping.running] at ends
  exact ends.following stopping.asked

/-- Whatever the others do, a worker that is to stop has a step it can take. -/
theorem worker_goes_on (sane : Sane config framing state) (stopping : Stopping worker state)
    (apart : worker ≠ .sequenceRunner) :
    ∃ act after, act.thread = .worker worker ∧ Steps config framing liquidCan state act after := by
  cases walking : state.traffic.startUp.dispatching.walks.lookup (.worker worker) with
  | some walk =>
      obtain ⟨act, after, hands, stepped⟩ := walks_on sane walking
      exact ⟨act, after, thread_of_handsOn hands, stepped⟩
  | none =>
      obtain ⟨entry, following⟩ := following_of_stopping sane stopping
      have free : Free worker state entry := ⟨stopping.spawned, stopping.running, walking, following⟩
      cases worker with
      | canRecv index => exact receiver_goes_on free
      | canSend => exact sender_goes_on sane free
      | sequenceRunner => exact absurd rfl apart
      | databaseLogger => exact logger_goes_on free
      | canMsgHandler => exact handler_goes_on sane free
      | heartbeat => exact heartbeat_goes_on sane free

end GoesOn

section Approaches

variable {config : Config} {framing : LiquidCanFraming} {liquidCan : LiquidCan} {mapping : Mapping}
  {state after : Server} {act : Act} {worker : Worker}

theorem spawned_next (stepped : Steps config framing liquidCan state act after) :
    state.traffic.startUp.spawned ⊆ after.traffic.startUp.spawned := by
  cases effect_of_steps stepped with
  | other _ moved => exact CanTraffic.spawned_next moved
  | dispatchLog _ moved => exact CanTraffic.spawned_next moved
  | dispatchRequest _ moved => exact CanTraffic.spawned_next moved
  | leave _ moved => exact CanTraffic.spawned_next moved
  | _ => exact List.Subset.refl _

theorem Stopping.next (stopping : Stopping worker state) (stepped : Steps config framing liquidCan state act after)
    (running : after.runs worker = true) : Stopping worker after where
  spawned := spawned_next stepped stopping.spawned
  asked := by
    obtain ⟨entry, member, last⟩ := stopping.asked
    exact ⟨entry, (inbox_grows stepped worker).subset member, last⟩
  running := running

theorem distance_of_work (same : after.traffic.startUp.toSubscribe = state.traffic.startUp.toSubscribe)
    (queue : Consumer.toTake endsWorker (after.traffic.inbox worker) (after.position worker) =
      Consumer.toTake endsWorker (state.traffic.inbox worker) (state.position worker))
    (less : after.work config worker < state.work config worker) :
    after.distance config worker < state.distance config worker :=
  Prod.Lex.toLex_lt_toLex.mpr (Or.inr ⟨same, Prod.Lex.toLex_lt_toLex.mpr (Or.inr ⟨queue, less⟩)⟩)

theorem distance_of_toTake (same : after.traffic.startUp.toSubscribe = state.traffic.startUp.toSubscribe)
    (less : Consumer.toTake endsWorker (after.traffic.inbox worker) (after.position worker) <
      Consumer.toTake endsWorker (state.traffic.inbox worker) (state.position worker)) :
    after.distance config worker < state.distance config worker :=
  Prod.Lex.toLex_lt_toLex.mpr (Or.inr ⟨same, Prod.Lex.toLex_lt_toLex.mpr (Or.inl less)⟩)

theorem distance_next (sane : Sane config framing state) (stopping : Stopping worker state)
    (apart : worker ≠ .sequenceRunner) (stepped : Steps config framing liquidCan state act after)
    (running : after.runs worker = true) :
    after.distance config worker ≤ state.distance config worker ∧
      (act.thread = .worker worker → after.distance config worker < state.distance config worker) := by
  have nearer (less : after.distance config worker < state.distance config worker) :
      after.distance config worker ≤ state.distance config worker ∧
        (act.thread = .worker worker → after.distance config worker < state.distance config worker) :=
    ⟨less.le, fun _ => less⟩
  have grows := inbox_grows stepped worker
  have ends := sane.ending.ends worker
  unfold Ends at ends
  rw [stopping.running] at ends
  rcases still_next stepped with fewer | still
  · exact nearer (Prod.Lex.toLex_lt_toLex.mpr (Or.inl fewer))
  · rcases comes_next stepped apart with ⟨position, _⟩ | ⟨entry, there, _, position, goesOn⟩
    · have queue : Consumer.toTake endsWorker (after.traffic.inbox worker) (after.position worker) =
          Consumer.toTake endsWorker (state.traffic.inbox worker) (state.position worker) := by
        rw [position]
        exact ends.toTake_grow stopping.asked grows
      by_cases own : act.thread = .worker worker
      · refine nearer (distance_of_work still.toSubscribe queue ?_)
        cases nearer_of_own stepped own apart sane.ending stopping with
        | ended stopped =>
            rw [stopped] at running
            cases running
        | taken further => omega
        | worked less => exact less
      · have kept := keeps_of_other stepped own
        have unchanged : after.work config worker = state.work config worker := by
          unfold work
          rw [kept.atWork, kept.toDispatch, still.others _ own]
        refine ⟨le_of_eq ?_, fun ours => absurd ours own⟩
        unfold distance
        rw [still.toSubscribe, queue, unchanged]
    · have last : endsWorker entry = false := by
        rw [running] at goesOn
        simpa using goesOn.symm
      have stops := ends.next there
      rw [last] at stops
      refine nearer (distance_of_toTake still.toSubscribe ?_)
      rw [position, stops.toTake_grow stopping.asked grows]
      exact Consumer.toTake_next there last

theorem worker_approaches (apart : worker ≠ .sequenceRunner) :
    Transition.Approaches (Steps config framing liquidCan) (fun act => act.thread = .worker worker)
      (fun state => Sane config framing state ∧ Stopping worker state) (fun state => state.runs worker = false)
      (distance config worker) where
  goesOn state waiting := worker_goes_on waiting.1 waiting.2 apart
  next state act after waiting stepped := by
    cases running : after.runs worker with
    | false => exact Or.inl rfl
    | true =>
        right
        exact ⟨⟨sane_next waiting.1 stepped, waiting.2.next stepped running⟩,
          distance_next waiting.1 waiting.2 apart stepped running⟩

theorem ahead_of_handsOn {thread : Thread} (hands : act.handsOn thread)
    (stepped : Steps config framing liquidCan state act after) :
    after.traffic.startUp.dispatching.ahead thread < state.traffic.startUp.dispatching.ahead thread := by
  cases effect_of_steps stepped with
  | @other seen _ _ moved =>
      refine CanTraffic.ahead_of_own moved ?_
      unfold Act.handsOn at hands
      split at hands
      · next same =>
          obtain rfl := Act.other.inj same
          exact Or.inl (hands ▸ rfl)
      · next same =>
          obtain rfl := Act.other.inj same
          exact Or.inr (hands ▸ rfl)
      · cases hands
  | _ => cases hands

theorem dispatch_approaches (thread : Thread) :
    Transition.Approaches (Steps config framing liquidCan) (Act.handsOn thread)
      (fun state => Sane config framing state ∧ ∃ walk, state.traffic.startUp.dispatching.walks.lookup thread = some walk)
      (fun state => state.traffic.startUp.dispatching.walks.lookup thread = none)
      (fun state => (toLex (state.traffic.startUp.toSubscribe, state.traffic.startUp.dispatching.ahead thread) :
        ℕ ×ₗ ℕ)) where
  goesOn state waiting := by
    obtain ⟨sane, walk, walking⟩ := waiting
    exact walks_on sane walking
  next state act after waiting stepped := by
    obtain ⟨sane, before, walked⟩ := waiting
    cases walking : after.traffic.startUp.dispatching.walks.lookup thread with
    | none => exact Or.inl rfl
    | some walk =>
        refine Or.inr ⟨⟨sane_next sane stepped, walk, rfl⟩, ?_⟩
        rcases still_next stepped with fewer | still
        · refine ⟨Prod.Lex.toLex_le_toLex.mpr (Or.inl fewer), fun _ => ?_⟩
          exact Prod.Lex.toLex_lt_toLex.mpr (Or.inl fewer)
        · refine ⟨Prod.Lex.toLex_le_toLex.mpr (Or.inr ⟨still.toSubscribe, still.walking thread before walked⟩), ?_⟩
          intro hands
          exact Prod.Lex.toLex_lt_toLex.mpr (Or.inr ⟨still.toSubscribe, ahead_of_handsOn hands stepped⟩)

end Approaches

section Correct

variable {config : Config} {framing : LiquidCanFraming} {liquidCan : LiquidCan} {mapping : Mapping}
  {state opened later : Server} {worker : Worker} {thread : Thread}

theorem start_of_steps {event : Event}
    (begun : Steps config framing liquidCan state (.other (.other (.start thread event))) opened) :
    StartUp.Steps config framing.nodeIdBroadcast state.traffic.startUp (.start thread event) opened.traffic.startUp := by
  cases effect_of_steps begun with
  | other _ moved => exact CanTraffic.startUp_next moved

theorem walking_of_start {event : Event}
    (begun : Steps config framing liquidCan state (.other (.other (.start thread event))) opened) :
    opened.traffic.startUp.dispatching.walks.lookup thread = some (event, 0) := by
  have moved : Dispatching.Steps state.traffic.startUp.dispatching (.start thread event)
      opened.traffic.startUp.dispatching := (StartUp.step_cases (start_of_steps begun)).2.1
  obtain ⟨_, same⟩ := Option.ite_some_none_eq_some.mp moved
  rw [← same]
  exact AList.lookup_insert _

theorem asked_of_dispatched (sane : Sane config framing state)
    (begun : Steps config framing liquidCan state (.other (.other (.start thread .shutdown))) opened)
    {acts : List Act} (run : Transition.Run (Steps config framing liquidCan) opened acts later)
    (through : later.traffic.startUp.dispatching.walks.lookup thread = none)
    (subscribed : worker ∈ state.traffic.startUp.subscribed)
    (alive : worker.channel ∉ later.traffic.startUp.dispatching.closed) :
    ∃ entry ∈ later.traffic.inbox worker, endsWorker entry = true := by
  obtain ⟨journal, accounts⟩ := sane.accounts
  have invariant := StartUp.invariant_run (CanTraffic.startUp_run accounts.traffic) (StartUp.invariant_new config)
  obtain ⟨since, traffic, _⟩ := traffic_run run
  have whole := Transition.Run.cons (start_of_steps begun) (CanTraffic.startUp_run traffic)
  have given := (StartUp.account_subscribed invariant whole subscribed thread).1 alive
  rw [StartUp.dispatched_cons, StartUp.account, Broadcast.onTheWay_of_idle through, List.append_nil] at given
  have wanted : .shutdown ∈ StartUp.dispatched config framing.nodeIdBroadcast worker thread [.start thread .shutdown] := by
    have wants : (worker.listener config.canBusInterfaces).wants .shutdown = true := by
      cases worker <;> rfl
    simp [StartUp.dispatched, Broadcast.started, StartUp.Act.move?, Broadcast.Move.event?, wants]
  have queued : .shutdown ∈ later.traffic.startUp.dispatching.queuedFrom thread worker.channel := by
    rw [given]
    exact List.mem_append_right _ (List.mem_append_left _ wanted)
  rw [← Broadcast.takenFrom_inbox] at queued
  obtain ⟨entry, member, same⟩ := List.mem_map.mp queued
  refine ⟨entry, (List.mem_filter.mp member).1, ?_⟩
  unfold endsWorker
  rw [same]
  rfl

variable {states : ℕ → Server} {acts : ℕ → Act}

/-- One shutdown is enough: in the end every worker that was there has taken its events up to its first
shutdown and left its loop, unless it or the dispatch is neglected for ever. -/
theorem shutdown_completes (endless : Transition.Endless (Steps config framing liquidCan) states acts)
    (initially : states 0 = new config mapping) {time : ℕ}
    (shutdown : acts time = .other (.other (.start thread .shutdown)))
    (dispatches : Transition.Fair (Steps config framing liquidCan) (Act.handsOn thread) states acts)
    (apart : worker ≠ .sequenceRunner) (subscribed : worker ∈ (states time).traffic.startUp.subscribed)
    (spawned : worker ∈ (states time).traffic.startUp.spawned)
    (goesOn : Transition.Fair (Steps config framing liquidCan) (fun act => act.thread = .worker worker) states acts) :
    ∃ last, ∀ later ≥ last, (states later).runs worker = false ∧
      ∃ sender, ((states later).traffic.inbox worker).take ((states later).position worker) =
        untilShutdown ((states later).traffic.inbox worker) ++ [(sender, .shutdown)] := by
  have sane (now : ℕ) : Sane config framing (states now) :=
    endless.always (fun _ _ _ => sane_next) (initially ▸ sane_new config framing mapping) now (Nat.zero_le _)
  have begun := endless time
  rw [shutdown] at begun
  obtain ⟨through, order, idle⟩ := endless.reaches dispatches (dispatch_approaches thread)
    ⟨sane (time + 1), _, walking_of_start begun⟩
  suffices stops : ∃ last, (states last).runs worker = false by
    obtain ⟨last, stopped⟩ := stops
    refine ⟨last, fun later after => ?_⟩
    have stopped := endless.always (fun _ _ _ stopped stepped => runs_next stepped stopped) stopped later after
    exact ⟨stopped, taken_of_stopped (sane later).ending stopped⟩
  cases running : (states through).runs worker with
  | false => exact ⟨through, running⟩
  | true =>
      have stopping : Stopping worker (states through) := by
        obtain ⟨_, run⟩ := endless.run order
        refine ⟨?_, asked_of_dispatched (sane time) begun run idle subscribed ?_, running⟩
        · exact endless.always (fun _ _ _ there stepped => spawned_next stepped there) spawned through (by omega)
        · intro closed
          rw [(sane through).ending.closed worker apart closed] at running
          cases running
      obtain ⟨last, _, stopped⟩ := endless.reaches goesOn (worker_approaches apart) ⟨sane through, stopping⟩
      exact ⟨last, stopped⟩

def tankShutsDown : List Act :=
  handsOut (.outside 0) ++ [.record (.ok ())]

structure LoggerGone (state : Server) : Prop where
  stopped : state.logging.running = false
  spawned : .databaseLogger ∈ state.traffic.startUp.spawned
  subscribed : .databaseLogger ∈ state.traffic.startUp.subscribed
  idle : state.traffic.startUp.dispatching.walks.lookup (.outside 0) = none

theorem loggerGone_leave (gone : LoggerGone state) :
    ∃ next, Steps config framing liquidCan state (.leave .databaseLogger) next ∧ LoggerGone next := by
  have left : state.hasLeft .databaseLogger = true := by simp [hasLeft, gone.stopped]
  have allowed : state.traffic.startUp.allows (.close .databaseLogger) = true := by
    simp [StartUp.allows, gone.spawned, gone.subscribed]
  simp only [Steps, next, left, CanTraffic.next, CanTraffic.isFree, CanTraffic.stepOther, StartUp.next, allowed,
    StartUp.dispatch, StartUp.Act.move?, Broadcast.State.next, Option.bind_eq_bind, Option.bind_some, Option.map_some,
    ↓reduceIte]
  exact ⟨_, rfl, gone.stopped, gone.spawned, List.mem_append_left _ gone.subscribed, gone.idle⟩

theorem fair_of_loggerGone {since : ℕ}
    (gone : ∀ later ≥ since, LoggerGone (states later)) (leaves : ∀ later ≥ since, acts later = .leave .databaseLogger) :
    Transition.Fair (Steps config framing liquidCan) (Act.handsOn (.outside 0)) states acts ∧
      Transition.Fair (Steps config framing liquidCan) (fun act => act.thread = .worker .databaseLogger) states acts := by
  constructor
  · intro time always
    obtain ⟨act, next, hands, stepped⟩ := always (max time since) (le_max_left _ _)
    have less := ahead_of_handsOn hands stepped
    rw [Broadcast.ahead_of_idle (gone _ (le_max_right _ _)).idle] at less
    cases less
  · intro time _
    refine ⟨max time since, le_max_left _ _, ?_⟩
    rw [leaves _ (le_max_right _ _)]
    rfl

theorem shutdown_completes_tank : ∃ (states : ℕ → Server) (acts : ℕ → Act) (time : ℕ),
    Transition.Endless (Steps tankConfig tankFraming .littleEndian) states acts ∧ states 0 = new tankConfig {} ∧
    acts time = .other (.other (.start (.outside 0) .shutdown)) ∧
    ∃ last, ∀ later ≥ last, (states later).runs .databaseLogger = false ∧
      ∃ sender, ((states later).traffic.inbox .databaseLogger).take ((states later).position .databaseLogger) =
        untilShutdown ((states later).traffic.inbox .databaseLogger) ++ [(sender, .shutdown)] := by
  have evaluated : ((startsUp.foldlM (next tankConfig tankFraming .littleEndian) (new tankConfig {})).any fun state =>
      decide (.databaseLogger ∈ state.traffic.startUp.subscribed) &&
      decide (.databaseLogger ∈ state.traffic.startUp.spawned) &&
      ((.other (.other (.start (.outside 0) .shutdown)) :: tankShutsDown).foldlM
        (next tankConfig tankFraming .littleEndian) state).any fun state => !state.logging.running &&
          decide (.databaseLogger ∈ state.traffic.startUp.spawned) &&
          decide (.databaseLogger ∈ state.traffic.startUp.subscribed) &&
          (state.traffic.startUp.dispatching.walks.lookup (.outside 0)).isNone) = true := by decide
  obtain ⟨ready, reached, seen⟩ := (Option.any_eq_true _ _).mp evaluated
  simp only [Bool.and_eq_true, decide_eq_true_eq] at seen
  obtain ⟨⟨subscribed, spawned⟩, seen⟩ := seen
  obtain ⟨stopped, reaches, seen⟩ := (Option.any_eq_true _ _).mp seen
  simp only [Bool.and_eq_true, Bool.not_eq_true', decide_eq_true_eq, Option.isNone_iff_eq_none] at seen
  obtain ⟨⟨⟨left, stillSpawned⟩, stillSubscribed⟩, idle⟩ := seen
  have gone : LoggerGone stopped := ⟨left, stillSpawned, stillSubscribed, idle⟩
  obtain ⟨opened, begun, shuts⟩ := Transition.run_cons_iff.mp (Transition.run_iff_foldlM.mpr reaches)
  obtain ⟨rest, leaves, rfl, sustained⟩ := Transition.endless_of_sustained
    (fun _ => loggerGone_leave : ∀ state, LoggerGone state → ∃ next,
      Steps tankConfig tankFraming .littleEndian state (.leave .databaseLogger) next ∧ LoggerGone next) gone
  obtain ⟨shutting, shuttingActs, goesOn, rfl, later⟩ := leaves.after_run shuts
  obtain ⟨states, acts, endless, initially, whole⟩ :=
    (goesOn.preceded begun).after_run (Transition.run_iff_foldlM.mpr reached)
  have atLast (time : ℕ) (order : time ≥ startsUp.length + (tankShutsDown.length + 1)) :
      ∃ past, states time = rest past ∧ acts time = .leave .databaseLogger := by
    obtain ⟨past, rfl⟩ := Nat.exists_eq_add_of_le order
    refine ⟨past, ?_⟩
    rw [Nat.add_assoc, (whole _).1, (whole _).2, Nat.add_right_comm]
    exact later past
  have gone (time : ℕ) (order : time ≥ startsUp.length + (tankShutsDown.length + 1)) : LoggerGone (states time) := by
    obtain ⟨past, same, _⟩ := atLast time order
    rw [same]
    exact sustained past
  have leaves (time : ℕ) (order : time ≥ startsUp.length + (tankShutsDown.length + 1)) :
      acts time = .leave .databaseLogger := by
    obtain ⟨_, _, left⟩ := atLast time order
    exact left
  have fair : Transition.Fair (Steps tankConfig tankFraming .littleEndian) (Act.handsOn (.outside 0)) states acts ∧
      Transition.Fair (Steps tankConfig tankFraming .littleEndian) (fun act => act.thread = .worker .databaseLogger)
        states acts := fair_of_loggerGone gone leaves
  refine ⟨states, acts, startsUp.length, endless, initially, (whole 0).2, ?_⟩
  refine shutdown_completes endless initially (whole 0).2 fair.1 (by simp) ?_ ?_ fair.2
  · rw [← Nat.add_zero startsUp.length, (whole 0).1]
    exact subscribed
  · rw [← Nat.add_zero startsUp.length, (whole 0).1]
    exact spawned

end Correct

end Server

end FerroFlow
