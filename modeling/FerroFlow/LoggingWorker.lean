import FerroFlow.Lib.Transition
import FerroFlow.Events

/-! The database logging worker: it gathers field logs into a batch and inserts them all at once.
A batch that could not be inserted is kept, and goes with the next flush. -/

namespace FerroFlow

inductive RecvTimeoutError
  | timeout
  | disconnected
deriving DecidableEq, Repr

structure PgConnection where
  fieldLogs : List FieldLog := []

/-- One INSERT, with the answer of the database: a statement that fails inserts nothing. -/
def PgConnection.execute (conn : PgConnection) (values : List FieldLog) (answer : Except String Unit) :
    PgConnection :=
  match answer with
  | .ok () => { fieldLogs := conn.fieldLogs ++ values }
  | .error _ => conn

structure LoggingWorker where
  conn : PgConnection := {}
  batch : List FieldLog := []
  running : Bool := true

namespace LoggingWorker

def batchSizeLimit : ℕ := 100

structure Flushed where
  result : Result Unit
  worker : LoggingWorker

def flushBatch (worker : LoggingWorker) (answer : Except String Unit) : Flushed :=
  let conn := worker.conn.execute worker.batch answer
  match answer with
  | .error error =>
      { result := withContext s!"failed to flush {worker.batch.length} logs to the database" (bail error)
        worker := { worker with conn } }
  | .ok () => { result := .ok (), worker := { worker with conn, batch := [] } }

/-- What one pass through the loop receives, and what the database answers if it flushes. -/
structure Iteration where
  received : Except RecvTimeoutError Event
  answer : Except String Unit

def iterate (worker : LoggingWorker) (iteration : Iteration) : LoggingWorker :=
  let flushed := (worker.flushBatch iteration.answer).worker
  match iteration.received with
  | .ok (.nodeFieldUpdated log) =>
      let worker := { worker with batch := worker.batch ++ [log] }
      if worker.batch.length < batchSizeLimit then worker
      else (worker.flushBatch iteration.answer).worker
  | .ok .shutdown => { (if worker.batch.isEmpty then worker else flushed) with running := false }
  | .ok _ => worker
  | .error .timeout => if worker.batch.isEmpty then worker else flushed
  | .error .disconnected => if worker.batch.isEmpty then worker else { flushed with running := false }

def step (worker : LoggingWorker) (iteration : Iteration) : Option LoggingWorker :=
  if worker.running then some (worker.iterate iteration) else none

def Steps (worker : LoggingWorker) (iteration : Iteration) (next : LoggingWorker) : Prop :=
  worker.step iteration = some next

def Iteration.log? (iteration : Iteration) : Option FieldLog :=
  match iteration.received with
  | .ok (.nodeFieldUpdated log) => some log
  | _ => none

def logs (worker : LoggingWorker) : List FieldLog :=
  worker.conn.fieldLogs ++ worker.batch

inductive Effect (worker : LoggingWorker) (iteration : Iteration) : LoggingWorker → Prop
  | kept (running) : Effect worker iteration
      { worker with batch := worker.batch ++ iteration.log?.toList, running }
  | inserted (running) : iteration.answer = .ok () → Effect worker iteration
      { conn := { fieldLogs := worker.conn.fieldLogs ++ (worker.batch ++ iteration.log?.toList) }
        batch := []
        running }

theorem Effect.leave {worker next : LoggingWorker} {iteration : Iteration}
    (effect : Effect worker iteration next) (running : Bool) :
    Effect worker iteration { next with running } := by
  cases effect with
  | kept _ => exact Effect.kept running
  | inserted _ answered => exact Effect.inserted running answered

theorem effect_flushBatch (worker : LoggingWorker) (iteration : Iteration) :
    Effect worker iteration ({ worker with batch := worker.batch ++ iteration.log?.toList }.flushBatch
      iteration.answer).worker := by
  cases answer : iteration.answer with
  | error error => exact Effect.kept worker.running
  | ok value => exact Effect.inserted worker.running answer

theorem effect_iterate (worker : LoggingWorker) (iteration : Iteration) :
    Effect worker iteration (worker.iterate iteration) := by
  obtain ⟨received, answer⟩ := iteration
  have unchanged (none : Iteration.log? ⟨received, answer⟩ = none) :
      Effect worker ⟨received, answer⟩ worker := by
    have kept : Effect worker ⟨received, answer⟩
        { worker with batch := worker.batch ++ (Iteration.log? ⟨received, answer⟩).toList } :=
      Effect.kept worker.running
    simpa only [none, Option.toList_none, List.append_nil] using kept
  have flushed (none : Iteration.log? ⟨received, answer⟩ = none) :
      Effect worker ⟨received, answer⟩ (worker.flushBatch answer).worker := by
    have effect := effect_flushBatch worker ⟨received, answer⟩
    simpa only [none, Option.toList_none, List.append_nil] using effect
  cases received with
  | ok event =>
      cases event with
      | nodeFieldUpdated log =>
          simp only [iterate]
          split
          · exact Effect.kept worker.running
          · exact effect_flushBatch worker ⟨.ok (.nodeFieldUpdated log), answer⟩
      | shutdown =>
          simp only [iterate]
          split
          · exact (unchanged rfl).leave false
          · exact (flushed rfl).leave false
      | _ => exact unchanged rfl
  | error failure =>
      cases failure with
      | timeout =>
          simp only [iterate]
          split
          · exact unchanged rfl
          · exact flushed rfl
      | disconnected =>
          simp only [iterate]
          split
          · exact unchanged rfl
          · exact (flushed rfl).leave false

theorem Effect.logs {worker next : LoggingWorker} {iteration : Iteration}
    (effect : Effect worker iteration next) : next.logs = worker.logs ++ iteration.log?.toList := by
  cases effect with
  | kept running => simp only [LoggingWorker.logs, List.append_assoc]
  | inserted running answered => simp only [LoggingWorker.logs, List.append_assoc, List.append_nil]

theorem Effect.failed {worker next : LoggingWorker} {iteration : Iteration}
    (effect : Effect worker iteration next) {error : String} (answer : iteration.answer = .error error) :
    next.conn = worker.conn ∧ next.batch = worker.batch ++ iteration.log?.toList := by
  cases effect with
  | kept running => exact ⟨rfl, rfl⟩
  | inserted running answered =>
      rw [answered] at answer
      cases answer

theorem iterate_of_steps {worker next : LoggingWorker} {iteration : Iteration}
    (stepped : worker.Steps iteration next) : worker.running = true ∧ next = worker.iterate iteration := by
  unfold Steps step at stepped
  split at stepped
  · rename_i running
    exact ⟨running, (Option.some.inj stepped).symm⟩
  · cases stepped

theorem flushBatch_running (worker : LoggingWorker) (answer : Except String Unit) :
    (worker.flushBatch answer).worker.running = worker.running := by
  cases answer <;> rfl

theorem batch_of_flush {worker : LoggingWorker} {answer : Except String Unit}
    (settled : answer = .ok () ∨ worker.batch = []) :
    (if worker.batch.isEmpty then worker else (worker.flushBatch answer).worker).batch = [] := by
  split
  · rename_i empty
    exact List.isEmpty_iff.mp empty
  · rename_i waiting
    rcases settled with answered | empty
    · rw [answered]
      rfl
    · rw [empty] at waiting
      exact (waiting rfl).elim

/-- The loop is left after a shutdown or on a closed channel. Nothing is waiting then, unless the last
flush was needed and failed. -/
theorem exit_of_iterate {worker : LoggingWorker} {iteration : Iteration} (running : worker.running = true)
    (left : (worker.iterate iteration).running = false) :
    (iteration.received = .ok .shutdown ∨ iteration.received = .error .disconnected) ∧
      (iteration.answer = .ok () ∨ worker.batch = [] → (worker.iterate iteration).batch = []) := by
  obtain ⟨received, answer⟩ := iteration
  have stays {other : LoggingWorker} (same : other.running = worker.running)
      (gone : other.running = false) : False := by
    rw [same, running] at gone
    cases gone
  cases received with
  | ok event =>
      cases event with
      | shutdown => exact ⟨Or.inl rfl, batch_of_flush⟩
      | nodeFieldUpdated log =>
          have kept := flushBatch_running { worker with batch := worker.batch ++ [log] } answer
          simp only [iterate] at left
          split at left
          · exact (stays rfl left).elim
          · exact (stays kept left).elim
      | _ => exact (stays rfl left).elim
  | error failure =>
      cases failure with
      | timeout =>
          simp only [iterate] at left
          split at left
          · exact (stays rfl left).elim
          · exact (stays (flushBatch_running _ _) left).elim
      | disconnected =>
          refine ⟨Or.inr rfl, fun settled => ?_⟩
          have flushed := batch_of_flush settled
          simp only [iterate]
          split
          · rename_i empty
            exact List.isEmpty_iff.mp empty
          · rename_i waiting
            rwa [if_neg waiting] at flushed

theorem logs_run {iterations : List Iteration} {worker : LoggingWorker}
    (run : Transition.Run Steps {} iterations worker) :
    worker.logs = iterations.filterMap Iteration.log? := by
  have initial : ({} : LoggingWorker).logs = [].filterMap Iteration.log? := rfl
  refine run.history (fun past state => state.logs = past.filterMap Iteration.log?) ?_ initial
  intro past state iteration next same stepped
  obtain ⟨_, whole⟩ := iterate_of_steps stepped
  rw [whole, (effect_iterate state iteration).logs, same, List.filterMap_append]
  cases taken : iteration.log? <;> simp [taken]

/-- The rows inserted and the batch are, at every point, the logs received so far; a failed flush changes
neither; and a worker that leaves with its last flush done has inserted every log, once. -/
theorem logged_exactly_once {iterations : List Iteration} {worker : LoggingWorker}
    (run : Transition.Run Steps {} iterations worker) :
    worker.conn.fieldLogs ++ worker.batch = iterations.filterMap Iteration.log? ∧
    ∀ iteration next, worker.Steps iteration next →
      (∀ error, iteration.answer = .error error →
        next.conn = worker.conn ∧ next.batch = worker.batch ++ iteration.log?.toList) ∧
      (next.running = false →
        (iteration.received = .ok .shutdown ∨ iteration.received = .error .disconnected) ∧
        (iteration.answer = .ok () ∨ worker.batch = [] →
          next.conn.fieldLogs = iterations.filterMap Iteration.log?)) := by
  have accounted := logs_run run
  refine ⟨accounted, ?_⟩
  intro iteration next stepped
  obtain ⟨running, whole⟩ := iterate_of_steps stepped
  subst whole
  have effect := effect_iterate worker iteration
  refine ⟨fun error answer => effect.failed answer, ?_⟩
  intro left
  obtain ⟨received, emptied⟩ := exit_of_iterate running left
  refine ⟨received, fun settled => ?_⟩
  have nothing : iteration.log? = none := by
    unfold Iteration.log?
    rcases received with shutdown | closed
    · rw [shutdown]
    · rw [closed]
  have total := effect.logs
  rw [accounted, nothing, Option.toList_none, List.append_nil, logs, emptied settled,
    List.append_nil] at total
  exact total

def pressureLog (value : ℚ) : FieldLog where
  timestamp := 0
  nodeId := u8AsI16 3
  fieldId := u8AsI16 99
  fieldName := "tank_pressure"
  fieldValue := .ofF64 (.finite value)

def retriedFlush : List Iteration := [
  ⟨.ok (.nodeFieldUpdated (pressureLog 17)), .ok ()⟩,
  ⟨.error .timeout, .error "connection lost"⟩,
  ⟨.ok (.nodeFieldUpdated (pressureLog 18)), .ok ()⟩]

theorem logged_exactly_once_retriedFlush : ∃ next,
    Transition.Run Steps {} (retriedFlush ++ [⟨.ok .shutdown, .ok ()⟩]) next ∧ next.running = false ∧
      next.conn.fieldLogs = [pressureLog 17, pressureLog 18] := by
  have run : Transition.Run Steps {} retriedFlush { batch := [pressureLog 17, pressureLog 18] } :=
    Transition.run_iff_foldlM.mpr rfl
  have last : Steps { batch := [pressureLog 17, pressureLog 18] } ⟨.ok .shutdown, .ok ()⟩
      { conn := { fieldLogs := [pressureLog 17, pressureLog 18] }, running := false } := rfl
  obtain ⟨_, complete⟩ := logged_exactly_once run
  obtain ⟨_, inserted⟩ := (complete _ _ last).2 rfl
  exact ⟨_, run.append (.cons last (.nil _)), rfl, inserted (Or.inl rfl)⟩

end LoggingWorker

end FerroFlow
