import FerroFlow.Shutdown
import FerroFlow.UpdateLog

/-! The cache against the database: what a reader finds for a field is the last that was recorded for it,
or is on its way to be recorded. -/

namespace FerroFlow

open NodeManager (replayLogs telemetryLog)

section Latest

variable {nodeId id : UInt8} {logs more : List FieldLog} {log : FieldLog}

def latestFor (nodeId id : UInt8) (logs : List FieldLog) : Option (DateTime × JsonValue) :=
  (replayLogs (logs.filter fun log => log.nodeId = u8AsI16 nodeId)).lookup (u8AsI16 id)

theorem latestFor_concat (logs : List FieldLog) (log : FieldLog) :
    latestFor nodeId id (logs ++ [log]) =
      if log.nodeId = u8AsI16 nodeId ∧ log.fieldId = u8AsI16 id then some (log.timestamp, log.fieldValue)
      else latestFor nodeId id logs := by
  unfold latestFor
  rw [List.filter_append]
  by_cases own : log.nodeId = u8AsI16 nodeId
  · have kept : [log].filter (fun log => log.nodeId = u8AsI16 nodeId) = [log] := by simp [own]
    rw [kept, NodeManager.replayLogs_append, KeyedMap.lookup_insert_eq]
    simp only [own, true_and, eq_comm]
  · have dropped : [log].filter (fun log => log.nodeId = u8AsI16 nodeId) = [] := by simp [own]
    rw [dropped, List.append_nil, if_neg fun same => own same.1]

theorem latestFor_others (others : ∀ log ∈ more, log.nodeId ≠ u8AsI16 nodeId) :
    latestFor nodeId id (logs ++ more) = latestFor nodeId id logs := by
  have nothing : more.filter (fun log => log.nodeId = u8AsI16 nodeId) = [] := by
    simpa [List.filter_eq_nil_iff] using others
  unfold latestFor
  rw [List.filter_append, nothing, List.append_nil]

def Tracks (nodeId : UInt8) (values : HashMap UInt8 (DateTime × CanDataValue)) (logs : List FieldLog) : Prop :=
  ∀ id value, values.lookup id = some value →
    latestFor nodeId id logs = some (value.1, canDataValueToJson value.2)

variable {values : HashMap UInt8 (DateTime × CanDataValue)}

theorem Tracks.others (tracks : Tracks nodeId values logs) (others : ∀ log ∈ more, log.nodeId ≠ u8AsI16 nodeId) :
    Tracks nodeId values (logs ++ more) := by
  intro id value cached
  rw [latestFor_others others]
  exact tracks id value cached

theorem Tracks.store (tracks : Tracks nodeId values logs) (timestamp : DateTime) (field : UInt8)
    (fieldInfo : FieldInfo) (value : CanDataValue) :
    Tracks nodeId (values.insert field (timestamp, value))
      (logs ++ [telemetryLog timestamp nodeId field fieldInfo value]) := by
  intro id latest cached
  rw [KeyedMap.lookup_insert_eq] at cached
  rw [latestFor_concat]
  by_cases last : id = field
  · subst last
    rw [if_pos rfl] at cached
    rw [if_pos ⟨rfl, rfl⟩, ← Option.some.inj cached]
    rfl
  · rw [if_neg last] at cached
    rw [if_neg fun same => last (u8AsI16_inj.mp same.2.symm)]
    exact tracks id latest cached

theorem Tracks.storeAll (tracks : Tracks nodeId values logs) (timestamp : DateTime)
    (rows : List ((UInt8 × FieldInfo) × CanDataValue)) :
    Tracks nodeId (rows.foldl (fun values row => values.insert row.1.1 (timestamp, row.2)) values)
      (logs ++ rows.map fun row => telemetryLog timestamp nodeId row.1.1 row.1.2 row.2) := by
  induction rows generalizing values logs with
  | nil => simpa using tracks
  | cons row rows ih =>
      rw [List.map_cons, List.append_cons]
      exact ih (tracks.store timestamp row.1.1 row.1.2 row.2)

end Latest

namespace ManagerThreads

section Recorded

variable {liquidCan : LiquidCan} {state after : ManagerThreads} {act : Act}

structure Recorded (state : ManagerThreads) : Prop where
  blank : ∀ nodeId, (state.manager.slot nodeId).Blank
  tracks : ∀ nodeId values, state.cached nodeId = some values →
    Tracks nodeId values (state.logged.filterMap Event.log?)

theorem logs_of_rows (timestamp : DateTime) (nodeId : UInt8) (rows : List ((UInt8 × FieldInfo) × CanDataValue)) :
    (rows.map fun row => Event.nodeFieldUpdated (telemetryLog timestamp nodeId row.1.1 row.1.2 row.2)).filterMap
      Event.log? = rows.map fun row => telemetryLog timestamp nodeId row.1.1 row.1.2 row.2 := by
  rw [List.filterMap_map, ← List.filterMap_eq_map]
  rfl

theorem logs_of_sender (slot : NodeSlot) (senderId : UInt8) (timestamp : DateTime) (message : CanMessage) :
    ∀ log ∈ (slot.handle liquidCan senderId timestamp message).events.filterMap Event.log?,
      log.nodeId = u8AsI16 senderId := by
  intro log member
  rcases slot.handle_events liquidCan senderId timestamp message with silent | ⟨node, rows, _, _, events⟩
  · rw [silent] at member
    cases member
  · rw [events, logs_of_rows] at member
    obtain ⟨row, _, rfl⟩ := List.mem_map.mp member
    rfl

theorem recorded_atOnce (recorded : Recorded state) (timestamp : DateTime) (id : CanMessageId)
    (message : CanMessage) : Recorded { state with
      manager := (state.manager.handleCanMessageFromNode liquidCan timestamp id message).manager
      logged := state.logged ++ (state.manager.handleCanMessageFromNode liquidCan timestamp id message).events } := by
  have confined := NodeManager.confined_handle liquidCan state.manager timestamp id message
  have taken : (state.manager.slot id.senderId).Takes liquidCan id.senderId (.message timestamp message)
      ((state.manager.handleCanMessageFromNode liquidCan timestamp id message).manager.slot id.senderId) :=
    confined.slot.symm
  constructor
  · intro nodeId
    by_cases sender : nodeId = id.senderId
    · subst sender
      exact (recorded.blank id.senderId).takes liquidCan taken
    · exact (confined.others nodeId sender).symm ▸ recorded.blank nodeId
  · intro nodeId values cached
    rw [List.filterMap_append, confined.events]
    by_cases sender : nodeId = id.senderId
    · subst sender
      obtain ⟨node, registered, rfl⟩ := Option.map_eq_some_iff.mp cached
      have change := NodeSlot.cacheChange_of_takes liquidCan (recorded.blank id.senderId) taken registered
      simp only [NodeSlot.dispatched] at change
      generalize ((state.manager.slot id.senderId).handle liquidCan id.senderId timestamp message).events = events
        at change ⊢
      cases change with
      | placed _ empty =>
          intro field value impossible
          rw [empty] at impossible
          cases impossible
      | @kept before _ found _ same =>
          rw [same, List.filterMap_nil, List.append_nil]
          exact recorded.tracks id.senderId before.values (congrArg (Option.map CanNode.values) found)
      | @stored before time message rows _ found arrived _ same =>
          obtain ⟨rfl, rfl⟩ := SlotInput.message.inj arrived
          rw [same, logs_of_rows]
          exact (recorded.tracks id.senderId before.values (congrArg (Option.map CanNode.values) found)).storeAll
            timestamp _
    · have same : state.cached nodeId = some values := by
        rw [← cached]
        unfold ManagerThreads.cached
        rw [confined.others nodeId sender]
      refine (recorded.tracks nodeId values same).others fun log member => ?_
      rw [logs_of_sender _ _ _ _ log member, ne_eq, u8AsI16_inj]
      exact fun equal => sender equal.symm

theorem Recorded.unchanged (recorded : Recorded state) (manager : after.manager = state.manager)
    (logged : after.logged = state.logged) : Recorded after := by
  constructor
  · rw [manager]
    exact recorded.blank
  · unfold ManagerThreads.cached
    rw [manager, logged]
    exact recorded.tracks

theorem recorded_handle (recorded : Recorded state) (timestamp : DateTime) (id : CanMessageId)
    (message : CanMessage) : Recorded (state.handle liquidCan timestamp id message) := by
  cases message with
  | telemetryGroupUpdate payload =>
      simp only [handle]
      split
      · exact recorded.unchanged rfl rfl
      · exact recorded
  | _ => exact recorded_atOnce recorded timestamp id _

theorem blank_cacheValue (manager : NodeManager) (timestamp : DateTime) (nodeId field : UInt8) (value : CanDataValue)
    (blank : ∀ nodeId, (manager.slot nodeId).Blank) (other : UInt8) :
    ((manager.cacheValue timestamp nodeId field value).slot other).Blank := by
  rw [NodeManager.slot_cacheValue]
  by_cases same : other = nodeId
  · subst same
    rw [Function.update_self]
    exact blank other
  · rw [Function.update_of_ne same]
    exact blank other

theorem recorded_store (recorded : Recorded state) (storing : Storing) : Recorded (state.store storing) := by
  obtain ⟨timestamp, nodeId, groupId, rows⟩ := storing
  match rows with
  | [] => exact recorded.unchanged rfl rfl
  | (_, .error failure) :: rest => exact recorded.unchanged rfl rfl
  | ((field, fieldInfo), .ok value) :: rest =>
      constructor
      · exact blank_cacheValue state.manager timestamp nodeId field value recorded.blank
      · intro other values cached
        have after := (cached_cacheValue state timestamp nodeId field value other).symm.trans cached
        have logged : (state.store ⟨timestamp, nodeId, groupId, ((field, fieldInfo), .ok value) :: rest⟩).logged.filterMap
            Event.log? = state.logged.filterMap Event.log? ++ [telemetryLog timestamp nodeId field fieldInfo value] :=
          List.filterMap_append
        rw [logged]
        by_cases same : other = nodeId
        · subst same
          rw [if_pos rfl] at after
          obtain ⟨before, found, rfl⟩ := Option.map_eq_some_iff.mp after
          exact (recorded.tracks other before found).store timestamp field fieldInfo value
        · rw [if_neg same] at after
          refine (recorded.tracks other values after).others fun log member => ?_
          rw [List.mem_singleton.mp member]
          exact fun equal => same (u8AsI16_inj.mp equal).symm

theorem recorded_visit (recorded : Recorded state) (nodeId : UInt8) (timestamp : DateTime) (round : Round) :
    Recorded (state.visit nodeId timestamp round) := by
  constructor
  · intro other
    have slots := (NodeManager.slot_requestHeartbeat state.manager timestamp nodeId).1
    simp only [visit, slots]
    by_cases same : other = nodeId
    · subst same
      rw [Function.update_self]
      exact recorded.blank other
    · rw [Function.update_of_ne same]
      exact recorded.blank other
  · intro other values cached
    rw [cached_visit] at cached
    exact recorded.tracks other values cached

theorem recorded_next (recorded : Recorded state) (stepped : Steps liquidCan state act after) : Recorded after := by
  cases act with
  | handle timestamp id message =>
      simp only [Steps, next, Option.ite_none_right_eq_some, Option.some.injEq] at stepped
      obtain ⟨_, rfl⟩ := stepped
      exact recorded_handle recorded timestamp id message
  | store =>
      obtain ⟨storing, _, rfl⟩ := Option.map_eq_some_iff.mp stepped
      exact recorded_store recorded storing
  | beginRound =>
      simp only [Steps, next, Option.ite_none_right_eq_some, Option.some.injEq] at stepped
      obtain ⟨_, rfl⟩ := stepped
      exact recorded.unchanged rfl rfl
  | visit nodeId timestamp =>
      simp only [Steps, next, Option.bind_eq_bind, Option.bind_eq_some_iff, Option.ite_none_right_eq_some,
        Option.some.injEq] at stepped
      obtain ⟨round, _, _, rfl⟩ := stepped
      exact recorded_visit recorded nodeId timestamp round
  | endRound =>
      simp only [Steps, next, Option.bind_eq_bind, Option.bind_eq_some_iff, Option.ite_none_right_eq_some,
        Option.some.injEq] at stepped
      obtain ⟨round, _, _, rfl⟩ := stepped
      exact recorded.unchanged rfl rfl

theorem recorded_new (mapping : Mapping) : Recorded { manager := .new mapping } where
  blank nodeId node impossible := by cases impossible
  tracks nodeId values impossible := by cases impossible

theorem recorded_run {mapping : Mapping} {acts : List Act}
    (run : Transition.Run (Steps liquidCan) { manager := .new mapping } acts after) : Recorded after :=
  run.invariant Recorded (fun _ _ _ recorded stepped => recorded_next recorded stepped) (recorded_new mapping)

end Recorded

end ManagerThreads

namespace Server

section Correct

variable {config : Config} {framing : LiquidCanFraming} {liquidCan : LiquidCan} {mapping : Mapping} {finish : Server}

/-- What the database has, what the logging worker holds, and what is on its way to it. -/
def recordedLogs (config : Config) (state : Server) : List FieldLog :=
  state.logging.conn.fieldLogs ++ state.logging.batch ++ state.logsUnderWay config

/-- While the logging worker runs, whatever a reader finds for a field by name, in the midst of any update,
is the last value that is recorded for that field or about to be. -/
theorem reads_recorded (database : config.databaseUrl ≠ "") {acts : List Act}
    (run : Transition.Run (Steps config framing liquidCan) (new config mapping) acts finish)
    (running : finish.logging.running = true) :
    (∀ nodeId node id timestamp value, finish.threads.manager.canNodes.lookup nodeId = some node →
      node.values.lookup id = some (timestamp, value) →
      latestFor nodeId id (finish.recordedLogs config) = some (timestamp, canDataValueToJson value)) ∧
    ∀ fieldName value, finish.threads.manager.tryGetRawValue fieldName = .ok (some value) →
      ∃ lookup target timestamp, finish.threads.manager.resolveMappingByName fieldName = .ok (lookup, target) ∧
        latestFor target.nodeId target.fieldId (finish.recordedLogs config) =
          some (timestamp, canDataValueToJson value) := by
  obtain ⟨_, _, accounts⟩ := accounts_of_run run
  have runs : finish.runs .databaseLogger = true := running
  have alive := (ending_run run).open_of_running (by simp) runs
  have whole : finish.recordedLogs config = _ := rows_underWay database accounts alive
  have recorded := ManagerThreads.recorded_run (threads_run run)
  have cached (nodeId : UInt8) (node : CanNode) (id : UInt8) (timestamp : DateTime) (value : CanDataValue)
      (registered : finish.threads.manager.canNodes.lookup nodeId = some node)
      (stored : node.values.lookup id = some (timestamp, value)) :
      latestFor nodeId id (finish.recordedLogs config) = some (timestamp, canDataValueToJson value) := by
    rw [whole]
    exact recorded.tracks nodeId node.values (congrArg (Option.map CanNode.values) registered) id _ stored
  refine ⟨cached, fun fieldName value read => ?_⟩
  obtain ⟨⟨lookup, target⟩, resolved, latest⟩ := Checks.bind_ok_iff.mp read
  have latest := Except.ok.inj latest
  simp only [NodeManager.latestRawValue, Option.bind_eq_some_iff, Option.map_eq_some_iff] at latest
  obtain ⟨node, registered, ⟨timestamp, stored⟩, found, rfl⟩ := latest
  exact ⟨lookup, target, timestamp, resolved, cached _ node _ timestamp stored registered found⟩

theorem reads_recorded_tank : ∃ finish,
    Transition.Run (Steps tankConfig tankFraming .littleEndian) (new tankConfig {}) tankLogs finish ∧
    finish.logging.conn.fieldLogs.map FieldLog.timestamp = [1] ∧
    latestFor 5 0 (finish.recordedLogs tankConfig) = some (2, canDataValueToJson (.uint16 ⟨8, by decide⟩)) := by
  have evaluated : (tankLogs.foldlM (next tankConfig tankFraming .littleEndian) (new tankConfig {})).map
      (fun state => (state.logging.running, state.logging.conn.fieldLogs.map FieldLog.timestamp,
        (state.threads.manager.canNodes.lookup 5).bind fun node => node.values.lookup 0)) =
        some (true, [1], some (2, .uint16 ⟨8, by decide⟩)) := by decide
  obtain ⟨finish, reached, seen⟩ := Option.map_eq_some_iff.mp evaluated
  simp only [Prod.mk.injEq, Option.bind_eq_some_iff] at seen
  obtain ⟨running, rows, node, registered, cached⟩ := seen
  have run := Transition.run_iff_foldlM.mpr reached
  exact ⟨finish, run, rows, (reads_recorded (by decide) run running).1 5 node 0 2 _ registered cached⟩

end Correct

end Server

end FerroFlow
