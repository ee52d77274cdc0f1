import FerroFlow.DecodingHistory

/-! A node that announces itself again: what becomes of the registration it had begun before. An
announcement without fields is complete at once, and does not end the registration under way. -/

namespace FerroFlow

variable (liquidCan : LiquidCan)

namespace NodeSlot

def FromLatest (past : List SlotInput) (node : CanNode) : Prop :=
  ∃ older start announcement since,
    past = older ++ .message start (.nodeInfoAnnouncement announcement) :: since ∧ Quiet since ∧
      node.SentIn announcement since

/-- Since an announcement: the node registering was announced so, and the registered one too, unless
it is the one there was before. -/
structure RenewedSince (announcement : NodeInfoResPayload) (previous : Option CanNode)
    (since : List SlotInput) (slot : NodeSlot) : Prop where
  registering : ∀ node, slot.registering = some node → node.SentIn announcement since
  registered : ∀ node, slot.registered = some node → node.SentIn announcement since ∨
    ∃ earlier, previous = some earlier ∧ node.definition = earlier.definition

variable {announcement : NodeInfoResPayload} {previous : Option CanNode} {since : List SlotInput}
  {slot : NodeSlot}

theorem registering_of_uninterrupted {timestamp : DateTime}
    (uninterrupted : slot.Uninterrupted (.message timestamp (.nodeInfoAnnouncement announcement)))
    (complete : (CanNode.new (.announced announcement)).nodeRegistrationComplete = true) :
    slot.registering = none := by
  have noFields := (CanNode.nodeRegistrationComplete_iff _).mp complete
  apply uninterrupted timestamp announcement rfl
  · exact UInt8.toNat_inj.mp noFields.1.symm
  · exact UInt8.toNat_inj.mp noFields.2.1.symm

theorem renewedSince_announce {timestamp : DateTime}
    (uninterrupted : slot.Uninterrupted (.message timestamp (.nodeInfoAnnouncement announcement))) :
    (slot.announce (.announced announcement)).RenewedSince announcement slot.registered [] := by
  unfold NodeSlot.announce
  by_cases complete : (CanNode.new (.announced announcement)).nodeRegistrationComplete = true
  · simp only [complete, ↓reduceIte]
    constructor
    · intro node registering
      have idle := registering_of_uninterrupted uninterrupted complete
      rw [idle] at registering
      cases registering
    · intro node registered
      rw [← Option.some.inj registered]
      exact Or.inl (CanNode.sentIn_new announcement [])
  · simp only [complete, ↓reduceIte, Bool.false_eq_true]
    constructor
    · intro node registering
      rw [← Option.some.inj registering]
      exact CanNode.sentIn_new announcement []
    · intro node registered
      exact Or.inr ⟨node, registered, rfl⟩

theorem RenewedSince.extend (renewed : slot.RenewedSince announcement previous since)
    (input : SlotInput) : slot.RenewedSince announcement previous (since ++ [input]) := by
  constructor
  · intro node registering
    exact (renewed.registering node registering).append [input]
  · intro node registered
    exact (renewed.registered node registered).imp_left fun sent => sent.append [input]

theorem RenewedSince.replaceRegistered (renewed : slot.RenewedSince announcement previous since)
    {node next : CanNode} (registered : slot.registered = some node)
    (same : next.definition = node.definition) :
    ({ slot with registered := some next } : NodeSlot).RenewedSince announcement previous since := by
  constructor
  · exact renewed.registering
  · intro found equal
    rw [← Option.some.inj equal]
    rcases renewed.registered node registered with sent | ⟨earlier, before, unchanged⟩
    · exact Or.inl (sent.of_definition_eq same)
    · exact Or.inr ⟨earlier, before, same.trans unchanged⟩

theorem RenewedSince.settle (renewed : slot.RenewedSince announcement previous since)
    {message : CanMessage} {register : CanNode → CanNode} {node : CanNode}
    (effect : message.registration? = some register) (registering : slot.registering = some node)
    (timestamp : DateTime) : (slot.settle (register node)).RenewedSince announcement previous
      (since ++ [.message timestamp message]) := by
  have sent := (renewed.registering node registering).register effect timestamp
  unfold NodeSlot.settle
  by_cases complete : (register node).nodeRegistrationComplete = true
  · simp only [complete, ↓reduceIte]
    constructor
    · intro pending impossible
      cases impossible
    · intro completed same
      rw [← Option.some.inj same]
      exact Or.inl sent
  · simp only [complete, ↓reduceIte, Bool.false_eq_true]
    constructor
    · intro pending same
      rw [← Option.some.inj same]
      exact sent
    · exact (renewed.extend _).registered

theorem RenewedSince.takes (renewed : slot.RenewedSince announcement previous since) {nodeId : UInt8}
    {input : SlotInput} {next : NodeSlot} (quiet : Quiet [input])
    (taken : slot.Takes liquidCan nodeId input next) :
    next.RenewedSince announcement previous (since ++ [input]) := by
  cases change_of_takes liquidCan taken with
  | announced timestamp another => exact (quiet another ⟨timestamp, List.mem_singleton_self _⟩).elim
  | registered timestamp effect registering => exact renewed.settle effect registering timestamp
  | received timestamp noEffect other found =>
      exact (renewed.extend _).replaceRegistered found (CanNode.receive_definition liquidCan _ _ _ _)
  | rejected timestamp other refused => exact renewed.extend _
  | heartbeat timestamp =>
      have extended := renewed.extend (.heartbeat timestamp)
      unfold NodeSlot.heartbeat
      cases registered : slot.registered with
      | none => exact ⟨extended.registering, fun _ impossible => by cases impossible⟩
      | some node => exact extended.replaceRegistered registered rfl

theorem renewedSince_run {nodeId : UInt8} {inputs : List SlotInput} {finish : NodeSlot}
    (run : Transition.Run (Takes liquidCan nodeId) slot inputs finish) (quiet : Quiet inputs)
    (renewed : slot.RenewedSince announcement previous []) :
    finish.RenewedSince announcement previous inputs := by
  let invariant (past : List SlotInput) (state : NodeSlot) : Prop :=
    Quiet past → state.RenewedSince announcement previous past
  have initial : invariant [] slot := fun _ => renewed
  have whole := run.history invariant (fun past state input next earlier taken calm => by
    obtain ⟨calmBefore, calmNow⟩ := quiet_append.mp calm
    exact (earlier calmBefore).takes liquidCan calmNow taken) initial
  exact whole quiet

theorem fromLatest_of_completes {past : List SlotInput} {timestamp : DateTime} {message : CanMessage}
    {node : CanNode} (latest : ∀ pending, slot.registering = some pending → FromLatest past pending)
    (completes : slot.Completes message node) : FromLatest (past ++ [.message timestamp message]) node := by
  rcases completes with ⟨payload, announced, new⟩ | ⟨register, pending, effect, registering, same⟩
  · subst announced
    subst new
    exact ⟨past, timestamp, payload, [], rfl, quiet_nil, CanNode.sentIn_new payload []⟩
  · obtain ⟨older, start, announcement, since, split, quiet, sent⟩ := latest pending registering
    subst same
    refine ⟨older, start, announcement, since ++ [.message timestamp message], by simp [split], ?_,
      sent.register effect timestamp⟩
    refine quiet_append.mpr ⟨quiet, quiet_message timestamp ?_⟩
    rintro other rfl
    cases effect

theorem complete_of_sentIn_nil {node : CanNode} (sent : node.SentIn announcement [])
    (noTelemetry : announcement.telCount = 0) (noParameters : announcement.parCount = 0) :
    node.nodeRegistrationComplete = true := by
  have nothing (message : CanMessage) : ¬ Given [] message := by
    rintro ⟨timestamp, member⟩
    cases member
  have telemetry : node.telemetryFields.toPairs = [] := by
    apply KeyedMap.toPairs_eq_nil
    intro id fieldInfo found
    obtain ⟨payload, _, given⟩ := sent.telemetry id fieldInfo found
    exact nothing _ given
  have parameters : node.parameterFields.toPairs = [] := by
    apply KeyedMap.toPairs_eq_nil
    intro id fieldInfo found
    obtain ⟨payload, _, given⟩ := sent.parameters id fieldInfo found
    exact nothing _ given
  have groups : node.telemetryGroups.toPairs = [] := by
    apply KeyedMap.toPairs_eq_nil
    intro id group found
    obtain ⟨payload, _, given⟩ := sent.groups id group found
    exact nothing _ given
  have telemetryCount : node.registrationInfo.telemetryCount = 0 := by
    rw [sent.registrationInfo]
    exact noTelemetry
  have parameterCount : node.registrationInfo.parameterCount = 0 := by
    rw [sent.registrationInfo]
    exact noParameters
  refine (CanNode.nodeRegistrationComplete_iff node).mpr ⟨?_, ?_, ?_⟩
  · rw [KeyedMap.size_eq_sum, KeyedMap.values_eq_toPairs, telemetry, telemetryCount]
    rfl
  · rw [KeyedMap.size_eq_sum, KeyedMap.values_eq_toPairs, parameters, parameterCount]
    rfl
  · rw [CanNode.groupedFieldCount, KeyedMap.values_eq_toPairs, groups, telemetryCount]
    rfl

theorem not_fromLatest_of_interrupted {past : List SlotInput} {timestamp : DateTime} {pending : CanNode}
    (incomplete : pending.nodeRegistrationComplete = false)
    (noTelemetry : announcement.telCount = 0) (noParameters : announcement.parCount = 0) :
    ¬ FromLatest (past ++ [.message timestamp (.nodeInfoAnnouncement announcement)]) pending := by
  rintro ⟨older, start, other, since, split, quiet, sent⟩
  rcases List.eq_nil_or_concat since with none | ⟨before, last, concat⟩
  · subst none
    obtain ⟨_, same⟩ := List.append_inj' split rfl
    obtain ⟨_, sameAnnouncement⟩ := SlotInput.message.inj (List.singleton_inj.mp same)
    rw [← CanMessage.nodeInfoAnnouncement.inj sameAnnouncement] at sent
    rw [complete_of_sentIn_nil sent noTelemetry noParameters] at incomplete
    cases incomplete
  · rw [List.concat_eq_append] at concat
    subst concat
    have regrouped : past ++ [SlotInput.message timestamp (.nodeInfoAnnouncement announcement)] =
        (older ++ .message start (.nodeInfoAnnouncement other) :: before) ++ [last] := by
      simpa using split
    obtain ⟨_, same⟩ := List.append_inj' regrouped rfl
    rw [← List.singleton_inj.mp same] at quiet
    exact quiet announcement ⟨timestamp, by simp⟩

end NodeSlot

namespace NodeManager

variable {mapping : Mapping} {operations : List Operation} {manager : NodeManager}

theorem fromLatest_run {nodeId : UInt8}
    (run : Transition.Run (Transition.Restrict (Uninterrupted nodeId) (Performs liquidCan)) (new mapping)
      operations manager) {node : CanNode} (registering : manager.registeringNodes.lookup nodeId = some node) :
    NodeSlot.FromLatest (operations.filterMap (Operation.seenBy nodeId)) node := by
  obtain ⟨older, start, announcement, since, split, sent, _, quiet⟩ :=
    opened_run liquidCan True run.weaken (fun _ => run) node registering
  exact ⟨older, start, announcement, since, split, quiet trivial, sent⟩

theorem renewedSince_of_split {nodeId : UInt8} {before after : List Operation} {latest : Operation}
    {middle : NodeManager} {timestamp : DateTime} {announcement : NodeInfoResPayload}
    (run : Transition.Run (Transition.Restrict (Uninterrupted nodeId) (Performs liquidCan)) (new mapping)
      (before ++ latest :: after) manager)
    (seen : latest.seenBy nodeId = some (.message timestamp (.nodeInfoAnnouncement announcement)))
    (quiet : NodeSlot.Quiet (after.filterMap (Operation.seenBy nodeId)))
    (reached : Transition.Run (Performs liquidCan) (new mapping) before middle) :
    (manager.slot nodeId).RenewedSince announcement (middle.slot nodeId).registered
      (after.filterMap (Operation.seenBy nodeId)) := by
  obtain ⟨found, first, rest⟩ := Transition.run_append_iff.mp run
  obtain ⟨next, ⟨uninterrupted, performed⟩, remaining⟩ := Transition.run_cons_iff.mp rest
  -- the manager is deterministic, so the run passes through the state that was reached
  obtain rfl := run_unique liquidCan first.weaken reached
  have taken := slot_perform liquidCan found next latest nodeId performed
  rw [seen] at taken
  have announced : next.slot nodeId = (found.slot nodeId).announce (.announced announcement) := taken.symm
  have renewed := NodeSlot.renewedSince_announce (uninterrupted _ seen)
  rw [← announced] at renewed
  exact NodeSlot.renewedSince_run liquidCan (slot_run liquidCan remaining.weaken nodeId) quiet renewed

theorem uninterrupted_iff_fromLatest {nodeId : UInt8} {operation : Operation} {next : NodeManager}
    (run : Transition.Run (Transition.Restrict (Uninterrupted nodeId) (Performs liquidCan)) (new mapping)
      operations manager) (performed : manager.Performs liquidCan operation next) :
    Uninterrupted nodeId manager operation ↔
      ∀ node, next.registeringNodes.lookup nodeId = some node →
        NodeSlot.FromLatest ((operations ++ [operation]).filterMap (Operation.seenBy nodeId)) node := by
  constructor
  · intro uninterrupted node registering
    exact fromLatest_run liquidCan (run.append (.cons ⟨uninterrupted, performed⟩ (.nil _))) registering
  · intro latest input seen timestamp announcement same noTelemetry noParameters
    subst same
    cases registering : (manager.slot nodeId).registering with
    | none => rfl
    | some pending =>
        have taken := slot_perform liquidCan manager next operation nodeId performed
        rw [seen] at taken
        have complete : (CanNode.new (.announced announcement)).nodeRegistrationComplete = true :=
          NodeSlot.complete_of_sentIn_nil (CanNode.sentIn_new announcement []) noTelemetry noParameters
        have announced : next.slot nodeId = (manager.slot nodeId).announce (.announced announcement) :=
          taken.symm
        have still : next.registeringNodes.lookup nodeId = some pending := by
          rw [← slot_registering, announced, NodeSlot.announce, if_pos complete]
          exact registering
        have incomplete := (settled_run liquidCan run.weaken nodeId).incomplete pending registering
        have impossible := latest pending still
        rw [List.filterMap_append, List.filterMap_cons_some seen, List.filterMap_nil] at impossible
        exact (NodeSlot.not_fromLatest_of_interrupted incomplete noTelemetry noParameters impossible).elim

/-- As long as no announcement without fields comes in between, an entry that is registering is made from
the latest announcement and what followed it, and so is every entry that completes; what was sent
before the latest announcement does not get into the registered nodes any more. -/
theorem registration_from_latest_iff {nodeId : UInt8}
    (run : Transition.Run (Transition.Restrict (Uninterrupted nodeId) (Performs liquidCan)) (new mapping)
      operations manager) :
    (∀ node, manager.registeringNodes.lookup nodeId = some node →
      NodeSlot.FromLatest (operations.filterMap (Operation.seenBy nodeId)) node) ∧
    (∀ timestamp message node, (manager.slot nodeId).Completes message node →
      NodeSlot.FromLatest
        (operations.filterMap (Operation.seenBy nodeId) ++ [.message timestamp message]) node) ∧
    (∀ before latest after middle timestamp announcement, operations = before ++ latest :: after →
      latest.seenBy nodeId = some (.message timestamp (.nodeInfoAnnouncement announcement)) →
      NodeSlot.Quiet (after.filterMap (Operation.seenBy nodeId)) →
      Transition.Run (Performs liquidCan) (new mapping) before middle →
      ∀ node, manager.canNodes.lookup nodeId = some node →
        node.SentIn announcement (after.filterMap (Operation.seenBy nodeId)) ∨
          ∃ earlier, middle.canNodes.lookup nodeId = some earlier ∧
            node.definition = earlier.definition) ∧
    ∀ operation next, manager.Performs liquidCan operation next →
      (Uninterrupted nodeId manager operation ↔
        ∀ node, next.registeringNodes.lookup nodeId = some node →
          NodeSlot.FromLatest ((operations ++ [operation]).filterMap (Operation.seenBy nodeId)) node) := by
  have latest : ∀ node, manager.registeringNodes.lookup nodeId = some node →
      NodeSlot.FromLatest (operations.filterMap (Operation.seenBy nodeId)) node :=
    fun node registering => fromLatest_run liquidCan run registering
  refine ⟨latest, ?_, ?_, ?_⟩
  · intro timestamp message node completes
    exact NodeSlot.fromLatest_of_completes latest completes
  · intro before operation after middle timestamp announcement split seen quiet reached node registered
    subst split
    exact (renewedSince_of_split liquidCan run seen quiet reached).registered node registered
  · intro operation next performed
    exact uninterrupted_iff_fromLatest liquidCan run performed

def interruptedRun : List Operation := [
  .message 0 ⟨1, 0⟩ (.nodeInfoAnnouncement ⟨1, 0, 0, 0, "tank"⟩),
  .message 1 ⟨1, 0⟩ (.nodeInfoAnnouncement ⟨0, 0, 0, 0, "valve"⟩)]

def lateRegistrations : List Operation := [
  .message 2 ⟨1, 0⟩ (.telemetryGroupDefinition ⟨0, [0]⟩),
  .message 3 ⟨1, 0⟩ (.telemetryValueRegistration ⟨0, .uint16, "pressure"⟩)]

/-- The node gives up its first registration, announces itself anew and completes the second one. -/
def abandonedRun : List Operation := [
  .message 0 ⟨1, 0⟩ (.nodeInfoAnnouncement ⟨1, 0, 0, 0, "tank"⟩),
  .message 1 ⟨1, 0⟩ (.telemetryGroupDefinition ⟨7, [9]⟩)]

def valveAnnouncement : NodeInfoResPayload := ⟨1, 0, 0, 0, "valve"⟩

def renewal : List Operation := [
  .message 3 ⟨1, 0⟩ (.telemetryGroupDefinition ⟨0, [0]⟩),
  .message 4 ⟨1, 0⟩ (.telemetryValueRegistration ⟨0, .uint16, "position"⟩)]

def renewedRun : List Operation :=
  abandonedRun ++ .message 2 ⟨1, 0⟩ (.nodeInfoAnnouncement valveAnnouncement) :: renewal

theorem renewedRun_announced : ∀ operation ∈ renewedRun, ∀ timestamp announcement,
    operation.seenBy 1 = some (.message timestamp (.nodeInfoAnnouncement announcement)) →
      announcement.telCount = 1 := by
  intro operation member timestamp announcement seen
  simp only [renewedRun, abandonedRun, renewal, List.cons_append, List.nil_append, List.mem_cons,
    List.not_mem_nil, or_false] at member
  rcases member with rfl | rfl | rfl | rfl | rfl <;> cases seen <;> rfl

theorem uninterrupted_of_announced {operations : List Operation} (part : operations ⊆ renewedRun) :
    Transition.Run (Transition.Restrict (Uninterrupted 1) (Performs LiquidCan.littleEndian)) (new {}) operations
      ((new {}).replay LiquidCan.littleEndian operations) := by
  refine ((run_iff_replay LiquidCan.littleEndian).mpr rfl).restrict (fun _ => True) (· ∈ renewedRun) ?_ trivial part
  intro state operation next _ member performed
  refine ⟨?_, trivial⟩
  rintro input seen timestamp announcement rfl noTelemetry _
  rw [renewedRun_announced operation member timestamp announcement seen] at noTelemetry
  cases noTelemetry

theorem registration_from_latest_tank : ∃ abandoned finish node,
    ((new {}).replay LiquidCan.littleEndian abandonedRun).registeringNodes.lookup 1 = some abandoned ∧
    Transition.Run (Transition.Restrict (Uninterrupted 1) (Performs LiquidCan.littleEndian)) (new {}) renewedRun finish ∧
    finish.canNodes.lookup 1 = some node ∧
    node.SentIn valveAnnouncement (renewal.filterMap (Operation.seenBy 1)) ∧
    NodeSlot.FromLatest (renewedRun.filterMap (Operation.seenBy 1)) node := by
  have abandoned : (((new {}).replay LiquidCan.littleEndian abandonedRun).registeringNodes.lookup 1).isSome = true := by
    decide
  obtain ⟨pending, registering⟩ := Option.isSome_iff_exists.mp abandoned
  have run := uninterrupted_of_announced (List.Subset.refl renewedRun)
  have quiet : NodeSlot.Quiet (renewal.filterMap (Operation.seenBy 1)) := by
    rintro announcement ⟨timestamp, member⟩
    simp [renewal, Operation.seenBy] at member
  obtain ⟨_, _, renewed, _⟩ := registration_from_latest_iff LiquidCan.littleEndian run
  obtain ⟨_, completes, _, _⟩ := registration_from_latest_iff LiquidCan.littleEndian
    (uninterrupted_of_announced (List.take_subset 4 renewedRun))
  refine ⟨pending, _, _, registering, run, rfl, ?_, ?_⟩
  · rcases renewed abandonedRun _ renewal _ 2 valveAnnouncement rfl rfl quiet
      ((run_iff_replay LiquidCan.littleEndian).mpr rfl) _ rfl with sent | ⟨earlier, there, _⟩
    · exact sent
    · cases there
  · exact completes 4 (.telemetryValueRegistration ⟨0, .uint16, "position"⟩) _ (Or.inr ⟨_, _, rfl, rfl, rfl⟩)

theorem interrupted_registration_revived :
    ¬ ∀ (operations : List Operation) (manager : NodeManager) (nodeId : UInt8),
      Transition.Run (Performs LiquidCan.littleEndian) (new {}) operations manager →
      (∀ node, manager.registeringNodes.lookup nodeId = some node →
        NodeSlot.FromLatest (operations.filterMap (Operation.seenBy nodeId)) node) ∧
      ∀ before latest after middle timestamp announcement, operations = before ++ latest :: after →
        latest.seenBy nodeId = some (.message timestamp (.nodeInfoAnnouncement announcement)) →
        NodeSlot.Quiet (after.filterMap (Operation.seenBy nodeId)) →
        Transition.Run (Performs LiquidCan.littleEndian) (new {}) before middle →
        ∀ node, manager.canNodes.lookup nodeId = some node →
          node.SentIn announcement (after.filterMap (Operation.seenBy nodeId)) ∨
            ∃ earlier, middle.canNodes.lookup nodeId = some earlier ∧
              node.definition = earlier.definition := by
  intro claim
  let finished := (new {}).replay LiquidCan.littleEndian (interruptedRun ++ lateRegistrations)
  have run : Transition.Run (Performs LiquidCan.littleEndian) (new {}) (interruptedRun ++ lateRegistrations)
      finished := (run_iff_replay LiquidCan.littleEndian).mpr rfl
  have before : Transition.Run (Performs LiquidCan.littleEndian) (new {}) (interruptedRun.take 1)
      ((new {}).replay LiquidCan.littleEndian (interruptedRun.take 1)) :=
    (run_iff_replay LiquidCan.littleEndian).mpr rfl
  have quiet : NodeSlot.Quiet (lateRegistrations.filterMap (Operation.seenBy 1)) := by
    rintro announcement ⟨timestamp, member⟩
    simp [lateRegistrations, Operation.seenBy] at member
  cases revived : finished.canNodes.lookup 1 with
  | none =>
      have registered : (finished.canNodes.lookup 1).isSome = true := by decide
      rw [revived] at registered
      cases registered
  | some node =>
      have name : (finished.canNodes.lookup 1).map (fun node => node.registrationInfo.deviceName) =
          some "tank" := by decide
      rw [revived] at name
      have latest : Operation.seenBy 1 (.message 1 ⟨1, 0⟩ (.nodeInfoAnnouncement ⟨0, 0, 0, 0, "valve"⟩)) =
          some (.message 1 (.nodeInfoAnnouncement ⟨0, 0, 0, 0, "valve"⟩)) := rfl
      rcases (claim _ _ 1 run).2 (interruptedRun.take 1) _ lateRegistrations _ _ _ rfl latest quiet before
        node revived with sent | ⟨earlier, there, _⟩
      · rw [Option.map_some, sent.registrationInfo] at name
        exact absurd (Option.some.inj name) (by decide)
      · cases there

end NodeManager

end FerroFlow
