import FerroFlow.SequenceDefinition
import Mathlib.Data.List.Chain

/-! What validation guarantees of an accepted sequence. -/

namespace FerroFlow

namespace Sequence

structure ValidAction (seq : Sequence) (step : Step) (timedAction : TimedAction) : Prop where
  afterStep : step.timestamp ≤ timedAction.timestamp
  beforeEnd : timedAction.timestamp ≤ seq.globals.endTime
  conditions : ∀ conditions, timedAction.action = .hold (.conditional conditions) → conditions ≠ []

structure ValidStep (seq : Sequence) (step : Step) : Prop where
  afterStart : seq.globals.startTime ≤ step.timestamp
  beforeEnd : step.timestamp ≤ seq.globals.endTime
  nonEmpty : step.actions ≠ []
  actions : ∀ timedAction ∈ step.actions, seq.ValidAction step timedAction

structure Precedes (step next : Step) : Prop where
  ordered : step.timestamp < next.timestamp
  actions : ∀ timedAction ∈ step.actions, timedAction.timestamp < next.timestamp

structure Valid (seq : Sequence) : Prop where
  startNotPositive : seq.globals.startTime ≤ .finite 0
  startBeforeEnd : seq.globals.startTime ≤ seq.globals.endTime
  nonEmpty : seq.steps ≠ []
  steps : ∀ step ∈ seq.steps, seq.ValidStep step
  neighbours : ∀ window ∈ seq.steps.zip seq.steps.tail, Precedes window.1 window.2

theorem validateTimedAction_ok_iff (seq : Sequence) (step : Step) (timedAction : TimedAction) :
    seq.validateTimedAction step timedAction = .ok () ↔ seq.ValidAction step timedAction := by
  unfold validateTimedAction
  rw [Checks.bind_unit_ok_iff, Checks.bind_unit_ok_iff, require_ok_iff, require_ok_iff]
  cases action : timedAction.action with
  | setParam paramState =>
      constructor
      · rintro ⟨after, before, _⟩
        exact ⟨after, before, by simp [action]⟩
      · intro valid
        exact ⟨valid.afterStep, valid.beforeEnd, rfl⟩
  | hold mode =>
      cases mode with
      | always =>
          constructor
          · rintro ⟨after, before, _⟩
            exact ⟨after, before, by simp [action]⟩
          · intro valid
            exact ⟨valid.afterStep, valid.beforeEnd, rfl⟩
      | conditional conditions =>
          simp only [require_ok_iff]
          constructor
          · rintro ⟨after, before, some⟩
            refine ⟨after, before, ?_⟩
            intro others same
            rw [action] at same
            obtain rfl : conditions = others := by simpa using same
            exact some
          · intro valid
            exact ⟨valid.afterStep, valid.beforeEnd, valid.conditions conditions action⟩

theorem validateStep_ok_iff (seq : Sequence) (step : Step) :
    seq.validateStep step = .ok () ↔ seq.ValidStep step := by
  unfold validateStep
  simp only [Checks.bind_unit_ok_iff, require_ok_iff, Checks.checkAll_ok_iff, validateTimedAction_ok_iff]
  constructor
  · rintro ⟨start, finish, some, actions⟩
    exact ⟨start, finish, some, actions⟩
  · intro valid
    exact ⟨valid.afterStart, valid.beforeEnd, valid.nonEmpty, valid.actions⟩

theorem validateNeighbours_ok_iff (window : Step × Step) :
    validateNeighbours window = .ok () ↔ Precedes window.1 window.2 := by
  unfold validateNeighbours
  simp only [Checks.bind_unit_ok_iff, require_ok_iff, Checks.checkAll_ok_iff]
  constructor
  · rintro ⟨step, actions⟩
    exact ⟨step, actions⟩
  · intro precedes
    exact ⟨precedes.ordered, precedes.actions⟩

theorem validate_ok_iff (seq : Sequence) : seq.validate = .ok () ↔ seq.Valid := by
  unfold validate
  simp only [Checks.bind_unit_ok_iff, require_ok_iff, Checks.checkAll_ok_iff, validateStep_ok_iff,
    validateNeighbours_ok_iff]
  constructor
  · rintro ⟨start, finish, some, steps, neighbours⟩
    exact ⟨start, finish, some, steps, neighbours⟩
  · intro valid
    exact ⟨valid.startNotPositive, valid.startBeforeEnd, valid.nonEmpty, valid.steps, valid.neighbours⟩

theorem Precedes.trans {first second third : Step} (left : Precedes first second)
    (right : Precedes second third) : Precedes first third := by
  constructor
  · exact ExactFloat.lt_of_lt_of_le left.ordered (ExactFloat.le_of_lt right.ordered)
  · intro timedAction member
    exact ExactFloat.lt_of_lt_of_le (left.actions timedAction member) (ExactFloat.le_of_lt right.ordered)

instance : Trans Precedes Precedes Precedes := ⟨Precedes.trans⟩

theorem isChain_of_zip_tail {α : Type} {relation : α → α → Prop} {values : List α}
    (windows : ∀ window ∈ values.zip values.tail, relation window.1 window.2) :
    values.IsChain relation := by
  induction values with
  | nil => exact List.IsChain.nil
  | cons first rest ih =>
      cases rest with
      | nil => exact List.IsChain.singleton first
      | cons second rest =>
          refine List.IsChain.cons_cons (windows (first, second) (by simp)) (ih ?_)
          intro window member
          exact windows window (List.mem_cons_of_mem _ member)

theorem Valid.pairwise {seq : Sequence} (valid : seq.Valid) : seq.steps.Pairwise Precedes :=
  List.isChain_iff_pairwise.mp (isChain_of_zip_tail valid.neighbours)

/-- Validation leaves the order within a step open, and settles it between steps. -/
theorem Valid.sorted_iff {seq : Sequence} (valid : seq.Valid) :
    seq.flattenedActions.Pairwise (fun left right => left.timestamp ≤ right.timestamp) ↔
      ∀ step ∈ seq.steps, step.actions.Pairwise fun left right => left.timestamp ≤ right.timestamp := by
  unfold flattenedActions
  rw [List.pairwise_flatMap]
  refine ⟨And.left, fun sorted => ⟨sorted, ?_⟩⟩
  refine valid.pairwise.imp_of_mem ?_
  intro first second _ secondMember precedes left leftMember right rightMember
  have gap := precedes.actions left leftMember
  have start := ((valid.steps second secondMember).actions right rightMember).afterStep
  exact ExactFloat.le_of_lt (ExactFloat.lt_of_lt_of_le gap start)

theorem Valid.bounds {seq : Sequence} (valid : seq.Valid) {timedAction : TimedAction}
    (member : timedAction ∈ seq.flattenedActions) :
    seq.globals.startTime ≤ timedAction.timestamp ∧ timedAction.timestamp ≤ seq.globals.endTime := by
  obtain ⟨step, stepMember, actionMember⟩ := List.mem_flatMap.mp member
  have validStep := valid.steps step stepMember
  have validAction := validStep.actions timedAction actionMember
  exact ⟨ExactFloat.le_trans validStep.afterStart validAction.afterStep, validAction.beforeEnd⟩

theorem Valid.exists_action {seq : Sequence} (valid : seq.Valid) :
    ∃ timedAction, timedAction ∈ seq.flattenedActions := by
  obtain ⟨step, stepMember⟩ := List.exists_mem_of_ne_nil _ valid.nonEmpty
  obtain ⟨timedAction, member⟩ := List.exists_mem_of_ne_nil _ (valid.steps step stepMember).nonEmpty
  exact ⟨timedAction, List.mem_flatMap.mpr ⟨step, stepMember, member⟩⟩

/-- The global timeline, over all pairs of steps instead of neighbours. -/
structure Timeline (seq : Sequence) : Prop where
  startNotPositive : seq.globals.startTime ≤ .finite 0
  startBeforeEnd : seq.globals.startTime ≤ seq.globals.endTime
  nonEmpty : seq.steps ≠ []
  someAction : ∀ step ∈ seq.steps, step.actions ≠ []
  someCondition : ∀ step ∈ seq.steps, ∀ timedAction ∈ step.actions, ∀ conditions,
    timedAction.action = .hold (.conditional conditions) → conditions ≠ []
  bounds : ∀ index (inside : index < seq.steps.length),
    ∀ timedAction ∈ seq.steps[index].actions,
      seq.globals.startTime ≤ seq.steps[index].timestamp ∧
        seq.steps[index].timestamp ≤ timedAction.timestamp ∧
        timedAction.timestamp ≤ seq.globals.endTime
  ordered : ∀ earlier later (inside : later < seq.steps.length) (before : earlier < later),
    ∀ timedAction ∈ seq.steps[earlier].actions,
      timedAction.timestamp < seq.steps[later].timestamp

theorem Valid.timeline {seq : Sequence} (valid : seq.Valid) : seq.Timeline := by
  refine ⟨valid.startNotPositive, valid.startBeforeEnd, valid.nonEmpty, ?_, ?_, ?_, ?_⟩
  · intro step member
    exact (valid.steps step member).nonEmpty
  · intro step member timedAction actionMember
    exact ((valid.steps step member).actions timedAction actionMember).conditions
  · intro index inside timedAction member
    have validStep := valid.steps _ (List.getElem_mem inside)
    have validAction := validStep.actions timedAction member
    exact ⟨validStep.afterStart, validAction.afterStep, validAction.beforeEnd⟩
  · intro earlier later inside before timedAction member
    have precedes := List.pairwise_iff_getElem.mp valid.pairwise earlier later (by omega) inside before
    exact precedes.actions timedAction member

theorem Timeline.validStep {seq : Sequence} (timeline : seq.Timeline) {index : Nat}
    (inside : index < seq.steps.length) : seq.ValidStep seq.steps[index] := by
  have member : seq.steps[index] ∈ seq.steps := List.getElem_mem inside
  -- The end bounds a step only through the actions it has.
  obtain ⟨first, firstMember⟩ := List.exists_mem_of_ne_nil _ (timeline.someAction _ member)
  have ⟨start, after, before⟩ := timeline.bounds index inside first firstMember
  refine ⟨start, ExactFloat.le_trans after before, timeline.someAction _ member, ?_⟩
  intro timedAction actionMember
  have ⟨_, after, before⟩ := timeline.bounds index inside timedAction actionMember
  exact ⟨after, before, timeline.someCondition _ member timedAction actionMember⟩

theorem Timeline.precedes {seq : Sequence} (timeline : seq.Timeline) {earlier later : Nat}
    (inside : later < seq.steps.length) (before : earlier < later) :
    Precedes seq.steps[earlier] seq.steps[later] := by
  have ordered := timeline.ordered earlier later inside before
  have member : seq.steps[earlier] ∈ seq.steps := List.getElem_mem (by omega)
  obtain ⟨first, firstMember⟩ := List.exists_mem_of_ne_nil _ (timeline.someAction _ member)
  have ⟨_, after, _⟩ := timeline.bounds earlier (by omega) first firstMember
  exact ⟨ExactFloat.lt_of_le_of_lt after (ordered first firstMember), ordered⟩

theorem Timeline.valid {seq : Sequence} (timeline : seq.Timeline) : seq.Valid := by
  refine ⟨timeline.startNotPositive, timeline.startBeforeEnd, timeline.nonEmpty, ?_, ?_⟩
  · intro step member
    obtain ⟨index, inside, rfl⟩ := List.getElem_of_mem member
    exact timeline.validStep inside
  · intro window member
    obtain ⟨index, inside, rfl⟩ := List.getElem_of_mem member
    simp only [List.length_zip, List.length_tail] at inside
    simp only [List.getElem_zip, List.getElem_tail]
    exact timeline.precedes (by omega) (by omega)

theorem Timeline.actions_ordered {seq : Sequence} (timeline : seq.Timeline) {earlier later : Nat}
    (inside : later < seq.steps.length) (before : earlier < later) {left right : TimedAction}
    (leftMember : left ∈ seq.steps[earlier].actions)
    (rightMember : right ∈ seq.steps[later].actions) : left.timestamp < right.timestamp := by
  have gap := timeline.ordered earlier later inside before left leftMember
  have ⟨_, after, _⟩ := timeline.bounds later inside right rightMember
  exact ExactFloat.lt_of_lt_of_le gap after

theorem validate_timeline (seq : Sequence) :
    (seq.validate = .ok () ↔ seq.Timeline) ∧
    (seq.validate = .ok () → ∀ earlier later (inside : later < seq.steps.length)
      (before : earlier < later), ∀ left ∈ seq.steps[earlier].actions,
      ∀ right ∈ seq.steps[later].actions, left.timestamp < right.timestamp) := by
  have settled : seq.validate = .ok () ↔ seq.Timeline := by
    rw [validate_ok_iff]
    exact ⟨Valid.timeline, Timeline.valid⟩
  refine ⟨settled, ?_⟩
  intro accepted earlier later inside before left leftMember right rightMember
  exact (settled.mp accepted).actions_ordered inside before leftMember rightMember

end Sequence

end FerroFlow
