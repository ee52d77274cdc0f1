import FerroFlow.SequenceRamp
import FerroFlow.SequenceSteps
import FerroFlow.SequenceValidation

/-! When the schedule of an accepted sequence is in the order of its timestamps. Validation orders
the steps, but neither the actions within one step nor the actions that lie between the ends
of a ramp and its inserted settings. -/

namespace FerroFlow

structure Sequence.FiniteTimes (seq : Sequence) : Prop where
  start : ∃ time, seq.globals.startTime = .finite time
  actions : ∀ timedAction ∈ seq.flattenedActions, ∃ time, timedAction.timestamp = .finite time

/-- No action between the ends of a ramp is later than the first setting of the ramp. -/
def Sequence.RampsClear (seq : Sequence) : Prop :=
  ∀ param past second rest between start finish,
    seq.flattenedActions = past ++ second :: rest →
    Consecutive seq.globals param past second between start finish →
    Ramps seq.globals.interpolationInterval start finish →
    ∀ timedAction ∈ between, (shifted seq.globals timedAction).timestamp ≤
      start.timestamp + seq.globals.interpolationInterval.asSecsF64

theorem shifted_sublist_built (globals : Globals) (actions : List TimedAction) :
    (actions.map (shifted globals)).Sublist (built globals actions) := by
  induction actions using List.reverseRecOn with
  | nil => exact List.nil_sublist _
  | append_singleton past timedAction ih =>
      rw [built_concat, List.map_append, List.map_singleton]
      refine List.Sublist.append ?_ (List.Sublist.refl _)
      exact ih.trans (List.sublist_append_left _ _)

section

variable {globals : Globals} {startTime : ℚ}

theorem shifted_timestamp (start : globals.startTime = .finite startTime) {timedAction : TimedAction}
    {time : ℚ} (actionAt : timedAction.timestamp = .finite time) :
    (shifted globals timedAction).timestamp = .finite (time - startTime) := by
  simp only [shifted, actionAt, start, ExactFloat.finite_sub_finite]

theorem shifted_le_iff (start : globals.startTime = .finite startTime) {left right : TimedAction}
    (leftFinite : ∃ time, left.timestamp = .finite time)
    (rightFinite : ∃ time, right.timestamp = .finite time) :
    (shifted globals left).timestamp ≤ (shifted globals right).timestamp ↔
      left.timestamp ≤ right.timestamp := by
  obtain ⟨leftTime, leftAt⟩ := leftFinite
  obtain ⟨rightTime, rightAt⟩ := rightFinite
  rw [shifted_timestamp start leftAt, shifted_timestamp start rightAt, leftAt, rightAt,
    ExactFloat.finite_le_finite, ExactFloat.finite_le_finite]
  exact sub_le_sub_iff_right startTime

theorem Consecutive.times (start : globals.startTime = .finite startTime) {param : String}
    {past between : List TimedAction} {second : TimedAction} {opening finish : TimedValue}
    (consecutive : Consecutive globals param past second between opening finish)
    (finite : ∀ timedAction ∈ past ++ [second], ∃ time, timedAction.timestamp = .finite time) :
    (∃ time, opening.timestamp = .finite time) ∧ (∃ time, finish.timestamp = .finite time) ∧
      finish.timestamp = (shifted globals second).timestamp := by
  obtain ⟨before, first, rfl, set⟩ := consecutive.split
  obtain ⟨firstTime, firstAt⟩ := finite first (by simp)
  obtain ⟨secondTime, secondAt⟩ := finite second (by simp)
  have fromAt := (settingOf_eq_some_iff.mp set).2.2
  have finishAt := (settingOf_eq_some_iff.mp consecutive.second).2.2
  refine ⟨⟨firstTime - startTime, ?_⟩, ⟨secondTime - startTime, ?_⟩, finishAt⟩
  · rw [fromAt, firstAt, start, ExactFloat.finite_sub_finite]
  · rw [finishAt, secondAt, start, ExactFloat.finite_sub_finite]

end

namespace Sequence

variable {seq : Sequence}

theorem FiniteTimes.of_split (finite : seq.FiniteTimes) {past rest : List TimedAction}
    {second : TimedAction} (split : seq.flattenedActions = past ++ second :: rest) :
    ∀ timedAction ∈ past ++ [second], ∃ time, timedAction.timestamp = .finite time := by
  intro timedAction member
  apply finite.actions
  rw [split]
  rcases List.mem_append.mp member with earlier | last
  · exact List.mem_append_left _ earlier
  · rw [List.mem_singleton.mp last]
    simp

theorem clear_of_sorted (finite : seq.FiniteTimes)
    (positive : 0 < seq.globals.interpolationInterval.nanos)
    (sorted : (flattenAndInterpolate seq).Pairwise fun left right => left.timestamp ≤ right.timestamp) :
    (seq.flattenedActions.Pairwise fun left right => left.timestamp ≤ right.timestamp) ∧
      seq.RampsClear := by
  obtain ⟨startTime, start⟩ := finite.start
  constructor
  · have whole : (seq.flattenedActions.map (shifted seq.globals)).Pairwise
        fun left right => left.timestamp ≤ right.timestamp :=
      sorted.sublist (shifted_sublist_built seq.globals seq.flattenedActions)
    rw [List.pairwise_map] at whole
    refine whole.imp_of_mem ?_
    intro left right leftMember rightMember ordered
    exact (shifted_le_iff start (finite.actions left leftMember) (finite.actions right rightMember)).mp ordered
  · intro param past second rest between opening finish split consecutive ramps timedAction member
    obtain ⟨⟨openingTime, openingAt⟩, ⟨finishTime, finishAt⟩, _⟩ :=
      consecutive.times start (finite.of_split split)
    obtain ⟨inserted, insertedMember, time⟩ := exists_first_mem_ramp param openingAt finishAt
      (Duration.secs_pos positive) ramps
    obtain ⟨later, whole⟩ := flattenAndInterpolate_split split
    rw [whole, List.pairwise_append] at sorted
    have before := (List.pairwise_append.mp sorted.1).2.2
    have earlier : shifted seq.globals timedAction ∈ built seq.globals past := by
      obtain ⟨others, first, rfl, _⟩ := consecutive.split
      exact (mem_built_iff _ _ _).mpr (Or.inl ⟨timedAction, by simp [member], rfl⟩)
    have ordered := before _ earlier inserted (by rw [consecutive.insertedBefore]; exact insertedMember)
    rw [openingAt, Duration.asSecsF64_eq, ExactFloat.finite_add_finite, ← time]
    exact ordered

structure SortedSoFar (seq : Sequence) (past : List TimedAction) : Prop where
  sorted : (built seq.globals past).Pairwise fun left right => left.timestamp ≤ right.timestamp
  bounded : ∀ pushed ∈ built seq.globals past, ∃ timedAction ∈ past,
    pushed.timestamp ≤ (shifted seq.globals timedAction).timestamp

theorem le_refl_of_finite {timedAction : TimedAction} (finite : ∃ time, timedAction.timestamp = .finite time) :
    timedAction.timestamp ≤ timedAction.timestamp := by
  obtain ⟨time, actionAt⟩ := finite
  rw [actionAt, ExactFloat.finite_le_finite]

theorem past_before_ramp (finite : seq.FiniteTimes) (clear : seq.RampsClear) {param : String}
    {past rest between : List TimedAction} {second : TimedAction} {opening finish : TimedValue}
    (sorted : past.Pairwise fun left right => left.timestamp ≤ right.timestamp)
    (split : seq.flattenedActions = past ++ second :: rest)
    (consecutive : Consecutive seq.globals param past second between opening finish)
    (ramps : Ramps seq.globals.interpolationInterval opening finish) {timedAction : TimedAction}
    (member : timedAction ∈ past) : (shifted seq.globals timedAction).timestamp ≤
      opening.timestamp + seq.globals.interpolationInterval.asSecsF64 := by
  obtain ⟨startTime, start⟩ := finite.start
  have times := finite.of_split split
  obtain ⟨⟨openingTime, openingAt⟩, _, _⟩ := consecutive.times start times
  obtain ⟨before, first, whole, set⟩ := consecutive.split
  have openingShifted : opening.timestamp = (shifted seq.globals first).timestamp :=
    (settingOf_eq_some_iff.mp set).2.2
  have firstFinite := times first (by simp [whole])
  have afterOpening : opening.timestamp ≤
      opening.timestamp + seq.globals.interpolationInterval.asSecsF64 := by
    rw [openingAt, Duration.asSecsF64_eq, ExactFloat.finite_add_finite, ExactFloat.finite_le_finite]
    have nonneg := seq.globals.interpolationInterval.secs_nonneg
    linarith
  have upToFirst (ordered : timedAction.timestamp ≤ first.timestamp) :
      (shifted seq.globals timedAction).timestamp ≤ opening.timestamp := by
    rw [openingShifted]
    exact (shifted_le_iff start (times timedAction (by simp [member])) firstFinite).mpr ordered
  rw [whole] at member sorted
  rcases List.mem_append.mp member with early | atOrAfter
  · have ordered := (List.pairwise_append.mp sorted).2.2 timedAction early first (by simp)
    exact ExactFloat.le_trans (upToFirst ordered) afterOpening
  · rcases List.mem_cons.mp atOrAfter with rfl | inBetween
    · exact ExactFloat.le_trans (upToFirst (le_refl_of_finite firstFinite)) afterOpening
    · exact clear param past second rest between opening finish split consecutive ramps timedAction inBetween

theorem SortedSoFar.inserted {past rest : List TimedAction} {second : TimedAction}
    (soFar : seq.SortedSoFar past) (finite : seq.FiniteTimes)
    (sorted : past.Pairwise fun left right => left.timestamp ≤ right.timestamp)
    (clear : seq.RampsClear) (split : seq.flattenedActions = past ++ second :: rest) :
    (insertedBefore seq.globals past second).Pairwise
        (fun left right => left.timestamp ≤ right.timestamp) ∧
      ∀ inserted ∈ insertedBefore seq.globals past second,
        inserted.timestamp ≤ (shifted seq.globals second).timestamp ∧
        ∀ pushed ∈ built seq.globals past, pushed.timestamp ≤ inserted.timestamp := by
  obtain ⟨startTime, start⟩ := finite.start
  by_cases none : insertedBefore seq.globals past second = []
  · rw [none]
    simp
  · obtain ⟨witness, member⟩ := List.exists_mem_of_ne_nil _ none
    obtain ⟨param, between, opening, finish, consecutive⟩ := consecutive_of_mem_insertedBefore member
    obtain ⟨⟨openingTime, openingAt⟩, ⟨finishTime, finishAt⟩, finishSecond⟩ :=
      consecutive.times start (finite.of_split split)
    rw [consecutive.insertedBefore] at member ⊢
    have ramps := (mem_ramp_iff.mp member).1
    refine ⟨ramp_pairwise param openingAt, ?_⟩
    intro inserted insertedMember
    obtain ⟨time, insertedAt, first, last⟩ := mem_ramp_time openingAt finishAt insertedMember
    constructor
    · rw [insertedAt, ← finishSecond, finishAt, ExactFloat.finite_le_finite]
      exact last
    · intro pushed pushedMember
      obtain ⟨timedAction, actionMember, bound⟩ := soFar.bounded pushed pushedMember
      have reachesFirst := past_before_ramp finite clear sorted split consecutive ramps actionMember
      have toInserted : opening.timestamp + seq.globals.interpolationInterval.asSecsF64 ≤
          inserted.timestamp := by
        rw [openingAt, insertedAt, Duration.asSecsF64_eq, ExactFloat.finite_add_finite,
          ExactFloat.finite_le_finite]
        exact first
      exact ExactFloat.le_trans (ExactFloat.le_trans bound reachesFirst) toInserted

theorem SortedSoFar.push {past rest : List TimedAction} {second : TimedAction}
    (soFar : seq.SortedSoFar past) (finite : seq.FiniteTimes)
    (sorted : seq.flattenedActions.Pairwise fun left right => left.timestamp ≤ right.timestamp)
    (clear : seq.RampsClear) (split : seq.flattenedActions = past ++ second :: rest) :
    seq.SortedSoFar (past ++ [second]) := by
  obtain ⟨startTime, start⟩ := finite.start
  have times := finite.of_split split
  rw [split, List.pairwise_append] at sorted
  obtain ⟨pastSorted, _, pastBefore⟩ := sorted
  obtain ⟨secondTime, secondAt⟩ := times second (by simp)
  have pushedBefore : ∀ pushed ∈ built seq.globals past,
      pushed.timestamp ≤ (shifted seq.globals second).timestamp := by
    intro pushed member
    obtain ⟨timedAction, actionMember, bound⟩ := soFar.bounded pushed member
    have ordered := pastBefore timedAction actionMember second (by simp)
    have shiftedOrdered :=
      (shifted_le_iff start (times timedAction (by simp [actionMember])) ⟨secondTime, secondAt⟩).mpr ordered
    exact ExactFloat.le_trans bound shiftedOrdered
  obtain ⟨insertedSorted, insertedBetween⟩ := soFar.inserted finite pastSorted clear split
  have upToSecond : ∀ earlier ∈ built seq.globals past ++ insertedBefore seq.globals past second,
      earlier.timestamp ≤ (shifted seq.globals second).timestamp := by
    intro earlier member
    rcases List.mem_append.mp member with pushed | inserted
    · exact pushedBefore earlier pushed
    · exact (insertedBetween earlier inserted).1
  constructor
  · rw [built_concat, List.pairwise_append, List.pairwise_append]
    refine ⟨⟨soFar.sorted, insertedSorted, ?_⟩, List.pairwise_singleton _ _, ?_⟩
    · intro pushed pushedMember inserted insertedMember
      exact (insertedBetween inserted insertedMember).2 pushed pushedMember
    · intro earlier member last lastMember
      rw [List.mem_singleton.mp lastMember]
      exact upToSecond earlier member
  · intro pushed member
    rw [built_concat] at member
    refine ⟨second, by simp, ?_⟩
    rcases List.mem_append.mp member with earlier | last
    · exact upToSecond pushed earlier
    · rw [List.mem_singleton.mp last]
      exact le_refl_of_finite ⟨_, shifted_timestamp start secondAt⟩

theorem sorted_of_clear (finite : seq.FiniteTimes)
    (sorted : seq.flattenedActions.Pairwise fun left right => left.timestamp ≤ right.timestamp)
    (clear : seq.RampsClear) :
    (flattenAndInterpolate seq).Pairwise fun left right => left.timestamp ≤ right.timestamp := by
  have soFar : ∀ past rest, seq.flattenedActions = past ++ rest → seq.SortedSoFar past := by
    intro past
    induction past using List.reverseRecOn with
    | nil =>
        intro rest _
        exact ⟨List.Pairwise.nil, by simp [built]⟩
    | append_singleton past second ih =>
        intro rest split
        have regrouped : seq.flattenedActions = past ++ second :: rest := by simp [split]
        exact (ih _ regrouped).push finite sorted clear regrouped
  exact (soFar seq.flattenedActions [] (by simp)).sorted

/-- The schedule of an accepted sequence is sorted exactly when the actions of every step are, and
no action between the ends of a ramp is later than its first inserted setting; then every run
executes it in the order of time. -/
theorem schedule_sorted_iff (validated : seq.validate = .ok ()) (finite : seq.FiniteTimes)
    (positive : 0 < seq.globals.interpolationInterval.nanos) :
    ((flattenAndInterpolate seq).Pairwise (fun left right => left.timestamp ≤ right.timestamp) ↔
      (∀ step ∈ seq.steps, step.actions.Pairwise fun left right => left.timestamp ≤ right.timestamp) ∧
        seq.RampsClear) ∧
    ((flattenAndInterpolate seq).Pairwise (fun left right => left.timestamp ≤ right.timestamp) →
      ∀ abortSeq clock nodeManager moves thread,
        Transition.Run SequenceThread.Moves (.spawn seq abortSeq clock nodeManager) moves thread →
        (thread.executedIn .main).Pairwise fun left right => left.timestamp ≤ right.timestamp) := by
  have valid := (validate_ok_iff seq).mp validated
  constructor
  · rw [← valid.sorted_iff]
    constructor
    · exact clear_of_sorted finite positive
    · rintro ⟨sorted, clear⟩
      exact sorted_of_clear finite sorted clear
  · intro sorted abortSeq clock nodeManager moves thread run
    have inOrder := SequenceThread.inOrder_run run
    have executed : ∃ rest, thread.executedIn .main ++ rest = flattenAndInterpolate seq := by
      cases phase : thread.phase with
      | main => exact ⟨_, (inOrder.inMain phase).1⟩
      | abort => exact (inOrder.inAbort phase).1
    obtain ⟨rest, whole⟩ := executed
    rw [← whole] at sorted
    exact (List.pairwise_append.mp sorted).1

def openingRamp (others : List Step) : Sequence where
  name := "ramp"
  globals := {
    startTime := .finite 0
    endTime := .finite 10
    interpolationInterval := ⟨5 * 10 ^ 8⟩
    interpolations := AList.insert "valve" .linear ∅ }
  steps := [{
      name := "closed"
      timestamp := .finite 0
      actions := [⟨.finite 0, .setParam ⟨"valve", .finite 0⟩⟩] }] ++ others ++ [{
      name := "open"
      timestamp := .finite 2
      actions := [⟨.finite 2, .setParam ⟨"valve", .finite 1⟩⟩] }]

theorem openingRamp_clear : (openingRamp []).RampsClear := by
  have times : ∀ timedAction ∈ (openingRamp []).flattenedActions,
      timedAction.timestamp.isFinite = true := by decide
  have finite : (openingRamp []).FiniteTimes :=
    ⟨⟨0, rfl⟩, fun timedAction member => (ExactFloat.isFinite_iff _).mp (times timedAction member)⟩
  have sorted : (flattenAndInterpolate (openingRamp [])).Pairwise
      fun left right => left.timestamp ≤ right.timestamp := by decide +kernel
  exact ((schedule_sorted_iff (by decide) finite (by decide)).1.mp sorted).2

def holdOnTheWay : Step where
  name := "hold"
  timestamp := .finite (3 / 2)
  actions := [⟨.finite (3 / 2), .hold .always⟩]

theorem hold_overtakes_ramp :
    ¬ ∀ seq : Sequence, seq.validate = .ok () → seq.FiniteTimes →
      0 < seq.globals.interpolationInterval.nanos →
      (flattenAndInterpolate seq).Pairwise fun left right => left.timestamp ≤ right.timestamp := by
  intro claim
  have times : ∀ timedAction ∈ (openingRamp [holdOnTheWay]).flattenedActions,
      timedAction.timestamp.isFinite = true := by decide
  have finite : (openingRamp [holdOnTheWay]).FiniteTimes :=
    ⟨⟨0, rfl⟩, fun timedAction member => (ExactFloat.isFinite_iff _).mp (times timedAction member)⟩
  have sorted := claim (openingRamp [holdOnTheWay]) (by decide +kernel) finite (by decide)
  have unsorted : ¬ (flattenAndInterpolate (openingRamp [holdOnTheWay])).Pairwise
      fun left right => left.timestamp ≤ right.timestamp := by decide +kernel
  exact unsorted sorted

end Sequence

end FerroFlow
