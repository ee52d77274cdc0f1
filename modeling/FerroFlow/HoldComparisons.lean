import FerroFlow.SequenceRunner
import FerroFlow.FieldReads

/-! The six comparisons of a conditional hold are built separately, from the strict order and
a tolerance test. They fit together except at one point: a value and a reference that are the
same infinity, whose difference is NaN. -/

namespace FerroFlow

section ApproximateEquality

variable {left right epsilon : F64}

theorem f64ApproxEq_self (value : ℚ) (tolerance : (.finite 0 : F64) ≤ epsilon) :
    f64ApproxEq (.finite value) (.finite value) epsilon = true := by
  unfold f64ApproxEq
  rw [if_neg (ExactFloat.not_lt_self _), ExactFloat.finite_sub_finite, sub_self]
  exact decide_eq_true tolerance

theorem f64ApproxEq_infinite {infinity : F64} (infinite : infinity.isFinite = false) :
    f64ApproxEq infinity infinity epsilon = false := by
  unfold f64ApproxEq
  rw [if_neg (ExactFloat.not_lt_self _)]
  cases infinity with
  | finite value => cases infinite
  | nan => rfl
  | negInf => rfl
  | posInf => rfl

theorem f64ApproxEq_comm (epsilon : F64) (leftNumber : left ≠ .nan) (rightNumber : right ≠ .nan) :
    f64ApproxEq left right epsilon = f64ApproxEq right left epsilon := by
  unfold f64ApproxEq
  rcases ExactFloat.lt_or_eq_or_gt leftNumber rightNumber with less | same | greater
  · rw [if_neg (ExactFloat.not_lt_of_lt less), if_pos less]
  · rw [same]
  · rw [if_pos greater, if_neg (ExactFloat.not_lt_of_lt greater)]

theorem lt_or_gt_of_not_approx (leftNumber : left ≠ .nan) (rightNumber : right ≠ .nan)
    (tolerance : (.finite 0 : F64) ≤ epsilon) (apart : ¬ (left = right ∧ left.isFinite = false))
    (outside : f64ApproxEq left right epsilon = false) : left < right ∨ right < left := by
  rcases ExactFloat.lt_or_eq_or_gt leftNumber rightNumber with less | same | greater
  · exact Or.inl less
  · subst same
    have finite : left.isFinite = true := by
      by_contra infinite
      exact apart ⟨rfl, Bool.eq_false_iff.mpr infinite⟩
    obtain ⟨value, rfl⟩ := (ExactFloat.isFinite_iff left).mp finite
    rw [f64ApproxEq_self value tolerance] at outside
    cases outside
  · exact Or.inr greater

end ApproximateEquality

namespace FieldComparison

def compare (epsilon : F64) (comparison : FieldComparison) (actual reference : F64) : Bool :=
  let equal := f64ApproxEq actual reference epsilon
  match comparison with
  | .equal => equal
  | .notEq => !equal
  | .less => decide (actual < reference) && !equal
  | .lessEq => decide (actual < reference) || equal
  | .greater => decide (reference < actual) && !equal
  | .greaterEq => decide (reference < actual) || equal

def mirrored : FieldComparison → FieldComparison
  | less => greater
  | lessEq => greaterEq
  | greater => less
  | greaterEq => lessEq
  | same => same

section Comparable

variable {epsilon actual reference : F64}

theorem compare_mirrored (epsilon : F64) (actualNumber : actual ≠ .nan)
    (referenceNumber : reference ≠ .nan) (comparison : FieldComparison) :
    compare epsilon comparison.mirrored reference actual = compare epsilon comparison actual reference := by
  have symmetric := f64ApproxEq_comm epsilon referenceNumber actualNumber
  cases comparison <;> simp only [mirrored, compare, symmetric]

variable (tolerance : (.finite 0 : F64) ≤ epsilon) (actualNumber : actual ≠ .nan)
  (referenceNumber : reference ≠ .nan) (apart : ¬ (actual = reference ∧ actual.isFinite = false))

include tolerance actualNumber referenceNumber apart

theorem compare_verdict : ∃ verdict ∈ [less, equal, greater],
    ∀ comparison ∈ [less, equal, greater],
      compare epsilon comparison actual reference = decide (comparison = verdict) := by
  cases close : f64ApproxEq actual reference epsilon with
  | true => exact ⟨equal, by simp, by simp [compare, close]⟩
  | false =>
      rcases lt_or_gt_of_not_approx actualNumber referenceNumber tolerance apart close with below | above
      · exact ⟨less, by simp, by simp [compare, close, below, ExactFloat.not_lt_of_lt below]⟩
      · exact ⟨greater, by simp, by simp [compare, close, above, ExactFloat.not_lt_of_lt above]⟩

theorem compare_lessEq :
    compare epsilon lessEq actual reference = !compare epsilon greater actual reference := by
  unfold compare
  cases close : f64ApproxEq actual reference epsilon with
  | true => simp
  | false =>
      rcases lt_or_gt_of_not_approx actualNumber referenceNumber tolerance apart close with below | above
      · simp [below, ExactFloat.not_lt_of_lt below]
      · simp [above, ExactFloat.not_lt_of_lt above]

theorem compare_greaterEq :
    compare epsilon greaterEq actual reference = !compare epsilon less actual reference := by
  have exchanged : ¬ (reference = actual ∧ reference.isFinite = false) := by
    rintro ⟨rfl, infinite⟩
    exact apart ⟨rfl, infinite⟩
  have mirror := compare_lessEq tolerance referenceNumber actualNumber exchanged
  rw [← compare_mirrored epsilon actualNumber referenceNumber,
    ← compare_mirrored epsilon actualNumber referenceNumber]
  exact mirror

end Comparable

theorem compare_infinite {epsilon infinity : F64} (infinite : infinity.isFinite = false)
    (comparison : FieldComparison) :
    compare epsilon comparison infinity infinity = decide (comparison = notEq) := by
  cases comparison <;> simp [compare, f64ApproxEq_infinite infinite, ExactFloat.not_lt_self]

end FieldComparison

namespace HoldCondition

open FieldComparison

/-- The comparisons of an available value with a reference fit together, and with those in
which the two have changed places. -/
structure Consistent (manager : NodeManager) (field : String) (actual reference : F64) : Prop where
  exactlyOne : ∃! comparison, comparison ∈ [less, equal, greater] ∧
    evaluate ⟨field, comparison, reference⟩ manager = true
  notEq : evaluate ⟨field, .notEq, reference⟩ manager = !evaluate ⟨field, .equal, reference⟩ manager
  lessEq : evaluate ⟨field, .lessEq, reference⟩ manager =
    !evaluate ⟨field, .greater, reference⟩ manager
  greaterEq : evaluate ⟨field, .greaterEq, reference⟩ manager =
    !evaluate ⟨field, .less, reference⟩ manager
  exchange : ∀ (other : NodeManager) (otherField : String) (value : MappedValue),
    other.getValue otherField = some value → value.value = reference →
      evaluate ⟨otherField, .less, actual⟩ other = evaluate ⟨field, .greater, reference⟩ manager ∧
      evaluate ⟨otherField, .greater, actual⟩ other = evaluate ⟨field, .less, reference⟩ manager ∧
      evaluate ⟨otherField, .equal, actual⟩ other = evaluate ⟨field, .equal, reference⟩ manager

theorem evaluate_available {manager : NodeManager} {field : String} {actual : MappedValue}
    (available : manager.getValue field = some actual) (comparison : FieldComparison)
    (reference : F64) : evaluate ⟨field, comparison, reference⟩ manager =
      compare (.finite (1 / 10 ^ 6)) comparison actual.value reference := by
  unfold evaluate
  simp only [available]
  cases comparison <;> rfl

theorem tolerance_nonneg : (.finite 0 : F64) ≤ .finite (1 / 10 ^ 6) := by
  rw [ExactFloat.finite_le_finite]
  norm_num

theorem comparisons_consistent_iff {manager : NodeManager} {field : String} {actual : MappedValue}
    {reference : F64} (available : manager.getValue field = some actual)
    (actualNumber : actual.value ≠ .nan) (referenceNumber : reference ≠ .nan) :
    Consistent manager field actual.value reference ↔
      ¬ (actual.value = reference ∧ actual.value.isFinite = false) := by
  have evaluated := evaluate_available available
  constructor
  · rintro consistent ⟨rfl, infinite⟩
    obtain ⟨comparison, ⟨listed, holds⟩, _⟩ := consistent.exactlyOne
    rw [evaluated, compare_infinite infinite, decide_eq_true_eq] at holds
    subst holds
    simp at listed
  · intro apart
    constructor
    · obtain ⟨verdict, listed, decides⟩ :=
        compare_verdict tolerance_nonneg actualNumber referenceNumber apart
      simp only [evaluated]
      refine ⟨verdict, ⟨listed, by rw [decides verdict listed]; exact decide_eq_true rfl⟩, ?_⟩
      rintro comparison ⟨member, holds⟩
      rw [decides comparison member] at holds
      exact of_decide_eq_true holds
    · simp only [evaluated]
      rfl
    · simp only [evaluated]
      exact compare_lessEq tolerance_nonneg actualNumber referenceNumber apart
    · simp only [evaluated]
      exact compare_greaterEq tolerance_nonneg actualNumber referenceNumber apart
    · rintro other otherField value otherAvailable rfl
      simp only [evaluated, evaluate_available otherAvailable]
      have mirror := compare_mirrored (.finite (1 / 10 ^ 6)) actualNumber referenceNumber
      exact ⟨mirror greater, mirror less, mirror equal⟩

def pressureMapping : Mapping where
  mapping := (∅ : Std.TreeMap String (List MappingEntry)).insert "pump" [
    { name := "pressure", fieldType := .telemetry, rawField := "pressure" }]

def saturatedOperations : List NodeManager.Operation := [
  .message 0 ⟨5, 0⟩ (.nodeInfoAnnouncement ⟨1, 0, 0, 0, "pump"⟩),
  .message 0 ⟨5, 0⟩ (.telemetryValueRegistration ⟨7, .float32, "pressure"⟩),
  .message 0 ⟨5, 0⟩ (.telemetryGroupDefinition ⟨1, [7]⟩),
  .message 1 ⟨5, 0⟩ (.telemetryGroupUpdate ⟨1, ⟨[0, 0, 0x80, 0x7F]⟩⟩)]

def saturatedManager : NodeManager :=
  (NodeManager.new pressureMapping).replay LiquidCan.littleEndian saturatedOperations

theorem saturatedManager_run : Transition.Run (NodeManager.Performs LiquidCan.littleEndian)
    (NodeManager.new pressureMapping) saturatedOperations saturatedManager :=
  (NodeManager.run_iff_replay LiquidCan.littleEndian).mpr rfl

theorem saturated_available :
    saturatedManager.getValue "pump:pressure" = some { value := .posInf, unit := "" } := by
  decide

theorem comparisons_consistent_saturated :
    Consistent saturatedManager "pump:pressure" .posInf (.finite 3) :=
  (comparisons_consistent_iff saturated_available (by decide) (by decide)).mpr (by decide)

theorem comparisons_inconsistent :
    ¬ ∀ (mapping : Mapping) (operations : List NodeManager.Operation) (manager : NodeManager)
        (field : String) (actual : MappedValue) (reference : F64),
      mapping.validate = .ok () →
      Transition.Run (NodeManager.Performs LiquidCan.littleEndian) (NodeManager.new mapping) operations
        manager →
      manager.getValue field = some actual → actual.value ≠ .nan → reference ≠ .nan →
      Consistent manager field actual.value reference := by
  intro claim
  have valid : pressureMapping.validate = .ok () := by decide
  have consistent := claim _ _ _ _ _ .posInf valid saturatedManager_run saturated_available
    (by decide) (by decide)
  obtain ⟨comparison, ⟨listed, holds⟩, _⟩ := consistent.exactlyOne
  rw [evaluate_available saturated_available, compare_infinite rfl, decide_eq_true_eq] at holds
  subst holds
  simp at listed

end HoldCondition

end FerroFlow
