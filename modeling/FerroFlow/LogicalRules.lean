import FerroFlow.Lib.Interval
import FerroFlow.Mapping

/-! The ranges of the logical rules are intervals of the ordered numbers, and accepted rules have
disjoint ones: every value has at most one logical value, whatever the order of the rules. -/

namespace FerroFlow

namespace LogicalRange

def ofInterval (interval : EndedInterval (WithBot (WithTop ℚ))) : LogicalRange where
  min := .ofOrdered interval.lower
  max := .ofOrdered interval.upper
  minInclusive := interval.lowerClosed
  maxInclusive := interval.upperClosed

theorem exists_ofInterval {range : LogicalRange} (minDefined : range.min ≠ .nan)
    (maxDefined : range.max ≠ .nan) : ∃ interval, ofInterval interval = range := by
  obtain ⟨lower, lowerEq⟩ := ExactFloat.exists_ofOrdered minDefined
  obtain ⟨upper, upperEq⟩ := ExactFloat.exists_ofOrdered maxDefined
  refine ⟨⟨lower, upper, range.minInclusive, range.maxInclusive⟩, ?_⟩
  unfold ofInterval
  rw [lowerEq, upperEq]

theorem contains_ofInterval_iff (interval : EndedInterval (WithBot (WithTop ℚ))) (value : WithBot (WithTop ℚ)) :
    (ofInterval interval).contains (.ofOrdered value) = true ↔ value ∈ interval.members := by
  change _ ↔ EndedInterval.Above _ _ _ ∧ EndedInterval.Below _ _ _
  unfold contains ofInterval EndedInterval.Above EndedInterval.Below
  simp only [Bool.and_eq_true, ExactFloat.ofOrdered_le_iff, ExactFloat.ofOrdered_lt_iff]
  split <;> split <;> simp only [decide_eq_true_iff]

theorem defined_of_contains {range : LogicalRange} {value : F64} (inside : range.contains value = true) :
    range.min ≠ .nan ∧ range.max ≠ .nan ∧ value ≠ .nan := by
  simp only [contains, Bool.and_eq_true] at inside
  obtain ⟨aboveLower, belowUpper⟩ := inside
  have above : range.min ≤ value := by
    split at aboveLower
    · exact of_decide_eq_true aboveLower
    · exact ExactFloat.le_of_lt (of_decide_eq_true aboveLower)
  have below : value ≤ range.max := by
    split at belowUpper
    · exact of_decide_eq_true belowUpper
    · exact ExactFloat.le_of_lt (of_decide_eq_true belowUpper)
  exact ⟨(ExactFloat.ne_nan_of_le above).1, (ExactFloat.ne_nan_of_le below).2,
    (ExactFloat.ne_nan_of_le above).2⟩

theorem defined_of_isNonEmpty {range : LogicalRange} (some : range.isNonEmpty = true) :
    range.min ≠ .nan ∧ range.max ≠ .nan := by
  unfold isNonEmpty at some
  split at some
  · next less => exact ExactFloat.ne_nan_of_le (ExactFloat.le_of_lt less)
  · split at some
    · next same =>
        constructor <;> intro undefined <;> rw [undefined] at same
        · cases max : range.max <;> rw [max] at same <;> cases same
        · cases same
    · cases some

theorem isNonEmpty_ofInterval_iff (interval : EndedInterval (WithBot (WithTop ℚ))) :
    (ofInterval interval).isNonEmpty = true ↔ interval.members.Nonempty := by
  rw [interval.members_nonempty_iff]
  unfold isNonEmpty ofInterval
  simp only [ExactFloat.ofOrdered_lt_iff, ExactFloat.ofOrdered_beq_iff]
  split
  · next less => simp only [less, true_or]
  · next notLess =>
      split
      · next same => simp only [same, lt_irrefl, false_or, true_and, Bool.and_eq_true]
      · next differ => simp only [notLess, differ, false_or, false_and, Bool.false_eq_true]

theorem isNonEmpty_iff (range : LogicalRange) :
    range.isNonEmpty = true ↔ ∃ value, range.contains value = true := by
  by_cases defined : range.min ≠ .nan ∧ range.max ≠ .nan
  · obtain ⟨interval, rfl⟩ := exists_ofInterval defined.1 defined.2
    rw [isNonEmpty_ofInterval_iff]
    constructor
    · rintro ⟨value, member⟩
      exact ⟨_, (contains_ofInterval_iff interval value).mpr member⟩
    · rintro ⟨value, inside⟩
      obtain ⟨ordered, rfl⟩ := ExactFloat.exists_ofOrdered (defined_of_contains inside).2.2
      exact ⟨ordered, (contains_ofInterval_iff interval ordered).mp inside⟩
  · refine iff_of_false (fun some => defined (defined_of_isNonEmpty some)) ?_
    rintro ⟨value, inside⟩
    obtain ⟨minDefined, maxDefined, _⟩ := defined_of_contains inside
    exact defined ⟨minDefined, maxDefined⟩

def shared (self other : LogicalRange) (minCmp maxCmp : Ordering) : LogicalRange where
  min := self.min.maximum other.min
  max := self.max.minimum other.max
  minInclusive := EndedInterval.decided minCmp other.minInclusive (self.minInclusive && other.minInclusive)
    self.minInclusive
  maxInclusive := EndedInterval.decided maxCmp self.maxInclusive (self.maxInclusive && other.maxInclusive)
    other.maxInclusive

theorem intersection_eq {self other : LogicalRange} {minCmp maxCmp : Ordering}
    (minCompared : self.min.partialCmp other.min = some minCmp)
    (maxCompared : self.max.partialCmp other.max = some maxCmp) :
    self.intersection other = .ok (if (self.shared other minCmp maxCmp).isNonEmpty then
      some (self.shared other minCmp maxCmp) else none) := by
  unfold intersection
  rw [minCompared, maxCompared, apply_ite Except.ok]
  cases minCmp <;> cases maxCmp <;> rfl

theorem intersection_ofInterval (left right : EndedInterval (WithBot (WithTop ℚ))) :
    (ofInterval left).intersection (ofInterval right) =
      .ok (if (ofInterval (left.inter right)).isNonEmpty then some (ofInterval (left.inter right)) else none) := by
  have same : (ofInterval left).shared (ofInterval right) (cmp left.lower right.lower)
      (cmp left.upper right.upper) = ofInterval (left.inter right) := by
    dsimp only [shared, ofInterval, EndedInterval.inter]
    rw [ExactFloat.minimum_ofOrdered, ExactFloat.maximum_ofOrdered]
  rw [← same]
  exact intersection_eq (ExactFloat.partialCmp_ofOrdered _ _) (ExactFloat.partialCmp_ofOrdered _ _)

theorem exists_interval_of_isNonEmpty {range : LogicalRange} (some : range.isNonEmpty = true) :
    ∃ interval, ofInterval interval = range := by
  obtain ⟨minDefined, maxDefined⟩ := defined_of_isNonEmpty some
  exact exists_ofInterval minDefined maxDefined

theorem intersection_exact {left right : LogicalRange} (leftSome : left.isNonEmpty = true)
    (rightSome : right.isNonEmpty = true) : ∃ overlap : LogicalRange,
      left.intersection right = .ok (if overlap.isNonEmpty then some overlap else none) ∧
      ∀ value, overlap.contains value = true ↔ left.contains value = true ∧ right.contains value = true := by
  obtain ⟨leftInterval, rfl⟩ := exists_interval_of_isNonEmpty leftSome
  obtain ⟨rightInterval, rfl⟩ := exists_interval_of_isNonEmpty rightSome
  refine ⟨_, intersection_ofInterval leftInterval rightInterval, ?_⟩
  intro value
  by_cases defined : value = .nan
  · subst defined
    have outside (range : LogicalRange) : ¬ range.contains .nan = true :=
      fun inside => (defined_of_contains inside).2.2 rfl
    exact iff_of_false (outside _) fun inside => outside _ inside.1
  · obtain ⟨ordered, rfl⟩ := ExactFloat.exists_ofOrdered defined
    simp only [contains_ofInterval_iff, EndedInterval.members_inter, Set.mem_inter_iff]

def Disjoint (left right : LogicalRange) : Prop :=
  ∀ value, ¬ (left.contains value = true ∧ right.contains value = true)

theorem intersection_spec {left right : LogicalRange} (leftSome : left.isNonEmpty = true)
    (rightSome : right.isNonEmpty = true) :
    left.intersection right = .ok none ∧ left.Disjoint right ∨
      ∃ overlap, left.intersection right = .ok (some overlap) ∧ ¬ left.Disjoint right := by
  obtain ⟨overlap, result, exact⟩ := intersection_exact leftSome rightSome
  by_cases shared : overlap.isNonEmpty = true
  · rw [if_pos shared] at result
    obtain ⟨value, inside⟩ := (isNonEmpty_iff overlap).mp shared
    exact Or.inr ⟨overlap, result, fun apart => apart value ((exact value).mp inside)⟩
  · rw [if_neg shared] at result
    refine Or.inl ⟨result, ?_⟩
    intro value both
    exact shared ((isNonEmpty_iff overlap).mpr ⟨value, (exact value).mpr both⟩)

theorem Disjoint.symm {left right : LogicalRange} (apart : left.Disjoint right) : right.Disjoint left :=
  fun value both => apart value both.symm

end LogicalRange

namespace MappingEntry

variable {entry : MappingEntry}

theorem checkOverlaps_spec (entry : MappingEntry) (index : ℕ) {range : LogicalRange} (some : range.isNonEmpty = true)
    {coveredRanges : List LogicalRange} (covered : ∀ other ∈ coveredRanges, other.isNonEmpty = true)
    (coveredIndex : ℕ) : NeverPanics (entry.checkOverlaps index range coveredIndex coveredRanges) ∧
      (entry.checkOverlaps index range coveredIndex coveredRanges = .ok () ↔
        ∀ other ∈ coveredRanges, range.Disjoint other) := by
  induction coveredRanges generalizing coveredIndex with
  | nil => exact ⟨neverPanics_ok (), by simp [checkOverlaps]⟩
  | cons first rest ih =>
      rw [List.forall_mem_cons] at covered
      rw [List.forall_mem_cons]
      obtain ⟨result, apart⟩ | ⟨overlap, result, meets⟩ := LogicalRange.intersection_spec some covered.1
      · obtain ⟨safe, passes⟩ := ih covered.2 (coveredIndex + 1)
        unfold checkOverlaps
        rw [result]
        exact ⟨safe, passes.trans (by simp only [apart, true_and])⟩
      · unfold checkOverlaps
        rw [result]
        refine ⟨neverPanics_bail _, iff_of_false (by intro impossible; cases impossible) ?_⟩
        intro disjoint
        exact meets disjoint.1

theorem checkLogicalRules_spec (rules : List LogicalRule) (index : ℕ) {coveredRanges : List LogicalRange}
    (covered : ∀ other ∈ coveredRanges, other.isNonEmpty = true) :
    NeverPanics (entry.checkLogicalRules index coveredRanges rules) ∧
      (entry.checkLogicalRules index coveredRanges rules = .ok () ↔
        (∀ rule ∈ rules, rule.range.isNonEmpty = true) ∧
        (∀ rule ∈ rules, ∀ other ∈ coveredRanges, rule.range.Disjoint other) ∧
        rules.Pairwise fun left right => left.range.Disjoint right.range) := by
  induction rules generalizing index coveredRanges with
  | nil => exact ⟨neverPanics_ok (), by simp [checkLogicalRules]⟩
  | cons rule rest ih =>
      unfold checkLogicalRules
      by_cases some : rule.range.isNonEmpty = true
      · have extended : ∀ other ∈ coveredRanges ++ [rule.range], other.isNonEmpty = true := by
          intro other member
          rcases List.mem_append.mp member with before | last
          · exact covered other before
          · obtain rfl := List.mem_singleton.mp last
            exact some
        obtain ⟨overlapsSafe, overlapsPass⟩ := checkOverlaps_spec entry index some covered 0
        obtain ⟨restSafe, restPass⟩ := ih (index + 1) extended
        refine ⟨(neverPanics_require _ _).bind fun _ => overlapsSafe.bind fun _ => restSafe, ?_⟩
        rw [Checks.bind_unit_ok_iff, Checks.bind_unit_ok_iff, require_ok_iff, overlapsPass, restPass,
          List.pairwise_cons, List.forall_mem_cons, List.forall_mem_cons]
        constructor
        · rintro ⟨_, apart, nonEmpty, disjoint, pairwise⟩
          refine ⟨⟨some, nonEmpty⟩, ⟨apart, fun other member => ?_⟩, fun other member => ?_, pairwise⟩
          · exact fun range before => disjoint other member range (List.mem_append_left _ before)
          · exact (disjoint other member rule.range (by simp)).symm
        · rintro ⟨⟨_, nonEmpty⟩, ⟨apart, disjoint⟩, first, pairwise⟩
          refine ⟨some, apart, nonEmpty, fun other member range found => ?_, pairwise⟩
          rcases List.mem_append.mp found with before | last
          · exact disjoint other member range before
          · obtain rfl := List.mem_singleton.mp last
            exact (first other member).symm
      · have failed (message : String) :
            require (rule.range.isNonEmpty = true) message = bail message := if_neg some
        rw [failed]
        refine ⟨neverPanics_bail _, iff_of_false (by intro impossible; cases impossible) ?_⟩
        intro passed
        exact some (passed.1 rule (by simp))

theorem validateLogicalRules_eq (entry : MappingEntry) :
    entry.validateLogicalRules = entry.checkLogicalRules 0 [] entry.logical := by
  unfold validateLogicalRules
  split
  · next empty => rw [List.isEmpty_iff.mp empty, checkLogicalRules]
  · rfl

theorem validateLogicalRules_ok_iff : entry.validateLogicalRules = .ok () ↔
    (∀ rule ∈ entry.logical, ∃ value, rule.range.contains value = true) ∧
      entry.logical.Pairwise fun left right => left.range.Disjoint right.range := by
  rw [validateLogicalRules_eq, (checkLogicalRules_spec entry.logical 0 (by simp)).2]
  simp [LogicalRange.isNonEmpty_iff]

theorem find?_of_perm {α : Type} {found : α → Bool} {items others : List α} (reordered : items.Perm others)
    (atMostOne : others.Pairwise fun left right => ¬ (found left = true ∧ found right = true)) :
    items.find? found = others.find? found := by
  have matching := reordered.filter found
  have alone := atMostOne.filter found
  rw [← List.head?_filter, ← List.head?_filter]
  rcases filtered : others.filter found with _ | ⟨first, _ | ⟨second, rest⟩⟩
  · rw [filtered] at matching
    rw [matching.eq_nil]
  · rw [filtered] at matching
    rw [List.perm_singleton.mp matching]
  · have all : ∀ item ∈ first :: second :: rest, found item = true := by
      rw [← filtered]
      exact fun item member => (List.mem_filter.mp member).2
    rw [filtered, List.pairwise_cons] at alone
    exact (alone.1 second (by simp) ⟨all first (by simp), all second (by simp)⟩).elim

theorem logicalValue_of_perm {rules : List LogicalRule} (reordered : rules.Perm entry.logical)
    (disjoint : entry.logical.Pairwise fun left right => left.range.Disjoint right.range) (value : F64) :
    ({ entry with logical := rules } : MappingEntry).logicalValue value = entry.logicalValue value := by
  have atMostOne : entry.logical.Pairwise fun left right =>
      ¬ (left.matchesValue value = true ∧ right.matchesValue value = true) :=
    disjoint.imp fun apart => apart value
  unfold logicalValue
  rw [find?_of_perm reordered atMostOne]

theorem pairwise_iff_positions {α : Type} {relation : α → α → Prop} {items : List α} :
    items.Pairwise relation ↔
      ∀ (i j : ℕ) (left right : α), i < j → items[i]? = some left → items[j]? = some right → relation left right := by
  rw [List.pairwise_iff_getElem]
  constructor
  · intro pairwise i j left right ordered leftAt rightAt
    obtain ⟨leftBound, rfl⟩ := List.getElem?_eq_some_iff.mp leftAt
    obtain ⟨rightBound, rfl⟩ := List.getElem?_eq_some_iff.mp rightAt
    exact pairwise i j leftBound rightBound ordered
  · intro positions i j leftBound rightBound ordered
    exact positions i j _ _ ordered (List.getElem?_eq_getElem leftBound) (List.getElem?_eq_getElem rightBound)

/-- Validation never panics and accepts exactly the rules whose ranges contain some value and share
none; the order of accepted rules does not matter, since at most one matches a value. -/
theorem logicalRules_unambiguous (entry : MappingEntry) :
    NeverPanics entry.validateLogicalRules ∧
    (entry.validateLogicalRules = .ok () ↔
      (∀ rule ∈ entry.logical, ∃ value, rule.range.contains value = true) ∧
      ∀ (i j : ℕ) (left right : LogicalRule), i < j → entry.logical[i]? = some left →
        entry.logical[j]? = some right →
        ∀ value, ¬ (left.range.contains value = true ∧ right.range.contains value = true)) ∧
    (entry.validateLogicalRules = .ok () → ∀ value,
      (∀ (i j : ℕ) (left right : LogicalRule), entry.logical[i]? = some left → entry.logical[j]? = some right →
        left.matchesValue value = true → right.matchesValue value = true → i = j) ∧
      ∀ rules : List LogicalRule, rules.Perm entry.logical →
        ({ entry with logical := rules } : MappingEntry).logicalValue value = entry.logicalValue value) := by
  refine ⟨?_, ?_, ?_⟩
  · rw [validateLogicalRules_eq]
    exact (checkLogicalRules_spec entry.logical 0 (by simp)).1
  · rw [validateLogicalRules_ok_iff, pairwise_iff_positions]
    rfl
  · intro accepted value
    obtain ⟨_, disjoint⟩ := validateLogicalRules_ok_iff.mp accepted
    refine ⟨?_, fun rules reordered => logicalValue_of_perm reordered disjoint value⟩
    have positions := pairwise_iff_positions.mp disjoint
    intro i j left right leftAt rightAt leftMatches rightMatches
    rcases Nat.lt_trichotomy i j with before | same | after
    · exact (positions i j left right before leftAt rightAt value ⟨leftMatches, rightMatches⟩).elim
    · exact same
    · exact (positions j i right left after rightAt leftAt value ⟨rightMatches, leftMatches⟩).elim

def valveStates : List LogicalRule := [
  { range := { max := .finite 10 }, value := .string "closed" },
  { range := { min := .finite 10 }, value := .string "open" }]

theorem logicalRules_unambiguous_valveStates : ∀ rules : List LogicalRule, rules.Perm valveStates →
    ({ name := "valve", fieldType := .telemetry, rawField := "position", logical := rules } :
      MappingEntry).logicalValue (.finite 10) = some ⟨.string "open"⟩ := by
  let entry : MappingEntry :=
    { name := "valve", fieldType := .telemetry, rawField := "position", logical := valveStates }
  have accepted : entry.validateLogicalRules = .ok () := by decide
  exact ((logicalRules_unambiguous entry).2.2 accepted (.finite 10)).2

end MappingEntry

end FerroFlow
