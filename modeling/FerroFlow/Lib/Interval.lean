import Mathlib.Order.Compare
import Mathlib.Tactic

/-! Intervals of a linear order that contain each of their ends or not. -/

structure EndedInterval (α : Type*) where
  lower : α
  upper : α
  lowerClosed : Bool
  upperClosed : Bool

namespace EndedInterval

variable {α : Type*} [LinearOrder α]

def Above (bound : α) (closed : Bool) (value : α) : Prop :=
  if closed then bound ≤ value else bound < value

def Below (bound : α) (closed : Bool) (value : α) : Prop :=
  if closed then value ≤ bound else value < bound

def members (interval : EndedInterval α) : Set α :=
  {value | Above interval.lower interval.lowerClosed value ∧ Below interval.upper interval.upperClosed value}

def decided (ordering : Ordering) (ifLess ifEqual ifGreater : Bool) : Bool :=
  match ordering with
  | .lt => ifLess
  | .eq => ifEqual
  | .gt => ifGreater

def inter (left right : EndedInterval α) : EndedInterval α where
  lower := max left.lower right.lower
  upper := min left.upper right.upper
  lowerClosed := decided (cmp left.lower right.lower) right.lowerClosed
    (left.lowerClosed && right.lowerClosed) left.lowerClosed
  upperClosed := decided (cmp left.upper right.upper) left.upperClosed
    (left.upperClosed && right.upperClosed) right.upperClosed

theorem above_max_iff (left right : α) (leftClosed rightClosed : Bool) (value : α) :
    Above (max left right) (decided (cmp left right) rightClosed (leftClosed && rightClosed) leftClosed)
        value ↔ Above left leftClosed value ∧ Above right rightClosed value := by
  unfold Above
  rcases lt_trichotomy left right with less | rfl | greater
  · rw [(cmp_eq_lt_iff left right).mpr less, max_eq_right less.le]
    cases leftClosed <;> cases rightClosed <;> simp [decided] <;> order
  · rw [cmp_self_eq_eq, max_self]
    cases leftClosed <;> cases rightClosed <;> simp [decided] <;> order
  · rw [(cmp_eq_gt_iff left right).mpr greater, max_eq_left greater.le]
    cases leftClosed <;> cases rightClosed <;> simp [decided] <;> order

theorem below_min_iff (left right : α) (leftClosed rightClosed : Bool) (value : α) :
    Below (min left right) (decided (cmp left right) leftClosed (leftClosed && rightClosed) rightClosed)
        value ↔ Below left leftClosed value ∧ Below right rightClosed value := by
  have dual := above_max_iff (OrderDual.toDual right) (OrderDual.toDual left) rightClosed leftClosed
    (OrderDual.toDual value)
  rw [cmp_toDual, Bool.and_comm] at dual
  rw [min_comm]
  exact dual.trans and_comm

theorem members_inter (left right : EndedInterval α) :
    (left.inter right).members = left.members ∩ right.members := by
  ext value
  change Above _ _ value ∧ Below _ _ value ↔ (_ ∧ _) ∧ _ ∧ _
  rw [inter, above_max_iff, below_min_iff]
  tauto

/-- An interval of a dense order is empty only if its ends are in the wrong order, or meet and one
of them does not belong to it. -/
theorem members_nonempty_iff [DenselyOrdered α] (interval : EndedInterval α) : interval.members.Nonempty ↔
    interval.lower < interval.upper ∨
      interval.upper = interval.lower ∧ interval.lowerClosed = true ∧ interval.upperClosed = true := by
  constructor
  · rintro ⟨value, above, below⟩
    unfold Above at above
    unfold Below at below
    rcases lt_trichotomy interval.lower interval.upper with less | same | greater
    · exact Or.inl less
    · refine Or.inr ⟨same.symm, ?_, ?_⟩
      · by_contra excluded
        rw [if_neg excluded] at above
        split at below <;> order
      · by_contra excluded
        rw [if_neg excluded] at below
        split at above <;> order
    · split at above <;> split at below <;> order
  · rintro (less | ⟨same, lower, upper⟩)
    · obtain ⟨value, above, below⟩ := exists_between less
      refine ⟨value, ?_, ?_⟩
      · unfold Above
        split
        · exact above.le
        · exact above
      · unfold Below
        split
        · exact below.le
        · exact below
    · refine ⟨interval.lower, ?_, ?_⟩
      · simp only [Above, lower, ↓reduceIte, le_refl]
      · simp only [Below, upper, same, ↓reduceIte, le_refl]

end EndedInterval
