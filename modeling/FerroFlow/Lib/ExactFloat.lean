import Mathlib.Data.Rat.Floor
import Mathlib.Data.Int.Log
import Mathlib.Algebra.Order.Round
import Mathlib.Tactic

/-! Floating-point numbers with exact arithmetic: the finite values are rationals, the
infinities and NaN follow the IEEE rules, and zero has no sign. -/

inductive ExactFloat
  | nan
  | negInf
  | finite (value : ℚ)
  | posInf
deriving DecidableEq, Repr

namespace ExactFloat

instance : Inhabited ExactFloat := ⟨finite 0⟩

/-- IEEE equality: NaN differs from everything, itself included. -/
def beq : ExactFloat → ExactFloat → Bool
  | nan, _ => false
  | left, right => decide (left = right)

def ble : ExactFloat → ExactFloat → Bool
  | nan, _ => false
  | _, nan => false
  | negInf, _ => true
  | _, posInf => true
  | finite left, finite right => decide (left ≤ right)
  | _, _ => false

def blt (left right : ExactFloat) : Bool :=
  ble left right && !ble right left

instance : LE ExactFloat := ⟨fun left right => ble left right = true⟩
instance : LT ExactFloat := ⟨fun left right => blt left right = true⟩

instance (left right : ExactFloat) : Decidable (left ≤ right) :=
  inferInstanceAs (Decidable (ble left right = true))

instance (left right : ExactFloat) : Decidable (left < right) :=
  inferInstanceAs (Decidable (blt left right = true))

def partialCmp (left right : ExactFloat) : Option Ordering :=
  if left < right then some .lt
  else if right < left then some .gt
  else if beq left right then some .eq
  else none

/-- The smaller argument; NaN only if both are. -/
def minimum (left right : ExactFloat) : ExactFloat :=
  if left = nan then right else if right < left then right else left

def maximum (left right : ExactFloat) : ExactFloat :=
  if left = nan then right else if left < right then right else left

def neg : ExactFloat → ExactFloat
  | nan => nan
  | negInf => posInf
  | finite value => finite (-value)
  | posInf => negInf

def add : ExactFloat → ExactFloat → ExactFloat
  | nan, _ => nan
  | _, nan => nan
  | finite left, finite right => finite (left + right)
  | posInf, negInf => nan
  | negInf, posInf => nan
  | posInf, _ => posInf
  | _, posInf => posInf
  | negInf, _ => negInf
  | _, negInf => negInf

def infinite (value : ℚ) : ExactFloat :=
  if value = 0 then nan else if 0 < value then posInf else negInf

def sign : ExactFloat → ℚ
  | nan => 0
  | negInf => -1
  | finite value => value
  | posInf => 1

def mul : ExactFloat → ExactFloat → ExactFloat
  | nan, _ => nan
  | _, nan => nan
  | finite left, finite right => finite (left * right)
  | left, right => infinite (left.sign * right.sign)

def div : ExactFloat → ExactFloat → ExactFloat
  | nan, _ => nan
  | _, nan => nan
  | finite left, finite right => if right = 0 then infinite left else finite (left / right)
  | finite _, _ => finite 0
  | left, finite right => infinite (left.sign * (if right < 0 then -1 else 1))
  | _, _ => nan

instance : Neg ExactFloat := ⟨neg⟩
instance : Add ExactFloat := ⟨add⟩
instance : Sub ExactFloat := ⟨fun left right => add left (neg right)⟩
instance : Mul ExactFloat := ⟨mul⟩
instance : Div ExactFloat := ⟨div⟩

def abs : ExactFloat → ExactFloat
  | nan => nan
  | negInf => posInf
  | finite value => finite |value|
  | posInf => posInf

def floor : ExactFloat → ExactFloat
  | finite value => finite ⌊value⌋
  | special => special

def roundAway (value : ℚ) : ℤ :=
  if 0 ≤ value then ⌊value + 1 / 2⌋ else ⌈value - 1 / 2⌉

def roundEven (value : ℚ) : ℤ :=
  if Int.fract value = 1 / 2 then (if ⌊value⌋ % 2 = 0 then ⌊value⌋ else ⌊value⌋ + 1)
  else ⌊value + 1 / 2⌋

def round : ExactFloat → ExactFloat
  | finite value => finite (roundAway value)
  | special => special

def isFinite : ExactFloat → Bool
  | finite _ => true
  | _ => false

def truncate (value : ℚ) : ℤ :=
  if 0 ≤ value then ⌊value⌋ else ⌈value⌉

/-- A cast to an integer type with bounds `low` and `high`: truncate, saturate, NaN to zero. -/
def saturate (low high : ℤ) : ExactFloat → ℤ
  | nan => 0
  | negInf => low
  | finite value => max low (min high (truncate value))
  | posInf => high

def binary32Unit (value : ℚ) : ℚ :=
  2 ^ (max (Int.log 2 |value|) (-126) - 23)

/-- The narrowing cast to binary32: nearest value, halves to even, overflow to an infinity. -/
def toBinary32 : ExactFloat → ExactFloat
  | finite value =>
      if 2 ^ 128 - 2 ^ 103 ≤ |value| then infinite value
      else finite (roundEven (value / binary32Unit value) * binary32Unit value)
  | special => special

@[simp] theorem finite_le_finite (left right : ℚ) : finite left ≤ finite right ↔ left ≤ right := by
  change decide (left ≤ right) = true ↔ _
  simp

@[simp] theorem finite_lt_finite (left right : ℚ) : finite left < finite right ↔ left < right := by
  change (decide (left ≤ right) && !decide (right ≤ left)) = true ↔ _
  simp only [Bool.and_eq_true, decide_eq_true_eq, Bool.not_eq_true', decide_eq_false_iff_not]
  exact lt_iff_le_not_ge.symm

@[simp] theorem finite_add_finite (left right : ℚ) :
    finite left + finite right = finite (left + right) := rfl

@[simp] theorem finite_sub_finite (left right : ℚ) :
    finite left - finite right = finite (left - right) := by
  change finite (left + -right) = _
  rw [sub_eq_add_neg]

@[simp] theorem finite_mul_finite (left right : ℚ) :
    finite left * finite right = finite (left * right) := rfl

theorem finite_div_finite (left : ℚ) {right : ℚ} (nonzero : right ≠ 0) :
    finite left / finite right = finite (left / right) := by
  change (if right = 0 then infinite left else finite (left / right)) = _
  rw [if_neg nonzero]

@[simp] theorem floor_finite (value : ℚ) : floor (finite value) = finite ⌊value⌋ := rfl

@[simp] theorem abs_finite (value : ℚ) : abs (finite value) = finite |value| := rfl

@[simp] theorem round_finite (value : ℚ) : round (finite value) = finite (roundAway value) := rfl

@[simp] theorem isFinite_finite (value : ℚ) : isFinite (finite value) = true := rfl

theorem isFinite_iff (number : ExactFloat) : number.isFinite = true ↔ ∃ value, number = finite value := by
  cases number <;> simp [isFinite]

@[simp] theorem truncate_intCast (value : ℤ) : truncate (value : ℚ) = value := by
  simp [truncate]

@[simp] theorem roundAway_intCast (value : ℤ) : roundAway (value : ℚ) = value := by
  unfold roundAway
  split
  · rw [Int.floor_eq_iff]
    constructor <;> linarith
  · rw [Int.ceil_eq_iff]
    constructor <;> linarith

theorem roundAway_mono {left right : ℚ} (ordered : left ≤ right) : roundAway left ≤ roundAway right := by
  unfold roundAway
  by_cases leftSign : 0 ≤ left
  · rw [if_pos leftSign, if_pos (leftSign.trans ordered)]
    exact Int.floor_le_floor (by linarith)
  · rw [if_neg leftSign]
    by_cases rightSign : 0 ≤ right
    · rw [if_pos rightSign]
      have low : ⌈left - 1 / 2⌉ ≤ 0 := Int.ceil_le.mpr (by push_cast; linarith)
      have high : 0 ≤ ⌊right + 1 / 2⌋ := Int.floor_nonneg.mpr (by linarith)
      exact low.trans high
    · rw [if_neg rightSign]
      exact Int.ceil_le_ceil (by linarith)

theorem roundAway_of_near {value : ℚ} {integer : ℤ} (near : |value - integer| < 1 / 2) :
    roundAway value = integer := by
  obtain ⟨low, high⟩ := abs_lt.mp near
  unfold roundAway
  split
  · rw [Int.floor_eq_iff]
    constructor <;> linarith
  · rw [Int.ceil_eq_iff]
    constructor <;> linarith

theorem roundEven_near (value : ℚ) : |(roundEven value : ℚ) - value| ≤ 1 / 2 := by
  have below := Int.floor_le value
  have above := Int.lt_floor_add_one value
  have split : (⌊value⌋ : ℚ) + Int.fract value = value := Int.floor_add_fract value
  unfold roundEven
  by_cases half : Int.fract value = 1 / 2
  · rw [if_pos half]
    split
    · rw [abs_le]
      constructor <;> linarith
    · push_cast
      rw [abs_le]
      constructor <;> linarith
  · rw [if_neg half]
    have low := Int.floor_le (value + 1 / 2)
    have high := Int.lt_floor_add_one (value + 1 / 2)
    rw [abs_le]
    constructor <;> linarith

theorem roundEven_nonneg {value : ℚ} (nonneg : 0 ≤ value) : 0 ≤ roundEven value := by
  have floorNonneg : 0 ≤ ⌊value⌋ := Int.floor_nonneg.mpr nonneg
  unfold roundEven
  split
  · split <;> omega
  · exact Int.floor_nonneg.mpr (by linarith)

theorem roundEven_pos_iff (value : ℚ) : 0 < roundEven value ↔ 1 / 2 < value := by
  have near := abs_le.mp (roundEven_near value)
  constructor
  · intro positive
    by_contra small
    rcases (not_lt.mp small).eq_or_lt with rfl | below
    · revert positive
      decide +kernel
    · have atLeastOne : (1 : ℚ) ≤ roundEven value := by exact_mod_cast positive
      linarith
  · intro large
    have positive : (0 : ℚ) < roundEven value := by linarith
    exact_mod_cast positive

theorem sub_eq_finite {left right : ExactFloat} {value : ℚ} (difference : left - right = finite value) :
    ∃ minuend subtrahend, left = finite minuend ∧ right = finite subtrahend := by
  change add left (neg right) = finite value at difference
  cases left <;> cases right <;> simp_all [add, neg]

theorem sub_ne_negInf {left right : ExactFloat} (ordered : right ≤ left) : left - right ≠ negInf := by
  intro difference
  change add left (neg right) = negInf at difference
  change ble right left = true at ordered
  cases left <;> cases right <;> simp_all [add, neg, ble]

theorem infinite_ne_finite (value image : ℚ) : infinite value ≠ finite image := by
  unfold infinite
  split
  · simp
  · split <;> simp

theorem infinite_div_ne_finite {number divisor : ExactFloat} {image : ℚ}
    (unbounded : number = posInf ∨ number = negInf) : number / divisor ≠ finite image := by
  change div number divisor ≠ finite image
  rcases unbounded with rfl | rfl
  · cases divisor with
    | finite value => exact infinite_ne_finite _ _
    | _ => simp [div]
  · cases divisor with
    | finite value => exact infinite_ne_finite _ _
    | _ => simp [div]

theorem affine_between {left right leftImage rightImage : ℚ} {offset slope : ExactFloat}
    (leftAt : (finite left - offset) / slope = finite leftImage)
    (rightAt : (finite right - offset) / slope = finite rightImage) (share : ℚ) :
    (finite (left + share * (right - left)) - offset) / slope =
      finite (leftImage + share * (rightImage - leftImage)) := by
  cases offset with
  | finite shift =>
      rw [finite_sub_finite] at leftAt rightAt ⊢
      cases slope with
      | finite factor =>
          by_cases zero : factor = 0
          · subst factor
            exact (infinite_ne_finite _ _ leftAt).elim
          · rw [finite_div_finite _ zero] at leftAt rightAt ⊢
            obtain rfl := finite.inj leftAt
            obtain rfl := finite.inj rightAt
            congr 1
            ring
      | nan => cases leftAt
      | posInf =>
          obtain rfl : (0 : ℚ) = leftImage := finite.inj leftAt
          obtain rfl : (0 : ℚ) = rightImage := finite.inj rightAt
          simp only [sub_zero, mul_zero, add_zero]
          rfl
      | negInf =>
          obtain rfl : (0 : ℚ) = leftImage := finite.inj leftAt
          obtain rfl : (0 : ℚ) = rightImage := finite.inj rightAt
          simp only [sub_zero, mul_zero, add_zero]
          rfl
  | nan => cases slope <;> cases leftAt
  | posInf => exact (infinite_div_ne_finite (Or.inr rfl) leftAt).elim
  | negInf => exact (infinite_div_ne_finite (Or.inl rfl) leftAt).elim

/-! Comparisons are transitive; NaN compares with nothing. -/

theorem le_trans {left middle right : ExactFloat} (first : left ≤ middle) (second : middle ≤ right) :
    left ≤ right := by
  change ble left middle = true at first
  change ble middle right = true at second
  change ble left right = true
  cases left <;> cases middle <;> cases right <;> simp_all [ble]
  exact first.trans second

theorem lt_iff {left right : ExactFloat} : left < right ↔ left ≤ right ∧ ¬ right ≤ left := by
  change (ble left right && !ble right left) = true ↔ ble left right = true ∧ ¬ ble right left = true
  simp

theorem le_of_lt {left right : ExactFloat} (less : left < right) : left ≤ right :=
  (lt_iff.mp less).1

theorem lt_of_lt_of_le {left middle right : ExactFloat} (first : left < middle)
    (second : middle ≤ right) : left < right := by
  obtain ⟨forward, strict⟩ := lt_iff.mp first
  exact lt_iff.mpr ⟨le_trans forward second, fun back => strict (le_trans second back)⟩

theorem lt_of_le_of_lt {left middle right : ExactFloat} (first : left ≤ middle)
    (second : middle < right) : left < right := by
  obtain ⟨forward, strict⟩ := lt_iff.mp second
  exact lt_iff.mpr ⟨le_trans first forward, fun back => strict (le_trans back first)⟩

theorem not_lt_of_lt {left right : ExactFloat} (less : left < right) : ¬ right < left :=
  fun back => (lt_iff.mp less).2 (le_of_lt back)

theorem not_lt_self (value : ExactFloat) : ¬ value < value :=
  fun less => not_lt_of_lt less less

theorem ne_nan_of_le {left right : ExactFloat} (ordered : left ≤ right) : left ≠ nan ∧ right ≠ nan := by
  change ble left right = true at ordered
  constructor
  · rintro rfl
    cases ordered
  · rintro rfl
    cases left <;> cases ordered

/-! Without NaN the numbers are the rationals and two infinities, in their order. -/

def ofOrdered : WithBot (WithTop ℚ) → ExactFloat
  | none => negInf
  | some none => posInf
  | some (some value) => finite value

theorem exists_ofOrdered {number : ExactFloat} (defined : number ≠ nan) :
    ∃ ordered, ofOrdered ordered = number := by
  cases number with
  | nan => exact (defined rfl).elim
  | negInf => exact ⟨none, rfl⟩
  | finite value => exact ⟨some (some value), rfl⟩
  | posInf => exact ⟨some none, rfl⟩

section Ordered

variable (left right : WithBot (WithTop ℚ))

theorem ofOrdered_ne_nan : ofOrdered left ≠ nan := by
  rcases left with _ | _ | value <;> simp [ofOrdered]

theorem ofOrdered_le_iff : ofOrdered left ≤ ofOrdered right ↔ left ≤ right := by
  induction left using WithBot.recBotCoe with
  | bot =>
      refine iff_of_true ?_ bot_le
      rcases right with _ | _ | value <;> rfl
  | coe left =>
      induction right using WithBot.recBotCoe with
      | bot =>
          refine iff_of_false ?_ (by simp)
          cases left <;> intro impossible <;> cases impossible
      | coe right =>
          rw [WithBot.coe_le_coe]
          cases right with
          | top =>
              refine iff_of_true ?_ le_top
              cases left <;> rfl
          | coe right =>
              cases left with
              | top => exact iff_of_false (fun impossible => by cases impossible) (by simp)
              | coe left =>
                  rw [WithTop.coe_le_coe]
                  exact finite_le_finite left right

theorem ofOrdered_lt_iff : ofOrdered left < ofOrdered right ↔ left < right := by
  rw [lt_iff, ofOrdered_le_iff, ofOrdered_le_iff]
  exact lt_iff_le_not_ge.symm

theorem ofOrdered_inj : ofOrdered left = ofOrdered right ↔ left = right := by
  constructor
  · intro same
    have reflexive := (ofOrdered_le_iff left left).mpr le_rfl
    have forward : ofOrdered left ≤ ofOrdered right := same ▸ reflexive
    have back : ofOrdered right ≤ ofOrdered left := same ▸ reflexive
    exact le_antisymm ((ofOrdered_le_iff left right).mp forward) ((ofOrdered_le_iff right left).mp back)
  · rintro rfl
    rfl

theorem ofOrdered_beq_iff : beq (ofOrdered left) (ofOrdered right) = true ↔ left = right := by
  rw [← ofOrdered_inj]
  unfold beq
  split
  · next undefined => exact (ofOrdered_ne_nan left undefined).elim
  · exact decide_eq_true_iff

theorem partialCmp_ofOrdered : partialCmp (ofOrdered left) (ofOrdered right) = some (cmp left right) := by
  unfold partialCmp
  rcases lt_trichotomy left right with less | rfl | greater
  · rw [(cmp_eq_lt_iff left right).mpr less, if_pos ((ofOrdered_lt_iff _ _).mpr less)]
  · rw [cmp_self_eq_eq, if_neg fun less => lt_irrefl left ((ofOrdered_lt_iff _ _).mp less),
      if_neg fun less => lt_irrefl left ((ofOrdered_lt_iff _ _).mp less), if_pos ((ofOrdered_beq_iff _ _).mpr rfl)]
  · rw [(cmp_eq_gt_iff left right).mpr greater, if_neg fun less => greater.not_gt ((ofOrdered_lt_iff _ _).mp less),
      if_pos ((ofOrdered_lt_iff _ _).mpr greater)]

theorem minimum_ofOrdered : minimum (ofOrdered left) (ofOrdered right) = ofOrdered (min left right) := by
  unfold minimum
  rw [if_neg (ofOrdered_ne_nan left)]
  simp only [ofOrdered_lt_iff]
  by_cases less : right < left
  · rw [if_pos less, min_eq_right less.le]
  · rw [if_neg less, min_eq_left (not_lt.mp less)]

theorem maximum_ofOrdered : maximum (ofOrdered left) (ofOrdered right) = ofOrdered (max left right) := by
  unfold maximum
  rw [if_neg (ofOrdered_ne_nan left)]
  simp only [ofOrdered_lt_iff]
  by_cases less : left < right
  · rw [if_pos less, max_eq_right less.le]
  · rw [if_neg less, max_eq_left (not_lt.mp less)]

end Ordered

theorem lt_or_eq_or_gt {left right : ExactFloat} (leftNumber : left ≠ nan) (rightNumber : right ≠ nan) :
    left < right ∨ left = right ∨ right < left := by
  obtain ⟨left, rfl⟩ := exists_ofOrdered leftNumber
  obtain ⟨right, rfl⟩ := exists_ofOrdered rightNumber
  simp only [ofOrdered_lt_iff, ofOrdered_inj]
  exact lt_trichotomy left right

end ExactFloat
