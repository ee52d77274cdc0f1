import FerroFlow.Lib.Binary64
import FerroFlow.Lib.Checks
import FerroFlow.Lib.KeyedMap

/-! The foreign types every part of the program works with: floats, bounded integers,
durations, error chains and JSON values. -/

namespace FerroFlow

abbrev F64 := ExactFloat
abbrev F32 := ExactFloat

abbrev TimestampSec := F64

/-- A wall-clock reading, in nanoseconds since the epoch. -/
abbrev DateTime := ℤ

/-- A reading of the monotonic clock, in nanoseconds. -/
abbrev Instant := ℕ

abbrev HashMap (Key Value : Type) := KeyedMap Key Value

/-- An `anyhow` error with its contexts, outermost first, or a panic. -/
inductive Failure
  | error (chain : List String)
  | panic (message : String)
deriving DecidableEq, Repr

abbrev Result (α : Type) := Except Failure α

def bail {α : Type} (message : String) : Result α :=
  .error (.error [message])

def Failure.context (message : String) : Failure → Failure
  | .error chain => .error (message :: chain)
  | .panic reason => .panic reason

def withContext {α : Type} (message : String) (result : Result α) : Result α :=
  result.mapError (Failure.context message)

/-- Turn a missing value into an error, as `Option::with_context` does. -/
def orFail {α : Type} (message : String) : Option α → Result α
  | some value => .ok value
  | none => bail message

def require (condition : Prop) [Decidable condition] (message : String) : Result Unit :=
  Checks.ensure condition (.error [message])

@[simp] theorem require_ok_iff {condition : Prop} [Decidable condition] {message : String}
    {value : Unit} : require condition message = .ok value ↔ condition :=
  Checks.ensure_ok_iff

@[simp] theorem orFail_ok_iff {α : Type} {message : String} {found : Option α} {value : α} :
    orFail message found = .ok value ↔ found = some value := by
  cases found <;> simp [orFail, bail]

theorem ok_of_toOption {α : Type} {result : Result α} {value : α} (found : result.toOption = some value) :
    result = .ok value := by
  cases result with
  | ok other => exact congrArg Except.ok (Option.some.inj found)
  | error failure => cases found

def NeverPanics {α : Type} (result : Result α) : Prop :=
  ∀ reason, result ≠ .error (.panic reason)

section NeverPanics

variable {α β : Type}

theorem neverPanics_ok (value : α) : NeverPanics (.ok value : Result α) := by
  intro reason impossible
  cases impossible

theorem neverPanics_bail (message : String) : NeverPanics (bail message : Result α) := by
  intro reason impossible
  cases impossible

theorem neverPanics_orFail (message : String) (found : Option α) : NeverPanics (orFail message found) := by
  cases found with
  | none => exact neverPanics_bail message
  | some value => exact neverPanics_ok value

theorem neverPanics_require (condition : Prop) [Decidable condition] (message : String) :
    NeverPanics (require condition message) := by
  intro reason impossible
  unfold require Checks.ensure at impossible
  split at impossible <;> cases impossible

theorem NeverPanics.bind {first : Result α} {next : α → Result β} (firstSafe : NeverPanics first)
    (nextSafe : ∀ value, NeverPanics (next value)) : NeverPanics (first >>= next) := by
  cases first with
  | ok value => exact nextSafe value
  | error failure =>
      intro reason impossible
      obtain rfl : failure = .panic reason := Except.error.inj impossible
      exact firstSafe reason rfl

theorem NeverPanics.map {first : Result α} (firstSafe : NeverPanics first) (apply : α → β) :
    NeverPanics (apply <$> first) := by
  cases first with
  | ok value => exact neverPanics_ok _
  | error failure =>
      intro reason impossible
      obtain rfl : failure = .panic reason := Except.error.inj impossible
      exact firstSafe reason rfl

end NeverPanics

instance : ToString ExactFloat := ⟨reprStr⟩

abbrev BoundedInt (low high : ℤ) := { value : ℤ // low ≤ value ∧ value ≤ high }

def BoundedInt.tryFrom (low high value : ℤ) : Option (BoundedInt low high) :=
  if bounds : low ≤ value ∧ value ≤ high then some ⟨value, bounds⟩ else none

theorem BoundedInt.exists_tryFrom {low high value : ℤ} :
    (∃ bounded, tryFrom low high value = some bounded) ↔ low ≤ value ∧ value ≤ high := by
  simp [tryFrom]

abbrev I8 := BoundedInt (-128) 127
abbrev I16 := BoundedInt (-32768) 32767
abbrev I32 := BoundedInt (-2147483648) 2147483647
abbrev U8 := BoundedInt 0 255
abbrev U16 := BoundedInt 0 65535
abbrev U32 := BoundedInt 0 4294967295

def usizeMax : ℤ := 2 ^ 64 - 1

def asUsize (number : F64) : ℕ :=
  (number.saturate 0 usizeMax).toNat

theorem asUsize_floor (quotient : ℚ) :
    asUsize (ExactFloat.floor (.finite quotient)) = (max 0 (min usizeMax ⌊quotient⌋)).toNat := by
  simp only [asUsize, ExactFloat.floor_finite, ExactFloat.saturate, ExactFloat.truncate_intCast]

theorem asUsize_floor_le {quotient : ℚ} (nonneg : 0 ≤ quotient) :
    (asUsize (ExactFloat.floor (.finite quotient)) : ℚ) ≤ quotient := by
  rw [asUsize_floor]
  have floorNonneg : 0 ≤ ⌊quotient⌋ := Int.floor_nonneg.mpr nonneg
  have count : ((max 0 (min usizeMax ⌊quotient⌋)).toNat : ℤ) ≤ ⌊quotient⌋ := by omega
  have asRational : ((max 0 (min usizeMax ⌊quotient⌋)).toNat : ℚ) ≤ (⌊quotient⌋ : ℚ) := by
    exact_mod_cast count
  exact asRational.trans (Int.floor_le quotient)

theorem two_le_asUsize_floor {quotient : ℚ} (large : 2 ≤ quotient) :
    2 ≤ asUsize (ExactFloat.floor (.finite quotient)) := by
  rw [asUsize_floor]
  have floorLarge : 2 ≤ ⌊quotient⌋ := Int.le_floor.mpr (by exact_mod_cast large)
  have high : (2 : ℤ) ≤ usizeMax := by decide
  omega

def asI128 (number : F64) : ℤ :=
  number.saturate (-2 ^ 127) (2 ^ 127 - 1)

structure Duration where
  nanos : ℕ
deriving DecidableEq, Repr

namespace Duration

def zero : Duration := ⟨0⟩

def add (left right : Duration) : Duration := ⟨left.nanos + right.nanos⟩

def asSecsF64 (duration : Duration) : F64 :=
  .finite (duration.nanos / 10 ^ 9)

def secs (duration : Duration) : ℚ := duration.nanos / 10 ^ 9

theorem asSecsF64_eq (duration : Duration) : duration.asSecsF64 = .finite duration.secs := rfl

theorem secs_nonneg (duration : Duration) : 0 ≤ duration.secs := by
  unfold secs
  positivity

theorem secs_pos {duration : Duration} (positive : 0 < duration.nanos) : 0 < duration.secs := by
  unfold secs
  positivity

def fromSecsF64 : F64 → Result Duration
  | .finite secs =>
      if 0 ≤ secs ∧ secs < 2 ^ 64 then .ok ⟨(ExactFloat.roundEven (secs * 10 ^ 9)).toNat⟩
      else .error (.panic "cannot convert float seconds to Duration")
  | _ => .error (.panic "cannot convert float seconds to Duration")

def InDomain : F64 → Prop
  | .finite secs => 0 ≤ secs ∧ secs < 2 ^ 64
  | _ => False

theorem inDomain_iff (secs : F64) :
    InDomain secs ↔ ∃ value, secs = .finite value ∧ 0 ≤ value ∧ value < 2 ^ 64 := by
  cases secs <;> simp [InDomain]

theorem fromSecsF64_ok_iff (secs : F64) :
    (∃ duration, fromSecsF64 secs = .ok duration) ↔ InDomain secs := by
  cases secs with
  | finite value =>
      simp only [fromSecsF64, InDomain]
      split <;> simp_all
  | nan => simp [fromSecsF64, InDomain]
  | negInf => simp [fromSecsF64, InDomain]
  | posInf => simp [fromSecsF64, InDomain]

theorem fromSecsF64_near {secs : F64} {duration : Duration} (converted : fromSecsF64 secs = .ok duration) :
    ∃ value, secs = .finite value ∧ |(duration.nanos : ℚ) - value * 10 ^ 9| ≤ 1 / 2 := by
  obtain ⟨value, rfl, nonneg, small⟩ := (inDomain_iff secs).mp ((fromSecsF64_ok_iff secs).mp ⟨_, converted⟩)
  refine ⟨value, rfl, ?_⟩
  simp only [fromSecsF64, nonneg, small, and_self, ↓reduceIte] at converted
  have same := Except.ok.inj converted
  subst same
  have near := ExactFloat.roundEven_near (value * 10 ^ 9)
  have scaled : 0 ≤ value * 10 ^ 9 := by positivity
  have rounded := ExactFloat.roundEven_nonneg scaled
  have asNat : ((ExactFloat.roundEven (value * 10 ^ 9)).toNat : ℚ) = ExactFloat.roundEven (value * 10 ^ 9) := by
    exact_mod_cast Int.toNat_of_nonneg rounded
  simpa only [asNat] using near

end Duration

/-- The seconds of an `Instant` are counted in an `i64`. -/
def instantLimit : ℕ := 2 ^ 63 * 10 ^ 9

def Instant.after (instant : Instant) (duration : Duration) : Result Instant :=
  if instant + duration.nanos < instantLimit then .ok (instant + duration.nanos)
  else .error (.panic "overflow when adding duration to instant")

inductive JsonNumber
  | posInt (value : BoundedInt 0 18446744073709551615)
  | negInt (value : BoundedInt (-9223372036854775808) (-1))
  | float (value : ℚ)
deriving DecidableEq, Repr

def JsonNumber.asF64 : JsonNumber → Option F64
  | posInt value => some (ExactFloat.toBinary64 (.finite value.val))
  | negInt value => some (ExactFloat.toBinary64 (.finite value.val))
  | float value => some (.finite value)

def JsonNumber.asI64 : JsonNumber → Option ℤ
  | posInt value => if value.val ≤ 9223372036854775807 then some value.val else none
  | negInt value => some value.val
  | float _ => none

inductive JsonValue
  | null
  | bool (value : Bool)
  | number (value : JsonNumber)
  | string (text : String)
  | array (items : List JsonValue)
  | object (fields : List (String × JsonValue))
deriving Repr

instance : ToString JsonValue := ⟨reprStr⟩

/-- `json!` of a float: what is not finite becomes null. -/
def JsonValue.ofF64 : F64 → JsonValue
  | .finite value => .number (.float value)
  | _ => .null

def JsonValue.ofInt {low high : ℤ} (lower : -9223372036854775808 ≤ low)
    (upper : high ≤ 18446744073709551615) (value : BoundedInt low high) : JsonValue :=
  if negative : value.val ≤ -1 then
    .number (.negInt ⟨value.val, lower.trans value.property.1, negative⟩)
  else .number (.posInt ⟨value.val, by omega, value.property.2.trans upper⟩)

end FerroFlow
