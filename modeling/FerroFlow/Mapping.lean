import FerroFlow.LiquidCan
import Std.Data.TreeMap

/-! Mapping files: the names, units and linear conversions given to raw CAN fields, and
the rules that turn mapped values into logical ones. -/

namespace FerroFlow

inductive TomlValue
  | string (text : String)
  | integer (value : BoundedInt (-9223372036854775808) 9223372036854775807)
  | float (value : F64)
  | boolean (value : Bool)
  | datetime (text : String)
  | array (items : List TomlValue)
  | table (fields : List (String × TomlValue))
deriving Repr

inductive FieldType
  | telemetry
  | parameter
deriving DecidableEq, Repr

structure ValueParams where
  slope : F64 := .finite 1
  offset : F64 := .finite 0
  unit : String := ""
deriving DecidableEq, Repr

/-- A range of mapped values; a missing bound is unbounded, the lower bound is inclusive and
the upper one exclusive unless said otherwise. -/
structure LogicalRange where
  min : F64 := .negInf
  max : F64 := .posInf
  minInclusive : Bool := true
  maxInclusive : Bool := false
deriving DecidableEq, Repr

structure LogicalRule where
  range : LogicalRange
  value : TomlValue
deriving Repr

structure MappingEntry where
  name : String
  fieldType : FieldType
  rawField : String
  value : ValueParams := {}
  logical : List LogicalRule := []
deriving Repr

structure LogicalValue where
  value : TomlValue

structure MappedValue where
  value : F64
  unit : String
deriving DecidableEq, Repr

structure Mapping where
  mapping : Std.TreeMap String (List MappingEntry) := ∅

structure MappingLookupResult where
  nodeName : String
  mappingEntry : MappingEntry

namespace LogicalRange

def contains (range : LogicalRange) (value : F64) : Bool :=
  let aboveLower := if range.minInclusive then decide (range.min ≤ value) else decide (range.min < value)
  let belowUpper := if range.maxInclusive then decide (value ≤ range.max) else decide (value < range.max)
  aboveLower && belowUpper

def isNonEmpty (range : LogicalRange) : Bool :=
  if range.min < range.max then true
  else if ExactFloat.beq range.max range.min then range.minInclusive && range.maxInclusive
  else false

/-- The intersection of two ranges, if it is not empty; comparing a NaN bound panics. -/
def intersection (self other : LogicalRange) : Result (Option LogicalRange) := do
  let maxCmp ← unwrapOrdering (self.max.partialCmp other.max)
  let minCmp ← unwrapOrdering (self.min.partialCmp other.min)
  let max := self.max.minimum other.max
  let min := self.min.maximum other.min
  let minInclusive := match minCmp with
    | .lt => other.minInclusive
    | .gt => self.minInclusive
    | .eq => self.minInclusive && other.minInclusive
  let maxInclusive := match maxCmp with
    | .lt => self.maxInclusive
    | .gt => other.maxInclusive
    | .eq => self.maxInclusive && other.maxInclusive
  let shared : LogicalRange := { min, max, minInclusive, maxInclusive }
  if shared.isNonEmpty then .ok (some shared) else .ok none
where
  unwrapOrdering : Option Ordering → Result Ordering
    | some ordering => .ok ordering
    | none => .error (.panic "called `Option::unwrap()` on a `None` value")

def describe (range : LogicalRange) : String :=
  (if range.minInclusive then "[" else "(") ++ s!"{range.min}, {range.max}" ++
    (if range.maxInclusive then "]" else ")")

end LogicalRange

def LogicalRule.matchesValue (rule : LogicalRule) (mappedValue : F64) : Bool :=
  rule.range.contains mappedValue

def canDataValueToF64 : CanDataValue → Result F64
  | .float32 value => .ok value
  | .int32 value => .ok (.finite value.val)
  | .int16 value => .ok (.finite value.val)
  | .int8 value => .ok (.finite value.val)
  | .uint32 value => .ok (.finite value.val)
  | .uint16 value => .ok (.finite value.val)
  | .uint8 value => .ok (.finite value.val)
  | .boolean value => .ok (if value then .finite 1 else .finite 0)
  | .raw _ => bail "raw CAN data must be decoded before applying a mapping"

def integerTolerance : F64 := .finite (1 / 10 ^ 9)

def f64Epsilon : F64 := .finite (1 / 2 ^ 52)

def checkedInteger (low high : ℤ) (value : F64) : Result (BoundedInt low high) := do
  let rounded := value.round
  require ((value - rounded).abs ≤ integerTolerance) s!"raw value {value} is not an integer"
  orFail s!"raw value {rounded} is out of range" (BoundedInt.tryFrom low high (asI128 rounded))

def canDataValueFromF64 (value : F64) (dataType : CanDataType) : Result CanDataValue := do
  require (value.isFinite = true) "raw value must be finite"
  match dataType with
  | .float32 => .ok (.float32 value.toBinary32)
  | .int32 => CanDataValue.int32 <$> checkedInteger _ _ value
  | .int16 => CanDataValue.int16 <$> checkedInteger _ _ value
  | .int8 => CanDataValue.int8 <$> checkedInteger _ _ value
  | .uint32 => CanDataValue.uint32 <$> checkedInteger _ _ value
  | .uint16 => CanDataValue.uint16 <$> checkedInteger _ _ value
  | .uint8 => CanDataValue.uint8 <$> checkedInteger _ _ value
  | .boolean =>
      if (value - .finite 0).abs < f64Epsilon then .ok (.boolean false)
      else if (value - .finite 1).abs < f64Epsilon then .ok (.boolean true)
      else bail s!"boolean raw values must map back to 0 or 1, got {value}"

def isWhiteSpace (char : Char) : Bool :=
  let code := char.toNat
  (9 ≤ code && code ≤ 13) || code == 0x20 || code == 0x85 || code == 0xA0 || code == 0x1680 ||
    (0x2000 ≤ code && code ≤ 0x200A) || code == 0x2028 || code == 0x2029 || code == 0x202F ||
    code == 0x205F || code == 0x3000

def isBlank (text : String) : Bool :=
  text.toList.all isWhiteSpace

namespace MappingEntry

def checkOverlaps (entry : MappingEntry) (index : ℕ) (range : LogicalRange) :
    ℕ → List LogicalRange → Result Unit
  | _, [] => .ok ()
  | coveredIndex, coveredRange :: rest => do
      match ← range.intersection coveredRange with
      | some overlap =>
          bail s!"Logical rule {index + 1} for mapping {entry.name} overlaps with rule {coveredIndex + 1} in {overlap.describe}; overlapping ranges are ambiguous"
      | none => checkOverlaps entry index range (coveredIndex + 1) rest

def checkLogicalRules (entry : MappingEntry) : ℕ → List LogicalRange → List LogicalRule → Result Unit
  | _, _, [] => .ok ()
  | index, coveredRanges, rule :: rest => do
      require (rule.range.isNonEmpty = true)
        s!"Logical rule {index + 1} for mapping {entry.name} has an empty range {rule.range.describe}"
      checkOverlaps entry index rule.range 0 coveredRanges
      checkLogicalRules entry (index + 1) (coveredRanges ++ [rule.range]) rest

def validateLogicalRules (entry : MappingEntry) : Result Unit :=
  if entry.logical.isEmpty then .ok () else checkLogicalRules entry 0 [] entry.logical

def validate (entry : MappingEntry) : Result Unit := do
  require (isBlank entry.name = false) "mapping name must be non-empty"
  require (entry.name.toList.contains ':' = false)
    s!"mapping name '{entry.name}' cannot contain colons, which are reserved characters to differentiate raw names from mapped names"
  require (isBlank entry.rawField = false) s!"mapping {entry.name} has an empty raw_field"
  require (entry.value.slope.isFinite = true) s!"mapping {entry.name} has a non-finite slope"
  require (entry.value.slope.beq (.finite 0) = false)
    s!"mapping {entry.name} has a slope of zero, which is not allowed"
  require (entry.value.offset.isFinite = true) s!"mapping {entry.name} has a non-finite offset"
  entry.validateLogicalRules

def mappedValue (entry : MappingEntry) (rawValue : CanDataValue) : Result MappedValue := do
  let numericRawValue ← canDataValueToF64 rawValue
  .ok { unit := entry.value.unit, value := numericRawValue * entry.value.slope + entry.value.offset }

def rawValueFromMapped (entry : MappingEntry) (mappedValue : F64) (dataType : CanDataType) :
    Result CanDataValue := do
  require (mappedValue.isFinite = true) s!"mapped value for {entry.name} must be finite"
  require (entry.value.slope.beq (.finite 0) = false)
    s!"cannot invert mapping {entry.name} because slope is zero"
  canDataValueFromF64 ((mappedValue - entry.value.offset) / entry.value.slope) dataType

def logicalValue (entry : MappingEntry) (mappedValue : F64) : Option LogicalValue :=
  (entry.logical.find? (·.matchesValue mappedValue)).map fun rule => { value := rule.value }

end MappingEntry

namespace Mapping

structure SeenNames where
  names : List String := []
  rawFields : List (String × String) := []

def validateField (node : String) (seen : SeenNames) (field : MappingEntry) : Result SeenNames := do
  withContext s!"mapping for node {node} field {field.name} is invalid" field.validate
  if (node, field.rawField) ∈ seen.rawFields then
    bail s!"Duplicate raw field mapping for node '{node}' field '{field.rawField}'"
  else if field.name ∈ seen.names then bail s!"Duplicate mapping name '{field.name}'"
  else .ok { names := field.name :: seen.names, rawFields := (node, field.rawField) :: seen.rawFields }

def validateNode (seen : SeenNames) (entry : String × List MappingEntry) : Result SeenNames := do
  require (isBlank entry.1 = false) "mapping contains an entry with an empty node name"
  entry.2.foldlM (validateField entry.1) seen

def validate (mapping : Mapping) : Result Unit := do
  let _ ← mapping.mapping.toList.foldlM validateNode {}
  .ok ()

def getMappingForName (mapping : Mapping) (name : String) : Option MappingLookupResult :=
  mapping.mapping.toList.findSome? fun entry =>
    (entry.2.find? fun field => field.name = name).map fun field =>
      { nodeName := entry.1, mappingEntry := field }

def getMappingForRaw (mapping : Mapping) (node field : String) : Option MappingLookupResult :=
  mapping.mapping[node]?.bind fun mappingEntries =>
    (mappingEntries.find? fun entry => entry.rawField = field).map fun entry =>
      { nodeName := node, mappingEntry := entry }

end Mapping

end FerroFlow
