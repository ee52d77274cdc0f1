import FerroFlow.NodeManager

/-! Reading and writing fields by name. A name without a colon is a mapped name; otherwise
it is a raw name, the node name and the raw field name around the first colon. -/

namespace FerroFlow

structure ResolvedMappingTarget where
  nodeId : UInt8
  fieldId : UInt8
  dataType : CanDataType
deriving DecidableEq, Repr

def splitOnce (separator : Char) (text : String) : Option (String × String) :=
  match text.toList.span (· ≠ separator) with
  | (before, _ :: after) => some (String.ofList before, String.ofList after)
  | (_, []) => none

def jsonValueToF64 : JsonValue → Result F64
  | .number num => orFail s!"expected numeric value, got {JsonValue.number num}" num.asF64
  | .bool value => .ok (if value then .finite 1 else .finite 0)
  | value => bail s!"expected numeric or boolean value, got {value}"

def jsonValueToInteger (low high : ℤ) (value : JsonValue) : Result (BoundedInt low high) := do
  let raw ← match value with
    | .number num => orFail s!"expected integer value, got {value}" num.asI64
    | .bool flag => .ok (if flag then 1 else 0)
    | _ => bail s!"expected integer or boolean value, got {value}"
  orFail s!"integer value {raw} is out of range" (BoundedInt.tryFrom low high raw)

def jsonValueAsBool : JsonValue → Result Bool
  | .bool value => .ok value
  | .number num => (· ≠ 0) <$>
      orFail s!"expected boolean-compatible value, got {JsonValue.number num}" num.asI64
  | value => bail s!"expected boolean-compatible value, got {value}"

def jsonValueToCanDataValue (value : JsonValue) : CanDataType → Result CanDataValue
  | .float32 => (fun number => CanDataValue.float32 number.toBinary32) <$> jsonValueToF64 value
  | .int32 => CanDataValue.int32 <$> jsonValueToInteger _ _ value
  | .int16 => CanDataValue.int16 <$> jsonValueToInteger _ _ value
  | .int8 => CanDataValue.int8 <$> jsonValueToInteger _ _ value
  | .uint32 => CanDataValue.uint32 <$> jsonValueToInteger _ _ value
  | .uint16 => CanDataValue.uint16 <$> jsonValueToInteger _ _ value
  | .uint8 => CanDataValue.uint8 <$> jsonValueToInteger _ _ value
  | .boolean => CanDataValue.boolean <$> jsonValueAsBool value

structure Commanded where
  result : Result Unit
  events : List Event := []

namespace NodeManager

def isMappedName (fieldName : String) : Bool :=
  !fieldName.toList.contains ':'

def lookupMapping (manager : NodeManager) (fieldName : String) : Result MappingLookupResult :=
  if isMappedName fieldName then
    orFail s!"no mapping exists for {fieldName}" (manager.mapping.getMappingForName fieldName)
  else
    match splitOnce ':' fieldName with
    | some (nodeName, rawFieldName) =>
        orFail s!"no mapping exists for {fieldName}"
          (manager.mapping.getMappingForRaw nodeName rawFieldName)
    | none => .error (.panic "called `Option::unwrap()` on a `None` value")

def mappedFields (node : CanNode) : FieldType → HashMap UInt8 FieldInfo
  | .telemetry => node.telemetryFields
  | .parameter => node.parameterFields

def resolveMappingTarget (manager : NodeManager) (lookup : MappingLookupResult) :
    Option ResolvedMappingTarget :=
  manager.canNodes.toPairs.findSome? fun entry =>
    if entry.2.registrationInfo.deviceName ≠ lookup.nodeName then none
    else
      ((mappedFields entry.2 lookup.mappingEntry.fieldType).toPairs.find? fun field =>
        field.2.name = lookup.mappingEntry.rawField).map fun field =>
          { nodeId := entry.1, fieldId := field.1, dataType := field.2.dataType }

def resolveMappingByName (manager : NodeManager) (fieldName : String) :
    Result (MappingLookupResult × ResolvedMappingTarget) := do
  let mappingLookup ← manager.lookupMapping fieldName
  let target ← orFail s!"mapped field {fieldName} is not registered"
    (manager.resolveMappingTarget mappingLookup)
  .ok (mappingLookup, target)

def latestRawValue (manager : NodeManager) (target : ResolvedMappingTarget) : Option CanDataValue :=
  (manager.canNodes.lookup target.nodeId).bind fun node =>
    (node.values.lookup target.fieldId).map fun value => value.2

def tryGetRawValue (manager : NodeManager) (fieldName : String) : Result (Option CanDataValue) := do
  let (_, target) ← manager.resolveMappingByName fieldName
  .ok (manager.latestRawValue target)

def tryGetMappedValue (manager : NodeManager) (fieldName : String) : Result (Option MappedValue) := do
  let (mapping, target) ← manager.resolveMappingByName fieldName
  match manager.latestRawValue target with
  | none => .ok none
  | some rawValue => some <$> mapping.mappingEntry.mappedValue rawValue

def tryGetLogicalValue (manager : NodeManager) (fieldName : String) : Result (Option LogicalValue) := do
  match ← manager.tryGetMappedValue fieldName with
  | none => .ok none
  | some mappedValue =>
      let mappingLookup ← manager.lookupMapping fieldName
      .ok (mappingLookup.mappingEntry.logicalValue mappedValue.value)

def tryGetValue (manager : NodeManager) (fieldName : String) : Result (Option MappedValue) :=
  if isMappedName fieldName then
    withContext s!"failed to get mapped value for field name '{fieldName}'"
      (manager.tryGetMappedValue fieldName)
  else do
    match ← withContext s!"failed to get raw value for field name '{fieldName}'"
        (manager.tryGetRawValue fieldName) with
    | none => .ok none
    | some rawValue =>
        let numericalRepresentation ←
          withContext s!"failed to convert raw value for field name '{fieldName}' to f64"
            (canDataValueToF64 rawValue)
        -- a converted raw value has no unit
        .ok (some { value := numericalRepresentation, unit := "" })

def getValue (manager : NodeManager) (fieldName : String) : Option MappedValue :=
  match manager.tryGetValue fieldName with
  | .ok value => value
  | .error _ => none

def requestValue (manager : NodeManager) (fieldName : String) : Commanded :=
  match manager.resolveMappingByName fieldName with
  | .error failure => { result := .error failure }
  | .ok (_, target) =>
      { result := .ok ()
        events := [.sendCanMessage target.nodeId (.fieldGetReq { fieldId := target.fieldId })] }

def dispatchParameterSet (target : ResolvedMappingTarget) (rawValue : CanDataValue) : Commanded where
  result := .ok ()
  events := [.sendCanMessage target.nodeId
    (.parameterSetReq { parameterId := target.fieldId, value := rawValue })]

def setResolved (manager : NodeManager) (fieldName : String)
    (convert : MappingEntry → CanDataType → Result CanDataValue) : Commanded :=
  match manager.resolveMappingByName fieldName with
  | .error failure => { result := .error failure }
  | .ok (mappingLookup, target) =>
      if mappingLookup.mappingEntry.fieldType ≠ .parameter then
        { result := bail s!"mapped field {fieldName} is not writable because it is not a parameter" }
      else
        match convert mappingLookup.mappingEntry target.dataType with
        | .error failure => { result := .error failure }
        | .ok rawValue => dispatchParameterSet target rawValue

def setMappedValue (manager : NodeManager) (fieldName : String) (mappedValue : F64) : Commanded :=
  manager.setResolved fieldName fun entry dataType => entry.rawValueFromMapped mappedValue dataType

def setRawValue (manager : NodeManager) (fieldName : String) (value : JsonValue) : Commanded :=
  manager.setResolved fieldName fun _ dataType => jsonValueToCanDataValue value dataType

def setValue (manager : NodeManager) (fieldName : String) (value : JsonValue) : Commanded :=
  if isMappedName fieldName then
    match jsonValueToF64 value with
    | .error failure => { result := .error failure }
    | .ok mappedValue => manager.setMappedValue fieldName mappedValue
  else manager.setRawValue fieldName value

end NodeManager

end FerroFlow
