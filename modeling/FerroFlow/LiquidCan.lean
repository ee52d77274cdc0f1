import FerroFlow.Primitives

/-! The part of the LiquidCAN protocol the server uses. The wire format of values is not
part of this repository: decoding is a parameter. -/

namespace FerroFlow

inductive CanDataType
  | float32
  | int32
  | int16
  | int8
  | uint32
  | uint16
  | uint8
  | boolean
deriving DecidableEq, Repr

inductive CanDataValue
  | float32 (value : F32)
  | int32 (value : I32)
  | int16 (value : I16)
  | int8 (value : I8)
  | uint32 (value : U32)
  | uint16 (value : U16)
  | uint8 (value : U8)
  | boolean (value : Bool)
  | raw (items : List UInt8)
deriving DecidableEq, Repr

def CanDataValue.dataType? : CanDataValue → Option CanDataType
  | float32 _ => some .float32
  | int32 _ => some .int32
  | int16 _ => some .int16
  | int8 _ => some .int8
  | uint32 _ => some .uint32
  | uint16 _ => some .uint16
  | uint8 _ => some .uint8
  | boolean _ => some .boolean
  | raw _ => none

instance : ToString CanDataValue := ⟨reprStr⟩

structure CanMessageId where
  senderId : UInt8
  receiverId : UInt8
deriving DecidableEq, Repr

structure PackedCanDataValues where
  bytes : List UInt8
deriving DecidableEq, Repr

structure NodeInfoResPayload where
  telCount : UInt8
  parCount : UInt8
  firmwareHash : UInt32
  liquidHash : UInt32
  deviceName : String
deriving DecidableEq, Repr

structure FieldRegistrationPayload where
  fieldId : UInt8
  fieldType : CanDataType
  fieldName : String
deriving DecidableEq, Repr

structure TelemetryGroupDefinitionPayload where
  groupId : UInt8
  fieldIds : List UInt8
deriving DecidableEq, Repr

structure TelemetryGroupUpdatePayload where
  groupId : UInt8
  values : PackedCanDataValues
deriving DecidableEq, Repr

structure FieldGetReqPayload where
  fieldId : UInt8
deriving DecidableEq, Repr

structure FieldGetResPayload where
  fieldId : UInt8
  value : CanDataValue
deriving DecidableEq, Repr

structure ParameterSetReqPayload where
  parameterId : UInt8
  value : CanDataValue
deriving DecidableEq, Repr

structure HeartbeatPayload where
  counter : UInt32
deriving DecidableEq, Repr

/-- The kinds of message the server names; `other` stands for the remaining ones. -/
inductive CanMessage
  | nodeInfoReq
  | nodeInfoAnnouncement (payload : NodeInfoResPayload)
  | telemetryValueRegistration (payload : FieldRegistrationPayload)
  | parameterRegistration (payload : FieldRegistrationPayload)
  | telemetryGroupDefinition (payload : TelemetryGroupDefinitionPayload)
  | telemetryGroupUpdate (payload : TelemetryGroupUpdatePayload)
  | fieldGetReq (payload : FieldGetReqPayload)
  | fieldGetRes (payload : FieldGetResPayload)
  | parameterSetReq (payload : ParameterSetReqPayload)
  | heartbeatReq (payload : HeartbeatPayload)
  | heartbeatRes (payload : HeartbeatPayload)
  | other (description : String)
deriving DecidableEq, Repr

instance : ToString CanMessage := ⟨reprStr⟩

structure LiquidCan where
  unpack : PackedCanDataValues → List CanDataType → List (Result CanDataValue)
  convertFromRaw : CanDataValue → CanDataType → Result CanDataValue

/-- One result for each requested type, in order, and every decoded value of that type. -/
structure LiquidCan.Lawful (liquidCan : LiquidCan) : Prop where
  unpackLength : ∀ packed types, (liquidCan.unpack packed types).length = types.length
  unpackTyped : ∀ packed types (position : ℕ) (value : CanDataValue),
    (liquidCan.unpack packed types)[position]? = some (Except.ok value) →
      value.dataType? = types[position]?
  convertTyped : ∀ received dataType (value : CanDataValue),
    liquidCan.convertFromRaw received dataType = .ok value → value.dataType? = some dataType

/-! A codec that meets these laws: values one after the other, least significant byte first. -/

def CanDataType.byteSize : CanDataType → ℕ
  | float32 | int32 | uint32 => 4
  | int16 | uint16 => 2
  | int8 | uint8 | boolean => 1

def littleEndianNat : List UInt8 → ℕ
  | [] => 0
  | byte :: rest => byte.toNat + 256 * littleEndianNat rest

def twosComplement (bits value : ℕ) : ℤ :=
  if value < 2 ^ (bits - 1) then value else value - 2 ^ bits

def binary32OfBits (bits : ℕ) : F32 :=
  let fraction : ℚ := (bits % 2 ^ 23 : ℕ)
  let exponent : ℕ := bits / 2 ^ 23 % 2 ^ 8
  let signed (value : ℚ) : ℚ := if 2 ^ 31 ≤ bits then -value else value
  if exponent = 255 then (if fraction = 0 then .infinite (signed 1) else .nan)
  else if exponent = 0 then .finite (signed (fraction / 2 ^ 149))
  else .finite (signed ((2 ^ 23 + fraction) * 2 ^ ((exponent : ℤ) - 150)))

def decodeValue (dataType : CanDataType) (bytes : List UInt8) : Result CanDataValue :=
  if bytes.length < dataType.byteSize then bail "not enough bytes"
  else
    let bits := littleEndianNat (bytes.take dataType.byteSize)
    let integer (low high value : ℤ) : Result (BoundedInt low high) :=
      orFail "value out of range" (BoundedInt.tryFrom low high value)
    match dataType with
    | .float32 => .ok (.float32 (binary32OfBits bits))
    | .int32 => .int32 <$> integer _ _ (twosComplement 32 bits)
    | .int16 => .int16 <$> integer _ _ (twosComplement 16 bits)
    | .int8 => .int8 <$> integer _ _ (twosComplement 8 bits)
    | .uint32 => .uint32 <$> integer _ _ bits
    | .uint16 => .uint16 <$> integer _ _ bits
    | .uint8 => .uint8 <$> integer _ _ bits
    | .boolean => .ok (.boolean (bits ≠ 0))

def unpackValues : List UInt8 → List CanDataType → List (Result CanDataValue)
  | _, [] => []
  | bytes, dataType :: rest =>
      decodeValue dataType bytes :: unpackValues (bytes.drop dataType.byteSize) rest

def LiquidCan.littleEndian : LiquidCan where
  unpack packed types := unpackValues packed.bytes types
  convertFromRaw received dataType :=
    match received with
    | .raw items => decodeValue dataType items
    | _ => bail "value is not raw"

theorem decodeValue_typed {dataType : CanDataType} {bytes : List UInt8} {value : CanDataValue}
    (decoded : decodeValue dataType bytes = .ok value) : value.dataType? = some dataType := by
  unfold decodeValue at decoded
  split at decoded
  · cases decoded
  · cases dataType with
    | float32 => cases decoded; rfl
    | boolean => cases decoded; rfl
    | _ =>
        obtain ⟨integer, _, rfl⟩ := Checks.map_ok_iff.mp decoded
        rfl

theorem LiquidCan.littleEndian_lawful : LiquidCan.littleEndian.Lawful := by
  constructor
  · rintro ⟨bytes⟩ types
    change (unpackValues bytes types).length = types.length
    induction types generalizing bytes with
    | nil => rfl
    | cons dataType rest ih => simp [unpackValues, ih]
  · rintro ⟨bytes⟩ types position value found
    change (unpackValues bytes types)[position]? = some (Except.ok value) at found
    induction types generalizing bytes position with
    | nil => simp [unpackValues] at found
    | cons dataType rest ih =>
        cases position with
        | zero =>
            simp only [unpackValues, List.getElem?_cons_zero, Option.some.injEq] at found
            exact decodeValue_typed found
        | succ position => exact ih (bytes.drop dataType.byteSize) position found
  · intro received dataType value converted
    cases received with
    | raw items => exact decodeValue_typed converted
    | _ => cases converted

end FerroFlow
