import FerroFlow.LiquidCan
import FerroFlow.SequenceDefinition

/-! Events that are dispatched by one module and listened to by another. -/

namespace FerroFlow

structure FieldLog where
  timestamp : DateTime
  nodeId : I16
  fieldId : I16
  fieldName : String
  fieldValue : JsonValue
deriving Repr

def u8AsI16 (value : UInt8) : I16 :=
  ⟨value.toNat, by
    have bound := value.toNat_lt
    omega⟩

inductive CanId
  | standard (raw : BoundedInt 0 2047)
  | extended (raw : BoundedInt 0 536870911)
deriving DecidableEq, Repr

structure CanFdFrame where
  id : CanId
  brs : Bool
  data : List UInt8
deriving DecidableEq, Repr

inductive CanAnyFrame
  | fd (frame : CanFdFrame)
  | other (description : String)
deriving DecidableEq, Repr

inductive Event
  | canMessageReceived (id : CanMessageId) (message : CanMessage)
  | nodeFieldUpdated (log : FieldLog)
  | shutdown
  | sendCanMessage (receiverNodeId : UInt8) (message : CanMessage)
  | relayCanMessage (fromInterface : String) (frame : CanAnyFrame)
  | startSequence (seq abortSeq : Sequence)
  | pauseSequence
  | resumeSequence
  | abortSequence

inductive EventKind
  | canMessageReceived
  | nodeFieldUpdated
  | shutdown
  | sendCanMessage
  | relayCanMessage
  | sequence
deriving DecidableEq, Repr

def EventKind.from : Event → EventKind
  | .canMessageReceived _ _ => .canMessageReceived
  | .nodeFieldUpdated _ => .nodeFieldUpdated
  | .shutdown => .shutdown
  | .sendCanMessage _ _ => .sendCanMessage
  | .relayCanMessage _ _ => .relayCanMessage
  | .startSequence _ _ => .sequence
  | .pauseSequence => .sequence
  | .resumeSequence => .sequence
  | .abortSequence => .sequence

end FerroFlow
