import FerroFlow.Events

/-! What a receive thread makes of a frame, and what the send thread writes to an interface. -/

namespace FerroFlow

/-- Addressing and framing of the LiquidCAN protocol, which are not part of this repository. -/
structure LiquidCanFraming where
  nodeIdInvalid : UInt8
  nodeIdBroadcast : UInt8
  nodeIdServer : UInt8
  idFromRaw : UInt16 → CanMessageId
  idIntoRaw : CanMessageId → UInt16
  tryFrom : CanFdFrame → Result CanMessage
  intoFrame : CanMessage → CanFdFrame

def lowerHex (width value : ℕ) : String :=
  let digits := Nat.toDigits 16 value
  String.ofList (List.replicate (width - digits.length) '0' ++ digits)

def hexBytes (bytes : List UInt8) : String :=
  "[" ++ ", ".intercalate (bytes.map fun byte => lowerHex 2 byte.toNat) ++ "]"

namespace CanId

def standardRaw : CanId → UInt16
  | standard raw => UInt16.ofNat raw.val.toNat
  | extended raw => UInt16.ofNat (raw.val.toNat / 2 ^ 18)

def newStandard (raw : UInt16) : Option CanId :=
  (BoundedInt.tryFrom 0 2047 raw.toNat).map standard

end CanId

inductive ReadFrame
  | frame (frame : CanAnyFrame)
  | timedOut
  | failed (failure : Failure)
deriving DecidableEq, Repr

def Event.frameTo (interface : String) : Event → Option CanAnyFrame
  | .relayCanMessage fromInterface frame => if interface = fromInterface then none else some frame
  | _ => none

def Event.isRelay : Event → Bool
  | .relayCanMessage _ _ => true
  | _ => false

namespace LiquidCanFraming

variable (framing : LiquidCanFraming)

def messageId (frame : CanFdFrame) : CanMessageId :=
  framing.idFromRaw frame.id.standardRaw

def isForServer (receiver : UInt8) : Bool :=
  receiver = framing.nodeIdBroadcast ∨ receiver = framing.nodeIdServer

def receiveFrame (interface : String) : ReadFrame → Result (Option Event)
  | .timedOut => .ok none
  | .failed failure =>
      withContext s!"failed to read CAN frame on interface {interface}" (.error failure)
  | .frame (.other description) =>
      bail s!"received non-FD CAN frame on interface {interface}, {description}"
  | .frame (.fd frame) => do
      let rawId := frame.id.standardRaw
      let messageId := framing.messageId frame
      if messageId.receiverId = framing.nodeIdInvalid then
        let digits := lowerHex 8 rawId.toNat
        bail s!"received CAN message with invalid receiver ID on interface {interface}, id: 0x{digits}"
      else if framing.isForServer messageId.receiverId then
        let content := hexBytes frame.data
        let sender := messageId.senderId
        let message ← withContext
          s!"failed to parse CAN frame into CanMessage for node {sender}. Frame content: {content}"
          (framing.tryFrom frame)
        return some (.canMessageReceived messageId message)
      else
        return some (.relayCanMessage interface (.fd frame))

/-- What the send thread writes to an interface for an event: nothing where the id does not fit, and
nothing to where a relayed frame comes from. -/
def outgoing (interface : String) : Event → Option CanAnyFrame
  | .sendCanMessage receiverNodeId message =>
      (CanId.newStandard (framing.idIntoRaw ⟨framing.nodeIdServer, receiverNodeId⟩)).map fun id =>
        .fd { framing.intoFrame message with id := id, brs := true }
  | .relayCanMessage fromInterface frame => if interface = fromInterface then none else some frame
  | _ => none

section Routing

def forRelay : ReadFrame → Option CanAnyFrame
  | .frame (.fd frame) =>
      if (framing.messageId frame).receiverId ≠ framing.nodeIdInvalid ∧
          ¬ framing.isForServer (framing.messageId frame).receiverId = true then some (.fd frame)
      else none
  | _ => none

def forServer : ReadFrame → Option Event
  | .frame (.fd frame) =>
      if (framing.messageId frame).receiverId ≠ framing.nodeIdInvalid ∧
          framing.isForServer (framing.messageId frame).receiverId = true then
        (framing.tryFrom frame).toOption.map (.canMessageReceived (framing.messageId frame))
      else none
  | _ => none

variable {framing}

/-- A frame is relayed, handed to the server, or neither, and nothing else is dispatched for it. -/
theorem receiveFrame_routes (interface : String) (read : ReadFrame) :
    (framing.receiveFrame interface read).toOption.join =
      ((framing.forRelay read).map (.relayCanMessage interface)).or (framing.forServer read) := by
  cases read with
  | timedOut => rfl
  | failed failure => rfl
  | frame frame =>
      cases frame with
      | other description => rfl
      | fd frame =>
          by_cases invalid : (framing.messageId frame).receiverId = framing.nodeIdInvalid
          · simp only [receiveFrame, forRelay, forServer, invalid, ne_eq, not_true_eq_false, false_and, ↓reduceIte]
            rfl
          · by_cases own : framing.isForServer (framing.messageId frame).receiverId = true
            · simp only [receiveFrame, forRelay, forServer, invalid, own, ne_eq, not_false_eq_true,
                not_true_eq_false, and_false, and_true, ↓reduceIte, Option.map_none, Option.none_or]
              cases framing.tryFrom frame <;> rfl
            · simp only [receiveFrame, forRelay, forServer, invalid, own, ne_eq, not_false_eq_true,
                ↓reduceIte]
              rfl

theorem forRelay_or_forServer (read : ReadFrame) :
    framing.forRelay read = none ∨ framing.forServer read = none := by
  cases read with
  | timedOut => exact Or.inl rfl
  | failed failure => exact Or.inl rfl
  | frame frame =>
      cases frame with
      | other description => exact Or.inl rfl
      | fd frame =>
          by_cases own : framing.isForServer (framing.messageId frame).receiverId = true
          · exact Or.inl (if_neg fun reached => reached.2 own)
          · exact Or.inr (if_neg fun reached => own reached.2)

theorem message_of_forServer {read : ReadFrame} {event : Event} (handed : framing.forServer read = some event) :
    ∃ id message, event = .canMessageReceived id message := by
  cases read with
  | timedOut => cases handed
  | failed failure => cases handed
  | frame frame =>
      cases frame with
      | other description => cases handed
      | fd frame =>
          simp only [forServer, Option.ite_none_right_eq_some] at handed
          obtain ⟨message, _, rfl⟩ := Option.map_eq_some_iff.mp handed.2
          exact ⟨_, message, rfl⟩

end Routing

end LiquidCanFraming

end FerroFlow
