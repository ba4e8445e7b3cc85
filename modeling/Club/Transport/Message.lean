import Mathlib.Data.List.Basic
import Mathlib.Algebra.Group.Nat.Basic

/-!
Sequence numbers, message types and the message records the socket handles:
the part decoded from a packet (`InMessagePart`), the complete message handed
to the user (`InMessageFull`), the reassembly buffer of a partially received
message (`PendingMessage`) and the outbound message with its fragmentation
cursor (`OutMessage`). The headers declaring these records are not among the
sources; where the socket needs more than their fields, they follow §3 and §4.3.
-/

namespace Club.Transport

/-- `SequenceNumber` is 32 bits wide, so `sn + 1` wraps around. -/
abbrev SequenceNumber := UInt32

/-- `MessageType` is an enum class over one byte: a tag other than the five
named values can still be read off the wire, and reaches the default branch of
`handle_message`. -/
inductive MessageType
  | sync | keepAlive | unreliable | reliable | close
  | other (tag : UInt8)
  deriving DecidableEq, Repr

namespace MessageType

def tag : MessageType → UInt8
  | sync => 0 | keepAlive => 1 | unreliable => 2 | reliable => 3 | close => 4
  | other t => t

def ofTag (t : UInt8) : MessageType :=
  match t.toNat with
  | 0 => sync | 1 => keepAlive | 2 => unreliable | 3 => reliable | 4 => close
  | _ => other t

end MessageType

/-- The error codes the socket hands to the user's receive callbacks. -/
inductive ErrorCode
  | operationAborted | connectionReset | timedOut | parseError
  | other (code : Nat)
  deriving DecidableEq, Repr

/-- One part of a message as decoded from a packet: the chunk of the payload
starting at `chunkStart` of a message of `originalSize` bytes. -/
structure InMessagePart where
  type : MessageType
  sequenceNumber : SequenceNumber
  originalSize : Nat
  chunkStart : Nat
  payload : List UInt8
  deriving DecidableEq, Repr

structure InMessageFull where
  type : MessageType
  sequenceNumber : SequenceNumber
  payload : List UInt8
  deriving DecidableEq, Repr

namespace InMessagePart

def isComplete (m : InMessagePart) : Bool :=
  m.chunkStart == 0 && m.payload.length == m.originalSize

def getCompleteMessage (m : InMessagePart) : Option InMessageFull :=
  if m.isComplete then some ⟨m.type, m.sequenceNumber, m.payload⟩ else none

theorem getCompleteMessage_sequenceNumber {m : InMessagePart} {f : InMessageFull}
    (h : m.getCompleteMessage = some f) : f.sequenceNumber = m.sequenceNumber := by
  unfold getCompleteMessage at h
  split at h <;> cases h
  rfl

end InMessagePart

/-- Write `bytes` into `buffer` from position `start` on; positions past the
end of the buffer are dropped. -/
def writeAt : List (Option UInt8) → Nat → List UInt8 → List (Option UInt8)
  | [], _, _ => []
  | b :: buffer, 0, [] => b :: buffer
  | _ :: buffer, 0, x :: bytes => some x :: writeAt buffer 0 bytes
  | b :: buffer, n + 1, bytes => b :: writeAt buffer n bytes

@[simp] theorem length_writeAt (buffer : List (Option UInt8)) (start : Nat)
    (bytes : List UInt8) : (writeAt buffer start bytes).length = buffer.length := by
  induction buffer, start, bytes using writeAt.induct <;> simp [writeAt, *]

/-- Modelled from the spec: `PendingMessage`, a message being reassembled. Its
payload is allocated to the total size at creation; `none` marks a byte that
no part has covered yet, and the message is complete once every byte is. -/
structure PendingMessage where
  type : MessageType
  sequenceNumber : SequenceNumber
  buffer : List (Option UInt8)
  deriving DecidableEq, Repr

namespace PendingMessage

/-- `PendingMessage(const InMessagePart&)`. -/
def ofPart (m : InMessagePart) : PendingMessage :=
  ⟨m.type, m.sequenceNumber,
    writeAt (List.replicate m.originalSize none) m.chunkStart m.payload⟩

def updatePayload (pm : PendingMessage) (chunkStart : Nat) (payload : List UInt8) :
    PendingMessage :=
  { pm with buffer := writeAt pm.buffer chunkStart payload }

def isComplete (pm : PendingMessage) : Bool := pm.buffer.all Option.isSome

def payload (pm : PendingMessage) : List UInt8 := pm.buffer.map (·.getD 0)

def getCompleteMessage (pm : PendingMessage) : Option InMessageFull :=
  if pm.isComplete then some ⟨pm.type, pm.sequenceNumber, pm.payload⟩ else none

@[simp] theorem ofPart_sequenceNumber (m : InMessagePart) :
    (ofPart m).sequenceNumber = m.sequenceNumber := rfl

@[simp] theorem updatePayload_sequenceNumber (pm : PendingMessage) (s : Nat)
    (p : List UInt8) : (pm.updatePayload s p).sequenceNumber = pm.sequenceNumber := rfl

theorem getCompleteMessage_sequenceNumber {pm : PendingMessage} {f : InMessageFull}
    (h : pm.getCompleteMessage = some f) : f.sequenceNumber = pm.sequenceNumber := by
  unfold getCompleteMessage at h
  split at h <;> cases h
  rfl

end PendingMessage

/-- An outbound message; `bytesAlreadySent` is the fragmentation cursor. -/
structure OutMessage where
  resendUntilAcked : Bool
  type : MessageType
  sequenceNumber : SequenceNumber
  payload : List UInt8
  bytesAlreadySent : Nat
  deriving DecidableEq, Repr

namespace OutMessage

/-- `OutMessage(resend_until_acked, type, sn, payload)`: nothing sent yet. -/
def new (resendUntilAcked : Bool) (type : MessageType) (sn : SequenceNumber)
    (payload : List UInt8) : OutMessage :=
  ⟨resendUntilAcked, type, sn, payload, 0⟩

def payloadSize (m : OutMessage) : Nat := m.payload.length

/-- Modelled from the spec: the header of a part is type (1 byte), reliable
flag (1), sequence number (4), total size (2), chunk start (2) and chunk
length (2). -/
def headerSize : Nat := 12

end OutMessage

end Club.Transport
