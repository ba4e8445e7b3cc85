import Club.Transport.Binary

/-!
The state of one `SocketImpl` endpoint and of the event system around it.

`SocketImpl` holds the object's fields and `SocketState` the state it shares
with every pending continuation (`was_destroyed` and the two buffers), which
outlives the object. `Io` counts the asynchronous operations in flight. A
dispatch that calls a user callback is suspended on an explicit stack of
`Frame`s, one for each piece of code still to run when the callback returns,
so that a callback may call back into the endpoint, or destroy it, at any point.
`Obs` is a ghost log of what the user and the network can observe.
-/

namespace Club.Transport

/-- `SocketImpl::packet_size`, the size of `rx_buffer` and `tx_buffer`. -/
def packetSize : Nat := 1452

inductive Address
  | unspecified | loopback
  | host (id : Nat)
  deriving DecidableEq, Repr

structure UdpEndpoint where
  address : Address
  port : Nat
  deriving DecidableEq, Repr

namespace UdpEndpoint

/-- A default-constructed `udp::endpoint`. -/
def none : UdpEndpoint := ⟨.unspecified, 0⟩

/-- `SocketImpl::sanitize_address`: an unspecified host becomes loopback. -/
def sanitize (ep : UdpEndpoint) : UdpEndpoint :=
  if ep.address = .unspecified then ⟨.loopback, ep.port⟩ else ep

end UdpEndpoint

namespace SocketImpl

inductive SendState
  | sending | waiting | pending
  deriving DecidableEq, Repr

structure Sync where
  lastUsedReliableSn : SequenceNumber
  lastUsedUnreliableSn : SequenceNumber
  deriving DecidableEq, Repr

/-- `SocketImpl::SocketState`, shared with every pending continuation. -/
structure SocketState where
  wasDestroyed : Bool
  rxEndpoint : UdpEndpoint
  rxBuffer : List UInt8
  txBuffer : List UInt8
  deriving DecidableEq, Repr

/-- `SocketImpl::PendingMessages`, a `std::map` from sequence number to the
message being reassembled: its entries in key order, the keys increasing. -/
structure PendingMessages where
  entries : List PendingMessage
  sorted : (entries.map (·.sequenceNumber)).Pairwise (· < ·)

namespace PendingMessages

def keys (pms : PendingMessages) : List SequenceNumber := pms.entries.map (·.sequenceNumber)

def empty : PendingMessages := ⟨[], .nil⟩

def find? (pms : PendingMessages) (sn : SequenceNumber) : Option PendingMessage :=
  pms.entries.find? (·.sequenceNumber = sn)

/-- Insert before the first larger key; a key already held keeps its entry. -/
def insertSorted (pm : PendingMessage) : List PendingMessage → List PendingMessage
  | [] => [pm]
  | q :: qs =>
    if pm.sequenceNumber < q.sequenceNumber then pm :: q :: qs
    else if pm.sequenceNumber = q.sequenceNumber then q :: qs
    else q :: insertSorted pm qs

theorem mem_insertSorted {pm x : PendingMessage} {l : List PendingMessage}
    (h : x ∈ insertSorted pm l) : x = pm ∨ x ∈ l := by
  induction l with
  | nil => simpa [insertSorted] using h
  | cons q qs ih =>
    unfold insertSorted at h
    split_ifs at h
    · simpa using h
    · exact .inr h
    · rcases List.mem_cons.mp h with rfl | h
      exacts [.inr (.head _), (ih h).imp_right (.tail _)]

theorem insertSorted_sorted (pm : PendingMessage) {l : List PendingMessage}
    (h : (l.map (·.sequenceNumber)).Pairwise (· < ·)) :
    ((insertSorted pm l).map (·.sequenceNumber)).Pairwise (· < ·) := by
  induction l with
  | nil => simp [insertSorted]
  | cons q qs ih =>
    simp only [List.map_cons, List.pairwise_cons, List.mem_map] at h
    unfold insertSorted
    split_ifs with hlt heq
    · simp only [List.map_cons, List.pairwise_cons, List.mem_cons, List.mem_map]
      refine ⟨?_, h.1, h.2⟩
      rintro _ (rfl | ⟨x, hx, rfl⟩)
      exacts [hlt, Nat.lt_trans hlt (h.1 _ ⟨x, hx, rfl⟩)]
    · simpa [List.pairwise_cons] using h
    · have hq : q.sequenceNumber < pm.sequenceNumber :=
        Nat.lt_of_le_of_ne (Nat.not_lt.mp hlt) (Ne.symm (UInt32.toNat.inj.mt heq))
      simp only [List.map_cons, List.pairwise_cons, List.mem_map]
      refine ⟨?_, ih h.2⟩
      rintro _ ⟨x, hx, rfl⟩
      rcases mem_insertSorted hx with rfl | hx
      exacts [hq, h.1 _ ⟨x, hx, rfl⟩]

/-- `emplace`: a new entry under its key, unless the key is held. -/
def emplace (pm : PendingMessage) (pms : PendingMessages) : PendingMessages :=
  ⟨insertSorted pm pms.entries, insertSorted_sorted pm pms.sorted⟩

/-- `update_payload` on the entry under `sn`, found through the map. -/
def updatePayload (sn : SequenceNumber) (chunkStart : Nat) (payload : List UInt8)
    (pms : PendingMessages) : PendingMessages :=
  ⟨pms.entries.map fun pm =>
      if pm.sequenceNumber = sn then pm.updatePayload chunkStart payload else pm,
    by simpa [Function.comp_def, apply_ite PendingMessage.sequenceNumber] using pms.sorted⟩

/-- `erase` of the entry under `sn`. -/
def erase (sn : SequenceNumber) (pms : PendingMessages) : PendingMessages :=
  ⟨pms.entries.filter (·.sequenceNumber ≠ sn), pms.sorted.sublist ((List.filter_sublist _).map _)⟩

end PendingMessages

end SocketImpl

open SocketImpl in
/-- The fields of a `SocketImpl`. A user callback is represented by whether one
is registered: what it does when called is the environment's choice. The
transmit queue is listed in the order its next `cycle()` visits it. -/
structure SocketImpl (α : Type) where
  sendState : SendState
  socketOpen : Bool
  remoteEndpoint : UdpEndpoint
  transmitQueue : List OutMessage
  sync : Option Sync
  pendingReliableMessages : PendingMessages
  pendingUnreliableMessage : Option PendingMessage
  scheduleSendingAcks : Bool
  receivedMessageIdsByPeer : α
  receivedMessageIds : α
  nextReliableSn : SequenceNumber
  nextUnreliableSn : SequenceNumber
  onReceiveReliable : Bool
  onReceiveUnreliable : Bool
  onFlush : Bool
  recvTimeoutAlarm : Bool
  sendKeepaliveAlarm : Bool

/-- The asynchronous operations started and not yet completed. A `punch_hole`
in progress is kept with the sync message its `on_punch` continuation owns. -/
structure Io where
  receives : Nat
  sends : Nat
  timerWaits : Nat
  punches : List OutMessage
  deriving DecidableEq, Repr

/-- The user callbacks: the two receive callbacks, the flush callback and the
`on_connect` handler of `rendezvous_connect`. -/
inductive Hook
  | reliable | unreliable | flush | connect
  deriving DecidableEq, Repr

/-- What the user and the network observe: a callback invoked and with what,
and the I/O started. `synced` and `ackErased` are ghost entries: the sync
sequence number recorded by `handle_sync_message`, and a message that
`encode_payload` erased because the peer acknowledged it. -/
inductive Obs
  | reliable (sn : SequenceNumber) (payload : List UInt8)
  | unreliable (sn : SequenceNumber) (payload : List UInt8)
  | error (hook : Hook) (err : ErrorCode)
  | flushed
  | connected (err : Option ErrorCode)
  | asyncSendTo (dst : UdpEndpoint) (datagram : List UInt8)
  | sendTo (dst : UdpEndpoint) (datagram : List UInt8)
  | punchHole (dst : UdpEndpoint) (datagram : List UInt8)
  | asyncReceiveFrom
  | synced (sn : SequenceNumber)
  | ackErased (sn : SequenceNumber)
  deriving DecidableEq, Repr

/-- The code still to run once the callback above it returns. -/
inductive Frame
  /-- `on_receive`'s loop after `handle_message`: the undecoded bytes and the
  number of parts still to read. -/
  | afterMessage (rest : List UInt8) (remaining : Nat)
  /-- `handle_message` after the handler of the part's type. -/
  | handleMessageTail
  /-- `user_handle_reliable_msg` after the callback; `replayed` when it was
  called from `replay_pending_messages` rather than from the fast path. -/
  | reliableDelivered (sn : SequenceNumber) (replayed : Bool)
  /-- `handle_unreliable_message` after the callback. -/
  | unreliableDelivered (sn : SequenceNumber)
  /-- `start_sending` after the flush callback. -/
  | afterFlush
  /-- `handle_error` (or `on_receive`'s error branch) after the first
  callback: the second one, moved out before the first ran, if there was one. -/
  | errorSecond (r2 : Bool) (err : ErrorCode)
  /-- `on_punch` after `start_sending`. -/
  | punchAfterSend
  /-- A user callback is running. -/
  | user (hook : Hook)
  deriving DecidableEq, Repr

/-- One endpoint with the event system around it. `encoded` is a ghost record
of the parts the loop of `encode_payload` wrote, in order. -/
structure Machine (α : Type) where
  sock : SocketImpl α
  state : SocketImpl.SocketState
  io : Io
  stack : List Frame
  log : List Obs
  encoded : List InMessagePart

namespace Machine

variable {α : Type}

def push (f : Frame) (m : Machine α) : Machine α := { m with stack := f :: m.stack }

def record (o : Obs) (m : Machine α) : Machine α := { m with log := m.log ++ [o] }

/-- Call a user callback: from here on the user runs, until it returns. -/
def invoke (h : Hook) (o : Obs) (m : Machine α) : Machine α :=
  { m with stack := .user h :: m.stack, log := m.log ++ [o] }

@[simp] theorem push_sock (f : Frame) (m : Machine α) : (m.push f).sock = m.sock := rfl
@[simp] theorem push_state (f : Frame) (m : Machine α) : (m.push f).state = m.state := rfl
@[simp] theorem push_io (f : Frame) (m : Machine α) : (m.push f).io = m.io := rfl
@[simp] theorem push_log (f : Frame) (m : Machine α) : (m.push f).log = m.log := rfl
@[simp] theorem push_stack (f : Frame) (m : Machine α) :
    (m.push f).stack = f :: m.stack := rfl
@[simp] theorem push_encoded (f : Frame) (m : Machine α) : (m.push f).encoded = m.encoded := rfl
@[simp] theorem record_sock (o : Obs) (m : Machine α) : (m.record o).sock = m.sock := rfl
@[simp] theorem record_state (o : Obs) (m : Machine α) : (m.record o).state = m.state := rfl
@[simp] theorem record_io (o : Obs) (m : Machine α) : (m.record o).io = m.io := rfl
@[simp] theorem record_stack (o : Obs) (m : Machine α) : (m.record o).stack = m.stack := rfl
@[simp] theorem record_log (o : Obs) (m : Machine α) : (m.record o).log = m.log ++ [o] := rfl
@[simp] theorem record_encoded (o : Obs) (m : Machine α) : (m.record o).encoded = m.encoded := rfl
@[simp] theorem invoke_sock (h : Hook) (o : Obs) (m : Machine α) :
    (m.invoke h o).sock = m.sock := rfl
@[simp] theorem invoke_state (h : Hook) (o : Obs) (m : Machine α) :
    (m.invoke h o).state = m.state := rfl
@[simp] theorem invoke_io (h : Hook) (o : Obs) (m : Machine α) :
    (m.invoke h o).io = m.io := rfl
@[simp] theorem invoke_stack (h : Hook) (o : Obs) (m : Machine α) :
    (m.invoke h o).stack = .user h :: m.stack := rfl
@[simp] theorem invoke_log (h : Hook) (o : Obs) (m : Machine α) :
    (m.invoke h o).log = m.log ++ [o] := rfl
@[simp] theorem invoke_encoded (h : Hook) (o : Obs) (m : Machine α) :
    (m.invoke h o).encoded = m.encoded := rfl

end Machine

end Club.Transport
