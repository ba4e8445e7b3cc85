import Club.Transport.Socket.Basic

/-!
`Transport<UnreliableId>`, the router that carries the messages of many nodes
over one UDP socket to one remote endpoint. The transmit queue, the outbound
and inbound message sets and the message reader are not among the sources: a
received datagram is given as its ack entries and its messages, each message
with the number of entries that `encode_acks` and `encode_few` write when the
`start_sending` after it runs, and what the outbound and inbound sides are
asked to do is logged. `inbound().on_receive` runs user code, which may insert
messages or destroy the transport; as in the socket's model, the rest of the
dispatch waits on a stack of frames until the callback returns.
-/

set_option linter.dupNamespace false

namespace Club.Transport

namespace Transport

/-- A node's `uuid`. -/
abbrev NodeId := Nat

structure InMessage where
  source : NodeId
  sequenceNumber : SequenceNumber
  targets : List NodeId
  deriving DecidableEq, Repr

structure AckEntry where
  «from» : NodeId
  «to» : NodeId
  acks : List SequenceNumber
  deriving DecidableEq, Repr

/-- The fields of `Transport` the code reads, with `was_destroyed` from its
`SocketState`. -/
structure Transport where
  id : NodeId
  isSending : Bool
  remoteEndpoint : UdpEndpoint
  wasDestroyed : Bool
  deriving DecidableEq, Repr

/-- What the inbound and outbound sides are called with. -/
inductive Obs
  | onReceive (err : Option ErrorCode) (msg : Option InMessage)
  | onReceiveAcks («from» : NodeId) (acks : List SequenceNumber)
  | addAckEntry (entry : AckEntry)
  | acknowledge (source : NodeId) (sn : SequenceNumber)
  | forwardMessage (msg : InMessage)
  deriving DecidableEq, Repr

/-- The code still to run when the inbound callback returns: the rest of
`handle_message` for `msg`, then the loop of `on_receive` over `rest`. -/
inductive Frame
  | afterInbound (msg : InMessage) (count : Nat) (rest : List (InMessage × Nat))
  | user
  deriving DecidableEq, Repr

/-- A `Transport` with the operations it has in flight, the code waiting on
the callback running, and the log. -/
structure Machine where
  transport : Transport
  sends : Nat
  timerWaits : Nat
  receives : Nat
  stack : List Frame
  log : List Obs
  deriving DecidableEq, Repr

inductive UserCall
  | insertMessage (count : Nat)
  | destroy
  deriving DecidableEq, Repr

inductive Event
  | call (c : UserCall)
  | returned
  | resume
  | received (err : Option ErrorCode) (src : UdpEndpoint) (acks : List AckEntry)
      (messages : List (InMessage × Nat))
  | sent (err : Option ErrorCode)
  | timerExpired (aborted : Bool) (count : Nat)

namespace Machine

def record (o : Obs) (m : Machine) : Machine := { m with log := m.log ++ [o] }

def push (f : Frame) (m : Machine) : Machine := { m with stack := f :: m.stack }

def invoke (o : Obs) (m : Machine) : Machine :=
  { m with stack := .user :: m.stack, log := m.log ++ [o] }

@[simp] theorem record_transport (o : Obs) (m : Machine) : (m.record o).transport = m.transport := rfl
@[simp] theorem push_transport (f : Frame) (m : Machine) : (m.push f).transport = m.transport := rfl
@[simp] theorem invoke_transport (o : Obs) (m : Machine) : (m.invoke o).transport = m.transport := rfl

end Machine

def startSending (count : Nat) (m : Machine) : Machine :=
  if m.transport.isSending then m
  else if count = 0 then { m with transport.isSending := false }
  else { m with sends := m.sends + 1 }

/-- `Transport::on_send`. A completion other than `operation_aborted` with an
error trips `assert(0)`; past it the code goes on as after a success. -/
def onSend (err : Option ErrorCode) (m : Machine) : Machine :=
  if m.transport.wasDestroyed then m
  else if err = some .operationAborted then m
  else { m with timerWaits := m.timerWaits + 1 }

/-- The pacer timer's handler, armed by `on_send`. -/
def onTimer (aborted : Bool) (count : Nat) (m : Machine) : Machine :=
  if m.transport.wasDestroyed then m else if aborted then m else startSending count m

def insertMessage (count : Nat) (m : Machine) : Machine := startSending count m

def startReceiving (m : Machine) : Machine := { m with receives := m.receives + 1 }

def handleAckEntry (entry : AckEntry) (m : Machine) : Machine :=
  if entry.«to» = m.transport.id then m.record (.onReceiveAcks entry.«from» entry.acks)
  else m.record (.addAckEntry entry)

@[simp] theorem handleAckEntry_transport (entry : AckEntry) (m : Machine) :
    (handleAckEntry entry m).transport = m.transport := by
  unfold handleAckEntry; split <;> rfl

/-- The last statement of `handle_message`. -/
def forwardMessage (msg : InMessage) (m : Machine) : Machine :=
  if msg.targets.isEmpty then m else m.record (.forwardMessage msg)

@[simp] theorem forwardMessage_transport (msg : InMessage) (m : Machine) :
    (forwardMessage msg m).transport = m.transport := by
  unfold forwardMessage; split <;> rfl

/-- The message loop of `on_receive`, with `handle_message` inlined, then
`start_receiving`. A message this node sent is dropped past its assertion; one
that targets this node is acknowledged and handed, without this node among its
targets, to the inbound callback, the rest waiting in a frame. -/
def receiveLoop : List (InMessage × Nat) → Machine → Machine
  | [], m => startReceiving m
  | (msg, count) :: rest, m =>
    if msg.source = m.transport.id then
      if m.transport.wasDestroyed then m else receiveLoop rest m
    else if m.transport.id ∈ msg.targets then
      let msg := { msg with targets := msg.targets.filter (· ≠ m.transport.id) }
      ((m.record (.acknowledge msg.source msg.sequenceNumber)).push
        (.afterInbound msg count rest)).invoke (.onReceive none (some msg))
    else
      let m := forwardMessage msg m
      if m.transport.wasDestroyed then m else receiveLoop rest m

/-- `Transport::on_receive`. An error goes to the inbound callback, and
receiving is not restarted; a datagram from another endpoint than a specified
remote one is ignored. -/
def onReceive (err : Option ErrorCode) (src : UdpEndpoint) (acks : List AckEntry)
    (msgs : List (InMessage × Nat)) (m : Machine) : Machine :=
  if m.transport.wasDestroyed then m
  else match err with
  | some e => m.invoke (.onReceive (some e) none)
  | none =>
    if m.transport.remoteEndpoint.address ≠ .unspecified ∧ src ≠ m.transport.remoteEndpoint then
      startReceiving m
    else receiveLoop msgs (acks.foldl (fun m e => handleAckEntry e m) m)

def runFrame : Frame → Machine → Machine
  | .afterInbound msg count rest, m =>
    if m.transport.wasDestroyed then m
    else
      let m := forwardMessage msg (startSending count m)
      if m.transport.wasDestroyed then m else receiveLoop rest m
  | .user, m => m

/-- `~Transport`: the flag in the shared state is raised. -/
def destroy (m : Machine) : Machine := { m with transport.wasDestroyed := true }

def userCall : UserCall → Machine → Machine
  | .insertMessage count, m => insertMessage count m
  | .destroy, m => destroy m

def userMayCall (m : Machine) : Bool :=
  match m.stack with
  | [] | .user :: _ => true
  | _ => false

/-- A `Transport` just constructed: the constructor starts receiving. -/
def init (id : NodeId) (remote : UdpEndpoint) : Machine :=
  ⟨⟨id, false, remote, false⟩, 0, 0, 1, [], []⟩

def step (m : Machine) : Event → Option Machine
  | .call c => if userMayCall m ∧ !m.transport.wasDestroyed then some (userCall c m) else none
  | .returned =>
    match m.stack with
    | .user :: rest => some { m with stack := rest }
    | _ => none
  | .resume =>
    match m.stack with
    | .user :: _ | [] => none
    | f :: rest => some (runFrame f { m with stack := rest })
  | .received err src acks msgs =>
    if m.stack = [] ∧ 0 < m.receives then
      some (onReceive err src acks msgs { m with receives := m.receives - 1 })
    else none
  | .sent err =>
    if m.stack = [] ∧ 0 < m.sends then some (onSend err { m with sends := m.sends - 1 }) else none
  | .timerExpired aborted count =>
    if m.stack = [] ∧ 0 < m.timerWaits then
      some (onTimer aborted count { m with timerWaits := m.timerWaits - 1 })
    else none

inductive Reachable : Machine → Prop
  | init (id : NodeId) (remote : UdpEndpoint) : Reachable (init id remote)
  | step {m m' : Machine} (ev : Event) : Reachable m → step m ev = some m' → Reachable m'

def run (m : Machine) : List Event → Option Machine
  | [] => some m
  | ev :: evs => (step m ev).bind (run · evs)

end Transport

end Club.Transport
