import Club.Transport.Socket.Receive

/-!
The event system of one endpoint as a step function. Completions of the
operations in flight and alarm expiries run only when no code is running (the
stack is empty: the executor is single-threaded). The user calls into the
endpoint either from outside every dispatch or from inside one of its
callbacks, and never after destroying it. What a completion carries (an error,
a datagram from any source) is the environment's choice.
-/

namespace Club.Transport

inductive UserCall
  | rendezvousConnect (remote : UdpEndpoint)
  | receiveReliable | receiveUnreliable
  | sendReliable (data : List UInt8) | sendUnreliable (data : List UInt8)
  | flush | close | destroy
  deriving DecidableEq, Repr

/-- The events of one endpoint's run: a user call, the running callback
returning, the code on top of the stack resuming, and the completions and
expiries; `punched i` completes the `i`-th `punch_hole` in flight. -/
inductive Event
  | call (c : UserCall)
  | returned
  | resume
  | received (err : Option ErrorCode) (src : UdpEndpoint) (datagram : List UInt8)
  | sent (err : Option ErrorCode)
  | timerExpired (aborted : Bool)
  | keepaliveAlarm
  | recvTimeoutAlarm
  | punched (i : Nat) (result : Except ErrorCode UdpEndpoint)

namespace SocketImpl

variable {α : Type} [AckSet α]

/-- A `SocketImpl` just constructed over an open socket. -/
def init : Machine α where
  sock :=
    { sendState := .pending, socketOpen := true, remoteEndpoint := .none, transmitQueue := [],
      sync := none, pendingReliableMessages := .empty, pendingUnreliableMessage := none,
      scheduleSendingAcks := false, receivedMessageIdsByPeer := AckSet.empty,
      receivedMessageIds := AckSet.empty, nextReliableSn := 0, nextUnreliableSn := 1,
      onReceiveReliable := false, onReceiveUnreliable := false, onFlush := false,
      recvTimeoutAlarm := false, sendKeepaliveAlarm := false }
  state := ⟨false, .none, List.replicate packetSize 0, List.replicate packetSize 0⟩
  io := ⟨0, 0, 0, []⟩
  stack := []
  log := []
  encoded := []

/-- `SocketImpl::add_message`: the transmit queue's `emplace`. -/
def addMessage (msg : OutMessage) (m : Machine α) : Machine α :=
  { m with sock.transmitQueue := m.sock.transmitQueue ++ [msg] }

def sendUnreliable (data : List UInt8) (m : Machine α) : Machine α :=
  startSending <| addMessage (.new false .unreliable m.sock.nextUnreliableSn data)
    { m with sock.nextUnreliableSn := m.sock.nextUnreliableSn + 1 }

def sendReliable (data : List UInt8) (m : Machine α) : Machine α :=
  startSending <| addMessage (.new true .reliable m.sock.nextReliableSn data)
    { m with sock.nextReliableSn := m.sock.nextReliableSn + 1 }

/-- `SocketImpl::rendezvous_connect`: the sync message takes the next reliable
sequence number, and `punch_hole` starts with a packet carrying it. -/
def rendezvousConnect (remote : UdpEndpoint) (m : Machine α) : Machine α :=
  let remote := remote.sanitize
  let syn := OutMessage.new true .sync m.sock.nextReliableSn []
  let m := { m with sock.nextReliableSn := m.sock.nextReliableSn + 1 }
  let (packet, syn) := constructPacketWithOneMessage m.sock.receivedMessageIds syn
  { m with io.punches := m.io.punches ++ [syn] }.record (.punchHole remote packet)

/-- The `on_punch` continuation of `rendezvous_connect`, which never reads
`was_destroyed`. -/
def onPunch (syn : OutMessage) (result : Except ErrorCode UdpEndpoint) (m : Machine α) :
    Machine α :=
  match result with
  | .error e => m.invoke .connect (.connected (some e))
  | .ok ep =>
    startSending ({ m with sock.remoteEndpoint := ep,
                           sock.transmitQueue := m.sock.transmitQueue ++ [syn] }.push .punchAfterSend)

/-- `~SocketImpl`: the flag is raised, and the members go with the object: the
socket is closed and the alarms can no longer fire. -/
def destroy (m : Machine α) : Machine α :=
  { m with state.wasDestroyed := true, sock.socketOpen := false, sock.recvTimeoutAlarm := false,
           sock.sendKeepaliveAlarm := false }

/-- A user call; the exception a failed `close()` throws is the user's, and
leaves the endpoint as it was. -/
def userCall : UserCall → Machine α → Machine α
  | .rendezvousConnect ep, m => rendezvousConnect ep m
  | .receiveReliable, m => { m with sock.onReceiveReliable := true }
  | .receiveUnreliable, m => { m with sock.onReceiveUnreliable := true }
  | .sendReliable data, m => sendReliable data m
  | .sendUnreliable data, m => sendUnreliable data m
  | .flush, m => { m with sock.onFlush := true }
  | .close, m => (close m).getD m
  | .destroy, m => destroy m

def onSendKeepaliveAlarm (m : Machine α) : Machine α :=
  startSending (addMessage (.new false .keepAlive 0 []) m)

def onRecvTimeoutAlarm (m : Machine α) : Machine α := handleError .timedOut m

/-- The code of a frame, run once the callback above it has returned. -/
def runFrame : Frame → Machine α → Machine α
  | .afterMessage rest n, m =>
    if m.state.wasDestroyed then m else if !m.sock.socketOpen then m else receiveLoop rest n m
  | .handleMessageTail, m => if m.state.wasDestroyed then m else startSending m
  | .reliableDelivered sn replayed, m => reliableDelivered sn replayed m
  | .unreliableDelivered sn, m => unreliableDelivered sn m
  | .afterFlush, m =>
    if m.state.wasDestroyed then m else if !m.sock.socketOpen then m else startKeepaliveAlarm m
  | .errorSecond r2 err, m => callSecond r2 err m
  | .punchAfterSend, m => (startReceiving m).invoke .connect (.connected none)
  | .user _, m => m

def userMayCall (m : Machine α) : Bool :=
  match m.stack with
  | [] => true
  | .user _ :: _ => true
  | _ => false

/-- The datagram written over the head of `rx_buffer`. -/
def receiveDatagram (src : UdpEndpoint) (datagram : List UInt8) (m : Machine α) : Machine α :=
  { m with state.rxEndpoint := src,
           state.rxBuffer := datagram ++ m.state.rxBuffer.drop datagram.length }

def step (m : Machine α) : Event → Option (Machine α)
  | .call c => if userMayCall m ∧ !m.state.wasDestroyed then some (userCall c m) else none
  | .returned =>
    match m.stack with
    | .user _ :: rest => some { m with stack := rest }
    | _ => none
  | .resume =>
    match m.stack with
    | .user _ :: _ | [] => none
    | f :: rest => some (runFrame f { m with stack := rest })
  | .received err src datagram =>
    if m.stack = [] ∧ 0 < m.io.receives ∧ datagram.length ≤ packetSize then
      let m := { m with io.receives := m.io.receives - 1 }
      some (onReceive err (if err.isNone then receiveDatagram src datagram m else m))
    else none
  | .sent err => if m.stack = [] ∧ 0 < m.io.sends then some (onSend err m) else none
  | .timerExpired aborted =>
    if m.stack = [] ∧ 0 < m.io.timerWaits then some (onTimer aborted m) else none
  | .keepaliveAlarm =>
    if m.stack = [] ∧ m.sock.sendKeepaliveAlarm then
      some (onSendKeepaliveAlarm { m with sock.sendKeepaliveAlarm := false })
    else none
  | .recvTimeoutAlarm =>
    if m.stack = [] ∧ m.sock.recvTimeoutAlarm then
      some (onRecvTimeoutAlarm { m with sock.recvTimeoutAlarm := false })
    else none
  | .punched i result =>
    match m.io.punches[i]? with
    | some syn =>
      if m.stack = [] then some (onPunch syn result { m with io.punches := m.io.punches.eraseIdx i })
      else none
    | none => none

theorem step_returned {m m' : Machine α} (h : step m .returned = some m') :
    ∃ hk rest, m.stack = .user hk :: rest ∧ m' = { m with stack := rest } := by
  simp only [step] at h
  split at h
  · exact ⟨_, _, ‹_›, (Option.some.inj h).symm⟩
  · cases h

theorem step_resume {m m' : Machine α} (h : step m .resume = some m') :
    ∃ f rest, m.stack = f :: rest ∧ m' = runFrame f { m with stack := rest } := by
  simp only [step] at h
  split at h
  · cases h
  · cases h
  · exact ⟨_, _, ‹_›, (Option.some.inj h).symm⟩

theorem step_call {m m' : Machine α} {c : UserCall} (h : step m (.call c) = some m') :
    (userMayCall m ∧ !m.state.wasDestroyed) ∧ m' = userCall c m := by
  simp only [step] at h
  split_ifs at h with hc
  exact ⟨hc, (Option.some.inj h).symm⟩

theorem step_received {m m' : Machine α} {err : Option ErrorCode} {src : UdpEndpoint}
    {d : List UInt8} (h : step m (.received err src d) = some m') :
    (m.stack = [] ∧ 0 < m.io.receives ∧ d.length ≤ packetSize) ∧
      m' = onReceive err (if err.isNone
        then receiveDatagram src d { m with io.receives := m.io.receives - 1 }
        else { m with io.receives := m.io.receives - 1 }) := by
  simp only [step] at h
  split at h
  · exact ⟨‹_›, (Option.some.inj h).symm⟩
  · cases h

theorem step_sent {m m' : Machine α} {err : Option ErrorCode} (h : step m (.sent err) = some m') :
    (m.stack = [] ∧ 0 < m.io.sends) ∧ m' = onSend err m := by
  simp only [step] at h
  split_ifs at h with hc
  exact ⟨hc, (Option.some.inj h).symm⟩

theorem step_timerExpired {m m' : Machine α} {a : Bool} (h : step m (.timerExpired a) = some m') :
    (m.stack = [] ∧ 0 < m.io.timerWaits) ∧ m' = onTimer a m := by
  simp only [step] at h
  split_ifs at h with hc
  exact ⟨hc, (Option.some.inj h).symm⟩

theorem step_keepaliveAlarm {m m' : Machine α} (h : step m .keepaliveAlarm = some m') :
    (m.stack = [] ∧ m.sock.sendKeepaliveAlarm) ∧
      m' = onSendKeepaliveAlarm { m with sock.sendKeepaliveAlarm := false } := by
  simp only [step] at h
  split_ifs at h with hc
  exact ⟨hc, (Option.some.inj h).symm⟩

theorem step_recvTimeoutAlarm {m m' : Machine α} (h : step m .recvTimeoutAlarm = some m') :
    (m.stack = [] ∧ m.sock.recvTimeoutAlarm) ∧
      m' = onRecvTimeoutAlarm { m with sock.recvTimeoutAlarm := false } := by
  simp only [step] at h
  split_ifs at h with hc
  exact ⟨hc, (Option.some.inj h).symm⟩

theorem step_punched {m m' : Machine α} {i : Nat} {r : Except ErrorCode UdpEndpoint}
    (h : step m (.punched i r) = some m') :
    ∃ syn, m.io.punches[i]? = some syn ∧ m.stack = [] ∧
      m' = onPunch syn r { m with io.punches := m.io.punches.eraseIdx i } := by
  simp only [step] at h
  split at h
  · split_ifs at h with hc
    exact ⟨_, ‹_›, hc, (Option.some.inj h).symm⟩
  · cases h

inductive Reachable : Machine α → Prop
  | init : Reachable init
  | step {m m' : Machine α} (ev : Event) : Reachable m → step m ev = some m' → Reachable m'

/-- The run of a list of events, stopping at the first that cannot happen. -/
def run (m : Machine α) : List Event → Option (Machine α)
  | [] => some m
  | ev :: evs => (step m ev).bind (run · evs)

theorem reachable_run {m m' : Machine α} (h : Reachable m) {evs : List Event}
    (hr : run m evs = some m') : Reachable m' := by
  induction evs generalizing m with
  | nil => cases hr; exact h
  | cons ev evs ih =>
    simp only [run] at hr
    cases hs : step m ev with
    | none => simp [hs] at hr
    | some m₁ => exact ih (.step ev h hs) (by simpa [hs] using hr)

set_option maxRecDepth 20000 in
/-- A datagram carrying a sync message and message 1 arrives while no reliable
callback is registered, so message 1 is dropped. Once the user registers one, a
datagram of four bytes arrives: an empty ack set and a count of two parts, and
no parts. `receiveDatagram` writes it over the head of `rx_buffer`, and
`on_receive` reads the two parts from what the first datagram left there and
delivers message 1. -/
theorem short_datagram_read_from_stale_bytes :
    ∃ m₁ m₂ : Machine ListAckSet,
      run init
        [.call (.rendezvousConnect ⟨.host 2, 7⟩), .punched 0 (.ok ⟨.host 2, 7⟩), .resume, .returned,
         .received none ⟨.host 2, 7⟩
           (encodePacket (⟨[]⟩ : ListAckSet) [⟨.sync, 0, 0, 0, []⟩, ⟨.reliable, 1, 1, 0, [7]⟩]),
         .resume, .resume, .resume, .resume, .call .receiveReliable] = some m₁ ∧
      run m₁ [.received none ⟨.host 2, 7⟩ [0, 0, 0, 2], .resume, .resume] = some m₂ ∧
      m₂.log = m₁.log ++ [.reliable 1 [7]] :=
  ⟨_, _, rfl, rfl, rfl⟩

end SocketImpl

end Club.Transport
