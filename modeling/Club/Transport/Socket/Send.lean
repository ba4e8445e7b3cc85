import Club.Transport.Socket.Basic

/-!
The sending side of `SocketImpl`: packing the transmit queue into `tx_buffer`
(`try_encode`, `encode`, `encode_payload`), the send loop with its three-state
machine (`start_sending`, `on_send` and the pacer timer), and the calls that
emit one packet synchronously or start a receive. `encode_header_and_payload`
and the transmit queue's `cycle()` are not among the sources and follow §4.2
and §4.3.
-/

namespace Club.Transport

namespace Encoder

/-- Overwrite the two bytes at `pos`: `count_encoder.put<uint16_t>(count)`,
through a copy of the encoder taken at the placeholder. -/
def patchU16 (pos n : Nat) (e : Encoder) : Encoder :=
  { e with written := e.written.take pos ++ beBytes 2 n ++ e.written.drop (pos + 2) }

end Encoder

namespace OutMessage

/-- Modelled from the spec: `OutMessage::encode_header_and_payload`. It writes
the header and as many payload bytes from `offset` on as fit, and returns how
many payload bytes it wrote. -/
def encodeHeaderAndPayload (m : OutMessage) (e : Encoder) (offset : Nat) : Encoder × Nat :=
  let n := min (e.remainingSize - headerSize) (m.payloadSize - offset)
  let e := e.putU8 m.type.tag.toNat |>.putU8 (if m.resendUntilAcked then 1 else 0)
    |>.putU32 m.sequenceNumber.toNat |>.putU16 m.payloadSize |>.putU16 offset |>.putU16 n
    |>.putBytes ((m.payload.drop offset).take n)
  (e, n)

end OutMessage

namespace SocketImpl

variable {α : Type} [AckSet α]

/-- `SocketImpl::encode`: a message sent to its end starts over from byte 0. -/
def encode (e : Encoder) (m : OutMessage) : Encoder × OutMessage :=
  let m := if m.bytesAlreadySent = m.payloadSize then { m with bytesAlreadySent := 0 } else m
  let (e, n) := m.encodeHeaderAndPayload e m.bytesAlreadySent
  if e.error then (e, m) else (e, { m with bytesAlreadySent := m.bytesAlreadySent + n })

/-- Where the chunk `encode` writes for `m` starts and how many payload bytes
it holds: from the cursor, or from 0 once the previous pass reached the end, as
many as fit. -/
def encodeChunk (e : Encoder) (m : OutMessage) : Nat × Nat :=
  let m := if m.bytesAlreadySent = m.payloadSize then { m with bytesAlreadySent := 0 } else m
  (m.bytesAlreadySent, (m.encodeHeaderAndPayload e m.bytesAlreadySent).2)

/-- The part `encode` writes for `m`, as the receiver reads it. -/
def encodedPart (e : Encoder) (m : OutMessage) : InMessagePart :=
  ⟨m.type, m.sequenceNumber, m.payloadSize, (encodeChunk e m).1,
    (m.payload.drop (encodeChunk e m).1).take (encodeChunk e m).2⟩

/-- The part `encode` wrote into the encoder `e'` it returned: none if the
encoder failed. -/
def writtenPart (e e' : Encoder) (m : OutMessage) : List InMessagePart :=
  if e'.error then [] else [encodedPart e m]

/-- `SocketImpl::try_encode`: only when the header and one payload byte fit. -/
def tryEncode (e : Encoder) (m : OutMessage) : Option (Encoder × OutMessage) :=
  if OutMessage.headerSize + min 1 m.payloadSize > e.remainingSize then none
  else some (encode e m)

/-- What one run of `encode_payload`'s loop leaves: the encoder, the number of
parts written, the transmit queue in the order the next cycle visits it, the
reliable messages erased because the peer acknowledged them, and (ghost) the
parts written. -/
structure Packing where
  encoder : Encoder
  count : Nat
  queue : List OutMessage
  acked : List SequenceNumber
  encoded : List InMessagePart

/-- The loop of `encode_payload` over one `cycle()`. `kept` are the messages
visited and kept. Stopping at `mi` makes the next cycle resume after it. -/
def encodeCycle (peer : α) : Encoder → Nat → List OutMessage → List SequenceNumber →
    List InMessagePart → List OutMessage → Packing
  | e, count, kept, acked, encoded, [] => ⟨e, count, kept, acked, encoded⟩
  | e, count, kept, acked, encoded, mi :: rest =>
    if mi.resendUntilAcked && AckSet.isIn peer mi.sequenceNumber then
      encodeCycle peer e count kept (acked ++ [mi.sequenceNumber]) encoded rest
    else match tryEncode e mi with
      | none => ⟨e, count, rest ++ kept ++ [mi], acked, encoded⟩
      | some (e', mi') =>
        if mi'.bytesAlreadySent ≠ mi'.payloadSize then
          ⟨e', count + 1, rest ++ kept ++ [mi'], acked, encoded ++ writtenPart e e' mi⟩
        else if !mi'.resendUntilAcked then
          encodeCycle peer e' (count + 1) kept acked (encoded ++ writtenPart e e' mi) rest
        else encodeCycle peer e' (count + 1) (kept ++ [mi']) acked (encoded ++ writtenPart e e' mi) rest

/-- `SocketImpl::encode_payload`: a count placeholder, the parts, then the
count patched into the placeholder. -/
def encodePayload (m : Machine α) (e : Encoder) : Machine α × Encoder × Nat :=
  let p := encodeCycle m.sock.receivedMessageIdsByPeer (e.putU16 0) 0 [] [] [] m.sock.transmitQueue
  ({ m with sock.transmitQueue := p.queue, log := m.log ++ p.acked.map .ackErased,
            encoded := m.encoded ++ p.encoded },
    p.encoder.patchU16 e.written.length p.count, p.count)

def startKeepaliveAlarm (m : Machine α) : Machine α := { m with sock.sendKeepaliveAlarm := true }

/-- `SocketImpl::start_sending`. The encoder writes into `tx_buffer` in place. -/
def startSending (m : Machine α) : Machine α :=
  if !m.sock.socketOpen then m
  else if m.sock.sendState ≠ .pending then m
  else
    let r := encodePayload m
      ((Encoder.ofCapacity packetSize).putBytes (AckSet.encode m.sock.receivedMessageIds))
    let e := r.2.1
    let m := { r.1 with state.txBuffer := e.written ++ r.1.state.txBuffer.drop e.written.length }
    if r.2.2 = 0 ∧ !m.sock.scheduleSendingAcks then
      if m.sock.onFlush then
        ({ m with sock.onFlush := false }.push .afterFlush).invoke .flush .flushed
      else startKeepaliveAlarm m
    else
      { m with sock.scheduleSendingAcks := false, sock.sendState := .sending,
               io.sends := m.io.sends + 1 }.record (.asyncSendTo m.sock.remoteEndpoint e.written)

/-- What `start_sending` can do: nothing, or, on an open socket in `pending`,
pack the queue into `tx_buffer` and then call the flush callback, arm the
keepalive alarm, or start `async_send_to` with the packed bytes. -/
theorem startSending_cases (m : Machine α) :
    startSending m = m ∨
    m.sock.socketOpen = true ∧ m.sock.sendState = .pending ∧ ∃ r m₁,
      r = encodePayload m
        ((Encoder.ofCapacity packetSize).putBytes (AckSet.encode m.sock.receivedMessageIds)) ∧
      m₁ = { r.1 with state.txBuffer := r.2.1.written ++ r.1.state.txBuffer.drop r.2.1.written.length } ∧
      (startSending m = ({ m₁ with sock.onFlush := false }.push .afterFlush).invoke .flush .flushed ∨
        startSending m = startKeepaliveAlarm m₁ ∨
        startSending m =
          { m₁ with sock.scheduleSendingAcks := false, sock.sendState := .sending,
                    io.sends := m₁.io.sends + 1 }.record
            (.asyncSendTo m₁.sock.remoteEndpoint r.2.1.written)) := by
  -- split one copy of the body, with the packing generalized
  obtain ⟨P, hP⟩ : ∃ P : Machine α → Prop, P = fun s => s = m ∨
      m.sock.socketOpen = true ∧ m.sock.sendState = .pending ∧ ∃ r m₁,
        r = encodePayload m
          ((Encoder.ofCapacity packetSize).putBytes (AckSet.encode m.sock.receivedMessageIds)) ∧
        m₁ = { r.1 with
          state.txBuffer := r.2.1.written ++ r.1.state.txBuffer.drop r.2.1.written.length } ∧
        (s = ({ m₁ with sock.onFlush := false }.push .afterFlush).invoke .flush .flushed ∨
          s = startKeepaliveAlarm m₁ ∨
          s = { m₁ with sock.scheduleSendingAcks := false, sock.sendState := .sending,
                        io.sends := m₁.io.sends + 1 }.record
            (.asyncSendTo m₁.sock.remoteEndpoint r.2.1.written)) :=
    ⟨_, rfl⟩
  suffices h : P (startSending m) by rwa [hP] at h
  unfold startSending
  generalize hr : encodePayload m _ = r
  dsimp only
  split_ifs with h1 h2 h3 h4 <;> rw [hP]
  · exact .inl rfl
  · exact .inl rfl
  all_goals refine .inr ⟨by simpa using h1, by simpa using h2, r, _, hr.symm, rfl, ?_⟩
  exacts [.inl rfl, .inr (.inl rfl), .inr (.inr rfl)]

/-- `SocketImpl::on_send`. A completion other than `operation_aborted` with an
error trips `assert(0)`; past it the code goes on as after a success. -/
def onSend (err : Option ErrorCode) (m : Machine α) : Machine α :=
  let m := { m with io.sends := m.io.sends - 1 }
  if m.state.wasDestroyed then m
  else if err = some .operationAborted then { m with sock.sendState := .pending }
  else { m with sock.sendState := .waiting, io.timerWaits := m.io.timerWaits + 1 }

/-- The pacer timer's handler, armed by `on_send`. -/
def onTimer (aborted : Bool) (m : Machine α) : Machine α :=
  let m := { m with io.timerWaits := m.io.timerWaits - 1 }
  if m.state.wasDestroyed then m
  else
    let m := { m with sock.sendState := .pending }
    if aborted then m else startSending m

/-- `SocketImpl::start_receiving`. -/
def startReceiving (m : Machine α) : Machine α :=
  { m with sock.recvTimeoutAlarm := true, io.receives := m.io.receives + 1 }.record
    .asyncReceiveFrom

/-- `SocketImpl::construct_packet_with_one_message`, which also advances the
message's cursor through `try_encode`. -/
def constructPacketWithOneMessage (acks : α) (msg : OutMessage) : List UInt8 × OutMessage :=
  let e := (Encoder.ofCapacity packetSize).putBytes (AckSet.encode acks) |>.putU16 1
  match tryEncode e msg with
  | none => (e.written, msg)
  | some (e, msg) => (e.written, msg)

/-- `SocketImpl::sync_send_close_message`; `none` where `send_to` throws. The
model takes it to fail exactly on a remote port of 0 (`EINVAL`), the port of an
endpoint never connected. -/
def syncSendCloseMessage (m : Machine α) : Option (Machine α) :=
  let (data, _) := constructPacketWithOneMessage m.sock.receivedMessageIds
    (OutMessage.new false .close 0 [])
  if m.sock.remoteEndpoint.port = 0 then none
  else some (m.record (.sendTo m.sock.remoteEndpoint data))

/-- `SocketImpl::close`; `none` where the close message's `send_to` throws,
which leaves the socket open and the alarms running. Cancelling the timer and
closing the socket make the operations in flight complete with
`operation_aborted`; they stay in flight until their handlers run. -/
def close (m : Machine α) : Option (Machine α) :=
  let stop (m : Machine α) : Machine α :=
    { m with sock.recvTimeoutAlarm := false, sock.sendKeepaliveAlarm := false }
  if m.sock.socketOpen then
    (syncSendCloseMessage m).map fun m => stop { m with sock.socketOpen := false }
  else some (stop m)

/-- What `close` can do: throw on an open socket with a remote port of 0, send
the close message and close the socket, or find it closed; the alarms stop
unless it throws. -/
theorem close_cases (m : Machine α) :
    (m.sock.socketOpen = true ∧ m.sock.remoteEndpoint.port = 0 ∧ close m = none) ∨
    (m.sock.socketOpen = true ∧ close m = some
      { m.record (.sendTo m.sock.remoteEndpoint (constructPacketWithOneMessage
          m.sock.receivedMessageIds (OutMessage.new false .close 0 [])).1) with
        sock.socketOpen := false, sock.recvTimeoutAlarm := false,
        sock.sendKeepaliveAlarm := false }) ∨
    (m.sock.socketOpen = false ∧
      close m = some { m with sock.recvTimeoutAlarm := false, sock.sendKeepaliveAlarm := false }) := by
  unfold close syncSendCloseMessage
  cases ho : m.sock.socketOpen
  · exact .inr (.inr ⟨rfl, rfl⟩)
  · by_cases hp : m.sock.remoteEndpoint.port = 0
    · exact .inl ⟨rfl, hp, by simp [hp]⟩
    · exact .inr (.inl ⟨rfl, by simp [hp]⟩)

end SocketImpl

end Club.Transport
