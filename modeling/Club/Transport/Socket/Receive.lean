import Club.Transport.Socket.Send

/-!
The receiving side of `SocketImpl`: `on_receive` and its loop over the parts
of a packet, `handle_message` and the handler of each message type, the replay
of pending reliable messages, and the error path. Each function runs until it
returns or calls a user callback; in the second case the rest of its code is
pushed as a `Frame` and resumed by `SocketImpl.runFrame` once the callback
returns.
-/

namespace Club.Transport

namespace SocketImpl

variable {α : Type} [AckSet α]

def handleSyncMessage (msg : InMessagePart) (m : Machine α) : Machine α :=
  let m := { m with sock.scheduleSendingAcks := true }
  match m.sock.sync with
  | some _ => m
  | none =>
    { m with sock.receivedMessageIds := AckSet.tryAdd m.sock.receivedMessageIds msg.sequenceNumber,
             sock.sync := some ⟨msg.sequenceNumber, msg.sequenceNumber⟩ }.record
      (.synced msg.sequenceNumber)

/-- `SocketImpl::user_handle_reliable_msg` up to the callback, which is moved
out and called; `Frame.reliableDelivered` is the rest. With no callback it
returns false, and both of its callers then return. -/
def userHandleReliableMsg (msg : InMessageFull) (replayed : Bool) (m : Machine α) :
    Machine α :=
  if !m.sock.onReceiveReliable then m
  else ({ m with sock.onReceiveReliable := false }.push
      (.reliableDelivered msg.sequenceNumber replayed)).invoke .reliable
    (.reliable msg.sequenceNumber msg.payload)

/-- `SocketImpl::replay_pending_messages`: the first entry, in key order, at
the next sequence number is delivered if it is complete; the scan stops at an
incomplete one. `after` is the key of the entry just delivered and erased,
when the loop resumes past it. -/
def replayPendingMessages (after : Option SequenceNumber) (m : Machine α) : Machine α :=
  match m.sock.sync with
  | none => m
  | some y =>
    let entries := match after with
      | none => m.sock.pendingReliableMessages.entries
      | some k => m.sock.pendingReliableMessages.entries.filter (k < ·.sequenceNumber)
    match entries.find? (·.sequenceNumber = y.lastUsedReliableSn + 1) with
    | none => m
    | some pm =>
      match pm.getCompleteMessage with
      | none => m
      | some full => userHandleReliableMsg full true m

def handleReliableMessage (msg : InMessagePart) (m : Machine α) : Machine α :=
  let m := { m with sock.scheduleSendingAcks := true }
  match m.sock.sync with
  | none => m
  | some y =>
    if !AckSet.canAdd m.sock.receivedMessageIds msg.sequenceNumber then m
    else
      let fast := if msg.sequenceNumber = y.lastUsedReliableSn + 1 then msg.getCompleteMessage
        else none
      match fast with
      | some full => userHandleReliableMsg full false m
      | none =>
        let pms := m.sock.pendingReliableMessages
        match pms.find? msg.sequenceNumber with
        | none => { m with sock.pendingReliableMessages := pms.emplace (.ofPart msg) }
        | some _ =>
          let pms := pms.updatePayload msg.sequenceNumber msg.chunkStart msg.payload
          replayPendingMessages none { m with sock.pendingReliableMessages := pms }

/-- The rest of `user_handle_reliable_msg` once the callback returned, and of
its caller: the fast path replays from the start, the replay loop erases the
delivered entry and goes on past it. -/
def reliableDelivered (sn : SequenceNumber) (replayed : Bool) (m : Machine α) : Machine α :=
  if m.state.wasDestroyed then m
  else
    let m := { m with sock.receivedMessageIds := AckSet.tryAdd m.sock.receivedMessageIds sn,
                      sock.sync := m.sock.sync.map fun y => { y with lastUsedReliableSn := sn } }
    if replayed then
      replayPendingMessages (some sn)
        { m with sock.pendingReliableMessages := m.sock.pendingReliableMessages.erase sn }
    else replayPendingMessages none m

def deliverUnreliable (sn : SequenceNumber) (payload : List UInt8) (m : Machine α) :
    Machine α :=
  ({ m with sock.onReceiveUnreliable := false }.push (.unreliableDelivered sn)).invoke
    .unreliable (.unreliable sn payload)

def handleUnreliableMessage (msg : InMessagePart) (m : Machine α) : Machine α :=
  if !m.sock.onReceiveUnreliable then m
  else match m.sock.sync with
  | none => m
  | some y =>
    if msg.sequenceNumber ≤ y.lastUsedUnreliableSn then m
    else if msg.isComplete then deliverUnreliable msg.sequenceNumber msg.payload m
    else match m.sock.pendingUnreliableMessage with
      | none => { m with sock.pendingUnreliableMessage := some (.ofPart msg) }
      | some pm =>
        if pm.sequenceNumber < msg.sequenceNumber then
          { m with sock.pendingUnreliableMessage := some (.ofPart msg) }
        else if msg.sequenceNumber < pm.sequenceNumber then m
        else
          let pm := pm.updatePayload msg.chunkStart msg.payload
          let m := { m with sock.pendingUnreliableMessage := some pm }
          if pm.isComplete then deliverUnreliable msg.sequenceNumber pm.payload m else m

omit [AckSet α] in
/-- What `handle_unreliable_message` can do: nothing, or, for a number above the
counter, store a part of that message in the slot, or deliver that message with
the slot as it was or holding that message. -/
theorem handleUnreliableMessage_cases (msg : InMessagePart) (m : Machine α) :
    handleUnreliableMessage msg m = m ∨
    ∃ y, m.sock.sync = some y ∧ y.lastUsedUnreliableSn < msg.sequenceNumber ∧
      ((∃ pm, pm.sequenceNumber = msg.sequenceNumber ∧
          handleUnreliableMessage msg m = { m with sock.pendingUnreliableMessage := some pm }) ∨
        ∃ payload slot, (slot = m.sock.pendingUnreliableMessage ∨
            ∃ pm, slot = some pm ∧ pm.sequenceNumber = msg.sequenceNumber) ∧
          handleUnreliableMessage msg m = deliverUnreliable msg.sequenceNumber payload
            { m with sock.pendingUnreliableMessage := slot }) := by
  -- split one copy of the body, not the three the statement names
  obtain ⟨P, hP⟩ : ∃ P : Machine α → Prop, P = fun r => r = m ∨
      ∃ y, m.sock.sync = some y ∧ y.lastUsedUnreliableSn < msg.sequenceNumber ∧
        ((∃ pm, pm.sequenceNumber = msg.sequenceNumber ∧
            r = { m with sock.pendingUnreliableMessage := some pm }) ∨
          ∃ payload slot, (slot = m.sock.pendingUnreliableMessage ∨
              ∃ pm, slot = some pm ∧ pm.sequenceNumber = msg.sequenceNumber) ∧
            r = deliverUnreliable msg.sequenceNumber payload
              { m with sock.pendingUnreliableMessage := slot }) := ⟨_, rfl⟩
  suffices h : P (handleUnreliableMessage msg m) by rwa [hP] at h
  dsimp only [handleUnreliableMessage]
  split
  · rw [hP]; exact .inl rfl
  split
  · rw [hP]; exact .inl rfl
  rename_i y hy
  split
  · rw [hP]; exact .inl rfl
  have hlt := UInt32.not_le.mp ‹_›
  split
  · rw [hP]; exact .inr ⟨y, hy, hlt, .inr ⟨_, _, .inl rfl, rfl⟩⟩
  split
  · rw [hP]; exact .inr ⟨y, hy, hlt, .inl ⟨_, rfl, rfl⟩⟩
  rename_i pm _
  split
  · rw [hP]; exact .inr ⟨y, hy, hlt, .inl ⟨_, rfl, rfl⟩⟩
  split
  · rw [hP]; exact .inl rfl
  have heq : (pm.updatePayload msg.chunkStart msg.payload).sequenceNumber = msg.sequenceNumber :=
    UInt32.toNat.inj (Nat.le_antisymm (Nat.not_lt.mp ‹_›) (Nat.not_lt.mp ‹_›))
  split
  · rw [hP]; exact .inr ⟨y, hy, hlt, .inr ⟨_, _, .inr ⟨_, rfl, heq⟩, rfl⟩⟩
  · rw [hP]; exact .inr ⟨y, hy, hlt, .inl ⟨_, heq, rfl⟩⟩

def unreliableDelivered (sn : SequenceNumber) (m : Machine α) : Machine α :=
  if m.state.wasDestroyed then m
  else { m with sock.sync := m.sock.sync.map fun y => { y with lastUsedUnreliableSn := sn },
                sock.pendingUnreliableMessage := none }

def callSecond (r2 : Bool) (err : ErrorCode) (m : Machine α) : Machine α :=
  if r2 then m.invoke .reliable (.error .reliable err) else m

/-- Move both receive callbacks out and call them with `err`, unreliable first:
the end of `handle_error` and of `on_receive`'s error branch. -/
def errorCallbacks (err : ErrorCode) (m : Machine α) : Machine α :=
  let r1 := m.sock.onReceiveUnreliable
  let r2 := m.sock.onReceiveReliable
  let m := { m with sock.onReceiveUnreliable := false, sock.onReceiveReliable := false }
  if r1 then (m.push (.errorSecond r2 err)).invoke .unreliable (.error .unreliable err)
  else callSecond r2 err m

/-- `SocketImpl::handle_error`. Where `close()` throws, the exception leaves
the dispatch: no callback is called and the code of the dispatch still on the
stack is dropped. `handle_error` runs only in dispatches that start on an empty
stack (a receive completing, the receive timeout alarm). -/
def handleError (err : ErrorCode) (m : Machine α) : Machine α :=
  match close m with
  | none => { m with stack := [] }
  | some m => errorCallbacks err m

theorem handleError_cases (err : ErrorCode) (m : Machine α) :
    (close m = none ∧ handleError err m = { m with stack := [] }) ∨
    ∃ m', close m = some m' ∧ handleError err m = errorCallbacks err m' := by
  unfold handleError
  cases close m with
  | none => exact .inl ⟨rfl, rfl⟩
  | some m' => exact .inr ⟨m', rfl, rfl⟩

/-- `close()` on a closed socket only stops the alarms. -/
theorem close_of_closed {m : Machine α} (h : m.sock.socketOpen = false) :
    close m = some { m with sock.recvTimeoutAlarm := false, sock.sendKeepaliveAlarm := false } := by
  simp [close, h]

/-- `SocketImpl::handle_close_message`: the socket is closed first, so the
`close()` inside `handle_error` sends no close message back. -/
def handleCloseMessage (m : Machine α) : Machine α :=
  handleError .connectionReset { m with sock.socketOpen := false }

theorem handleCloseMessage_eq (m : Machine α) :
    handleCloseMessage m = errorCallbacks .connectionReset
      { m with sock.socketOpen := false, sock.recvTimeoutAlarm := false,
               sock.sendKeepaliveAlarm := false } := by
  simp only [handleCloseMessage, handleError, @close_of_closed _ _ { m with sock.socketOpen := false } rfl]

def handleAcks (acks : α) (m : Machine α) : Machine α :=
  { m with sock.receivedMessageIdsByPeer := acks }

/-- `SocketImpl::handle_message`; `Frame.handleMessageTail` is its last line. -/
def handleMessage (msg : InMessagePart) (m : Machine α) : Machine α :=
  let tail := m.push .handleMessageTail
  match msg.type with
  | .sync => handleSyncMessage msg tail
  | .keepAlive => tail
  | .unreliable => handleUnreliableMessage msg tail
  | .reliable => handleReliableMessage msg tail
  | .close => handleCloseMessage tail
  | .other _ => handleError .parseError m

/-- The loop of `on_receive` over the `n` parts still to read from `rest`. -/
def receiveLoop (rest : List UInt8) : Nat → Machine α → Machine α
  | 0, m => startReceiving m
  | n + 1, m =>
    match InMessagePart.decode rest with
    | none => handleError .parseError m
    | some (msg, rest) => handleMessage msg (m.push (.afterMessage rest n))

/-- `SocketImpl::on_receive`, once the datagram is in `rx_buffer`. The
decoder is built over the whole `rx_buffer`: the received size is not used. -/
def onReceive (err : Option ErrorCode) (m : Machine α) : Machine α :=
  if m.state.wasDestroyed then m
  else
    let m := { m with sock.recvTimeoutAlarm := false }
    match err with
    | some e => errorCallbacks e m
    | none =>
      if m.sock.remoteEndpoint.address ≠ .unspecified ∧ m.state.rxEndpoint ≠ m.sock.remoteEndpoint
      then startReceiving m
      else
        match AckSet.decode m.state.rxBuffer with
        | none => handleError .parseError m
        | some (acks, rest) =>
          let m := handleAcks acks m
          let (count, rest) := (getNat 2 rest).getD (0, rest)
          receiveLoop rest count m

end SocketImpl

end Club.Transport
