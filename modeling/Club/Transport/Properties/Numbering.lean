import Club.Transport.Properties.Retransmission

/-!
Numbering. `send_reliable` and `rendezvous_connect` give each message the next
reliable sequence number, and `encode` puts a message on the wire only as
chunks of its own payload, under its own number, type and total size. So while
the numbers have not wrapped around, every reliable part an endpoint writes, in
any datagram, is a chunk, at its place, of the payload the user passed to the
`send_reliable` that took its number.

`send_unreliable` numbers its messages with a second counter, from 1, and the
same holds of unreliable parts.

`hist` lists the messages an endpoint numbered, in order: the `n`-th took the
number `n`. `uhist` lists the data of its `send_unreliable` calls: the `k`-th
took the number `k + 1`, modulo 2 ^ 32. `Sender hist uhist` is the invariant of
one endpoint's run against them; every function keeps it, and a call that
numbers a message extends `hist` or `uhist` with that message.
-/

namespace Club.Transport

/-- The messages a user call numbers with the endpoint's next reliable
sequence number: the sync message of `rendezvous_connect` and the message of
`send_reliable`. -/
def UserCall.numbered : UserCall → List (MessageType × List UInt8)
  | .rendezvousConnect _ => [(.sync, [])]
  | .sendReliable data => [(.reliable, data)]
  | _ => []

/-- A call whose message the wire can carry: a part writes the total size in
16 bits. -/
def UserCall.Fits : UserCall → Prop
  | .sendReliable data | .sendUnreliable data => data.length < 2 ^ 16
  | _ => True

/-- The data of the message a user call numbers with the endpoint's next
unreliable sequence number: that of `send_unreliable`. -/
def UserCall.numberedUnreliable : UserCall → List (List UInt8)
  | .sendUnreliable data => [data]
  | _ => []

def Event.numbered : Event → List (MessageType × List UInt8)
  | .call c => c.numbered
  | _ => []

def Event.numberedUnreliable : Event → List (List UInt8)
  | .call c => c.numberedUnreliable
  | _ => []

def Event.Fits : Event → Prop
  | .call c => c.Fits
  | _ => True

instance UserCall.decidableFits : (c : UserCall) → Decidable c.Fits
  | .sendReliable data | .sendUnreliable data => inferInstanceAs (Decidable (data.length < 2 ^ 16))
  | .rendezvousConnect _ | .receiveReliable | .receiveUnreliable | .flush | .close | .destroy =>
    inferInstanceAs (Decidable True)

instance Event.decidableFits : (ev : Event) → Decidable ev.Fits
  | .call c => inferInstanceAs (Decidable c.Fits)
  | .returned | .resume | .received _ _ _ | .sent _ | .timerExpired _ | .keepaliveAlarm
  | .recvTimeoutAlarm | .punched _ _ => inferInstanceAs (Decidable True)

theorem getElem?_append_of_eq_some {β : Type} {l : List β} {i : Nat} {x : β} (h : l[i]? = some x)
    (l' : List β) : (l ++ l')[i]? = some x := by
  rw [List.getElem?_append_left (List.getElem?_eq_some_iff.mp h).1]
  exact h

namespace SocketImpl

variable {α : Type} [AckSet α] {hist : List (MessageType × List UInt8)} {uhist : List (List UInt8)}

/-- `uhist` lists `p` under the unreliable number `sn`: its `k`-th data took
the number `k + 1`, modulo 2 ^ 32. -/
def NumberedUnreliable (uhist : List (List UInt8)) (sn : SequenceNumber) (p : List UInt8) : Prop :=
  ∃ k, uhist[k]? = some p ∧ sn.toNat = (k + 1) % 2 ^ 32

theorem NumberedUnreliable.mono {sn : SequenceNumber} {p : List UInt8} (h : NumberedUnreliable uhist sn p)
    (umore : List (List UInt8)) : NumberedUnreliable (uhist ++ umore) sn p :=
  let ⟨k, hk, hsn⟩ := h
  ⟨k, getElem?_append_of_eq_some hk umore, hsn⟩

/-- A message the endpoint holds to send: the wire can carry it, its cursor is
within its payload, and if it is a sync, reliable or unreliable message it
carries the payload `hist` or `uhist` lists under its number. -/
structure Issued (hist : List (MessageType × List UInt8)) (uhist : List (List UInt8))
    (msg : OutMessage) : Prop where
  tag : MessageType.ofTag msg.type.tag = msg.type
  size : msg.payloadSize < 2 ^ 16
  cursor : msg.bytesAlreadySent ≤ msg.payloadSize
  numbered : msg.type = .reliable → hist[msg.sequenceNumber.toNat]? = some (.reliable, msg.payload)
  numberedUnreliable : msg.type = .unreliable → NumberedUnreliable uhist msg.sequenceNumber msg.payload
  numberedSync : msg.type = .sync → hist[msg.sequenceNumber.toNat]? = some (.sync, msg.payload)

namespace Issued

variable {msg : OutMessage}

theorem encodable (h : Issued hist uhist msg) : msg.Encodable :=
  ⟨h.tag, h.size, Nat.lt_of_le_of_lt h.cursor h.size⟩

theorem mono (h : Issued hist uhist msg) (more : List (MessageType × List UInt8))
    (umore : List (List UInt8)) : Issued (hist ++ more) (uhist ++ umore) msg :=
  ⟨h.tag, h.size, h.cursor, fun ht => getElem?_append_of_eq_some (h.numbered ht) more,
    fun ht => (h.numberedUnreliable ht).mono umore,
    fun ht => getElem?_append_of_eq_some (h.numberedSync ht) more⟩

/-- `encode` moves only the cursor, and keeps it within the payload. -/
theorem encode (h : Issued hist uhist msg) (e : Encoder) : Issued hist uhist (SocketImpl.encode e msg).2 := by
  rw [encode_snd]
  exact ⟨h.tag, h.size, encode_cursor_le e h.cursor, h.numbered, h.numberedUnreliable, h.numberedSync⟩

/-- A message just built with a type other than `sync`, `reliable` and
`unreliable` and an empty payload, as the close and keepalive messages are. -/
theorem new_empty {r : Bool} {t : MessageType} (ht : MessageType.ofTag t.tag = t)
    (hr : t ≠ .reliable) (hu : t ≠ .unreliable) (hs : t ≠ .sync) (sn : SequenceNumber) :
    Issued hist uhist (.new r t sn []) :=
  ⟨ht, (by decide : 0 < 2 ^ 16), Nat.le_refl _, fun h => absurd h hr, fun h => absurd h hu,
    fun h => absurd h hs⟩

end Issued

/-- A part read off the wire that, if reliable or unreliable, is a chunk of the
payload `hist` or `uhist` lists under its number: at its place, under the
payload's size; a sync part carries a number `hist` lists a sync message
under. -/
def Faithful (hist : List (MessageType × List UInt8)) (uhist : List (List UInt8))
    (p : InMessagePart) : Prop :=
  (p.type = .reliable → ∃ P, hist[p.sequenceNumber.toNat]? = some (.reliable, P) ∧
    p.originalSize = P.length ∧ p.payload <+: P.drop p.chunkStart) ∧
  (p.type = .unreliable → ∃ P, NumberedUnreliable uhist p.sequenceNumber P ∧
    p.originalSize = P.length ∧ p.payload <+: P.drop p.chunkStart) ∧
  (p.type = .sync → ∃ P, hist[p.sequenceNumber.toNat]? = some (.sync, P))

theorem Faithful.mono {p : InMessagePart} (h : Faithful hist uhist p)
    (more : List (MessageType × List UInt8)) (umore : List (List UInt8)) :
    Faithful (hist ++ more) (uhist ++ umore) p :=
  ⟨fun ht => let ⟨P, hP, hs, hc⟩ := h.1 ht; ⟨P, getElem?_append_of_eq_some hP more, hs, hc⟩,
    fun ht => let ⟨P, hP, hs, hc⟩ := h.2.1 ht; ⟨P, hP.mono umore, hs, hc⟩,
    fun ht => let ⟨P, hP⟩ := h.2.2 ht; ⟨P, getElem?_append_of_eq_some hP more⟩⟩

/-- Every part `encode` writes of a message the endpoint holds is faithful. -/
theorem faithful_encodedPart (e : Encoder) {msg : OutMessage} (h : Issued hist uhist msg) :
    Faithful hist uhist (encodedPart e msg) :=
  ⟨fun ht => ⟨msg.payload, h.numbered ht, rfl, List.take_prefix _ _⟩,
    fun ht => ⟨msg.payload, h.numberedUnreliable ht, rfl, List.take_prefix _ _⟩,
    fun ht => ⟨msg.payload, h.numberedSync ht⟩⟩

/-- A datagram as `on_receive` reads it: an ack set, a count below 2 ^ 16, and
that many parts, all faithful, whatever bytes follow it in `rx_buffer`. -/
def WellFormed (α : Type) [AckSet α] (hist : List (MessageType × List UInt8))
    (uhist : List (List UInt8)) (d : List UInt8) : Prop :=
  ∃ (a : α) (n : Nat) (bytes : List UInt8) (ps : List InMessagePart),
    d = AckSet.encode a ++ beBytes 2 n ++ bytes ∧ n < 2 ^ 16 ∧
      (∀ r, decodeParts n (bytes ++ r) = some (ps, r)) ∧ ∀ p ∈ ps, Faithful hist uhist p

theorem WellFormed.mono {d : List UInt8} (h : WellFormed α hist uhist d)
    (more : List (MessageType × List UInt8)) (umore : List (List UInt8)) :
    WellFormed α (hist ++ more) (uhist ++ umore) d :=
  let ⟨a, n, bytes, ps, hd, hn, hps, hf⟩ := h
  ⟨a, n, bytes, ps, hd, hn, hps, fun p hp => (hf p hp).mono more umore⟩

/-- A message of the queue the packing loop leaves was kept before it, or is
one the loop visited, perhaps encoded once. -/
theorem mem_encodeCycle_queue {peer : α} {e : Encoder} {count : Nat} {kept : List OutMessage}
    {acked : List SequenceNumber} {encoded : List InMessagePart} {q : List OutMessage}
    {msg : OutMessage} (h : msg ∈ (encodeCycle peer e count kept acked encoded q).queue) :
    msg ∈ kept ∨ ∃ mi ∈ q, msg = mi ∨ ∃ e', msg = (encode e' mi).2 := by
  induction q generalizing e count kept acked encoded with
  | nil => exact .inl h
  | cons mi rest ih =>
    have tail : ∀ {x}, (x ∈ kept ∨ ∃ mi' ∈ rest, x = mi' ∨ ∃ e', x = (encode e' mi').2) →
        x ∈ kept ∨ ∃ mi' ∈ mi :: rest, x = mi' ∨ ∃ e', x = (encode e' mi').2 :=
      fun h => h.imp_right fun ⟨mi', hm, hx⟩ => ⟨mi', .tail _ hm, hx⟩
    unfold encodeCycle at h
    split at h
    · exact tail (ih h)
    rcases ht : tryEncode e mi with _ | ⟨e', mi'⟩ <;> rw [ht] at h
    · simp only [List.mem_append, List.mem_singleton] at h
      rcases h with (h | h) | rfl
      exacts [tail (.inr ⟨_, h, .inl rfl⟩), .inl h, .inr ⟨_, .head _, .inl rfl⟩]
    obtain ⟨-, henc⟩ := tryEncode_eq_some ht
    have hmi : mi' = (encode e mi).2 := (congrArg Prod.snd henc).symm
    dsimp only at h
    split_ifs at h
    · simp only [List.mem_append, List.mem_singleton] at h
      rcases h with (h | h) | rfl
      exacts [tail (.inr ⟨_, h, .inl rfl⟩), .inl h, .inr ⟨_, .head _, .inr ⟨e, hmi⟩⟩]
    · exact tail (ih h)
    · rcases ih h with h | h
      · rcases List.mem_append.mp h with h | h
        · exact .inl h
        · exact .inr ⟨mi, .head _, .inr ⟨e, (List.mem_singleton.mp h).trans hmi⟩⟩
      · exact tail (.inr h)

theorem issued_encodeCycle (peer : α) (e : Encoder) (count : Nat) (kept : List OutMessage)
    (acked : List SequenceNumber) (encoded : List InMessagePart) (q : List OutMessage)
    (hk : ∀ msg ∈ kept, Issued hist uhist msg) (hq : ∀ msg ∈ q, Issued hist uhist msg) :
    ∀ msg ∈ (encodeCycle peer e count kept acked encoded q).queue, Issued hist uhist msg :=
  fun msg h => by
  rcases mem_encodeCycle_queue h with h | ⟨mi, hm, rfl | ⟨e', rfl⟩⟩
  exacts [hk _ h, hq _ hm, (hq _ hm).encode e']

theorem faithful_packedParts (peer : α) {e : Encoder} (he : e.error = false) {q : List OutMessage}
    (hq : ∀ msg ∈ q, Issued hist uhist msg) : ∀ p ∈ packedParts peer e q, Faithful hist uhist p := by
  intro p hp
  obtain ⟨x, hx, rfl⟩ := List.mem_map.mp hp
  exact faithful_encodedPart x.1 (hq _ (packedMessages_encodes peer he q x hx).2.2)

section

variable (hroom : AckRoom α)
include hroom

theorem wellFormed_constructPacketWithOneMessage (acks : α) {msg : OutMessage}
    (h : Issued hist uhist msg) : WellFormed α hist uhist (constructPacketWithOneMessage acks msg).1 := by
  obtain ⟨bytes, hw, hd⟩ := constructPacketWithOneMessage_written acks msg
    (by have := hroom acks; have := Nat.min_le_left 1 msg.payloadSize; omega) h.encodable
  exact ⟨acks, 1, bytes, _, hw, by decide, hd,
    List.forall_mem_singleton.mpr (faithful_encodedPart _ h)⟩

/-- The packet `start_sending` builds from a queue of issued messages. -/
theorem wellFormed_encodePayload (m : Machine α)
    (hq : ∀ msg ∈ m.sock.transmitQueue, Issued hist uhist msg) :
    WellFormed α hist uhist (encodePayload m (ackEncoder m.sock.receivedMessageIds)).2.1.written := by
  have h2 : (AckSet.encode m.sock.receivedMessageIds).length + 2 ≤ packetSize := by
    have := hroom m.sock.receivedMessageIds; omega
  obtain ⟨-, hs, bytes, hw, hd⟩ := encodePayload_written m h2 fun msg hm => (hq msg hm).encodable
  exact ⟨_, _, bytes, _, hw, hs, hd,
    faithful_packedParts _ (by rw [ackEncoder_putU16 _ _ h2]) hq⟩

end

/-- The sender's side of one endpoint, against the messages `hist` and `uhist`
it numbered: its next numbers follow their counts, every message it holds to
send is issued, and every datagram it wrote is well formed. -/
structure Sender (hist : List (MessageType × List UInt8)) (uhist : List (List UInt8)) (m : Machine α) :
    Prop where
  next : m.sock.nextReliableSn.toNat = hist.length
  nextUnreliable : m.sock.nextUnreliableSn.toNat = (uhist.length + 1) % 2 ^ 32
  queued : ∀ msg ∈ m.sock.transmitQueue ++ m.io.punches, Issued hist uhist msg
  sent : ∀ d ∈ datagrams m.log, WellFormed α hist uhist d

/-- `m'` keeps the sender's invariant against `hist` and `uhist` if `m` does. -/
def KeepsSender (hist : List (MessageType × List UInt8)) (uhist : List (List UInt8)) (m m' : Machine α) :
    Prop :=
  Sender hist uhist m → Sender hist uhist m'

namespace KeepsSender

variable {m m' m'' : Machine α}

theorem refl (m : Machine α) : KeepsSender hist uhist m m := id

theorem trans (h : KeepsSender hist uhist m m') (h' : KeepsSender hist uhist m' m'') :
    KeepsSender hist uhist m m'' :=
  h' ∘ h

/-- A step that leaves the next numbers, the queue and the punches alone and
writes no datagram. -/
theorem of_eq (hn : m'.sock.nextReliableSn = m.sock.nextReliableSn)
    (hu : m'.sock.nextUnreliableSn = m.sock.nextUnreliableSn)
    (hq : m'.sock.transmitQueue = m.sock.transmitQueue) (hp : m'.io.punches = m.io.punches)
    (hd : datagrams m'.log = datagrams m.log) : KeepsSender hist uhist m m' :=
  fun h => ⟨hn ▸ h.next, hu ▸ h.nextUnreliable, hq ▸ hp ▸ h.queued, hd ▸ h.sent⟩

theorem after (h : KeepsSender hist uhist m' m'') (hn : m'.sock.nextReliableSn = m.sock.nextReliableSn)
    (hu : m'.sock.nextUnreliableSn = m.sock.nextUnreliableSn)
    (hq : m'.sock.transmitQueue = m.sock.transmitQueue) (hp : m'.io.punches = m.io.punches)
    (hd : datagrams m'.log = datagrams m.log) : KeepsSender hist uhist m m'' :=
  (of_eq hn hu hq hp hd).trans h

end KeepsSender

theorem keepsSender_addMessage (m : Machine α) {msg : OutMessage} (h : Issued hist uhist msg) :
    KeepsSender hist uhist m (addMessage msg m) := fun hs =>
  ⟨hs.next, hs.nextUnreliable, fun x hx => by
    simp only [addMessage, List.mem_append, List.mem_singleton] at hx
    rcases hx with (hx | rfl) | hx
    exacts [hs.queued x (List.mem_append_left _ hx), h, hs.queued x (List.mem_append_right _ hx)],
    hs.sent⟩

section

variable (m : Machine α)

theorem keepsSender_errorCallbacks (err : ErrorCode) : KeepsSender hist uhist m (errorCallbacks err m) := by
  simp only [errorCallbacks, callSecond]
  split_ifs <;> exact .of_eq rfl rfl rfl rfl (by simp [datagrams])

theorem keepsSender_userHandleReliableMsg (full : InMessageFull) (r : Bool) :
    KeepsSender hist uhist m (userHandleReliableMsg full r m) := by
  unfold userHandleReliableMsg
  split_ifs <;> exact .of_eq rfl rfl rfl rfl (by simp [datagrams])

theorem keepsSender_replayPendingMessages (after : Option SequenceNumber) :
    KeepsSender hist uhist m (replayPendingMessages after m) := by
  dsimp only [replayPendingMessages]
  repeat' split
  all_goals first | exact .refl _ | exact keepsSender_userHandleReliableMsg _ _ _

theorem keepsSender_handleUnreliableMessage (msg : InMessagePart) :
    KeepsSender hist uhist m (handleUnreliableMessage msg m) := by
  rcases handleUnreliableMessage_cases msg m with h | ⟨y, -, -, ⟨pm, -, h⟩ | ⟨p, slot, -, h⟩⟩ <;>
    rw [h] <;> exact .of_eq rfl rfl rfl rfl (by simp [deliverUnreliable, datagrams])

theorem keepsSender_handleReliableMessage (msg : InMessagePart) :
    KeepsSender hist uhist m (handleReliableMessage msg m) := by
  dsimp only [handleReliableMessage]
  repeat' split
  all_goals first
    | exact .of_eq rfl rfl rfl rfl rfl
    | exact (keepsSender_userHandleReliableMsg _ _ _).after rfl rfl rfl rfl rfl
    | exact (keepsSender_replayPendingMessages _ _).after rfl rfl rfl rfl rfl

variable (hroom : AckRoom α)
include hroom

theorem keepsSender_startSending : KeepsSender hist uhist m (startSending m) := by
  intro hs
  have hq : ∀ msg ∈ m.sock.transmitQueue, Issued hist uhist msg :=
    fun msg h => hs.queued msg (List.mem_append_left _ h)
  -- the packing moves cursors, erases messages and logs erasures only
  have hp : Sender hist uhist (encodePayload m (ackEncoder m.sock.receivedMessageIds)).1 := by
    refine ⟨hs.next, hs.nextUnreliable, fun msg h => ?_, by simpa [encodePayload] using hs.sent⟩
    rcases List.mem_append.mp h with h | h
    · exact issued_encodeCycle _ _ _ [] [] [] _ (fun _ h => absurd h (List.not_mem_nil _)) hq msg h
    · exact hs.queued msg (List.mem_append_right _ h)
  have hw := wellFormed_encodePayload hroom m hq
  rcases startSending_cases m with h | ⟨-, -, r, m₁, hr, rfl, h | h | h⟩ <;> rw [h]
  · exact hs
  all_goals rw [show (Encoder.ofCapacity packetSize).putBytes (AckSet.encode m.sock.receivedMessageIds) =
    ackEncoder m.sock.receivedMessageIds from rfl] at hr
  all_goals subst hr
  · exact KeepsSender.of_eq (by rfl) (by rfl) (by rfl) (by rfl) (by simp [datagrams]) hp
  · exact KeepsSender.of_eq (by rfl) (by rfl) (by rfl) (by rfl) (by rfl) hp
  · refine ⟨hp.next, hp.nextUnreliable, hp.queued, fun d hd => ?_⟩
    simp only [Machine.record_log, datagrams_append, List.mem_append] at hd
    rcases hd with hd | hd
    · exact hp.sent d hd
    · simp only [datagrams, List.mem_singleton] at hd
      exact hd ▸ hw

theorem keepsSender_close {m' : Machine α} (h : close m = some m') : KeepsSender hist uhist m m' := by
  rcases close_cases m with ⟨-, -, hc⟩ | ⟨-, hc⟩ | ⟨-, hc⟩ <;> rw [hc] at h <;> cases h
  · refine fun hs => ⟨hs.next, hs.nextUnreliable, hs.queued, fun d hd => ?_⟩
    simp only [Machine.record_log, datagrams_append, List.mem_append] at hd
    rcases hd with hd | hd
    · exact hs.sent d hd
    · simp only [datagrams, List.mem_singleton] at hd
      exact hd ▸ wellFormed_constructPacketWithOneMessage hroom _
        (Issued.new_empty (by decide) (by decide) (by decide) (by decide) 0 :
          Issued hist uhist (.new false .close 0 []))
  · exact .of_eq rfl rfl rfl rfl rfl

theorem keepsSender_userClose : KeepsSender hist uhist m ((close m).getD m) := by
  cases h : close m
  exacts [.refl m, keepsSender_close m hroom h]

theorem keepsSender_handleError (err : ErrorCode) : KeepsSender hist uhist m (handleError err m) := by
  rcases handleError_cases err m with ⟨-, h⟩ | ⟨m', hc, h⟩ <;> rw [h]
  · exact .of_eq rfl rfl rfl rfl rfl
  · exact (keepsSender_close m hroom hc).trans (keepsSender_errorCallbacks _ err)

theorem keepsSender_handleMessage (msg : InMessagePart) : KeepsSender hist uhist m (handleMessage msg m) := by
  unfold handleMessage
  split
  · simp only [handleSyncMessage]; split <;> exact .of_eq rfl rfl rfl rfl (by simp [datagrams])
  · exact .of_eq rfl rfl rfl rfl rfl
  · exact (keepsSender_handleUnreliableMessage _ _).after rfl rfl rfl rfl rfl
  · exact (keepsSender_handleReliableMessage _ _).after rfl rfl rfl rfl rfl
  · exact (keepsSender_handleError _ hroom _).after rfl rfl rfl rfl rfl
  · exact keepsSender_handleError _ hroom _

theorem keepsSender_receiveLoop (rest : List UInt8) (n : Nat) :
    KeepsSender hist uhist m (receiveLoop rest n m) := by
  cases n with
  | zero => exact .of_eq rfl rfl rfl rfl (by simp [receiveLoop, startReceiving, datagrams])
  | succ n =>
    simp only [receiveLoop]
    split
    · exact keepsSender_handleError _ hroom _
    · exact (keepsSender_handleMessage _ hroom _).after rfl rfl rfl rfl rfl

theorem keepsSender_onReceive (err : Option ErrorCode) : KeepsSender hist uhist m (onReceive err m) := by
  dsimp only [onReceive]
  split
  · exact .refl m
  · split
    · exact (keepsSender_errorCallbacks _ _).after rfl rfl rfl rfl rfl
    · split
      · exact .of_eq rfl rfl rfl rfl (by simp [startReceiving, datagrams])
      · split
        · exact (keepsSender_handleError _ hroom _).after rfl rfl rfl rfl rfl
        · exact (keepsSender_receiveLoop _ hroom _ _).after rfl rfl rfl rfl rfl

theorem keepsSender_runFrame (f : Frame) : KeepsSender hist uhist m (runFrame f m) := by
  cases f with
  | afterMessage r n =>
    simp only [runFrame]
    split_ifs
    · exact .refl m
    · exact .refl m
    · exact keepsSender_receiveLoop _ hroom _ _
  | handleMessageTail =>
    simp only [runFrame]
    split_ifs
    · exact .refl m
    · exact keepsSender_startSending m hroom
  | reliableDelivered sn r =>
    dsimp only [runFrame, reliableDelivered]
    split_ifs
    · exact .refl m
    all_goals exact (keepsSender_replayPendingMessages _ _).after rfl rfl rfl rfl rfl
  | unreliableDelivered sn =>
    simp only [runFrame, unreliableDelivered]; split_ifs <;> exact .of_eq rfl rfl rfl rfl rfl
  | afterFlush =>
    simp only [runFrame, startKeepaliveAlarm]; split_ifs <;> exact .of_eq rfl rfl rfl rfl rfl
  | errorSecond r2 err =>
    simp only [runFrame, callSecond]; split_ifs <;> exact .of_eq rfl rfl rfl rfl (by simp [datagrams])
  | punchAfterSend => exact .of_eq rfl rfl rfl rfl (by simp [runFrame, startReceiving, datagrams])
  | user h => exact .refl m

theorem keepsSender_onPunch {syn : OutMessage} (hs : Issued hist uhist syn)
    (result : Except ErrorCode UdpEndpoint) : KeepsSender hist uhist m (onPunch syn result m) := by
  cases result with
  | error e => exact .of_eq rfl rfl rfl rfl (by simp [onPunch, datagrams])
  | ok ep =>
    refine .trans ?_ (keepsSender_startSending _ hroom)
    refine fun h => ⟨h.next, h.nextUnreliable, fun x hx => ?_, h.sent⟩
    simp only [Machine.push_sock, Machine.push_io, List.mem_append, List.mem_singleton] at hx
    rcases hx with (hx | rfl) | hx
    exacts [h.queued x (List.mem_append_left _ hx), hs, h.queued x (List.mem_append_right _ hx)]

/-- A user call keeps the invariant against `hist` and `uhist` extended with
the message it numbers, if the reliable numbers do not wrap around and the wire
can carry what it sends. -/
theorem sender_userCall (c : UserCall) (hs : Sender hist uhist m) (hfit : c.Fits)
    (hlen : hist.length + c.numbered.length < 2 ^ 32) :
    Sender (hist ++ c.numbered) (uhist ++ c.numberedUnreliable) (userCall c m) := by
  -- the number the call takes is the next one of `hist`
  have hnext : ∀ more : List (MessageType × List UInt8), more.length = 1 →
      hist.length + more.length < 2 ^ 32 →
      (m.sock.nextReliableSn + 1).toNat = (hist ++ more).length := fun more h1 hl => by
    show (m.sock.nextReliableSn.toNat + 1) % 2 ^ 32 = _
    rw [hs.next, List.length_append, h1]
    exact Nat.mod_eq_of_lt (by rwa [h1] at hl)
  cases c with
  | rendezvousConnect ep =>
    have hsyn : Issued (hist ++ UserCall.numbered (.rendezvousConnect ep))
        (uhist ++ UserCall.numberedUnreliable (.rendezvousConnect ep))
        (.new true .sync m.sock.nextReliableSn []) :=
      ⟨rfl, (by decide : 0 < 2 ^ 16), Nat.le_refl _, nofun, nofun,
        fun _ => by simp [UserCall.numbered, OutMessage.new, hs.next]⟩
    refine ⟨hnext _ rfl hlen, by simpa [UserCall.numberedUnreliable] using hs.nextUnreliable,
      fun x hx => ?_, fun d hd => ?_⟩
    · simp only [userCall, rendezvousConnect, Machine.record_sock, Machine.record_io,
        List.mem_append, List.mem_singleton] at hx
      rcases hx with hx | hx | rfl
      · exact (hs.queued x (List.mem_append_left _ hx)).mono _ _
      · exact (hs.queued x (List.mem_append_right _ hx)).mono _ _
      · rcases constructPacketWithOneMessage_snd m.sock.receivedMessageIds
          (.new true .sync m.sock.nextReliableSn []) with h | ⟨e, h⟩ <;> rw [h]
        exacts [hsyn, hsyn.encode e]
    · simp only [userCall, rendezvousConnect, Machine.record_log, datagrams_append,
        List.mem_append] at hd
      rcases hd with hd | hd
      · exact (hs.sent d hd).mono _ _
      · simp only [datagrams, List.mem_singleton] at hd
        exact hd ▸ wellFormed_constructPacketWithOneMessage hroom _ hsyn
  | sendReliable data =>
    have hmsg : Issued (hist ++ UserCall.numbered (.sendReliable data))
        (uhist ++ UserCall.numberedUnreliable (.sendReliable data))
        (.new true .reliable m.sock.nextReliableSn data) :=
      ⟨rfl, hfit, Nat.zero_le _, fun _ => by simp [UserCall.numbered, OutMessage.new, hs.next],
        nofun, nofun⟩
    exact keepsSender_startSending _ hroom (keepsSender_addMessage _ hmsg ⟨hnext _ rfl hlen,
      by simpa [UserCall.numberedUnreliable] using hs.nextUnreliable,
      fun x hx => (hs.queued x hx).mono _ _, fun d hd => (hs.sent d hd).mono _ _⟩)
  | sendUnreliable data =>
    -- the message takes the next unreliable number, `uhist.length + 1`
    have hmsg : Issued (hist ++ UserCall.numbered (.sendUnreliable data)) (uhist ++ [data])
        (.new false .unreliable m.sock.nextUnreliableSn data) :=
      ⟨rfl, hfit, Nat.zero_le _, nofun, fun _ => ⟨uhist.length, by simp [OutMessage.new], hs.nextUnreliable⟩,
        nofun⟩
    have hu : (m.sock.nextUnreliableSn + 1).toNat = ((uhist ++ [data]).length + 1) % 2 ^ 32 := by
      show (m.sock.nextUnreliableSn.toNat + 1) % 2 ^ 32 = _
      rw [hs.nextUnreliable, List.length_append, List.length_singleton]
      omega
    exact keepsSender_startSending _ hroom (keepsSender_addMessage _ hmsg
      ⟨by simpa [UserCall.numbered] using hs.next, hu,
        fun x hx => (hs.queued x hx).mono _ _, fun d hd => (hs.sent d hd).mono _ _⟩)
  | close =>
    simp only [UserCall.numbered, UserCall.numberedUnreliable, List.append_nil]
    exact keepsSender_userClose m hroom hs
  | receiveReliable | receiveUnreliable | flush | destroy =>
    simp only [UserCall.numbered, UserCall.numberedUnreliable, List.append_nil]
    exact ⟨hs.next, hs.nextUnreliable, hs.queued, hs.sent⟩

end

section

variable (hroom : AckRoom α)
include hroom

/-- Every step but a user call keeps the invariant against the same `hist`. -/
theorem keepsSender_step {m m' : Machine α} {ev : Event} (h : step m ev = some m')
    (hc : ∀ c, ev ≠ .call c) : KeepsSender hist uhist m m' := by
  cases ev with
  | call c => exact absurd rfl (hc c)
  | returned =>
    obtain ⟨-, rest, -, rfl⟩ := step_returned h
    exact .of_eq rfl rfl rfl rfl rfl
  | resume =>
    obtain ⟨f, rest, -, rfl⟩ := step_resume h
    exact (keepsSender_runFrame _ hroom f).after rfl rfl rfl rfl rfl
  | received err src d =>
    obtain ⟨-, rfl⟩ := step_received h
    split_ifs <;> exact (keepsSender_onReceive _ hroom _).after rfl rfl rfl rfl rfl
  | sent err =>
    obtain ⟨-, rfl⟩ := step_sent h
    simp only [onSend]
    split_ifs <;> exact .of_eq rfl rfl rfl rfl rfl
  | timerExpired a =>
    obtain ⟨-, rfl⟩ := step_timerExpired h
    simp only [onTimer]
    split_ifs
    · exact .of_eq rfl rfl rfl rfl rfl
    · exact .of_eq rfl rfl rfl rfl rfl
    · exact (keepsSender_startSending _ hroom).after rfl rfl rfl rfl rfl
  | keepaliveAlarm =>
    obtain ⟨-, rfl⟩ := step_keepaliveAlarm h
    exact ((keepsSender_addMessage _ (Issued.new_empty (by decide) (by decide) (by decide) (by decide) 0 :
      Issued hist uhist (.new false .keepAlive 0 []))).trans (keepsSender_startSending _ hroom)).after
        rfl rfl rfl rfl rfl
  | recvTimeoutAlarm =>
    obtain ⟨-, rfl⟩ := step_recvTimeoutAlarm h
    exact (keepsSender_handleError _ hroom _).after rfl rfl rfl rfl rfl
  | punched i r =>
    obtain ⟨syn, hsyn, -, rfl⟩ := step_punched h
    intro hs
    have hq : syn ∈ m.io.punches := List.getElem?_mem hsyn
    refine keepsSender_onPunch _ hroom (hs.queued syn (List.mem_append_right _ hq)) r
      ⟨hs.next, hs.nextUnreliable, fun x hx => ?_, hs.sent⟩
    rcases List.mem_append.mp hx with hx | hx
    · exact hs.queued x (List.mem_append_left _ hx)
    · exact hs.queued x (List.mem_append_right _ (List.mem_of_mem_eraseIdx hx))

/-- Every step keeps the invariant against `hist` and `uhist` extended with the
message the step numbers, if the reliable numbers do not wrap around and the
wire can carry what it sends. -/
theorem sender_step {m m' : Machine α} {ev : Event} (hs : Sender hist uhist m) (h : step m ev = some m')
    (hfit : ev.Fits) (hlen : hist.length + ev.numbered.length < 2 ^ 32) :
    Sender (hist ++ ev.numbered) (uhist ++ ev.numberedUnreliable) m' := by
  cases ev with
  | call c => obtain ⟨-, rfl⟩ := step_call h; exact sender_userCall m hroom c hs hfit hlen
  | _ => simpa [Event.numbered, Event.numberedUnreliable] using keepsSender_step hroom h (by simp) hs

theorem sender_run {m m' : Machine α} {evs : List Event} (hs : Sender hist uhist m)
    (h : run m evs = some m') (hfit : ∀ ev ∈ evs, ev.Fits)
    (hlen : hist.length + (evs.flatMap Event.numbered).length < 2 ^ 32) :
    Sender (hist ++ evs.flatMap Event.numbered) (uhist ++ evs.flatMap Event.numberedUnreliable) m' := by
  induction evs generalizing hist uhist m with
  | nil => cases h; simpa using hs
  | cons ev evs ih =>
    simp only [run] at h
    cases hst : step m ev with
    | none => simp [hst] at h
    | some m₁ =>
      simp only [List.flatMap_cons, List.length_append] at hlen
      have := ih (sender_step hroom hs hst (hfit ev (.head _)) (by omega)) (by simpa [hst] using h)
        (fun e he => hfit e (.tail _ he)) (by simp only [List.length_append]; omega)
      simpa [List.append_assoc] using this

end

theorem sender_init : Sender [] [] (init : Machine α) :=
  ⟨rfl, rfl, by simp [init], by simp [init, datagrams]⟩

/-- A well-formed datagram, read the way `on_receive` reads one, gives an ack
set, a count and that many faithful parts. -/
theorem WellFormed.decode
    (hcodec : ∀ (a : α) (rest : List UInt8), AckSet.decode (AckSet.encode a ++ rest) = some (a, rest))
    {d : List UInt8} (h : WellFormed α hist uhist d) :
    ∃ (a : α) (n : Nat) (ps : List InMessagePart),
      decodePacket d = some (a, n, ps, []) ∧ ∀ p ∈ ps, Faithful hist uhist p := by
  obtain ⟨a, n, bytes, ps, rfl, hn, hps, hf⟩ := h
  have hn' : n % 256 ^ 2 = n := Nat.mod_eq_of_lt hn
  have hd0 : decodeParts n bytes = some (ps, []) := by simpa using hps []
  refine ⟨a, n, ps, ?_, hf⟩
  simp only [decodePacket, List.append_assoc, hcodec, getNat_beBytes, hn', bind, Option.bind, hd0,
    Option.pure_def]

/-- Over every run of one endpoint from its construction, whatever it receives:
while it has numbered fewer than 2 ^ 32 messages and every message it sends is
shorter than 2 ^ 16 bytes, each datagram it wrote reads back, the way
`on_receive` reads one, as an ack set and parts, and each reliable part is a
chunk, at its place and under the right total size, of the data passed to the
`send_reliable` call that took the part's sequence number. -/
theorem reliable_parts_carry_numbered_data
    (hcodec : ∀ (a : α) (rest : List UInt8), AckSet.decode (AckSet.encode a ++ rest) = some (a, rest))
    (hroom : AckRoom α) {evs : List Event} {m : Machine α} (h : run init evs = some m)
    (hfit : ∀ ev ∈ evs, ev.Fits) (hlen : (evs.flatMap Event.numbered).length < 2 ^ 32) :
    ∀ d ∈ datagrams m.log, ∃ (a : α) (n : Nat) (ps : List InMessagePart),
      decodePacket d = some (a, n, ps, []) ∧
      ∀ p ∈ ps, p.type = .reliable → ∃ P,
        (evs.flatMap Event.numbered)[p.sequenceNumber.toNat]? = some (.reliable, P) ∧
          p.originalSize = P.length ∧ p.payload <+: P.drop p.chunkStart := fun d hd =>
  let ⟨a, n, ps, hd, hf⟩ :=
    ((sender_run hroom sender_init h hfit (by simpa using hlen)).sent d (by simpa using hd)).decode hcodec
  ⟨a, n, ps, hd, fun p hp => (hf p hp).1⟩

set_option maxRecDepth 20000 in
/-- An endpoint connects and sends [5, 6] reliably. Its third datagram reads
back as the sync message and the whole message under the number 1, the second
number it gave. -/
theorem reliable_part_of_connected_send :
    let evs : List Event :=
      [.call (.rendezvousConnect ⟨.host 2, 7⟩), .punched 0 (.ok ⟨.host 2, 7⟩), .resume, .returned,
       .call (.sendReliable [5, 6]), .sent none, .timerExpired false]
    ∃ m : Machine RecentAckSet, run init evs = some m ∧
      ((datagrams m.log)[2]?.bind (@decodePacket RecentAckSet _)).map (·.2.2.1) =
        some [⟨.sync, 0, 0, 0, []⟩, ⟨.reliable, 1, 2, 0, [5, 6]⟩] ∧
      ∀ d ∈ datagrams m.log, ∃ (a : RecentAckSet) (n : Nat) (ps : List InMessagePart),
        decodePacket d = some (a, n, ps, []) ∧
        ∀ p ∈ ps, p.type = .reliable → ∃ P,
          (evs.flatMap Event.numbered)[p.sequenceNumber.toNat]? = some (.reliable, P) ∧
            p.originalSize = P.length ∧ p.payload <+: P.drop p.chunkStart := by
  intro evs
  obtain ⟨m, hm, hd⟩ : ∃ m : Machine RecentAckSet, run init evs = some m ∧
      ((datagrams m.log)[2]?.bind (@decodePacket RecentAckSet _)).map (·.2.2.1) =
        some [⟨.sync, 0, 0, 0, []⟩, ⟨.reliable, 1, 2, 0, [5, 6]⟩] :=
    ⟨_, rfl, by decide⟩
  exact ⟨m, hm, hd, reliable_parts_carry_numbered_data RecentAckSet.decode_encode
    RecentAckSet.ackRoom hm (by decide) (by decide)⟩

end SocketImpl

end Club.Transport
