import Club.Transport.Properties.Acknowledged
import Club.Transport.Properties.Fragmentation

/-!
Retransmission. A message sent with `resend_until_acked` stays in the transmit
queue, its cursor moving, until `encode_payload` finds its number in the
peer's ack set and erases it: no other code takes it out. So over every run a
reliable message is still queued or its number was logged as erased for an
acknowledgement, and over two endpoints the peer had taken it in.

`start_sending` calls the flush callback only when `encode_payload` packed
nothing. When an ack set leaves room for one part, that happens only once every
message of the queue was erased for an acknowledgement: the flush callback runs
only after the peer took in every reliable message queued before.

The queue holds values, so a message is followed by its fields other than the
cursor, which `encode` moves.
-/

namespace Club.Transport

namespace OutMessage

/-- A message with its cursor cleared: what `encode` leaves as it was. -/
def stripped (m : OutMessage) : OutMessage := { m with bytesAlreadySent := 0 }

/-- `q` still holds `m`, its cursor perhaps moved. -/
def Retained (m : OutMessage) (q : List OutMessage) : Prop := ∃ m' ∈ q, m'.stripped = m.stripped

theorem Retained.of_mem {m : OutMessage} {q : List OutMessage} (h : m ∈ q) : m.Retained q :=
  ⟨m, h, rfl⟩

theorem Retained.of_stripped {m m₁ : OutMessage} {q : List OutMessage}
    (hs : m₁.stripped = m.stripped) (h : m₁.Retained q) : m.Retained q :=
  let ⟨m', hm', h'⟩ := h
  ⟨m', hm', h'.trans hs⟩

theorem Retained.mono {m : OutMessage} {q q' : List OutMessage} (hq : q ⊆ q') (h : m.Retained q) :
    m.Retained q' :=
  let ⟨m', hm', h'⟩ := h
  ⟨m', hq hm', h'⟩

theorem resendUntilAcked_of_stripped {m m' : OutMessage} (h : m'.stripped = m.stripped) :
    m'.resendUntilAcked = m.resendUntilAcked :=
  (congrArg resendUntilAcked h : m'.stripped.resendUntilAcked = _)

theorem sequenceNumber_of_stripped {m m' : OutMessage} (h : m'.stripped = m.stripped) :
    m'.sequenceNumber = m.sequenceNumber :=
  (congrArg sequenceNumber h : m'.stripped.sequenceNumber = _)

end OutMessage

namespace SocketImpl

variable {α : Type} [AckSet α]

@[simp] theorem stripped_encode (e : Encoder) (m : OutMessage) : (encode e m).2.stripped = m.stripped := by
  rw [encode_snd]; rfl

/-- The ack sets of `α` leave room, after the count of parts, for the header
and one payload byte of a part. -/
def AckRoom (α : Type) [AckSet α] : Prop :=
  ∀ a : α, (AckSet.encode a).length + 2 + OutMessage.headerSize + 1 ≤ packetSize

/-- `m'` follows `m`, appending `os` to the log: each reliable message queued in
`m` is still queued or its number is among the erasures of `os`, and if `os`
calls the flush callback, every one of them is among those erasures. -/
def ReliableKept (m m' : Machine α) (os : List Obs) : Prop :=
  m'.log = m.log ++ os ∧
    ∀ msg ∈ m.sock.transmitQueue, msg.resendUntilAcked = true →
      (msg.Retained m'.sock.transmitQueue ∨ msg.sequenceNumber ∈ ackErasedSns os) ∧
      (AckRoom α → Obs.flushed ∈ os → msg.sequenceNumber ∈ ackErasedSns os)

/-- `m'` follows `m` keeping its reliable messages, as `ReliableKept` says. -/
def KeepsReliable (m m' : Machine α) : Prop := ∃ os, ReliableKept m m' os

namespace KeepsReliable

variable {m m' m'' : Machine α}

theorem refl (m : Machine α) : KeepsReliable m m :=
  ⟨[], (List.append_nil _).symm, fun _ hm _ => ⟨.inl (.of_mem hm), fun _ h => absurd h (List.not_mem_nil _)⟩⟩

theorem trans (h : KeepsReliable m m') (h' : KeepsReliable m' m'') : KeepsReliable m m'' := by
  obtain ⟨os, hl, hk⟩ := h
  obtain ⟨os', hl', hk'⟩ := h'
  refine ⟨os ++ os', by rw [hl', hl, List.append_assoc], fun msg hm hr => ?_⟩
  have step : ∀ msg₁ ∈ m'.sock.transmitQueue, msg₁.stripped = msg.stripped →
      (msg.Retained m''.sock.transmitQueue ∨ msg.sequenceNumber ∈ ackErasedSns os') ∧
      (AckRoom α → Obs.flushed ∈ os' → msg.sequenceNumber ∈ ackErasedSns os') := by
    intro msg₁ hm₁ hs
    have hk₁ := hk' msg₁ hm₁ (OutMessage.resendUntilAcked_of_stripped hs ▸ hr)
    rw [OutMessage.sequenceNumber_of_stripped hs] at hk₁
    exact ⟨hk₁.1.imp_left (.of_stripped hs), hk₁.2⟩
  simp only [ackErasedSns_append, List.mem_append]
  refine ⟨?_, fun hroom hf => ?_⟩
  · rcases (hk msg hm hr).1 with ⟨msg₁, hm₁, hs⟩ | he
    · exact ((step msg₁ hm₁ hs).1).imp_right .inr
    · exact .inr (.inl he)
  · rcases hf with hf | hf
    · exact .inl ((hk msg hm hr).2 hroom hf)
    · rcases (hk msg hm hr).1 with ⟨msg₁, hm₁, hs⟩ | he
      exacts [.inr ((step msg₁ hm₁ hs).2 hroom hf), .inl he]

/-- A step that leaves the queue alone and calls no flush callback. -/
theorem of_eq {os : List Obs} (hq : m'.sock.transmitQueue = m.sock.transmitQueue)
    (hl : m'.log = m.log ++ os) (hf : Obs.flushed ∉ os) : KeepsReliable m m' :=
  ⟨os, hl, fun _ hm _ => ⟨.inl (.of_mem (hq ▸ hm)), fun _ h => absurd h hf⟩⟩

/-- A step that leaves the queue and the log alone. -/
theorem of_same (hq : m'.sock.transmitQueue = m.sock.transmitQueue) (hl : m'.log = m.log) :
    KeepsReliable m m' :=
  of_eq hq (by rw [hl, List.append_nil]) (List.not_mem_nil _)

/-- `h` after a field update that keeps the queue and the log. -/
theorem after (h : KeepsReliable m' m'') (hq : m'.sock.transmitQueue = m.sock.transmitQueue)
    (hl : m'.log = m.log) : KeepsReliable m m'' :=
  (of_same hq hl).trans h

end KeepsReliable

/-- The packing loop only adds to the erasures it was given. -/
theorem acked_prefix_encodeCycle (peer : α) (e : Encoder) (count : Nat) (kept : List OutMessage)
    (acked : List SequenceNumber) (encoded : List InMessagePart) (q : List OutMessage) :
    acked <+: (encodeCycle peer e count kept acked encoded q).acked := by
  induction q generalizing e count kept acked encoded with
  | nil => exact List.prefix_refl _
  | cons mi rest ih =>
    unfold encodeCycle
    split
    · exact (List.prefix_append _ _).trans (ih ..)
    · split
      · exact List.prefix_refl _
      · split_ifs
        exacts [List.prefix_refl _, ih .., ih ..]

/-- The packing loop keeps the messages it visited and kept, and every reliable
message it reaches it keeps or erases for an acknowledgement. -/
theorem retained_encodeCycle (peer : α) (e : Encoder) (count : Nat) (kept : List OutMessage)
    (acked : List SequenceNumber) (encoded : List InMessagePart) (q : List OutMessage) :
    (∀ msg ∈ kept, msg.Retained (encodeCycle peer e count kept acked encoded q).queue) ∧
    ∀ msg ∈ q, msg.resendUntilAcked = true →
      msg.Retained (encodeCycle peer e count kept acked encoded q).queue ∨
        msg.sequenceNumber ∈ (encodeCycle peer e count kept acked encoded q).acked := by
  induction q generalizing e count kept acked encoded with
  | nil => exact ⟨fun _ h => .of_mem h, fun _ h => absurd h (List.not_mem_nil _)⟩
  | cons mi rest ih =>
    unfold encodeCycle
    split
    · obtain ⟨hk, hq⟩ := ih e count kept (acked ++ [mi.sequenceNumber]) encoded
      refine ⟨hk, fun msg hm hr => ?_⟩
      rcases List.mem_cons.mp hm with rfl | hm
      · exact .inr ((acked_prefix_encodeCycle ..).subset (by simp))
      · exact hq msg hm hr
    · split
      · refine ⟨fun msg hm => .of_mem (by simp [hm]), fun msg hm _ => .inl (.of_mem ?_)⟩
        rcases List.mem_cons.mp hm with rfl | hm <;> simp [hm]
      · rename_i ht
        obtain ⟨rfl, rfl⟩ := Prod.ext_iff.mp (tryEncode_eq_some ht).2
        have hs := stripped_encode e mi
        split_ifs with hend hres
        · refine ⟨fun msg hm => .of_mem (by simp [hm]), fun msg hm _ => .inl ?_⟩
          rcases List.mem_cons.mp hm with rfl | hm
          exacts [.of_stripped hs (.of_mem (by simp)), .of_mem (by simp [hm])]
        · obtain ⟨hk, hq⟩ := ih _ (count + 1) kept acked _
          refine ⟨hk, fun msg hm hr => ?_⟩
          rcases List.mem_cons.mp hm with rfl | hm
          · simp [hr] at hres
          · exact hq msg hm hr
        · obtain ⟨hk, hq⟩ := ih _ (count + 1) (kept ++ [(encode e mi).2]) acked _
          refine ⟨fun msg hm => hk msg (List.mem_append_left _ hm), fun msg hm hr => ?_⟩
          rcases List.mem_cons.mp hm with rfl | hm
          · exact .inl (.of_stripped hs (hk _ (by simp)))
          · exact hq msg hm hr

/-- When every message it reaches passes `try_encode`'s check and the loop
packs nothing, every one of them was erased for an acknowledgement. -/
theorem acked_of_packedMessages_nil (peer : α) {e : Encoder}
    (hr : OutMessage.headerSize + 1 ≤ e.remainingSize) (count : Nat) (kept : List OutMessage)
    (acked : List SequenceNumber) (encoded : List InMessagePart) (q : List OutMessage)
    (hp : packedMessages peer e q = []) :
    ∀ msg ∈ q, msg.sequenceNumber ∈ (encodeCycle peer e count kept acked encoded q).acked := by
  induction q generalizing acked with
  | nil => exact fun _ h => absurd h (List.not_mem_nil _)
  | cons mi rest ih =>
    unfold packedMessages at hp
    unfold encodeCycle
    split at hp
    · rw [if_pos ‹_›]
      intro msg hm
      rcases List.mem_cons.mp hm with rfl | hm
      · exact (acked_prefix_encodeCycle ..).subset (by simp)
      · exact ih _ hp msg hm
    · have hfit : ¬ OutMessage.headerSize + min 1 mi.payloadSize > e.remainingSize := by
        have := Nat.min_le_left 1 mi.payloadSize; omega
      simp [tryEncode, hfit] at hp

section

variable (m : Machine α)

/-- What `encode_payload` does to the queue, logging its erasures. -/
theorem reliableKept_encodePayload (e : Encoder) :
    ReliableKept m (encodePayload m e).1 ((encodeCycle m.sock.receivedMessageIdsByPeer (e.putU16 0) 0
      [] [] [] m.sock.transmitQueue).acked.map .ackErased) := by
  refine ⟨rfl, fun msg hm hr => ⟨?_, fun _ h => by simp at h⟩⟩
  simpa using (retained_encodeCycle _ _ 0 [] [] [] _).2 msg hm hr

/-- With room for a part, `encode_payload` packs nothing only when it erases
every message of the queue for an acknowledgement. -/
theorem acked_of_encodePayload_count (hroom : AckRoom α)
    (h : (encodePayload m (ackEncoder m.sock.receivedMessageIds)).2.2 = 0) :
    ∀ msg ∈ m.sock.transmitQueue, msg.sequenceNumber ∈ (encodeCycle m.sock.receivedMessageIdsByPeer
      ((ackEncoder m.sock.receivedMessageIds).putU16 0) 0 [] [] [] m.sock.transmitQueue).acked := by
  have hr := hroom m.sock.receivedMessageIds
  have h0 := ackEncoder_putU16 m.sock.receivedMessageIds 0 (by omega)
  have hc := count_encodeCycle m.sock.receivedMessageIdsByPeer
    ((ackEncoder m.sock.receivedMessageIds).putU16 0) 0 [] [] [] m.sock.transmitQueue
  refine acked_of_packedMessages_nil _ ?_ 0 [] [] [] _ (List.eq_nil_of_length_eq_zero (by
    simp only [encodePayload] at h; omega))
  rw [h0]
  simp only [Encoder.remainingSize, List.length_append, length_beBytes]
  omega

theorem keepsReliable_startSending : KeepsReliable m (startSending m) := by
  have hk := reliableKept_encodePayload m
    ((Encoder.ofCapacity packetSize).putBytes (AckSet.encode m.sock.receivedMessageIds))
  have hc : AckRoom α → (encodePayload m ((Encoder.ofCapacity packetSize).putBytes
      (AckSet.encode m.sock.receivedMessageIds))).2.2 = 0 → _ := acked_of_encodePayload_count m
  unfold startSending
  generalize encodePayload m _ = r at hk hc ⊢
  dsimp only
  split_ifs with h1 h2 h3 h4
  · exact .refl m
  · exact .refl m
  · -- the flush callback: every reliable message was erased for an acknowledgement
    refine ⟨_ ++ [.flushed], by rw [hk.1]; exact List.append_assoc _ _ _, fun msg hm hr => ⟨?_, fun hroom _ => ?_⟩⟩
    · simpa [ackErasedSns] using (hk.2 msg hm hr).1
    · simp only [ackErasedSns_append, ackErasedSns_map_ackErased, List.mem_append]
      exact .inl (hc hroom h3.1 msg hm)
  · exact KeepsReliable.trans ⟨_, hk⟩ (.of_eq rfl (List.append_nil _).symm (List.not_mem_nil _))
  · exact KeepsReliable.trans ⟨_, hk⟩ (.of_eq rfl rfl (by simp))

end

theorem keepsReliable_addMessage (m : Machine α) (msg : OutMessage) :
    KeepsReliable m (addMessage msg m) :=
  ⟨[], (List.append_nil _).symm, fun _ hm _ =>
    ⟨.inl (.of_mem (List.mem_append_left _ hm)), fun _ h => absurd h (List.not_mem_nil _)⟩⟩

section

variable (m : Machine α)

theorem keepsReliable_errorCallbacks (err : ErrorCode) : KeepsReliable m (errorCallbacks err m) := by
  simp only [errorCallbacks, callSecond]
  split_ifs <;> first | exact .of_same rfl rfl | exact .of_eq rfl rfl (by simp)

theorem keepsReliable_userHandleReliableMsg (full : InMessageFull) (r : Bool) :
    KeepsReliable m (userHandleReliableMsg full r m) := by
  unfold userHandleReliableMsg
  split_ifs <;> first | exact .of_same rfl rfl | exact .of_eq rfl rfl (by simp)

theorem keepsReliable_replayPendingMessages (after : Option SequenceNumber) :
    KeepsReliable m (replayPendingMessages after m) := by
  dsimp only [replayPendingMessages]
  repeat' split
  all_goals first | exact .refl _ | exact keepsReliable_userHandleReliableMsg _ _ _

theorem keepsReliable_handleUnreliableMessage (msg : InMessagePart) :
    KeepsReliable m (handleUnreliableMessage msg m) := by
  rcases handleUnreliableMessage_cases msg m with h | ⟨y, -, -, ⟨pm, -, h⟩ | ⟨p, slot, -, h⟩⟩ <;>
    rw [h]
  · exact .refl m
  · exact .of_same rfl rfl
  · exact .of_eq rfl rfl (by simp)

theorem keepsReliable_close {m' : Machine α} (h : close m = some m') : KeepsReliable m m' := by
  rcases close_cases m with ⟨-, -, hc⟩ | ⟨-, hc⟩ | ⟨-, hc⟩ <;> rw [hc] at h <;> cases h
  exacts [.of_eq rfl rfl (by simp), .of_same rfl rfl]

theorem keepsReliable_userClose : KeepsReliable m ((close m).getD m) := by
  cases h : close m
  exacts [.refl m, keepsReliable_close m h]

theorem keepsReliable_handleError (err : ErrorCode) : KeepsReliable m (handleError err m) := by
  rcases handleError_cases err m with ⟨-, h⟩ | ⟨m', hc, h⟩ <;> rw [h]
  · exact .of_same rfl rfl
  · exact (keepsReliable_close m hc).trans (keepsReliable_errorCallbacks _ err)

theorem keepsReliable_handleReliableMessage (msg : InMessagePart) :
    KeepsReliable m (handleReliableMessage msg m) := by
  dsimp only [handleReliableMessage]
  repeat' split
  all_goals first
    | exact .of_same rfl rfl
    | exact (keepsReliable_userHandleReliableMsg _ _ _).after rfl rfl
    | exact (keepsReliable_replayPendingMessages _ _).after rfl rfl

theorem keepsReliable_handleMessage (msg : InMessagePart) : KeepsReliable m (handleMessage msg m) := by
  unfold handleMessage
  split
  · simp only [handleSyncMessage]
    split <;> first | exact .of_same rfl rfl | exact .of_eq rfl rfl (by simp)
  · exact .of_same rfl rfl
  · exact (keepsReliable_handleUnreliableMessage _ _).after rfl rfl
  · exact (keepsReliable_handleReliableMessage _ _).after rfl rfl
  · exact (keepsReliable_handleError _ _).after rfl rfl
  · exact keepsReliable_handleError _ _

theorem keepsReliable_receiveLoop (rest : List UInt8) (n : Nat) :
    KeepsReliable m (receiveLoop rest n m) := by
  cases n with
  | zero => exact .of_eq rfl rfl (by simp)
  | succ n =>
    simp only [receiveLoop]
    split
    · exact keepsReliable_handleError _ _
    · exact (keepsReliable_handleMessage _ _).after rfl rfl

theorem keepsReliable_onReceive (err : Option ErrorCode) : KeepsReliable m (onReceive err m) := by
  dsimp only [onReceive]
  split
  · exact .refl m
  · split
    · exact (keepsReliable_errorCallbacks _ _).after rfl rfl
    · split
      · exact .of_eq rfl rfl (by simp)
      · split
        · exact (keepsReliable_handleError _ _).after rfl rfl
        · exact (keepsReliable_receiveLoop _ _ _).after rfl rfl

end

section

variable (m : Machine α)

theorem keepsReliable_runFrame (f : Frame) : KeepsReliable m (runFrame f m) := by
  cases f with
  | afterMessage r n =>
    simp only [runFrame]
    split_ifs
    · exact .refl m
    · exact .refl m
    · exact keepsReliable_receiveLoop _ _ _
  | handleMessageTail =>
    simp only [runFrame]
    split_ifs
    · exact .refl m
    · exact keepsReliable_startSending m
  | reliableDelivered sn r =>
    dsimp only [runFrame, reliableDelivered]
    split_ifs
    · exact .refl m
    all_goals exact (keepsReliable_replayPendingMessages _ _).after rfl rfl
  | unreliableDelivered sn =>
    simp only [runFrame, unreliableDelivered]; split_ifs <;> exact .of_same rfl rfl
  | afterFlush =>
    simp only [runFrame, startKeepaliveAlarm]; split_ifs <;> exact .of_same rfl rfl
  | errorSecond r2 err =>
    simp only [runFrame, callSecond]
    split_ifs <;> first | exact .of_same rfl rfl | exact .of_eq rfl rfl (by simp)
  | punchAfterSend => exact .of_eq rfl (List.append_assoc _ _ _) (by simp)
  | user h => exact .refl m

theorem keepsReliable_userCall (c : UserCall) : KeepsReliable m (userCall c m) := by
  cases c with
  | rendezvousConnect ep => exact .of_eq rfl rfl (by simp)
  | sendReliable data | sendUnreliable data =>
    dsimp only [userCall, sendReliable, sendUnreliable]
    exact ((keepsReliable_addMessage _ _).trans (keepsReliable_startSending _)).after rfl rfl
  | close => exact keepsReliable_userClose m
  | receiveReliable | receiveUnreliable | flush | destroy => exact .of_same rfl rfl

theorem keepsReliable_onPunch (syn : OutMessage) (result : Except ErrorCode UdpEndpoint) :
    KeepsReliable m (onPunch syn result m) := by
  cases result with
  | error e => exact .of_eq rfl rfl (by simp)
  | ok ep =>
    refine .trans ?_ (keepsReliable_startSending _)
    exact ⟨[], (List.append_nil _).symm, fun _ hm _ =>
      ⟨.inl (.of_mem (by simp [hm])), fun _ h => absurd h (List.not_mem_nil _)⟩⟩

theorem keepsReliable_onTimer (aborted : Bool) : KeepsReliable m (onTimer aborted m) := by
  simp only [onTimer]
  split_ifs
  · exact .of_same rfl rfl
  · exact .of_same rfl rfl
  · exact (keepsReliable_startSending _).after rfl rfl

end

/-- Every step keeps the reliable messages of the queue, or logs their erasure
for an acknowledgement. -/
theorem keepsReliable_step {m m' : Machine α} {ev : Event} (h : step m ev = some m') :
    KeepsReliable m m' := by
  cases ev with
  | call c => obtain ⟨-, rfl⟩ := step_call h; exact keepsReliable_userCall m c
  | returned => obtain ⟨hk, rest, -, rfl⟩ := step_returned h; exact .of_same rfl rfl
  | resume =>
    obtain ⟨f, rest, -, rfl⟩ := step_resume h
    exact (keepsReliable_runFrame _ f).after rfl rfl
  | received err src d =>
    obtain ⟨-, rfl⟩ := step_received h
    split_ifs <;> exact (keepsReliable_onReceive _ _).after rfl rfl
  | sent err =>
    obtain ⟨-, rfl⟩ := step_sent h
    exact .of_same (by simp only [onSend]; split_ifs <;> rfl) (by simp only [onSend]; split_ifs <;> rfl)
  | timerExpired a => obtain ⟨-, rfl⟩ := step_timerExpired h; exact keepsReliable_onTimer m a
  | keepaliveAlarm =>
    obtain ⟨-, rfl⟩ := step_keepaliveAlarm h
    exact ((keepsReliable_addMessage _ _).trans (keepsReliable_startSending _)).after rfl rfl
  | recvTimeoutAlarm =>
    obtain ⟨-, rfl⟩ := step_recvTimeoutAlarm h
    exact (keepsReliable_handleError _ _).after rfl rfl
  | punched i r =>
    obtain ⟨syn, -, -, rfl⟩ := step_punched h
    exact (keepsReliable_onPunch _ syn r).after rfl rfl

theorem keepsReliable_run {m m' : Machine α} {evs : List Event} (h : run m evs = some m') :
    KeepsReliable m m' := by
  induction evs generalizing m with
  | nil => cases h; exact .refl _
  | cons ev evs ih =>
    simp only [run] at h
    cases hs : step m ev with
    | none => simp [hs] at h
    | some m₁ => exact (keepsReliable_step hs).trans (ih (by simpa [hs] using h))

/-- Over every run, from any state, a message queued with `resend_until_acked`
is still queued, its cursor perhaps moved, or the run erased it for an
acknowledgement and logged its number: no code drops it otherwise. -/
theorem reliable_stays_queued_until_acked {m m' : Machine α} {evs : List Event}
    (h : run m evs = some m') :
    ∃ os, m'.log = m.log ++ os ∧
      ∀ msg ∈ m.sock.transmitQueue, msg.resendUntilAcked = true →
        msg.Retained m'.sock.transmitQueue ∨ msg.sequenceNumber ∈ ackErasedSns os :=
  let ⟨os, hl, hk⟩ := keepsReliable_run h
  ⟨os, hl, fun msg hm hr => (hk msg hm hr).1⟩

/-- A reliable message sent with no peer yet is sent, its send completes, the
retransmission timer fires and it is sent again: it stays queued. -/
theorem reliable_kept_over_resend :
    ∃ m m' : Machine RecentAckSet, run init [.call (.sendReliable [5])] = some m ∧
      run m [.sent none, .timerExpired false, .sent none] = some m' ∧
      m.sock.transmitQueue.map OutMessage.sequenceNumber = [0] ∧
      ∃ os, m'.log = m.log ++ os ∧
        ∀ msg ∈ m.sock.transmitQueue, msg.resendUntilAcked = true →
          msg.Retained m'.sock.transmitQueue ∨ msg.sequenceNumber ∈ ackErasedSns os := by
  obtain ⟨m, hm, hq, m', hm'⟩ : ∃ m : Machine RecentAckSet,
      run init [.call (.sendReliable [5])] = some m ∧
        m.sock.transmitQueue.map OutMessage.sequenceNumber = [0] ∧
        ∃ m', run m [.sent none, .timerExpired false, .sent none] = some m' :=
    ⟨_, rfl, rfl, _, rfl⟩
  exact ⟨m, m', hm, hm', hq, reliable_stays_queued_until_acked hm'⟩

end SocketImpl

open SocketImpl

variable {α : Type} [AckSet α]

/-- Over a run of two endpoints, each endpoint's steps keep its reliable
messages. -/
theorem keepsReliable_link_run {w w' : Link α} {evs : List Link.Event} (h : Link.run w evs = some w')
    (side : Side) : KeepsReliable (w.get side) (w'.get side) := by
  induction evs generalizing w with
  | nil => cases h; exact .refl _
  | cons ev evs ih =>
    simp only [Link.run] at h
    cases hs : Link.step w ev with
    | none => simp [hs] at h
    | some w₁ =>
      refine KeepsReliable.trans ?_ (ih (by simpa [hs] using h))
      obtain ⟨side', ev', m', hm, rfl, -⟩ := Link.step_cases hs
      rcases Side.eq_or_eq_other side side' with rfl | rfl
      · simpa using keepsReliable_step hm
      · simpa using .refl _

variable [LawfulAckSet α]

/-- Over any run of two endpoints, with any loss, duplication and reordering of
their datagrams: a reliable message queued at one endpoint is still queued there
later, or the other endpoint had taken in its number, as its sync number or
through its reliable callback. When ack sets leave room for one part, the flush
callback runs only once the other endpoint took in every reliable message
queued before. -/
theorem reliable_taken_in_before_flush {w w' : Link α} {evs : List Link.Event}
    (hw : Link.Reachable w) (h : Link.run w evs = some w') (side : Side) :
    ∃ os, (w'.get side).log = (w.get side).log ++ os ∧
      ∀ msg ∈ (w.get side).sock.transmitQueue, msg.resendUntilAcked = true →
        (msg.Retained (w'.get side).sock.transmitQueue ∨
            Known (w'.get side.other).log msg.sequenceNumber) ∧
          (AckRoom α → Obs.flushed ∈ os → Known (w'.get side.other).log msg.sequenceNumber) := by
  obtain ⟨os, hl, hk⟩ := keepsReliable_link_run h side
  have he := ((linkInv_reachable (Link.reachable_run hw h)).acked side).erased
  have known : ∀ s ∈ ackErasedSns os, Known (w'.get side.other).log s :=
    fun s hs => he s (by simp [hl, hs])
  exact ⟨os, hl, fun msg hm hr =>
    ⟨(hk msg hm hr).1.imp_right (known _), fun hroom hf => known _ ((hk msg hm hr).2 hroom hf)⟩⟩

/-- A `RecentAckSet` holds at most 32 numbers, so it leaves room for one part. -/
theorem RecentAckSet.ackRoom : AckRoom RecentAckSet := fun a => by
  rw [RecentAckSet.encode_length]
  have := a.bounded
  simp only [packetSize, OutMessage.headerSize]
  omega

set_option maxRecDepth 20000 in
/-- Both endpoints connect; one sends the reliable message 1 and asks for a
flush. The other takes in the sync and the message and acknowledges them, and
only then does the flush callback run. -/
theorem flush_after_peer_took_in_message :
    let evs₀ : List Link.Event :=
      [.endpoint .a (.call (.rendezvousConnect ⟨.host 2, 7⟩)),
       .endpoint .b (.call (.rendezvousConnect ⟨.host 1, 7⟩)),
       .endpoint .a (.punched 0 (.ok ⟨.host 2, 7⟩)), .endpoint .a .resume, .endpoint .a .returned,
       .endpoint .b (.punched 0 (.ok ⟨.host 1, 7⟩)), .endpoint .b .resume, .endpoint .b .returned,
       .endpoint .b (.call .receiveReliable),
       .endpoint .a (.sent none), .endpoint .a (.timerExpired false),
       .endpoint .a (.call (.sendReliable [5]))]
    let evs : List Link.Event :=
      [.endpoint .a (.call .flush), .endpoint .a (.sent none), .endpoint .a (.timerExpired false),
       .deliver .b ⟨.host 1, 7⟩ 3, .endpoint .b .resume, .endpoint .b .resume,
       .endpoint .b .returned, .endpoint .b .resume, .endpoint .b .resume, .endpoint .b .resume,
       .endpoint .b (.sent none), .endpoint .b (.timerExpired false),
       .deliver .a ⟨.host 2, 7⟩ 2, .endpoint .a .resume, .endpoint .a .resume,
       .endpoint .a (.sent none), .endpoint .a (.timerExpired false),
       .endpoint .a (.sent none), .endpoint .a (.timerExpired false)]
    ∃ w w' : Link RecentAckSet, Link.run Link.init evs₀ = some w ∧ Link.run w evs = some w' ∧
      (w.get .a).sock.transmitQueue.map OutMessage.sequenceNumber = [0, 1] ∧
      Obs.flushed ∉ (w.get .a).log ∧ Obs.flushed ∈ (w'.get .a).log ∧
      ∃ os, (w'.get .a).log = (w.get .a).log ++ os ∧
        ∀ msg ∈ (w.get .a).sock.transmitQueue, msg.resendUntilAcked = true →
          (msg.Retained (w'.get .a).sock.transmitQueue ∨
              Known (w'.get Side.a.other).log msg.sequenceNumber) ∧
            (AckRoom RecentAckSet → Obs.flushed ∈ os →
              Known (w'.get Side.a.other).log msg.sequenceNumber) := by
  intro evs₀ evs
  obtain ⟨w, hw, hq, hn, w', hw', hf⟩ : ∃ w : Link RecentAckSet, Link.run Link.init evs₀ = some w ∧
      (w.get .a).sock.transmitQueue.map OutMessage.sequenceNumber = [0, 1] ∧
      Obs.flushed ∉ (w.get .a).log ∧
      ∃ w', Link.run w evs = some w' ∧ Obs.flushed ∈ (w'.get .a).log :=
    ⟨_, rfl, rfl, by decide, _, rfl, by decide⟩
  exact ⟨w, w', hw, hw', hq, hn, hf,
    reliable_taken_in_before_flush (Link.reachable_run .init hw) hw' .a⟩

end Club.Transport
