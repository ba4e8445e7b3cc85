import Club.Transport.LawfulAckSet
import Club.Transport.Link
import Club.Transport.Socket.Quiet

/-!
What one endpoint tells its peer through acknowledgements, and what it does
with what the peer tells it. An endpoint's ack set and every ack set it writes
at the head of a datagram list only numbers it has taken in (its sync number,
or a reliable message whose callback was invoked): it adds a number only in
`handle_sync_message` and after a reliable callback returns, and it encodes its
current set first into every packet it builds. In the other direction, the
peer's ack set changes only in `handle_acks`, and `encode_payload` erases a
message only when its number is in that set.

`Follows m m'` says this of one piece of code run from `m`, and each function
gets one lemma; `on_receive`, which runs `handle_acks`, is the one exception.
-/

namespace Club.Transport

def ackErasedSns : List Obs → List SequenceNumber
  | [] => []
  | .ackErased sn :: os => sn :: ackErasedSns os
  | _ :: os => ackErasedSns os

@[simp] theorem ackErasedSns_append (os os' : List Obs) :
    ackErasedSns (os ++ os') = ackErasedSns os ++ ackErasedSns os' := by
  induction os using ackErasedSns.induct <;> simp [ackErasedSns, *]

@[simp] theorem ackErasedSns_map_ackErased (sns : List SequenceNumber) :
    ackErasedSns (sns.map .ackErased) = sns := by
  induction sns <;> simp [ackErasedSns, *]

@[simp] theorem datagrams_map_ackErased (sns : List SequenceNumber) :
    datagrams (sns.map .ackErased) = [] := by
  induction sns <;> simp [datagrams, *]

/-- The numbers an endpoint has taken in from its peer: the sync number
recorded by `handle_sync_message`, and those of the reliable messages passed to
its callback. -/
def Known (os : List Obs) (s : SequenceNumber) : Prop := s ∈ syncedSns os ∨ s ∈ reliableSns os

theorem Known.mono {os os' : List Obs} (h : os <+: os') {s : SequenceNumber} (hk : Known os s) :
    Known os' s := by
  obtain ⟨t, rfl⟩ := h
  rcases hk with hk | hk
  exacts [.inl (by simp [hk]), .inr (by simp [hk])]

theorem mem_reliableFrames_cons {s : SequenceNumber} {f : Frame} {fs : List Frame}
    (h : s ∈ reliableFrames fs) : s ∈ reliableFrames (f :: fs) := by
  cases f <;> simp [reliableFrames, h]

namespace Encoder

theorem written_putBytes (bs : List UInt8) (e : Encoder) : e.written <+: (e.putBytes bs).written := by
  unfold putBytes; split_ifs <;> simp

theorem written_ofCapacity_putBytes {bs : List UInt8} {c : Nat} (h : bs.length ≤ c) :
    ((ofCapacity c).putBytes bs).written = bs := by
  simp [putBytes, ofCapacity, remainingSize, h]

/-- Patching the count placeholder keeps the bytes before it. -/
theorem prefix_patchU16 {bs : List UInt8} {e : Encoder} (h : bs <+: e.written) (n : Nat) :
    bs <+: (e.patchU16 bs.length n).written := by
  obtain ⟨t, ht⟩ := h
  simp [patchU16, ← ht]

end Encoder

namespace SocketImpl

variable {α : Type} [AckSet α]

theorem written_encodeHeaderAndPayload (msg : OutMessage) (e : Encoder) (offset : Nat) :
    e.written <+: (msg.encodeHeaderAndPayload e offset).1.written := by
  simp only [OutMessage.encodeHeaderAndPayload, Encoder.putU8, Encoder.putU16, Encoder.putU32]
  repeat refine List.IsPrefix.trans ?_ (Encoder.written_putBytes _ _)
  exact List.prefix_refl _

theorem written_encode (e : Encoder) (msg : OutMessage) : e.written <+: (encode e msg).1.written := by
  unfold encode
  generalize (if msg.bytesAlreadySent = msg.payloadSize then _ else msg) = msg
  dsimp only
  have h := written_encodeHeaderAndPayload msg e msg.bytesAlreadySent
  generalize msg.encodeHeaderAndPayload e msg.bytesAlreadySent = x at h ⊢
  obtain ⟨e', n⟩ := x
  split_ifs <;> exact h

theorem written_tryEncode {e e' : Encoder} {msg msg' : OutMessage}
    (h : tryEncode e msg = some (e', msg')) : e.written <+: e'.written := by
  unfold tryEncode at h
  split_ifs at h
  have he : (encode e msg).1 = e' := congrArg Prod.fst (Option.some.inj h)
  exact he ▸ written_encode e msg

/-- The packing loop only appends to what is already written. -/
theorem written_encodeCycle (peer : α) (e : Encoder) (count : Nat) (kept : List OutMessage)
    (acked : List SequenceNumber) (encoded : List InMessagePart) (q : List OutMessage) :
    e.written <+: (encodeCycle peer e count kept acked encoded q).encoder.written := by
  induction q generalizing e count kept acked encoded with
  | nil => exact List.prefix_refl _
  | cons mi rest ih =>
    unfold encodeCycle
    split
    · exact ih ..
    · split
      · exact List.prefix_refl _
      · have he := written_tryEncode ‹_›
        split_ifs
        exacts [he, he.trans (ih ..), he.trans (ih ..)]

/-- The packing loop erases a message for an acknowledgement only when the
peer's ack set holds its number. -/
theorem acked_encodeCycle (peer : α) (e : Encoder) (count : Nat) (kept : List OutMessage)
    (acked : List SequenceNumber) (encoded : List InMessagePart) (q : List OutMessage) :
    ∀ s ∈ (encodeCycle peer e count kept acked encoded q).acked,
      s ∈ acked ∨ AckSet.isIn peer s = true := by
  induction q generalizing e count kept acked encoded with
  | nil => exact fun s hs => .inl hs
  | cons mi rest ih =>
    unfold encodeCycle
    split
    · rename_i hc
      have hin : AckSet.isIn peer mi.sequenceNumber = true := (Bool.and_eq_true_iff.mp hc).2
      intro s hs
      rcases ih _ _ _ _ _ s hs with hs | hs
      · rcases List.mem_append.mp hs with hs | hs
        · exact .inl hs
        · exact .inr (List.mem_singleton.mp hs ▸ hin)
      · exact .inr hs
    · split
      · exact fun s hs => .inl hs
      · split_ifs
        exacts [fun s hs => .inl hs, ih _ _ _ _ _, ih _ _ _ _ _]

theorem prefix_encodePayload (m : Machine α) (e : Encoder) :
    e.written <+: (encodePayload m e).2.1.written :=
  Encoder.prefix_patchU16 ((Encoder.written_putBytes _ _).trans (written_encodeCycle ..)) _

/-- The packet of one message starts with the ack set it is given. -/
theorem constructPacketWithOneMessage_prefix [LawfulAckSet α] (acks : α) (msg : OutMessage) :
    ∃ rest, (constructPacketWithOneMessage acks msg).1 = AckSet.encode acks ++ rest := by
  have h0 := Encoder.written_ofCapacity_putBytes (LawfulAckSet.encode_fits acks)
  obtain ⟨rest, h⟩ : AckSet.encode acks <+: (constructPacketWithOneMessage acks msg).1 := by
    rw [← h0]
    refine (Encoder.written_putBytes (beBytes 2 1) _).trans ?_
    unfold constructPacketWithOneMessage
    dsimp only
    split
    · exact List.prefix_refl _
    · exact written_tryEncode ‹_›
  exact ⟨rest, h.symm⟩

/-- What an endpoint has told the network holds of its own log: the ack set it
keeps and every ack set at the head of a datagram it wrote list only numbers it
has taken in, and a reliable callback still running was logged. -/
structure Honest (m : Machine α) : Prop where
  ids : ∀ s, AckSet.isIn m.sock.receivedMessageIds s = true → Known m.log s
  frames : ∀ s ∈ reliableFrames m.stack, s ∈ reliableSns m.log
  sent : ∀ d ∈ datagrams m.log, ∃ (a : α) (rest : List UInt8),
    d = AckSet.encode a ++ rest ∧ ∀ s, AckSet.isIn a s = true → Known m.log s

/-- Everything an endpoint holds as acknowledged by its peer, and every message
it erased for that, is in `T`. -/
structure Acked (T : SequenceNumber → Prop) (m : Machine α) : Prop where
  peer : ∀ s, AckSet.isIn m.sock.receivedMessageIdsByPeer s = true → T s
  erased : ∀ s ∈ ackErasedSns m.log, T s

theorem Acked.mono {T T' : SequenceNumber → Prop} {m : Machine α} (h : Acked T m)
    (hT : ∀ s, T s → T' s) : Acked T' m :=
  ⟨fun s hs => hT s (h.peer s hs), fun s hs => hT s (h.erased s hs)⟩

/-- `m'` follows `m`: the log only grows, the peer's ack set is kept, a message
is erased only for a number in it, and honesty is kept. -/
structure Follows (m m' : Machine α) : Prop where
  log : m.log <+: m'.log
  peer : m'.sock.receivedMessageIdsByPeer = m.sock.receivedMessageIdsByPeer
  erased : ∀ s ∈ ackErasedSns m'.log,
    s ∈ ackErasedSns m.log ∨ AckSet.isIn m.sock.receivedMessageIdsByPeer s = true
  honest : Honest m → Honest m'

namespace Follows

variable {m m' m'' : Machine α}

theorem refl (m : Machine α) : Follows m m := ⟨List.prefix_refl _, rfl, fun _ h => .inl h, id⟩

theorem trans (h : Follows m m') (h' : Follows m' m'') : Follows m m'' :=
  ⟨h.log.trans h'.log, h'.peer.trans h.peer,
    fun s hs => (h'.erased s hs).elim (h.erased s) fun hp => .inr (h.peer ▸ hp),
    h'.honest ∘ h.honest⟩

theorem acked {T : SequenceNumber → Prop} (h : Follows m m') (ha : Acked T m) : Acked T m' :=
  ⟨fun s hs => ha.peer s (h.peer ▸ hs), fun s hs => (h.erased s hs).elim (ha.erased s) (ha.peer s)⟩

/-- A piece of code that appends `os` to the log: the datagrams among them start
with the endpoint's ack set, the erasures are of numbers the peer acknowledged,
a number enters the ack set only once taken in, and a reliable frame is pushed
only with its delivery logged. -/
theorem of_log (os : List Obs) (hl : m'.log = m.log ++ os)
    (hd : ∀ d ∈ datagrams os, ∃ rest, d = AckSet.encode m.sock.receivedMessageIds ++ rest)
    (he : ∀ s ∈ ackErasedSns os, AckSet.isIn m.sock.receivedMessageIdsByPeer s = true)
    (hp : m'.sock.receivedMessageIdsByPeer = m.sock.receivedMessageIdsByPeer)
    (hids : ∀ s, AckSet.isIn m'.sock.receivedMessageIds s = true →
      AckSet.isIn m.sock.receivedMessageIds s = true ∨ Known m'.log s)
    (hfr : ∀ s ∈ reliableFrames m'.stack, s ∈ reliableFrames m.stack ∨ s ∈ reliableSns m'.log) :
    Follows m m' := by
  have hpre : m.log <+: m'.log := hl ▸ List.prefix_append _ _
  refine ⟨hpre, hp, fun s hs => ?_, fun h => ⟨fun s hs => ?_, fun s hs => ?_, fun d hd' => ?_⟩⟩
  · rw [hl, ackErasedSns_append, List.mem_append] at hs
    exact hs.imp_right (he s)
  · exact (hids s hs).elim (fun h' => (h.ids s h').mono hpre) id
  · refine (hfr s hs).elim (fun h' => ?_) id
    rw [hl, reliableSns_append]
    exact List.mem_append_left _ (h.frames s h')
  · rw [hl, datagrams_append, List.mem_append] at hd'
    rcases hd' with hd' | hd'
    · obtain ⟨a, rest, rfl, ha⟩ := h.sent d hd'
      exact ⟨a, rest, rfl, fun s hs => (ha s hs).mono hpre⟩
    · obtain ⟨rest, rfl⟩ := hd d hd'
      exact ⟨_, rest, rfl, fun s hs => (h.ids s hs).mono hpre⟩

/-- A piece of code that logs no datagram and no erasure and leaves both ack
sets and the reliable frames alone. -/
theorem plain (os : List Obs) (hl : m'.log = m.log ++ os) (hd : datagrams os = [])
    (he : ackErasedSns os = [])
    (hp : m'.sock.receivedMessageIdsByPeer = m.sock.receivedMessageIdsByPeer)
    (hids : m'.sock.receivedMessageIds = m.sock.receivedMessageIds)
    (hfr : reliableFrames m'.stack = reliableFrames m.stack) : Follows m m' :=
  .of_log os hl (by simp [hd]) (by simp [he]) hp (fun _ h => .inl (hids ▸ h))
    (fun _ h => .inl (hfr ▸ h))

theorem same (hl : m'.log = m.log)
    (hp : m'.sock.receivedMessageIdsByPeer = m.sock.receivedMessageIdsByPeer)
    (hids : m'.sock.receivedMessageIds = m.sock.receivedMessageIds)
    (hfr : reliableFrames m'.stack = reliableFrames m.stack) : Follows m m' :=
  .plain [] (by rw [hl, List.append_nil]) rfl rfl hp hids hfr

/-- `h` after a field update that logs nothing. -/
theorem after (h : Follows m' m'') (hl : m'.log = m.log)
    (hp : m'.sock.receivedMessageIdsByPeer = m.sock.receivedMessageIdsByPeer)
    (hids : m'.sock.receivedMessageIds = m.sock.receivedMessageIds)
    (hfr : reliableFrames m'.stack = reliableFrames m.stack) : Follows m m'' :=
  (same hl hp hids hfr).trans h

end Follows

end SocketImpl

end Club.Transport
