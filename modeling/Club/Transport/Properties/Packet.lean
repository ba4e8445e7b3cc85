import Club.Transport.LawfulAckSet
import Club.Transport.Socket.Step

/-!
The round trip of a packet. `start_sending` writes the ack set, a count
placeholder and the parts the loop of `encode_payload` packs, and then patches
the count in; `construct_packet_with_one_message` writes the ack set, the count 1
and one part. Read back the way `on_receive` reads a datagram, such a packet
gives the ack set, the number of parts packed and the parts themselves, each
with the type, sequence number, total size, offset and bytes that `encode`
wrote.

The element codecs are assumptions: the `AckSet` reads back as written and
leaves room in the packet, and a message's header fields fit their widths on
the wire (`OutMessage.Encodable`). The count needs none: every part takes at
least its 12-byte header, so a packet holds fewer than 2 ^ 16 of them.
-/

namespace Club.Transport

namespace Encoder

theorem putBytes_of_le {e : Encoder} {bs : List UInt8} (he : e.error = false)
    (h : bs.length ≤ e.remainingSize) : e.putBytes bs = { e with written := e.written ++ bs } := by
  simp [putBytes, he, h]

/-- Two writes that fit together are one write. -/
theorem putBytes_putBytes {e : Encoder} {a b : List UInt8} (he : e.error = false)
    (h : (a ++ b).length ≤ e.remainingSize) : (e.putBytes a).putBytes b = e.putBytes (a ++ b) := by
  simp only [List.length_append, remainingSize] at h
  rw [putBytes_of_le he (by simp only [remainingSize]; omega),
    @putBytes_of_le { e with written := e.written ++ a } b he (by simp [remainingSize]; omega),
    putBytes_of_le he (by simp only [remainingSize, List.length_append]; omega), List.append_assoc]

/-- `count_encoder.put<uint16_t>(count)` over the placeholder. -/
theorem patchU16_placeholder (capacity : Nat) (error : Bool) (bs rest : List UInt8) (n : Nat) :
    ((⟨capacity, bs ++ beBytes 2 0 ++ rest, error⟩ : Encoder).patchU16 bs.length n).written =
      bs ++ beBytes 2 n ++ rest := by
  simp [patchU16, List.take_left', List.drop_left']

end Encoder

theorem getBytes_of_length {n : Nat} {x : List UInt8} (h : x.length = n) (rest : List UInt8) :
    getBytes n (x ++ rest) = some (x, rest) := by
  subst h
  simp [getBytes, List.take_left', List.drop_left']

theorem toUInt8_toNat_mod (t : UInt8) : (t.toNat % 256).toUInt8 = t := by
  have h : t.toNat % 256 = t.toNat := Nat.mod_eq_of_lt t.val.isLt
  rw [h]
  exact UInt8.toNat.inj h

namespace OutMessage

/-- The bytes `encode_header_and_payload` writes for `n` payload bytes from
`offset`: the header of §6, then the chunk. -/
def partBytes (m : OutMessage) (offset n : Nat) : List UInt8 :=
  beBytes 1 m.type.tag.toNat ++ beBytes 1 (if m.resendUntilAcked then 1 else 0) ++
    beBytes 4 m.sequenceNumber.toNat ++ beBytes 2 m.payloadSize ++ beBytes 2 offset ++
    beBytes 2 n ++ (m.payload.drop offset).take n

/-- The header fields of a message fit their widths on the wire, and its type
reads back from its tag: what makes the part codec invert
`encode_header_and_payload`. -/
structure Encodable (m : OutMessage) : Prop where
  tag : MessageType.ofTag m.type.tag = m.type
  size : m.payloadSize < 2 ^ 16
  cursor : m.bytesAlreadySent < 2 ^ 16

instance : DecidablePred Encodable := fun m =>
  decidable_of_iff (MessageType.ofTag m.type.tag = m.type ∧ m.payloadSize < 2 ^ 16 ∧
      m.bytesAlreadySent < 2 ^ 16)
    ⟨fun ⟨ht, hs, hc⟩ => ⟨ht, hs, hc⟩, fun ⟨ht, hs, hc⟩ => ⟨ht, hs, hc⟩⟩

theorem length_partBytes (m : OutMessage) (offset n : Nat) :
    (m.partBytes offset n).length = headerSize + min n (m.payloadSize - offset) := by
  simp [partBytes, headerSize, payloadSize, Nat.min_comm]
  omega

/-- With room for the header, `encode_header_and_payload` writes one part and
keeps the encoder sound. -/
theorem encodeHeaderAndPayload_fst (m : OutMessage) {e : Encoder} (offset : Nat)
    (he : e.error = false) (hr : headerSize ≤ e.remainingSize) :
    (m.encodeHeaderAndPayload e offset).1 =
      { e with written := e.written ++ m.partBytes offset (m.encodeHeaderAndPayload e offset).2 } := by
  simp only [encodeHeaderAndPayload, Encoder.putU8, Encoder.putU16, Encoder.putU32, headerSize] at hr ⊢
  have hn := Nat.min_le_left (e.remainingSize - 12) (m.payloadSize - offset)
  repeat rw [Encoder.putBytes_putBytes he (by
    simp only [List.length_append, length_beBytes, List.length_take, List.length_drop]; omega)]
  rw [Encoder.putBytes_of_le he (by
    simp only [List.length_append, length_beBytes, List.length_take, List.length_drop]; omega)]
  simp [partBytes]

/-- A part written by `encode_header_and_payload` reads back as the part of the
chunk it holds; the reliable flag is skipped. -/
theorem decode_partBytes (m : OutMessage) {offset n : Nat} (rest : List UInt8) (hm : m.Encodable)
    (ho : offset < 2 ^ 16) (hn : n ≤ m.payloadSize - offset) :
    InMessagePart.decode (m.partBytes offset n ++ rest) =
      some (⟨m.type, m.sequenceNumber, m.payloadSize, offset, (m.payload.drop offset).take n⟩, rest) := by
  have hs := hm.size
  have hc : ((m.payload.drop offset).take n).length = n := by
    simp only [payloadSize] at hn; simp; omega
  simp only [Nat.reducePow] at hs ho
  have h1 : m.payloadSize % 65536 = m.payloadSize := Nat.mod_eq_of_lt hs
  have h2 : offset % 65536 = offset := Nat.mod_eq_of_lt ho
  have h3 : n % 65536 = n := Nat.mod_eq_of_lt (by omega)
  simp only [InMessagePart.decode, partBytes, List.append_assoc, getNat_beBytes, Nat.reducePow, h1,
    h2, h3, getBytes_of_length hc, bind, Option.bind, toUInt8_toNat_mod, toUInt32_toNat_mod, hm.tag,
    Option.pure_def]

end OutMessage

namespace SocketImpl

variable {α : Type} [AckSet α]

theorem encodeChunk_fst (e : Encoder) (m : OutMessage) :
    (encodeChunk e m).1 = if m.bytesAlreadySent = m.payloadSize then 0 else m.bytesAlreadySent := by
  unfold encodeChunk; split_ifs <;> rfl

theorem encodeChunk_snd (e : Encoder) (m : OutMessage) :
    (encodeChunk e m).2 =
      min (e.remainingSize - OutMessage.headerSize) (m.payloadSize - (encodeChunk e m).1) := by
  unfold encodeChunk; split_ifs <;> rfl

/-- On an encoder that has not failed and has room for a header, `encode`
appends one part and moves the cursor past its chunk. -/
theorem encode_eq (e : Encoder) (m : OutMessage) (he : e.error = false)
    (hr : OutMessage.headerSize ≤ e.remainingSize) :
    encode e m =
      ({ e with written := e.written ++ m.partBytes (encodeChunk e m).1 (encodeChunk e m).2 },
        { m with bytesAlreadySent := (encodeChunk e m).1 + (encodeChunk e m).2 }) := by
  have key : ∀ (m' : OutMessage) (o : Nat), m'.encodeHeaderAndPayload e o =
      ({ e with written := (e.written ++ m'.partBytes o (m'.encodeHeaderAndPayload e o).2) },
        (m'.encodeHeaderAndPayload e o).2) :=
    fun m' o => Prod.ext (OutMessage.encodeHeaderAndPayload_fst m' o he hr) rfl
  unfold encode encodeChunk
  split_ifs
  all_goals (dsimp only; rw [key]; simp only [he, Bool.false_eq_true, ite_false])
  -- the message restarted from 0 writes the same header as before the restart
  rfl

theorem tryEncode_eq_some {e e' : Encoder} {m m' : OutMessage} (h : tryEncode e m = some (e', m')) :
    OutMessage.headerSize + min 1 m.payloadSize ≤ e.remainingSize ∧ encode e m = (e', m') := by
  unfold tryEncode at h
  split_ifs at h with hc
  exact ⟨Nat.not_lt.mp hc, Option.some.inj h⟩

theorem decode_encodedPart (e : Encoder) (m : OutMessage) (hm : m.Encodable) (rest : List UInt8) :
    InMessagePart.decode (m.partBytes (encodeChunk e m).1 (encodeChunk e m).2 ++ rest) =
      some (encodedPart e m, rest) := by
  have hc := hm.cursor
  refine OutMessage.decode_partBytes m rest hm ?_ ?_
  · rw [encodeChunk_fst]; split_ifs <;> omega
  · rw [encodeChunk_snd]; exact Nat.min_le_right _ _

/-- The messages the loop of `encode_payload` encodes, each with the encoder it
is written into, in order. It follows `encodeCycle` branch for branch. -/
def packedMessages (peer : α) : Encoder → List OutMessage → List (Encoder × OutMessage)
  | _, [] => []
  | e, mi :: rest =>
    if mi.resendUntilAcked && AckSet.isIn peer mi.sequenceNumber then packedMessages peer e rest
    else match tryEncode e mi with
      | none => []
      | some (e', mi') =>
        (e, mi) :: if mi'.bytesAlreadySent ≠ mi'.payloadSize then [] else packedMessages peer e' rest

/-- The parts one run of the loop writes, in order. -/
def packedParts (peer : α) (e : Encoder) (q : List OutMessage) : List InMessagePart :=
  (packedMessages peer e q).map fun p => encodedPart p.1 p.2

/-- The loop counts the parts it writes. -/
theorem count_encodeCycle (peer : α) (e : Encoder) (count : Nat) (kept : List OutMessage)
    (acked : List SequenceNumber) (encoded : List InMessagePart) (q : List OutMessage) :
    (encodeCycle peer e count kept acked encoded q).count =
      count + (packedMessages peer e q).length := by
  induction q generalizing e count kept acked encoded with
  | nil => rfl
  | cons mi rest ih =>
    unfold encodeCycle packedMessages
    split
    · exact ih ..
    · rcases tryEncode e mi with _ | ⟨e', mi'⟩
      · rfl
      · dsimp only
        split_ifs <;> simp [ih] <;> omega

/-- The parts `on_receive` reads, in order: `n` times
`decoder.get<InMessagePart>()`. -/
def decodeParts : Nat → List UInt8 → Option (List InMessagePart × List UInt8)
  | 0, bytes => some ([], bytes)
  | n + 1, bytes => do
    let (p, bytes) ← InMessagePart.decode bytes
    let (ps, bytes) ← decodeParts n bytes
    pure (p :: ps, bytes)

/-- The decoding sequence of `on_receive`: the ack set, the count, the parts. -/
def decodePacket (bytes : List UInt8) : Option (α × Nat × List InMessagePart × List UInt8) := do
  let (acks, bytes) ← AckSet.decode bytes
  let (count, bytes) ← getNat 2 bytes
  let (parts, bytes) ← decodeParts count bytes
  pure (acks, count, parts, bytes)

/-- The loop appends the parts it counts, each at least a header long, within
the room the encoder had, and they read back in order. -/
theorem encodeCycle_packs (peer : α) {e : Encoder} (he : e.error = false) (count : Nat)
    (kept : List OutMessage) (acked : List SequenceNumber) (encoded : List InMessagePart)
    (q : List OutMessage) (hq : ∀ m ∈ q, m.Encodable) :
    ∃ bytes, (encodeCycle peer e count kept acked encoded q).encoder =
        { e with written := e.written ++ bytes } ∧
      OutMessage.headerSize * (packedMessages peer e q).length ≤ bytes.length ∧
      bytes.length ≤ e.remainingSize ∧
      ∀ rest, decodeParts (packedMessages peer e q).length (bytes ++ rest) =
        some (packedParts peer e q, rest) := by
  induction q generalizing e count kept acked encoded with
  | nil => exact ⟨[], by simp [encodeCycle], by simp [packedMessages], by simp, fun _ => rfl⟩
  | cons mi rest ih =>
    have hrest : ∀ m ∈ rest, m.Encodable := fun m hm => hq m (.tail _ hm)
    unfold encodeCycle packedParts packedMessages
    split
    · exact ih he count kept _ encoded hrest
    · rcases ht : tryEncode e mi with _ | ⟨e', mi'⟩
      · exact ⟨[], by simp, by simp, by simp, fun _ => rfl⟩
      obtain ⟨hc, henc⟩ := tryEncode_eq_some ht
      rw [encode_eq e mi he (le_trans (Nat.le_add_right _ _) hc), Prod.mk.injEq] at henc
      obtain ⟨rfl, rfl⟩ := henc
      have hpart := decode_encodedPart e mi (hq mi (.head _))
      have hlen := OutMessage.length_partBytes mi (encodeChunk e mi).1 (encodeChunk e mi).2
      have hfit : (mi.partBytes (encodeChunk e mi).1 (encodeChunk e mi).2).length ≤ e.remainingSize := by
        have := encodeChunk_snd e mi
        have := Nat.min_le_right 1 mi.payloadSize
        omega
      generalize mi.partBytes (encodeChunk e mi).1 (encodeChunk e mi).2 = pb at hpart hlen hfit ⊢
      dsimp only
      split_ifs
      · refine ⟨pb, rfl, by simp [hlen], hfit, fun r => ?_⟩
        simp [decodeParts, hpart]
      all_goals
        obtain ⟨bs, hbs, hl, hle, hd⟩ := @ih { e with written := e.written ++ pb } he (count + 1) _
          acked _ hrest
        refine ⟨pb ++ bs, ?_, ?_, ?_, fun r => ?_⟩
        · rw [hbs]; simp
        · simp only [List.length_cons, List.length_append, Nat.mul_succ]; omega
        · simp only [Encoder.remainingSize, List.length_append] at hle hfit ⊢; omega
        · simp only [List.append_assoc, decodeParts, List.length_cons, hpart, bind, Option.bind,
            hd, packedParts, List.map_cons, Option.pure_def]

/-- The encoder `start_sending` and `construct_packet_with_one_message` begin
with: the ack set, at the head of every packet. -/
def ackEncoder (acks : α) : Encoder := (Encoder.ofCapacity packetSize).putBytes (AckSet.encode acks)

theorem ackEncoder_written (acks : α) (h : (AckSet.encode acks).length ≤ packetSize) :
    (ackEncoder acks).written = AckSet.encode acks := by
  simp [ackEncoder, Encoder.putBytes, Encoder.ofCapacity, Encoder.remainingSize, h]

theorem ackEncoder_putU16 (acks : α) (n : Nat) (h : (AckSet.encode acks).length + 2 ≤ packetSize) :
    (ackEncoder acks).putU16 n = ⟨packetSize, AckSet.encode acks ++ beBytes 2 n, false⟩ := by
  have : (AckSet.encode acks).length ≤ packetSize := by omega
  simp [ackEncoder, Encoder.putU16, Encoder.putBytes, Encoder.ofCapacity, Encoder.remainingSize, this]
  omega

/-- What `encode_payload` writes after the ack set: the count, which it also
returns, of the parts it packed, fewer than 2 ^ 16, then those parts, which read
back in order whatever bytes follow them. -/
theorem encodePayload_written (m : Machine α)
    (hroom : (AckSet.encode m.sock.receivedMessageIds).length + 2 ≤ packetSize)
    (hq : ∀ msg ∈ m.sock.transmitQueue, msg.Encodable) :
    let parts := packedParts m.sock.receivedMessageIdsByPeer
      ((ackEncoder m.sock.receivedMessageIds).putU16 0) m.sock.transmitQueue
    (encodePayload m (ackEncoder m.sock.receivedMessageIds)).2.2 = parts.length ∧
      parts.length < 2 ^ 16 ∧ ∃ bytes,
        (encodePayload m (ackEncoder m.sock.receivedMessageIds)).2.1.written =
          AckSet.encode m.sock.receivedMessageIds ++ beBytes 2 parts.length ++ bytes ∧
        ∀ rest, decodeParts parts.length (bytes ++ rest) = some (parts, rest) := by
  intro parts
  have h0 := ackEncoder_putU16 m.sock.receivedMessageIds 0 hroom
  obtain ⟨bytes, henc, hl, hle, hd⟩ := @encodeCycle_packs α _ m.sock.receivedMessageIdsByPeer
    ((ackEncoder m.sock.receivedMessageIds).putU16 0) (by rw [h0]) 0 [] [] [] m.sock.transmitQueue hq
  have hcount := count_encodeCycle m.sock.receivedMessageIdsByPeer
    ((ackEncoder m.sock.receivedMessageIds).putU16 0) 0 [] [] [] m.sock.transmitQueue
  have hlen : parts.length = (packedMessages m.sock.receivedMessageIdsByPeer
      ((ackEncoder m.sock.receivedMessageIds).putU16 0) m.sock.transmitQueue).length :=
    List.length_map _ _
  -- a part is at least a header long, so the count fits its two bytes
  have hsmall : parts.length < 2 ^ 16 := by
    rw [← hlen] at hl
    rw [h0] at hle
    simp only [Encoder.remainingSize, List.length_append, length_beBytes, packetSize,
      OutMessage.headerSize] at hle hl hroom
    omega
  refine ⟨by rw [hlen, ← Nat.zero_add (List.length _), ← hcount]; rfl, hsmall, bytes, ?_,
    by rw [hlen]; exact hd⟩
  show ((encodeCycle _ _ 0 [] [] [] _).encoder.patchU16 _ _).written = _
  rw [henc, hcount, Nat.zero_add, ← hlen, h0, ackEncoder_written _ (by omega)]
  exact Encoder.patchU16_placeholder _ _ _ _ _

/-- `encode_payload` after the ack set: its count, patched over the placeholder,
is the number of parts packed, and the packet reads back as the ack set, that
count and those parts. -/
theorem encodePayload_round_trip
    (hcodec : ∀ (a : α) (rest : List UInt8), AckSet.decode (AckSet.encode a ++ rest) = some (a, rest))
    (m : Machine α) (hroom : (AckSet.encode m.sock.receivedMessageIds).length + 2 ≤ packetSize)
    (hq : ∀ msg ∈ m.sock.transmitQueue, msg.Encodable) :
    let parts := packedParts m.sock.receivedMessageIdsByPeer
      ((ackEncoder m.sock.receivedMessageIds).putU16 0) m.sock.transmitQueue
    (encodePayload m (ackEncoder m.sock.receivedMessageIds)).2.2 = parts.length ∧
      decodePacket (encodePayload m (ackEncoder m.sock.receivedMessageIds)).2.1.written =
        some (m.sock.receivedMessageIds, parts.length, parts, []) := by
  intro parts
  obtain ⟨hc, hsmall, bytes, hw, hd⟩ := encodePayload_written m hroom hq
  have hmod : parts.length % 256 ^ 2 = parts.length := Nat.mod_eq_of_lt hsmall
  have hd0 : decodeParts parts.length bytes = some (parts, []) := by simpa using hd []
  refine ⟨hc, ?_⟩
  rw [hw]
  simp only [decodePacket, List.append_assoc, hcodec, getNat_beBytes, hmod, bind, Option.bind,
    hd0, Option.pure_def]

/-- The datagram `start_sending` hands to `async_send_to` is the packet
`encode_payload` completed. -/
theorem sent_by_startSending {m : Machine α} {os : List Obs} (h : (startSending m).log = m.log ++ os)
    {dst : UdpEndpoint} {d : List UInt8} (hd : Obs.asyncSendTo dst d ∈ os) :
    d = (encodePayload m (ackEncoder m.sock.receivedMessageIds)).2.1.written := by
  rcases startSending_cases m with h' | ⟨-, -, r, m₁, rfl, rfl, h' | h' | h'⟩ <;> rw [h'] at h <;>
    simp [encodePayload, startKeepaliveAlarm] at h <;> subst h <;> simp at hd
  exact hd.2

/-- What `construct_packet_with_one_message` writes after the ack set, where
`try_encode`'s check passes (the source asserts it): the count 1, then the one
part, which reads back whatever bytes follow it. -/
theorem constructPacketWithOneMessage_written (acks : α) (msg : OutMessage)
    (hroom : (AckSet.encode acks).length + 2 + OutMessage.headerSize + min 1 msg.payloadSize ≤ packetSize)
    (hm : msg.Encodable) :
    ∃ bytes, (constructPacketWithOneMessage acks msg).1 = AckSet.encode acks ++ beBytes 2 1 ++ bytes ∧
      ∀ rest, decodeParts 1 (bytes ++ rest) =
        some ([encodedPart ((ackEncoder acks).putU16 1) msg], rest) := by
  have h1 := ackEncoder_putU16 acks 1 (by omega)
  have hc : OutMessage.headerSize + min 1 msg.payloadSize ≤ ((ackEncoder acks).putU16 1).remainingSize := by
    rw [h1]; simp only [Encoder.remainingSize, List.length_append, length_beBytes]; omega
  have ht : tryEncode ((ackEncoder acks).putU16 1) msg = some (encode ((ackEncoder acks).putU16 1) msg) :=
    if_neg (Nat.not_lt.mpr hc)
  refine ⟨msg.partBytes (encodeChunk ((ackEncoder acks).putU16 1) msg).1
    (encodeChunk ((ackEncoder acks).putU16 1) msg).2, ?_, fun rest => ?_⟩
  · unfold constructPacketWithOneMessage
    dsimp only
    rw [show (Encoder.ofCapacity packetSize).putBytes (AckSet.encode acks) = ackEncoder acks from rfl, ht,
      encode_eq _ _ (by rw [h1]) (le_trans (Nat.le_add_right _ _) hc)]
    simp only [h1]
  · simp only [decodeParts, decode_encodedPart _ _ hm, bind, Option.bind, Option.pure_def]

/-- `construct_packet_with_one_message`, where `try_encode`'s check passes (the
source asserts it), reads back as the ack set, the count 1 and the one part. -/
theorem constructPacketWithOneMessage_round_trip
    (hcodec : ∀ (a : α) (rest : List UInt8), AckSet.decode (AckSet.encode a ++ rest) = some (a, rest))
    (acks : α) (msg : OutMessage)
    (hroom : (AckSet.encode acks).length + 2 + OutMessage.headerSize + min 1 msg.payloadSize ≤ packetSize)
    (hm : msg.Encodable) :
    decodePacket (constructPacketWithOneMessage acks msg).1 =
      some (acks, 1, [encodedPart ((ackEncoder acks).putU16 1) msg], []) := by
  obtain ⟨bytes, hw, hd⟩ := constructPacketWithOneMessage_written acks msg hroom hm
  have hd0 := hd []
  rw [List.append_nil] at hd0
  rw [hw]
  simp only [decodePacket, List.append_assoc, hcodec, getNat_beBytes, Nat.reducePow, Nat.reduceMod,
    bind, Option.bind, hd0, Option.pure_def]

/-- Every datagram `start_sending` hands to `async_send_to`, and every packet
`construct_packet_with_one_message` builds, reads back under `on_receive`'s
decoding as the ack set it was built with, the number of parts written, which
`encode_payload` also returns, and those parts in order, as `encode` wrote
them. -/
theorem packet_round_trip
    (hcodec : ∀ (a : α) (rest : List UInt8), AckSet.decode (AckSet.encode a ++ rest) = some (a, rest)) :
    (∀ (m : Machine α) (os : List Obs) (dst : UdpEndpoint) (d : List UInt8),
      (AckSet.encode m.sock.receivedMessageIds).length + 2 ≤ packetSize →
      (∀ msg ∈ m.sock.transmitQueue, msg.Encodable) →
      (startSending m).log = m.log ++ os → Obs.asyncSendTo dst d ∈ os →
      let parts := packedParts m.sock.receivedMessageIdsByPeer
        ((ackEncoder m.sock.receivedMessageIds).putU16 0) m.sock.transmitQueue
      (encodePayload m (ackEncoder m.sock.receivedMessageIds)).2.2 = parts.length ∧
        decodePacket d = some (m.sock.receivedMessageIds, parts.length, parts, [])) ∧
    ∀ (acks : α) (msg : OutMessage),
      (AckSet.encode acks).length + 2 + OutMessage.headerSize + min 1 msg.payloadSize ≤ packetSize →
      msg.Encodable →
      decodePacket (constructPacketWithOneMessage acks msg).1 =
        some (acks, 1, [encodedPart ((ackEncoder acks).putU16 1) msg], []) := by
  refine ⟨fun m os dst d hroom hq h hd => ?_, constructPacketWithOneMessage_round_trip hcodec⟩
  rw [sent_by_startSending h hd]
  exact encodePayload_round_trip hcodec m hroom hq

set_option maxRecDepth 20000 in
/-- An unreliable and a reliable message queued on a new endpoint go out in
one packet, which reads back as both parts whole. -/
theorem packet_round_trip_two_messages :
    @decodePacket RecentAckSet _
        [0, 0, 0, 2, 2, 0, 0, 0, 0, 1, 0, 2, 0, 0, 0, 2, 4, 5, 3, 1, 0, 0, 0, 0, 0, 3, 0, 0, 0, 3, 1, 2, 3] =
      some (AckSet.empty, 2, [⟨.unreliable, 1, 2, 0, [4, 5]⟩, ⟨.reliable, 0, 3, 0, [1, 2, 3]⟩], []) :=
  ((packet_round_trip RecentAckSet.decode_encode).1
    (addMessage (.new true .reliable 0 [1, 2, 3]) (addMessage (.new false .unreliable 1 [4, 5]) init))
    _ .none _ (by decide) (by decide)
    rfl (.head _)).2

end SocketImpl

end Club.Transport
