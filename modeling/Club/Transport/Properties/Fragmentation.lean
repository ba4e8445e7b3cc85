import Club.Transport.Properties.Packet

/-!
The fragmentation cursor. `encode` writes a message's payload in chunks from
`bytes_already_sent` on, moves the cursor past each chunk, and starts over from
0 only once the cursor reached the payload's end; `encode_payload` erases a
message that is not resent as soon as that happens. So over every run the
cursor of a queued message stays within its payload, and a message sent once
never sits in the queue at its end. Where the chunks go is followed in
`Properties.Passes`, over the parts the loop logs.
-/

namespace Club.Transport

namespace OutMessage

/-- The cursor stays within the payload, and a message sent only once is never
left at its end. -/
structure CursorOk (m : OutMessage) : Prop where
  le : m.bytesAlreadySent ≤ m.payloadSize
  sentOnce : m.resendUntilAcked = false → m.bytesAlreadySent = m.payloadSize → m.payloadSize = 0

end OutMessage

namespace SocketImpl

/-- `encode` changes nothing of a message but its cursor. -/
theorem encode_snd (e : Encoder) (m : OutMessage) :
    (encode e m).2 = { m with bytesAlreadySent := (encode e m).2.bytesAlreadySent } := by
  unfold encode
  split_ifs <;> dsimp only <;> split_ifs <;> rfl

@[simp] theorem encode_resendUntilAcked (e : Encoder) (m : OutMessage) :
    (encode e m).2.resendUntilAcked = m.resendUntilAcked := by
  rw [encode_snd]

theorem encode_cursor_le (e : Encoder) {m : OutMessage} (h : m.bytesAlreadySent ≤ m.payloadSize) :
    (encode e m).2.bytesAlreadySent ≤ m.payloadSize := by
  unfold encode
  split_ifs <;> dsimp only <;> split_ifs <;>
    simp only [OutMessage.encodeHeaderAndPayload, OutMessage.payloadSize] at h ⊢ <;> omega

variable {α : Type}

/-- Every message the endpoint holds to send, queued or owned by a
`punch_hole` in progress, keeps the cursor invariant. -/
def CursorsOk (m : Machine α) : Prop := ∀ msg ∈ m.sock.transmitQueue ++ m.io.punches, msg.CursorOk

/-- `m'` keeps the cursor invariant if `m` does. -/
def KeepsCursors (m m' : Machine α) : Prop := CursorsOk m → CursorsOk m'

namespace KeepsCursors

variable {m m' m'' : Machine α}

theorem refl (m : Machine α) : KeepsCursors m m := id

theorem trans (h : KeepsCursors m m') (h' : KeepsCursors m' m'') : KeepsCursors m m'' := h' ∘ h

/-- A step that leaves the queue and the punches alone. -/
theorem of_eq (hq : m'.sock.transmitQueue = m.sock.transmitQueue) (hp : m'.io.punches = m.io.punches) :
    KeepsCursors m m' :=
  fun h msg hm => h msg (by rwa [hq, hp] at hm)

theorem after (h : KeepsCursors m' m'') (hq : m'.sock.transmitQueue = m.sock.transmitQueue)
    (hp : m'.io.punches = m.io.punches) : KeepsCursors m m'' :=
  (of_eq hq hp).trans h

end KeepsCursors

section

variable (m : Machine α)

end

variable [AckSet α]

/-- Every `encode` of the packing loop goes through an encoder that has not
failed and passes `try_encode`'s check, on a message of the queue. -/
theorem packedMessages_encodes (peer : α) {e : Encoder} (he : e.error = false) (q : List OutMessage) :
    ∀ p ∈ packedMessages peer e q, p.1.error = false ∧
      OutMessage.headerSize + min 1 p.2.payloadSize ≤ p.1.remainingSize ∧ p.2 ∈ q := by
  induction q generalizing e with
  | nil => simp [packedMessages]
  | cons mi rest ih =>
    unfold packedMessages
    split
    · exact fun p hp => (ih he p hp).imp_right (.imp_right (.tail _))
    · rcases ht : tryEncode e mi with _ | ⟨e', mi'⟩
      · simp
      obtain ⟨hc, henc⟩ := tryEncode_eq_some ht
      rw [encode_eq e mi he (le_trans (Nat.le_add_right _ _) hc), Prod.mk.injEq] at henc
      obtain ⟨rfl, rfl⟩ := henc
      rintro p (_ | ⟨_, hp⟩)
      · exact ⟨he, hc, .head _⟩
      · split_ifs at hp
        exacts [absurd hp (List.not_mem_nil _), (ih (by exact he) p hp).imp_right (.imp_right (.tail _))]

/-- The message `construct_packet_with_one_message` hands back is the one it was
given, encoded once if `try_encode` passed. -/
theorem constructPacketWithOneMessage_snd (acks : α) (msg : OutMessage) :
    (constructPacketWithOneMessage acks msg).2 = msg ∨
      ∃ e, (constructPacketWithOneMessage acks msg).2 = (encode e msg).2 := by
  unfold constructPacketWithOneMessage
  dsimp only
  split
  · exact .inl rfl
  · exact .inr ⟨_, congrArg Prod.snd (tryEncode_eq_some ‹_›).2.symm⟩

section

variable (m : Machine α)

end

end SocketImpl

end Club.Transport
