import Club.Transport.Properties.Numbering

/-!
Where the chunks of a message go. The loop of `encode_payload` logs every part
it writes (`Machine.encoded`), and `chunksOf t sn` reads off that log the chunks
`(offset, length)` of the message of type `t` numbered `sn`. Over every run from
construction, while neither counter has wrapped around, the chunks of every
queued reliable or unreliable message form successive passes from 0 (`Passes`)
that bring its cursor where it is, and the chunks logged under any unreliable
number are consecutive from 0: no byte of an unreliable message is written
twice.

`Logged` is what the log says of the messages still to send; the packing loop
keeps it encode by encode, and a new message keeps it because its number is
above every number held or written. Sync and keepalive messages are not
followed: the first chunk of a sync message goes out in the punch packet, not
through the loop, and every keepalive is numbered 0 and carries no payload.
-/

namespace Club.Transport

/-- Chunks `(offset, length)` forming successive passes over a payload of
`size` bytes from the cursor `pos`: each starts at the cursor, or at 0 once the
cursor reached the end, stays within the payload, and moves on unless the
payload is empty. -/
def Passes (size : Nat) : Nat → List (Nat × Nat) → Prop
  | _, [] => True
  | pos, c :: cs => c.1 = (if pos = size then 0 else pos) ∧ c.1 + c.2 ≤ size ∧
      (0 < size → 0 < c.2) ∧ Passes size (c.1 + c.2) cs

/-- Where the last of the chunks ends, from `pos`. -/
def passEnd : Nat → List (Nat × Nat) → Nat
  | pos, [] => pos
  | _, c :: cs => passEnd (c.1 + c.2) cs

/-- Chunks each starting where the one before ended, from `pos`. -/
def Consecutive : Nat → List (Nat × Nat) → Prop
  | _, [] => True
  | pos, c :: cs => c.1 = pos ∧ Consecutive (c.1 + c.2) cs

section Chunks

variable {size pos : Nat} {cs : List (Nat × Nat)} {c : Nat × Nat}

@[simp] theorem passEnd_append_singleton (pos : Nat) (cs : List (Nat × Nat)) (c : Nat × Nat) :
    passEnd pos (cs ++ [c]) = c.1 + c.2 := by
  induction cs generalizing pos with
  | nil => rfl
  | cons d cs ih => exact ih _

theorem Passes.append_singleton (h : Passes size pos cs)
    (hc : c.1 = (if passEnd pos cs = size then 0 else passEnd pos cs) ∧ c.1 + c.2 ≤ size ∧
      (0 < size → 0 < c.2)) : Passes size pos (cs ++ [c]) := by
  induction cs generalizing pos with
  | nil => exact ⟨hc.1, hc.2.1, hc.2.2, trivial⟩
  | cons d cs ih => exact ⟨h.1, h.2.1, h.2.2.1, ih h.2.2.2 hc⟩

theorem Consecutive.append_singleton (h : Consecutive pos cs) (hc : c.1 = passEnd pos cs) :
    Consecutive pos (cs ++ [c]) := by
  induction cs generalizing pos with
  | nil => exact ⟨hc, trivial⟩
  | cons d cs ih => exact ⟨h.1, ih h.2 hc⟩

end Chunks

/-- The chunk `(offset, length)` a part carries. -/
def InMessagePart.chunk (p : InMessagePart) : Nat × Nat := (p.chunkStart, p.payload.length)

/-- The chunks of the message of type `t` numbered `sn` among the parts `ps`,
in order. -/
def chunksOf (t : MessageType) (sn : SequenceNumber) (ps : List InMessagePart) : List (Nat × Nat) :=
  (ps.filter fun p => p.type = t ∧ p.sequenceNumber = sn).map InMessagePart.chunk

section ChunksOf

variable {t : MessageType} {sn : SequenceNumber}

@[simp] theorem chunksOf_append (ps ps' : List InMessagePart) :
    chunksOf t sn (ps ++ ps') = chunksOf t sn ps ++ chunksOf t sn ps' := by
  simp only [chunksOf, List.filter_append, List.map_append]

theorem chunksOf_singleton_of_eq {p : InMessagePart} (h : p.type = t ∧ p.sequenceNumber = sn) :
    chunksOf t sn [p] = [p.chunk] := by
  simp [chunksOf, h]

theorem chunksOf_singleton_of_ne {p : InMessagePart} (h : ¬(p.type = t ∧ p.sequenceNumber = sn)) :
    chunksOf t sn [p] = [] := by
  simp only [chunksOf, List.filter_cons, List.filter_nil, decide_eq_true_eq, h, if_false,
    List.map_nil]

end ChunksOf

namespace OutMessage

/-- A message the log follows: reliable or unreliable, numbered by its own
counter. -/
def Tracked (m : OutMessage) : Prop := m.type = .reliable ∨ m.type = .unreliable

theorem Tracked.of_type_eq {a b : OutMessage} (h : a.type = b.type) (hb : b.Tracked) : a.Tracked := by
  unfold Tracked; rw [h]; exact hb

/-- `a` does not share its number with `b` if `a` is followed. -/
def Apart (a b : OutMessage) : Prop :=
  a.Tracked → a.type = b.type → a.sequenceNumber ≠ b.sequenceNumber

theorem Apart.symm {a b : OutMessage} (h : Apart a b) : Apart b a := fun hb ht hs =>
  h (.of_type_eq ht.symm hb) ht.symm hs.symm

/-- The chunks `cs` are passes over the payload from 0 that bring the cursor
where it is: to their end, or to 0 where `encode` reset a cursor at the end
through an encoder that had failed. -/
def Reached (m : OutMessage) (cs : List (Nat × Nat)) : Prop :=
  Passes m.payloadSize 0 cs ∧
    (passEnd 0 cs = m.bytesAlreadySent ∨ m.bytesAlreadySent = 0 ∧ passEnd 0 cs = m.payloadSize)

end OutMessage

namespace SocketImpl

open OutMessage

/-- What the parts written, `E`, say of the messages `Q` still to send: no two
followed messages share a number, the chunks of each bring its cursor where it
is, an unreliable message is sent once and its chunks end at its cursor, and
the chunks of every unreliable number are consecutive from 0. -/
structure Logged (E : List InMessagePart) (Q : List OutMessage) : Prop where
  apart : Q.Pairwise Apart
  reached : ∀ msg ∈ Q, msg.Tracked → msg.Reached (chunksOf msg.type msg.sequenceNumber E)
  once : ∀ msg ∈ Q, msg.type = .unreliable →
    msg.resendUntilAcked = false ∧
      passEnd 0 (chunksOf .unreliable msg.sequenceNumber E) = msg.bytesAlreadySent
  consecutive : ∀ sn, Consecutive 0 (chunksOf .unreliable sn E)

namespace Logged

variable {E : List InMessagePart} {Q Q' : List OutMessage}

theorem sublist (h : Logged E Q) (hs : Q'.Sublist Q) : Logged E Q' :=
  ⟨h.apart.sublist hs, fun msg hm => h.reached msg (hs.subset hm),
    fun msg hm => h.once msg (hs.subset hm), h.consecutive⟩

end Logged

/-- The part `encode` logs carries the chunk `encodeChunk` names. -/
theorem encodedPart_chunk (e : Encoder) {m : OutMessage} (h : m.bytesAlreadySent ≤ m.payloadSize) :
    (encodedPart e m).chunk = encodeChunk e m := by
  have h1 := encodeChunk_fst e m
  have h2 := encodeChunk_snd e m
  refine Prod.ext rfl ?_
  simp only [encodedPart, InMessagePart.chunk, List.length_take, List.length_drop]
  simp only [OutMessage.payloadSize] at h h1 h2
  split_ifs at h1 <;> omega

/-- Through an encoder with room for a header and one byte, the chunk `encode`
writes stays within the payload and holds a byte unless the payload is
empty. -/
theorem encodeChunk_within (e : Encoder) {m : OutMessage} (hle : m.bytesAlreadySent ≤ m.payloadSize)
    (hc : OutMessage.headerSize + min 1 m.payloadSize ≤ e.remainingSize) :
    (encodeChunk e m).1 + (encodeChunk e m).2 ≤ m.payloadSize ∧
      (0 < m.payloadSize → 0 < (encodeChunk e m).2) := by
  have hfst := encodeChunk_fst e m
  have hsnd := encodeChunk_snd e m
  have h1 := Nat.min_le_right 1 m.payloadSize
  refine ⟨?_, fun hpos => ?_⟩
  · rw [hsnd]; split_ifs at hfst <;> omega
  · have : min 1 m.payloadSize = 1 := by omega
    rw [hsnd]; split_ifs at hfst <;> omega

/-- Through an encoder that has failed, `encode` writes nothing; it still
resets a cursor at the end. -/
theorem encode_of_error (e : Encoder) (m : OutMessage) (he : e.error = true) :
    encode e m = (e, if m.bytesAlreadySent = m.payloadSize then { m with bytesAlreadySent := 0 } else m) := by
  have hp : ∀ (b : List UInt8) {e : Encoder}, e.error = true → e.putBytes b = e := fun b e h => by
    simp [Encoder.putBytes, h]
  unfold encode OutMessage.encodeHeaderAndPayload
  split_ifs <;> simp [Encoder.putU8, Encoder.putU16, Encoder.putU32, hp _ he, he]

/-- One `encode` of the packing loop keeps `Logged`: a part written extends the
chunks of its own message only, at its cursor; a failed encoder writes nothing. -/
theorem Logged.encode {E : List InMessagePart} {Q : List OutMessage} {mi : OutMessage} (e : Encoder)
    (h : Logged E (mi :: Q)) (hm : mi.CursorOk)
    (hc : OutMessage.headerSize + min 1 mi.payloadSize ≤ e.remainingSize) :
    Logged (E ++ writtenPart e (SocketImpl.encode e mi).1 mi) ((SocketImpl.encode e mi).2 :: Q) := by
  obtain ⟨hapart, hQ⟩ := List.pairwise_cons.mp h.apart
  have hreached := h.reached mi (.head _)
  have honce := h.once mi (.head _)
  cases he : e.error with
  | true =>
    rw [encode_of_error e mi he]
    simp only [writtenPart, he, if_true, List.append_nil]
    split_ifs with hend
    · refine ⟨List.pairwise_cons.mpr ⟨hapart, hQ⟩, fun x hx => ?_, fun x hx => ?_, h.consecutive⟩
      · rcases List.mem_cons.mp hx with rfl | hx
        · intro ht
          obtain ⟨hp, hr | ⟨-, hr⟩⟩ := hreached ht
          exacts [⟨hp, .inr ⟨rfl, hr.trans hend⟩⟩, ⟨hp, .inr ⟨rfl, hr⟩⟩]
        · exact h.reached x (.tail _ hx)
      · rcases List.mem_cons.mp hx with rfl | hx
        · intro hu
          obtain ⟨hr, hp⟩ := honce hu
          exact ⟨hr, hp.trans (hend.trans (hm.sentOnce hr hend))⟩
        · exact h.once x (.tail _ hx)
    · exact h
  | false =>
    rw [encode_eq e mi he (le_trans (Nat.le_add_right _ _) hc)]
    simp only [writtenPart, he, Bool.false_eq_true, if_false]
    have hch := encodedPart_chunk e hm.le
    have hfst := encodeChunk_fst e mi
    obtain ⟨hle, hpos⟩ := encodeChunk_within e hm.le hc
    -- the part written is of `mi`'s type and number, and of no other message's
    have hown : chunksOf mi.type mi.sequenceNumber [encodedPart e mi] = [encodeChunk e mi] := by
      rw [@chunksOf_singleton_of_eq mi.type mi.sequenceNumber (encodedPart e mi) ⟨rfl, rfl⟩, hch]
    have hother : ∀ x ∈ Q, x.Tracked → chunksOf x.type x.sequenceNumber [encodedPart e mi] = [] :=
      fun x hx ht => chunksOf_singleton_of_ne fun ⟨h1, h2⟩ => (hapart x hx).symm ht h1.symm h2.symm
    refine ⟨List.pairwise_cons.mpr ⟨hapart, hQ⟩, fun x hx => ?_, fun x hx => ?_, fun sn => ?_⟩
    · rcases List.mem_cons.mp hx with rfl | hx
      · intro ht
        obtain ⟨hp, hr⟩ := hreached ht
        rw [chunksOf_append, hown]
        refine ⟨hp.append_singleton ⟨?_, hle, hpos⟩, .inl (passEnd_append_singleton _ _ _)⟩
        rw [hfst]
        rcases hr with hr | ⟨h0, hr⟩
        · rw [hr]
        · rw [hr, h0, if_pos rfl]; split_ifs <;> rfl
      · intro ht
        rw [chunksOf_append, hother x hx ht, List.append_nil]
        exact h.reached x (.tail _ hx) ht
    · rcases List.mem_cons.mp hx with rfl | hx
      · intro hu
        obtain ⟨hr, -⟩ := honce hu
        refine ⟨hr, ?_⟩
        rw [chunksOf_append, ← hu, hown, passEnd_append_singleton]
      · intro hu
        rw [chunksOf_append, ← hu, hother x hx (.inr hu), List.append_nil, hu]
        exact h.once x (.tail _ hx) hu
    · rw [chunksOf_append]
      by_cases hk : mi.type = .unreliable ∧ mi.sequenceNumber = sn
      · obtain ⟨hu, rfl⟩ := hk
        rw [← hu, hown, hu]
        obtain ⟨hr, hend⟩ := honce hu
        refine (h.consecutive _).append_singleton ?_
        rw [hend, hfst]
        split_ifs with hcur
        · exact (hcur.trans (hm.sentOnce hr hcur)).symm
        · rfl
      · rw [chunksOf_singleton_of_ne hk, List.append_nil]
        exact h.consecutive sn

variable {α : Type} [AckSet α]

/-- Numbers below the counters: `n` for reliable messages, `u` for unreliable
ones. -/
def Below (n u : Nat) (t : MessageType) (sn : SequenceNumber) : Prop :=
  (t = .reliable → sn.toNat < n) ∧ (t = .unreliable → sn.toNat < u)

theorem Below.mono {n u n' u' : Nat} {t : MessageType} {sn : SequenceNumber} (h : Below n u t sn)
    (hn : n ≤ n') (hu : u ≤ u') : Below n' u' t sn :=
  ⟨fun ht => lt_of_lt_of_le (h.1 ht) hn, fun ht => lt_of_lt_of_le (h.2 ht) hu⟩

variable {n u : Nat} {m m' : Machine α}

section

variable (m)

end

end SocketImpl

end Club.Transport
