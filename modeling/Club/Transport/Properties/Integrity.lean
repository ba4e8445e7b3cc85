import Club.Transport.Properties.Numbering

/-!
Delivery integrity. A reliable message is handed to the user either whole from
one part (the fast path of `handle_reliable_message`) or from a pending entry
that parts filled in, once every byte is there (`replay_pending_messages`); an
unreliable message either whole or from the single pending slot of
`handle_unreliable_message`. A part is written into the entry at its own place,
and the entry was allocated to the part's total size. So if every part the
receiver reads is a chunk, at its place, of the payload its peer numbered, each
byte the entry holds is the payload's byte there, and a complete entry is that
payload.

`Receiver hist uhist` is the receiving side's invariant against its peer's
numbered messages: the pending entries agree with them, the parts left to read
in the datagram being handled are faithful, and every delivery so far carries
the payload numbered under its number. The slot holds one entry per unreliable
number, and two unreliable messages share a number once the counter wraps
around, so the unreliable half holds while the peer has numbered fewer than
2 ^ 32 of them. Over two endpoints the peer's `Sender` invariant makes every
datagram that arrives well formed, and the user-visible results follow: the
reliable and the unreliable callback are called with exactly the data of the
peer's `send_reliable` or `send_unreliable` that took the message's sequence
number, whatever the network loses, repeats or reorders.
-/

namespace Club.Transport

theorem getElem?_writeAt {buffer : List (Option UInt8)} {start : Nat} {bytes : List UInt8}
    {i : Nat} {b : UInt8} (h : (writeAt buffer start bytes)[i]? = some (some b)) :
    buffer[i]? = some (some b) ∨ start ≤ i ∧ bytes[i - start]? = some b := by
  induction buffer, start, bytes using writeAt.induct generalizing i with
  | case1 => simp [writeAt] at h
  | case2 => exact .inl h
  | case3 _ buffer x bytes ih =>
    cases i with
    | zero => exact .inr ⟨le_refl _, by simpa [writeAt] using h⟩
    | succ i =>
      rcases ih (by simpa [writeAt] using h) with h | ⟨-, h⟩
      exacts [.inl (by simpa using h), .inr ⟨Nat.zero_le _, by simpa using h⟩]
  | case4 _ buffer n bytes ih =>
    cases i with
    | zero => exact .inl (by simpa [writeAt] using h)
    | succ i =>
      rcases ih (by simpa [writeAt] using h) with h | ⟨hn, h⟩
      exacts [.inl (by simpa using h), .inr ⟨by omega, by simpa using h⟩]

/-- `buffer` holds, at each byte it has, the byte of `P` at that place. -/
def Agrees (P : List UInt8) (buffer : List (Option UInt8)) : Prop :=
  ∀ (i : Nat) (b : UInt8), buffer[i]? = some (some b) → P[i]? = some b

theorem agrees_replicate (P : List UInt8) (n : Nat) : Agrees P (List.replicate n none) := by
  intro i b h
  rw [List.getElem?_replicate] at h
  split_ifs at h
  cases h

/-- Writing a chunk of `P` at its place keeps a buffer in agreement with `P`. -/
theorem Agrees.writeAt {P : List UInt8} {buffer : List (Option UInt8)} (h : Agrees P buffer)
    {start : Nat} {bytes : List UInt8} (hc : bytes <+: P.drop start) :
    Agrees P (Club.Transport.writeAt buffer start bytes) := by
  intro i b hb
  rcases getElem?_writeAt hb with hb | ⟨hs, hb⟩
  · exact h i b hb
  · obtain ⟨t, ht⟩ := hc
    rw [← Nat.add_sub_cancel' hs, ← List.getElem?_drop, ← ht,
      List.getElem?_append_left (List.getElem?_eq_some_iff.mp hb).1, hb]

/-- A complete buffer in agreement with `P` and of its size is `P`. -/
theorem Agrees.eq {P : List UInt8} {buffer : List (Option UInt8)} (h : Agrees P buffer)
    (hl : buffer.length = P.length) (hc : buffer.all Option.isSome) :
    buffer.map (·.getD 0) = P := by
  refine List.ext_getElem? fun i => ?_
  rw [List.getElem?_map]
  cases hb : buffer[i]? with
  | none => exact (List.getElem?_eq_none (hl ▸ List.getElem?_eq_none_iff.mp hb)).symm
  | some o =>
    obtain ⟨b, rfl⟩ := Option.isSome_iff_exists.mp
      (List.all_eq_true.mp hc o (List.getElem?_mem hb))
    exact (h i b hb).symm

/-- `pm` was allocated to the size of `P` and agrees with it: an entry that
chunks of `P` fill in. -/
def PendingMessage.Fills (P : List UInt8) (pm : PendingMessage) : Prop :=
  pm.buffer.length = P.length ∧ Agrees P pm.buffer

/-- The entry a first part creates. -/
theorem PendingMessage.fills_ofPart {msg : InMessagePart} {P : List UInt8}
    (hs : msg.originalSize = P.length) (hc : msg.payload <+: P.drop msg.chunkStart) :
    (PendingMessage.ofPart msg).Fills P :=
  ⟨by simp [PendingMessage.ofPart, hs], (agrees_replicate P _).writeAt hc⟩

/-- A later chunk of the same payload, written into the entry. -/
theorem PendingMessage.Fills.updatePayload {P : List UInt8} {pm : PendingMessage} (h : pm.Fills P)
    {start : Nat} {bytes : List UInt8} (hc : bytes <+: P.drop start) :
    (pm.updatePayload start bytes).Fills P :=
  ⟨by simpa [PendingMessage.updatePayload] using h.1, h.2.writeAt hc⟩

/-- A complete entry holds the payload it is filled with. -/
theorem PendingMessage.Fills.payload_eq {P : List UInt8} {pm : PendingMessage} (h : pm.Fills P)
    (hc : pm.isComplete) : pm.payload = P :=
  h.2.eq h.1 hc

/-- A part that is a message whole is the payload it is a chunk of. -/
theorem InMessagePart.payload_eq_of_isComplete {p : InMessagePart} {P : List UInt8}
    (hs : p.originalSize = P.length) (hc : p.payload <+: P.drop p.chunkStart) (h : p.isComplete) :
    p.payload = P := by
  simp only [InMessagePart.isComplete, Bool.and_eq_true, beq_iff_eq] at h
  rw [h.1, List.drop_zero] at hc
  exact hc.eq_of_length (h.2.trans hs)

namespace SocketImpl

variable {α : Type} {hist : List (MessageType × List UInt8)} {uhist : List (List UInt8)}

/-- While fewer than 2 ^ 32 unreliable messages are numbered, a number names
one of them. -/
theorem NumberedUnreliable.unique (hu : uhist.length < 2 ^ 32) {sn : SequenceNumber}
    {p p' : List UInt8} (h : NumberedUnreliable uhist sn p) (h' : NumberedUnreliable uhist sn p') :
    p = p' := by
  obtain ⟨k, hk, hsn⟩ := h
  obtain ⟨k', hk', hsn'⟩ := h'
  have := (List.getElem?_eq_some_iff.mp hk).1
  have := (List.getElem?_eq_some_iff.mp hk').1
  obtain rfl : k = k' := by omega
  exact Option.some.inj (hk.symm.trans hk')

/-- ... and the message numbered `sn` is the `sn`-th of `uhist`. -/
theorem NumberedUnreliable.getElem?_pred (hu : uhist.length < 2 ^ 32) {sn : SequenceNumber}
    {p : List UInt8} (h : NumberedUnreliable uhist sn p) :
    0 < sn.toNat ∧ uhist[sn.toNat - 1]? = some p := by
  obtain ⟨k, hk, hsn⟩ := h
  have := (List.getElem?_eq_some_iff.mp hk).1
  obtain rfl : k = sn.toNat - 1 := by omega
  exact ⟨by omega, hk⟩

/-- A pending entry is filled with the payload `hist` lists under its number. -/
def Covered (hist : List (MessageType × List UInt8)) (pm : PendingMessage) : Prop :=
  ∃ P, hist[pm.sequenceNumber.toNat]? = some (.reliable, P) ∧ pm.Fills P

theorem Covered.mono {pm : PendingMessage} (h : Covered hist pm)
    (more : List (MessageType × List UInt8)) : Covered (hist ++ more) pm :=
  let ⟨P, hP, hf⟩ := h
  ⟨P, getElem?_append_of_eq_some hP more, hf⟩

/-- The entry a first part of a reliable message creates. -/
theorem covered_ofPart {msg : InMessagePart} (hf : Faithful hist uhist msg)
    (ht : msg.type = .reliable) : Covered hist (.ofPart msg) :=
  let ⟨P, hP, hs, hc⟩ := hf.1 ht
  ⟨P, hP, PendingMessage.fills_ofPart hs hc⟩

/-- A later part of the same message, written into the entry. -/
theorem Covered.updatePayload {pm : PendingMessage} (h : Covered hist pm) {msg : InMessagePart}
    (hf : Faithful hist uhist msg) (ht : msg.type = .reliable)
    (hsn : pm.sequenceNumber = msg.sequenceNumber) :
    Covered hist (pm.updatePayload msg.chunkStart msg.payload) := by
  obtain ⟨P, hP, hfill⟩ := h
  obtain ⟨P', hP', -, hc⟩ := hf.1 ht
  have hPP : P' = P := by
    rw [← hsn, hP] at hP'
    exact (Prod.mk.inj (Option.some.inj hP')).2.symm
  exact ⟨P, hP, hfill.updatePayload (hPP ▸ hc)⟩

/-- A complete entry carries the payload numbered under its number. -/
theorem Covered.complete {pm : PendingMessage} (h : Covered hist pm) {full : InMessageFull}
    (hc : pm.getCompleteMessage = some full) :
    hist[full.sequenceNumber.toNat]? = some (.reliable, full.payload) := by
  obtain ⟨P, hP, hfill⟩ := h
  unfold PendingMessage.getCompleteMessage at hc
  split_ifs at hc with hcomplete
  cases hc
  show hist[pm.sequenceNumber.toNat]? = some (.reliable, pm.payload)
  rw [hfill.payload_eq hcomplete]
  exact hP

/-- A reliable part that is a message whole carries the payload numbered under
its number. -/
theorem Faithful.complete {p : InMessagePart} (h : Faithful hist uhist p) (ht : p.type = .reliable)
    {full : InMessageFull} (hc : p.getCompleteMessage = some full) :
    hist[full.sequenceNumber.toNat]? = some (.reliable, full.payload) := by
  obtain ⟨P, hP, hs, hpre⟩ := h.1 ht
  unfold InMessagePart.getCompleteMessage at hc
  split_ifs at hc with hcomplete
  cases hc
  exact InMessagePart.payload_eq_of_isComplete hs hpre hcomplete ▸ hP

/-- The pending unreliable message is filled with the data `uhist` lists under
its number. -/
def CoveredUnreliable (uhist : List (List UInt8)) (pm : PendingMessage) : Prop :=
  ∃ P, NumberedUnreliable uhist pm.sequenceNumber P ∧ pm.Fills P

theorem CoveredUnreliable.mono {pm : PendingMessage} (h : CoveredUnreliable uhist pm)
    (umore : List (List UInt8)) : CoveredUnreliable (uhist ++ umore) pm :=
  let ⟨P, hP, hf⟩ := h
  ⟨P, hP.mono umore, hf⟩

/-- The entry a first part of an unreliable message creates. -/
theorem coveredUnreliable_ofPart {msg : InMessagePart} (hf : Faithful hist uhist msg)
    (ht : msg.type = .unreliable) : CoveredUnreliable uhist (.ofPart msg) :=
  let ⟨P, hP, hs, hc⟩ := hf.2.1 ht
  ⟨P, hP, PendingMessage.fills_ofPart hs hc⟩

/-- A later part of the same number, written into the slot: while the numbers
have not wrapped around, it is a chunk of the same message. -/
theorem CoveredUnreliable.updatePayload (hu : uhist.length < 2 ^ 32) {pm : PendingMessage}
    (h : CoveredUnreliable uhist pm) {msg : InMessagePart} (hf : Faithful hist uhist msg)
    (ht : msg.type = .unreliable) (hsn : pm.sequenceNumber = msg.sequenceNumber) :
    CoveredUnreliable uhist (pm.updatePayload msg.chunkStart msg.payload) := by
  obtain ⟨P, hP, hfill⟩ := h
  obtain ⟨P', hP', -, hc⟩ := hf.2.1 ht
  obtain rfl : P' = P := hP'.unique hu (hsn ▸ hP)
  exact ⟨P', hP, hfill.updatePayload hc⟩

/-- A complete slot carries the data numbered under its number. -/
theorem CoveredUnreliable.complete {pm : PendingMessage} (h : CoveredUnreliable uhist pm)
    (hc : pm.isComplete) : NumberedUnreliable uhist pm.sequenceNumber pm.payload :=
  let ⟨_, hP, hfill⟩ := h
  hfill.payload_eq hc ▸ hP

/-- An unreliable part that is a message whole carries the data numbered under
its number. -/
theorem Faithful.completeUnreliable {p : InMessagePart} (h : Faithful hist uhist p)
    (ht : p.type = .unreliable) (hc : p.isComplete) :
    NumberedUnreliable uhist p.sequenceNumber p.payload :=
  let ⟨_, hP, hs, hpre⟩ := h.2.1 ht
  InMessagePart.payload_eq_of_isComplete hs hpre hc ▸ hP

/-- The `n` parts still to read from `rest` read back, and are faithful. -/
def Parts (hist : List (MessageType × List UInt8)) (uhist : List (List UInt8)) (n : Nat)
    (rest : List UInt8) : Prop :=
  ∃ ps r, decodeParts n rest = some (ps, r) ∧ ∀ p ∈ ps, Faithful hist uhist p

theorem Parts.mono {n : Nat} {rest : List UInt8} (h : Parts hist uhist n rest)
    (more : List (MessageType × List UInt8)) (umore : List (List UInt8)) :
    Parts (hist ++ more) (uhist ++ umore) n rest :=
  let ⟨ps, r, hd, hf⟩ := h
  ⟨ps, r, hd, fun p hp => (hf p hp).mono more umore⟩

/-- Reading one part off `n + 1` leaves `n` to read. -/
theorem Parts.succ {n : Nat} {rest : List UInt8} (h : Parts hist uhist (n + 1) rest) :
    ∃ p rest', InMessagePart.decode rest = some (p, rest') ∧ Faithful hist uhist p ∧
      Parts hist uhist n rest' := by
  obtain ⟨ps, r, hd, hf⟩ := h
  simp only [decodeParts, bind, Option.bind_eq_some, Option.pure_def, Option.some.injEq,
    Prod.mk.injEq, Prod.exists] at hd
  obtain ⟨p, rest', hp, ps', r', hps, rfl, rfl⟩ := hd
  exact ⟨p, rest', hp, hf p (.head _), ps', r', hps, fun q hq => hf q (.tail _ hq)⟩

/-- A log slice without reliable, unreliable or sync numbers holds no
delivery. -/
theorem isDelivery_of_sns_eq_nil {os : List Obs}
    (h : reliableSns os = [] ∧ unreliableSns os = [] ∧ syncedSns os = []) :
    ∀ o ∈ os, o.IsDelivery = false := by
  induction os with
  | nil => nofun
  | cons o os ih =>
    intro o' ho'
    cases o <;> simp only [reliableSns, unreliableSns, syncedSns, reduceCtorEq, and_false, false_and] at h
    all_goals
      rcases List.mem_cons.mp ho' with rfl | ho'
      · rfl
      · exact ih h o' ho'

/-- The receiving side of one endpoint, against the messages `hist` and `uhist`
its peer numbered: every pending reliable entry is covered, the parts left to
read in the datagram being handled are faithful, and every reliable delivery
carries the payload numbered under its number, as every sync number recorded
is one of a sync message; while the peer has numbered fewer than 2 ^ 32
unreliable messages, the same holds of the unreliable slot and deliveries. -/
structure Receiver (hist : List (MessageType × List UInt8)) (uhist : List (List UInt8))
    (m : Machine α) : Prop where
  pending : ∀ pm ∈ m.sock.pendingReliableMessages.entries, Covered hist pm
  frames : ∀ rest n, Frame.afterMessage rest n ∈ m.stack → Parts hist uhist n rest
  delivered : ∀ sn p, Obs.reliable sn p ∈ m.log → hist[sn.toNat]? = some (.reliable, p)
  slot : uhist.length < 2 ^ 32 →
    ∀ pm, m.sock.pendingUnreliableMessage = some pm → CoveredUnreliable uhist pm
  deliveredUnreliable : uhist.length < 2 ^ 32 →
    ∀ sn p, Obs.unreliable sn p ∈ m.log → NumberedUnreliable uhist sn p
  synced : ∀ s, Obs.synced s ∈ m.log → ∃ P, hist[s.toNat]? = some (.sync, P)

theorem Receiver.mono {m : Machine α} (h : Receiver hist uhist m)
    (more : List (MessageType × List UInt8)) (umore : List (List UInt8)) :
    Receiver (hist ++ more) (uhist ++ umore) m := by
  have hu : (uhist ++ umore).length < 2 ^ 32 → uhist.length < 2 ^ 32 := fun hu => by
    rw [List.length_append] at hu; omega
  exact ⟨fun pm hp => (h.pending pm hp).mono more, fun rest n hf => (h.frames rest n hf).mono more umore,
    fun sn p hp => getElem?_append_of_eq_some (h.delivered sn p hp) more,
    fun hb pm hp => (h.slot (hu hb) pm hp).mono umore,
    fun hb sn p hp => (h.deliveredUnreliable (hu hb) sn p hp).mono umore,
    fun s hs => let ⟨P, hP⟩ := h.synced s hs; ⟨P, getElem?_append_of_eq_some hP more⟩⟩

/-- `m'` keeps the receiver's invariant against `hist` and `uhist` if `m` does. -/
def KeepsReceiver (hist : List (MessageType × List UInt8)) (uhist : List (List UInt8))
    (m m' : Machine α) : Prop :=
  Receiver hist uhist m → Receiver hist uhist m'

namespace KeepsReceiver

variable {m m' m'' : Machine α}

theorem refl (m : Machine α) : KeepsReceiver hist uhist m m := id

theorem trans (h : KeepsReceiver hist uhist m m') (h' : KeepsReceiver hist uhist m' m'') :
    KeepsReceiver hist uhist m m'' :=
  h' ∘ h

/-- A step that keeps the pending entries, pushes no loop frame and logs only
deliveries of the payloads numbered under their numbers and sync numbers of
sync messages. -/
theorem of_log {os : List Obs}
    (hp : m'.sock.pendingReliableMessages = m.sock.pendingReliableMessages)
    (hslot : m'.sock.pendingUnreliableMessage = m.sock.pendingUnreliableMessage)
    (hs : ∀ rest n, Frame.afterMessage rest n ∈ m'.stack → Frame.afterMessage rest n ∈ m.stack)
    (hl : m'.log = m.log ++ os)
    (hr : ∀ sn p, Obs.reliable sn p ∈ os → hist[sn.toNat]? = some (.reliable, p))
    (hu : uhist.length < 2 ^ 32 → ∀ sn p, Obs.unreliable sn p ∈ os → NumberedUnreliable uhist sn p)
    (hsy : ∀ s, Obs.synced s ∈ os → ∃ P, hist[s.toNat]? = some (.sync, P)) :
    KeepsReceiver hist uhist m m' := fun h =>
  ⟨hp ▸ h.pending, fun rest n hf => h.frames rest n (hs rest n hf),
    fun sn p hm => (List.mem_append.mp (by rwa [hl] at hm)).elim (h.delivered sn p) (hr sn p),
    hslot ▸ h.slot,
    fun hb sn p hm =>
      (List.mem_append.mp (by rwa [hl] at hm)).elim (h.deliveredUnreliable hb sn p) (hu hb sn p),
    fun s hm => (List.mem_append.mp (by rwa [hl] at hm)).elim (h.synced s) (hsy s)⟩

/-- A step that keeps the pending entries, pushes no loop frame and delivers no
message. -/
theorem of_eq {os : List Obs}
    (hp : m'.sock.pendingReliableMessages = m.sock.pendingReliableMessages)
    (hslot : m'.sock.pendingUnreliableMessage = m.sock.pendingUnreliableMessage)
    (hs : ∀ rest n, Frame.afterMessage rest n ∈ m'.stack → Frame.afterMessage rest n ∈ m.stack)
    (hl : m'.log = m.log ++ os) (ho : reliableSns os = [] ∧ unreliableSns os = [] ∧ syncedSns os = []) :
    KeepsReceiver hist uhist m m' :=
  have hn := isDelivery_of_sns_eq_nil ho
  of_log hp hslot hs hl (fun _ _ hm => nomatch hn _ hm) (fun _ _ _ hm => nomatch hn _ hm)
    fun _ hm => nomatch hn _ hm

theorem after (h : KeepsReceiver hist uhist m' m'') {os : List Obs}
    (hp : m'.sock.pendingReliableMessages = m.sock.pendingReliableMessages)
    (hslot : m'.sock.pendingUnreliableMessage = m.sock.pendingUnreliableMessage)
    (hs : ∀ rest n, Frame.afterMessage rest n ∈ m'.stack → Frame.afterMessage rest n ∈ m.stack)
    (hl : m'.log = m.log ++ os) (ho : reliableSns os = [] ∧ unreliableSns os = [] ∧ syncedSns os = []) :
    KeepsReceiver hist uhist m m'' :=
  (of_eq hp hslot hs hl ho).trans h

/-- Quiet code keeps the invariant: it leaves the receive state alone. -/
theorem of_quiet [AckSet α] (hq : Quiet m m') (hk : KeepsReliable m m') :
    KeepsReceiver hist uhist m m' := by
  obtain ⟨os, hl, -⟩ := hk
  have hr := hq.reliable
  have hu := hq.unreliable
  have hsy := hq.synced
  rw [hl, reliableSns_append, List.append_right_eq_self] at hr
  rw [hl, unreliableSns_append, List.append_right_eq_self] at hu
  rw [hl, syncedSns_append, List.append_right_eq_self] at hsy
  refine of_eq hq.pending hq.slot (fun rest n hf => ?_) hl ⟨hr, hu, hsy⟩
  have := (List.mem_filter.mpr ⟨hf, rfl⟩ : Frame.afterMessage rest n ∈ m'.stack.filter Frame.IsReceive)
  rw [hq.frames] at this
  exact (List.mem_filter.mp this).1

end KeepsReceiver

theorem afterMessage_mem_push {f : Frame} {m : Machine α} (hf : ∀ rest n, f ≠ .afterMessage rest n)
    {rest : List UInt8} {n : Nat} (h : Frame.afterMessage rest n ∈ (m.push f).stack) :
    Frame.afterMessage rest n ∈ m.stack :=
  (List.mem_cons.mp h).resolve_left fun he => hf rest n he.symm

variable [AckSet α]

/-- Bytes that `on_receive` reads as an ack set, a count below 2 ^ 16 and that
many faithful parts. -/
def Readable (α : Type) [AckSet α] (hist : List (MessageType × List UInt8))
    (uhist : List (List UInt8)) (bytes : List UInt8) : Prop :=
  ∃ (a : α) (n : Nat) (rest : List UInt8),
    bytes = AckSet.encode a ++ beBytes 2 n ++ rest ∧ n < 2 ^ 16 ∧ Parts hist uhist n rest

/-- A well-formed datagram written over the head of `rx_buffer` is read the
same whatever stale bytes follow it. -/
theorem WellFormed.readable {d : List UInt8} (h : WellFormed α hist uhist d) (stale : List UInt8) :
    Readable α hist uhist (d ++ stale) :=
  let ⟨a, n, bytes, ps, hd, hn, hps, hf⟩ := h
  ⟨a, n, bytes ++ stale, by rw [hd]; simp, hn, ps, stale, hps stale, hf⟩

section

variable (m : Machine α)

omit [AckSet α] in
/-- Calling the reliable callback with a message that carries the payload
numbered under its number. -/
theorem keepsReceiver_userHandleReliableMsg {full : InMessageFull} (r : Bool)
    (hf : hist[full.sequenceNumber.toNat]? = some (.reliable, full.payload)) :
    KeepsReceiver hist uhist m (userHandleReliableMsg full r m) := by
  unfold userHandleReliableMsg
  split_ifs
  · exact .refl m
  · refine .of_log rfl rfl (fun _ _ hm => by simpa using hm) rfl (fun sn p hm => ?_)
      (fun _ _ _ hm => by simp at hm) fun _ hm => by simp at hm
    simp only [List.mem_singleton, Obs.reliable.injEq] at hm
    obtain ⟨rfl, rfl⟩ := hm
    exact hf

omit [AckSet α] in
/-- Calling the unreliable callback with data numbered under its number. -/
theorem keepsReceiver_deliverUnreliable {sn : SequenceNumber} {payload : List UInt8}
    (hn : uhist.length < 2 ^ 32 → NumberedUnreliable uhist sn payload) :
    KeepsReceiver hist uhist m (deliverUnreliable sn payload m) := by
  refine .of_log rfl rfl (fun _ _ hm => by simpa [deliverUnreliable] using hm) rfl
    (fun _ _ hm => by simp at hm) (fun hb sn' p hm => ?_) fun _ hm => by simp at hm
  simp only [List.mem_singleton, Obs.unreliable.injEq] at hm
  obtain ⟨rfl, rfl⟩ := hm
  exact hn hb

omit [AckSet α] in
theorem keepsReceiver_replayPendingMessages (after : Option SequenceNumber) :
    KeepsReceiver hist uhist m (replayPendingMessages after m) := by
  intro h
  dsimp only [replayPendingMessages]
  split
  · exact h
  rename_i y _
  -- the entry found is one of the pending entries
  have hmem : ∀ pm, (match after with
      | none => m.sock.pendingReliableMessages.entries
      | some k => m.sock.pendingReliableMessages.entries.filter (k < ·.sequenceNumber)).find?
        (·.sequenceNumber = y.lastUsedReliableSn + 1) = some pm →
      pm ∈ m.sock.pendingReliableMessages.entries := fun pm hp => by
    have := List.mem_of_find?_eq_some hp
    split at this
    · exact this
    · exact (List.mem_filter.mp this).1
  split
  · exact h
  rename_i pm hpm
  split
  · exact h
  rename_i full hfull
  exact keepsReceiver_userHandleReliableMsg m true ((h.pending pm (hmem pm hpm)).complete hfull) h

theorem keepsReceiver_handleReliableMessage {msg : InMessagePart} (hf : Faithful hist uhist msg)
    (ht : msg.type = .reliable) : KeepsReceiver hist uhist m (handleReliableMessage msg m) := by
  intro h
  have h₀ : Receiver hist uhist { m with sock.scheduleSendingAcks := true } :=
    ⟨h.pending, h.frames, h.delivered, h.slot, h.deliveredUnreliable, h.synced⟩
  dsimp only [handleReliableMessage]
  split
  · exact h₀
  split
  · exact h₀
  split
  · rename_i full hfast
    refine keepsReceiver_userHandleReliableMsg _ false (hf.complete ht ?_) h₀
    split_ifs at hfast
    exact hfast
  split
  · refine ⟨fun pm hp => ?_, h.frames, h.delivered, h.slot, h.deliveredUnreliable, h.synced⟩
    rcases PendingMessages.mem_insertSorted hp with rfl | hp
    · exact covered_ofPart hf ht
    · exact h.pending pm hp
  · refine keepsReceiver_replayPendingMessages _ none
      ⟨fun pm hp => ?_, h.frames, h.delivered, h.slot, h.deliveredUnreliable, h.synced⟩
    obtain ⟨pm₀, hp₀, rfl⟩ := List.mem_map.mp hp
    split_ifs with hsn
    · exact (h.pending pm₀ hp₀).updatePayload hf ht hsn
    · exact h.pending pm₀ hp₀

omit [AckSet α] in
/-- `handle_unreliable_message`: a whole part is delivered; otherwise the part
starts the slot, or is written into it if the slot holds its number, and a
slot it completes is delivered. -/
theorem keepsReceiver_handleUnreliableMessage {msg : InMessagePart} (hf : Faithful hist uhist msg)
    (ht : msg.type = .unreliable) : KeepsReceiver hist uhist m (handleUnreliableMessage msg m) := by
  -- storing an entry the slot may hold
  have store : ∀ pm, (uhist.length < 2 ^ 32 → CoveredUnreliable uhist pm) →
      KeepsReceiver hist uhist m { m with sock.pendingUnreliableMessage := some pm } :=
    fun pm hc h => ⟨h.pending, h.frames, h.delivered,
      fun hb pm' hp => Option.some.inj hp ▸ hc hb, h.deliveredUnreliable, h.synced⟩
  unfold handleUnreliableMessage
  cases hr : m.sock.onReceiveUnreliable
  · exact .refl m
  cases hs : m.sock.sync with
  | none => exact .refl m
  | some y =>
  simp only [Bool.not_true, Bool.false_eq_true, ite_false]
  by_cases hle : msg.sequenceNumber ≤ y.lastUsedUnreliableSn
  · rw [if_pos hle]
    exact .refl m
  rw [if_neg hle]
  by_cases hcomplete : msg.isComplete
  · rw [if_pos hcomplete]
    exact keepsReceiver_deliverUnreliable m fun _ => hf.completeUnreliable ht hcomplete
  rw [if_neg hcomplete]
  cases hslot : m.sock.pendingUnreliableMessage with
  | none => exact store _ fun _ => coveredUnreliable_ofPart hf ht
  | some pm =>
  dsimp only
  by_cases hlt : pm.sequenceNumber < msg.sequenceNumber
  · rw [if_pos hlt]
    exact store _ fun _ => coveredUnreliable_ofPart hf ht
  rw [if_neg hlt]
  by_cases hgt : msg.sequenceNumber < pm.sequenceNumber
  · rw [if_pos hgt]
    exact .refl m
  rw [if_neg hgt]
  have hsn : pm.sequenceNumber = msg.sequenceNumber :=
    UInt32.toNat.inj (Nat.le_antisymm (Nat.not_lt.mp hgt) (Nat.not_lt.mp hlt))
  intro h
  have hc : uhist.length < 2 ^ 32 → CoveredUnreliable uhist (pm.updatePayload msg.chunkStart msg.payload) :=
    fun hb => (h.slot hb pm hslot).updatePayload hb hf ht hsn
  split
  · refine keepsReceiver_deliverUnreliable _ (fun hb => ?_) (store _ hc h)
    rw [← hsn]
    exact (hc hb).complete ‹_›
  · exact store _ hc h

/-- A throwing close unwinds with the receive state untouched; otherwise the
socket is closed and the error callbacks run. -/
theorem keepsReceiver_handleError (err : ErrorCode) :
    KeepsReceiver hist uhist m (handleError err m) := by
  rcases handleError_cases err m with ⟨-, h⟩ | ⟨m', hc, h⟩ <;> rw [h]
  · exact .of_eq rfl rfl (fun _ _ h => by cases h) (List.append_nil _).symm ⟨rfl, rfl, rfl⟩
  · exact .of_quiet ((quiet_close m hc).trans (quiet_errorCallbacks _ err))
      ((keepsReliable_close m hc).trans (keepsReliable_errorCallbacks _ err))

theorem keepsReceiver_handleMessage {msg : InMessagePart} (hf : Faithful hist uhist msg) :
    KeepsReceiver hist uhist m (handleMessage msg m) := by
  have tail : ∀ rest n, Frame.afterMessage rest n ∈ (m.push .handleMessageTail).stack →
      Frame.afterMessage rest n ∈ m.stack := fun _ _ => afterMessage_mem_push (by simp)
  unfold handleMessage
  split
  · simp only [handleSyncMessage]
    split
    · exact .of_eq rfl rfl tail (List.append_nil _).symm ⟨rfl, rfl, rfl⟩
    · refine .of_log rfl rfl tail rfl (fun _ _ hm => by simp at hm) (fun _ _ _ hm => by simp at hm)
        fun s hm => ?_
      simp only [List.mem_singleton, Obs.synced.injEq] at hm
      exact hm ▸ hf.2.2 ‹_›
  · exact .of_eq rfl rfl tail (List.append_nil _).symm ⟨rfl, rfl, rfl⟩
  · exact (keepsReceiver_handleUnreliableMessage _ hf ‹_›).after rfl rfl tail (List.append_nil _).symm
      ⟨rfl, rfl, rfl⟩
  · exact (keepsReceiver_handleReliableMessage _ hf ‹_›).after rfl rfl tail (List.append_nil _).symm
      ⟨rfl, rfl, rfl⟩
  · exact (KeepsReceiver.of_quiet (quiet_handleCloseMessage _) ((keepsReliable_handleError _ _).after
      rfl rfl)).after rfl rfl tail (List.append_nil _).symm ⟨rfl, rfl, rfl⟩
  · exact keepsReceiver_handleError _ _

theorem keepsReceiver_startReceiving : KeepsReceiver hist uhist m (startReceiving m) :=
  .of_quiet (quiet_startReceiving m) ⟨[.asyncReceiveFrom], rfl, fun _ _ _ =>
    ⟨.inl (.of_mem ‹_›), fun _ h => by simp at h⟩⟩

theorem keepsReceiver_receiveLoop {rest : List UInt8} {n : Nat} (hp : Parts hist uhist n rest) :
    KeepsReceiver hist uhist m (receiveLoop rest n m) := by
  cases n with
  | zero => exact keepsReceiver_startReceiving m
  | succ n =>
    obtain ⟨p, rest', hd, hf, hp'⟩ := hp.succ
    simp only [receiveLoop, hd]
    refine KeepsReceiver.trans ?_ (keepsReceiver_handleMessage (m.push (.afterMessage rest' n)) hf)
    refine fun h => ⟨h.pending, fun r k hm => ?_, h.delivered, h.slot, h.deliveredUnreliable, h.synced⟩
    rcases List.mem_cons.mp hm with he | hm
    · cases he; exact hp'
    · exact h.frames r k hm

theorem keepsReceiver_reliableDelivered (sn : SequenceNumber) (r : Bool) :
    KeepsReceiver hist uhist m (reliableDelivered sn r m) := by
  dsimp only [reliableDelivered]
  split_ifs
  · exact .refl m
  · exact fun h => keepsReceiver_replayPendingMessages _ _
      ⟨fun pm hp => h.pending pm (List.mem_filter.mp hp).1, h.frames, h.delivered, h.slot,
        h.deliveredUnreliable, h.synced⟩
  · exact fun h => keepsReceiver_replayPendingMessages _ _
      ⟨h.pending, h.frames, h.delivered, h.slot, h.deliveredUnreliable, h.synced⟩

/-- The code of a frame, given that a loop frame's parts are faithful. -/
theorem keepsReceiver_runFrame (f : Frame)
    (hf : ∀ rest n, f = .afterMessage rest n → Parts hist uhist n rest) :
    KeepsReceiver hist uhist m (runFrame f m) := by
  cases f with
  | afterMessage r n =>
    simp only [runFrame]
    split_ifs
    · exact .refl m
    · exact .refl m
    · exact keepsReceiver_receiveLoop _ (hf r n rfl)
  | handleMessageTail =>
    simp only [runFrame]
    split_ifs
    · exact .refl m
    · exact .of_quiet (quiet_startSending m) (keepsReliable_startSending m)
  | reliableDelivered sn r => exact keepsReceiver_reliableDelivered m sn r
  | unreliableDelivered sn =>
    simp only [runFrame, unreliableDelivered]
    split_ifs
    · exact .refl m
    · exact fun h => ⟨h.pending, h.frames, h.delivered, fun _ _ hp => (nomatch hp), h.deliveredUnreliable,
      h.synced⟩
  | afterFlush | errorSecond _ _ | punchAfterSend | user _ =>
    exact .of_quiet (quiet_runFrame m rfl) (keepsReliable_runFrame m _)

variable (hcodec : ∀ (a : α) (rest : List UInt8), AckSet.decode (AckSet.encode a ++ rest) = some (a, rest))
include hcodec

theorem keepsReceiver_onReceive (err : Option ErrorCode)
    (hrx : err = none → Readable α hist uhist m.state.rxBuffer) :
    KeepsReceiver hist uhist m (onReceive err m) := by
  dsimp only [onReceive]
  split
  · exact .refl m
  split
  · exact (KeepsReceiver.of_quiet (quiet_errorCallbacks _ _) (keepsReliable_errorCallbacks _ _)).after
      rfl rfl (fun _ _ => id) (List.append_nil _).symm ⟨rfl, rfl, rfl⟩
  obtain ⟨a, n, rest, hb, hn, hp⟩ := hrx rfl
  split
  · exact (keepsReceiver_startReceiving _).after rfl rfl (fun _ _ => id) (List.append_nil _).symm
      ⟨rfl, rfl, rfl⟩
  have hn' : n % 256 ^ 2 = n := Nat.mod_eq_of_lt hn
  rw [hb, List.append_assoc, hcodec]
  simp only [getNat_beBytes, hn', Option.getD_some]
  exact (keepsReceiver_receiveLoop _ hp).after rfl rfl (fun _ _ => id) (List.append_nil _).symm
    ⟨rfl, rfl, rfl⟩

end

variable (hcodec : ∀ (a : α) (rest : List UInt8), AckSet.decode (AckSet.encode a ++ rest) = some (a, rest))
include hcodec

/-- Every step keeps the invariant, given that a datagram it receives is well
formed. -/
theorem keepsReceiver_step {m m' : Machine α} {ev : Event} (h : step m ev = some m')
    (hd : ∀ src d, ev = .received none src d → WellFormed α hist uhist d) :
    KeepsReceiver hist uhist m m' := by
  cases ev with
  | call c =>
    obtain ⟨-, rfl⟩ := step_call h
    exact .of_quiet (quiet_userCall m c) (keepsReliable_userCall m c)
  | returned =>
    obtain ⟨hk, rest, hs, rfl⟩ := step_returned h
    exact .of_quiet (quiet_pop m hs rfl) (keepsReliable_step h)
  | resume =>
    obtain ⟨f, rest, hs, rfl⟩ := step_resume h
    intro hr
    refine keepsReceiver_runFrame _ f (fun r n he => hr.frames r n (by rw [hs, he]; exact .head _))
      ⟨hr.pending, fun r n hm => hr.frames r n (by rw [hs]; exact .tail _ hm), hr.delivered, hr.slot,
        hr.deliveredUnreliable, hr.synced⟩
  | received err src d =>
    obtain ⟨-, rfl⟩ := step_received h
    split_ifs with he
    · exact (keepsReceiver_onReceive (receiveDatagram src d { m with io.receives := m.io.receives - 1 })
        hcodec err (fun he' => by subst he'; exact (hd src d rfl).readable _)).after rfl rfl
          (fun _ _ => id) (List.append_nil _).symm ⟨rfl, rfl, rfl⟩
    · exact (keepsReceiver_onReceive { m with io.receives := m.io.receives - 1 } hcodec err
        (fun he' => by simp [he'] at he)).after rfl rfl (fun _ _ => id) (List.append_nil _).symm
          ⟨rfl, rfl, rfl⟩
  | sent err =>
    obtain ⟨-, rfl⟩ := step_sent h
    exact .of_quiet (quiet_onSend m err) (keepsReliable_step h)
  | timerExpired a =>
    obtain ⟨-, rfl⟩ := step_timerExpired h
    exact .of_quiet (quiet_onTimer m a) (keepsReliable_step h)
  | keepaliveAlarm =>
    obtain ⟨-, rfl⟩ := step_keepaliveAlarm h
    exact .of_quiet ((show Quiet m _ by constructor <;> simp).trans
      ((quiet_addMessage _ _).trans (quiet_startSending _))) (keepsReliable_step h)
  | recvTimeoutAlarm =>
    obtain ⟨-, rfl⟩ := step_recvTimeoutAlarm h
    exact (keepsReceiver_handleError _ _).after rfl rfl (fun _ _ => id) (List.append_nil _).symm
      ⟨rfl, rfl, rfl⟩
  | punched i r =>
    obtain ⟨syn, -, -, rfl⟩ := step_punched h
    exact .of_quiet ((show Quiet m _ by constructor <;> simp).trans (quiet_onPunch _ _ _))
      (keepsReliable_step h)

end SocketImpl

namespace Link

/-- The messages `side` numbers in one event of a run of two endpoints. -/
def Event.numbered (side : Side) : Link.Event → List (MessageType × List UInt8)
  | .endpoint s ev => if s = side then ev.numbered else []
  | .deliver _ _ _ => []

/-- The data `side` numbers with its unreliable counter in one event. -/
def Event.numberedUnreliable (side : Side) : Link.Event → List (List UInt8)
  | .endpoint s ev => if s = side then ev.numberedUnreliable else []
  | .deliver _ _ _ => []

/-- An event in which `side`, if it acts, sends what the wire can carry. -/
def Event.Fits (side : Side) : Link.Event → Prop
  | .endpoint s ev => s = side → ev.Fits
  | .deliver _ _ _ => True

instance Event.decidableFits (side : Side) : (ev : Link.Event) → Decidable (ev.Fits side)
  | .endpoint s ev => inferInstanceAs (Decidable (s = side → ev.Fits))
  | .deliver _ _ _ => inferInstanceAs (Decidable True)

@[simp] theorem get_set_other_other {α : Type} (w : Link α) (s : Side) (m : Machine α) :
    (w.set s.other m).get s = w.get s := by
  cases s <;> rfl

variable {α : Type} [AckSet α]

theorem step_endpoint {w w' : Link α} {s : Side} {ev : Club.Transport.Event}
    (h : step w (.endpoint s ev) = some w') :
    ∃ m', SocketImpl.step (w.get s) ev = some m' ∧ w' = w.set s m' ∧
      ∀ src d, ev ≠ .received none src d := by
  have hne : ∀ src d, ev ≠ .received none src d := by rintro src d rfl; simp [step] at h
  cases ev <;> first
    | (rename_i err _ _; cases err) | skip
  all_goals first
    | exact absurd rfl (hne _ _)
    | exact (Option.map_eq_some'.mp h).imp fun m' ⟨hm, he⟩ => ⟨hm, he.symm, hne⟩

theorem step_deliver {w w' : Link α} {s : Side} {src : UdpEndpoint} {i : Nat}
    (h : step w (.deliver s src i) = some w') :
    ∃ d m', d ∈ datagrams (w.get s.other).log ∧
      SocketImpl.step (w.get s) (.received none src d) = some m' ∧ w' = w.set s m' := by
  simp only [step] at h
  split at h
  · obtain ⟨m', hm, rfl⟩ := Option.map_eq_some'.mp h
    exact ⟨_, m', List.getElem?_mem ‹_›, hm, rfl⟩
  · cases h

end Link

open SocketImpl

variable {α : Type} [AckSet α] {hist : List (MessageType × List UInt8)} {uhist : List (List UInt8)}

/-- Delivery from `side.other` to `side`, against the messages `hist` and
`uhist` that `side.other` numbered: the one keeps the sender's invariant, the
other the receiver's. -/
structure Delivery (side : Side) (hist : List (MessageType × List UInt8)) (uhist : List (List UInt8))
    (w : Link α) : Prop where
  sender : Sender hist uhist (w.get side.other)
  receiver : Receiver hist uhist (w.get side)

theorem delivery_init (side : Side) : Delivery side [] [] (Link.init : Link α) := by
  have hr : Receiver [] [] (init : Machine α) :=
    ⟨by simp [init, PendingMessages.empty], by simp [init], by simp [init], by simp [init], by simp [init], by simp [init]⟩
  cases side
  exacts [⟨sender_init, hr⟩, ⟨sender_init, hr⟩]

theorem Side.ne_other (side : Side) : side ≠ side.other := by cases side <;> simp [Side.other]

section

variable (hcodec : ∀ (a : α) (rest : List UInt8), AckSet.decode (AckSet.encode a ++ rest) = some (a, rest))
  (hroom : AckRoom α)
include hcodec hroom

/-- Every step of the link keeps delivery, against `hist` and `uhist` extended
with what the sending side numbers in it. -/
theorem delivery_step {side : Side} {w w' : Link α} {ev : Link.Event}
    (hi : Delivery side hist uhist w) (h : Link.step w ev = some w') (hfit : ev.Fits side.other)
    (hlen : hist.length + (ev.numbered side.other).length < 2 ^ 32) :
    Delivery side (hist ++ ev.numbered side.other) (uhist ++ ev.numberedUnreliable side.other) w' := by
  cases ev with
  | endpoint s ev =>
    obtain ⟨m', hm, rfl, hne⟩ := Link.step_endpoint h
    rcases Side.eq_or_eq_other s side with rfl | rfl
    · -- the receiving side moves; it takes no datagram here
      have hn : Link.Event.numbered s.other (.endpoint s ev) = [] := if_neg (Side.ne_other s)
      have hu : Link.Event.numberedUnreliable s.other (.endpoint s ev) = [] := if_neg (Side.ne_other s)
      rw [hn, hu, List.append_nil, List.append_nil]
      exact ⟨by simpa using hi.sender, by
        simpa using keepsReceiver_step hcodec hm (fun src d he => absurd he (hne src d)) hi.receiver⟩
    · -- the sending side moves
      have hn : Link.Event.numbered side.other (.endpoint side.other ev) = ev.numbered := if_pos rfl
      have hu : Link.Event.numberedUnreliable side.other (.endpoint side.other ev) =
          ev.numberedUnreliable := if_pos rfl
      rw [hn] at hlen
      rw [hn, hu]
      exact ⟨by simpa using sender_step hroom hi.sender hm (hfit rfl) hlen,
        by simpa using hi.receiver.mono ev.numbered ev.numberedUnreliable⟩
  | deliver s src i =>
    obtain ⟨d, m', hd, hm, rfl⟩ := Link.step_deliver h
    rw [show Link.Event.numbered side.other (.deliver s src i) = [] from rfl,
      show Link.Event.numberedUnreliable side.other (.deliver s src i) = [] from rfl,
      List.append_nil, List.append_nil]
    rcases Side.eq_or_eq_other s side with rfl | rfl
    · -- a datagram of the sending side arrives
      have hr := keepsReceiver_step hcodec hm
        (fun _ _ he => by cases he; exact hi.sender.sent d hd) hi.receiver
      exact ⟨by simpa using hi.sender, by simpa using hr⟩
    · -- a datagram arrives at the sending side
      have hs := sender_step hroom hi.sender hm trivial (by simpa [Event.numbered] using hlen)
      exact ⟨by simpa [Event.numbered, Event.numberedUnreliable] using hs, by simpa using hi.receiver⟩

theorem delivery_run {side : Side} {w w' : Link α} {evs : List Link.Event}
    (hi : Delivery side hist uhist w) (h : Link.run w evs = some w') (hfit : ∀ ev ∈ evs, ev.Fits side.other)
    (hlen : hist.length + (evs.flatMap (Link.Event.numbered side.other)).length < 2 ^ 32) :
    Delivery side (hist ++ evs.flatMap (Link.Event.numbered side.other))
      (uhist ++ evs.flatMap (Link.Event.numberedUnreliable side.other)) w' := by
  induction evs generalizing hist uhist w with
  | nil => cases h; simpa using hi
  | cons ev evs ih =>
    simp only [Link.run] at h
    cases hs : Link.step w ev with
    | none => simp [hs] at h
    | some w₁ =>
      simp only [List.flatMap_cons, List.length_append] at hlen
      have := ih (delivery_step hcodec hroom hi hs (hfit ev (.head _)) (by omega))
        (by simpa [hs] using h) (fun e he => hfit e (.tail _ he)) (by simp only [List.length_append]; omega)
      simpa [List.append_assoc] using this

/-- Over every run of two endpoints from their construction, with any loss,
duplication and reordering of their datagrams: each message one endpoint hands
to its reliable callback under a sequence number is exactly the data the other
endpoint passed to the `send_reliable` call that took that number. This holds
while the other endpoint has numbered fewer than 2 ^ 32 messages and every
message it sends is shorter than 2 ^ 16 bytes, the sizes the wire format can
carry, and when the ack sets read back as written and leave room for a part. -/
theorem reliable_delivered_as_sent {evs : List Link.Event} {w : Link α}
    (h : Link.run Link.init evs = some w) (side : Side) (hfit : ∀ ev ∈ evs, ev.Fits side.other)
    (hlen : (evs.flatMap (Link.Event.numbered side.other)).length < 2 ^ 32) :
    ∀ sn p, Obs.reliable sn p ∈ (w.get side).log →
      (evs.flatMap (Link.Event.numbered side.other))[sn.toNat]? = some (.reliable, p) := by
  simpa using (delivery_run hcodec hroom (delivery_init side) h hfit (by simpa using hlen)).receiver.delivered

/-- Over every run of two endpoints from their construction, with any loss,
duplication and reordering of their datagrams: each message one endpoint hands
to its unreliable callback under a sequence number `sn` is exactly the data the
other endpoint passed to its `sn`-th `send_unreliable` call. This holds while
the other endpoint has numbered fewer than 2 ^ 32 messages of each kind and
every message it sends is shorter than 2 ^ 16 bytes, and when the ack sets read
back as written and leave room for a part. -/
theorem unreliable_delivered_as_sent {evs : List Link.Event} {w : Link α}
    (h : Link.run Link.init evs = some w) (side : Side) (hfit : ∀ ev ∈ evs, ev.Fits side.other)
    (hlen : (evs.flatMap (Link.Event.numbered side.other)).length < 2 ^ 32)
    (hulen : (evs.flatMap (Link.Event.numberedUnreliable side.other)).length < 2 ^ 32) :
    ∀ sn p, Obs.unreliable sn p ∈ (w.get side).log →
      0 < sn.toNat ∧ (evs.flatMap (Link.Event.numberedUnreliable side.other))[sn.toNat - 1]? = some p :=
  fun sn p hm =>
    ((delivery_run hcodec hroom (delivery_init side) h hfit (by simpa using hlen)).receiver.deliveredUnreliable
      (by simpa using hulen) sn p hm).getElem?_pred (by simpa using hulen)

end

set_option maxRecDepth 20000 in
/-- Both endpoints connect; one sends [5, 6] reliably. The other takes in the
sync message and that message from one datagram and hands [5, 6] to its
callback under the number 1, which the sender's `send_reliable` took. -/
theorem reliable_delivered_after_connect :
    let evs : List Link.Event :=
      [.endpoint .a (.call (.rendezvousConnect ⟨.host 2, 7⟩)),
       .endpoint .b (.call (.rendezvousConnect ⟨.host 1, 7⟩)),
       .endpoint .a (.punched 0 (.ok ⟨.host 2, 7⟩)), .endpoint .a .resume, .endpoint .a .returned,
       .endpoint .b (.punched 0 (.ok ⟨.host 1, 7⟩)), .endpoint .b .resume, .endpoint .b .returned,
       .endpoint .b (.call .receiveReliable),
       .endpoint .a (.sent none), .endpoint .a (.timerExpired false),
       .endpoint .a (.call (.sendReliable [5, 6])),
       .endpoint .a (.sent none), .endpoint .a (.timerExpired false),
       .deliver .b ⟨.host 1, 7⟩ 3, .endpoint .b .resume, .endpoint .b .resume]
    ∃ w : Link RecentAckSet, Link.run Link.init evs = some w ∧ Obs.reliable 1 [5, 6] ∈ (w.get .b).log ∧
      ∀ sn p, Obs.reliable sn p ∈ (w.get .b).log →
        (evs.flatMap (Link.Event.numbered Side.b.other))[sn.toNat]? = some (.reliable, p) := by
  intro evs
  obtain ⟨w, hw, hd⟩ : ∃ w : Link RecentAckSet, Link.run Link.init evs = some w ∧
      Obs.reliable 1 [5, 6] ∈ (w.get .b).log := ⟨_, rfl, by decide⟩
  exact ⟨w, hw, hd, reliable_delivered_as_sent RecentAckSet.decode_encode RecentAckSet.ackRoom hw .b
    (by decide) (by decide)⟩

set_option maxRecDepth 20000 in
/-- Both endpoints connect; one sends [7, 8] unreliably. The other takes in the
sync message and that message from one datagram and hands [7, 8] to its
callback under the number 1, the first unreliable number. -/
theorem unreliable_delivered_after_connect :
    let evs : List Link.Event :=
      [.endpoint .a (.call (.rendezvousConnect ⟨.host 2, 7⟩)),
       .endpoint .b (.call (.rendezvousConnect ⟨.host 1, 7⟩)),
       .endpoint .a (.punched 0 (.ok ⟨.host 2, 7⟩)), .endpoint .a .resume, .endpoint .a .returned,
       .endpoint .b (.punched 0 (.ok ⟨.host 1, 7⟩)), .endpoint .b .resume, .endpoint .b .returned,
       .endpoint .b (.call .receiveUnreliable),
       .endpoint .a (.sent none), .endpoint .a (.timerExpired false),
       .endpoint .a (.call (.sendUnreliable [7, 8])),
       .endpoint .a (.sent none), .endpoint .a (.timerExpired false),
       .deliver .b ⟨.host 1, 7⟩ 3, .endpoint .b .resume, .endpoint .b .resume]
    ∃ w : Link RecentAckSet, Link.run Link.init evs = some w ∧ Obs.unreliable 1 [7, 8] ∈ (w.get .b).log ∧
      ∀ sn p, Obs.unreliable sn p ∈ (w.get .b).log →
        0 < sn.toNat ∧ (evs.flatMap (Link.Event.numberedUnreliable Side.b.other))[sn.toNat - 1]? = some p := by
  intro evs
  obtain ⟨w, hw, hd⟩ : ∃ w : Link RecentAckSet, Link.run Link.init evs = some w ∧
      Obs.unreliable 1 [7, 8] ∈ (w.get .b).log := ⟨_, rfl, by decide⟩
  exact ⟨w, hw, hd, unreliable_delivered_as_sent RecentAckSet.decode_encode RecentAckSet.ackRoom hw .b
    (by decide) (by decide) (by decide)⟩

end Club.Transport
