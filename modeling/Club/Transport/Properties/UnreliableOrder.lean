import Club.Transport.Socket.Shape

/-!
The order of unreliable deliveries. `handle_unreliable_message` drops every part
at or below `last_used_unreliable_sn`, and the counter moves to the delivered
sequence number once the callback returns. So the deliveries increase strictly
from the sync number on, and the pending slot always lies above the counter.
The comparisons are the code's, on `uint32_t`, without wrap-around.
-/

namespace Club.Transport

namespace SocketImpl

variable {α : Type}

/-- The unreliable deliveries increase from the sync number and stay at or
below `top`, which is `last_used_unreliable_sn`, or above it while its callback
runs or after it destroyed the endpoint; the pending slot lies above the
counter. -/
def UnreliableInv (m : Machine α) : Prop :=
  match m.sock.sync.map (·.lastUsedUnreliableSn) with
  | none => syncedSns m.log = [] ∧ unreliableSns m.log = [] ∧ unreliableFrames m.stack = [] ∧
      m.sock.pendingUnreliableMessage = none
  | some last => ∃ s0 top, syncedSns m.log = [s0] ∧
      (s0 :: unreliableSns m.log).Pairwise (· < ·) ∧ (∀ sn ∈ s0 :: unreliableSns m.log, sn ≤ top) ∧
      LastDelivery (· < ·) top last (unreliableFrames m.stack) m.state.wasDestroyed ∧
      ∀ pm, m.sock.pendingUnreliableMessage = some pm → last < pm.sequenceNumber

namespace UnreliableInv

variable {m m' : Machine α}

/-- The invariant reads only the counter, the slot, the log, the unreliable
frames and `was_destroyed`. -/
theorem congr (h : UnreliableInv m)
    (hs : m'.sock.sync.map (·.lastUsedUnreliableSn) = m.sock.sync.map (·.lastUsedUnreliableSn))
    (hp : m'.sock.pendingUnreliableMessage = m.sock.pendingUnreliableMessage)
    (hy : syncedSns m'.log = syncedSns m.log) (hu : unreliableSns m'.log = unreliableSns m.log)
    (hf : unreliableFrames m'.stack = unreliableFrames m.stack)
    (hd : m.state.wasDestroyed = true → m'.state.wasDestroyed = true) : UnreliableInv m' := by
  unfold UnreliableInv at h ⊢
  rw [hs, hp, hy, hu, hf]
  split at h
  · exact h
  · obtain ⟨s0, top, h1, h2, h3, h4 | ⟨h4, h5 | ⟨h5, h6⟩⟩, h7⟩ := h
    exacts [⟨s0, top, h1, h2, h3, .inl h4, h7⟩, ⟨s0, top, h1, h2, h3, .inr ⟨h4, .inl h5⟩, h7⟩,
      ⟨s0, top, h1, h2, h3, .inr ⟨h4, .inr ⟨hd h5, h6⟩⟩, h7⟩]

theorem quiet (h : UnreliableInv m) (hq : Quiet m m') : UnreliableInv m' := by
  refine h.congr (by rw [hq.sync]) hq.slot hq.synced hq.unreliable ?_ hq.destroyed
  rw [← unreliableFrames_filter, hq.frames, unreliableFrames_filter]

/-- Field updates outside the counter and the slot. -/
theorem sock (h : UnreliableInv m) (hs : m'.sock.sync = m.sock.sync)
    (hp : m'.sock.pendingUnreliableMessage = m.sock.pendingUnreliableMessage)
    (hl : m'.log = m.log) (hf : m'.stack = m.stack) (hd : m'.state = m.state) :
    UnreliableInv m' :=
  h.congr (by rw [hs]) hp (by rw [hl]) (by rw [hl]) (by rw [hf]) (by rw [hd]; exact id)

theorem push (h : UnreliableInv m) {f : Frame} (hf : unreliableFrames [f] = []) :
    UnreliableInv (m.push f) :=
  h.congr rfl rfl rfl rfl (unreliableFrames_cons _ hf) id

theorem pop (h : UnreliableInv m) {f : Frame} {rest : List Frame} (hs : m.stack = f :: rest)
    (hf : unreliableFrames [f] = []) : UnreliableInv { m with stack := rest } :=
  h.congr rfl rfl rfl rfl (by rw [hs, unreliableFrames_cons _ hf]) id

/-- A reliable delivery leaves the unreliable state alone. -/
theorem reliable (h : UnreliableInv m) {sn : SequenceNumber} {p : List UInt8} (r : Bool) :
    UnreliableInv ((m.push (.reliableDelivered sn r)).invoke .reliable (.reliable sn p)) :=
  h.congr rfl rfl (by simp [syncedSns]) (by simp [unreliableSns])
    (by simp [unreliableFrames]) id

/-- The slot lies above the counter. -/
theorem slot_lt (h : UnreliableInv m) {y : Sync} (hy : m.sock.sync = some y) {pm : PendingMessage}
    (hpm : m.sock.pendingUnreliableMessage = some pm) :
    y.lastUsedUnreliableSn < pm.sequenceNumber := by
  unfold UnreliableInv at h
  simp only [hy, Option.map_some'] at h
  obtain ⟨-, -, -, -, -, -, h5⟩ := h
  exact h5 pm hpm

/-- Filling the slot with a part above the counter. -/
theorem setSlot (h : UnreliableInv m) {y : Sync} (hy : m.sock.sync = some y) {pm : PendingMessage}
    (hpm : y.lastUsedUnreliableSn < pm.sequenceNumber) :
    UnreliableInv { m with sock.pendingUnreliableMessage := some pm } := by
  unfold UnreliableInv at h ⊢
  simp only [hy, Option.map_some'] at h ⊢
  obtain ⟨s0, top, h1, h2, h3, h4, -⟩ := h
  exact ⟨s0, top, h1, h2, h3, h4, fun _ e => Option.some_inj.mp e ▸ hpm⟩

end UnreliableInv

section Receive

variable {m : Machine α}

theorem unreliableInv_userHandleReliableMsg (full : InMessageFull) (r : Bool)
    (h : UnreliableInv m) : UnreliableInv (userHandleReliableMsg full r m) := by
  unfold userHandleReliableMsg
  split_ifs
  · exact h
  · exact (h.sock rfl rfl rfl rfl rfl).reliable r

theorem unreliableInv_replayPendingMessages (after : Option SequenceNumber)
    (h : UnreliableInv m) : UnreliableInv (replayPendingMessages after m) := by
  dsimp only [replayPendingMessages]
  repeat' split
  all_goals first
    | exact h
    | exact unreliableInv_userHandleReliableMsg _ _ h

/-- A delivery above the counter by a live endpoint with no delivery running. -/
theorem unreliableInv_deliverUnreliable {y : Sync} {sn : SequenceNumber} (p : List UInt8)
    (h : UnreliableInv m) (hy : m.sock.sync = some y) (hsn : y.lastUsedUnreliableSn < sn)
    (hd : m.state.wasDestroyed = false) (hf : unreliableFrames m.stack = []) :
    UnreliableInv (deliverUnreliable sn p m) := by
  unfold UnreliableInv at h ⊢
  simp only [deliverUnreliable, Machine.invoke_sock, Machine.push_sock, hy, Option.map_some']
    at h ⊢
  obtain ⟨s0, top, h1, h2, h3, h4, h5⟩ := h
  have ht : top = y.lastUsedUnreliableSn := by simpa [LastDelivery, hf, hd] using h4
  have below : ∀ x ∈ s0 :: unreliableSns m.log, x < sn :=
    fun x hx => Nat.lt_of_le_of_lt (ht ▸ h3 x hx) hsn
  simp only [Machine.invoke_log, Machine.push_log, unreliableSns_append, syncedSns_append,
    Machine.invoke_stack, Machine.push_stack, Machine.push_state, Machine.invoke_state]
  refine ⟨s0, sn, by simpa [syncedSns] using h1, ?_, ?_, .inr ⟨hsn, .inl ?_⟩, h5⟩
  · show ((s0 :: unreliableSns m.log) ++ [sn]).Pairwise _
    exact List.pairwise_append.2 ⟨h2, List.pairwise_singleton _ _,
      fun x hx _ hy => List.eq_of_mem_singleton hy ▸ below x hx⟩
  · show ∀ x ∈ (s0 :: unreliableSns m.log) ++ [sn], x ≤ sn
    simp only [List.mem_append, List.mem_singleton]
    rintro x (hx | rfl)
    exacts [Nat.le_of_lt (below x hx), UInt32.le_refl x]
  · simp [unreliableFrames, hf]

theorem unreliableInv_handleUnreliableMessage (msg : InMessagePart) (h : UnreliableInv m)
    (hd : m.state.wasDestroyed = false) (hf : unreliableFrames m.stack = []) :
    UnreliableInv (handleUnreliableMessage msg m) := by
  rcases handleUnreliableMessage_cases msg m with
    he | ⟨y, hy, hlt, ⟨pm, hpm, he⟩ | ⟨p, slot, hslot, he⟩⟩ <;> rw [he]
  · exact h
  · exact h.setSlot hy (hpm ▸ hlt)
  · rcases hslot with rfl | ⟨pm, rfl, hpm⟩
    · exact unreliableInv_deliverUnreliable _ h hy hlt hd hf
    · exact unreliableInv_deliverUnreliable _ (h.setSlot hy (hpm ▸ hlt)) hy hlt hd hf

/-- The rest of an unreliable delivery: the counter catches up and the slot is
emptied. -/
theorem unreliableInv_unreliableDelivered {sn : SequenceNumber} {rest : List Frame}
    (h : UnreliableInv m) (hs : m.stack = .unreliableDelivered sn :: rest)
    (hr : unreliableFrames rest = []) :
    UnreliableInv (unreliableDelivered sn { m with stack := rest }) := by
  unfold UnreliableInv at h
  cases hy : m.sock.sync with
  | none => simp [hy, hs, unreliableFrames] at h
  | some y =>
    simp only [hy, Option.map_some', hs, unreliableFrames, hr] at h
    obtain ⟨s0, top, h1, h2, h3, h4, h5⟩ := h
    simp only [LastDelivery, List.cons_ne_nil, and_false, List.cons.injEq, and_true, false_or,
      or_false] at h4
    unfold unreliableDelivered UnreliableInv
    split_ifs with hd
    · simp only [hy, Option.map_some', hr]
      exact ⟨s0, top, h1, h2, h3, .inr ⟨h4.1, .inr ⟨hd, rfl⟩⟩, h5⟩
    · simp only [hy, Option.map_some', hr]
      exact ⟨s0, top, h1, h2, h3, .inl ⟨h4.2.symm, rfl⟩, fun _ e => by cases e⟩

variable [AckSet α]

theorem unreliableInv_handleReliableMessage (msg : InMessagePart) (h : UnreliableInv m) :
    UnreliableInv (handleReliableMessage msg m) := by
  dsimp only [handleReliableMessage]
  repeat' split
  all_goals first
    | exact h.sock rfl rfl rfl rfl rfl
    | exact unreliableInv_userHandleReliableMsg _ _ (h.sock rfl rfl rfl rfl rfl)
    | exact unreliableInv_replayPendingMessages _ (h.sock rfl rfl rfl rfl rfl)

/-- `handle_error`: the callbacks touch nothing of the invariant, and where
`close()` throws the dispatch goes without a delivery pending. -/
theorem unreliableInv_handleError (err : ErrorCode) (h : UnreliableInv m)
    (hf : unreliableFrames m.stack = []) : UnreliableInv (handleError err m) := by
  rcases handleError_cases err m with ⟨-, h'⟩ | ⟨m', hc, h'⟩ <;> rw [h']
  · exact h.congr rfl rfl rfl rfl (by rw [hf]; rfl) id
  · exact h.quiet ((quiet_close m hc).trans (quiet_errorCallbacks _ err))

theorem unreliableInv_handleMessage (msg : InMessagePart) (h : UnreliableInv m)
    (hd : m.state.wasDestroyed = false) (hf : unreliableFrames m.stack = []) :
    UnreliableInv (handleMessage msg m) := by
  have ht : UnreliableInv (m.push .handleMessageTail) := h.push rfl
  unfold handleMessage
  split
  · simp only [handleSyncMessage]
    split
    · exact ht.sock rfl rfl rfl rfl rfl
    · rename_i hy
      rw [Machine.push_sock] at hy
      unfold UnreliableInv at h ⊢
      simp only [Machine.record_sock, Machine.push_sock, hy, Option.map_none',
        Option.map_some'] at h ⊢
      obtain ⟨h1, h2, h3, h4⟩ := h
      refine ⟨msg.sequenceNumber, msg.sequenceNumber, by simp [syncedSns, h1], ?_, ?_,
        .inl ⟨rfl, by simpa [unreliableFrames] using h3⟩, by simp [h4]⟩ <;>
        simp [unreliableSns, h2, UInt32.le_refl]
  · exact ht
  · exact unreliableInv_handleUnreliableMessage msg ht hd (by simpa [unreliableFrames] using hf)
  · exact unreliableInv_handleReliableMessage msg ht
  · exact ht.quiet (quiet_handleCloseMessage _)
  · exact unreliableInv_handleError _ h hf

theorem unreliableInv_receiveLoop (rest : List UInt8) (n : Nat) (h : UnreliableInv m)
    (hd : m.state.wasDestroyed = false) (hf : unreliableFrames m.stack = []) :
    UnreliableInv (receiveLoop rest n m) := by
  cases n with
  | zero => exact h.quiet (quiet_startReceiving m)
  | succ n =>
    simp only [receiveLoop]
    split
    · exact unreliableInv_handleError _ h hf
    · exact unreliableInv_handleMessage _ (h.push rfl) hd (by simpa [unreliableFrames] using hf)

theorem unreliableInv_onReceive (err : Option ErrorCode) (h : UnreliableInv m)
    (hf : unreliableFrames m.stack = []) : UnreliableInv (onReceive err m) := by
  have h0 : UnreliableInv { m with sock.recvTimeoutAlarm := false } := h.sock rfl rfl rfl rfl rfl
  dsimp only [onReceive]
  split
  · exact h
  · rename_i hd
    split
    · exact h0.quiet (quiet_errorCallbacks _ _)
    · split
      · exact h0.quiet (quiet_startReceiving _)
      · split
        · exact unreliableInv_handleError _ h0 hf
        · exact unreliableInv_receiveLoop _ _ (h0.quiet (quiet_handleAcks _ _)) (by simpa using hd) hf

theorem unreliableInv_reliableDelivered {sn : SequenceNumber} {r : Bool} {rest : List Frame}
    (h : UnreliableInv m) (hs : m.stack = .reliableDelivered sn r :: rest) :
    UnreliableInv (reliableDelivered sn r { m with stack := rest }) := by
  have hp := h.pop hs rfl
  have hc : ∀ m' : Machine α, m'.sock.sync.map (·.lastUsedUnreliableSn) =
      (m'.sock.sync.map fun y => { y with lastUsedReliableSn := sn }).map
        (·.lastUsedUnreliableSn) := fun m' => by cases m'.sock.sync <;> rfl
  dsimp only [reliableDelivered]
  split_ifs
  · exact hp
  · exact unreliableInv_replayPendingMessages _ (hp.congr (hc _).symm rfl rfl rfl rfl id)
  · exact unreliableInv_replayPendingMessages _ (hp.congr (hc _).symm rfl rfl rfl rfl id)

end Receive

variable [AckSet α]

theorem unreliableInv_init : UnreliableInv (init : Machine α) := by
  simp [UnreliableInv, init, syncedSns, unreliableSns, unreliableFrames]

theorem unreliableInv_step {m m' : Machine α} {ev : Event} (hs : Shape m) (h : UnreliableInv m)
    (hst : step m ev = some m') : UnreliableInv m' := by
  rcases step_cases hst with hq | ⟨err, m₀, -, hq, h0, rfl⟩ | ⟨f, rest, hs', hf, rfl⟩
  · exact h.quiet hq
  · exact unreliableInv_onReceive _ (h.quiet hq) (by simp [h0, unreliableFrames])
  · unfold Shape receiveFrames at hs
    rw [hs', List.filter_cons_of_pos hf] at hs
    have hr := (unreliableFrames_filter rest).symm
    cases f with
    | afterMessage r n =>
      have hp := h.pop hs' rfl
      simp only [runFrame]
      split_ifs with hd
      · exact hp
      · exact hp
      · exact unreliableInv_receiveLoop _ _ hp (by simpa using hd)
          (by rw [hr, hs.afterMessage]; rfl)
    | handleMessageTail =>
      simp only [runFrame]
      split_ifs
      · exact h.pop hs' rfl
      · exact (h.pop hs' rfl).quiet (quiet_startSending _)
    | reliableDelivered sn r => exact unreliableInv_reliableDelivered h hs'
    | unreliableDelivered sn =>
      obtain ⟨r', n, h0⟩ := hs.delivery (by simp) (by simp)
      exact unreliableInv_unreliableDelivered h hs' (by rw [hr, h0]; rfl)
    | _ => simp [Frame.IsReceive] at hf

theorem unreliableInv_reachable {m : Machine α} (h : Reachable m) : UnreliableInv m := by
  induction h with
  | init => exact unreliableInv_init
  | step ev hr hs ih => exact unreliableInv_step (shape_reachable hr) ih hs

/-- Whatever arrives and whatever the callbacks do, the unreliable callback sees
strictly increasing sequence numbers, all above the first sync number, and the
pending slot, when full, lies above `last_used_unreliable_sn`. -/
theorem unreliable_deliveries_increase {m : Machine α} (h : Reachable m) :
    ((syncedSns m.log = [] ∧ unreliableSns m.log = []) ∨
      ∃ s0, syncedSns m.log = [s0] ∧ (s0 :: unreliableSns m.log).Pairwise (· < ·)) ∧
    ∀ pm, m.sock.pendingUnreliableMessage = some pm →
      ∃ y, m.sock.sync = some y ∧ y.lastUsedUnreliableSn < pm.sequenceNumber := by
  have hi := unreliableInv_reachable h
  cases hy : m.sock.sync with
  | none =>
    unfold UnreliableInv at hi
    simp only [hy, Option.map_none'] at hi
    exact ⟨.inl ⟨hi.1, hi.2.1⟩, fun pm hpm => by simp [hi.2.2.2] at hpm⟩
  | some y =>
    refine ⟨?_, fun pm hpm => ⟨y, rfl, hi.slot_lt hy hpm⟩⟩
    unfold UnreliableInv at hi
    simp only [hy, Option.map_some'] at hi
    obtain ⟨s0, -, h1, h2, -⟩ := hi
    exact .inr ⟨s0, h1, h2⟩

set_option maxRecDepth 20000 in
/-- The datagram that brings the sync number 0 carries message 1 in two
fragments, merged in the slot and delivered whole, then message 3 whole, which
the callback, registered again from inside the first call, gets next. -/
theorem unreliable_deliveries_after_merge :
    ∃ m : Machine ListAckSet,
      run init
        [.call (.rendezvousConnect ⟨.host 2, 7⟩), .call .receiveUnreliable,
         .punched 0 (.ok ⟨.host 2, 7⟩), .resume, .returned,
         .received none ⟨.host 2, 7⟩ (encodePacket (⟨[]⟩ : ListAckSet)
           [⟨.sync, 0, 0, 0, []⟩, ⟨.unreliable, 1, 2, 0, [5]⟩, ⟨.unreliable, 1, 2, 1, [6]⟩,
            ⟨.unreliable, 3, 1, 0, [9]⟩]),
         .resume, .resume, .resume, .resume, .call .receiveUnreliable, .returned, .resume, .resume,
         .resume, .returned, .resume, .resume, .resume] = some m ∧
      unreliableSns m.log = [1, 3] ∧
      ((syncedSns m.log = [] ∧ unreliableSns m.log = []) ∨
        ∃ s0, syncedSns m.log = [s0] ∧ (s0 :: unreliableSns m.log).Pairwise (· < ·)) ∧
      ∀ pm, m.sock.pendingUnreliableMessage = some pm →
        ∃ y, m.sock.sync = some y ∧ y.lastUsedUnreliableSn < pm.sequenceNumber := by
  obtain ⟨m, hm, hu⟩ : ∃ m : Machine ListAckSet,
      run init
        [.call (.rendezvousConnect ⟨.host 2, 7⟩), .call .receiveUnreliable,
         .punched 0 (.ok ⟨.host 2, 7⟩), .resume, .returned,
         .received none ⟨.host 2, 7⟩ (encodePacket (⟨[]⟩ : ListAckSet)
           [⟨.sync, 0, 0, 0, []⟩, ⟨.unreliable, 1, 2, 0, [5]⟩, ⟨.unreliable, 1, 2, 1, [6]⟩,
            ⟨.unreliable, 3, 1, 0, [9]⟩]),
         .resume, .resume, .resume, .resume, .call .receiveUnreliable, .returned, .resume, .resume,
         .resume, .returned, .resume, .resume, .resume] = some m ∧
      unreliableSns m.log = [1, 3] := ⟨_, rfl, rfl⟩
  exact ⟨m, hm, hu, unreliable_deliveries_increase (reachable_run .init hm)⟩

end SocketImpl

end Club.Transport
