import Club.Transport.Socket.Shape
import Mathlib.Data.List.Iterate

/-!
The order of reliable deliveries. Every call of the reliable callback made by
`user_handle_reliable_msg`, from the fast path of `handle_reliable_message` or
from `replay_pending_messages`, is for `last_used_reliable_sn + 1`, and the
counter moves to it once the callback returns, unless the callback destroyed
the endpoint, after which nothing is delivered. So the deliveries are exactly
the successors of the sync number, in order, with wrap-around at 2^32.

The pending map does not follow the counter as closely: the fast path of
`handle_reliable_message` never looks at it, and the replay after it starts
past the delivered number, so a fragment stored earlier under that number stays.
-/

namespace Club.Transport

section Successors

variable (s : SequenceNumber)

theorem iterate_succ_snoc (k : Nat) :
    List.iterate (· + 1) (s + 1) (k + 1) =
      List.iterate (· + 1) (s + 1) k ++ [(· + 1)^[k] s + 1] := by
  rw [List.iterate_add]
  exact congrArg _ (congrArg (· :: []) (Function.iterate_succ_apply' (· + 1) k s))

theorem toNat_iterate_succ (i : Nat) : ((· + 1)^[i] s).toNat = (s.toNat + i) % 2 ^ 32 := by
  induction i with
  | zero => exact (Nat.mod_eq_of_lt s.toNat_lt_size).symm
  | succ i ih =>
    rw [Function.iterate_succ_apply']
    show ((_ : UInt32).toNat + 1) % 2 ^ 32 = _
    rw [ih]
    omega

/-- Successive sequence numbers repeat only after 2^32 of them. -/
theorem iterate_succ_window {k i j : Nat} (hij : i < j) (hj : j < i + 2 ^ 32) (sn : SequenceNumber)
    (hi : (List.iterate (· + 1) s k)[i]? = some sn) :
    (List.iterate (· + 1) s k)[j]? ≠ some sn := by
  by_cases hk : j < k
  · rw [List.getElem?_iterate _ _ _ _ hk]
    rw [List.getElem?_iterate _ _ _ _ (by omega), Option.some_inj] at hi
    intro h
    have := congrArg UInt32.toNat ((Option.some_inj.mp h).trans hi.symm)
    rw [toNat_iterate_succ, toNat_iterate_succ] at this
    omega
  · simp [List.getElem?_eq_none (by simpa using hk : (List.iterate (· + 1) s k).length ≤ j)]

end Successors

namespace SocketImpl

variable {α : Type}

/-- The reliable deliveries so far are the successors of the sync number, and
the last of them is `last_used_reliable_sn`, or one past it while its callback
runs or after it destroyed the endpoint. -/
def ReliableInv (m : Machine α) : Prop :=
  match m.sock.sync.map (·.lastUsedReliableSn) with
  | none => syncedSns m.log = [] ∧ reliableSns m.log = [] ∧ reliableFrames m.stack = []
  | some last => ∃ s0 k, syncedSns m.log = [s0] ∧
      reliableSns m.log = List.iterate (· + 1) (s0 + 1) k ∧
      LastDelivery (fun last sn => sn = last + 1) ((· + 1)^[k] s0) last (reliableFrames m.stack) m.state.wasDestroyed

namespace ReliableInv

variable {m m' : Machine α}

/-- The invariant reads only the counter, the log, the reliable frames and
`was_destroyed`. -/
theorem congr (h : ReliableInv m)
    (hs : m'.sock.sync.map (·.lastUsedReliableSn) = m.sock.sync.map (·.lastUsedReliableSn))
    (hy : syncedSns m'.log = syncedSns m.log) (hr : reliableSns m'.log = reliableSns m.log)
    (hf : reliableFrames m'.stack = reliableFrames m.stack)
    (hd : m.state.wasDestroyed = true → m'.state.wasDestroyed = true) : ReliableInv m' := by
  unfold ReliableInv at h ⊢
  rw [hs, hy, hr, hf]
  split at h
  · exact h
  · obtain ⟨s0, k, h1, h2, h3 | ⟨h3, h4 | ⟨h4, h5⟩⟩⟩ := h
    exacts [⟨s0, k, h1, h2, .inl h3⟩, ⟨s0, k, h1, h2, .inr ⟨h3, .inl h4⟩⟩,
      ⟨s0, k, h1, h2, .inr ⟨h3, .inr ⟨hd h4, h5⟩⟩⟩]

theorem quiet (h : ReliableInv m) (hq : Quiet m m') : ReliableInv m' := by
  refine h.congr (by rw [hq.sync]) hq.synced hq.reliable ?_ hq.destroyed
  rw [← reliableFrames_filter, hq.frames, reliableFrames_filter]

/-- Field updates outside the counter. -/
theorem sock (h : ReliableInv m) (hs : m'.sock.sync = m.sock.sync) (hl : m'.log = m.log)
    (hf : m'.stack = m.stack) (hd : m'.state = m.state) : ReliableInv m' :=
  h.congr (by rw [hs]) (by rw [hl]) (by rw [hl]) (by rw [hf]) (by rw [hd]; exact id)

theorem push (h : ReliableInv m) {f : Frame} (hf : reliableFrames [f] = []) :
    ReliableInv (m.push f) :=
  h.congr rfl rfl rfl (reliableFrames_cons _ hf) id

theorem pop (h : ReliableInv m) {f : Frame} {rest : List Frame} (hs : m.stack = f :: rest)
    (hf : reliableFrames [f] = []) : ReliableInv { m with stack := rest } :=
  h.congr rfl rfl rfl (by rw [hs, reliableFrames_cons _ hf]) id

end ReliableInv

section Receive

variable {m : Machine α}

/-- A delivery of `last + 1` by a live endpoint with no delivery running. -/
theorem reliableInv_userHandleReliableMsg {full : InMessageFull} {r : Bool} {y : Sync}
    (h : ReliableInv m) (hy : m.sock.sync = some y)
    (hsn : full.sequenceNumber = y.lastUsedReliableSn + 1) (hd : m.state.wasDestroyed = false)
    (hf : reliableFrames m.stack = []) : ReliableInv (userHandleReliableMsg full r m) := by
  unfold userHandleReliableMsg
  split_ifs
  · exact h
  · unfold ReliableInv at h ⊢
    simp only [Machine.invoke_sock, Machine.push_sock, hy, Option.map_some'] at h ⊢
    obtain ⟨s0, k, h1, h2, h3⟩ := h
    have hk : (· + 1)^[k] s0 = y.lastUsedReliableSn := by simpa [LastDelivery, hf, hd] using h3
    refine ⟨s0, k + 1, by simpa [syncedSns] using h1, ?_, .inr ⟨?_, .inl ?_⟩⟩
    · simp only [Machine.invoke_log, Machine.push_log, reliableSns_append, h2]
      rw [iterate_succ_snoc, hk]
      simp [reliableSns, hsn]
    · rw [Function.iterate_succ_apply', hk]
    · simp [reliableFrames, hf, hsn, Function.iterate_succ_apply', hk]

theorem reliableInv_replayPendingMessages (after : Option SequenceNumber) (h : ReliableInv m)
    (hd : m.state.wasDestroyed = false) (hf : reliableFrames m.stack = []) :
    ReliableInv (replayPendingMessages after m) := by
  dsimp only [replayPendingMessages]
  split
  · exact h
  · rename_i y hy
    split
    · exact h
    · rename_i pm hpm
      split
      · exact h
      · rename_i full hfull
        refine reliableInv_userHandleReliableMsg h hy ?_ hd hf
        rw [PendingMessage.getCompleteMessage_sequenceNumber hfull]
        simpa using List.find?_some hpm

theorem reliableInv_handleUnreliableMessage (msg : InMessagePart) (h : ReliableInv m) :
    ReliableInv (handleUnreliableMessage msg m) := by
  have deliver : ∀ (m' : Machine α) sn p, ReliableInv m' →
      ReliableInv (deliverUnreliable sn p m') := fun m' sn p h' =>
    h'.congr rfl (by simp [deliverUnreliable, syncedSns]) (by simp [deliverUnreliable, reliableSns])
      (by simp [deliverUnreliable, reliableFrames]) id
  rcases handleUnreliableMessage_cases msg m with h' | ⟨y, -, -, ⟨pm, -, h'⟩ | ⟨p, slot, -, h'⟩⟩ <;>
    rw [h']
  · exact h
  · exact h.sock rfl rfl rfl rfl
  · exact deliver _ _ _ (h.sock rfl rfl rfl rfl)

variable [AckSet α]

/-- `handle_error`: the callbacks touch nothing of the invariant, and where
`close()` throws the dispatch goes without a delivery pending. -/
theorem reliableInv_handleError (err : ErrorCode) (h : ReliableInv m)
    (hf : reliableFrames m.stack = []) : ReliableInv (handleError err m) := by
  rcases handleError_cases err m with ⟨-, h'⟩ | ⟨m', hc, h'⟩ <;> rw [h']
  · exact h.congr rfl rfl rfl (by rw [hf]; rfl) id
  · exact h.quiet ((quiet_close m hc).trans (quiet_errorCallbacks _ err))

theorem reliableInv_handleReliableMessage (msg : InMessagePart) (h : ReliableInv m)
    (hd : m.state.wasDestroyed = false) (hf : reliableFrames m.stack = []) :
    ReliableInv (handleReliableMessage msg m) := by
  have h0 : ReliableInv { m with sock.scheduleSendingAcks := true } := h.sock rfl rfl rfl rfl
  dsimp only [handleReliableMessage]
  split
  · exact h0
  · rename_i y hy
    split_ifs
    · exact h0
    all_goals repeat' split
    all_goals first
      | cases ‹none = some _›
      | exact h0.sock rfl rfl rfl rfl
      | exact reliableInv_replayPendingMessages _ (h0.sock rfl rfl rfl rfl) hd hf
      | exact reliableInv_userHandleReliableMsg h0 hy
          ((InMessagePart.getCompleteMessage_sequenceNumber ‹_›).trans ‹_›) hd hf

theorem reliableInv_handleMessage (msg : InMessagePart) (h : ReliableInv m)
    (hd : m.state.wasDestroyed = false) (hf : reliableFrames m.stack = []) :
    ReliableInv (handleMessage msg m) := by
  have ht : ReliableInv (m.push .handleMessageTail) := h.push rfl
  unfold handleMessage
  split
  · simp only [handleSyncMessage]
    split
    · exact ht.sock rfl rfl rfl rfl
    · rename_i hy
      rw [Machine.push_sock] at hy
      unfold ReliableInv at h ⊢
      simp only [Machine.record_sock, Machine.push_sock, hy, Option.map_none',
        Option.map_some'] at h ⊢
      refine ⟨msg.sequenceNumber, 0, by simp [syncedSns, h.1], by simp [reliableSns, h.2.1],
        .inl ⟨rfl, by simpa [reliableFrames] using h.2.2⟩⟩
  · exact ht
  · exact reliableInv_handleUnreliableMessage msg ht
  · exact reliableInv_handleReliableMessage msg ht hd (by simpa [reliableFrames] using hf)
  · exact ht.quiet (quiet_handleCloseMessage _)
  · exact reliableInv_handleError _ h hf

theorem reliableInv_receiveLoop (rest : List UInt8) (n : Nat) (h : ReliableInv m)
    (hd : m.state.wasDestroyed = false) (hf : reliableFrames m.stack = []) :
    ReliableInv (receiveLoop rest n m) := by
  cases n with
  | zero => exact h.quiet (quiet_startReceiving m)
  | succ n =>
    simp only [receiveLoop]
    split
    · exact reliableInv_handleError _ h hf
    · exact reliableInv_handleMessage _ (h.push rfl) hd (by simpa [reliableFrames] using hf)

theorem reliableInv_onReceive (err : Option ErrorCode) (h : ReliableInv m)
    (hf : reliableFrames m.stack = []) : ReliableInv (onReceive err m) := by
  have h0 : ReliableInv { m with sock.recvTimeoutAlarm := false } := h.sock rfl rfl rfl rfl
  dsimp only [onReceive]
  split
  · exact h
  · rename_i hd
    split
    · exact h0.quiet (quiet_errorCallbacks _ _)
    · split
      · exact h0.quiet (quiet_startReceiving _)
      · split
        · exact reliableInv_handleError _ h0 hf
        · exact reliableInv_receiveLoop _ _ (h0.quiet (quiet_handleAcks _ _)) (by simpa using hd) hf

/-- The rest of a reliable delivery: the counter catches up with the
delivered sequence number, then the replay runs. -/
theorem reliableInv_reliableDelivered {sn : SequenceNumber} {r : Bool} {rest : List Frame}
    (h : ReliableInv m) (hs : m.stack = .reliableDelivered sn r :: rest)
    (hr : reliableFrames rest = []) :
    ReliableInv (reliableDelivered sn r { m with stack := rest }) := by
  unfold ReliableInv at h
  cases hy : m.sock.sync with
  | none => simp [hy, hs, reliableFrames] at h
  | some y =>
    simp only [hy, Option.map_some', hs, reliableFrames, hr] at h
    obtain ⟨s0, k, h1, h2, h3⟩ := h
    simp only [LastDelivery, List.cons_ne_nil, and_false, List.cons.injEq, and_true, false_or,
      or_false] at h3
    have h0 : ReliableInv
        { m with stack := rest,
                 sock.receivedMessageIds := AckSet.tryAdd m.sock.receivedMessageIds sn,
                 sock.sync := m.sock.sync.map fun y => { y with lastUsedReliableSn := sn } } := by
      unfold ReliableInv
      simp only [hy, Option.map_some', hr]
      exact ⟨s0, k, h1, h2, .inl ⟨h3.2.symm, rfl⟩⟩
    dsimp only [reliableDelivered]
    split_ifs with hd
    · unfold ReliableInv
      simp only [hy, Option.map_some', hr]
      exact ⟨s0, k, h1, h2, .inr ⟨h3.1, .inr ⟨hd, rfl⟩⟩⟩
    · exact reliableInv_replayPendingMessages _ (h0.sock rfl rfl rfl rfl) (by simpa using hd) hr
    · exact reliableInv_replayPendingMessages _ h0 (by simpa using hd) hr

end Receive

variable [AckSet α]

theorem reliableInv_init : ReliableInv (init : Machine α) := by
  simp [ReliableInv, init, syncedSns, reliableSns, reliableFrames]

theorem reliableInv_step {m m' : Machine α} {ev : Event} (hs : Shape m) (h : ReliableInv m)
    (hst : step m ev = some m') : ReliableInv m' := by
  rcases step_cases hst with hq | ⟨err, m₀, -, hq, h0, rfl⟩ | ⟨f, rest, hs', hf, rfl⟩
  · exact h.quiet hq
  · exact reliableInv_onReceive _ (h.quiet hq) (by simp [h0, reliableFrames])
  · unfold Shape receiveFrames at hs
    rw [hs', List.filter_cons_of_pos hf] at hs
    have hr := (reliableFrames_filter rest).symm
    cases f with
    | afterMessage r n =>
      have hp := h.pop hs' rfl
      simp only [runFrame]
      split_ifs with hd
      · exact hp
      · exact hp
      · exact reliableInv_receiveLoop _ _ hp (by simpa using hd) (by rw [hr, hs.afterMessage]; rfl)
    | handleMessageTail =>
      simp only [runFrame]
      split_ifs
      · exact h.pop hs' rfl
      · exact (h.pop hs' rfl).quiet (quiet_startSending _)
    | reliableDelivered sn r =>
      obtain ⟨r', n, h0⟩ := hs.delivery (by simp) (by simp)
      exact reliableInv_reliableDelivered h hs' (by rw [hr, h0]; rfl)
    | unreliableDelivered sn =>
      simp only [runFrame, unreliableDelivered]
      split_ifs
      · exact h.pop hs' rfl
      · exact (h.pop hs' rfl).congr (by cases m.sock.sync <;> rfl) rfl rfl rfl id
    | _ => simp [Frame.IsReceive] at hf

theorem reliableInv_reachable {m : Machine α} (h : Reachable m) : ReliableInv m := by
  induction h with
  | init => exact reliableInv_init
  | step ev hr hs ih => exact reliableInv_step (shape_reachable hr) ih hs

/-- Whatever arrives and whatever the callbacks do, the reliable callback sees
the successors of the first sync number, in order, and no sequence number twice
within 2^32 deliveries. -/
theorem reliable_deliveries_follow_sync {m : Machine α} (h : Reachable m) :
    (syncedSns m.log = [] ∧ reliableSns m.log = []) ∨
    ∃ s0 k, syncedSns m.log = [s0] ∧ reliableSns m.log = List.iterate (· + 1) (s0 + 1) k ∧
      ∀ i j, i < j → j < i + 2 ^ 32 → ∀ sn,
        (reliableSns m.log)[i]? = some sn → (reliableSns m.log)[j]? ≠ some sn := by
  have hi := reliableInv_reachable h
  unfold ReliableInv at hi
  split at hi
  · exact .inl ⟨hi.1, hi.2.1⟩
  · obtain ⟨s0, k, h1, h2, -⟩ := hi
    refine .inr ⟨s0, k, h1, h2, fun i j hij hj sn hsn => ?_⟩
    rw [h2] at hsn ⊢
    exact iterate_succ_window _ hij hj sn hsn

set_option maxRecDepth 20000 in
/-- The datagram that brings the sync number 0 carries message 2 before
message 1: 2 waits in the map, 1 takes the fast path, and once the callback is
registered again from inside the first call, the replay delivers 2. -/
theorem reliable_deliveries_after_out_of_order :
    ∃ m : Machine ListAckSet,
      run init
        [.call (.rendezvousConnect ⟨.host 2, 7⟩), .call .receiveReliable,
         .punched 0 (.ok ⟨.host 2, 7⟩), .resume, .returned,
         .received none ⟨.host 2, 7⟩ (encodePacket (⟨[]⟩ : ListAckSet)
           [⟨.sync, 0, 0, 0, []⟩, ⟨.reliable, 2, 1, 0, [8]⟩, ⟨.reliable, 1, 1, 0, [7]⟩]),
         .resume, .resume, .resume, .resume, .call .receiveReliable, .returned, .resume, .returned,
         .resume, .resume, .resume] = some m ∧
      reliableSns m.log = [1, 2] ∧
      ((syncedSns m.log = [] ∧ reliableSns m.log = []) ∨
        ∃ s0 k, syncedSns m.log = [s0] ∧ reliableSns m.log = List.iterate (· + 1) (s0 + 1) k ∧
          ∀ i j, i < j → j < i + 2 ^ 32 → ∀ sn,
            (reliableSns m.log)[i]? = some sn → (reliableSns m.log)[j]? ≠ some sn) := by
  obtain ⟨m, hm, hr⟩ : ∃ m : Machine ListAckSet,
      run init
        [.call (.rendezvousConnect ⟨.host 2, 7⟩), .call .receiveReliable,
         .punched 0 (.ok ⟨.host 2, 7⟩), .resume, .returned,
         .received none ⟨.host 2, 7⟩ (encodePacket (⟨[]⟩ : ListAckSet)
           [⟨.sync, 0, 0, 0, []⟩, ⟨.reliable, 2, 1, 0, [8]⟩, ⟨.reliable, 1, 1, 0, [7]⟩]),
         .resume, .resume, .resume, .resume, .call .receiveReliable, .returned, .resume, .returned,
         .resume, .resume, .resume] = some m ∧
      reliableSns m.log = [1, 2] := ⟨_, rfl, rfl⟩
  exact ⟨m, hm, hr, reliable_deliveries_follow_sync (reachable_run .init hm)⟩

set_option maxRecDepth 20000 in
/-- A fragment of message 1 is stored, then a retransmission of the whole
message arrives and the fast path delivers it. The entry stays in the map under
a number already delivered, and the replay, which looks for 2 on, never reaches
it. -/
theorem delivered_message_stays_pending :
    ∃ m : Machine ListAckSet,
      run init
        [.call (.rendezvousConnect ⟨.host 2, 7⟩), .call .receiveReliable,
         .punched 0 (.ok ⟨.host 2, 7⟩), .resume, .returned,
         .received none ⟨.host 2, 7⟩
           (encodePacket (⟨[]⟩ : ListAckSet) [⟨.sync, 0, 0, 0, []⟩, ⟨.reliable, 1, 2, 0, [5]⟩]),
         .resume, .resume, .resume, .resume,
         .received none ⟨.host 2, 7⟩
           (encodePacket (⟨[]⟩ : ListAckSet) [⟨.reliable, 1, 2, 0, [5, 6]⟩]),
         .returned, .resume, .resume, .resume] = some m ∧
      reliableSns m.log = [1] ∧ m.sock.sync.map (·.lastUsedReliableSn) = some 1 ∧
      m.sock.pendingReliableMessages.keys = [1] := by
  exact ⟨_, rfl, rfl, rfl, rfl⟩

end SocketImpl

end Club.Transport
