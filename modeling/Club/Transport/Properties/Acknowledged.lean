import Club.Transport.Properties.Honest

/-!
A message is dropped for an acknowledgement only once the peer has it. Every
function of the socket follows (`Follows`), and so does every step of an
endpoint but a datagram's arrival, which replaces the peer's ack set with one
decoded from `rx_buffer`, whose head is that datagram. Over two endpoints whose
network delivers only datagrams the other wrote, each ack set read is then one
the other endpoint wrote, honestly; so whatever `encode_payload` erases, and
whichever of the peer's packets arrived last, the peer had recorded the number
as its sync number or passed its message to the reliable callback.
-/

namespace Club.Transport

namespace SocketImpl

variable {α : Type} [AckSet α]

section Functions

variable (m : Machine α)

theorem follows_startReceiving : Follows m (startReceiving m) :=
  .plain [.asyncReceiveFrom] rfl rfl rfl rfl rfl rfl

theorem follows_callSecond (r2 : Bool) (err : ErrorCode) : Follows m (callSecond r2 err m) := by
  unfold callSecond
  split_ifs
  · exact .plain [_] rfl rfl rfl rfl rfl rfl
  · exact .refl m

theorem follows_errorCallbacks (err : ErrorCode) : Follows m (errorCallbacks err m) := by
  simp only [errorCallbacks]
  split_ifs
  · exact .plain [_] rfl rfl rfl rfl rfl rfl
  · exact (follows_callSecond _ _ _).after rfl rfl rfl rfl

theorem follows_encodePayload (e : Encoder) : Follows m (encodePayload m e).1 :=
  .of_log _ rfl (by simp)
    (fun s hs => (acked_encodeCycle _ _ _ _ _ _ _ s (by simpa using hs)).resolve_left
      (List.not_mem_nil _))
    rfl (fun _ h => .inl h) (fun _ h => .inl h)

theorem follows_userHandleReliableMsg (full : InMessageFull) (r : Bool) :
    Follows m (userHandleReliableMsg full r m) := by
  unfold userHandleReliableMsg
  split_ifs
  · exact .refl m
  · refine .of_log [_] rfl (by simp [datagrams]) (by simp [ackErasedSns]) rfl (fun _ h => .inl h)
      fun s hs => ?_
    simp only [Machine.invoke_stack, Machine.push_stack, reliableFrames, List.mem_cons] at hs
    rcases hs with rfl | hs
    exacts [.inr (by simp [reliableSns]), .inl hs]

theorem follows_replayPendingMessages (after : Option SequenceNumber) :
    Follows m (replayPendingMessages after m) := by
  dsimp only [replayPendingMessages]
  repeat' split
  all_goals first | exact .refl _ | exact follows_userHandleReliableMsg _ _ _

theorem follows_handleReliableMessage (msg : InMessagePart) :
    Follows m (handleReliableMessage msg m) := by
  dsimp only [handleReliableMessage]
  repeat' split
  all_goals first
    | exact .same rfl rfl rfl rfl
    | exact (follows_userHandleReliableMsg _ _ _).after rfl rfl rfl rfl
    | exact (follows_replayPendingMessages _ _).after rfl rfl rfl rfl

theorem follows_handleUnreliableMessage (msg : InMessagePart) :
    Follows m (handleUnreliableMessage msg m) := by
  rcases handleUnreliableMessage_cases msg m with h | ⟨y, -, -, ⟨pm, -, h⟩ | ⟨p, slot, -, h⟩⟩ <;> rw [h]
  · exact .refl m
  · exact .same rfl rfl rfl rfl
  · exact .plain [_] rfl rfl rfl rfl rfl rfl

theorem follows_unreliableDelivered (sn : SequenceNumber) :
    Follows m (unreliableDelivered sn m) := by
  simp only [unreliableDelivered]
  split_ifs <;> exact .same rfl rfl rfl rfl

variable [LawfulAckSet α]

theorem follows_startSending : Follows m (startSending m) := by
  have hw := Encoder.written_ofCapacity_putBytes (LawfulAckSet.encode_fits m.sock.receivedMessageIds)
  rcases startSending_cases m with h | ⟨-, -, r, m₁, rfl, rfl, h | h | h⟩ <;> rw [h]
  · exact .refl m
  · exact (follows_encodePayload m _).trans (.plain [.flushed] rfl rfl rfl rfl rfl rfl)
  · exact (follows_encodePayload m _).trans (.same rfl rfl rfl rfl)
  · refine (follows_encodePayload m _).trans (.of_log [_] rfl ?_ (by simp [ackErasedSns]) rfl
      (fun _ h => .inl h) (fun _ h => .inl h))
    have hp : AckSet.encode m.sock.receivedMessageIds <+: _ := hw ▸ prefix_encodePayload m _
    obtain ⟨rest, h⟩ := hp
    intro d hd
    simp only [datagrams, List.mem_singleton] at hd
    exact ⟨rest, hd ▸ h.symm⟩

theorem follows_close {m' : Machine α} (h : close m = some m') : Follows m m' := by
  rcases close_cases m with ⟨-, -, hc⟩ | ⟨-, hc⟩ | ⟨-, hc⟩ <;> rw [hc] at h <;> cases h
  · obtain ⟨rest, h⟩ := constructPacketWithOneMessage_prefix m.sock.receivedMessageIds
      (OutMessage.new false .close 0 [])
    refine .of_log [_] rfl ?_ (by simp [ackErasedSns]) rfl (fun _ h => .inl h) (fun _ h => .inl h)
    intro d hd
    simp only [datagrams, List.mem_singleton] at hd
    exact ⟨rest, hd ▸ h⟩
  · exact .same rfl rfl rfl rfl

theorem follows_userClose : Follows m ((close m).getD m) := by
  cases h : close m
  exacts [.refl m, follows_close m h]

theorem follows_handleError (err : ErrorCode) : Follows m (handleError err m) := by
  rcases handleError_cases err m with ⟨-, h⟩ | ⟨m', hc, h⟩ <;> rw [h]
  · exact .of_log [] (List.append_nil _).symm (by simp [datagrams]) (by simp [ackErasedSns]) rfl
      (fun _ h => .inl h) (fun _ h => by simp [reliableFrames] at h)
  · exact (follows_close m hc).trans (follows_errorCallbacks _ err)

theorem follows_handleCloseMessage : Follows m (handleCloseMessage m) :=
  (follows_handleError _ _).after rfl rfl rfl rfl

theorem follows_handleSyncMessage (msg : InMessagePart) : Follows m (handleSyncMessage msg m) := by
  dsimp only [handleSyncMessage]
  split
  · exact .same rfl rfl rfl rfl
  · refine .of_log [_] rfl (by simp [datagrams]) (by simp [ackErasedSns]) rfl (fun s hs => ?_)
      (fun _ h => .inl h)
    rcases LawfulAckSet.isIn_tryAdd hs with h | rfl
    exacts [.inl h, .inr (.inl (by simp [syncedSns]))]

theorem follows_handleMessage (msg : InMessagePart) : Follows m (handleMessage msg m) := by
  have tail : Follows m (m.push .handleMessageTail) := .same rfl rfl rfl rfl
  unfold handleMessage
  split
  · exact tail.trans (follows_handleSyncMessage _ _)
  · exact tail
  · exact tail.trans (follows_handleUnreliableMessage _ _)
  · exact tail.trans (follows_handleReliableMessage _ _)
  · exact tail.trans (follows_handleCloseMessage _)
  · exact follows_handleError _ _

theorem follows_receiveLoop (rest : List UInt8) (n : Nat) : Follows m (receiveLoop rest n m) := by
  cases n with
  | zero => exact follows_startReceiving m
  | succ n =>
    simp only [receiveLoop]
    split
    · exact follows_handleError _ _
    · exact (follows_handleMessage _ _).after rfl rfl rfl rfl

/-- A number enters the ack set after its reliable callback returned, and the
delivery was logged when the callback was invoked. -/
theorem follows_reliableDelivered {sn : SequenceNumber} (r : Bool)
    (hsn : sn ∈ reliableSns m.log) : Follows m (reliableDelivered sn r m) := by
  have hadd : Follows m { m with
      sock.receivedMessageIds := AckSet.tryAdd m.sock.receivedMessageIds sn,
      sock.sync := m.sock.sync.map fun y => { y with lastUsedReliableSn := sn } } :=
    .of_log [] (List.append_nil _).symm (by simp [datagrams]) (by simp [ackErasedSns]) rfl
      (fun _ hs => by rcases LawfulAckSet.isIn_tryAdd hs with h | rfl; exacts [.inl h, .inr (.inr hsn)])
      (fun _ h => .inl h)
  dsimp only [reliableDelivered]
  split_ifs
  · exact .refl m
  · exact hadd.trans ((follows_replayPendingMessages _ _).after rfl rfl rfl rfl)
  · exact hadd.trans (follows_replayPendingMessages _ _)

theorem follows_runFrame (f : Frame)
    (hf : ∀ sn r, f = .reliableDelivered sn r → sn ∈ reliableSns m.log) :
    Follows m (runFrame f m) := by
  cases f with
  | afterMessage rest n =>
    simp only [runFrame]
    split_ifs
    exacts [.refl m, .refl m, follows_receiveLoop _ _ _]
  | handleMessageTail =>
    simp only [runFrame]
    split_ifs
    exacts [.refl m, follows_startSending m]
  | reliableDelivered sn r => exact follows_reliableDelivered m r (hf sn r rfl)
  | unreliableDelivered sn => exact follows_unreliableDelivered m sn
  | afterFlush =>
    simp only [runFrame]
    split_ifs
    exacts [.refl m, .refl m, .same rfl rfl rfl rfl]
  | errorSecond r2 err => exact follows_callSecond m r2 err
  | punchAfterSend => exact (follows_startReceiving m).trans (.plain [_] rfl rfl rfl rfl rfl rfl)
  | user h => exact .refl m

theorem follows_rendezvousConnect (remote : UdpEndpoint) :
    Follows m (rendezvousConnect remote m) := by
  obtain ⟨rest, h⟩ := constructPacketWithOneMessage_prefix m.sock.receivedMessageIds
    (OutMessage.new true .sync m.sock.nextReliableSn [])
  refine .of_log [_] rfl ?_ (by simp [ackErasedSns]) rfl (fun _ h => .inl h) (fun _ h => .inl h)
  intro d hd
  simp only [datagrams, List.mem_singleton] at hd
  exact ⟨rest, hd ▸ h⟩

theorem follows_userCall (c : UserCall) : Follows m (userCall c m) := by
  cases c with
  | rendezvousConnect ep => exact follows_rendezvousConnect m ep
  | sendReliable data | sendUnreliable data => exact (follows_startSending _).after rfl rfl rfl rfl
  | close => exact follows_userClose m
  | receiveReliable | receiveUnreliable | flush | destroy => exact .same rfl rfl rfl rfl

theorem follows_onPunch (syn : OutMessage) (result : Except ErrorCode UdpEndpoint) :
    Follows m (onPunch syn result m) := by
  cases result with
  | error e => exact .plain [_] rfl rfl rfl rfl rfl rfl
  | ok ep => exact (follows_startSending _).after rfl rfl rfl rfl

theorem follows_onTimer (aborted : Bool) : Follows m (onTimer aborted m) := by
  simp only [onTimer]
  split_ifs
  exacts [.same rfl rfl rfl rfl, .same rfl rfl rfl rfl,
    (follows_startSending _).after rfl rfl rfl rfl]

/-- `on_receive` replaces the peer's ack set at most once, with one decoded from
`rx_buffer`, before any of the code it runs. -/
theorem onReceive_cases (err : Option ErrorCode) :
    Follows m (onReceive err m) ∨
    err = none ∧ ∃ acks rest, AckSet.decode m.state.rxBuffer = some (acks, rest) ∧
      Follows (handleAcks acks m) (onReceive err m) := by
  dsimp only [onReceive]
  split
  · exact .inl (.refl m)
  · split
    · exact .inl ((follows_errorCallbacks _ _).after rfl rfl rfl rfl)
    · split
      · exact .inl ((follows_startReceiving _).after rfl rfl rfl rfl)
      · split
        · exact .inl ((follows_handleError _ _).after rfl rfl rfl rfl)
        · rename_i acks rest hd
          exact .inr ⟨rfl, acks, rest, hd, (follows_receiveLoop _ _ _).after rfl rfl rfl rfl⟩

end Functions

theorem honest_handleAcks {m : Machine α} (acks : α) (h : Honest m) : Honest (handleAcks acks m) :=
  ⟨h.ids, h.frames, h.sent⟩

variable [LawfulAckSet α]

/-- Every step follows, but a datagram's arrival: that one replaces the peer's
ack set with one decoded from the datagram, followed by what is left in
`rx_buffer`, and follows from there. -/
theorem step_follows {m m' : Machine α} {ev : Event} (hh : Honest m) (h : step m ev = some m') :
    Follows m m' ∨
    ∃ src d acks rest, ev = .received none src d ∧
      AckSet.decode (d ++ m.state.rxBuffer.drop d.length) = some (acks, rest) ∧
      Follows (handleAcks acks m) m' := by
  cases ev with
  | call c => obtain ⟨-, rfl⟩ := step_call h; exact .inl (follows_userCall m c)
  | returned =>
    obtain ⟨hk, rest, hs, rfl⟩ := step_returned h
    exact .inl (.same rfl rfl rfl (by simp [hs, reliableFrames]))
  | resume =>
    obtain ⟨f, rest, hs, rfl⟩ := step_resume h
    have hpop : Follows m { m with stack := rest } :=
      .of_log [] (List.append_nil _).symm (by simp [datagrams]) (by simp [ackErasedSns]) rfl
        (fun _ h => .inl h) fun _ hr => .inl (hs ▸ mem_reliableFrames_cons hr)
    refine .inl (hpop.trans (follows_runFrame _ f fun sn r hf => hh.frames sn ?_))
    simp [hs, hf, reliableFrames]
  | received err src d =>
    obtain ⟨-, rfl⟩ := step_received h
    split_ifs with he
    · rcases onReceive_cases (receiveDatagram src d { m with io.receives := m.io.receives - 1 }) err
        with hf | ⟨rfl, acks, rest, hd, hf⟩
      · exact .inl (hf.after rfl rfl rfl rfl)
      · exact .inr ⟨src, d, acks, rest, rfl, hd, hf.after rfl rfl rfl rfl⟩
    · rcases onReceive_cases { m with io.receives := m.io.receives - 1 } err with hf | ⟨rfl, -⟩
      · exact .inl (hf.after rfl rfl rfl rfl)
      · simp at he
  | sent err =>
    obtain ⟨-, rfl⟩ := step_sent h
    simp only [onSend]
    split_ifs <;> exact .inl (.same rfl rfl rfl rfl)
  | timerExpired a => obtain ⟨-, rfl⟩ := step_timerExpired h; exact .inl (follows_onTimer m a)
  | keepaliveAlarm =>
    obtain ⟨-, rfl⟩ := step_keepaliveAlarm h
    exact .inl ((follows_startSending _).after rfl rfl rfl rfl)
  | recvTimeoutAlarm =>
    obtain ⟨-, rfl⟩ := step_recvTimeoutAlarm h
    exact .inl ((follows_handleError _ _).after rfl rfl rfl rfl)
  | punched i r =>
    obtain ⟨-, -, -, rfl⟩ := step_punched h
    exact .inl ((follows_onPunch _ _ _).after rfl rfl rfl rfl)

theorem honest_init : Honest (init : Machine α) :=
  ⟨fun s hs => by simp [init, LawfulAckSet.isIn_empty] at hs, fun s hs => by
    simp [init, reliableFrames] at hs, fun d hd => by simp [init, datagrams] at hd⟩

theorem honest_step {m m' : Machine α} {ev : Event} (hh : Honest m) (h : step m ev = some m') :
    Honest m' := by
  rcases step_follows hh h with hf | ⟨-, -, acks, -, -, -, hf⟩
  exacts [hf.honest hh, hf.honest (honest_handleAcks acks hh)]

/-- In every reachable state of one endpoint, whatever arrives from the
network: the ack set it keeps, and the ack set at the head of every datagram it
wrote, hold only numbers it took in, as its sync number or by calling its
reliable callback. -/
theorem acknowledges_only_taken_in {m : Machine α} (h : Reachable m) :
    (∀ s, AckSet.isIn m.sock.receivedMessageIds s = true → Known m.log s) ∧
    ∀ d ∈ datagrams m.log, ∃ (a : α) (rest : List UInt8),
      d = AckSet.encode a ++ rest ∧ ∀ s, AckSet.isIn a s = true → Known m.log s := by
  have hh : Honest m := by
    induction h with
    | init => exact honest_init
    | step ev _ hs ih => exact honest_step ih hs
  exact ⟨hh.ids, hh.sent⟩

set_option maxRecDepth 20000 in
/-- An endpoint connects, takes in the sync message and reliable message 1 of
its peer from one datagram, and sends: it acknowledges both numbers, and it
had taken both in. -/
theorem acknowledges_sync_and_message :
    let evs : List Event :=
      [.call (.rendezvousConnect ⟨.host 2, 7⟩), .call .receiveReliable,
       .punched 0 (.ok ⟨.host 2, 7⟩), .resume, .returned,
       .received none ⟨.host 2, 7⟩
         (encodePacket (AckSet.empty : RecentAckSet) [⟨.sync, 0, 0, 0, []⟩, ⟨.reliable, 1, 1, 0, [5]⟩]),
       .resume, .resume, .returned, .resume, .resume, .resume, .sent none, .timerExpired false]
    ∃ m : Machine RecentAckSet, run init evs = some m ∧
      AckSet.isIn m.sock.receivedMessageIds 0 = true ∧ AckSet.isIn m.sock.receivedMessageIds 1 = true ∧
      (∀ s, AckSet.isIn m.sock.receivedMessageIds s = true → Known m.log s) ∧
      ∀ d ∈ datagrams m.log, ∃ (a : RecentAckSet) (rest : List UInt8),
        d = AckSet.encode a ++ rest ∧ ∀ s, AckSet.isIn a s = true → Known m.log s := by
  intro evs
  obtain ⟨m, hm, h0, h1⟩ : ∃ m : Machine RecentAckSet, run init evs = some m ∧
      AckSet.isIn m.sock.receivedMessageIds 0 = true ∧ AckSet.isIn m.sock.receivedMessageIds 1 = true :=
    ⟨_, rfl, by decide, by decide⟩
  exact ⟨m, hm, h0, h1, acknowledges_only_taken_in (reachable_run .init hm)⟩

end SocketImpl

open SocketImpl

variable {α : Type} [AckSet α]

/-- The ack protocol over both endpoints: each is honest, and what each holds as
acknowledged by the other, and every message it erased for that, the other has
taken in. -/
structure LinkInv (w : Link α) : Prop where
  honest : ∀ side, Honest (w.get side)
  acked : ∀ side, Acked (Known (w.get side.other).log) (w.get side)

variable [LawfulAckSet α]

theorem linkInv_init : LinkInv (Link.init : Link α) := by
  have hh : Honest (init : Machine α) := honest_init
  have ha : Acked (Known []) (init : Machine α) :=
    ⟨fun s hs => by simp [init, LawfulAckSet.isIn_empty] at hs, fun s hs => by
      simp [init, ackErasedSns] at hs⟩
  exact ⟨fun side => by cases side <;> exact hh, fun side => by cases side <;> exact ha⟩

theorem linkInv_step {w w' : Link α} {ev : Link.Event} (hi : LinkInv w)
    (h : Link.step w ev = some w') : LinkInv w' := by
  obtain ⟨side, ev', m', hs, rfl, hd⟩ := Link.step_cases h
  have hh := hi.honest side
  -- what the moving endpoint's step keeps, and the ack set it may read
  have key : (w.get side).log <+: m'.log ∧ Honest m' ∧
      Acked (Known (w.get side.other).log) m' := by
    rcases step_follows hh hs with hf | ⟨src, d, acks, rest, rfl, hdec, hf⟩
    · exact ⟨hf.log, hf.honest hh, hf.acked (hi.acked side)⟩
    · refine ⟨hf.log, hf.honest (honest_handleAcks acks hh), hf.acked ⟨fun s hin => ?_,
        (hi.acked side).erased⟩⟩
      obtain ⟨a, rest', rfl, ha⟩ := (hi.honest side.other).sent d (hd _ _ _ rfl rfl)
      rw [List.append_assoc] at hdec
      exact ha s (LawfulAckSet.isIn_decode hdec hin)
  have ha := hi.acked side.other
  rw [Side.other_other] at ha
  refine ⟨fun s => ?_, fun s => ?_⟩ <;> rcases Side.eq_or_eq_other s side with rfl | rfl
  · simpa using key.2.1
  · simpa using hi.honest side.other
  · simpa using key.2.2
  · simpa using ha.mono fun _ hk => hk.mono key.1

theorem linkInv_reachable {w : Link α} (h : Link.Reachable w) : LinkInv w := by
  induction h with
  | init => exact linkInv_init
  | step ev _ hs ih => exact linkInv_step ih hs

/-- Over any run of two endpoints, with any loss, duplication and reordering of
their datagrams: every message an endpoint erased from its transmit queue
because the peer's ack set held its number, the peer had recorded as its sync
number or passed to its reliable callback. -/
theorem erased_only_after_peer_took_in {w : Link α} (h : Link.Reachable w) (side : Side) :
    ∀ s ∈ ackErasedSns (w.get side).log,
      s ∈ syncedSns (w.get side.other).log ∨ s ∈ reliableSns (w.get side.other).log :=
  ((linkInv_reachable h).acked side).erased

set_option maxRecDepth 20000 in
/-- Each endpoint punches through to the other. B takes in A's sync number from
A's punch packet and acknowledges it when its first send completes; A then
drops its queued sync message on its next send, and B had recorded the number. -/
theorem sync_erased_after_peer_synced :
    let evs : List Link.Event :=
      [.endpoint .a (.call (.rendezvousConnect ⟨.host 2, 7⟩)),
       .endpoint .b (.call (.rendezvousConnect ⟨.host 1, 7⟩)),
       .endpoint .a (.punched 0 (.ok ⟨.host 2, 7⟩)), .endpoint .a .resume, .endpoint .a .returned,
       .endpoint .b (.punched 0 (.ok ⟨.host 1, 7⟩)), .endpoint .b .resume, .endpoint .b .returned,
       .deliver .b ⟨.host 1, 7⟩ 0, .endpoint .b .resume, .endpoint .b .resume,
       .endpoint .b (.sent none), .endpoint .b (.timerExpired false),
       .deliver .a ⟨.host 2, 7⟩ 2, .endpoint .a .resume, .endpoint .a .resume,
       .endpoint .a (.sent none), .endpoint .a (.timerExpired false)]
    ∃ w : Link RecentAckSet, Link.run Link.init evs = some w ∧ ackErasedSns (w.get .a).log = [0] ∧
      ∀ s ∈ ackErasedSns (w.get .a).log,
        s ∈ syncedSns (w.get Side.a.other).log ∨ s ∈ reliableSns (w.get Side.a.other).log := by
  intro evs
  obtain ⟨w, hw, he⟩ : ∃ w : Link RecentAckSet, Link.run Link.init evs = some w ∧
      ackErasedSns (w.get .a).log = [0] := ⟨_, rfl, rfl⟩
  exact ⟨w, hw, he, erased_only_after_peer_took_in (Link.reachable_run .init hw) .a⟩

end Club.Transport
