import Club.Transport.Router

/-!
The operations the router has in flight. `start_sending` returns early while
`_is_sending` is set, but nothing ever sets it: the constructor clears it and
`start_sending` only clears it again. So the guard never fires, and every
`insert_message` that finds something to encode, or inbound callback followed
by one, re-encodes `tx_buffer` and starts another `async_send_to`, whatever is
in flight.

At most one receive is in flight, or one loop frame waits to restart it. A
receive that completes with an error goes to the inbound callback and is not
restarted, so from then on the transport receives nothing.

Once destroyed, the transport is inert: every later completion and frame
returns at its `was_destroyed` check, so nothing is logged and no operation
is started.
-/

set_option linter.dupNamespace false

namespace Club.Transport

namespace Transport

variable {m m' : Machine}

theorem transport_receiveLoop (msgs : List (InMessage × Nat)) (m : Machine) :
    (receiveLoop msgs m).transport = m.transport := by
  induction msgs generalizing m with
  | nil => rfl
  | cons mc rest ih =>
    obtain ⟨msg, count⟩ := mc
    simp only [receiveLoop]
    split_ifs <;> simp only [ih, Machine.invoke_transport, Machine.push_transport,
      Machine.record_transport, forwardMessage_transport]

theorem transport_foldl_handleAckEntry (acks : List AckEntry) (m : Machine) :
    (acks.foldl (fun m e => handleAckEntry e m) m).transport = m.transport := by
  induction acks generalizing m with
  | nil => rfl
  | cons e acks ih => rw [List.foldl_cons, ih, handleAckEntry_transport]

theorem transport_onReceive (err : Option ErrorCode) (src : UdpEndpoint) (acks : List AckEntry)
    (msgs : List (InMessage × Nat)) : (onReceive err src acks msgs m).transport = m.transport := by
  unfold onReceive
  cases err with
  | some e => split_ifs <;> rfl
  | none =>
    dsimp only
    split_ifs
    · rfl
    · rfl
    · rw [transport_receiveLoop, transport_foldl_handleAckEntry]

theorem isSending_startSending (count : Nat) (h : m.transport.isSending = false) :
    (startSending count m).transport.isSending = false := by
  unfold startSending
  split_ifs
  · exact h
  · rfl
  · exact h

theorem isSending_runFrame (f : Frame) (h : m.transport.isSending = false) :
    (runFrame f m).transport.isSending = false := by
  cases f with
  | afterInbound msg count rest =>
    simp only [runFrame]
    split_ifs
    · exact h
    all_goals simp only [transport_receiveLoop, forwardMessage_transport, isSending_startSending _ h]
  | user => exact h

theorem isSending_step {ev : Event} (h : m.transport.isSending = false)
    (hs : step m ev = some m') : m'.transport.isSending = false := by
  cases ev with
  | call c =>
    simp only [step] at hs; split_ifs at hs; cases hs
    cases c with
    | insertMessage count => exact isSending_startSending _ h
    | destroy => exact h
  | returned =>
    simp only [step] at hs; split at hs
    · cases hs; exact h
    · cases hs
  | resume =>
    simp only [step] at hs; split at hs
    · cases hs
    · cases hs
    · cases hs; exact isSending_runFrame _ h
  | received err src acks msgs =>
    simp only [step] at hs; split_ifs at hs; cases hs
    rw [transport_onReceive]; exact h
  | sent err =>
    simp only [step] at hs; split_ifs at hs; cases hs
    unfold onSend; split_ifs <;> exact h
  | timerExpired a count =>
    simp only [step] at hs; split_ifs at hs; cases hs
    unfold onTimer; split_ifs
    · exact h
    · exact h
    · exact isSending_startSending _ h

/-- `_is_sending` is false in every reachable state: the guard of
`start_sending` never stops a second send. -/
theorem isSending_never_set (h : Reachable m) : m.transport.isSending = false := by
  induction h with
  | init => rfl
  | step ev _ hs ih => exact isSending_step ih hs

/-- From every reachable state, an `insert_message` after which the encoders
write something starts one more `async_send_to` from `tx_buffer`, however many
are in flight. -/
theorem second_send_while_first_in_flight {count : Nat} (h : Reachable m)
    (hs : step m (.call (.insertMessage count)) = some m') (hc : 0 < count) :
    m'.sends = m.sends + 1 := by
  simp only [step] at hs
  split_ifs at hs
  cases hs
  simp only [userCall, insertMessage, startSending, isSending_never_set h, Nat.pos_iff_ne_zero.mp hc,
    Bool.false_eq_true, if_false]

/-- A transport to 2:7 inserts a message, and a second one while the first
send is in flight: two sends from `tx_buffer` are outstanding. -/
theorem second_insert_starts_second_send :
    ∃ m₁ m₂, Reachable m₁ ∧ m₁.sends = 1 ∧ step m₁ (.call (.insertMessage 1)) = some m₂ ∧
      m₂.sends = 2 :=
  ⟨_, _, .step (.call (.insertMessage 1)) (.init 0 ⟨.host 2, 7⟩) rfl, rfl, rfl,
    second_send_while_first_in_flight (.step (.call (.insertMessage 1)) (.init 0 ⟨.host 2, 7⟩) rfl)
      rfl (by decide)⟩

/-- From a destroyed transport to `m'`: operations in flight only complete,
nothing is logged and the fields stay. -/
structure Inert (m m' : Machine) : Prop where
  transport : m'.transport = m.transport
  log : m'.log = m.log
  sends : m'.sends ≤ m.sends
  timerWaits : m'.timerWaits ≤ m.timerWaits
  receives : m'.receives ≤ m.receives

theorem Inert.of_counts (ht : m'.transport = m.transport) (hl : m'.log = m.log)
    (hs : m'.sends ≤ m.sends) (hw : m'.timerWaits ≤ m.timerWaits) (hr : m'.receives ≤ m.receives) :
    Inert m m' :=
  ⟨ht, hl, hs, hw, hr⟩

theorem Inert.trans {m'' : Machine} (h : Inert m m') (h' : Inert m' m'') : Inert m m'' :=
  ⟨h'.transport.trans h.transport, h'.log.trans h.log, h'.sends.trans h.sends,
    h'.timerWaits.trans h.timerWaits, h'.receives.trans h.receives⟩

theorem runFrame_of_destroyed (f : Frame) (hd : m.transport.wasDestroyed = true) : runFrame f m = m := by
  cases f <;> simp [runFrame, hd]

theorem inert_step {ev : Event} (hd : m.transport.wasDestroyed = true) (hs : step m ev = some m') :
    Inert m m' := by
  cases ev with
  | call c => simp [step, hd] at hs
  | returned =>
    simp only [step] at hs; split at hs
    · cases hs; exact .of_counts rfl rfl le_rfl le_rfl le_rfl
    · cases hs
  | resume =>
    simp only [step] at hs; split at hs
    · cases hs
    · cases hs
    · cases hs
      rw [runFrame_of_destroyed _ (by exact hd)]
      exact .of_counts rfl rfl le_rfl le_rfl le_rfl
  | received err src acks msgs =>
    simp only [step] at hs; split_ifs at hs; cases hs
    simp only [onReceive, hd, if_true]
    exact .of_counts rfl rfl le_rfl le_rfl (Nat.sub_le _ _)
  | sent err =>
    simp only [step] at hs; split_ifs at hs; cases hs
    simp only [onSend, hd, if_true]
    exact .of_counts rfl rfl (Nat.sub_le _ _) le_rfl le_rfl
  | timerExpired a count =>
    simp only [step] at hs; split_ifs at hs; cases hs
    simp only [onTimer, hd, if_true]
    exact .of_counts rfl rfl le_rfl (Nat.sub_le _ _) le_rfl

/-- Once `~Transport` has raised the flag, no run starts an operation, tells
the inbound or outbound side anything, or changes a field. -/
theorem inert_run {evs : List Event} (hd : m.transport.wasDestroyed = true)
    (hr : run m evs = some m') : Inert m m' := by
  induction evs generalizing m with
  | nil => cases hr; exact .of_counts rfl rfl le_rfl le_rfl le_rfl
  | cons ev evs ih =>
    obtain ⟨m₁, h₁, hr⟩ := Option.bind_eq_some.mp hr
    have hi := inert_step hd h₁
    exact hi.trans (ih (hi.transport ▸ hd) hr)

/-- A frame that resumes the loop of `on_receive`, which ends by restarting
the receive. -/
def Frame.IsLoop : Frame → Bool
  | .afterInbound .. => true
  | .user => false

/-- The receives in flight and the loop frames that will restart one. -/
def receivers (m : Machine) : Nat := m.receives + m.stack.countP Frame.IsLoop

section Receivers

variable (m : Machine)

@[simp] theorem receivers_record (o : Obs) : receivers (m.record o) = receivers m := rfl

@[simp] theorem receivers_invoke (o : Obs) : receivers (m.invoke o) = receivers m := by
  simp [receivers, Machine.invoke, Frame.IsLoop]

@[simp] theorem receivers_push_afterInbound (msg : InMessage) (count : Nat) (rest : List (InMessage × Nat)) :
    receivers (m.push (.afterInbound msg count rest)) = receivers m + 1 := by
  simp [receivers, Machine.push, Frame.IsLoop, Nat.add_assoc]

@[simp] theorem receivers_startReceiving : receivers (startReceiving m) = receivers m + 1 := by
  simp only [receivers, startReceiving]; omega

@[simp] theorem receivers_forwardMessage (msg : InMessage) :
    receivers (forwardMessage msg m) = receivers m := by
  unfold forwardMessage; split <;> rfl

@[simp] theorem receivers_startSending (count : Nat) : receivers (startSending count m) = receivers m := by
  unfold startSending; split_ifs <;> rfl

theorem receivers_foldl_handleAckEntry (acks : List AckEntry) :
    receivers (acks.foldl (fun m e => handleAckEntry e m) m) = receivers m := by
  induction acks generalizing m with
  | nil => rfl
  | cons e acks ih => rw [List.foldl_cons, ih]; unfold handleAckEntry; split <;> rfl

theorem receivers_pop {f : Frame} {rest : List Frame} (h : m.stack = f :: rest) :
    receivers { m with stack := rest } + (if f.IsLoop then 1 else 0) = receivers m := by
  simp only [receivers, h, List.countP_cons]; omega

/-- The loop restarts at most one receive: at its end, or through the frame it
leaves when it hands a message to the inbound callback. -/
theorem receivers_receiveLoop (msgs : List (InMessage × Nat)) :
    receivers (receiveLoop msgs m) ≤ receivers m + 1 := by
  induction msgs generalizing m with
  | nil => exact le_of_eq (receivers_startReceiving m)
  | cons mc rest ih =>
    obtain ⟨msg, count⟩ := mc
    simp only [receiveLoop]
    split_ifs
    · exact Nat.le_succ _
    · exact ih m
    · simp
    · simp
    · exact (ih _).trans (by simp)

theorem receivers_onReceive (err : Option ErrorCode) (src : UdpEndpoint) (acks : List AckEntry)
    (msgs : List (InMessage × Nat)) : receivers (onReceive err src acks msgs m) ≤ receivers m + 1 := by
  unfold onReceive
  cases err with
  | some e => split_ifs <;> simp
  | none =>
    dsimp only
    split_ifs
    · exact Nat.le_succ _
    · simp
    · exact (receivers_receiveLoop _ _).trans (by rw [receivers_foldl_handleAckEntry])

end Receivers

/-- No step adds to the receives in flight and the loop frames: a receive is
restarted only in place of the one that completed or of the frame that
resumed. -/
theorem receivers_step {ev : Event} (hs : step m ev = some m') : receivers m' ≤ receivers m := by
  cases ev with
  | call c =>
    simp only [step] at hs; split_ifs at hs; cases hs
    cases c with
    | insertMessage count => exact le_of_eq (receivers_startSending m count)
    | destroy => exact le_refl _
  | returned =>
    simp only [step] at hs; split at hs
    · cases hs; have := receivers_pop m ‹_›; simp only [Frame.IsLoop] at this; omega
    · cases hs
  | resume =>
    simp only [step] at hs; split at hs
    · cases hs
    · cases hs
    · rename_i f rest hf hstack
      cases hs
      have hr := receivers_pop m hstack
      cases f with
      | user => exact absurd rfl hf
      | afterInbound msg count rest' =>
        simp only [Frame.IsLoop, if_true] at hr
        simp only [runFrame]
        split_ifs
        · omega
        · simp only [receivers_forwardMessage, receivers_startSending]; omega
        · refine (receivers_receiveLoop _ _).trans ?_
          simp only [receivers_forwardMessage, receivers_startSending]; omega
  | received err src acks msgs =>
    simp only [step] at hs; split_ifs at hs with hc; cases hs
    refine (receivers_onReceive _ _ _ _ _).trans ?_
    simp only [receivers]
    omega
  | sent err =>
    simp only [step] at hs; split_ifs at hs; cases hs
    unfold onSend; split_ifs <;> exact le_refl _
  | timerExpired a count =>
    simp only [step] at hs; split_ifs at hs; cases hs
    unfold onTimer; split_ifs
    exacts [le_refl _, le_refl _, le_of_eq (receivers_startSending _ count)]

theorem receivers_run {evs : List Event} (hr : run m evs = some m') : receivers m' ≤ receivers m := by
  induction evs generalizing m with
  | nil => cases hr; exact le_refl _
  | cons ev evs ih =>
    obtain ⟨m₁, h₁, hr⟩ := Option.bind_eq_some.mp hr
    exact (ih hr).trans (receivers_step h₁)

/-- In every reachable state at most one receive is in flight or waits in a
loop frame. -/
theorem receivers_le_one (h : Reachable m) : receivers m ≤ 1 := by
  induction h with
  | init => exact le_refl _
  | step ev _ hs ih => exact (receivers_step hs).trans ih

/-- A receive that completes with an error in a reachable state goes to the
inbound callback and is not restarted: over every run after it, the transport
has no receive in flight. -/
theorem receive_error_stops_receiving {e : ErrorCode} {src : UdpEndpoint} {acks : List AckEntry}
    {msgs : List (InMessage × Nat)} {evs : List Event} {m'' : Machine} (h : Reachable m)
    (hs : step m (.received (some e) src acks msgs) = some m') (hr : run m' evs = some m'') :
    m''.receives = 0 := by
  have h1 := receivers_le_one h
  simp only [step] at hs
  split_ifs at hs with hc
  cases hs
  -- the receive that completed was the only one, and it is not restarted
  have h0 : receivers { m with receives := m.receives - 1 } = 0 := by
    simp only [receivers, hc.1, List.countP_nil] at h1 ⊢
    omega
  have hd : receivers (onReceive (some e) src acks msgs { m with receives := m.receives - 1 }) = 0 := by
    simp only [onReceive]
    split_ifs
    · exact h0
    · exact (receivers_invoke _ _).trans h0
  have := (receivers_run hr).trans hd.le
  unfold receivers at this
  omega

end Transport

end Club.Transport
