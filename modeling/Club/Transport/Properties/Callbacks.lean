import Club.Transport.Socket.Step

/-!
Callbacks are called once. `SocketImpl` keeps each user callback in a
`std::function` field, and every path that calls one moves it out first:
`user_handle_reliable_msg`, `handle_unreliable_message`, the flush in
`start_sending`, and `handle_error`, which moves both receive callbacks out
before it calls the first. The `on_connect` handler of `rendezvous_connect`
lives in the `punch_hole` continuation, which calls it once the punch
completes.

`budget m h` counts the callbacks of hook `h` that `m` has called and that it
still holds: in a field, in a frame that will call it, or, for `on_connect`,
in a punch in flight. No function makes a callback from nothing or calls one
it does not hold (`Spends`), and only a user call registers one. So over every
run from construction, each hook's callback is called at most as many times as
the user registered one: never twice for one registration, never without one.
-/

namespace Club.Transport

/-- The hook whose callback a log entry reports a call of. -/
def Obs.hook : Obs → Option Hook
  | .reliable .. => some .reliable
  | .unreliable .. => some .unreliable
  | .error h _ => some h
  | .flushed => some .flush
  | .connected _ => some .connect
  | _ => none

/-- The hooks whose callbacks the log reports calls of, in order. -/
def callsIn (os : List Obs) : List Hook := os.filterMap Obs.hook

@[simp] theorem callsIn_append (os os' : List Obs) :
    callsIn (os ++ os') = callsIn os ++ callsIn os' :=
  List.filterMap_append os os' _

/-- The callback a frame calls when it runs: the reliable receive callback that
`handle_error` moved out before it called the unreliable one, or the
`on_connect` handler, which `on_punch` calls after `start_sending`. -/
def Frame.holds : Frame → Option Hook
  | .errorSecond r2 _ => if r2 then some .reliable else none
  | .punchAfterSend => some .connect
  | _ => none

/-- The hooks whose callbacks the frames will call. -/
def heldIn (fs : List Frame) : List Hook := fs.filterMap Frame.holds

/-- The hook a user call registers a callback for: `rendezvous_connect` its
`on_connect` handler, the receive calls and `flush` their callback. -/
def UserCall.registers : UserCall → Option Hook
  | .rendezvousConnect _ => some .connect
  | .receiveReliable => some .reliable
  | .receiveUnreliable => some .unreliable
  | .flush => some .flush
  | _ => none

def Event.registers : Event → Option Hook
  | .call c => c.registers
  | _ => none

namespace SocketImpl

variable {α : Type}

/-- The callbacks of a hook the endpoint's fields hold: a registered receive or
flush callback, or the `on_connect` handlers of the punches in flight. -/
def registered (m : Machine α) : Hook → Nat
  | .reliable => m.sock.onReceiveReliable.toNat
  | .unreliable => m.sock.onReceiveUnreliable.toNat
  | .flush => m.sock.onFlush.toNat
  | .connect => m.io.punches.length

/-- The callbacks of `h` that `m` has called and still holds, each once. -/
def budget (m : Machine α) (h : Hook) : Nat :=
  (callsIn m.log).count h + registered m h + (heldIn m.stack).count h

/-- From `m` to `m'` no callback is made from nothing or called twice: no
hook's budget grows. -/
def Spends (m m' : Machine α) : Prop := ∀ h, budget m' h ≤ budget m h

namespace Spends

variable {m m' m'' : Machine α}

theorem refl (m : Machine α) : Spends m m := fun _ => le_refl _

theorem trans (h : Spends m m') (h' : Spends m' m'') : Spends m m'' := fun k => (h' k).trans (h k)

/-- A step that leaves the callbacks where they are and logs no call. -/
theorem of_eq {os : List Obs} (hr : registered m' = registered m)
    (hs : heldIn m'.stack = heldIn m.stack) (hl : m'.log = m.log ++ os) (ho : callsIn os = []) :
    Spends m m' := fun k => by
  simp only [budget, hr, hs, hl, callsIn_append, ho, List.append_nil, le_refl]

theorem after (h : Spends m' m'') {os : List Obs} (hr : registered m' = registered m)
    (hs : heldIn m'.stack = heldIn m.stack) (hl : m'.log = m.log ++ os) (ho : callsIn os = []) :
    Spends m m'' :=
  (of_eq hr hs hl ho).trans h

end Spends

section

variable (m : Machine α)

theorem spends_startReceiving : Spends m (startReceiving m) := .of_eq rfl rfl rfl rfl

theorem spends_userHandleReliableMsg (full : InMessageFull) (r : Bool) :
    Spends m (userHandleReliableMsg full r m) := by
  unfold userHandleReliableMsg
  split_ifs with hf
  · exact .refl m
  · intro k
    simp only [Bool.not_eq_true', Bool.not_eq_false] at hf
    cases k <;> simp [budget, registered, callsIn, heldIn, Frame.holds, Obs.hook, hf]

theorem spends_replayPendingMessages (after : Option SequenceNumber) :
    Spends m (replayPendingMessages after m) := by
  dsimp only [replayPendingMessages]
  repeat' split
  all_goals first | exact .refl _ | exact spends_userHandleReliableMsg _ _ _

/-- The unreliable callback, moved out of its field and called. -/
theorem spends_deliverUnreliable (hf : m.sock.onReceiveUnreliable = true) (sn : SequenceNumber)
    (payload : List UInt8) : Spends m (deliverUnreliable sn payload m) := fun k => by
  cases k <;> simp [budget, registered, callsIn, heldIn, Frame.holds, Obs.hook, deliverUnreliable, hf]

theorem spends_handleUnreliableMessage (msg : InMessagePart) :
    Spends m (handleUnreliableMessage msg m) := by
  by_cases hf : m.sock.onReceiveUnreliable = true
  · rcases handleUnreliableMessage_cases msg m with h | ⟨y, -, -, ⟨pm, -, h⟩ | ⟨p, slot, -, h⟩⟩ <;> rw [h]
    · exact .refl m
    · exact .of_eq rfl rfl (List.append_nil _).symm rfl
    · exact (spends_deliverUnreliable _ hf _ _).after rfl rfl (List.append_nil _).symm rfl
  · rw [show handleUnreliableMessage msg m = m by simp [handleUnreliableMessage, hf]]
    exact .refl m

/-- `handle_error`'s callbacks: both are moved out first, the reliable one into
the frame of the rest when the unreliable one is called. -/
theorem spends_errorCallbacks (err : ErrorCode) : Spends m (errorCallbacks err m) := fun k => by
  simp only [errorCallbacks, callSecond]
  cases h1 : m.sock.onReceiveUnreliable <;> cases h2 : m.sock.onReceiveReliable <;> cases k <;>
    simp [budget, registered, callsIn, heldIn, Frame.holds, Obs.hook, h1, h2]
  omega

theorem spends_unreliableDelivered (sn : SequenceNumber) : Spends m (unreliableDelivered sn m) := by
  simp only [unreliableDelivered]
  split_ifs <;> exact .of_eq rfl rfl (List.append_nil _).symm rfl

theorem spends_onSend (err : Option ErrorCode) : Spends m (onSend err m) := by
  simp only [onSend]
  split_ifs <;> exact .of_eq rfl rfl (List.append_nil _).symm rfl

variable [AckSet α]

theorem spends_reliableDelivered (sn : SequenceNumber) (r : Bool) :
    Spends m (reliableDelivered sn r m) := by
  dsimp only [reliableDelivered]
  split_ifs
  · exact .refl m
  all_goals exact (spends_replayPendingMessages _ _).after rfl rfl (List.append_nil _).symm rfl

theorem spends_handleReliableMessage (msg : InMessagePart) :
    Spends m (handleReliableMessage msg m) := by
  have h₀ : Spends m { m with sock.scheduleSendingAcks := true } :=
    .of_eq rfl rfl (List.append_nil _).symm rfl
  dsimp only [handleReliableMessage]
  split
  · exact h₀
  split
  · exact h₀
  split
  · exact h₀.trans (spends_userHandleReliableMsg _ _ _)
  split
  · exact .of_eq rfl rfl (List.append_nil _).symm rfl
  · exact (spends_replayPendingMessages _ _).after rfl rfl (List.append_nil _).symm rfl

theorem spends_encodePayload (e : Encoder) : Spends m (encodePayload m e).1 :=
  .of_eq rfl rfl rfl (by simp [callsIn, List.filterMap_map, Function.comp_def, Obs.hook])

/-- `start_sending`: the flush callback, moved out of its field and called. -/
theorem spends_startSending : Spends m (startSending m) := by
  have hp := spends_encodePayload m
    ((Encoder.ofCapacity packetSize).putBytes (AckSet.encode m.sock.receivedMessageIds))
  unfold startSending
  generalize encodePayload m _ = r at hp ⊢
  dsimp only
  split_ifs with h1 h2 h3 h4
  · exact .refl m
  · exact .refl m
  · refine hp.trans fun k => ?_
    cases k <;> simp [budget, registered, callsIn, heldIn, Frame.holds, Obs.hook, h4]
  · exact hp.trans (.of_eq rfl rfl (List.append_nil _).symm rfl)
  · exact hp.trans (.of_eq rfl rfl rfl rfl)

theorem spends_close {m' : Machine α} (h : close m = some m') : Spends m m' := by
  rcases close_cases m with ⟨-, -, hc⟩ | ⟨-, hc⟩ | ⟨-, hc⟩ <;> rw [hc] at h <;> cases h
  exacts [.of_eq rfl rfl rfl rfl, .of_eq rfl rfl (List.append_nil _).symm rfl]

theorem spends_userClose : Spends m ((close m).getD m) := by
  cases h : close m
  · exact .refl m
  · exact spends_close m h

/-- A throwing close unwinds the stack: the callbacks its frames held are
dropped, none is called. -/
theorem spends_handleError (err : ErrorCode) : Spends m (handleError err m) := by
  rcases handleError_cases err m with ⟨-, h⟩ | ⟨m', hc, h⟩ <;> rw [h]
  · exact fun k => Nat.le_add_right _ _
  · exact (spends_close m hc).trans (spends_errorCallbacks _ err)

theorem spends_handleMessage (msg : InMessagePart) : Spends m (handleMessage msg m) := by
  unfold handleMessage
  split
  · simp only [handleSyncMessage]
    split
    · exact .of_eq rfl rfl (List.append_nil _).symm rfl
    · exact .of_eq rfl rfl rfl rfl
  · exact .of_eq rfl rfl (List.append_nil _).symm rfl
  · exact (spends_handleUnreliableMessage _ _).after rfl rfl (List.append_nil _).symm rfl
  · exact (spends_handleReliableMessage _ _).after rfl rfl (List.append_nil _).symm rfl
  · exact (spends_handleError _ _).after rfl rfl (List.append_nil _).symm rfl
  · exact spends_handleError _ _

theorem spends_receiveLoop (rest : List UInt8) (n : Nat) : Spends m (receiveLoop rest n m) := by
  cases n with
  | zero => exact spends_startReceiving m
  | succ n =>
    simp only [receiveLoop]
    split
    · exact spends_handleError _ _
    · exact (spends_handleMessage _ _).after rfl rfl (List.append_nil _).symm rfl

theorem spends_onReceive (err : Option ErrorCode) : Spends m (onReceive err m) := by
  dsimp only [onReceive]
  split
  · exact .refl m
  split
  · exact (spends_errorCallbacks _ _).after rfl rfl (List.append_nil _).symm rfl
  split
  · exact (spends_startReceiving _).after rfl rfl (List.append_nil _).symm rfl
  split
  · exact (spends_handleError _ _).after rfl rfl (List.append_nil _).symm rfl
  · exact (spends_receiveLoop _ _ _).after rfl rfl (List.append_nil _).symm rfl

theorem spends_onTimer (aborted : Bool) : Spends m (onTimer aborted m) := by
  simp only [onTimer]
  split_ifs
  · exact .of_eq rfl rfl (List.append_nil _).symm rfl
  · exact .of_eq rfl rfl (List.append_nil _).symm rfl
  · exact (spends_startSending _).after rfl rfl (List.append_nil _).symm rfl

/-- The code of a frame calls at most the callback the frame holds. -/
theorem spends_runFrame (f : Frame) : Spends (m.push f) (runFrame f m) := by
  cases f with
  | afterMessage r n =>
    simp only [runFrame]
    split_ifs
    · exact .of_eq rfl rfl (List.append_nil _).symm rfl
    · exact .of_eq rfl rfl (List.append_nil _).symm rfl
    · exact (spends_receiveLoop _ _ _).after rfl rfl (List.append_nil _).symm rfl
  | handleMessageTail =>
    simp only [runFrame]
    split_ifs
    · exact .of_eq rfl rfl (List.append_nil _).symm rfl
    · exact (spends_startSending _).after rfl rfl (List.append_nil _).symm rfl
  | reliableDelivered sn r =>
    exact (spends_reliableDelivered _ _ _).after rfl rfl (List.append_nil _).symm rfl
  | unreliableDelivered sn =>
    exact (spends_unreliableDelivered _ _).after rfl rfl (List.append_nil _).symm rfl
  | afterFlush =>
    simp only [runFrame, startKeepaliveAlarm]
    split_ifs <;> exact .of_eq rfl rfl (List.append_nil _).symm rfl
  | errorSecond r2 err =>
    intro k
    cases r2 <;> cases k <;> simp [runFrame, callSecond, budget, registered, callsIn, heldIn, Frame.holds,
      Obs.hook]
    omega
  | punchAfterSend =>
    intro k
    cases k <;> simp [runFrame, startReceiving, budget, registered, callsIn, heldIn, Frame.holds,
      Obs.hook]
    omega
  | user h => exact .of_eq rfl rfl (List.append_nil _).symm rfl

/-- `on_punch` calls at most the `on_connect` handler of its punch. -/
theorem spends_onPunch (syn : OutMessage) (result : Except ErrorCode UdpEndpoint) :
    Spends (m.push .punchAfterSend) (onPunch syn result m) := by
  cases result with
  | error e =>
    intro k
    cases k <;> simp [onPunch, budget, registered, callsIn, heldIn, Frame.holds, Obs.hook]
    omega
  | ok ep => exact (spends_startSending _).after rfl rfl (List.append_nil _).symm rfl

/-- A user call registers at most the callback it names. -/
theorem budget_userCall (c : UserCall) (k : Hook) :
    budget (userCall c m) k ≤ budget m k + if c.registers = some k then 1 else 0 := by
  cases c with
  | rendezvousConnect ep =>
    cases k <;> simp [userCall, rendezvousConnect, UserCall.registers, budget, registered, callsIn,
      Obs.hook]
    omega
  | receiveReliable | receiveUnreliable | flush =>
    cases k <;> simp [userCall, UserCall.registers, budget, registered]
    omega
  | sendReliable data | sendUnreliable data =>
    exact ((spends_startSending _).after rfl rfl (List.append_nil _).symm rfl k).trans (Nat.le_add_right _ _)
  | close => exact (spends_userClose m k).trans (Nat.le_add_right _ _)
  | destroy => exact (Spends.of_eq rfl rfl (List.append_nil _).symm rfl k).trans (Nat.le_add_right _ _)

end

variable [AckSet α]

theorem budget_init (k : Hook) : budget (init : Machine α) k = 0 := by
  cases k <;> rfl

/-- Every step but a user call calls only callbacks held. -/
theorem spends_step {m m' : Machine α} {ev : Event} (h : step m ev = some m') (hc : ∀ c, ev ≠ .call c) :
    Spends m m' := by
  cases ev with
  | call c => exact absurd rfl (hc c)
  | returned =>
    obtain ⟨hk, rest, hs, rfl⟩ := step_returned h
    exact .of_eq rfl (by rw [hs]; rfl) (List.append_nil _).symm rfl
  | resume =>
    obtain ⟨f, rest, hs, rfl⟩ := step_resume h
    -- the frame on top is `f`, pushed onto the rest
    intro k
    have he : budget ({ m with stack := rest }.push f) k = budget m k := by
      unfold budget
      rw [hs]
      rfl
    exact (spends_runFrame _ f k).trans he.le
  | received err src d =>
    obtain ⟨-, rfl⟩ := step_received h
    split_ifs <;> exact (spends_onReceive _ err).after rfl rfl (List.append_nil _).symm rfl
  | sent err =>
    obtain ⟨-, rfl⟩ := step_sent h
    exact spends_onSend m err
  | timerExpired a =>
    obtain ⟨-, rfl⟩ := step_timerExpired h
    exact spends_onTimer m a
  | keepaliveAlarm =>
    obtain ⟨-, rfl⟩ := step_keepaliveAlarm h
    exact (spends_startSending _).after rfl rfl (List.append_nil _).symm rfl
  | recvTimeoutAlarm =>
    obtain ⟨-, rfl⟩ := step_recvTimeoutAlarm h
    exact (spends_handleError _ _).after rfl rfl (List.append_nil _).symm rfl
  | punched i r =>
    obtain ⟨syn, hsyn, -, rfl⟩ := step_punched h
    -- the punch's handler moves from the punches in flight into `on_punch`
    intro k
    have hlt : i < m.io.punches.length := (List.getElem?_eq_some_iff.mp hsyn).1
    have he : budget ({ m with io.punches := m.io.punches.eraseIdx i }.push .punchAfterSend) k =
        budget m k := by
      cases k <;> simp [budget, registered, heldIn, Frame.holds, List.length_eraseIdx_of_lt hlt]
      omega
    exact (spends_onPunch _ syn r k).trans he.le

/-- A step calls only callbacks held, and registers at most the one its user
call names. -/
theorem budget_step {m m' : Machine α} {ev : Event} (h : step m ev = some m') (k : Hook) :
    budget m' k ≤ budget m k + if ev.registers = some k then 1 else 0 := by
  cases ev with
  | call c => obtain ⟨-, rfl⟩ := step_call h; exact budget_userCall m c k
  | _ => exact (spends_step h nofun k).trans (Nat.le_add_right _ _)

theorem budget_run {m m' : Machine α} {evs : List Event} (h : run m evs = some m') (k : Hook) :
    budget m' k ≤ budget m k + (evs.filterMap Event.registers).count k := by
  induction evs generalizing m with
  | nil => cases h; simp
  | cons ev evs ih =>
    simp only [run] at h
    cases hs : step m ev with
    | none => simp [hs] at h
    | some m₁ =>
      have h₁ := budget_step hs k
      have h₂ := ih (by simpa [hs] using h)
      have hc : ((ev :: evs).filterMap Event.registers).count k =
          (evs.filterMap Event.registers).count k + if ev.registers = some k then 1 else 0 := by
        cases hr : ev.registers <;> simp [List.filterMap_cons, hr, List.count_cons]
      omega

/-- Over every run of one endpoint from its construction, whatever arrives from
the network and whatever the callbacks do: each hook's callback is called at
most as many times as the user registered one, so no callback is called twice
for one registration, nor without one. -/
theorem callback_calls_le_registrations {evs : List Event} {m : Machine α} (h : run init evs = some m)
    (k : Hook) : (callsIn m.log).count k ≤ (evs.filterMap Event.registers).count k := by
  have := budget_run h k
  rw [budget_init] at this
  unfold budget at this
  omega

set_option maxRecDepth 20000 in
/-- An endpoint connects, registers a reliable callback, and its receive
times out: the callback is called once, with the error. -/
theorem reliable_callback_called_once_on_timeout :
    let evs : List Event :=
      [.call (.rendezvousConnect ⟨.host 2, 7⟩), .punched 0 (.ok ⟨.host 2, 7⟩), .resume, .returned,
       .call .receiveReliable, .recvTimeoutAlarm]
    ∃ m : Machine ListAckSet, run init evs = some m ∧ (callsIn m.log).count .reliable = 1 ∧
      (callsIn m.log).count .reliable ≤ (evs.filterMap Event.registers).count .reliable := by
  intro evs
  obtain ⟨m, hm, hc⟩ : ∃ m : Machine ListAckSet, run init evs = some m ∧
      (callsIn m.log).count .reliable = 1 := ⟨_, rfl, by decide⟩
  exact ⟨m, hm, hc, callback_calls_le_registrations hm .reliable⟩

end SocketImpl

end Club.Transport
