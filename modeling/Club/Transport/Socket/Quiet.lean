import Club.Transport.Socket.Step

/-!
Frame conditions. Most of the socket's code never touches the receiving
state: the send loop, `close`, the error path and every call the user can make.
`Quiet m m'` says so once (same sync state, same pending messages, same ack
set, no delivery logged, only non-receive frames pushed, `was_destroyed` never
lowered), and each such function gets one lemma; the receive invariants then
need to look only at the receive path.
-/

namespace Club.Transport

namespace Obs

/-- The entries of the log the receive invariants speak about. -/
def IsDelivery : Obs → Bool
  | reliable .. | unreliable .. | synced _ => true
  | _ => false

end Obs

def reliableSns : List Obs → List SequenceNumber
  | [] => []
  | .reliable sn _ :: os => sn :: reliableSns os
  | _ :: os => reliableSns os

def unreliableSns : List Obs → List SequenceNumber
  | [] => []
  | .unreliable sn _ :: os => sn :: unreliableSns os
  | _ :: os => unreliableSns os

def syncedSns : List Obs → List SequenceNumber
  | [] => []
  | .synced sn :: os => sn :: syncedSns os
  | _ :: os => syncedSns os

section Sns

variable (os os' : List Obs) (sn : SequenceNumber) (p : List UInt8)

@[simp] theorem reliableSns_append : reliableSns (os ++ os') = reliableSns os ++ reliableSns os' := by
  induction os using reliableSns.induct <;> simp [reliableSns, *]

@[simp] theorem unreliableSns_append :
    unreliableSns (os ++ os') = unreliableSns os ++ unreliableSns os' := by
  induction os using unreliableSns.induct <;> simp [unreliableSns, *]

@[simp] theorem syncedSns_append : syncedSns (os ++ os') = syncedSns os ++ syncedSns os' := by
  induction os using syncedSns.induct <;> simp [syncedSns, *]

end Sns

namespace Frame

/-- The frames of a dispatch of `on_receive`. -/
def IsReceive : Frame → Bool
  | afterMessage .. | handleMessageTail | reliableDelivered .. | unreliableDelivered _ => true
  | _ => false

end Frame

def reliableFrames : List Frame → List SequenceNumber
  | [] => []
  | .reliableDelivered sn _ :: fs => sn :: reliableFrames fs
  | _ :: fs => reliableFrames fs

def unreliableFrames : List Frame → List SequenceNumber
  | [] => []
  | .unreliableDelivered sn :: fs => sn :: unreliableFrames fs
  | _ :: fs => unreliableFrames fs

@[simp] theorem reliableFrames_append (fs gs : List Frame) :
    reliableFrames (fs ++ gs) = reliableFrames fs ++ reliableFrames gs := by
  induction fs using reliableFrames.induct <;> simp [reliableFrames, *]

@[simp] theorem unreliableFrames_append (fs gs : List Frame) :
    unreliableFrames (fs ++ gs) = unreliableFrames fs ++ unreliableFrames gs := by
  induction fs using unreliableFrames.induct <;> simp [unreliableFrames, *]

theorem reliableFrames_filter (fs : List Frame) :
    reliableFrames (fs.filter Frame.IsReceive) = reliableFrames fs := by
  induction fs with
  | nil => rfl
  | cons f fs ih => cases f <;> simp [reliableFrames, Frame.IsReceive, ih]

theorem unreliableFrames_filter (fs : List Frame) :
    unreliableFrames (fs.filter Frame.IsReceive) = unreliableFrames fs := by
  induction fs with
  | nil => rfl
  | cons f fs ih => cases f <;> simp [unreliableFrames, Frame.IsReceive, ih]

theorem reliableFrames_cons {f : Frame} (fs : List Frame) (hf : reliableFrames [f] = []) :
    reliableFrames (f :: fs) = reliableFrames fs := by
  simpa [hf] using reliableFrames_append [f] fs

theorem unreliableFrames_cons {f : Frame} (fs : List Frame) (hf : unreliableFrames [f] = []) :
    unreliableFrames (f :: fs) = unreliableFrames fs := by
  simpa [hf] using unreliableFrames_append [f] fs

namespace SocketImpl

variable {α : Type}

/-- `m'` follows `m` without touching what the receive path owns: the sync
state, the pending messages, the ack set, the deliveries logged and the
receive frames on the stack; and `was_destroyed` is never lowered. -/
structure Quiet (m m' : Machine α) : Prop where
  sync : m'.sock.sync = m.sock.sync
  pending : m'.sock.pendingReliableMessages = m.sock.pendingReliableMessages
  slot : m'.sock.pendingUnreliableMessage = m.sock.pendingUnreliableMessage
  ids : m'.sock.receivedMessageIds = m.sock.receivedMessageIds
  reliable : reliableSns m'.log = reliableSns m.log
  unreliable : unreliableSns m'.log = unreliableSns m.log
  synced : syncedSns m'.log = syncedSns m.log
  frames : m'.stack.filter Frame.IsReceive = m.stack.filter Frame.IsReceive
  destroyed : m.state.wasDestroyed = true → m'.state.wasDestroyed = true

namespace Quiet

variable {m m' m'' : Machine α}

theorem refl (m : Machine α) : Quiet m m := ⟨rfl, rfl, rfl, rfl, rfl, rfl, rfl, rfl, id⟩

theorem trans (h : Quiet m m') (h' : Quiet m' m'') : Quiet m m'' :=
  ⟨h'.1.trans h.1, h'.2.trans h.2, h'.3.trans h.3, h'.4.trans h.4, h'.5.trans h.5,
    h'.6.trans h.6, h'.7.trans h.7, h'.8.trans h.8, h'.9 ∘ h.9⟩

end Quiet

section

variable (m : Machine α)

@[simp] theorem reliableSns_map_ackErased (sns : List SequenceNumber) :
    reliableSns (sns.map .ackErased) = [] := by
  induction sns <;> simp [reliableSns, *]

@[simp] theorem unreliableSns_map_ackErased (sns : List SequenceNumber) :
    unreliableSns (sns.map .ackErased) = [] := by
  induction sns <;> simp [unreliableSns, *]

@[simp] theorem syncedSns_map_ackErased (sns : List SequenceNumber) :
    syncedSns (sns.map .ackErased) = [] := by
  induction sns <;> simp [syncedSns, *]

theorem quiet_startReceiving : Quiet m (startReceiving m) := by
  constructor <;> simp [startReceiving, reliableSns, unreliableSns, syncedSns]

theorem quiet_callSecond (r2 : Bool) (err : ErrorCode) : Quiet m (callSecond r2 err m) := by
  unfold callSecond
  split_ifs <;> constructor <;>
    simp [reliableSns, unreliableSns, syncedSns, Frame.IsReceive]

theorem quiet_errorCallbacks (err : ErrorCode) : Quiet m (errorCallbacks err m) := by
  simp only [errorCallbacks]
  split_ifs
  · constructor <;> simp [reliableSns, unreliableSns, syncedSns, Frame.IsReceive]
  · exact (show Quiet m _ by constructor <;> simp).trans (quiet_callSecond _ _ _)

theorem quiet_handleAcks (acks : α) : Quiet m (handleAcks acks m) := by
  constructor <;> simp [handleAcks]

theorem quiet_onSend (err : Option ErrorCode) : Quiet m (onSend err m) := by
  simp only [onSend]
  split_ifs <;> constructor <;> simp

theorem quiet_addMessage (msg : OutMessage) : Quiet m (addMessage msg m) := by
  constructor <;> simp [addMessage]

theorem quiet_pop {f : Frame} {rest : List Frame} (hs : m.stack = f :: rest)
    (hf : f.IsReceive = false) : Quiet m { m with stack := rest } := by
  constructor <;> simp [hs, hf]

end

section

variable [AckSet α] (m : Machine α)

theorem quiet_encodePayload (e : Encoder) : Quiet m (encodePayload m e).1 := by
  constructor <;> simp [encodePayload]

theorem quiet_startSending : Quiet m (startSending m) := by
  rcases startSending_cases m with h | ⟨-, -, r, m₁, hr, rfl, h | h | h⟩ <;> rw [h]
  · exact .refl m
  all_goals refine (hr ▸ quiet_encodePayload m _ : Quiet m r.1).trans ?_
  · constructor <;> simp [reliableSns, unreliableSns, syncedSns, Frame.IsReceive]
  · constructor <;> simp [startKeepaliveAlarm]
  · constructor <;> simp [reliableSns, unreliableSns, syncedSns]

theorem quiet_close {m' : Machine α} (h : close m = some m') : Quiet m m' := by
  rcases close_cases m with ⟨-, -, hc⟩ | ⟨-, hc⟩ | ⟨-, hc⟩ <;> rw [hc] at h <;> cases h <;>
    constructor <;> simp [reliableSns, unreliableSns, syncedSns]

theorem quiet_userClose : Quiet m ((close m).getD m) := by
  cases h : close m
  exacts [.refl m, quiet_close m h]

/-- `handle_error` on a stack holding no receive frame; where `close()` throws,
only the frames of the dispatch go. -/
theorem quiet_handleError (err : ErrorCode) (hs : m.stack.filter Frame.IsReceive = []) :
    Quiet m (handleError err m) := by
  rcases handleError_cases err m with ⟨-, h⟩ | ⟨m', hc, h⟩ <;> rw [h]
  · constructor <;> simp [hs]
  · exact (quiet_close m hc).trans (quiet_errorCallbacks _ err)

theorem quiet_handleCloseMessage : Quiet m (handleCloseMessage m) := by
  rw [handleCloseMessage_eq]
  exact (show Quiet m _ by constructor <;> simp).trans (quiet_errorCallbacks _ _)

theorem quiet_onTimer (aborted : Bool) : Quiet m (onTimer aborted m) := by
  simp only [onTimer]
  split_ifs
  · constructor <;> simp
  · constructor <;> simp
  · exact (show Quiet m _ by constructor <;> simp).trans (quiet_startSending _)

theorem quiet_userCall (c : UserCall) : Quiet m (userCall c m) := by
  cases c with
  | rendezvousConnect ep =>
    constructor <;> simp [userCall, rendezvousConnect, reliableSns, unreliableSns, syncedSns]
  | sendReliable data | sendUnreliable data =>
    exact (show Quiet m _ by constructor <;> simp [addMessage]).trans (quiet_startSending _)
  | close => exact quiet_userClose m
  | destroy => constructor <;> simp [userCall, destroy]
  | receiveReliable | receiveUnreliable | flush => constructor <;> simp [userCall]

theorem quiet_onPunch (syn : OutMessage) (result : Except ErrorCode UdpEndpoint) :
    Quiet m (onPunch syn result m) := by
  cases result with
  | error e =>
    constructor <;> simp [onPunch, reliableSns, unreliableSns, syncedSns, Frame.IsReceive]
  | ok ep =>
    exact (show Quiet m _ by constructor <;> simp [Frame.IsReceive]).trans (quiet_startSending _)

theorem quiet_runFrame {f : Frame} (hf : f.IsReceive = false) : Quiet m (runFrame f m) := by
  cases f with
  | afterFlush =>
    simp only [runFrame]
    split_ifs <;> constructor <;> simp [startKeepaliveAlarm]
  | errorSecond r2 err => exact quiet_callSecond m r2 err
  | punchAfterSend =>
    constructor <;> simp [runFrame, startReceiving, reliableSns, unreliableSns, syncedSns,
      Frame.IsReceive]
  | user h => exact .refl m
  | _ => simp [Frame.IsReceive] at hf

end

variable [AckSet α] {m m' : Machine α}

/-- Every step is quiet but two: a receive completing, which runs `on_receive`
from an empty stack, and the code of a receive frame resuming. -/
theorem step_cases {ev : Event} (h : step m ev = some m') :
    Quiet m m' ∨
    (∃ err m₀, m.stack = [] ∧ Quiet m m₀ ∧ m₀.stack = [] ∧ m' = onReceive err m₀) ∨
    (∃ f rest, m.stack = f :: rest ∧ f.IsReceive = true ∧
      m' = runFrame f { m with stack := rest }) := by
  cases ev with
  | call c => obtain ⟨-, rfl⟩ := step_call h; exact .inl (quiet_userCall m c)
  | returned =>
    obtain ⟨hk, rest, hs, rfl⟩ := step_returned h
    exact .inl (quiet_pop m hs rfl)
  | resume =>
    obtain ⟨f, rest, hs, rfl⟩ := step_resume h
    cases hf : f.IsReceive
    · exact .inl ((quiet_pop m hs hf).trans (quiet_runFrame _ hf))
    · exact .inr (.inr ⟨f, rest, hs, hf, rfl⟩)
  | received err src d =>
    obtain ⟨⟨hs, -⟩, rfl⟩ := step_received h
    refine .inr (.inl ⟨err, _, hs, ?_, by split_ifs <;> simp [receiveDatagram, hs], rfl⟩)
    split_ifs <;> constructor <;> simp [receiveDatagram]
  | sent err => obtain ⟨-, rfl⟩ := step_sent h; exact .inl (quiet_onSend m err)
  | timerExpired a => obtain ⟨-, rfl⟩ := step_timerExpired h; exact .inl (quiet_onTimer m a)
  | keepaliveAlarm =>
    obtain ⟨-, rfl⟩ := step_keepaliveAlarm h
    exact .inl ((show Quiet m _ by constructor <;> simp).trans
      ((quiet_addMessage _ _).trans (quiet_startSending _)))
  | recvTimeoutAlarm =>
    obtain ⟨⟨hs, -⟩, rfl⟩ := step_recvTimeoutAlarm h
    exact .inl ((show Quiet m _ by constructor <;> simp).trans (quiet_handleError _ _ (by simp [hs])))
  | punched i r =>
    obtain ⟨-, -, -, rfl⟩ := step_punched h
    exact .inl ((show Quiet m _ by constructor <;> simp).trans (quiet_onPunch _ _ _))

end SocketImpl

end Club.Transport
