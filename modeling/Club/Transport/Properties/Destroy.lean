import Club.Transport.Socket.Step

/-!
What destruction stops. `~SocketImpl` raises `was_destroyed` in the shared
state, its members' destructors close the socket, and every continuation the
socket schedules (`on_receive`, `on_send`, the pacer timer's handler) and every
piece of code after a user callback looks at that flag before it touches the
endpoint. The one exception is the `on_punch` continuation of
`rendezvous_connect`, which captures the state and never reads it: a punch that
succeeds after the endpoint is gone writes its fields, starts a receive and
calls `on_connect`.
-/

namespace Club.Transport

namespace Obs

/-- The entries of the log that start I/O on the socket. -/
def IsIo : Obs → Bool
  | asyncSendTo .. | sendTo .. | punchHole .. | asyncReceiveFrom => true
  | _ => false

end Obs

def ioStarted (os : List Obs) : List Obs := os.filter Obs.IsIo

@[simp] theorem ioStarted_append (os os' : List Obs) :
    ioStarted (os ++ os') = ioStarted os ++ ioStarted os' :=
  List.filter_append _ _

namespace SocketImpl

variable {α : Type} [AckSet α]

/-- What `destroy` leaves, as far as later events depend on it: the flag
raised, both alarms stopped, and no code of `on_punch` waiting on the stack. -/
def Dead (m : Machine α) : Prop :=
  m.state.wasDestroyed = true ∧ m.sock.recvTimeoutAlarm = false ∧
    m.sock.sendKeepaliveAlarm = false ∧ .punchAfterSend ∉ m.stack

/-- From a destroyed endpoint, every step but a punch completion leaves the
`SocketImpl` as it is and starts no I/O. -/
theorem dead_step {m m' : Machine α} {ev : Event} (hd : Dead m) (hp : ∀ i r, ev ≠ .punched i r)
    (h : step m ev = some m') : Dead m' ∧ m'.sock = m.sock ∧ ioStarted m'.log = ioStarted m.log := by
  obtain ⟨h1, h2, h3, h4⟩ := hd
  cases ev with
  | call c => simp [step, h1] at h
  | returned =>
    obtain ⟨hk, rest, hs, rfl⟩ := step_returned h
    exact ⟨⟨h1, h2, h3, by simpa [hs] using h4⟩, rfl, rfl⟩
  | resume =>
    obtain ⟨f, rest, hs, rfl⟩ := step_resume h
    have h4 : .punchAfterSend ∉ f :: rest := hs ▸ h4
    simp only [List.mem_cons, not_or] at h4
    cases f
    all_goals first
      | exact absurd rfl h4.1
      | (simp only [runFrame, callSecond]; split_ifs <;>
          simp [ioStarted, Obs.IsIo, Dead, h1, h2, h3, h4.2])
      | simp [runFrame, reliableDelivered, unreliableDelivered, Dead, h1, h2, h3, h4.2]
  | received err src d =>
    obtain ⟨-, rfl⟩ := step_received h
    split_ifs <;> simp [onReceive, receiveDatagram, h1, h2, h3, h4, Dead]
  | sent err => obtain ⟨-, rfl⟩ := step_sent h; simp [onSend, h1, h2, h3, h4, Dead]
  | timerExpired a => obtain ⟨-, rfl⟩ := step_timerExpired h; simp [onTimer, h1, h2, h3, h4, Dead]
  | keepaliveAlarm => simp [step, h3] at h
  | recvTimeoutAlarm => simp [step, h2] at h
  | punched i r => exact absurd rfl (hp i r)

theorem dead_run {m m' : Machine α} {evs : List Event} (hd : Dead m)
    (hp : ∀ i r, .punched i r ∉ evs) (h : run m evs = some m') :
    Dead m' ∧ m'.sock = m.sock ∧ ioStarted m'.log = ioStarted m.log := by
  induction evs generalizing m with
  | nil => cases h; exact ⟨hd, rfl, rfl⟩
  | cons ev evs ih =>
    simp only [run] at h
    cases hs : step m ev with
    | none => simp [hs] at h
    | some m₁ =>
      obtain ⟨hd₁, hs₁, hi₁⟩ :=
        dead_step hd (fun i r he => hp i r (he ▸ List.mem_cons_self _ _)) hs
      obtain ⟨hd', hs', hi'⟩ :=
        ih hd₁ (fun i r hm => hp i r (List.mem_cons_of_mem _ hm)) (by simpa [hs] using h)
      exact ⟨hd', hs'.trans hs₁, hi'.trans hi₁⟩

/-- Once the user destroys the endpoint, and unless a punch completes or the
rest of `on_punch` is pending, nothing touches it again: the `SocketImpl` stays
as `destroy` left it and no I/O is started. -/
theorem destroyed_endpoint_untouched {m m' : Machine α} {evs : List Event}
    (hs : .punchAfterSend ∉ m.stack) (hp : ∀ i r, .punched i r ∉ evs)
    (h : run m (.call .destroy :: evs) = some m') :
    m'.state.wasDestroyed = true ∧ m'.sock = (destroy m).sock ∧
      ioStarted m'.log = ioStarted m.log := by
  simp only [run, step] at h
  split_ifs at h
  · obtain ⟨hd, hs', hi⟩ := dead_run (show Dead (destroy m) from ⟨rfl, rfl, rfl, hs⟩) hp h
    exact ⟨hd.1, hs', hi⟩
  · cases h

set_option maxRecDepth 20000 in
/-- A connected endpoint is destroyed while its receive and its send are in
flight; both complete afterwards and touch nothing. -/
theorem destroyed_while_io_in_flight :
    ∃ m m' : Machine ListAckSet,
      run init [.call (.rendezvousConnect ⟨.host 2, 7⟩), .punched 0 (.ok ⟨.host 2, 7⟩), .resume,
        .returned] = some m ∧
      run m [.call .destroy, .sent none, .received (some .operationAborted) .none []] = some m' ∧
      m'.state.wasDestroyed = true ∧ m'.sock = (destroy m).sock ∧
        ioStarted m'.log = ioStarted m.log := by
  obtain ⟨m, hm, hs, m', hm'⟩ : ∃ m : Machine ListAckSet,
      run init [.call (.rendezvousConnect ⟨.host 2, 7⟩), .punched 0 (.ok ⟨.host 2, 7⟩), .resume,
        .returned] = some m ∧ .punchAfterSend ∉ m.stack ∧
      ∃ m', run m [.call .destroy, .sent none, .received (some .operationAborted) .none []] = some m' :=
    ⟨_, rfl, by decide, _, rfl⟩
  exact ⟨m, m', hm, hm', destroyed_endpoint_untouched hs (by simp) hm'⟩

set_option maxRecDepth 20000 in
/-- The user starts a rendezvous and destroys the endpoint, which closes its
socket, before the punch's success is handled. `on_punch` then binds the remote
endpoint and queues the sync message on the destroyed endpoint; `start_sending`
finds the socket closed, and the rest of `on_punch` starts an
`async_receive_from` and the receive timeout alarm, and calls `on_connect`. -/
theorem punch_after_destroy :
    ∃ m : Machine ListAckSet,
      run init [.call (.rendezvousConnect ⟨.host 2, 7⟩), .call .destroy,
        .punched 0 (.ok ⟨.host 2, 7⟩), .resume] = some m ∧
      m.state.wasDestroyed = true ∧ m.sock.socketOpen = false ∧
      m.sock.remoteEndpoint = ⟨.host 2, 7⟩ ∧ m.sock.transmitQueue.map (·.type) = [.sync] ∧
      m.sock.recvTimeoutAlarm = true ∧ m.io.receives = 1 ∧
      ioStarted m.log = [.punchHole ⟨.host 2, 7⟩ (constructPacketWithOneMessage (⟨[]⟩ : ListAckSet)
          (OutMessage.new true .sync 0 [])).1, .asyncReceiveFrom] ∧
      m.log.getLast? = some (.connected none) :=
  ⟨_, rfl, rfl, rfl, rfl, rfl, rfl, rfl, rfl, rfl⟩

end SocketImpl

end Club.Transport
