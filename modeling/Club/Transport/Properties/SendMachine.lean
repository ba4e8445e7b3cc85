import Club.Transport.Socket.Step

/-!
The three-state send machine and the operations in flight. An `async_send_to`
is started only from `pending`, which `start_sending` leaves for `sending`;
`on_send` leaves `sending` for `pending` or `waiting` and arms the pacer timer,
whose handler returns to `pending`. So one send or one pacer wait is in flight
at a time, and the state says which. A receive is started once per dispatch of
`on_receive`, at its end, and once by a successful `rendezvous_connect`: with
at most one such success, at most one receive is in flight.
-/

namespace Club.Transport

/-- The frames whose code starts a receive when it runs: the rest of
`on_receive`'s loop, and the rest of `on_punch`. -/
def receiveStarts : List Frame → Nat
  | [] => 0
  | .afterMessage .. :: fs | .punchAfterSend :: fs => receiveStarts fs + 1
  | _ :: fs => receiveStarts fs

namespace Event

end Event

namespace SocketImpl

variable {α : Type}

/-- One send or one pacer wait in flight at most, and `_send_state` names it. -/
def SendInv (m : Machine α) : Prop :=
  m.io.sends + m.io.timerWaits ≤ 1 ∧ (m.io.sends = 1 → m.sock.sendState = .sending) ∧
    (m.io.timerWaits = 1 → m.sock.sendState = .waiting)

/-- The receives in flight and those the code on the stack will start. -/
def recvCount (m : Machine α) : Nat := m.io.receives + receiveStarts m.stack

/-- `m'` follows `m` keeping the send machine's invariant, and starting no
receive beyond `extra`. -/
structure Steady (extra : Nat) (m m' : Machine α) : Prop where
  send : SendInv m → SendInv m'
  recv : recvCount m' ≤ recvCount m + extra

namespace Steady

variable {m m' m'' : Machine α} {a b : Nat}

theorem refl (m : Machine α) : Steady 0 m m := ⟨id, Nat.le_refl _⟩

theorem trans (h : Steady a m m') (h' : Steady b m' m'') : Steady (a + b) m m'' :=
  ⟨h'.send ∘ h.send, by have := h.recv; have := h'.recv; omega⟩

theorem mono (h : Steady a m m') (hab : a ≤ b) : Steady b m m' :=
  ⟨h.send, by have := h.recv; omega⟩

/-- A step that leaves the send machine and the receives alone. -/
theorem of_eq (hs : m'.io.sends = m.io.sends) (ht : m'.io.timerWaits = m.io.timerWaits)
    (hst : m'.sock.sendState = m.sock.sendState) (hr : recvCount m' ≤ recvCount m) :
    Steady 0 m m' :=
  ⟨fun ⟨h1, h2, h3⟩ => ⟨by rw [hs, ht]; exact h1, by rw [hs, hst]; exact h2,
    by rw [ht, hst]; exact h3⟩, hr⟩

/-- `h` after a step that leaves the send machine and the receives alone. -/
theorem after (h : Steady b m' m'') (hs : m'.io.sends = m.io.sends)
    (ht : m'.io.timerWaits = m.io.timerWaits) (hst : m'.sock.sendState = m.sock.sendState)
    (hr : recvCount m' ≤ recvCount m) : Steady b m m'' :=
  ((of_eq hs ht hst hr).trans h).mono (by omega)

end Steady

@[simp] theorem recvCount_push (m : Machine α) (f : Frame) :
    recvCount (m.push f) = recvCount m + receiveStarts [f] := by
  cases f <;> simp [recvCount, receiveStarts] <;> omega

@[simp] theorem recvCount_invoke (m : Machine α) (h : Hook) (o : Obs) :
    recvCount (m.invoke h o) = recvCount m := by
  simp [recvCount, receiveStarts]

section

variable (m : Machine α)

end

variable [AckSet α]

section

variable (m : Machine α)

end

end SocketImpl

end Club.Transport
