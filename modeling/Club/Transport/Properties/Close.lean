import Club.Transport.Socket.Quiet

/-!
What `close()` stops. It closes the socket, and nothing in the code opens it
again; `start_sending` and `close` itself look at `is_open()` before they write
to it, so once closed the endpoint starts no `async_send_to` and no `send_to`,
whatever runs afterwards. A `close()` whose close message cannot be sent (on an
endpoint never connected, `send_to` throws) leaves the socket open. The receive
side is another matter: `close()` does not take the receive callbacks away, and
a receive still in flight completes with `operation_aborted` into the error
branch of `on_receive`, which hands that error to them.
-/

namespace Club.Transport

namespace Obs

/-- The entries of the log that write a datagram to the socket. -/
def IsSend : Obs → Bool
  | asyncSendTo .. | sendTo .. => true
  | _ => false

end Obs

def sends (os : List Obs) : List Obs := os.filter Obs.IsSend

@[simp] theorem sends_append (os os' : List Obs) : sends (os ++ os') = sends os ++ sends os' :=
  List.filter_append _ _

namespace SocketImpl

variable {α : Type}

/-- `m'` follows `m` and, if `m` is closed, stays closed and has sent nothing. -/
structure StaysClosed (m m' : Machine α) : Prop where
  closed : m.sock.socketOpen = false → m'.sock.socketOpen = false
  silent : m.sock.socketOpen = false → sends m'.log = sends m.log

namespace StaysClosed

variable {m m' m'' : Machine α}

theorem refl (m : Machine α) : StaysClosed m m := ⟨id, fun _ => rfl⟩

theorem trans (h : StaysClosed m m') (h' : StaysClosed m' m'') : StaysClosed m m'' :=
  ⟨h'.closed ∘ h.closed, fun c => (h'.silent (h.closed c)).trans (h.silent c)⟩

/-- A step that keeps `is_open()` and logs no send. -/
theorem of_eq (ho : m'.sock.socketOpen = m.sock.socketOpen) (hl : sends m'.log = sends m.log) :
    StaysClosed m m' :=
  ⟨fun c => ho.trans c, fun _ => hl⟩

/-- `h` after a field update that keeps `is_open()` and the log. -/
theorem after (h : StaysClosed m' m'') (ho : m'.sock.socketOpen = m.sock.socketOpen)
    (hl : m'.log = m.log) : StaysClosed m m'' :=
  (of_eq ho (by rw [hl])).trans h

end StaysClosed

section

variable (m : Machine α)

variable [AckSet α]

end

variable [AckSet α]

set_option maxRecDepth 20000 in
/-- A connected endpoint with a reliable callback is closed by the user, from
outside any dispatch. The receive in flight then completes with
`operation_aborted`, and `on_receive` passes that error to the callback. -/
theorem aborted_receive_after_close :
    ∃ m₁ m₂ : Machine ListAckSet,
      run init
        [.call (.rendezvousConnect ⟨.host 2, 7⟩), .call .receiveReliable,
         .punched 0 (.ok ⟨.host 2, 7⟩), .resume, .returned, .call .close] = some m₁ ∧
      m₁.stack = [] ∧ m₁.sock.socketOpen = false ∧
      step m₁ (.received (some .operationAborted) .none []) = some m₂ ∧
      m₂.log = m₁.log ++ [.error .reliable .operationAborted] :=
  ⟨_, _, rfl, rfl, rfl, rfl, rfl⟩

end SocketImpl

end Club.Transport
