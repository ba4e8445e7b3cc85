import Club.Transport.Socket.Quiet

/-!
The receive frames on the stack in every reachable state: what is left of at
most one dispatch of `on_receive`, that is its loop, `handle_message`'s tail and
the callback of at most one delivery. A receive completes only on an empty
stack, and nothing a user callback can call starts a dispatch, so a second
delivery is never pending below the code that delivers.
-/

namespace Club.Transport

/-- The receive frames of one dispatch of `on_receive`, innermost first. -/
def ReceiveTail : List Frame → Prop
  | [] | [.afterMessage _ _] | [.handleMessageTail, .afterMessage _ _]
  | [.reliableDelivered _ _, .handleMessageTail, .afterMessage _ _]
  | [.unreliableDelivered _, .handleMessageTail, .afterMessage _ _] => True
  | _ => False

namespace ReceiveTail

theorem tail {f : Frame} {t : List Frame} (h : ReceiveTail (f :: t)) : ReceiveTail t := by
  unfold ReceiveTail at h; split at h <;> simp_all [ReceiveTail]

theorem afterMessage {r : List UInt8} {n : Nat} {t : List Frame}
    (h : ReceiveTail (.afterMessage r n :: t)) : t = [] := by
  unfold ReceiveTail at h; split at h <;> simp_all

theorem delivery {f : Frame} {t : List Frame} (h : ReceiveTail (f :: t))
    (hn : ∀ r n, f ≠ .afterMessage r n) (ht : f ≠ .handleMessageTail) :
    ∃ r n, t = [.handleMessageTail, .afterMessage r n] := by
  unfold ReceiveTail at h; split at h <;> simp_all [Frame.IsReceive]

end ReceiveTail

/-- How the last delivery of a kind, of `top`, stands against its counter
`last`: recorded, or its callback still running (its frame on the stack, and
`top` the successor of `last` by `next`), or the endpoint destroyed by that
callback. -/
def LastDelivery (next : SequenceNumber → SequenceNumber → Prop) (top last : SequenceNumber)
    (frames : List SequenceNumber) (destroyed : Bool) : Prop :=
  top = last ∧ frames = [] ∨ next last top ∧ (frames = [top] ∨ destroyed ∧ frames = [])

namespace SocketImpl

variable {α : Type}

def receiveFrames (m : Machine α) : List Frame := m.stack.filter Frame.IsReceive

def Shape (m : Machine α) : Prop := ReceiveTail (receiveFrames m)

theorem Quiet.receiveFrames {m m' : Machine α} (h : Quiet m m') :
    receiveFrames m' = receiveFrames m := h.frames

section

variable (m : Machine α)

theorem receiveFrames_userHandleReliableMsg (full : InMessageFull) (r : Bool) :
    receiveFrames (userHandleReliableMsg full r m) = receiveFrames m ∨
    receiveFrames (userHandleReliableMsg full r m) =
      .reliableDelivered full.sequenceNumber r :: receiveFrames m := by
  unfold userHandleReliableMsg receiveFrames
  split_ifs <;> simp [Frame.IsReceive]

theorem receiveFrames_replayPendingMessages (after : Option SequenceNumber) :
    receiveFrames (replayPendingMessages after m) = receiveFrames m ∨
    ∃ sn, receiveFrames (replayPendingMessages after m) =
      .reliableDelivered sn true :: receiveFrames m := by
  dsimp only [replayPendingMessages]
  repeat' split
  all_goals first
    | exact .inl rfl
    | exact (receiveFrames_userHandleReliableMsg m _ true).imp id (⟨_, ·⟩)

theorem receiveFrames_handleUnreliableMessage (msg : InMessagePart) :
    receiveFrames (handleUnreliableMessage msg m) = receiveFrames m ∨
    ∃ sn, receiveFrames (handleUnreliableMessage msg m) =
      .unreliableDelivered sn :: receiveFrames m := by
  rcases handleUnreliableMessage_cases msg m with h | ⟨y, -, -, ⟨pm, -, h⟩ | ⟨p, slot, -, h⟩⟩ <;> rw [h]
  · exact .inl rfl
  · exact .inl rfl
  · exact .inr ⟨msg.sequenceNumber, by simp [deliverUnreliable, receiveFrames, Frame.IsReceive]⟩

variable [AckSet α]

theorem receiveFrames_handleReliableMessage (msg : InMessagePart) :
    receiveFrames (handleReliableMessage msg m) = receiveFrames m ∨
    ∃ sn r, receiveFrames (handleReliableMessage msg m) =
      .reliableDelivered sn r :: receiveFrames m := by
  dsimp only [handleReliableMessage]
  repeat' split
  all_goals first
    | exact .inl rfl
    | exact (receiveFrames_userHandleReliableMsg _ _ false).imp id (⟨_, _, ·⟩)
    | exact (receiveFrames_replayPendingMessages _ none).imp id fun ⟨sn, h⟩ => ⟨sn, true, h⟩

/-- Where `close()` throws, the frames of the dispatch go with the exception. -/
theorem receiveFrames_handleError (err : ErrorCode) :
    receiveFrames (handleError err m) = receiveFrames m ∨ receiveFrames (handleError err m) = [] := by
  rcases handleError_cases err m with ⟨-, h⟩ | ⟨m', hc, h⟩ <;> rw [h]
  · exact .inr rfl
  · exact .inl ((quiet_close m hc).trans (quiet_errorCallbacks _ err)).receiveFrames

theorem receiveFrames_handleMessage (msg : InMessagePart) :
    receiveFrames (handleMessage msg m) = receiveFrames m ∨
    receiveFrames (handleMessage msg m) = [] ∨
    receiveFrames (handleMessage msg m) = .handleMessageTail :: receiveFrames m ∨
    (∃ sn r, receiveFrames (handleMessage msg m) =
      [.reliableDelivered sn r, .handleMessageTail] ++ receiveFrames m) ∨
    ∃ sn, receiveFrames (handleMessage msg m) =
      [.unreliableDelivered sn, .handleMessageTail] ++ receiveFrames m := by
  have tail : receiveFrames (m.push .handleMessageTail) = .handleMessageTail :: receiveFrames m :=
    by simp [receiveFrames, Frame.IsReceive]
  unfold handleMessage
  split
  · exact .inr (.inr (.inl (by simp only [handleSyncMessage]; split <;> simpa [receiveFrames] using tail)))
  · exact .inr (.inr (.inl tail))
  · rcases receiveFrames_handleUnreliableMessage (m.push .handleMessageTail) msg with h | ⟨sn, h⟩
    · exact .inr (.inr (.inl (h.trans tail)))
    · exact .inr (.inr (.inr (.inr ⟨sn, by rw [h, tail]; rfl⟩)))
  · rcases receiveFrames_handleReliableMessage (m.push .handleMessageTail) msg with h | ⟨sn, r, h⟩
    · exact .inr (.inr (.inl (h.trans tail)))
    · exact .inr (.inr (.inr (.inl ⟨sn, r, by rw [h, tail]; rfl⟩)))
  · exact .inr (.inr (.inl ((quiet_handleCloseMessage _).receiveFrames.trans tail)))
  · exact (receiveFrames_handleError m _).imp_right .inl

theorem receiveFrames_reliableDelivered (sn : SequenceNumber) (r : Bool) :
    receiveFrames (reliableDelivered sn r m) = receiveFrames m ∨
    ∃ sn', receiveFrames (reliableDelivered sn r m) =
      .reliableDelivered sn' true :: receiveFrames m := by
  dsimp only [reliableDelivered]
  split_ifs
  · exact .inl rfl
  · exact receiveFrames_replayPendingMessages _ _
  · exact receiveFrames_replayPendingMessages _ _

/-- The loop of `on_receive`, started with no receive frame on the stack,
leaves the frames of one dispatch. -/
theorem shape_receiveLoop (rest : List UInt8) (n : Nat) (h : receiveFrames m = []) :
    Shape (receiveLoop rest n m) := by
  cases n with
  | zero => simp [Shape, receiveLoop, (quiet_startReceiving m).receiveFrames, h, ReceiveTail]
  | succ n =>
    simp only [receiveLoop]
    split
    · simp [Shape, (quiet_handleError m _ h).receiveFrames, h, ReceiveTail]
    · rename_i msg rest _
      have am : receiveFrames (m.push (.afterMessage rest n)) = [.afterMessage rest n] := by
        simp only [receiveFrames] at h ⊢; simp [Frame.IsReceive, h]
      unfold Shape
      rcases receiveFrames_handleMessage (m.push (.afterMessage rest n)) msg
        with h' | h' | h' | ⟨sn, r, h'⟩ | ⟨sn, h'⟩ <;> simp [h', am, ReceiveTail]

theorem shape_onReceive (err : Option ErrorCode) (h : receiveFrames m = []) :
    Shape (onReceive err m) := by
  have h0 : receiveFrames { m with sock.recvTimeoutAlarm := false } = [] := h
  dsimp only [onReceive]
  split
  · simp [Shape, h, ReceiveTail]
  · split
    · simp [Shape, (quiet_errorCallbacks _ _).receiveFrames, h0, ReceiveTail]
    · split
      · simp [Shape, (quiet_startReceiving _).receiveFrames, h0, ReceiveTail]
      · split
        · simp [Shape, (quiet_handleError _ _ h0).receiveFrames, h0, ReceiveTail]
        · exact shape_receiveLoop _ _ _ ((quiet_handleAcks _ _).receiveFrames.trans h0)

end

variable [AckSet α]

theorem shape_init : Shape (init : Machine α) := by simp [Shape, receiveFrames, init, ReceiveTail]

theorem shape_step {m m' : Machine α} {ev : Event} (hs : Shape m) (h : step m ev = some m') :
    Shape m' := by
  rcases step_cases h with hq | ⟨err, m₀, -, hq, h0, rfl⟩ | ⟨f, rest, hst, hf, rfl⟩
  · rwa [Shape, hq.receiveFrames]
  · exact shape_onReceive _ _ (by simp [receiveFrames, h0])
  · have hr : receiveFrames { m with stack := rest } = rest.filter Frame.IsReceive := rfl
    unfold Shape receiveFrames at hs
    rw [hst, List.filter_cons_of_pos hf] at hs
    have ht : Shape { m with stack := rest } := hs.tail
    cases f with
    | afterMessage r n =>
      have h0 := hr.trans hs.afterMessage
      simp only [runFrame]
      split_ifs
      · exact ht
      · exact ht
      · exact shape_receiveLoop _ _ _ h0
    | handleMessageTail =>
      simp only [runFrame]
      split_ifs
      · exact ht
      · rwa [Shape, (quiet_startSending _).receiveFrames]
    | reliableDelivered sn r =>
      obtain ⟨r', n, h0⟩ := hs.delivery (by simp) (by simp)
      show Shape (reliableDelivered sn r _)
      rcases receiveFrames_reliableDelivered { m with stack := rest } sn r with h' | ⟨sn', h'⟩
      · rwa [Shape, h']
      · simp [Shape, h', hr, h0, ReceiveTail]
    | unreliableDelivered sn =>
      simp only [runFrame, unreliableDelivered]
      split_ifs <;> exact ht
    | _ => simp [Frame.IsReceive] at hf

theorem shape_reachable {m : Machine α} (h : Reachable m) : Shape m := by
  induction h with
  | init => exact shape_init
  | step ev _ hs ih => exact shape_step ih hs

end SocketImpl

end Club.Transport
