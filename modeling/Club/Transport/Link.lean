import Club.Transport.Socket.Step

/-!
Two endpoints and the network between them. The network is UDP: it may lose,
duplicate, delay and reorder datagrams, and it carries nothing an endpoint has
not written. So a datagram arriving at one endpoint is any of those the other
has written so far, by `async_send_to`, by `send_to`, or through the
`punch_hole` collaborator, which repeats the first packet it was given; each
may arrive any number of times, in any order. Everything else is an event of
one endpoint's own run, in any interleaving with the other's.
-/

namespace Club.Transport

/-- The datagrams an endpoint has written, in order. -/
def datagrams : List Obs → List (List UInt8)
  | [] => []
  | .asyncSendTo _ d :: os | .sendTo _ d :: os | .punchHole _ d :: os => d :: datagrams os
  | _ :: os => datagrams os

@[simp] theorem datagrams_append (os os' : List Obs) :
    datagrams (os ++ os') = datagrams os ++ datagrams os' := by
  induction os using datagrams.induct <;> simp [datagrams, *]

inductive Side
  | a | b
  deriving DecidableEq, Repr

def Side.other : Side → Side
  | .a => .b
  | .b => .a

@[simp] theorem Side.other_other (s : Side) : s.other.other = s := by cases s <;> rfl

theorem Side.eq_or_eq_other (s side : Side) : s = side ∨ s = side.other := by
  cases s <;> cases side <;> simp [Side.other]

/-- The two endpoints of a connection. -/
structure Link (α : Type) where
  a : Machine α
  b : Machine α

namespace Link

variable {α : Type}

def get (w : Link α) : Side → Machine α
  | .a => w.a
  | .b => w.b

def set (w : Link α) : Side → Machine α → Link α
  | .a, m => { w with a := m }
  | .b, m => { w with b := m }

@[simp] theorem get_set_self (w : Link α) (s : Side) (m : Machine α) : (w.set s m).get s = m := by
  cases s <;> rfl

@[simp] theorem get_set_other (w : Link α) (s : Side) (m : Machine α) :
    (w.set s m).get s.other = w.get s.other := by
  cases s <;> rfl

/-- The events of a run of both endpoints. -/
inductive Event
  /-- An event of one endpoint's run other than a datagram arriving. -/
  | endpoint (side : Side) (ev : Club.Transport.Event)
  /-- The `i`-th datagram the other endpoint wrote arrives at `side` from `src`. -/
  | deliver (side : Side) (src : UdpEndpoint) (i : Nat)

variable [AckSet α]

def init : Link α := ⟨SocketImpl.init, SocketImpl.init⟩

def step (w : Link α) : Event → Option (Link α)
  | .endpoint _ (.received none _ _) => none
  | .endpoint side ev => (SocketImpl.step (w.get side) ev).map (w.set side)
  | .deliver side src i =>
    match (datagrams (w.get side.other).log)[i]? with
    | some d => (SocketImpl.step (w.get side) (.received none src d)).map (w.set side)
    | none => none

inductive Reachable : Link α → Prop
  | init : Reachable init
  | step {w w' : Link α} (ev : Event) : Reachable w → step w ev = some w' → Reachable w'

def run (w : Link α) : List Event → Option (Link α)
  | [] => some w
  | ev :: evs => (step w ev).bind (run · evs)

theorem reachable_run {w w' : Link α} (h : Reachable w) {evs : List Event}
    (hr : run w evs = some w') : Reachable w' := by
  induction evs generalizing w with
  | nil => cases hr; exact h
  | cons ev evs ih =>
    simp only [run] at hr
    cases hs : step w ev with
    | none => simp [hs] at hr
    | some w₁ => exact ih (.step ev h hs) (by simpa [hs] using hr)

/-- Every step moves one endpoint, and a datagram it receives was written by the
other. -/
theorem step_cases {w w' : Link α} {ev : Event} (h : step w ev = some w') :
    ∃ side ev' m', SocketImpl.step (w.get side) ev' = some m' ∧ w' = w.set side m' ∧
      ∀ err src d, ev' = .received err src d → err = none → d ∈ datagrams (w.get side.other).log := by
  cases ev with
  | endpoint side ev' =>
    obtain ⟨m', hm, rfl⟩ : ∃ m', SocketImpl.step (w.get side) ev' = some m' ∧ w.set side m' = w' := by
      cases ev' <;> first
        | (rename_i err _ _; cases err <;> simp_all [step])
        | simpa [step] using h
    refine ⟨side, ev', m', hm, rfl, ?_⟩
    rintro err src d rfl rfl
    simp [step] at h
  | deliver side src i =>
    simp only [step] at h
    split at h
    · obtain ⟨m', hm, rfl⟩ := Option.map_eq_some'.mp h
      refine ⟨side, _, m', hm, rfl, ?_⟩
      rintro err src' d ⟨⟩ -
      exact List.getElem?_mem ‹_›
    · cases h

/-- Each endpoint of a reachable link is reachable on its own: the link moves
one endpoint at a time, by a step of its own. -/
theorem Reachable.get {w : Link α} (h : Reachable w) (s : Side) : SocketImpl.Reachable (w.get s) := by
  induction h with
  | init => cases s <;> exact .init
  | step ev _ hs ih =>
    obtain ⟨side, ev', m', hm, rfl, -⟩ := step_cases hs
    rcases Side.eq_or_eq_other s side with rfl | rfl
    · rw [get_set_self]
      exact .step ev' ih hm
    · rw [get_set_other]
      exact ih

end Link

end Club.Transport
