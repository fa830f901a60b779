import NetworkProgram.ClientTimeout.Model

set_option autoImplicit false

/-!
# ClientTimeout: what every exit leaves

All exits behind `socket` are of two kinds.  One closes the socket, the other one leaves it
connected, and in blocking mode.
-/

namespace NetworkProgram.ClientTimeout

open NetworkProgram.Foundation

/-- What a call has to leave. -/
structure Meets (o : Outcomes) (fds : Handles Socket) (r : Result) : Prop where
  connected : r.ret ≠ -1 → ∃ soc x, r.ret = (soc : Nat) ∧ r.fds soc = some x ∧ x.Blocking ∧
    x.connected = true ∧ ∀ e, e ≠ soc → r.fds e = fds e
  failed : r.ret = -1 → r.fds = fds
  freed : r.freed = if o.getaddrinfo then 1 else 0

section Exits

variable {o : Outcomes} {fds : Handles Socket} {soc : Nat} {x : Socket} {s : State} {r : Result}

/-- The table that was found, with the socket besides; the list is not freed yet. -/
structure Holds (fds : Handles Socket) (soc : Nat) (x : Socket) (s : State) : Prop where
  fds : s.fds = fds.hold soc x
  freed : s.freed = 0

theorem Holds.connect (holds : Holds fds soc x s) :
    Holds fds soc { x with connected := true } (s.connect soc) where
  fds := by simp [State.connect, holds.fds]
  freed := by simp [State.connect, holds.fds, holds.freed]

theorem Holds.fail (holds : Holds fds soc x s) (free : fds soc = none) (got : o.getaddrinfo = true)
    (run : some (s.fail soc) = some r) : Meets o fds r := by
  obtain rfl := Option.some.inj run
  constructor
  · intro h
    exact absurd rfl h
  · intro _
    rw [State.fail, State.ret, State.freeaddrinfo, State.close, holds.fds]
    exact Handles.close_hold free
  · simp [State.fail, State.ret, State.freeaddrinfo, State.close, holds.freed, got]

/-- The socket that is waited for. -/
def Socket.waiting : Socket where
  flags := oRdwr ||| oNonblock
  connected := false

end Exits

/-- Two signals, then the peer answers. -/
def interrupted : Outcomes where
  getaddrinfo := true
  getnameinfo := true
  socket := some 3
  connect := .inProgress
  select := [.interrupted, .interrupted, .ready true false]
  getsockopt := some 0

end NetworkProgram.ClientTimeout
