import NetworkProgram.Foundation.Handles

set_option autoImplicit false

/-!
# ClientTimeout: the model of `chapter04/client-timeout.c`

`client_socket_with_timeout` makes a socket and connects it, and waits with `select` no longer
than it is told to.  How the calls go is answered in advance.
-/

namespace NetworkProgram.ClientTimeout

open NetworkProgram.Foundation

/-- File status flags. -/
abbrev Flags : Type := BitVec 32

def oRdwr : Flags := 2

def oNonblock : Flags := 2048

structure Socket where
  flags : Flags
  /-- `connect` has returned 0, or SO_ERROR was 0. -/
  connected : Bool
  deriving DecidableEq, Repr

/-- A socket as `socket` returns it. -/
def Socket.fresh : Socket where
  flags := oRdwr
  connected := false

/-- Calls wait. -/
def Socket.Blocking (s : Socket) : Prop := s.flags &&& oNonblock = 0

instance (s : Socket) : Decidable s.Blocking := inferInstanceAs (Decidable (_ = _))

/-- How `connect` returns. -/
inductive Connect
  | done
  /-- EINPROGRESS -/
  | inProgress
  | failed
  deriving DecidableEq, Repr

/-- How `select` returns. -/
inductive Wait
  /-- EINTR -/
  | interrupted
  | failed
  | timeout
  /-- Whether the socket is in either mask. -/
  | ready (write read : Bool)
  deriving DecidableEq, Repr

/-- How the calls go. -/
structure Outcomes where
  getaddrinfo : Bool
  getnameinfo : Bool
  /-- What `socket` returns, none for an error. -/
  socket : Option Nat
  connect : Connect
  select : List Wait
  /-- The value of SO_ERROR, none if `getsockopt` fails. -/
  getsockopt : Option Int

/-- What a call leaves: its result, the descriptors and the number of calls
`freeaddrinfo(res0)`. -/
structure Result where
  ret : Int
  fds : Handles Socket
  freed : Nat

/-- The descriptors, and the calls `freeaddrinfo(res0)` so far. -/
structure State where
  fds : Handles Socket
  freed : Nat

namespace State

def freeaddrinfo (s : State) : State := { s with freed := s.freed + 1 }

def close (s : State) (soc : Nat) : State := { s with fds := s.fds.close soc }

/-- The peer has answered. -/
def connect (s : State) (soc : Nat) : State :=
  match s.fds soc with
  | none => s
  | some x => { s with fds := s.fds.hold soc { x with connected := true } }

def ret (s : State) (ret : Int) : Result where
  ret := ret
  fds := s.fds
  freed := s.freed

/-- `close(soc); freeaddrinfo(res0); return (-1);` -/
def fail (s : State) (soc : Nat) : Result := ((s.close soc).freeaddrinfo).ret (-1)

end State

end NetworkProgram.ClientTimeout
