import NetworkProgram.Foundation.Loops

set_option autoImplicit false

/-!
# Timeout: the model of `chapter06/timeout.c`

Six functions receive with a timeout of ten seconds.  Two of them look at the clock
and at the socket again and again and sleep in between; the others wait in the
kernel.  `time` has whole seconds, and `usleep` may sleep longer than it is asked to.

Time is in microseconds.  Only one thing happens on the socket.  No system call fails
but for `EAGAIN`, and there are no signals.
-/

namespace NetworkProgram.Timeout

open NetworkProgram.Foundation

/-- `TIMEOUT_SEC` -/
def timeoutSec : Nat := 10

def second : Nat := 1000000

/-- What happens on the socket. -/
inductive Happening
  /-- So many bytes become readable. -/
  | data (k : Nat) (pos : 0 < k)
  /-- The peer closes. -/
  | closed
  deriving DecidableEq, Repr

structure Timeline where
  /-- When the function is called. -/
  start : Nat
  /-- How long the `usleep(100000)` take, one after the other. -/
  naps : Nat → Nat
  long : ∀ i, 100000 ≤ naps i
  event : Option (Nat × Happening)

/-- How `recv` waits. -/
inductive Mode
  | blocking
  /-- `O_NONBLOCK` -/
  | nonblocking
  /-- `SO_RCVTIMEO` of ten seconds -/
  | timed
  deriving DecidableEq, Repr

inductive Op
  | recv (mode : Mode)
  /-- `"Timeout\n"` is printed. -/
  | timeout
  deriving DecidableEq, Repr

structure State where
  now : Nat
  /-- The number of naps so far. -/
  slept : Nat
  mode : Mode
  rv : Int
  /-- The variable `end`. -/
  ended : Bool
  log : List Op
  deriving DecidableEq, Repr

/-- `time(NULL)` -/
def time (now : Nat) : Nat := now / second

/-! ## System calls -/

section Calls

variable (w : Timeline) (bufsize : Nat)

/-- What `recv` returns. -/
def Happening.length : Happening → Nat
  | .data k _ => min k bufsize
  | .closed => 0

/-- What has happened until `now`. -/
def Timeline.happened (now : Nat) : Option Happening :=
  match w.event with
  | some (t, e) => if t ≤ now then some e else none
  | none => none

/-- Wait until something happens or the time is over: whether it has, and when. -/
def Timeline.wait (now : Nat) : Option Happening × Nat :=
  match w.event with
  | some (t, e) =>
      if t ≤ now + timeoutSec * second then (some e, max now t)
      else (none, now + timeoutSec * second)
  | none => (none, now + timeoutSec * second)

/-- `recv`, with no length for `EAGAIN`; a blocking one may never return. -/
def recv (s : State) : Option (Option Nat × State) :=
  let s : State := { s with log := s.log ++ [.recv s.mode] }
  match s.mode with
  | .nonblocking => some ((w.happened s.now).map fun e => e.length bufsize, s)
  | .timed =>
      some ((w.wait s.now).1.map fun e => e.length bufsize, { s with now := (w.wait s.now).2 })
  | .blocking => w.event.map fun e => (some (e.2.length bufsize), { s with now := max s.now e.1 })

/-- `ioctl(FIONREAD)`: the number of unread bytes. -/
def Timeline.fionread (now : Nat) : Nat :=
  match w.happened now with
  | some (.data k _) => k
  | some .closed => 0
  | none => 0

/-- `usleep(100000)` -/
def State.nap (s : State) : State :=
  { s with now := s.now + w.naps s.slept, slept := s.slept + 1 }

/-- `fprintf(stderr, "Timeout\n"); rv = -1; end = 1;` -/
def State.timedOut (s : State) : State :=
  { s with rv := -1, ended := true, log := s.log ++ [.timeout] }

/-- `rv = recv(...); end = 1;` -/
def State.receive (s : State) : Option State :=
  (recv w bufsize s).map fun r => match r with
    | (none, s) => { s with rv := -1, ended := true }
    | (some len, s) => { s with rv := len, ended := true }

/-- `time(NULL) - start_time > TIMEOUT_SEC` -/
def Timeline.late (now : Nat) : Bool := time now - time w.start > timeoutSec

end Calls

/-! ## The loop bodies

`end` is 0 when a round begins. -/

section Bodies

variable (w : Timeline) (bufsize : Nat) (s : State)

def nonblocking : Option State :=
  let s := if w.late s.now then s.timedOut else s
  (recv w bufsize s).map fun r => match r with
    | (none, s) => s.nap w
    | (some len, s) => { s with rv := len, ended := true }

/-- The branch for a timeout falls through, to a mask that `select` has cleared. -/
def select : Option State :=
  let (ready, now) := w.wait s.now
  let s := { s with now := now }
  let s := if ready.isNone then s.timedOut else s
  if ready.isSome then s.receive w bufsize else some s

/-- The bodies for `poll` and `epoll_wait`. -/
def poll : Option State :=
  let (ready, now) := w.wait s.now
  let s := { s with now := now }
  if ready.isNone then some s.timedOut else s.receive w bufsize

def ioctl : Option State :=
  if w.late s.now then some s.timedOut
  else if w.fionread s.now = 0 then some (s.nap w)
  else s.receive w bufsize

/-- `recv` waits itself; `EAGAIN` is its timeout. -/
def setsockopt : Option State :=
  (recv w bufsize s).map fun r => match r with
    | (none, s) => s.timedOut
    | (some len, s) => { s with rv := len, ended := true }

end Bodies

/-! ## `recv_with_timeout` -/

/-- `g_mode` -/
inductive Method
  | nonblocking
  | select
  | poll
  | epoll
  | ioctl
  | setsockopt
  deriving DecidableEq, Repr

def Method.body : Method → Timeline → Nat → State → Option State
  | .nonblocking => Timeout.nonblocking
  | .select => Timeout.select
  | .poll => Timeout.poll
  | .epoll => Timeout.poll
  | .ioctl => Timeout.ioctl
  | .setsockopt => Timeout.setsockopt

/-- The socket's mode in the loop. -/
def Method.mode : Method → Mode
  | .nonblocking => .nonblocking
  | .select => .blocking
  | .poll => .blocking
  | .epoll => .blocking
  | .ioctl => .blocking
  | .setsockopt => .timed

/-- Where the loop begins.  `rv` is not initialised. -/
def Method.enter (m : Method) (w : Timeline) (rv : Int) : State where
  now := w.start
  slept := 0
  mode := m.mode
  rv := rv
  ended := false
  log := []

/-- The function returns, with the socket blocking again. -/
def Returns (m : Method) (w : Timeline) (bufsize : Nat) (rv : Int) (t : State) : Prop :=
  ∃ u, DoWhile (m.body w bufsize) State.ended (m.enter w rv) u ∧ t = { u with mode := .blocking }

end NetworkProgram.Timeout
