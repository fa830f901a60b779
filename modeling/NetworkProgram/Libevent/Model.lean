import NetworkProgram.Foundation.Runs
import NetworkProgram.Echo.Host

set_option autoImplicit false

/-!
# Libevent: the model of `chpater12/server-libevent.c`

There is no loop: `event_dispatch` calls `accept_handler` when the listening socket is
readable, and `read_handler` for each registered event whose descriptor is.  A
connection needs three things, its descriptor, an event structure from `malloc`, and
the registration of that structure; each handler has to make or release them together.

The structures are numbered in the order in which they were allocated.  What libevent
does between two calls is not modelled: any registered event may be called next, in
any order.  `malloc` succeeds.
-/

namespace NetworkProgram.Libevent

open NetworkProgram.Foundation
open NetworkProgram.Kernel
open NetworkProgram.Libc

/-- The event structures, by rank. -/
abbrev EventId : Type := Nat

structure State where
  fds : Table
  /-- The number of connections accepted so far. -/
  next : ConnId
  /-- The number of event structures allocated so far. -/
  allocated : EventId
  /-- The descriptor in each structure, none for -1. -/
  watch : EventId → Option Nat
  /-- The registered events of `read_handler`. -/
  registered : List EventId
  /-- The structures given to `free`, in this order. -/
  freed : List EventId
  /-- What was sent, and on which connection. -/
  log : List (ConnId × Bytes)

/-- Before `event_dispatch`. -/
def init (k : Echo.Listener) : State where
  fds := k.table
  next := 0
  allocated := 0
  watch := fun _ => none
  registered := []
  freed := []
  log := []

/-! ## `accept_handler` -/

/-- What `accept` returns: a descriptor, or -1 with EINTR or another error. -/
inductive Accept
  | accepted (acc : Nat)
  | interrupted
  | error
  deriving DecidableEq, Repr

/-- `malloc`, `event_set` for the descriptor `acc`, and `event_add`; the structure is
freed when that fails. -/
def eventAdd (s : State) (acc : Option Nat) (added : Bool) : State :=
  let s' := { s with
    allocated := s.allocated + 1
    watch := Function.update s.watch s.allocated acc }
  if added then { s' with registered := s.allocated :: s'.registered }
  else { s' with freed := s'.freed ++ [s.allocated] }

theorem eventAdd_true (s : State) (acc : Option Nat) :
    eventAdd s acc true = { s with
      allocated := s.allocated + 1
      watch := Function.update s.watch s.allocated acc
      registered := s.allocated :: s.registered } := rfl

theorem eventAdd_false (s : State) (acc : Option Nat) :
    eventAdd s acc false = { s with
      allocated := s.allocated + 1
      watch := Function.update s.watch s.allocated acc
      freed := s.freed ++ [s.allocated] } := rfl

/-- `accept_handler(soc, event, arg)`; `readable` is the flag EV_READ of `event`.  After
EINTR it goes on, with -1 for the descriptor. -/
def acceptHandler (s : State) (readable : Bool) (result : Accept) (added : Bool) :
    Option State :=
  if readable then
    match result with
    | .accepted acc =>
        if LowestFree s.fds acc then
          some (eventAdd { s with
            fds := Function.update s.fds acc (some (.conn s.next))
            next := s.next + 1 } (some acc) added)
        else none
    | .interrupted => some (eventAdd s none added)
    | .error => some s
  else some s

/-! ## `read_handler` -/

/-- `close(acc)` -/
def close (fds : Table) : Option Nat → Table
  | some acc => Function.update fds acc none
  | none => fds

/-- `event_del(ev)`, `free(ev)` and `close(acc)` -/
def release (s : State) (ev : EventId) (acc : Option Nat) : State :=
  { s with
    registered := s.registered.erase ev
    freed := s.freed ++ [ev]
    fds := close s.fds acc }

/-- `read_handler(acc, event, ev)`.  What it receives, formats and sends is `send_recv` of
the other servers word for word; `recv` fails on what is not a connection. -/
def readHandler (s : State) (ev : EventId) (readable : Bool) (a : Echo.Answer) :
    Option State :=
  if ev ∈ s.registered then
    if readable then
      match (s.watch ev).bind s.fds with
      | some (.conn c) =>
          let served := Echo.sendRecv a
          let s' := { s with log := s.log ++ served.sent.map fun m => (c, m) }
          some (if served.ret = -1 then release s' ev (s.watch ev) else s')
      | _ =>
          match a.received with
          | .error => some (release s ev (s.watch ev))
          | _ => none
    else some s
  else none

/-- A call of one of the handlers, with the environment's part in it. -/
inductive Action
  | accept (readable : Bool) (result : Accept) (added : Bool)
  | read (ev : EventId) (readable : Bool) (answer : Echo.Answer)

def step (s : State) : Action → Option State
  | .accept readable result added => acceptHandler s readable result added
  | .read ev readable answer => readHandler s ev readable answer

/-! ## What a call can do -/

inductive Move (s : State) : Action → State → Prop
  | ignores {result : Accept} {added : Bool} : Move s (.accept false result added) s
  | accepts {acc : Nat} {added : Bool} (free : LowestFree s.fds acc) :
      Move s (.accept true (.accepted acc) added) (eventAdd { s with
        fds := Function.update s.fds acc (some (.conn s.next)), next := s.next + 1 }
        (some acc) added)
  | interrupted {added : Bool} : Move s (.accept true .interrupted added) (eventAdd s none added)
  | fails {added : Bool} : Move s (.accept true .error added) s
  | skips {ev : EventId} {answer : Echo.Answer} (mem : ev ∈ s.registered) :
      Move s (.read ev false answer) s
  | serves {ev : EventId} {answer : Echo.Answer} {log : List (ConnId × Bytes)}
      (mem : ev ∈ s.registered) : Move s (.read ev true answer) { s with log := log }
  | releases {ev : EventId} {answer : Echo.Answer} {log : List (ConnId × Bytes)}
      (mem : ev ∈ s.registered) :
      Move s (.read ev true answer) (release { s with log := log } ev (s.watch ev))

theorem move_of_acceptHandler {s t : State} {readable : Bool} {result : Accept} {added : Bool}
    (h : acceptHandler s readable result added = some t) :
    Move s (.accept readable result added) t := by
  unfold acceptHandler at h
  split at h
  · rename_i hread
    subst hread
    cases result with
    | accepted acc =>
        dsimp only at h
        split at h
        · rename_i free
          cases h
          exact .accepts free
        · cases h
    | interrupted => cases h; exact .interrupted
    | error => cases h; exact .fails
  · rename_i hread
    cases h
    rw [Bool.not_eq_true] at hread
    subst hread
    exact .ignores

theorem move_of_readHandler {s t : State} {ev : EventId} {readable : Bool} {answer : Echo.Answer}
    (h : readHandler s ev readable answer = some t) : Move s (.read ev readable answer) t := by
  unfold readHandler at h
  split at h
  · rename_i mem
    split at h
    · rename_i hread
      subst hread
      split at h
      · dsimp only at h
        split at h
        · cases h
          exact .releases mem
        · cases h
          exact .serves mem
      · split at h
        · cases h
          exact @Move.releases s ev answer s.log mem
        · cases h
    · rename_i hread
      cases h
      rw [Bool.not_eq_true] at hread
      subst hread
      exact .skips mem
  · cases h

theorem move_of_step {s t : State} {a : Action} (h : step s a = some t) : Move s a t := by
  cases a with
  | accept readable result added => exact move_of_acceptHandler h
  | read ev readable answer => exact move_of_readHandler h

end NetworkProgram.Libevent
