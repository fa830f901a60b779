import NetworkProgram.Foundation.Handles
import NetworkProgram.Foundation.Runs

set_option autoImplicit false

/-!
# Afindepend: the model of `chpater12/server-afindepend.c`

`server_socket_afindepend` makes a listening socket for every address that `getaddrinfo`
returns, as far as that is possible.  `accept_loop` waits for all of them with one `select`.
How the calls go is answered in advance, address by address.
-/

namespace NetworkProgram.Afindepend

open NetworkProgram.Foundation

variable {Address : Type}

/-- What the program did with a socket. -/
structure Socket (Address : Type) where
  /-- SO_REUSEADDR -/
  reuse : Bool
  bound : Option Address
  listening : Bool
  deriving DecidableEq

/-- A socket as `socket` returns it. -/
def Socket.fresh : Socket Address where
  reuse := false
  bound := none
  listening := false

/-- An entry of the address list, with how the calls for it go. -/
structure Entry (Address : Type) where
  addr : Address
  /-- `getnameinfo` succeeds. -/
  named : Bool
  /-- What `socket` returns, none for an error. -/
  socket : Option Nat
  /-- `setsockopt`, `bind` and `listen` succeed. -/
  setsockopt : Bool
  bind : Bool
  listen : Bool

/-! ## `server_socket_afindepend` -/

/-- The local variables in the loop over the list. -/
structure State (Address : Type) where
  i : Nat
  soc : Nat → Int
  fds : Handles (Socket Address)

/-- `close(soc[i])` -/
def State.close (s : State Address) (d : Nat) : State Address := { s with fds := s.fds.close d }

/-- What is done for an entry with the socket `d` that `socket` returned. -/
def Entry.prepare (e : Entry Address) (d : Nat) (s : State Address) : State Address :=
  let s := { s with soc := Function.update s.soc s.i d, fds := s.fds.hold d .fresh }
  if e.setsockopt = false then s.close d
  else
    let s := { s with fds := s.fds.hold d { reuse := true, bound := none, listening := false } }
    if e.bind = false then s.close d
    else
      let s := { s with
        fds := s.fds.hold d { reuse := true, bound := some e.addr, listening := false } }
      if e.listen = false then s.close d
      else { s with
        i := s.i + 1
        fds := s.fds.hold d { reuse := true, bound := some e.addr, listening := true } }

/-- How the loop is left. -/
inductive Exit
  /-- At its end. -/
  | ends
  /-- `getnameinfo` has failed. -/
  | unnamed
  deriving DecidableEq, Repr

/-- The loop over the rest of the list; none where `socket` cannot answer so. -/
def socketLoop (alloc : Allocation (Socket Address)) (len : Int) :
    List (Entry Address) → State Address → Option (Exit × State Address)
  | [], s => some (.ends, s)
  | e :: res, s =>
      if (s.i : Int) < len then
        if e.named then
          match e.socket with
          | none => socketLoop alloc len res { s with soc := Function.update s.soc s.i (-1) }
          | some d => if alloc.gives s.fds d then socketLoop alloc len res (e.prepare d s) else none
        else some (.unnamed, s)
      else some (.ends, s)

/-- What a call leaves: its result, the array, the descriptors and the number of calls
`freeaddrinfo(res0)`. -/
structure Result (Address : Type) where
  ret : Int
  soc : Nat → Int
  fds : Handles (Socket Address)
  freed : Nat

/-- `server_socket_afindepend(portnm, soc, len)`; `res0` is none if `getaddrinfo` fails. -/
def serverSocketAfindepend (alloc : Allocation (Socket Address))
    (res0 : Option (List (Entry Address))) (soc : Nat → Int) (len : Int)
    (fds : Handles (Socket Address)) : Option (Result Address) :=
  match res0 with
  | none => some { ret := -1, soc := soc, fds := fds, freed := 0 }
  | some res0 =>
      (socketLoop alloc len res0 { i := 0, soc := soc, fds := fds }).map fun
        | (.unnamed, s) => { ret := -1, soc := s.soc, fds := s.fds, freed := 1 }
        | (.ends, s) =>
            if s.i = 0 then { ret := -1, soc := s.soc, fds := s.fds, freed := 0 }
            else { ret := s.i, soc := s.soc, fds := s.fds, freed := 1 }

/-! ## `accept_loop` -/

/-- The descriptors of a set. -/
abbrev Mask : Type := Int → Bool

/-- How `select` returns. -/
inductive Answer
  | error
  | timeout
  /-- The descriptors that are readable. -/
  | ready (fds : List Int)
  deriving DecidableEq, Repr

/-- How `accept` returns. -/
inductive Accepted
  | conn (acc : Nat)
  /-- EINTR -/
  | interrupted
  /-- Any other error; it takes the connection from the queue. -/
  | aborted
  deriving DecidableEq, Repr

/-- A system call of the loop. -/
inductive Call
  | select (width : Int) (answer : Answer)
  | accept (soc : Int)
  deriving DecidableEq, Repr

/-- Where the server waits. -/
inductive Pc
  /-- In `select`. -/
  | select
  /-- In `accept(soc[i])`. -/
  | accept (mask : Mask) (i : Nat)
  /-- In `send_recv_loop(acc)`. -/
  | serve (mask : Mask) (i acc : Nat)

structure Server where
  pc : Pc
  /-- The connections in the queue of each listening socket; there they stay until `accept`
  takes them. -/
  pending : Int → Nat
  /-- The calls made so far, the last one first. -/
  calls : List Call

/-- Before the first call. -/
def Server.start (pending : Int → Nat) : Server where
  pc := .select
  pending := pending
  calls := []

section AcceptLoop

variable (soc : Nat → Int) (socLen : Nat)

/-- `FD_ZERO(&mask)`, and `FD_SET(soc[i], &mask)` for each `i`.  Descriptors are taken to be
below `FD_SETSIZE`, which is 1024, so that `FD_SET` stays inside of the mask. -/
def fdSet : Mask := fun d => decide (d ∈ (List.range socLen).map soc)

/-- `soc[soc_len - 1] + 1` -/
def width : Int := soc (socLen - 1) + 1

/-- What is in the mask after the call. Only descriptors below `width` are looked at, and an
error leaves it as it was. -/
def Answer.leaves : Answer → Mask
  | .error => fdSet soc socLen
  | .timeout => fun _ => false
  | .ready fds => fun d => if d < width soc socLen then decide (d ∈ fds) else fdSet soc socLen d

/-- What is reported was asked for, and has a connection in its queue. -/
def Answer.Possible (pending : Int → Nat) : Answer → Prop
  | .error => True
  | .timeout => True
  | .ready fds => fds ≠ [] ∧
      ∀ d ∈ fds, fdSet soc socLen d = true ∧ d < width soc socLen ∧ 0 < pending d

instance (pending : Int → Nat) : ∀ a : Answer, Decidable (a.Possible soc socLen pending)
  | .error => .isTrue trivial
  | .timeout => .isTrue trivial
  | .ready _ => inferInstanceAs (Decidable (_ ∧ _))

/-- The loop over the sockets goes on from `i` to the next `accept`, or to its end. -/
def Server.next (s : Server) (mask : Mask) (i : Nat) : Server :=
  match (List.range' i (socLen - i)).find? fun j => mask (soc j) with
  | some j => { s with pc := .accept mask j, calls := .accept (soc j) :: s.calls }
  | none => { s with pc := .select }

/-- What happens next. -/
inductive Action
  /-- `select` returns. -/
  | select (answer : Answer)
  /-- `accept` returns. -/
  | accept (result : Accepted)
  /-- `send_recv_loop` returns. -/
  | close
  /-- A client connects. -/
  | arrive (d : Int)
  deriving DecidableEq, Repr

/-- `select` has returned.  The switch has no label for -1. -/
def Server.selected (s : Server) (answer : Answer) : Server :=
  let s := { s with calls := .select (width soc socLen) answer :: s.calls }
  match answer with
  | .timeout => s
  | answer => s.next soc socLen (answer.leaves soc socLen) 0

/-- A connection leaves the queue of `d`. -/
def Server.dequeue (s : Server) (d : Int) : Server :=
  { s with pending := Function.update s.pending d (s.pending d - 1) }

/-- One step of `accept_loop(soc, soc_len)`, or of a client. -/
def step (s : Server) : Action → Option Server
  | .arrive d => some { s with pending := Function.update s.pending d (s.pending d + 1) }
  | .select answer =>
      match s.pc with
      | .select =>
          if answer.Possible soc socLen s.pending then some (s.selected soc socLen answer) else none
      | _ => none
  | .accept result =>
      match s.pc with
      | .accept mask i =>
          match result with
          | .conn acc =>
              if 0 < s.pending (soc i) then
                some { s.dequeue (soc i) with pc := .serve mask i acc }
              else none
          | .interrupted => some (s.next soc socLen mask (i + 1))
          | .aborted =>
              if 0 < s.pending (soc i) then
                some ((s.dequeue (soc i)).next soc socLen mask (i + 1))
              else none
      | _ => none
  | .close =>
      match s.pc with
      | .serve mask i _ => some (s.next soc socLen mask (i + 1))
      | _ => none

end AcceptLoop

end NetworkProgram.Afindepend
