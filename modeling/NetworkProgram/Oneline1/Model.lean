import NetworkProgram.Foundation.Runs
import NetworkProgram.Kernel.Descriptors
import NetworkProgram.Libc.Memory

set_option autoImplicit false

/-!
# Oneline1: the model of `chapter06/oneline1.c`

The line server of `oneline.c` with the fixed buffer, turned into an event loop.
One `epoll` loop accepts connections and calls `send_recv_1` for every descriptor
that is readable; a call receives one byte.  A line under way is kept in the row
`g_buf[fd]` of a global table, `g_pos[fd]` says where its next byte goes, and a
zero in the first byte of the row means that there is none.

`g_len` is left out: it holds the result of `recv` until that is tested.  The
field `own` and the list `log` are bookkeeping for the specifications: no step
reads them.
-/

namespace NetworkProgram.Oneline1

open NetworkProgram.Foundation
open NetworkProgram.Kernel
open NetworkProgram.Libc

/-- `FIXED_BUFFER_SIZE` -/
def fixedBufferSize : Nat := 20

/-- `MAX_CHILD` -/
def maxChild : Nat := 20

/-! ## The table -/

/-- `g_buf[fd]`.  Its last byte is never written. -/
@[ext] structure Store where
  bytes : Bytes
  size : bytes.length = fixedBufferSize
  last : bytes[fixedBufferSize - 1]? = some 0

namespace Store

def zero : Store where
  bytes := List.replicate fixedBufferSize 0
  size := List.length_replicate
  last := rfl

/-- `g_buf[fd][i] = c` -/
def put (b : Store) (i : Nat) (c : UInt8) (h : i < fixedBufferSize - 1) : Store where
  bytes := b.bytes.set i c
  size := List.length_set.trans b.size
  last := (List.getElem?_set_ne (Nat.ne_of_lt h)).trans b.last

def clear (b : Store) : Store := b.put 0 0 (by decide)

def cut (b : Store) : Store where
  bytes := cutLine b.bytes
  size := (length_cutAt _ _).trans b.size
  last := (getElem?_cutLine b.bytes _).elim (fun h => h.trans b.last) And.left

theorem clear_head (b : Store) : b.clear.bytes.head? = some 0 := by
  obtain ⟨bytes, size, last⟩ := b
  cases bytes with
  | nil => cases size
  | cons c bytes => rfl

end Store

/-- `g_buf[fd]` and `g_pos[fd]` between two calls: a line under way has room for
another byte. -/
@[ext] structure Row where
  buf : Store
  pos : Nat
  room : buf.bytes.head? ≠ some 0 → pos < fixedBufferSize - 1

namespace Row

/-- The table is zero when the server starts. -/
def zero : Row where
  buf := .zero
  pos := 0
  room := fun _ => by decide

/-- No line is under way: `g_buf[fd][0] == '\0'`. -/
def Idle (row : Row) : Prop := row.buf.bytes.head? = some 0

instance (row : Row) : Decidable row.Idle := inferInstanceAs (Decidable (_ = _))

/-- A row with `g_buf[fd][0] = '\0'`. -/
def cleared (buf : Store) (pos : Nat) : Row where
  buf := buf.clear
  pos := pos
  room := fun h => absurd buf.clear_head h

/-- `g_pos[fd]` after the initialisation in `recv_one_line_1`. -/
def start (row : Row) : Nat := if row.Idle then 0 else row.pos

theorem start_lt (row : Row) : row.start < fixedBufferSize - 1 := by
  unfold start
  split
  · decide
  · exact row.room ‹_›

end Row

/-! ## `send_recv_1` -/

/-- What `recv` of one byte returns. -/
inductive Recv
  | error
  | eof
  | byte (c : UInt8)
  deriving DecidableEq, Repr

/-- The return value of `recv_one_line_1`, and the row it leaves. -/
structure Received where
  rv : Int
  buf : Store
  pos : Nat

def recvOneLine1 (row : Row) (answer : Recv) : Received :=
  match answer with
  | .error => { rv := -1, buf := row.buf, pos := row.start }
  | .eof =>
      { rv := if 0 < row.start then row.start else 0, buf := row.buf, pos := row.start }
  | .byte c =>
      { rv :=
          if c = lf then row.start + 1
          else if row.start + 1 = fixedBufferSize - 1 then row.start + 1
          else -2
        buf := row.buf.put row.start c row.start_lt
        pos := row.start + 1 }

/-- A line that goes on has room for its next byte. -/
theorem recvOneLine1_room {row : Row} {answer : Recv} (h : (recvOneLine1 row answer).rv = -2) :
    (recvOneLine1 row answer).pos < fixedBufferSize - 1 := by
  have hlt := row.start_lt
  cases answer with
  | error => exact hlt
  | eof => exact hlt
  | byte c =>
      dsimp only [recvOneLine1] at h ⊢
      split at h
      · omega
      · split at h
        · omega
        · omega

/-- The return value of `send_recv_1`, the row it leaves, and the message sent, if any. -/
structure Served where
  ret : Int
  row : Row
  sent : List Bytes

/-- `send_recv_1`; `delivered` is the outcome of its `send`, if it comes to that.
The reply has at most 24 bytes, so `snprintf` puts all of it into `buf2`. -/
def sendRecv1 (row : Row) (answer : Recv) (delivered : Bool) : Served :=
  let r := recvOneLine1 row answer
  if r.rv = -1 then { ret := -1, row := .cleared r.buf r.pos, sent := [] }
  else if r.rv = 0 then { ret := -1, row := .cleared r.buf r.pos, sent := [] }
  else if h : r.rv = -2 then
    { ret := -2, row := { buf := r.buf, pos := r.pos, room := fun _ => recvOneLine1_room h }
      sent := [] }
  else
    let buf := r.buf.cut
    if delivered then
      { ret := 0, row := .cleared buf r.pos, sent := [okReply (cstr buf.bytes)] }
    else { ret := -1, row := .cleared buf r.pos, sent := [] }

/-! ## `accept_loop` -/

/-- Where `accept_loop` stands.  `events` are the descriptors of the current
`epoll_wait` result that the `for` loop has still to look at. -/
inductive Pc
  /-- At the head of the `for` loop; without events left, at `epoll_wait`. -/
  | batch (events : List Nat)
  /-- `accept` returned a descriptor. -/
  | accepted (events : List Nat)
  /-- `send_recv_1` returned -1 for `fd`. -/
  | closing (fd : Nat) (events : List Nat)
  /-- `accept_loop` returned after a failed `epoll_ctl`. -/
  | returned
  deriving DecidableEq, Repr

structure State where
  pc : Pc
  /-- The local variable `acc` of `accept_loop`, if it holds a descriptor. -/
  acc : Option Nat
  count : Int
  /-- The connections' descriptors in the epoll set. -/
  interest : List Nat
  fds : Table
  /-- The number of connections accepted so far. -/
  next : ConnId
  /-- How many bytes of each connection were received. -/
  taken : ConnId → Nat
  /-- `g_buf` and `g_pos`. -/
  rows : Nat → Row
  /-- How many bytes at the start of a row its connection has written so far. -/
  own : Nat → Nat
  /-- What was sent, and on which connection. -/
  log : List (ConnId × Bytes)

def init (k : Startup) : State where
  pc := .batch []
  acc := none
  count := 0
  interest := []
  fds := k.table
  next := 0
  taken := fun _ => 0
  rows := fun _ => .zero
  own := fun _ => 0
  log := []

/-- What makes a connection readable. -/
inductive Readable
  | error
  | eof
  | byte
  deriving DecidableEq, Repr

/-- What `recv` returns when the next byte is `c`. -/
def Readable.recv (c : UInt8) : Readable → Recv
  | .error => .error
  | .eof => .eof
  | .byte => .byte c

/-- A move of `accept_loop`, with the environment's part in it.  The bytes are not
part of it: they come from the connections' streams. -/
inductive Action
  /-- `epoll_wait` reports `ready`; nothing after an error or a timeout. -/
  | epollWait (ready : List Nat)
  /-- `accept`, with the descriptor it returns, or none for an error. -/
  | accept (result : Option Nat)
  /-- The check for room and `epoll_ctl(EPOLL_CTL_ADD)`, which may fail. -/
  | register (added : Bool)
  /-- `send_recv_1` on the descriptor of the event. -/
  | sendRecv (readable : Readable) (delivered : Bool)
  /-- `epoll_ctl(EPOLL_CTL_DEL)` and `close`. -/
  | close
  deriving DecidableEq, Repr

def epollWait (k : Startup) (s : State) (ready : List Nat) : Option State :=
  match s.pc with
  | .batch [] =>
      if ready.Nodup ∧ ready.length ≤ maxChild + 1 ∧
          ∀ fd ∈ ready, fd = k.soc ∨ fd ∈ s.interest then
        some { s with pc := .batch ready }
      else none
  | _ => none

def accept (k : Startup) (s : State) (result : Option Nat) : Option State :=
  match s.pc with
  | .batch (fd :: events) =>
      if fd = k.soc then
        match result with
        | none => some { s with pc := .batch events, acc := none }
        | some acc =>
            if LowestFree s.fds acc then
              some { s with
                pc := .accepted events
                acc := some acc
                fds := Function.update s.fds acc (some (.conn s.next))
                next := s.next + 1
                own := Function.update s.own acc 0 }
            else none
      else none
  | _ => none

def register (k : Startup) (s : State) (added : Bool) : Option State :=
  match s.pc, s.acc with
  | .accepted events, some acc =>
      if s.count + 1 ≥ maxChild then
        some { s with pc := .batch events, fds := Function.update s.fds acc none }
      else if added then
        some { s with pc := .batch events, interest := acc :: s.interest, count := s.count + 1 }
      else
        some { s with
          pc := .returned
          fds := Function.update (Function.update s.fds acc none) k.epollfd none }
  | _, _ => none

/-- `send_recv_1` on a readable connection, whose bytes are `input`.  The table has
rows for the descriptors below `MAX_CHILD * 4` only. -/
def sendRecv (k : Startup) (input : ConnId → Nat → UInt8) (s : State) (readable : Readable)
    (delivered : Bool) : Option State :=
  match s.pc with
  | .batch (fd :: events) =>
      match s.fds fd with
      | some (.conn c) =>
          if fd ≠ k.soc ∧ fd < maxChild * 4 then
            let r := sendRecv1 (s.rows fd) (readable.recv (input c (s.taken c))) delivered
            some { s with
              pc := if r.ret = -1 then .closing fd events else .batch events
              rows := Function.update s.rows fd r.row
              taken :=
                if readable = .byte then Function.update s.taken c (s.taken c + 1) else s.taken
              own :=
                if readable = .byte then
                  Function.update s.own fd (max (s.own fd) ((s.rows fd).start + 1))
                else s.own
              log := s.log ++ r.sent.map fun m => (c, m) }
          else none
      | _ => none
  | _ => none

/-- `EPOLL_CTL_DEL` fails exactly when the descriptor is not in the set; the code
then closes its last accepted descriptor and returns. -/
def close (k : Startup) (s : State) : Option State :=
  match s.pc with
  | .closing fd events =>
      if fd ∈ s.interest then
        some { s with
          pc := .batch events
          interest := s.interest.erase fd
          fds := Function.update s.fds fd none
          count := s.count - 1 }
      else
        some { s with
          pc := .returned
          fds := Function.update (s.fds.closeAcc s.acc) k.epollfd none }
  | _ => none

/-- A step, when connection `c` sends the bytes `input c`. -/
def step (k : Startup) (input : ConnId → Nat → UInt8) (s : State) : Action → Option State
  | .epollWait ready => epollWait k s ready
  | .accept result => accept k s result
  | .register added => register k s added
  | .sendRecv readable delivered => sendRecv k input s readable delivered
  | .close => close k s

/-- The bytes of connections that send these streams. -/
def streams (data : List Bytes) (c : ConnId) (n : Nat) : UInt8 := (data.getD c []).getD n 0

/-- The messages sent on connection `c`, in order. -/
def sentOn (log : List (ConnId × Bytes)) (c : ConnId) : List Bytes :=
  (log.filter fun entry => entry.1 = c).map Prod.snd

end NetworkProgram.Oneline1
