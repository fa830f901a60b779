import Mathlib.Algebra.GroupWithZero.Nat
import NetworkProgram.Foundation.Runs
import NetworkProgram.Foundation.Ring
import NetworkProgram.Kernel.Descriptors
import NetworkProgram.Libc.Mystrlcat

set_option autoImplicit false

/-!
# Server9: the model of `chapter05/server9.c`

One thread runs `accept_loop`: it accepts connections, receives a message
directly into the slot `data[last]` of the queue that the descriptor selects,
and publishes the slot by advancing `last` under the queue's mutex.  One
`send_thread` for each queue takes the slot at `front`, releases the mutex, turns
the message into the reply in place and sends it.

A step is one access that the other threads can observe.  What the code does
between `pthread_mutex_lock` and `pthread_mutex_unlock` is one step; the
statements that `send_thread` runs on its slot after the unlock, and the
statements of `accept_loop` around `recv`, are steps of their own.

The fields `src` and `held` and the list `log` are bookkeeping for the
specifications: no step reads them.
-/

namespace NetworkProgram.Server9

open NetworkProgram.Foundation
open NetworkProgram.Kernel
open NetworkProgram.Libc

def maxQueueSz : Nat := 4096
abbrev maxSender : Nat := 2
def maxChild : Nat := 20

instance : NeZero maxSender := ⟨by decide⟩

/-- `sizeof(g_queue[qi].data[i].buf)`. -/
def bufSize : Nat := 512

def queueNext (i : Nat) : Nat := (i + 1) % maxQueueSz

/-- The queue of a descriptor: `fd % MAXSENDER`. -/
def queueIndex (fd : Nat) : Fin maxSender := ⟨fd % maxSender, Nat.mod_lt _ (by decide)⟩

/-! ## Data -/

/-- `struct queue_data`. -/
structure QueueData where
  acc : Nat
  buf : Bytes
  len : Int
  /-- The connection that the bytes in `buf` were received from. -/
  src : ConnId

/-- `struct queue`, less the mutex and the condition variable: the former is the
atomicity of the steps, the latter the state `waiting` of the thread. -/
structure Queue where
  front : Nat
  last : Nat
  data : Nat → QueueData
  /-- The slots with a published message that was not dequeued yet. -/
  held : Nat → Bool

/-- Where a `send_thread` stands.  From the unlock to `send` it works on slot `i`. -/
inductive SendPc
  /-- Before `pthread_mutex_lock`. -/
  | lock
  /-- Blocked in `pthread_cond_wait`. -/
  | waiting
  /-- Woken up: will take the mutex, give it back and `continue`. -/
  | woken
  /-- `buf[len] = '\0'` -/
  | terminate (i : Nat)
  /-- `strpbrk(buf, "\r\n")` -/
  | cut (i : Nat)
  /-- `mystrlcat(buf, ":OK\r\n", sizeof(buf))` -/
  | append (i : Nat)
  /-- `len = strlen(buf)` -/
  | measure (i : Nat)
  /-- `send(acc, buf, len, 0)` -/
  | reply (i : Nat)
  deriving DecidableEq, Repr

/-- The slot a `send_thread` is formatting or sending. -/
def SendPc.hand : SendPc → Option Nat
  | .lock => none
  | .waiting => none
  | .woken => none
  | .terminate i => some i
  | .cut i => some i
  | .append i => some i
  | .measure i => some i
  | .reply i => some i

/-- Where `accept_loop` stands.  `events` are the descriptors of the current
`epoll_wait` result that the `for` loop has still to look at. -/
inductive AcceptPc
  /-- At the head of the `for` loop; without events left, at `epoll_wait`. -/
  | batch (events : List Nat)
  /-- `accept` returned a descriptor. -/
  | accepted (events : List Nat)
  /-- The slot's `acc` is set, `recv` is next. -/
  | recving (fd : Nat) (events : List Nat)
  /-- `recv` returned, the `switch` on the slot's `len` is next. -/
  | recvd (fd : Nat) (events : List Nat)
  /-- `fd` is out of the epoll set, `close` is next. -/
  | closing (fd : Nat) (events : List Nat)
  /-- `accept_loop` returned after a failed `epoll_ctl`. -/
  | returned
  deriving DecidableEq, Repr

/-- What the network sees. -/
inductive Event
  /-- A `recv` returned the message `m` of connection `c`. -/
  | received (c : ConnId) (m : Bytes)
  /-- A `send` put `m`, made from a message of connection `src`, on connection `c`. -/
  | replied (c src : ConnId) (m : Bytes)
  deriving DecidableEq, Repr

structure State where
  pc : AcceptPc
  /-- The local variable `acc` of `accept_loop`, if it holds a descriptor. -/
  acc : Option Nat
  count : Int
  /-- The connections' descriptors in the epoll set. -/
  interest : List Nat
  fds : Table
  /-- The number of connections accepted so far. -/
  next : ConnId
  queues : Fin maxSender → Queue
  threads : Fin maxSender → SendPc
  log : List Event

/-- The zeroed `g_queue[qi]`. -/
def Queue.zero : Queue where
  front := 0
  last := 0
  data := fun _ => { acc := 0, buf := List.replicate bufSize 0, len := 0, src := 0 }
  held := fun _ => false

def init (k : Startup) : State where
  pc := .batch []
  acc := none
  count := 0
  interest := []
  fds := k.table
  next := 0
  queues := fun _ => .zero
  threads := fun _ => .lock
  log := []

def State.setQueue (s : State) (qi : Fin maxSender) (q : Queue) : State :=
  { s with queues := Function.update s.queues qi q }

def State.setThread (s : State) (qi : Fin maxSender) (pc : SendPc) : State :=
  { s with threads := Function.update s.threads qi pc }

def Queue.setSlot (q : Queue) (i : Nat) (slot : QueueData) : Queue :=
  { q with data := Function.update q.data i slot }

/-! ## `accept_loop` -/

/-- How `recv` answers. -/
inductive Answer
  | error
  | eof
  | data (m : Bytes)
  deriving DecidableEq, Repr

/-- A move of one of the threads, with the environment's part in it. -/
inductive Action
  /-- `epoll_wait` reports `ready`; nothing after an error or a timeout. -/
  | epollWait (ready : List Nat)
  /-- `accept`, with the descriptor it returns, or none for an error. -/
  | accept (result : Option Nat)
  /-- The check for room and `epoll_ctl(EPOLL_CTL_ADD)`, which may fail. -/
  | register (added : Bool)
  | storeAcc
  | recv (answer : Answer)
  /-- The `switch` on the received length. -/
  | dispatch
  | close
  /-- The next step of a `send_thread`; `delivered` is the outcome of a `send`. -/
  | thread (qi : Fin maxSender) (delivered : Bool)
  /-- A spurious wake-up. -/
  | wakeUp (qi : Fin maxSender)
  deriving DecidableEq, Repr

def epollWait (k : Startup) (s : State) (ready : List Nat) : Option State :=
  match s.pc with
  | .batch [] =>
      if ready.Nodup ∧ ready.length ≤ maxChild + 1 ∧
          ∀ fd ∈ ready, fd = k.soc ∨ fd ∈ s.interest then
        some { s with pc := .batch ready }
      else none
  | _ => none

def accept (k : Startup) (s : State) (result : Option Nat) : Option State :=
  match s.pc with
  | .batch (fd :: events) =>
      if fd = k.soc then
        match result with
        | none => some { s with pc := .batch events, acc := none }
        | some acc =>
            if LowestFree s.fds acc then
              some { s with
                pc := .accepted events
                acc := some acc
                fds := Function.update s.fds acc (some (.conn s.next))
                next := s.next + 1 }
            else none
      else none
  | _ => none

def register (k : Startup) (s : State) (added : Bool) : Option State :=
  match s.pc, s.acc with
  | .accepted events, some acc =>
      if s.count + 1 ≥ maxChild then
        some { s with pc := .batch events, fds := Function.update s.fds acc none }
      else if added then
        some { s with pc := .batch events, interest := acc :: s.interest, count := s.count + 1 }
      else
        some { s with
          pc := .returned
          fds := Function.update (Function.update s.fds acc none) k.epollfd none }
  | _, _ => none

def storeAcc (k : Startup) (s : State) : Option State :=
  match s.pc with
  | .batch (fd :: events) =>
      if fd = k.soc then none
      else
        let q := s.queues (queueIndex fd)
        some { s.setQueue (queueIndex fd)
            (q.setSlot q.last { q.data q.last with acc := fd }) with
          pc := .recving fd events }
  | _ => none

/-- `recv` puts at most `sizeof(buf)` bytes at the start of the buffer. -/
def recv (s : State) (answer : Answer) : Option State :=
  match s.pc with
  | .recving fd events =>
      let q := s.queues (queueIndex fd)
      let slot := q.data q.last
      match answer with
      | .error =>
          some { s.setQueue (queueIndex fd) (q.setSlot q.last { slot with len := -1 }) with
            pc := .recvd fd events }
      | .eof =>
          some { s.setQueue (queueIndex fd) (q.setSlot q.last { slot with len := 0 }) with
            pc := .recvd fd events }
      | .data m =>
          match s.fds slot.acc with
          | some (.conn c) =>
              if 0 < m.length ∧ m.length ≤ bufSize then
                some { s.setQueue (queueIndex fd) (q.setSlot q.last
                    { slot with
                      buf := m ++ slot.buf.drop m.length, len := m.length, src := c }) with
                  pc := .recvd fd events
                  log := s.log ++ [.received c m] }
              else none
          | _ => none
  | _ => none

/-- `pthread_cond_signal` wakes the queue's thread if it is blocked. -/
def signal (pc : SendPc) : SendPc :=
  match pc with
  | .waiting => .woken
  | pc => pc

/-- The mutex section: `last = QUEUE_NEXT(last)` and the signal. -/
def publish (s : State) (qi : Fin maxSender) : State :=
  let q := s.queues qi
  (s.setQueue qi { q with
    last := queueNext q.last
    held := Function.update q.held q.last true }).setThread qi (signal (s.threads qi))

/-- `EPOLL_CTL_DEL` fails exactly when the descriptor is not in the set; the
code then closes its last accepted descriptor and returns. -/
def dispatch (k : Startup) (s : State) : Option State :=
  match s.pc with
  | .recvd fd events =>
      let q := s.queues (queueIndex fd)
      if (q.data q.last).len = -1 ∨ (q.data q.last).len = 0 then
        if fd ∈ s.interest then
          some { s with pc := .closing fd events, interest := s.interest.erase fd }
        else
          some { s with
            pc := .returned
            fds := Function.update (s.fds.closeAcc s.acc) k.epollfd none }
      else
        some { publish s (queueIndex fd) with pc := .batch events }
  | _ => none

def close (s : State) : Option State :=
  match s.pc with
  | .closing fd events =>
      some { s with
        pc := .batch events
        fds := Function.update s.fds fd none
        count := s.count - 1 }
  | _ => none

/-! ## `send_thread` -/

/-- The first mutex section: take the slot at `front`, or wait. -/
def dequeue (s : State) (qi : Fin maxSender) : State :=
  let q := s.queues qi
  if q.last ≠ q.front then
    (s.setQueue qi { q with
      front := queueNext q.front
      held := Function.update q.held q.front false }).setThread qi (.terminate q.front)
  else s.setThread qi .waiting

/-- A step on slot `i`, after which the thread stands at `pc`. -/
def onSlot (s : State) (qi : Fin maxSender) (i : Nat) (f : QueueData → QueueData)
    (pc : SendPc) : State :=
  (s.setQueue qi ((s.queues qi).setSlot i (f ((s.queues qi).data i)))).setThread qi pc

/-- `buf[len] = '\0'`.  The index 512 is the padding in front of `len`; for
`len = -1` the store hits the top byte of `acc`, which is zero. -/
def terminateSlot (slot : QueueData) : QueueData :=
  { slot with buf := if 0 ≤ slot.len then slot.buf.set slot.len.toNat 0 else slot.buf }

def cutSlot (slot : QueueData) : QueueData :=
  { slot with buf := cutLine slot.buf }

def appendSlot (slot : QueueData) : QueueData :=
  { slot with buf := (mystrlcat slot.buf okTail bufSize).1 }

def measureSlot (slot : QueueData) : QueueData :=
  { slot with len := strlen slot.buf }

/-- `send`: it reaches the connection that the descriptor refers to now, if any. -/
def sendSlot (fds : Table) (slot : QueueData) (delivered : Bool) : List Event :=
  match fds slot.acc with
  | some (.conn c) =>
      if delivered then [.replied c slot.src (slot.buf.take slot.len.toNat)] else []
  | _ => []

def sendThread (s : State) (qi : Fin maxSender) (delivered : Bool) : Option State :=
  match s.threads qi with
  | .lock => some (dequeue s qi)
  | .waiting => none
  | .woken => some (s.setThread qi .lock)
  | .terminate i => some (onSlot s qi i terminateSlot (.cut i))
  | .cut i => some (onSlot s qi i cutSlot (.append i))
  | .append i => some (onSlot s qi i appendSlot (.measure i))
  | .measure i => some (onSlot s qi i measureSlot (.reply i))
  | .reply i =>
      some { s.setThread qi .lock with
        log := s.log ++ sendSlot s.fds ((s.queues qi).data i) delivered }

def wakeUp (s : State) (qi : Fin maxSender) : Option State :=
  match s.threads qi with
  | .waiting => some (s.setThread qi .woken)
  | _ => none

/-! ## The program -/

def step (k : Startup) (s : State) : Action → Option State
  | .epollWait ready => epollWait k s ready
  | .accept result => accept k s result
  | .register added => register k s added
  | .storeAcc => storeAcc k s
  | .recv answer => recv s answer
  | .dispatch => dispatch k s
  | .close => close s
  | .thread qi delivered => sendThread s qi delivered
  | .wakeUp qi => wakeUp s qi

/-- The messages received on connection `c`, in order. -/
def receivedOn (log : List Event) (c : ConnId) : List Bytes :=
  log.filterMap fun
    | .received d m => if d = c then some m else none
    | .replied _ _ _ => none

/-- The replies sent on connection `c`, in order. -/
def repliedOn (log : List Event) (c : ConnId) : List Bytes :=
  log.filterMap fun
    | .received _ _ => none
    | .replied d _ m => if d = c then some m else none

/-- The slots of queue `qi` from `front` to `last`: what `send_thread` will take. -/
def State.queued (s : State) (qi : Fin maxSender) : List QueueData :=
  Ring.contents maxQueueSz (s.queues qi).front (s.queues qi).last (s.queues qi).data

/-- How many messages of queue `qi` are queued. -/
def State.depth (s : State) (qi : Fin maxSender) : Nat :=
  Ring.depth maxQueueSz (s.queues qi).front (s.queues qi).last

/-- The slot that `send_thread` is formatting or sending, as a list. -/
def State.inHand (s : State) (qi : Fin maxSender) : List QueueData :=
  ((s.threads qi).hand.map (s.queues qi).data).toList

end NetworkProgram.Server9
