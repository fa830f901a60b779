import NetworkProgram.Foundation.Runs
import NetworkProgram.Libc.Strings

set_option autoImplicit false

/-!
# UServerB: the model of `chapter10/u-server-b.c`

UDP servers on one broadcast segment, all on the same port.  A server broadcasts its reply
to the port that the datagram came from, and a broadcast reaches every host of the segment,
its sender too; so a server ignores what comes from its own address.  The datagrams on
their way are delivered in any order, or lost.  `recvfrom` does not fail, and a server has
found its own address at the start.  Where a server has written behind the end of `buf`, C
says nothing about it any more: it may send anything.
-/

namespace NetworkProgram.UServerB

open NetworkProgram.Foundation
open NetworkProgram.Libc

variable {Host : Type} [DecidableEq Host]

/-- `sizeof(buf)` -/
def bufSize : Nat := 512

/-- The hosts that run the server, and the port they are bound to. -/
structure Segment (Host : Type) where
  servers : List Host
  nodup : servers.Nodup
  port : Nat
  port_pos : port ≠ 0

structure Datagram (Host : Type) where
  source : Host
  sourcePort : Nat
  destPort : Nat
  contents : Bytes
  deriving DecidableEq, Repr

/-- A datagram that will arrive at a server's socket. -/
structure Delivery (Host : Type) where
  server : Host
  datagram : Datagram Host
  deriving DecidableEq, Repr

structure State (Host : Type) where
  pending : List (Delivery Host)
  /-- The servers that have left the loop. -/
  stopped : List Host
  /-- The servers that have written behind the end of `buf`. -/
  overrun : List Host
  /-- The senders of the replies so far. -/
  replied : List Host
  deriving DecidableEq, Repr

/-- How a reply goes out. -/
inductive Outcome
  | sent
  /-- `GetAddress` returns -1; its return value is a variable that is never set. -/
  | noAddress
  | sendFails
  deriving DecidableEq, Repr

inductive Act (Host : Type)
  | deliver (x : Delivery Host) (outcome : Outcome)
  | lose (x : Delivery Host)
  /-- A server that has written behind the end of `buf` sends a datagram. -/
  | stray (host : Host) (d : Datagram Host)

/-- What a datagram is answered with; none where `buf[len]` or `strcat` would store behind
the end of `buf`. -/
def replyTo (contents : Bytes) : Option Bytes :=
  if bufSize ≤ contents.length then none
  else
    let text := cstr (cutLine (contents ++ [0]))
    if bufSize < text.length + okTail.length + 1 then none else some (okReply text)

/-- The datagram arrives at every socket that is bound to its port. -/
def Segment.broadcast (seg : Segment Host) (d : Datagram Host) : List (Delivery Host) :=
  if d.destPort = seg.port then seg.servers.map fun host => { server := host, datagram := d }
  else []

/-- The answer of `host` to a datagram. -/
def Segment.reply (seg : Segment Host) (host : Host) (d : Datagram Host) (contents : Bytes) :
    Datagram Host where
  source := host
  sourcePort := seg.port
  destPort := d.sourcePort
  contents := contents

/-- One round of `SendRecvLoop` on `host`. -/
def Segment.serve (seg : Segment Host) (s : State Host) (host : Host) (d : Datagram Host)
    (outcome : Outcome) : State Host :=
  if host ∈ s.stopped ∨ host ∈ s.overrun then s
  else if d.source = host then s
  else
    match replyTo d.contents with
    | none => { s with overrun := host :: s.overrun }
    | some contents =>
        -- Port 0 is a bad port for `GetAddress`.
        if d.sourcePort = 0 ∨ outcome ≠ .sent then { s with stopped := host :: s.stopped }
        else
          { s with
            pending := s.pending ++ seg.broadcast (seg.reply host d contents)
            replied := host :: s.replied }

def Segment.step (seg : Segment Host) (s : State Host) : Act Host → Option (State Host)
  | .deliver x outcome =>
      if x ∈ s.pending then
        some (seg.serve { s with pending := s.pending.erase x } x.server x.datagram outcome)
      else none
  | .lose x =>
      if x ∈ s.pending then some { s with pending := s.pending.erase x } else none
  | .stray host d =>
      if host ∈ s.overrun then
        some { s with
          pending := s.pending ++ seg.broadcast d
          replied := host :: s.replied }
      else none

/-- A datagram is sent to the segment. -/
def Segment.start (seg : Segment Host) (d : Datagram Host) : State Host where
  pending := seg.broadcast d
  stopped := []
  overrun := []
  replied := []

end NetworkProgram.UServerB
