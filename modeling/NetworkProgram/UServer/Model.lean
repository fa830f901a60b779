import NetworkProgram.Echo.SendRecv
import NetworkProgram.Libc.Traced

set_option autoImplicit false

/-!
# UServer: the model of the UDP servers' loops

`send_recv_loop` of `chapter09/u-server.c` (and the same in `u-server-m.c` and
`u-server-m6.c`), and `SendRecvLoop` of `chapter10/u-server-b.c`.  Both print an error of
`recvfrom` and go on with `len == -1`, with what the buffer and the peer's address were.
-/

namespace NetworkProgram.UServer

open NetworkProgram.Foundation
open NetworkProgram.Libc
open NetworkProgram.Echo (Stack)

/-- `sizeof(buf)` -/
def bufSize : Nat := 512

variable {Address : Type}

structure Datagram (Address : Type) where
  source : Address
  contents : Bytes
  fits : contents.length ≤ bufSize

/-- What `recvfrom` returns. -/
inductive Outcome (Address : Type)
  | error
  | datagram (d : Datagram Address)

/-- One time round the loop. -/
structure Round (Address : Type) where
  outcome : Outcome Address
  /-- The reply goes out, if it comes to that.  Otherwise the loop ends. -/
  delivered : Bool

/-- The peer's address after `recvfrom`: an error leaves it as it was. -/
def Outcome.peer (stale : Address) : Outcome Address → Address
  | .error => stale
  | .datagram d => d.source

/-- `recvfrom` -/
def recvfromTraced : Outcome Address → Traced UInt8 Int
  | .error => pure (-1)
  | .datagram d => do
      Traced.store 0 d.contents
      pure d.contents.length

/-- What the two loops differ in. -/
structure Program (Address : Type) where
  /-- What comes from this address is passed over. -/
  ignores : Address → Bool
  /-- From `buf[len] = '\0'` to the second `strlen`, with what is given to `sendto`. -/
  reply : Int → Traced UInt8 Bytes

def uServer : Program Address where
  ignores := fun _ => false
  reply := replyTraced bufSize

def strcatReplyTraced (len : Int) : Traced UInt8 Bytes := do
  Traced.write len 0
  cutAtTraced [cr, lf]
  let _ ← strlenTraced
  strcatTraced okTail
  let len ← strlenTraced
  Traced.load 0 len

/-- `u-server-b` with its address `MyAddr`. -/
def uServerB [DecidableEq Address] (myAddr : Address) : Program Address where
  ignores := fun peer => peer = myAddr
  reply := strcatReplyTraced

/-- Once round the loop, up to `sendto`. -/
def Program.roundTraced (p : Program Address) (stale : Address) (outcome : Outcome Address) :
    Traced UInt8 (Option Bytes) := do
  let len ← recvfromTraced outcome
  if p.ignores (outcome.peer stale) then pure none
  else do
    let reply ← p.reply len
    pure (some reply)

/-- What can be seen of one time round the loop. -/
structure Exchange (Address : Type) where
  outcome : Outcome Address
  log : List Access
  sent : Option Bytes

/-- The loop, with the peer's address and the buffer as the last round left them. -/
def Program.run (p : Program Address) :
    Address → Bytes → List (Round Address) → List (Exchange Address)
  | _, _, [] => []
  | stale, buf, r :: rounds =>
      let e := p.roundTraced stale r.outcome buf
      match e.result with
      | none => [{ outcome := r.outcome, log := e.log, sent := none }]
      | some (none, buf) =>
          { outcome := r.outcome, log := e.log, sent := none } ::
            p.run (r.outcome.peer stale) buf rounds
      | some (some reply, buf) =>
          if r.delivered then
            { outcome := r.outcome, log := e.log, sent := some reply } ::
              p.run (r.outcome.peer stale) buf rounds
          else [{ outcome := r.outcome, log := e.log, sent := none }]

end NetworkProgram.UServer
