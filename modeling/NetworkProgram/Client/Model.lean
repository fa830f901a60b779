import NetworkProgram.Foundation.Runs
import NetworkProgram.Libc.Input
import NetworkProgram.Libc.Memory

set_option autoImplicit false

/-!
# Client: the model of `send_recv_loop` of `chapter01/client.c`

The client waits with `select` for its socket and for the standard input, which share one
buffer.  Each round is one return of `select`; when input is said to be ready, how `recv`
and `send` end, and what the server sends are chosen from outside.  `send` on the blocking
socket takes all of its bytes or fails.  What is printed is left out.
-/

namespace NetworkProgram.Client

open NetworkProgram.Foundation
open NetworkProgram.Libc

/-- `sizeof(buf)` -/
def bufSize : Nat := 512

/-- What `recv` of up to `sizeof(buf)` bytes ends with. -/
inductive Recv
  | error
  | eof
  | data (bytes : Bytes) (nonempty : bytes ≠ []) (fits : bytes.length ≤ bufSize)

/-- A return of `select`. -/
inductive Event
  | error
  | timeout
  /-- The socket is ready, with what `recv` gives; the standard input is ready; and
  whether `send` succeeds. -/
  | ready (socket : Option Recv) (stdin : Bool) (delivered : Bool)

inductive Ending
  | recvError
  | recvEof
  /-- `feof(stdin)` -/
  | stdinEof
  | sendError
  /-- A store behind the end of `buf`. -/
  | overrun
  deriving DecidableEq, Repr

structure State where
  /-- What is left of the standard input. -/
  stdin : Bytes
  buf : Bytes
  /-- What was given to `send`, call by call. -/
  sent : List Bytes
  ended : Option Ending
  deriving DecidableEq, Repr

/-- `recv` and `buf[len]='\0'`. -/
def State.receive (s : State) : Recv → State
  | .error => { s with ended := some .recvError }
  | .eof => { s with ended := some .recvEof }
  | .data bytes _ _ =>
      if bytes.length < bufSize then { s with buf := memcpy s.buf 0 (bytes ++ [0]) }
      else { s with ended := some .overrun }

/-- `fgets` came to the end of the input when it looked for more bytes. -/
def atEof (piece rest : Bytes) : Prop :=
  rest = [] ∧ piece.getLast? ≠ some lf ∧ piece.length < bufSize - 1

instance (piece rest : Bytes) : Decidable (atEof piece rest) :=
  inferInstanceAs (Decidable (_ ∧ _ ∧ _))

/-- `fgets`, `feof` and `send`. -/
def State.forward (s : State) (delivered : Bool) : State :=
  let (piece, rest) := takeLine (bufSize - 1) s.stdin
  let buf := if piece = [] then s.buf else memcpy s.buf 0 (piece ++ [0])
  if atEof piece rest then { s with stdin := rest, buf := buf, ended := some .stdinEof }
  else if delivered then
    { s with stdin := rest, buf := buf, sent := s.sent ++ [buf.take (strlen buf)] }
  else { s with stdin := rest, buf := buf, ended := some .sendError }

/-- One round of `send_recv_loop`. -/
def State.step (s : State) (e : Event) : Option State :=
  if s.ended.isSome then none
  else
    match e with
    | .error => some s
    | .timeout => some s
    | .ready socket stdin delivered =>
        let s := socket.elim s s.receive
        if s.ended.isNone ∧ stdin then some (s.forward delivered) else some s

/-- `send_recv_loop` at its start; `stack` is what is in `buf` then. -/
def State.start (stack : Nat → UInt8) (content : Bytes) : State where
  stdin := content
  buf := block stack bufSize
  sent := []
  ended := none

end NetworkProgram.Client
