import NetworkProgram.Foundation.Runs
import NetworkProgram.Libc.Strings

set_option autoImplicit false

/-!
# Telnet: the model of the clients of `chapter05`

`recv_data` is the same function in `telnet1.c` to `telnet4.c`.  It takes one byte
from the socket and, if that is IAC, two more; it shows the byte, or answers the
command with a refusal.  `telnet1` calls it when `select` reports the socket, and
its `recv` blocks; `telnet3` calls it in every round of its loop, and its `recv` fails
with `EAGAIN` when nothing has arrived.

Every `send` succeeds, and `perror` leaves `errno` as it is.
-/

namespace NetworkProgram.Telnet

open NetworkProgram.Foundation
open NetworkProgram.Libc

abbrev iac : UInt8 := 255
abbrev dont : UInt8 := 254
abbrev doOpt : UInt8 := 253
abbrev wont : UInt8 := 252
abbrev will : UInt8 := 251
abbrev sb : UInt8 := 250
abbrev nop : UInt8 := 241
abbrev se : UInt8 := 240

/-- What the coming calls of `recv` find.  Behind the last one is the end of the stream. -/
inductive Arrival
  | byte (c : UInt8)
  /-- Nothing has arrived: `EAGAIN`. -/
  | again
  deriving DecidableEq, Repr

/-- The bytes that the server sent. -/
def bytes : List Arrival → Bytes
  | [] => []
  | .byte c :: rest => c :: bytes rest
  | .again :: rest => bytes rest

/-- A stream as a blocking `recv` finds it. -/
def steady (stream : Bytes) : List Arrival := stream.map .byte

inductive Event
  /-- `fputc(c & 0xFF, stdout)` -/
  | shown (c : UInt8)
  /-- `send` of a refusal -/
  | replied (reply : Bytes)
  /-- `send` of a character from the standard input -/
  | typed (c : UInt8)
  deriving DecidableEq, Repr

inductive Errno
  | eagain
  | other
  deriving DecidableEq, Repr

structure State where
  input : List Arrival
  errno : Errno
  log : List Event
  /-- The loop was left. -/
  ended : Bool

def start (input : List Arrival) : State where
  input := input
  errno := .other
  log := []
  ended := false

/-- A `recv` failed with `EAGAIN`. -/
def State.fail (s : State) (rest : List Arrival) : Int × State :=
  (-1, { s with input := rest, errno := .eagain })

/-- The last `recv` of a command left `c`; `IAC WONT c` is sent. -/
def State.refuse (s : State) (c : UInt8) (rest : List Arrival) : Int × State :=
  (0, { s with input := rest, log := s.log ++ [.replied [iac, wont, c]] })

/-- The second and the third `recv`.  At the end of the stream they leave `c` as it is. -/
def recvCommand (s : State) : List Arrival → Int × State
  | [] => s.refuse iac []
  | .again :: rest => s.fail rest
  | [.byte c] => s.refuse c []
  | .byte _ :: .again :: rest => s.fail rest
  | .byte _ :: .byte c :: rest => s.refuse c rest

/-- `recv_data`: the result and the state after it. -/
def recvData (s : State) : Int × State :=
  match s.input with
  | [] => (-1, s)
  | .again :: rest => s.fail rest
  | .byte c :: rest =>
      if c = iac then recvCommand s rest
      else (0, { s with input := rest, log := s.log ++ [.shown c] })

/-- `recv_data` called `n` times, whatever it returns. -/
def calls : Nat → State → State
  | 0, s => s
  | n + 1, s => calls n (recvData s).2

/-- What `getchar` finds. -/
inductive Getchar
  | byte (c : UInt8)
  | eof
  /-- Nothing was typed: `EAGAIN`. -/
  | again
  deriving DecidableEq, Repr

/-- `c = getchar()` for a `char` variable: EOF becomes 0xFF. -/
def Getchar.char : Getchar → UInt8
  | .byte c => c
  | .eof => 255
  | .again => 255

/-! ## `telnet1` -/

/-- How `select` answers in one round of the loop. -/
inductive Select
  | interrupted
  | failed
  | timeout
  /-- The socket and the standard input, with what is typed, are ready. -/
  | ready (socket : Bool) (stdin : Option Getchar)
  deriving DecidableEq, Repr

/-- One round of `send_recv_loop`. -/
def telnet1 (s : State) (answer : Select) : Option State :=
  if s.ended then none
  else
    match answer with
    | .interrupted => some s
    | .failed => some { s with ended := true }
    | .timeout => some s
    | .ready socket stdin =>
        let received := if socket then recvData s else (0, s)
        if received.1 = -1 then some { received.2 with ended := true }
        else
          match stdin with
          | none => some received.2
          | some typed =>
              some { received.2 with log := received.2.log ++ [.typed typed.char] }

/-! ## `telnet3` -/

/-- One round of `send_recv_loop`.  For a `char` variable `c != EOF` is false for 0xFF too. -/
def telnet3 (s : State) (stdin : Getchar) : Option State :=
  if s.ended then none
  else
    let received := recvData s
    if received.1 = -1 ∧ received.2.errno ≠ .eagain then
      some { received.2 with ended := true }
    else
      let errno := if stdin = .again then .eagain else received.2.errno
      if stdin.char ≠ 255 then
        some { received.2 with errno := errno, log := received.2.log ++ [.typed stdin.char] }
      else some { received.2 with errno := errno }

/-! ## What the user and the server see -/

/-- The bytes written to the screen. -/
def screen (log : List Event) : Bytes :=
  log.filterMap fun
    | .shown c => some c
    | .replied _ => none
    | .typed _ => none

/-- The screen and the replies: all but what is typed. -/
def heard (log : List Event) : List Event :=
  log.filter fun
    | .shown _ => true
    | .replied _ => true
    | .typed _ => false

end NetworkProgram.Telnet
