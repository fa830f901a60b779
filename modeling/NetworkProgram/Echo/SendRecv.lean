import NetworkProgram.Libc.Mystrlcat

set_option autoImplicit false

/-!
# Echo: `send_recv`

The servers `server2.c`, `server3.c` and `server4.c` of chapter 5 wait with
`select`, `poll` and `epoll`; what they do with a connection that is ready is one
and the same function.
-/

namespace NetworkProgram.Echo

open NetworkProgram.Libc

/-- `sizeof(buf)` -/
def bufSize : Nat := 512

/-- What one `recv` puts at the start of `buf`. -/
structure Chunk where
  bytes : Bytes
  nonempty : bytes ≠ []
  fits : bytes.length ≤ bufSize

inductive Received
  | error
  | eof
  | data (chunk : Chunk)

/-- The buffer before it is written: whatever is on the stack. -/
structure Stack where
  bytes : Bytes
  size : bytes.length = bufSize

/-- A call of `send_recv` as its environment sees it: what is on the stack, how
`recv` answers and, if it comes to that, whether `send` succeeds. -/
structure Answer where
  stack : Stack
  received : Received
  delivered : Bool

/-- An answer over a zeroed stack. -/
def Answer.plain (received : Received) (delivered : Bool) : Answer where
  stack := { bytes := List.replicate bufSize 0, size := List.length_replicate }
  received := received
  delivered := delivered

/-- `buf` when it is sent.  The store `buf[len] = '\0'` after a chunk of 512 bytes
falls behind the buffer. -/
def format (stack : Stack) (chunk : Chunk) : Bytes :=
  let buf := chunk.bytes ++ stack.bytes.drop chunk.bytes.length
  let buf := buf.set chunk.bytes.length 0
  (mystrlcat (cutLine buf) okTail bufSize).1

/-- The return value of `send_recv`, and the message sent, if any. -/
structure Served where
  ret : Int
  sent : List Bytes

def sendRecv (a : Answer) : Served :=
  match a.received with
  | .error => { ret := -1, sent := [] }
  | .eof => { ret := -1, sent := [] }
  | .data chunk =>
      let buf := format a.stack chunk
      if a.delivered then { ret := 0, sent := [buf.take (strlen buf)] }
      else { ret := -1, sent := [] }

/-- The reply to a chunk: its visible text and `":OK\r\n"`, as far as that fits. -/
def echo (m : Bytes) : Bytes := (okReply (visible m)).take (bufSize - 1)

/-- What was on the stack before does not show. -/
theorem cstr_format (stack : Stack) {chunk : Chunk} (h : chunk.bytes.length < bufSize) :
    cstr (format stack chunk) = echo chunk.bytes := by
  obtain ⟨c, rest, hdrop⟩ : ∃ c rest, stack.bytes.drop chunk.bytes.length = c :: rest := by
    refine List.exists_cons_of_ne_nil fun hnil => ?_
    have := stack.size
    have := List.drop_eq_nil_iff.mp hnil
    omega
  have hset : (chunk.bytes ++ c :: rest).set chunk.bytes.length 0 = chunk.bytes ++ 0 :: rest := by
    simp
  have hlen : (chunk.bytes ++ 0 :: rest).length = bufSize := by
    have := congrArg List.length hdrop
    rw [List.length_drop, stack.size, List.length_cons] at this
    rw [List.length_append, List.length_cons]
    omega
  have hvisible : visible (chunk.bytes ++ 0 :: rest) = visible chunk.bytes :=
    visible_append_of_stop (.inl rfl)
  have hroom : strlen (cutLine (chunk.bytes ++ 0 :: rest)) < bufSize := by
    rw [strlen, cstr_cutLine, hvisible]
    exact (length_visible_le _).trans_lt h
  unfold format echo okReply
  dsimp only
  rw [hdrop, hset, cstr_mystrlcat_take (by decide) hroom
    (by rw [cutLine, length_cutAt, hlen]), cstr_cutLine, hvisible]

/-- `send_recv` on a chunk that leaves room for the NUL. -/
theorem sendRecv_data (stack : Stack) {chunk : Chunk} (h : chunk.bytes.length < bufSize)
    (delivered : Bool) :
    sendRecv { stack := stack, received := .data chunk, delivered := delivered } =
      if delivered then { ret := 0, sent := [echo chunk.bytes] }
      else { ret := -1, sent := [] } := by
  simp only [sendRecv, take_strlen, cstr_format stack h]

end NetworkProgram.Echo
