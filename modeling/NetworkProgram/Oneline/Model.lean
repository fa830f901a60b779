import NetworkProgram.Libc.Input
import NetworkProgram.Libc.Memory

set_option autoImplicit false

/-!
# Oneline: the model of `chapter06/oneline.c`

The blocking line server.  `accept_loop` serves one connection after the other
with `send_recv_loop_1` (a line buffer of fixed size) or `send_recv_loop_2` (a
buffer that grows with the line), and both read their lines with
`recv_one_line_1`, byte by byte.  What `accept_loop` does besides and the debug
output on `stderr` are left out.
-/

namespace NetworkProgram.Oneline

open NetworkProgram.Libc

/-- What `recv` delivers on a socket: its bytes and behind them, at every further
call, the end of the stream or an error. -/
structure Socket where
  data : Bytes
  broken : Bool

/-! ## `recv_one_line_1` -/

/-- What a reader returns, what it leaves in its buffer, and the bytes left. -/
structure Received (Buffer : Type) where
  rv : Int
  buf : Buffer
  rest : Bytes
  deriving DecidableEq, Repr

/-- The loop of `recv_one_line_1`, with `pos` bytes in `buf`. -/
def recvLoop1 (bufsize : Nat) (broken : Bool) : Bytes → Bytes → Nat → Received Bytes
  | [], buf, pos =>
      { rv := if broken then -1 else if 0 < pos then pos else 0
        buf := buf.set pos 0
        rest := [] }
  | c :: data, buf, pos =>
      if c = lf ∨ pos + 1 = bufsize - 1 then
        { rv := pos + 1, buf := (buf.set pos c).set (pos + 1) 0, rest := data }
      else recvLoop1 bufsize broken data (buf.set pos c) (pos + 1)

def recvOneLine1 (soc : Socket) (buf : Bytes) (bufsize : Nat) : Received Bytes :=
  recvLoop1 bufsize soc.broken soc.data (buf.set 0 0) 0

theorem recvLoop1_rest_le (bufsize : Nat) (broken : Bool) (data buf : Bytes) (pos : Nat) :
    (recvLoop1 bufsize broken data buf pos).rest.length ≤ data.length := by
  induction data generalizing buf pos with
  | nil => exact Nat.le_refl 0
  | cons c data ih =>
      rw [recvLoop1]
      split
      · exact Nat.le_succ _
      · exact Nat.le_succ_of_le (ih _ _)

/-- A line that was received took bytes from the socket. -/
theorem recvOneLine1_rest_lt {soc : Socket} {buf : Bytes} {bufsize : Nat}
    (herror : (recvOneLine1 soc buf bufsize).rv ≠ -1)
    (heof : (recvOneLine1 soc buf bufsize).rv ≠ 0) :
    (recvOneLine1 soc buf bufsize).rest.length < soc.data.length := by
  obtain ⟨data, broken⟩ := soc
  cases data with
  | nil => cases broken <;> contradiction
  | cons c data =>
      rw [recvOneLine1, recvLoop1]
      split
      · exact Nat.lt_succ_self _
      · exact Nat.lt_succ_of_le (recvLoop1_rest_le _ _ _ _ _)

/-! ## `recv_one_line_2` -/

/-- `RECV_ONE_LINE_2_ALLOC_SIZE` -/
def allocSize : Nat := 1024

/-- `RECV_ONE_LINE_2_ALLOC_LIMIT` -/
def allocLimit : Nat := 1024 * 1024

/-- The local variables of `recv_one_line_2`. -/
structure Line where
  buf : Bytes
  data : Option Bytes
  size : Nat
  nowLen : Nat

/-- The buffer of the new `size`, or none. -/
def allocate (heap : Heap) (data : Option Bytes) (size : Nat) : Option Bytes :=
  if size > allocLimit then none
  else
    match data with
    | none => malloc heap size
    | some data => realloc heap data size

/-- Room for `len` more bytes and a NUL, or no buffer. -/
def Line.makeRoom (heap : Heap) (line : Line) (len : Nat) : Line :=
  if line.nowLen + len ≥ line.size then
    { line with
      size := line.size + allocSize
      data := allocate heap line.data (line.size + allocSize) }
  else line

/-- The loop of `recv_one_line_2`. -/
def recvLoop2 (heap : Heap) (soc : Socket) (line : Line) : Received (Option Bytes) :=
  let r := recvOneLine1 soc line.buf allocSize
  if _ : r.rv = -1 then { rv := -1, buf := none, rest := r.rest }
  else if _ : r.rv = 0 then
    { rv := if 0 < line.nowLen then line.nowLen else 0, buf := line.data, rest := r.rest }
  else
    let len := r.rv.toNat
    let line := line.makeRoom heap len
    match line.data with
    | none => { rv := -1, buf := none, rest := r.rest }
    | some data =>
        let data := (memcpy data line.nowLen (r.buf.take len)).set (line.nowLen + len) 0
        if data[line.nowLen + len - 1]? = some lf then
          { rv := line.nowLen + len, buf := some data, rest := r.rest }
        else
          recvLoop2 heap { soc with data := r.rest }
            { line with buf := r.buf, data := some data, nowLen := line.nowLen + len }
termination_by soc.data.length
decreasing_by exact recvOneLine1_rest_lt ‹_› ‹_›

/-- `recv_one_line_2`; `stack` is what its array `buf` holds at the start. -/
def recvOneLine2 (heap : Heap) (stack : Nat → UInt8) (soc : Socket) : Received (Option Bytes) :=
  recvLoop2 heap soc { buf := block stack allocSize, data := none, size := 0, nowLen := 0 }

theorem recvOneLine1_rest_le (soc : Socket) (buf : Bytes) (bufsize : Nat) :
    (recvOneLine1 soc buf bufsize).rest.length ≤ soc.data.length :=
  recvLoop1_rest_le _ _ _ _ _

theorem recvLoop2_rest (heap : Heap) (soc : Socket) (line : Line) :
    (recvLoop2 heap soc line).rest.length ≤ soc.data.length ∧
      (line.nowLen = 0 → (recvLoop2 heap soc line).rv ≠ -1 → (recvLoop2 heap soc line).rv ≠ 0 →
        (recvLoop2 heap soc line).rest.length < soc.data.length) := by
  fun_induction recvLoop2 heap soc line with
  | case1 => exact ⟨recvOneLine1_rest_le _ _ _, fun _ h _ => absurd rfl h⟩
  | case2 soc line r herror heof =>
      refine ⟨recvOneLine1_rest_le _ _ _, fun hempty _ h => absurd ?_ h⟩
      rw [hempty]
      rfl
  | case3 => exact ⟨recvOneLine1_rest_le _ _ _, fun _ h _ => absurd rfl h⟩
  | case4 soc line r herror heof =>
      have hlt := recvOneLine1_rest_lt herror heof
      exact ⟨hlt.le, fun _ _ _ => hlt⟩
  | case5 soc line r herror heof _ _ _ _ _ _ ih =>
      have hlt := recvOneLine1_rest_lt herror heof
      exact ⟨ih.1.trans hlt.le, fun _ _ _ => Nat.lt_of_le_of_lt ih.1 hlt⟩

theorem recvOneLine2_rest_lt {heap : Heap} {stack : Nat → UInt8} {soc : Socket}
    (herror : (recvOneLine2 heap stack soc).rv ≠ -1)
    (heof : (recvOneLine2 heap stack soc).rv ≠ 0) :
    (recvOneLine2 heap stack soc).rest.length < soc.data.length :=
  (recvLoop2_rest heap soc _).2 rfl herror heof

/-! ## The loops -/

/-- `FIXED_BUFFER_SIZE` -/
def fixedBufferSize : Nat := 20

/-- The messages that `send_recv_loop_1` sends.  `buf` and `buf2` are its arrays and
`delivered` says which of the `send`s succeed. -/
def sendRecvLoop1 (soc : Socket) (delivered : Nat → Bool) (buf buf2 : Bytes) : List Bytes :=
  let r := recvOneLine1 soc buf fixedBufferSize
  if _ : r.rv = -1 then []
  else if _ : r.rv = 0 then []
  else
    let buf := cutLine r.buf
    let reply := snprintf buf2 (okReply (cstr buf))
    if delivered 0 then
      reply.1.take reply.2 ::
        sendRecvLoop1 { soc with data := r.rest } (fun k => delivered (k + 1)) buf reply.1
    else []
termination_by soc.data.length
decreasing_by exact recvOneLine1_rest_lt ‹_› ‹_›

/-- The memory that one round of `send_recv_loop_2` finds: on the stack of
`recv_one_line_2`, and for the line and the reply. -/
structure Memory where
  stack : Nat → UInt8
  line : Heap
  reply : Heap

/-- The messages that `send_recv_loop_2` sends, with the memory of each round. -/
def sendRecvLoop2 (soc : Socket) (delivered : Nat → Bool) (memory : Nat → Memory) :
    List Bytes :=
  let r := recvOneLine2 (memory 0).line (memory 0).stack soc
  if _ : r.rv = -1 then []
  else if _ : r.rv = 0 then []
  else
    match r.buf with
    | none => []
    | some buf =>
        let buf := cutLine buf
        match malloc (memory 0).reply (strlen buf + okTail.length + 1) with
        | none => []
        | some buf2 =>
            let reply := snprintf buf2 (okReply (cstr buf))
            if delivered 0 then
              reply.1.take reply.2 ::
                sendRecvLoop2 { soc with data := r.rest } (fun k => delivered (k + 1))
                  (fun k => memory (k + 1))
            else []
termination_by soc.data.length
decreasing_by exact recvOneLine2_rest_lt ‹_› ‹_›

end NetworkProgram.Oneline
