import NetworkProgram.Libc.Traced
import NetworkProgram.Oneline1.Steps

set_option autoImplicit false

/-!
# Oneline1: the accesses to the table

The rows of `Oneline1.Model` cannot be written at their last byte, and a line under way
always has room.  Here the table is what it is in memory, 20 bytes in a row and any number
beside them, and every access of `send_recv_1` is recorded.  Each call does what the model
does, so the program never leaves a row, whatever is received in whatever order.
-/

namespace NetworkProgram.Oneline1

open NetworkProgram.Foundation
open NetworkProgram.Kernel
open NetworkProgram.Libc

/-- `recv_one_line_1` on the row of a descriptor, with its `g_pos`: the return value, and
`g_pos` afterwards. -/
def recvOneLine1Traced (pos : Nat) (answer : Recv) : Traced UInt8 (Int × Nat) := do
  let head ← Traced.read 0
  let pos := if head = 0 then 0 else pos
  match answer with
  | .error => pure (-1, pos)
  | .eof => pure (if 0 < pos then (pos : Int) else 0, pos)
  | .byte c => do
      Traced.write pos c
      let pos := pos + 1
      pure (if c = lf then (pos : Int) else if pos = fixedBufferSize - 1 then (pos : Int) else -2,
        pos)

/-- What a call of `send_recv_1` leaves besides the row. -/
structure Called where
  ret : Int
  pos : Nat
  sent : List Bytes
  deriving DecidableEq, Repr

/-- The end of `send_recv_1`, with a line in the row. -/
def answerTraced (pos : Nat) (delivered : Bool) : Traced UInt8 Called := do
  -- `debug_print`
  let _ ← strlenTraced
  cutAtTraced [cr, lf]
  -- `snprintf`
  let n ← strlenTraced
  let text ← Traced.load 0 n
  Traced.write 0 0
  if delivered then pure { ret := 0, pos := pos, sent := [okReply text] }
  else pure { ret := -1, pos := pos, sent := [] }

def sendRecv1Traced (pos : Nat) (answer : Recv) (delivered : Bool) : Traced UInt8 Called := do
  let (len, pos) ← recvOneLine1Traced pos answer
  if len = -1 then do
    Traced.write 0 0
    pure { ret := -1, pos := pos, sent := [] }
  else if len = 0 then do
    Traced.write 0 0
    pure { ret := -1, pos := pos, sent := [] }
  else if len = -2 then pure { ret := -2, pos := pos, sent := [] }
  else answerTraced pos delivered

/-- `g_buf[fd]` and `g_pos[fd]` -/
structure Slot where
  bytes : Bytes
  pos : Nat

/-- `g_buf` and `g_pos`. -/
abbrev Slots : Type := Fin (maxChild * 4) → Slot

def Slots.zero : Slots := fun _ => { bytes := List.replicate fixedBufferSize 0, pos := 0 }

/-- A call of `send_recv_1`, with the answer of its `recv` and the outcome of its `send`. -/
structure Event where
  fd : Fin (maxChild * 4)
  answer : Recv
  delivered : Bool

/-- The accesses of the call to its row, and their result. -/
def Slots.call (slots : Slots) (e : Event) : Effect UInt8 Called :=
  sendRecv1Traced (slots e.fd).pos e.answer e.delivered (slots e.fd).bytes

def Slots.step (slots : Slots) (e : Event) : Option Slots :=
  (slots.call e).result.map fun r =>
    Function.update slots e.fd { bytes := r.2, pos := r.1.pos }

/-- The bytes of a row are read, and all of them but the last are written. -/
def RowAccess : Access → Prop
  | .read i => 0 ≤ i ∧ i < fixedBufferSize
  | .write i => 0 ≤ i ∧ i ≤ fixedBufferSize - 2

/-! ## One call -/

section Call

variable {b : Store}

theorem rowAccess_read {i : Nat} (h : i < b.bytes.length) : RowAccess (.read i) :=
  ⟨Int.natCast_nonneg i, by rw [b.size] at h; exact Int.ofNat_lt.mpr h⟩

theorem rowAccess_write {i : Nat} (h : i < fixedBufferSize - 1) : RowAccess (.write i) := by
  refine ⟨Int.natCast_nonneg i, ?_⟩
  have hsize : fixedBufferSize = 20 := rfl
  omega

theorem Store.strlen_lt (b : Store) : strlen b.bytes < b.bytes.length :=
  (strlen_le_of_nul b.last).trans_lt (by rw [b.size]; decide)

theorem ends_recvOneLine1 (row : Row) (answer : Recv) :
    Traced.Ends RowAccess (recvOneLine1Traced row.pos answer) row.buf.bytes
      ((recvOneLine1 row answer).rv, (recvOneLine1 row answer).pos)
      (recvOneLine1 row answer).buf.bytes := by
  obtain ⟨head, hhead⟩ : ∃ head, row.buf.bytes[0]? = some head :=
    ⟨_, List.getElem?_eq_getElem (by rw [row.buf.size]; decide)⟩
  have hidle : head = 0 ↔ row.Idle := by
    rw [Row.Idle, List.head?_eq_getElem?, hhead, Option.some_inj]
  have hstart : (if head = 0 then 0 else row.pos) = row.start := if_congr hidle rfl rfl
  have hread := Traced.ends_read hhead (rowAccess_read (b := row.buf) (i := 0)
    (by rw [row.buf.size]; decide))
  refine hread.bind ?_
  dsimp only
  rw [hstart]
  cases answer with
  | error => exact Traced.ends_pure _
  | eof => exact Traced.ends_pure _
  | byte c =>
      have hlt : row.start < row.buf.bytes.length := by
        rw [row.buf.size]
        exact row.start_lt.trans_le (Nat.sub_le _ _)
      exact (Traced.ends_write c hlt (rowAccess_write row.start_lt)).bind (Traced.ends_pure _)

theorem ends_clear (b : Store) :
    Traced.Ends RowAccess (Traced.write 0 0) b.bytes () b.clear.bytes :=
  Traced.ends_write 0 (by rw [b.size]; decide) (rowAccess_write (i := 0) (by decide))

theorem ends_cut (b : Store) :
    Traced.Ends RowAccess (cutAtTraced [cr, lf]) b.bytes () b.cut.bytes := by
  refine ends_cutAt [cr, lf] b.strlen_lt (fun _ h => rowAccess_read h) fun i c hi hc => ?_
  obtain ⟨hlt, -⟩ := List.getElem?_eq_some_iff.mp hi
  have hne : i ≠ fixedBufferSize - 1 := by
    rintro rfl
    rw [b.last, Option.some_inj] at hi
    rw [← hi] at hc
    exact absurd hc (by decide)
  rw [b.size] at hlt
  exact rowAccess_write (by omega)

theorem ends_answer (b : Store) (pos : Nat) (delivered : Bool) :
    Traced.Ends RowAccess (answerTraced pos delivered) b.bytes
      { ret := (b.reply pos delivered).ret
        pos := (b.reply pos delivered).row.pos
        sent := (b.reply pos delivered).sent }
      (b.reply pos delivered).row.buf.bytes := by
  refine (ends_strlen b.strlen_lt fun _ h => rowAccess_read h).bind ?_
  refine (ends_cut b).bind ?_
  refine (ends_strlen b.cut.strlen_lt fun _ h => rowAccess_read h).bind ?_
  have hload := Traced.ends_load (P := RowAccess) (i := 0) (n := strlen b.cut.bytes)
    (show 0 + strlen b.cut.bytes ≤ b.cut.bytes.length by have := b.cut.strlen_lt; omega)
    fun j _ hj => rowAccess_read (b := b.cut) (by have := b.cut.strlen_lt; omega)
  rw [List.drop_zero, take_strlen] at hload
  refine hload.bind ((ends_clear b.cut).bind ?_)
  unfold Store.reply
  cases delivered with
  | true => exact Traced.ends_pure _
  | false => exact Traced.ends_pure _

/-- Each call does what the model does, inside of the row. -/
theorem ends_sendRecv1 (row : Row) (answer : Recv) (delivered : Bool) :
    Traced.Ends RowAccess (sendRecv1Traced row.pos answer delivered) row.buf.bytes
      { ret := (sendRecv1 row answer delivered).ret
        pos := (sendRecv1 row answer delivered).row.pos
        sent := (sendRecv1 row answer delivered).sent }
      (sendRecv1 row answer delivered).row.buf.bytes := by
  refine (ends_recvOneLine1 row answer).bind ?_
  unfold sendRecv1
  dsimp only
  by_cases herror : (recvOneLine1 row answer).rv = -1
  · rw [if_pos herror, if_pos herror]
    exact (ends_clear _).bind (Traced.ends_pure _)
  · rw [if_neg herror, if_neg herror]
    by_cases heof : (recvOneLine1 row answer).rv = 0
    · rw [if_pos heof, if_pos heof]
      exact (ends_clear _).bind (Traced.ends_pure _)
    · rw [if_neg heof, if_neg heof]
      by_cases hmore : (recvOneLine1 row answer).rv = -2
      · rw [if_pos hmore, dif_pos hmore]
        exact Traced.ends_pure _
      · rw [if_neg hmore, dif_neg hmore]
        exact ends_answer _ _ delivered

end Call

/-! ## Runs -/

/-- The table in memory. -/
def slots (rows : Nat → Row) : Slots := fun fd =>
  { bytes := (rows fd).buf.bytes, pos := (rows fd).pos }

theorem ends_call (rows : Nat → Row) (e : Event) :
    (∀ a ∈ ((slots rows).call e).log, RowAccess a) ∧
      (slots rows).step e = some (slots (Function.update rows e.fd
        (sendRecv1 (rows e.fd) e.answer e.delivered).row)) := by
  have hends := ends_sendRecv1 (rows e.fd) e.answer e.delivered
  refine ⟨hends.log, ?_⟩
  have hresult : ((slots rows).call e).result = _ := hends.result
  rw [Slots.step, hresult, Option.map_some, Option.some_inj]
  funext fd
  rcases eq_or_ne fd e.fd with rfl | hne
  · rw [Function.update_self, slots, Function.update_self]
  · rw [Function.update_of_ne hne, slots, slots, Function.update_of_ne (Fin.val_ne_of_ne hne)]

/-- What is in memory is always a table of the model. -/
theorem slots_of_run {s : Slots} (run : Reaches Slots.step .zero s) :
    ∃ rows, s = slots rows := by
  refine run.invariant (I := fun s => ∃ rows, s = slots rows) ⟨fun _ => .zero, rfl⟩ ?_
  rintro _ e t ⟨rows, rfl⟩ hstep
  rw [(ends_call rows e).2] at hstep
  exact ⟨_, (Option.some.inj hstep).symm⟩

/-- The descriptor that `send_recv_1` is called for, and what becomes of its row. -/
theorem sendRecv_rows {k : Startup} {input : ConnId → Nat → UInt8} {s t : State}
    {readable : Readable} {delivered : Bool}
    (h : sendRecv k input s readable delivered = some t) :
    ∃ fd c, fd < maxChild * 4 ∧ t.rows = Function.update s.rows fd
      (sendRecv1 (s.rows fd) (readable.recv (input c (s.taken c))) delivered).row := by
  obtain ⟨fd, events, c, -, -, ⟨-, hlow⟩, rfl⟩ := eq_serve_of_sendRecv h
  exact ⟨fd, c, hlow, rfl⟩

/-- Every run of the server is a run over the table in memory. -/
theorem slots_reaches {k : Startup} {input : ConnId → Nat → UInt8} {s : State}
    (run : Reaches (step k input) (init k) s) : Reaches Slots.step .zero (slots s.rows) := by
  refine run.invariant (I := fun s => Reaches Slots.step .zero (slots s.rows)) .refl ?_
  intro s a t ih hstep
  cases a with
  | sendRecv readable delivered =>
      obtain ⟨fd, c, hlow, hrows⟩ := sendRecv_rows hstep
      rw [hrows]
      exact ih.tail (ends_call s.rows
        { fd := ⟨fd, hlow⟩, answer := readable.recv (input c (s.taken c)), delivered }).2
  | epollWait ready => cases move_of_step hstep; exact ih
  | accept result => cases move_of_step hstep <;> exact ih
  | register added => cases move_of_step hstep <;> exact ih
  | close => cases move_of_step hstep <;> exact ih

/-- Whatever the calls receive on whichever descriptors, a call writes below the last byte
of its row and reads in the row, it comes to its end, and the last byte of every row is NUL. -/
theorem call_accesses {s : Slots} (run : Reaches Slots.step .zero s) (e : Event) :
    (∀ a ∈ (s.call e).log, RowAccess a) ∧ (∃ t, s.step e = some t) ∧
      ∀ fd, (s fd).bytes.length = fixedBufferSize ∧
        (s fd).bytes[fixedBufferSize - 1]? = some 0 := by
  obtain ⟨rows, rfl⟩ := slots_of_run run
  obtain ⟨hlog, hstep⟩ := ends_call rows e
  exact ⟨hlog, ⟨_, hstep⟩, fun fd => ⟨(rows fd).buf.size, (rows fd).buf.last⟩⟩

theorem call_accesses_zero :
    ∃ t, Slots.zero.step { fd := ⟨4, by decide⟩, answer := .byte 97, delivered := true } = some t :=
  (call_accesses .refl { fd := ⟨4, by decide⟩, answer := .byte 97, delivered := true }).2.1

end NetworkProgram.Oneline1
