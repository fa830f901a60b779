import NetworkProgram.Echo.SendRecv
import NetworkProgram.Libc.Traced
import NetworkProgram.Server9.Model
import Mathlib.Data.List.TakeDrop

set_option autoImplicit false

/-!
# Echo: the receive buffer

The TCP servers receive into all of their buffer, put a NUL behind what they received, and
make the reply in place.  So a chunk that fills the buffer is terminated behind its end,
and a long text leaves no room for all of `":OK\r\n"`.
-/

namespace NetworkProgram.Echo

open NetworkProgram.Foundation
open NetworkProgram.Libc

/-- `send_recv` of `server2.c`, `server3.c` and `server4.c`: what is given to `send`. -/
def sendRecvTraced (received : Received) : Traced UInt8 (Option Bytes) :=
  match received with
  | .error => pure none
  | .eof => pure none
  | .data chunk => do
      Traced.store 0 chunk.bytes
      let reply ← replyTraced bufSize chunk.bytes.length
      pure (some reply)

/-- `send_recv_loop` of `server1.c` and `timeout.c`, with the answers of `recv` and whether
`send` succeeds: what is given to `send`. -/
def sendRecvLoopTraced : List (Received × Bool) → Traced UInt8 (List Bytes)
  | [] => pure []
  | (received, delivered) :: rounds => do
      let reply ← sendRecvTraced received
      match reply with
      | none => pure []
      | some reply =>
          if delivered then do
            let replies ← sendRecvLoopTraced rounds
            pure (reply :: replies)
          else pure [reply]

/-- The chunks that the loop answers. -/
def answered : List (Received × Bool) → List Chunk
  | (.data chunk, true) :: rounds => chunk :: answered rounds
  | (.data chunk, false) :: _ => [chunk]
  | _ => []

/-- A slot of `server9.c` that a chunk was received into. -/
def receivedSlot (slot : Server9.QueueData) (chunk : Chunk) : Server9.QueueData :=
  { slot with
    buf := chunk.bytes ++ slot.buf.drop chunk.bytes.length
    len := chunk.bytes.length }

/-- `send_thread` of `server9.c` on a slot: what is given to `send`. -/
def sendThreadTraced (slot : Server9.QueueData) : Traced UInt8 Bytes :=
  replyTraced Server9.bufSize slot.len

/-! ## A chunk -/

section Chunk

variable {buf : Bytes} {chunk : Chunk}

theorem ends_recv (hbuf : buf.length = bufSize) :
    Traced.Ends (Access.Below bufSize) (Traced.store 0 chunk.bytes) buf ()
      (chunk.bytes ++ buf.drop chunk.bytes.length) :=
  (Traced.ends_store_zero chunk.fits hbuf).1

theorem length_received (chunk : Chunk) (hbuf : buf.length = bufSize) :
    (chunk.bytes ++ buf.drop chunk.bytes.length).length = bufSize :=
  (Traced.ends_store_zero chunk.fits hbuf).2

theorem ends_reply_received (hbuf : buf.length = bufSize) (h : chunk.bytes.length < bufSize) :
    ∃ left, left.length = bufSize ∧ Traced.Ends (Access.Below bufSize)
      (replyTraced bufSize chunk.bytes.length) (chunk.bytes ++ buf.drop chunk.bytes.length)
      (echo chunk.bytes) left := by
  have hends := ends_reply (length_received chunk hbuf) h
  rw [List.take_left] at hends
  refine ⟨_, ?_, hends⟩
  rw [length_mystrlcat, cutLine, length_cutAt, List.length_set, length_received chunk hbuf]

theorem ends_sendRecv (hbuf : buf.length = bufSize) (h : chunk.bytes.length < bufSize) :
    ∃ left, left.length = bufSize ∧ Traced.Ends (Access.Below bufSize)
      (sendRecvTraced (.data chunk)) buf (some (echo chunk.bytes)) left := by
  obtain ⟨left, hleft, hreply⟩ := ends_reply_received hbuf h
  exact ⟨left, hleft, (ends_recv hbuf).bind (hreply.bind (Traced.ends_pure _))⟩

/-- A chunk as long as the buffer is terminated behind it. -/
theorem not_inside_reply (h : ¬ chunk.bytes.length < bufSize) (cells : Bytes) :
    ¬ (replyTraced bufSize chunk.bytes.length).Inside bufSize cells := by
  intro hinside
  have hwrite := hinside _ (Traced.mem_log_bind (Traced.mem_log_write _ _))
  exact h (Int.ofNat_lt.mp hwrite.2)

theorem sendRecv_inside_iff (hbuf : buf.length = bufSize) :
    (sendRecvTraced (.data chunk)).Inside bufSize buf ↔ chunk.bytes.length < bufSize := by
  refine ⟨fun hinside => ?_, fun h => ?_⟩
  · by_contra hlong
    refine not_inside_reply hlong (chunk.bytes ++ buf.drop chunk.bytes.length) fun a ha => ?_
    exact hinside a ((ends_recv hbuf).mem_log (Traced.mem_log_bind ha))
  · obtain ⟨left, -, hends⟩ := ends_sendRecv hbuf h
    exact hends.inside

theorem sendThread_inside_iff {slot : Server9.QueueData} (hslot : slot.buf.length = bufSize) :
    (sendThreadTraced (receivedSlot slot chunk)).Inside bufSize (receivedSlot slot chunk).buf ↔
      chunk.bytes.length < bufSize := by
  refine ⟨fun hinside => ?_, fun h => ?_⟩
  · by_contra hlong
    exact not_inside_reply hlong _ hinside
  · obtain ⟨left, -, hends⟩ := ends_reply_received hslot h
    exact hends.inside

end Chunk

/-! ## The loop -/

theorem sendRecvLoop_inside_iff {buf : Bytes} (hbuf : buf.length = bufSize)
    (rounds : List (Received × Bool)) :
    (sendRecvLoopTraced rounds).Inside bufSize buf ↔
      ∀ chunk ∈ answered rounds, chunk.bytes.length < bufSize := by
  induction rounds generalizing buf with
  | nil => exact iff_of_true (Traced.ends_pure []).inside (List.forall_mem_nil _)
  | cons round rounds ih =>
      obtain ⟨received, delivered⟩ := round
      cases received with
      | error => exact iff_of_true (Traced.ends_pure []).inside (List.forall_mem_nil _)
      | eof => exact iff_of_true (Traced.ends_pure []).inside (List.forall_mem_nil _)
      | data chunk =>
          by_cases h : chunk.bytes.length < bufSize
          · obtain ⟨left, hleft, hends⟩ := ends_sendRecv hbuf h
            rw [sendRecvLoopTraced, hends.inside_bind]
            cases delivered with
            | true =>
                have hcons : (∀ c ∈ chunk :: answered rounds, c.bytes.length < bufSize) ↔
                    ∀ c ∈ answered rounds, c.bytes.length < bufSize := by
                  rw [List.forall_mem_cons]
                  exact and_iff_right h
                exact (Traced.inside_bind_pure _).trans ((ih hleft).trans hcons.symm)
            | false =>
                exact iff_of_true (Traced.ends_pure _).inside (List.forall_mem_singleton.mpr h)
          · refine iff_of_false (fun hinside => h ?_) fun hall => h ?_
            · exact (sendRecv_inside_iff hbuf).mp fun a ha => hinside a (Traced.mem_log_bind ha)
            · cases delivered <;> exact hall chunk List.mem_cons_self

/-- The loop replies to every chunk it answers. -/
theorem ends_sendRecvLoop {buf : Bytes} (hbuf : buf.length = bufSize)
    (rounds : List (Received × Bool)) (h : ∀ c ∈ answered rounds, c.bytes.length < bufSize) :
    ∃ left, left.length = bufSize ∧ Traced.Ends (Access.Below bufSize)
      (sendRecvLoopTraced rounds) buf ((answered rounds).map fun c => echo c.bytes) left := by
  induction rounds generalizing buf with
  | nil => exact ⟨buf, hbuf, Traced.ends_pure []⟩
  | cons round rounds ih =>
      obtain ⟨received, delivered⟩ := round
      cases received with
      | error => exact ⟨buf, hbuf, Traced.ends_pure []⟩
      | eof => exact ⟨buf, hbuf, Traced.ends_pure []⟩
      | data chunk =>
          cases delivered with
          | true =>
              obtain ⟨hchunk, hrounds⟩ := List.forall_mem_cons.mp h
              obtain ⟨left, hleft, hends⟩ := ends_sendRecv hbuf hchunk
              obtain ⟨left', hleft', hrest⟩ := ih hleft hrounds
              exact ⟨left', hleft', hends.bind (hrest.bind (Traced.ends_pure _))⟩
          | false =>
              obtain ⟨left, hleft, hends⟩ := ends_sendRecv hbuf (h chunk List.mem_cons_self)
              exact ⟨left, hleft, hends.bind (Traced.ends_pure _)⟩

/-- A chunk of `n` letters. -/
def Chunk.letters (n : Nat) (hpos : 0 < n) (hfits : n ≤ bufSize) : Chunk where
  bytes := List.replicate n 97
  nonempty := List.ne_nil_of_length_pos (hpos.trans_eq List.length_replicate.symm)
  fits := List.length_replicate.trans_le hfits

/-- A slot as `main` leaves it. -/
def zeroSlot : Server9.QueueData :=
  { acc := 0, buf := List.replicate Server9.bufSize 0, len := 0, src := 0 }

/-- A zeroed stack. -/
def zeroStack : Stack := (Answer.plain .eof true).stack

/-- In all of the programs the receive buffer is left exactly by chunks of its own size. -/
theorem echo_inside_iff (stack : Stack) (chunk : Chunk) (slot : Server9.QueueData)
    (hslot : slot.buf.length = Server9.bufSize) :
    ((sendRecvTraced (.data chunk)).Inside bufSize stack.bytes ↔ chunk.bytes.length < bufSize) ∧
      (∀ rounds, (sendRecvLoopTraced rounds).Inside bufSize stack.bytes ↔
        ∀ c ∈ answered rounds, c.bytes.length < bufSize) ∧
      ((sendThreadTraced (receivedSlot slot chunk)).Inside Server9.bufSize
        (receivedSlot slot chunk).buf ↔ chunk.bytes.length < bufSize) :=
  ⟨sendRecv_inside_iff stack.size, sendRecvLoop_inside_iff stack.size,
    sendThread_inside_iff hslot⟩

theorem echo_inside_iff_letter :
    (sendRecvTraced (.data (Chunk.letters 1 (by decide) (by decide)))).Inside bufSize
      zeroStack.bytes :=
  (echo_inside_iff zeroStack (Chunk.letters 1 (by decide) (by decide)) zeroSlot
    List.length_replicate).1.mpr (by decide)

theorem echo_overrun : ¬ ∀ (stack : Stack) (chunk : Chunk),
    (sendRecvTraced (.data chunk)).Inside bufSize stack.bytes := by
  intro h
  have hinside := h zeroStack (Chunk.letters 512 (by decide) (by decide))
  have hlen : (List.replicate 512 (97 : UInt8)).length < bufSize :=
    (sendRecv_inside_iff zeroStack.size).mp hinside
  rw [List.length_replicate] at hlen
  exact Nat.lt_irrefl 512 hlen

/-! ## The reply -/

/-- The end of the reply is complete exactly if the text leaves room for it. -/
theorem take_okReply_eq_iff (text : Bytes) :
    (okReply text).take (bufSize - 1) = okReply text ↔ text.length ≤ 506 := by
  have hlen : (okReply text).length = text.length + 5 := List.length_append
  rw [List.take_eq_self_iff, hlen, bufSize]
  omega

/-- What is sent in reply to a chunk are the first 511 bytes of its text with `":OK\r\n"`,
and these are all of it for a text of at most 506 bytes. -/
theorem echo_sent (stack : Stack) (chunk : Chunk) (h : chunk.bytes.length < bufSize)
    (slot : Server9.QueueData) (hslot : slot.buf.length = Server9.bufSize) :
    ((sendRecvTraced (.data chunk) stack.bytes).result.map Prod.fst =
        some (some ((okReply (visible chunk.bytes)).take 511)) ∧
      (∀ rounds, (∀ c ∈ answered rounds, c.bytes.length < bufSize) →
        (sendRecvLoopTraced rounds stack.bytes).result.map Prod.fst =
          some ((answered rounds).map fun c => (okReply (visible c.bytes)).take 511)) ∧
      (sendThreadTraced (receivedSlot slot chunk) (receivedSlot slot chunk).buf).result.map
        Prod.fst = some ((okReply (visible chunk.bytes)).take 511)) ∧
      ((okReply (visible chunk.bytes)).take 511 = okReply (visible chunk.bytes) ↔
        (visible chunk.bytes).length ≤ 506) := by
  refine ⟨⟨?_, fun rounds hrounds => ?_, ?_⟩, take_okReply_eq_iff _⟩
  · obtain ⟨left, -, hends⟩ := ends_sendRecv stack.size h
    rw [hends.result]
    rfl
  · obtain ⟨left, -, hends⟩ := ends_sendRecvLoop stack.size rounds hrounds
    rw [hends.result]
    rfl
  · obtain ⟨left, -, hends⟩ := ends_reply_received hslot h
    rw [show sendThreadTraced (receivedSlot slot chunk) (receivedSlot slot chunk).buf =
      replyTraced bufSize chunk.bytes.length (chunk.bytes ++ slot.buf.drop chunk.bytes.length)
      from rfl, hends.result]
    rfl

theorem echo_sent_letter :
    (sendRecvTraced (.data (Chunk.letters 1 (by decide) (by decide))) zeroStack.bytes).result.map
      Prod.fst = some (some [97, 58, 79, 75, 13, 10]) :=
  (echo_sent zeroStack (Chunk.letters 1 (by decide) (by decide)) (by decide) zeroSlot
    List.length_replicate).1.1

/-- A text of 507 bytes takes the last byte of `":OK\r\n"`. -/
theorem echo_incomplete : ¬ ∀ (stack : Stack) (chunk : Chunk), chunk.bytes.length < bufSize →
    (sendRecvTraced (.data chunk) stack.bytes).result.map Prod.fst =
      some (some (okReply (visible chunk.bytes))) := by
  intro h
  have hshort : (Chunk.letters 507 (by decide) (by decide)).bytes.length < bufSize := by
    rw [Chunk.letters, List.length_replicate]
    decide
  have hreply := h zeroStack _ hshort
  obtain ⟨left, -, hends⟩ := ends_sendRecv zeroStack.size hshort
  rw [hends.result] at hreply
  have hecho : echo (Chunk.letters 507 (by decide) (by decide)).bytes = okReply _ :=
    Option.some.inj (Option.some.inj hreply)
  have htext : visible (List.replicate 507 (97 : UInt8)) = List.replicate 507 97 :=
    visible_eq_self fun c hc => by
      rw [List.eq_of_mem_replicate hc]
      decide
  have hle := (take_okReply_eq_iff _).mp hecho
  rw [Chunk.letters, htext, List.length_replicate] at hle
  exact absurd hle (by decide)

end NetworkProgram.Echo
