import NetworkProgram.Oneline.Dynamic

set_option autoImplicit false

/-!
# Oneline: the two modes compared

`send_recv_loop_2` answers the lines of the stream, `send_recv_loop_1` its pieces
of up to 19 bytes.  A line that is cut into pieces gets more than one reply, and
the number of replies can be read off the bytes sent, so that the modes agree
exactly on the streams without such a line.
-/

namespace NetworkProgram.Oneline

open NetworkProgram.Libc

/-- Memory without end. -/
def Memory.ample (stack : Nat → UInt8) (line reply : Nat → Nat → UInt8) : Memory :=
  { stack := stack, line := .ample line, reply := .ample reply }

section Dynamic

variable (stack : Nat → Nat → UInt8) (line reply : Nat → Nat → Nat → UInt8)

/-- What a round reads, with the memory of the round. -/
theorem recv_ample (data : Bytes) :
    Returns (recvOneLine2 (Memory.ample (stack 0) (line 0) (reply 0)).line
        (Memory.ample (stack 0) (line 0) (reply 0)).stack { data := data, broken := false })
      (firstLine data) (data.drop (firstLine data).length) :=
  recvOneLine2_returns (line 0) (stack 0) data

theorem sendRecvLoop2_nil :
    sendRecvLoop2 { data := [], broken := false } (fun _ => true)
      (fun k => .ample (stack k) (line k) (reply k)) = [] := by
  obtain ⟨hrv, -⟩ := recv_ample stack line reply []
  rw [sendRecvLoop2]
  dsimp only
  rw [dif_neg (by omega), dif_pos hrv]

/-- One round: the reply to the first line, and the loop goes on behind it. -/
theorem sendRecvLoop2_round {data : Bytes} (hdata : data ≠ [])
    (hlimit : (firstLine data).length ≤ allocLimit - 1) :
    sendRecvLoop2 { data := data, broken := false } (fun _ => true)
        (fun k => .ample (stack k) (line k) (reply k)) =
      okReply (visible (firstLine data)) ::
        sendRecvLoop2 { data := data.drop (firstLine data).length, broken := false }
          (fun _ => true)
          (fun k => .ample (stack (k + 1)) (line (k + 1)) (reply (k + 1))) := by
  have hreturns := recv_ample stack line reply data
  have hpos := List.length_pos_iff.mpr (firstLine_ne_nil hdata)
  have hlt : (firstLine data).length < allocLimit := by
    have hlimit_eq := allocLimit_eq
    omega
  unfold Returns at hreturns
  rw [if_neg (firstLine_ne_nil hdata), if_pos hlt] at hreturns
  rw [sendRecvLoop2]
  dsimp only
  generalize recvOneLine2 _ _ _ = r at hreturns ⊢
  obtain ⟨rv, buf, rest⟩ := r
  obtain ⟨rfl, ⟨tail, rfl⟩, rfl⟩ := hreturns
  dsimp only
  have hmalloc : ∀ size, malloc (Memory.ample (stack 0) (line 0) (reply 0)).reply size =
      some (block (reply 0 size) size) := malloc_ample (reply 0)
  rw [dif_neg (by omega), dif_neg (by omega), hmalloc]
  dsimp only
  rw [if_pos rfl, strlen, cstr_cut_piece, snprintf_fits]
  rw [length_block, okReply, List.length_append]
  exact Nat.lt_succ_self _

/-- `send_recv_loop_2` answers the lines of the stream. -/
theorem sendRecvLoop2_eq {data : Bytes}
    (hlimit : ∀ line ∈ linesOf data, line.length ≤ allocLimit - 1) :
    sendRecvLoop2 { data := data, broken := false } (fun _ => true)
        (fun k => .ample (stack k) (line k) (reply k)) =
      (linesOf data).map fun line => okReply (visible line) := by
  induction hlen : data.length using Nat.strongRecOn generalizing data stack line reply with
  | ind len ih =>
      rcases eq_or_ne data [] with rfl | hne
      · rw [sendRecvLoop2_nil, linesOf, List.map_nil]
      · rw [linesOf_eq hne, List.forall_mem_cons] at hlimit
        have hpos := List.length_pos_iff.mpr (firstLine_ne_nil hne)
        have hle := (isPrefix_firstLine data).length_le
        have hshort : (data.drop (firstLine data).length).length < len := by
          rw [List.length_drop]
          omega
        rw [sendRecvLoop2_round stack line reply hne hlimit.1, linesOf_eq hne, List.map_cons,
          ih _ hshort (fun k => stack (k + 1)) (fun k => line (k + 1)) (fun k => reply (k + 1))
            hlimit.2 rfl]

end Dynamic

/-- For lines under the limit, the two modes send the same bytes exactly on the
streams whose lines all fit into the fixed buffer. -/
theorem modes_agree_iff (buf buf2 : Nat → UInt8) (stack : Nat → Nat → UInt8)
    (line reply : Nat → Nat → Nat → UInt8) (data : Bytes)
    (hlimit : ∀ line ∈ linesOf data, line.length ≤ allocLimit - 1) :
    (sendRecvLoop1 { data := data, broken := false } (fun _ => true)
        (block buf fixedBufferSize) (block buf2 512)).flatten =
      (sendRecvLoop2 { data := data, broken := false } (fun _ => true)
        (fun k => .ample (stack k) (line k) (reply k))).flatten ↔
      ∀ line ∈ linesOf data, line.length ≤ fixedBufferSize - 1 := by
  rw [sendRecvLoop1_eq (length_block _ _) (length_block _ _), sendRecvLoop2_eq _ _ _ hlimit]
  rw [map_okReply_visible, map_okReply_visible,
    flatten_okReply_inj (cr_notMem_map_visible _) (cr_notMem_map_visible _)]
  constructor
  · intro hsame
    by_contra hcon
    push Not at hcon
    have hmore := (length_linesOf_le (n := fixedBufferSize - 1) (by decide) data).2 hcon
    have hlen := congrArg List.length hsame
    rw [List.length_map, List.length_map] at hlen
    omega
  · intro hfits
    rw [pieces_eq_linesOf hfits]

/-- A line of 19 bytes with its newline gets the same reply in both modes, one of 20
bytes does not. -/
theorem modes_agree_iff_nineteen :
    (sendRecvLoop1 { data := List.replicate 18 97 ++ [lf], broken := false } (fun _ => true)
        (block (fun _ => 7) fixedBufferSize) (block (fun _ => 7) 512)).flatten =
      (sendRecvLoop2 { data := List.replicate 18 97 ++ [lf], broken := false } (fun _ => true)
        (fun _ => .ample (fun _ => 7) (fun _ _ => 7) (fun _ _ => 7))).flatten ∧
    (sendRecvLoop1 { data := List.replicate 19 97 ++ [lf], broken := false } (fun _ => true)
        (block (fun _ => 7) fixedBufferSize) (block (fun _ => 7) 512)).flatten ≠
      (sendRecvLoop2 { data := List.replicate 19 97 ++ [lf], broken := false } (fun _ => true)
        (fun _ => .ample (fun _ => 7) (fun _ _ => 7) (fun _ _ => 7))).flatten := by
  constructor
  · exact (modes_agree_iff _ _ (fun _ _ => 7) (fun _ _ _ => 7) (fun _ _ _ => 7) _
      (by decide)).mpr (by decide)
  · exact fun hsame => absurd ((modes_agree_iff _ _ (fun _ _ => 7) (fun _ _ _ => 7)
      (fun _ _ _ => 7) _ (by decide)).mp hsame) (by decide)

end NetworkProgram.Oneline
