import NetworkProgram.Oneline.Model

set_option autoImplicit false

/-!
# Oneline: the lines with the fixed buffer

`recv_one_line_1` takes one piece of the stream, of at most `bufsize - 1` bytes,
and puts it in front of a NUL.  So `send_recv_loop_1` answers the pieces of up to
19 bytes in their order.
-/

namespace NetworkProgram.Oneline

open NetworkProgram.Libc

/-! ## One line -/

theorem set_behind (text tail : Bytes) (b c : UInt8) :
    (text ++ b :: tail).set text.length c = text ++ c :: tail := by
  rw [List.set_append_right _ _ (Nat.le_refl _), Nat.sub_self, List.set_cons_zero]

/-- The loop with `text` received and room for `n` more bytes and the NUL. -/
theorem recvLoop1_eq {bufsize n : Nat} (hn : 0 < n) (text tail : Bytes)
    (hsize : text.length + n + 1 = bufsize) (htail : tail.length = n + 1) (data : Bytes) :
    recvLoop1 bufsize false data (text ++ tail) text.length =
      { rv := (text ++ (takeLine n data).1).length
        buf := text ++ (takeLine n data).1 ++ 0 :: tail.drop ((takeLine n data).1.length + 1)
        rest := (takeLine n data).2 } := by
  induction data generalizing text tail n with
  | nil =>
      obtain ⟨m, rfl⟩ := Nat.exists_eq_succ_of_ne_zero hn.ne'
      obtain ⟨b, tail, rfl⟩ := List.exists_cons_of_length_pos (l := tail) (by omega)
      have hrv : (if 0 < text.length then (text.length : Int) else 0) = text.length := by
        split <;> omega
      rw [recvLoop1, set_behind, if_neg Bool.false_ne_true, hrv, takeLine, List.append_nil]
      rfl
  | cons c data ih =>
      obtain ⟨m, rfl⟩ := Nat.exists_eq_succ_of_ne_zero hn.ne'
      obtain ⟨b, tail, rfl⟩ := List.exists_cons_of_length_pos (l := tail) (by omega)
      obtain ⟨d, tail, rfl⟩ := List.exists_cons_of_length_pos (l := tail) (by
        rw [List.length_cons] at htail
        omega)
      have happend : ∀ rest, text ++ c :: rest = (text ++ [c]) ++ rest := fun rest => by
        rw [List.append_assoc, List.singleton_append]
      have hlen : (text ++ [c]).length = text.length + 1 := List.length_append
      have hone : (text ++ c :: d :: tail).set (text.length + 1) 0 = text ++ [c] ++ 0 :: tail := by
        rw [happend, ← hlen, set_behind]
      have hrv : (text.length : Int) + 1 = (text ++ [c]).length := by
        rw [hlen, Int.natCast_succ]
      rw [recvLoop1, takeLine, set_behind]
      rcases Decidable.em (c = lf) with hc | hc
      · rw [if_pos (.inl hc), if_pos hc, hone, hrv]
        rfl
      · rw [if_neg hc]
        rcases Nat.eq_zero_or_pos m with rfl | hpos
        · rw [if_pos (.inr (by omega)), hone, hrv]
          rfl
        · rw [if_neg fun h => h.elim hc fun hfull => by omega, happend, ← hlen,
            ih hpos _ _ (by omega) (Nat.succ.inj htail), ← happend (takeLine m data).1]
          rfl

theorem length_recvLoop1_buf (bufsize : Nat) (broken : Bool) (data buf : Bytes) (pos : Nat) :
    (recvLoop1 bufsize broken data buf pos).buf.length = buf.length := by
  induction data generalizing buf pos with
  | nil => exact List.length_set
  | cons c data ih =>
      rw [recvLoop1]
      split
      · exact List.length_set.trans List.length_set
      · exact (ih _ _).trans List.length_set

/-- `recv_one_line_1` without errors: the buffer holds the piece as a string. -/
theorem recvOneLine1_eq {bufsize : Nat} (hsize : 1 < bufsize) {buf : Bytes}
    (hbuf : buf.length = bufsize) (data : Bytes) :
    ∃ tail, recvOneLine1 { data := data, broken := false } buf bufsize =
        { rv := (takeLine (bufsize - 1) data).1.length
          buf := (takeLine (bufsize - 1) data).1 ++ 0 :: tail
          rest := (takeLine (bufsize - 1) data).2 } ∧
      ((takeLine (bufsize - 1) data).1 ++ 0 :: tail).length = bufsize := by
  have hempty : ([] : Bytes).length + (bufsize - 1) + 1 = bufsize := by
    rw [List.length_nil]
    omega
  have hrecv := recvLoop1_eq (by omega) [] (buf.set 0 0) hempty
    (by rw [List.length_set, hbuf]; omega) data
  have hlen := length_recvLoop1_buf bufsize false data (buf.set 0 0) 0
  refine ⟨_, hrecv, ?_⟩
  rw [List.length_set, hbuf] at hlen
  exact (congrArg (fun r => r.buf.length) hrecv).symm.trans hlen

/-! ## The replies -/

/-- The string that the cut leaves of a received piece. -/
theorem cstr_cut_piece (piece tail : Bytes) :
    cstr (cutLine (piece ++ 0 :: tail)) = visible piece := by
  rw [cstr_cutLine, visible_append_of_stop (.inl rfl)]

theorem sendRecvLoop1_nil {buf : Bytes} (hbuf : buf.length = fixedBufferSize)
    (delivered : Nat → Bool) (buf2 : Bytes) :
    sendRecvLoop1 { data := [], broken := false } delivered buf buf2 = [] := by
  obtain ⟨tail, hrecv, -⟩ := recvOneLine1_eq (by decide) hbuf []
  rw [sendRecvLoop1, hrecv]
  rfl

/-- One round: the reply to the first piece, and the loop goes on behind it. -/
theorem sendRecvLoop1_round {buf buf2 : Bytes} (hbuf : buf.length = fixedBufferSize)
    (hbuf2 : buf2.length = 512) {data : Bytes} (hdata : data ≠ []) :
    ∃ buf' buf2', buf'.length = fixedBufferSize ∧ buf2'.length = 512 ∧
      sendRecvLoop1 { data := data, broken := false } (fun _ => true) buf buf2 =
        okReply (visible (takeLine (fixedBufferSize - 1) data).1) ::
          sendRecvLoop1 { data := (takeLine (fixedBufferSize - 1) data).2, broken := false }
            (fun _ => true) buf' buf2' := by
  obtain ⟨tail, hrecv, hsize⟩ := recvOneLine1_eq (by decide) hbuf data
  have hline := takeLine_fgetsLine (n := fixedBufferSize - 1) (by decide) hdata
  have hpos := List.length_pos_iff.mpr hline.nonempty
  have hfits :
      (okReply (visible (takeLine (fixedBufferSize - 1) data).1)).length < buf2.length := by
    have hle := length_visible_le (takeLine (fixedBufferSize - 1) data).1
    have hpiece : _ ≤ 19 := hline.length
    have htail : okTail.length = 5 := rfl
    rw [okReply, List.length_append]
    omega
  rw [sendRecvLoop1, hrecv]
  dsimp only
  rw [dif_neg (by omega), dif_neg (by omega), if_pos rfl, cstr_cut_piece, snprintf_fits hfits]
  exact ⟨_, _, (length_cutAt _ _).trans hsize,
    (length_snprintf (by omega) _).trans hbuf2, rfl⟩

/-- `send_recv_loop_1` answers the pieces of the stream. -/
theorem sendRecvLoop1_eq {buf buf2 : Bytes} (hbuf : buf.length = fixedBufferSize)
    (hbuf2 : buf2.length = 512) (data : Bytes) :
    sendRecvLoop1 { data := data, broken := false } (fun _ => true) buf buf2 =
      (pieces (fixedBufferSize - 1) data).map fun piece => okReply (visible piece) := by
  induction hlen : data.length using Nat.strongRecOn generalizing data buf buf2 with
  | ind len ih =>
      rcases eq_or_ne data [] with rfl | hne
      · rw [sendRecvLoop1_nil hbuf, pieces_nil, List.map_nil]
      · obtain ⟨buf', buf2', hbuf', hbuf2', hround⟩ := sendRecvLoop1_round hbuf hbuf2 hne
        have hshort := takeLine_shorter (n := fixedBufferSize - 1) (by decide) hne
        rw [hround, pieces_eq (by decide) hne, List.map_cons,
          ih _ (hlen ▸ hshort) hbuf' hbuf2' _ rfl]

/-! ## All of the stream -/

/-- What a call received. -/
def Received.piece (r : Received Bytes) : Bytes := r.buf.take r.rv.toNat

/-- The calls of `recv_one_line_1` up to the first that receives nothing, and that one.
`bufs` is what the caller has in its buffer before each of them. -/
def recvLines (bufsize : Nat) (soc : Socket) (bufs : Nat → Bytes) :
    List (Received Bytes) × Received Bytes :=
  let r := recvOneLine1 soc (bufs 0) bufsize
  if _ : r.rv = -1 then ([], r)
  else if _ : r.rv = 0 then ([], r)
  else
    let lines := recvLines bufsize { soc with data := r.rest } fun k => bufs (k + 1)
    (r :: lines.1, lines.2)
termination_by soc.data.length
decreasing_by exact recvOneLine1_rest_lt ‹_› ‹_›

/-- The buffer holds a piece of up to one line as a string. -/
structure IsPiece (bufsize : Nat) (r : Received Bytes) : Prop where
  nonempty : 1 ≤ r.rv
  fits : r.rv ≤ bufsize - 1
  size : r.buf.length = bufsize
  terminated : r.buf[r.rv.toNat]? = some 0
  newline : lf ∉ r.piece.dropLast

/-- A call on a stream that is not at its end. -/
theorem recvOneLine1_isPiece {bufsize : Nat} (hsize : 1 < bufsize) {buf : Bytes}
    (hbuf : buf.length = bufsize) {data : Bytes} (hdata : data ≠ []) {r : Received Bytes}
    (hr : r = recvOneLine1 { data := data, broken := false } buf bufsize) :
    IsPiece bufsize r ∧ r.piece ++ r.rest = data ∧ r.rest.length < data.length ∧
      (r.rest ≠ [] → r.piece.getLast? = some lf ∨ r.rv = bufsize - 1) := by
  obtain ⟨tail, hrecv, hlen⟩ := recvOneLine1_eq hsize hbuf data
  rw [hrecv] at hr
  have hline := takeLine_fgetsLine (n := bufsize - 1) (by omega) hdata
  have hpos := List.length_pos_iff.mpr hline.nonempty
  have hle := hline.length
  have hrv : r.rv = (takeLine (bufsize - 1) data).1.length := congrArg Received.rv hr
  have hbuf : r.buf = (takeLine (bufsize - 1) data).1 ++ 0 :: tail := congrArg Received.buf hr
  have hrest : r.rest = (takeLine (bufsize - 1) data).2 := congrArg Received.rest hr
  have hpiece : r.piece = (takeLine (bufsize - 1) data).1 := by
    rw [Received.piece, hrv, hbuf, Int.toNat_natCast, List.take_left]
  have hnul : r.buf[r.rv.toNat]? = some 0 := by
    rw [hbuf, hrv, Int.toNat_natCast, List.getElem?_append_right (Nat.le_refl _), Nat.sub_self]
    rfl
  rw [hrest, hpiece]
  refine ⟨⟨by omega, by omega, hbuf ▸ hlen, hnul, hpiece ▸ hline.newline⟩,
    takeLine_append _ _, takeLine_shorter (by omega) hdata, fun hleft => ?_⟩
  refine hline.ends.imp_right fun hends => ?_
  have hfull := hends.resolve_right hleft
  omega

theorem recvLines_nil {bufsize : Nat} (hsize : 1 < bufsize) (bufs : Nat → Bytes)
    (hbuf : (bufs 0).length = bufsize) :
    (recvLines bufsize { data := [], broken := false } bufs).1 = [] ∧
      (recvLines bufsize { data := [], broken := false } bufs).2.rv = 0 := by
  obtain ⟨tail, hrecv, -⟩ := recvOneLine1_eq hsize hbuf []
  have hzero : (recvOneLine1 { data := [], broken := false } (bufs 0) bufsize).rv = 0 := by
    rw [hrecv, takeLine_nil]
    rfl
  rw [recvLines]
  dsimp only
  rw [dif_neg (by omega), dif_pos hzero]
  exact ⟨rfl, hzero⟩

/-- The calls on the stream up to its end part it into pieces, and only the last of these
can be short. -/
theorem recvLines_partition {bufsize : Nat} (hsize : 2 ≤ bufsize) {bufs : Nat → Bytes}
    (hbufs : ∀ k, (bufs k).length = bufsize) (data : Bytes) :
    (recvLines bufsize { data := data, broken := false } bufs).2.rv = 0 ∧
      ((recvLines bufsize { data := data, broken := false } bufs).1.map
        Received.piece).flatten = data ∧
      (∀ r ∈ (recvLines bufsize { data := data, broken := false } bufs).1,
        IsPiece bufsize r) ∧
      ∀ r ∈ (recvLines bufsize { data := data, broken := false } bufs).1.dropLast,
        r.piece.getLast? = some lf ∨ r.rv = bufsize - 1 := by
  induction hlen : data.length using Nat.strongRecOn generalizing data bufs with
  | ind len ih =>
      rcases eq_or_ne data [] with rfl | hne
      · obtain ⟨hnone, hlast⟩ := recvLines_nil hsize bufs (hbufs 0)
        rw [hnone]
        exact ⟨hlast, rfl, List.forall_mem_nil _, List.forall_mem_nil _⟩
      · obtain ⟨hpiece, happend, hshorter, hends⟩ :=
          recvOneLine1_isPiece hsize (hbufs 0) hne rfl
        generalize hr : recvOneLine1 { data := data, broken := false } (bufs 0) bufsize = r at *
        have hcalls : recvLines bufsize { data := data, broken := false } bufs =
            (r :: (recvLines bufsize { data := r.rest, broken := false }
              fun k => bufs (k + 1)).1,
            (recvLines bufsize { data := r.rest, broken := false } fun k => bufs (k + 1)).2) := by
          have hpos := hpiece.nonempty
          rw [recvLines, hr]
          dsimp only
          rw [dif_neg (by omega), dif_neg (by omega)]
        obtain ⟨hlast, hflatten, hall, hinit⟩ :=
          ih _ (hlen ▸ hshorter) (fun k => hbufs (k + 1)) r.rest rfl
        generalize hrest : recvLines bufsize { data := r.rest, broken := false }
          (fun k => bufs (k + 1)) = calls at *
        rw [hcalls]
        refine ⟨hlast, ?_, List.forall_mem_cons.mpr ⟨hpiece, hall⟩, ?_⟩
        · rw [List.map_cons, List.flatten_cons, hflatten, happend]
        · cases hcons : calls.1 with
          | nil => exact List.forall_mem_nil _
          | cons r' later =>
              rw [hcons] at hflatten hinit
              rw [List.dropLast_cons_cons]
              refine List.forall_mem_cons.mpr ⟨hends fun hnil => ?_, hinit⟩
              have hnone := (recvLines_nil hsize (fun k => bufs (k + 1)) (hbufs 1)).1
              rw [← hnil, hrest, hcons] at hnone
              cases hnone

theorem recvLines_partition_two :
    (recvLines 3 { data := [97, 98, 99, 10], broken := false } fun _ => [0, 0, 0]).2.rv = 0 :=
  (recvLines_partition (show 2 ≤ 3 by decide) (fun _ => rfl) [97, 98, 99, 10]).1

end NetworkProgram.Oneline
