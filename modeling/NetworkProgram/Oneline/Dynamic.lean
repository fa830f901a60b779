import NetworkProgram.Oneline.Lines

set_option autoImplicit false

/-!
# Oneline: the lines with the growing buffer

`recv_one_line_2` puts a line together from chunks of up to 1023 bytes, in a
buffer that gets another 1024 bytes when the next chunk does not fit.  So every
chunk leaves one byte more unused, up to chunk 1025, which fits without growth:
the longest line it returns has 1025 times 1023 bytes, the limit less one.
-/

namespace NetworkProgram.Oneline

open NetworkProgram.Libc

/-- The variables of `recv_one_line_2` with `text` received: a string in a buffer of
`size` bytes, or nothing yet. -/
structure Assembled (line : Line) (text : Bytes) : Prop where
  buf : line.buf.length = allocSize
  nowLen : line.nowLen = text.length
  size : line.size ≤ allocLimit
  data : text = [] ∧ line.data = none ∧ line.size = 0 ∨
    text ≠ [] ∧ ∃ tail, line.data = some (text ++ 0 :: tail) ∧
      (text ++ 0 :: tail).length = line.size

/-- `text` is made of full chunks; from the 1025th on the buffer is at its limit. -/
def FullChunks (line : Line) (text : Bytes) : Prop :=
  ∃ j, j ≤ 1025 ∧ text.length = 1023 * j ∧ line.size = 1024 * min j 1024

/-- The buffer has room for a chunk of `len` bytes and the NUL. -/
structure Roomy (line : Line) (text : Bytes) (len : Nat) : Prop where
  size : line.size ≤ allocLimit
  fits : text.length + len < line.size
  data : ∃ tail, line.data = some (text ++ tail) ∧ (text ++ tail).length = line.size

theorem allocSize_eq : allocSize = 1024 := rfl

theorem allocLimit_eq : allocLimit = 1048576 := rfl

section Chunks

variable {line : Line} {text : Bytes} {len : Nat}

theorem allocate_roomy (contents : Nat → Nat → UInt8) (h : Assembled line text) {size : Nat}
    (hle : line.size ≤ size) (hlimit : size ≤ allocLimit) :
    ∃ tail, allocate (.ample contents) line.data size = some (text ++ tail) ∧
      (text ++ tail).length = size := by
  unfold allocate
  rw [if_neg (Nat.not_lt.mpr hlimit)]
  rcases h.data with ⟨rfl, hnone, -⟩ | ⟨-, tail, hsome, hlen⟩
  · rw [hnone]
    exact ⟨block (contents size) size, malloc_ample _ _, length_block _ _⟩
  · rw [hsome]
    obtain ⟨more, hgrown, hmore⟩ := realloc_ample contents (hlen.trans_le hle)
    rw [List.append_assoc] at hgrown hmore
    exact ⟨_, hgrown, hmore⟩

@[simp] theorem makeRoom_nowLen (heap : Heap) (line : Line) (len : Nat) :
    (line.makeRoom heap len).nowLen = line.nowLen := by
  unfold Line.makeRoom
  split <;> rfl

/-- The next chunk fits as long as the line stays under the limit. -/
theorem Assembled.makeRoom (contents : Nat → Nat → UInt8) (h : Assembled line text)
    (hchunks : FullChunks line text) (hlen : len ≤ 1023)
    (hlimit : text.length + len < allocLimit) :
    Roomy (line.makeRoom (.ample contents) len) text len ∧
      (len = 1023 → ∃ j, j ≤ 1025 ∧ text.length + len = 1023 * j ∧
        (line.makeRoom (.ample contents) len).size = 1024 * min j 1024) := by
  obtain ⟨j, hj, htext, hsize⟩ := hchunks
  have hnow := h.nowLen
  rw [allocLimit_eq] at hlimit
  rw [Line.makeRoom]
  split
  · generalize hgrown : line.size + allocSize = size
    rw [allocSize_eq] at hgrown
    have hroom : size ≤ allocLimit := by
      rw [allocLimit_eq]
      omega
    refine ⟨⟨hroom, ?_, allocate_roomy contents h (by omega) hroom⟩, fun hfull => ⟨j + 1, ?_⟩⟩
    all_goals
      dsimp only
      omega
  · have hdata : ∃ tail, line.data = some (text ++ tail) ∧ (text ++ tail).length = line.size := by
      rcases h.data with ⟨-, -, hzero⟩ | ⟨-, tail, hsome, hlen⟩
      · omega
      · exact ⟨_, hsome, hlen⟩
    exact ⟨⟨h.size, by omega, hdata⟩, fun hfull => ⟨j + 1, by omega⟩⟩

/-- A chunk that reaches the limit gets no buffer. -/
theorem Assembled.makeRoom_none (heap : Heap) (h : Assembled line text)
    (hchunks : FullChunks line text) (hpos : 0 < len) (hlen : len ≤ 1023)
    (hlimit : allocLimit ≤ text.length + len) : (line.makeRoom heap len).data = none := by
  obtain ⟨j, hj, htext, hsize⟩ := hchunks
  have hnow := h.nowLen
  rw [allocLimit_eq] at hlimit
  rw [Line.makeRoom, if_pos (by omega)]
  generalize hgrown : line.size + allocSize = size
  rw [allocSize_eq] at hgrown
  dsimp only
  unfold allocate
  refine if_pos ?_
  rw [allocLimit_eq]
  omega

end Chunks

/-! ## The line -/

/-- What is returned for the line `text` in front of `rest`: the line as a string, if
it is under the limit. -/
def Returns (r : Received (Option Bytes)) (text rest : Bytes) : Prop :=
  if text = [] then r.rv = 0 ∧ r.buf = none
  else if text.length < allocLimit then
    r.rv = text.length ∧ (∃ tail, r.buf = some (text ++ 0 :: tail)) ∧ r.rest = rest
  else r.rv = -1 ∧ r.buf = none

/-- The end of the stream returns what was assembled. -/
theorem recvLoop2_eof (heap : Heap) {line : Line} {text : Bytes} (h : Assembled line text) :
    Returns (recvLoop2 heap { data := [], broken := false } line) text [] := by
  obtain ⟨tail, hrecv, -⟩ := recvOneLine1_eq (by decide) h.buf []
  have hrv : (if 0 < text.length then (text.length : Int) else 0) = text.length := by
    split <;> omega
  rw [takeLine_nil] at hrecv
  rw [recvLoop2, hrecv]
  dsimp only [List.length_nil]
  rw [dif_neg (by decide), dif_pos Int.natCast_zero, h.nowLen, hrv]
  unfold Returns
  rcases h.data with ⟨rfl, hnone, -⟩ | ⟨hne, tail, hsome, hlen⟩
  · exact (if_pos rfl).mpr ⟨rfl, hnone⟩
  · have hsize := h.size
    rw [List.length_append, List.length_cons] at hlen
    rw [if_neg hne, if_pos (by omega)]
    exact ⟨rfl, ⟨tail, hsome⟩, rfl⟩

/-- One round with a chunk of the line: it reaches the limit, or stands behind the
text and ends the line or not. -/
theorem recvLoop2_chunk (contents : Nat → Nat → UInt8) {line : Line} {text : Bytes}
    (h : Assembled line text) (hchunks : FullChunks line text) {data : Bytes} (hdata : data ≠ [])
    {chunk rest : Bytes} (hchunk : takeLine 1023 data = (chunk, rest)) :
    (allocLimit ≤ text.length + chunk.length ∧
      recvLoop2 (.ample contents) { data := data, broken := false } line =
        { rv := -1, buf := none, rest := rest }) ∨
    (text.length + chunk.length < allocLimit ∧ chunk.getLast? = some lf ∧ ∃ tail,
      recvLoop2 (.ample contents) { data := data, broken := false } line =
        { rv := (text ++ chunk).length, buf := some (text ++ chunk ++ 0 :: tail), rest := rest }) ∨
    (text.length + chunk.length < allocLimit ∧ chunk.getLast? ≠ some lf ∧ ∃ line',
      Assembled line' (text ++ chunk) ∧ (rest ≠ [] → FullChunks line' (text ++ chunk)) ∧
      recvLoop2 (.ample contents) { data := data, broken := false } line =
        recvLoop2 (.ample contents) { data := rest, broken := false } line') := by
  obtain ⟨junk, hrecv, hbuf⟩ := recvOneLine1_eq (show 1 < allocSize by decide) h.buf data
  have hline := takeLine_fgetsLine (n := 1023) (by decide) hdata
  change recvOneLine1 _ _ _ = ⟨(takeLine 1023 data).1.length, (takeLine 1023 data).1 ++ _,
    (takeLine 1023 data).2⟩ at hrecv
  change ((takeLine 1023 data).1 ++ _).length = _ at hbuf
  rw [hchunk] at hrecv hline hbuf
  dsimp only at hrecv hline hbuf
  have hpos := List.length_pos_iff.mpr hline.nonempty
  have hnow := h.nowLen
  rw [recvLoop2, hrecv]
  dsimp only
  rw [dif_neg (by omega), dif_neg (by omega), Int.toNat_natCast, List.take_left, makeRoom_nowLen,
    h.nowLen]
  rcases Nat.lt_or_ge (text.length + chunk.length) allocLimit with hlimit | hlimit
  · obtain ⟨hroomy, hfull⟩ := h.makeRoom contents hchunks hline.length hlimit
    obtain ⟨room, hroom, hsize⟩ := hroomy.data
    have hfits := hroomy.fits
    obtain ⟨b, tail, htail⟩ := List.exists_cons_of_length_pos (l := room.drop chunk.length) (by
      rw [List.length_append] at hsize
      rw [List.length_drop]
      omega)
    have hlen : (text ++ chunk).length = text.length + chunk.length := List.length_append
    have hlast : (text ++ chunk ++ 0 :: tail)[text.length + chunk.length - 1]? =
        chunk.getLast? := by
      rw [List.getLast?_eq_getElem?, List.getElem?_append_left (by omega),
        List.getElem?_append_right (by omega), Nat.add_sub_assoc hpos, Nat.add_sub_cancel_left]
    rw [hroom]
    dsimp only
    rw [memcpy_append, htail, ← hlen, set_behind, hlen, hlast]
    right
    split
    · rename_i hend
      refine .inl ⟨hlimit, hend, tail, ?_⟩
      rw [Int.natCast_add]
    · rename_i hend
      refine .inr ⟨hlimit, hend,
        { buf := chunk ++ 0 :: junk
          data := some (text ++ chunk ++ 0 :: tail)
          size := (line.makeRoom (.ample contents) chunk.length).size
          nowLen := text.length + chunk.length },
        ⟨hbuf, hlen.symm, hroomy.size, .inr ?_⟩, ?_, rfl⟩
      · refine ⟨List.append_ne_nil_of_right_ne_nil _ hline.nonempty, tail, rfl, ?_⟩
        have hroomlen := congrArg List.length htail
        rw [List.length_drop, List.length_cons] at hroomlen
        rw [List.length_append] at hsize
        rw [List.length_append, List.length_cons]
        dsimp only
        omega
      · intro hrest
        rcases hline.ends with hlf | hchunklen | hnil
        · exact absurd hlf hend
        · obtain ⟨j, hj, htext, hgrown⟩ := hfull hchunklen
          exact ⟨j, hj, hlen.trans htext, hgrown⟩
        · exact absurd hnil hrest
  · rw [h.makeRoom_none _ hchunks hpos hline.length hlimit]
    exact .inl ⟨hlimit, rfl⟩

theorem recvLoop2_returns (contents : Nat → Nat → UInt8) {line : Line} {text data : Bytes}
    (h : Assembled line text) (hchunks : data ≠ [] → FullChunks line text) :
    Returns (recvLoop2 (.ample contents) { data := data, broken := false } line)
      (text ++ firstLine data) (data.drop (firstLine data).length) := by
  induction hlen : data.length using Nat.strongRecOn generalizing line text data with
  | ind len ih =>
      rcases eq_or_ne data [] with rfl | hne
      · rw [firstLine, List.append_nil]
        exact recvLoop2_eof _ h
      · have hline := takeLine_fgetsLine (n := 1023) (by decide) hne
        have happend := takeLine_append 1023 data
        have hshort := takeLine_shorter (n := 1023) (by decide) hne
        obtain ⟨chunk, rest, hchunk⟩ : ∃ chunk rest, takeLine 1023 data = (chunk, rest) :=
          ⟨_, _, rfl⟩
        rw [hchunk] at hline happend hshort
        dsimp only at hline happend hshort
        have hfirst := hline.firstLine_eq
        have hround := recvLoop2_chunk contents h (hchunks hne) hne hchunk
        rw [happend] at hfirst
        have hdrop : data.drop chunk.length = rest := by rw [← happend, List.drop_left]
        have hlast : text ++ chunk ≠ [] := List.append_ne_nil_of_right_ne_nil _ hline.nonempty
        rcases hround with ⟨hlimit, hround⟩ | ⟨hlimit, hend, tail, hround⟩ |
          ⟨hlimit, hend, line', hnext, hmore, hround⟩
        · have hle : chunk.length ≤ (firstLine data).length := by
            rw [hfirst]
            split
            · exact Nat.le_refl _
            · exact (List.prefix_append _ _).length_le
          have hline : text ++ firstLine data ≠ [] :=
            List.append_ne_nil_of_right_ne_nil _ (firstLine_ne_nil hne)
          have hlong : ¬ (text ++ firstLine data).length < allocLimit := by
            rw [List.length_append]
            omega
          rw [hround]
          unfold Returns
          rw [if_neg hline, if_neg hlong]
          exact ⟨rfl, rfl⟩
        · rw [hround, hfirst, if_pos hend]
          unfold Returns
          rw [if_neg hlast, if_pos (List.length_append.trans_lt hlimit)]
          exact ⟨rfl, ⟨tail, rfl⟩, hdrop.symm⟩
        · rw [hround, hfirst, if_neg hend, ← List.append_assoc,
            List.length_append, ← List.drop_drop, hdrop]
          exact ih _ (hlen ▸ hshort) hnext hmore rfl

theorem recvOneLine2_returns (contents : Nat → Nat → UInt8) (stack : Nat → UInt8)
    (data : Bytes) :
    Returns (recvOneLine2 (.ample contents) stack { data := data, broken := false })
      (firstLine data) (data.drop (firstLine data).length) := by
  rw [recvOneLine2]
  generalize hbuf : block stack allocSize = buf
  have hsize : buf.length = allocSize := by rw [← hbuf, length_block]
  have hstart : Assembled { buf := buf, data := none, size := 0, nowLen := 0 } [] :=
    ⟨hsize, rfl, Nat.zero_le _, .inl ⟨rfl, rfl, rfl⟩⟩
  exact recvLoop2_returns contents hstart fun _ => ⟨0, Nat.zero_le _, rfl, rfl⟩

/-- With memory at hand and no error on the socket, `recv_one_line_2` returns the
first line of the stream as a string and takes exactly that from the socket, as
long as the line is under the limit; nothing at the end of the stream; and an
error for a line that reaches the limit. -/
theorem recv_one_line_2_line (contents : Nat → Nat → UInt8) (stack : Nat → UInt8)
    (data : Bytes) :
    let line := firstLine data
    let r := recvOneLine2 (.ample contents) stack { data := data, broken := false }
    if data = [] then r.rv = 0 ∧ r.buf = none
    else if line.length ≤ allocLimit - 1 then
      r.rv = line.length ∧ (∃ tail, r.buf = some (line ++ 0 :: tail)) ∧
        data = line ++ r.rest
    else r.rv = -1 ∧ r.buf = none := by
  intro line r
  have hreturns : Returns r line (data.drop line.length) := recvOneLine2_returns contents stack data
  have hsplit : line ++ data.drop line.length = data :=
    (List.prefix_iff_eq_append.mp (isPrefix_firstLine data))
  unfold Returns at hreturns
  rcases eq_or_ne data [] with hnil | hne
  · rw [if_pos (show line = [] by rw [show line = firstLine data from rfl, hnil, firstLine])]
      at hreturns
    rw [if_pos hnil]
    exact hreturns
  · rw [if_neg (firstLine_ne_nil hne)] at hreturns
    rw [if_neg hne]
    have hlimit := allocLimit_eq
    rcases Nat.lt_or_ge line.length allocLimit with hlt | hge
    · rw [if_pos hlt] at hreturns
      obtain ⟨hrv, hbuf, hrest⟩ := hreturns
      rw [if_pos (by omega), hrest]
      exact ⟨hrv, hbuf, hsplit.symm⟩
    · rw [if_neg (by omega)] at hreturns
      rw [if_neg (by omega)]
      exact hreturns

end NetworkProgram.Oneline
