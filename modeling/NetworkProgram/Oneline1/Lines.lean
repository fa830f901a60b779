import NetworkProgram.Oneline1.Steps
import NetworkProgram.Libc.Input

set_option autoImplicit false

/-!
# Oneline1: the lines of one client

What `send_recv_1` sends when it is called for every byte of one client's stream
and then for the end of the stream.  It differs from a reader of lines in two
ways.  A NUL where a line would start is forgotten, since the zero in the first
byte of the row means that there is no line.  And the row is not terminated
behind the line, so that a line cut off by the end of the stream is followed by
what earlier lines left there.
-/

namespace NetworkProgram.Oneline1

open NetworkProgram.Libc

/-- The calls for one client, one for each readable event, until `send_recv_1` gives
the connection up; the messages they send. -/
def serve (row : Row) : List Recv → List Bytes
  | [] => []
  | answer :: answers =>
      let r := sendRecv1 row answer true
      if r.ret = -1 then r.sent else r.sent ++ serve r.row answers

/-- The events of a client that sends `data` and closes.  The second end of the stream
finds no line under way. -/
def events (data : Bytes) : List Recv := data.map .byte ++ [.eof, .eof]

/-! ## What is left in a row -/

/-- The byte at index `i` that the most recent of the lines long enough left behind;
the last line is in front. -/
def leftover : List Bytes → Nat → UInt8
  | [], _ => 0
  | last :: older, i => last[i]?.getD (leftover older i)

theorem leftover_of_lt {last : Bytes} {i : Nat} (h : i < last.length) (older : List Bytes) :
    last[i]? = some (leftover (last :: older) i) := by
  rw [leftover, List.getElem?_eq_getElem h, Option.getD_some]

theorem leftover_of_le {last : Bytes} {i : Nat} (h : last.length ≤ i) (older : List Bytes) :
    leftover (last :: older) i = leftover older i := by
  rw [leftover, List.getElem?_eq_none h, Option.getD_none]

/-- What is visible of a row with `line` in front of what `older` lines left. -/
def rowText (older : List Bytes) (line : Bytes) : Bytes :=
  visible (line ++ (List.range' line.length (fixedBufferSize - line.length)).map (leftover older))

/-- The text of each reply. -/
def texts : List Bytes → List Bytes → List Bytes
  | _, [] => []
  | older, line :: lines => rowText older line :: texts (line :: older) lines

/-- The lines as `recv_one_line_1` sees them, with `line` under way. -/
def linesFrom : Bytes → Bytes → List Bytes
  | line, [] => if line = [] then [] else [line]
  | line, c :: data =>
      if line = [] ∧ c = 0 then linesFrom [] data
      else if c = lf ∨ line.length + 1 = fixedBufferSize - 1 then
        (line ++ [c]) :: linesFrom [] data
      else linesFrom (line ++ [c]) data

/-- A byte of the row that shows as `c`: the cut may have replaced an end of line. -/
def ShowsAs (b : Option UInt8) (c : UInt8) : Prop := b = some c ∨ (b = some 0 ∧ Stops c)

/-- The row has `line` under way, behind which the `older` lines show. -/
structure RowHolds (row : Row) (older : List Bytes) (line : Bytes) : Prop where
  text : row.buf.bytes.take line.length = line
  start : row.start = line.length
  left : ∀ i, 0 < i → line.length ≤ i → i < fixedBufferSize →
    ShowsAs row.buf.bytes[i]? (leftover older i)

theorem rowHolds_zero : RowHolds .zero [] [] where
  text := rfl
  start := rfl
  left := fun _ _ _ hlt => .inl (List.getElem?_replicate_of_lt hlt)

section Bytes

variable {row : Row} {older : List Bytes} {line : Bytes} {c : UInt8}

theorem Row.start_of_idle (h : row.Idle) : row.start = 0 := if_pos h

theorem Row.start_of_busy (h : ¬ row.Idle) : row.start = row.pos := if_neg h

theorem head_put_zero (b : Store) (c : UInt8) (h : 0 < fixedBufferSize - 1) :
    (b.put 0 c h).bytes.head? = some c := by
  rw [List.head?_eq_getElem?]
  exact List.getElem?_set_self (by rw [b.size]; decide)

theorem head_put_pos (b : Store) {p : Nat} (hp : 0 < p) (c : UInt8) (h : p < fixedBufferSize - 1) :
    (b.put p c h).bytes.head? = b.bytes.head? := by
  rw [List.head?_eq_getElem?, List.head?_eq_getElem?]
  exact List.getElem?_set_ne hp.ne'

/-- A line that has started goes on. -/
theorem start_extend (hnul : ¬ (row.start = 0 ∧ c = 0)) (h : row.start + 1 < fixedBufferSize - 1) :
    (row.extend c h).start = row.start + 1 := by
  refine Row.start_of_busy fun hidle => ?_
  change (row.buf.put row.start c row.start_lt).bytes.head? = some 0 at hidle
  rcases Nat.eq_zero_or_pos row.start with hzero | hpos
  · have hput : row.buf.put row.start c row.start_lt = row.buf.put 0 c (by decide) := by
      congr 1
    rw [hput, head_put_zero, Option.some_inj] at hidle
    exact hnul ⟨hzero, hidle⟩
  · rw [head_put_pos _ hpos] at hidle
    exact absurd (Row.start_of_idle hidle) hpos.ne'

/-- A NUL that would start a line is forgotten. -/
theorem start_extend_nul (hzero : row.start = 0) (h : row.start + 1 < fixedBufferSize - 1) :
    (row.extend 0 h).start = 0 := by
  refine Row.start_of_idle ?_
  have hput : row.buf.put row.start 0 row.start_lt = row.buf.put 0 0 (by decide) := by
    congr 1
  change (row.buf.put row.start 0 row.start_lt).bytes.head? = some 0
  rw [hput, head_put_zero]

/-! ### The bytes behind the line -/

theorem getElem?_put_of_lt (b : Store) {p i : Nat} (hp : p < fixedBufferSize - 1) (c : UInt8)
    (hi : p < i) : (b.put p c hp).bytes[i]? = b.bytes[i]? :=
  List.getElem?_set_ne (Nat.ne_of_lt hi)

/-- The line with its next byte. -/
theorem RowHolds.take_put (h : RowHolds row older line) (c : UInt8) :
    (row.buf.put row.start c row.start_lt).bytes.take (line.length + 1) = line ++ [c] := by
  have hlt := row.start_lt
  change (row.buf.bytes.set row.start c).take (line.length + 1) = line ++ [c]
  rw [List.take_add_one, List.take_set_of_le (Nat.le_of_eq h.start.symm), h.text, ← h.start,
    List.getElem?_set_self (by rw [row.buf.size]; omega), Option.toList_some]

theorem RowHolds.skip (h : RowHolds row older []) (hlt : row.start + 1 < fixedBufferSize - 1) :
    RowHolds (row.extend 0 hlt) older [] where
  text := List.take_zero
  start := start_extend_nul h.start hlt
  left := fun i hi _ hi' => by
    have hput := getElem?_put_of_lt row.buf row.start_lt 0 (h.start.trans_lt hi)
    exact hput.symm ▸ h.left i hi (Nat.zero_le i) hi'

theorem RowHolds.extend (h : RowHolds row older line) (hnul : ¬ (line = [] ∧ c = 0))
    (hlt : row.start + 1 < fixedBufferSize - 1) :
    RowHolds (row.extend c hlt) older (line ++ [c]) where
  text := by
    rw [List.length_append, List.length_singleton]
    exact h.take_put c
  start := by
    rw [List.length_append, List.length_singleton, ← h.start]
    refine start_extend (fun hzero => hnul ⟨?_, hzero.2⟩) hlt
    exact List.length_eq_zero_iff.mp (h.start.symm.trans hzero.1)
  left := fun i hi hle hi' => by
    rw [List.length_append, List.length_singleton] at hle
    have hput := getElem?_put_of_lt row.buf row.start_lt c (h.start.trans_lt hle)
    exact hput.symm ▸ h.left i hi (Nat.le_of_succ_le hle) hi'

/-- The end of the line leaves the line in the row, in front of the older ones. -/
theorem ShowsAs.cleared {b : Store} {i : Nat} {x : UInt8} (hi : 0 < i)
    (h : ShowsAs b.bytes[i]? x) : ShowsAs b.cut.clear.bytes[i]? x := by
  have hclear : b.cut.clear.bytes[i]? = (cutLine b.bytes)[i]? := List.getElem?_set_ne hi.ne
  rw [hclear]
  rcases getElem?_cutLine b.bytes i with hsame | ⟨hzero, hend⟩
  · rw [hsame]
    exact h
  · refine .inr ⟨hzero, ?_⟩
    rcases h with hx | ⟨-, hstop⟩
    · rw [hx, Option.some_inj, Option.some_inj] at hend
      exact .inr hend
    · exact hstop

/-- The row with the next byte of the line: the line shows, and behind it the older ones. -/
theorem RowHolds.showsAs_put (h : RowHolds row older line) (c : UInt8) {i : Nat} (hi : 0 < i)
    (hlt : i < fixedBufferSize) :
    ShowsAs (row.buf.put row.start c row.start_lt).bytes[i]?
      (leftover ((line ++ [c]) :: older) i) := by
  have hlen : (line ++ [c]).length = line.length + 1 := List.length_append
  rcases Nat.lt_or_ge i (line.length + 1) with hline | hbehind
  · refine .inl ?_
    rw [← List.getElem?_take_of_lt hline, h.take_put]
    exact leftover_of_lt (hlen ▸ hline) older
  · rw [leftover_of_le (hlen.trans_le hbehind), getElem?_put_of_lt _ _ _ (h.start.trans_lt hbehind)]
    exact h.left i hi (Nat.le_of_succ_le hbehind) hlt

theorem RowHolds.ends (h : RowHolds row older line) (c : UInt8) (p : Nat) :
    RowHolds (.cleared (row.buf.put row.start c row.start_lt).cut p)
      ((line ++ [c]) :: older) [] where
  text := List.take_zero
  start := Row.start_of_idle (idle_cleared _ _)
  left := fun _ hi _ hlt => (h.showsAs_put c hi hlt).cleared hi

/-- What is visible of a row with a line and what the older ones left. -/
theorem visible_row {b : Store} (htext : b.bytes.take line.length = line)
    (hleft : ∀ i, line.length ≤ i → i < fixedBufferSize → ShowsAs b.bytes[i]? (leftover older i)) :
    visible b.bytes = rowText older line := by
  have hle : line.length ≤ fixedBufferSize := by
    have hlen := congrArg List.length htext
    rw [List.length_take, b.size] at hlen
    omega
  have hbehind : ∀ i, line.length ≤ i → i < fixedBufferSize →
      (line ++ (List.range' line.length (fixedBufferSize - line.length)).map (leftover older))[i]? =
        some (leftover older i) := by
    intro i hi hlt
    rw [List.getElem?_append_right hi, List.getElem?_map, List.getElem?_range' (by omega),
      Option.map_some, Nat.one_mul, Nat.add_sub_cancel' hi]
  refine visible_congr ?_ fun i hi => ?_
  · rw [List.length_append, List.length_map, List.length_range', b.size, Nat.add_sub_cancel' hle]
  · have hget := List.getElem?_eq_getElem hi
    rw [b.size] at hi
    rcases Nat.lt_or_ge i line.length with hline | hrest
    · refine ⟨_, _, hget, ?_, .inl rfl⟩
      rw [List.getElem?_append_left hline, ← hget, ← htext,
        List.getElem?_take_of_lt hline]
    · refine ⟨_, _, hget, hbehind i hrest hi, ?_⟩
      rcases hleft i hrest hi with hx | ⟨hzero, hstop⟩
      · exact .inl (Option.some_inj.mp (hget.symm.trans hx))
      · exact .inr ⟨.inl (Option.some_inj.mp (hget.symm.trans hzero)), hstop⟩

theorem RowHolds.visible_put (h : RowHolds row older line) (c : UInt8) :
    visible (row.buf.put row.start c row.start_lt).bytes = rowText older (line ++ [c]) := by
  have hlen : (line ++ [c]).length = line.length + 1 := List.length_append
  refine visible_row (hlen ▸ h.take_put c) fun i hi hlt => ?_
  rw [hlen] at hi
  rw [getElem?_put_of_lt _ _ _ (h.start.trans_lt hi)]
  exact h.left i (Nat.zero_lt_of_lt hi) (Nat.le_of_succ_le hi) hlt

theorem reply_sent (b : Store) (p : Nat) :
    b.reply p true =
      { ret := 0, row := .cleared b.cut p, sent := [okReply (visible b.bytes)] } := by
  have htext : cstr b.cut.bytes = visible b.bytes := cstr_cutLine b.bytes
  rw [Store.reply, if_pos rfl, htext]

end Bytes

theorem serve_end {row row' : Row} {answer : Recv} {sent : List Bytes}
    (h : sendRecv1 row answer true = { ret := -1, row := row', sent := sent })
    (answers : List Recv) : serve row (answer :: answers) = sent := by
  rw [serve, h]
  exact if_pos rfl

theorem serve_more {row row' : Row} {answer : Recv} {ret : Int} {sent : List Bytes}
    (h : sendRecv1 row answer true = { ret := ret, row := row', sent := sent }) (hret : ret ≠ -1)
    (answers : List Recv) : serve row (answer :: answers) = sent ++ serve row' answers := by
  rw [serve, h]
  exact if_neg hret

/-- The end of the stream answers the line under way; the next one gives up. -/
theorem serve_eof {row : Row} {older : List Bytes} {line : Bytes} (h : RowHolds row older line) :
    serve row [.eof, .eof] = (texts older (linesFrom line [])).map okReply := by
  rcases Nat.eq_zero_or_pos row.start with hzero | hpos
  · have hnil : line = [] := List.length_eq_zero_iff.mp (h.start.symm.trans hzero)
    rw [serve_end (sendRecv1_eof_idle hzero true), hnil]
    rfl
  · have hline : line ≠ [] := by
      rintro rfl
      rw [h.start] at hpos
      exact Nat.lt_irrefl 0 hpos
    have hidle : (Row.cleared row.buf.cut row.start).start = 0 :=
      Row.start_of_idle (idle_cleared _ _)
    have hfirst : 0 < line.length := h.start ▸ hpos
    have hvisible : visible row.buf.bytes = rowText older line :=
      visible_row h.text fun i hi hlt => h.left i (hfirst.trans_le hi) hi hlt
    have heof := (sendRecv1_eof hpos true).trans (reply_sent _ _)
    rw [serve_more heof (by decide), serve_end (sendRecv1_eof_idle hidle true), linesFrom,
      if_neg hline, hvisible]
    rfl

/-- The calls for a client answer the lines of its stream, with what earlier lines left
in the row behind a line cut off by the end of the stream. -/
theorem serve_eq {row : Row} {older : List Bytes} {line : Bytes} (h : RowHolds row older line)
    (data : Bytes) :
    serve row (events data) = (texts older (linesFrom line data)).map okReply := by
  induction data generalizing row older line with
  | nil => exact serve_eof h
  | cons c data ih =>
      change serve row (.byte c :: events data) = _
      have hlt := row.start_lt
      rw [linesFrom]
      split
      · -- The NUL keeps the row idle.
        rename_i hnul
        obtain ⟨rfl, rfl⟩ := hnul
        have hmore : row.start + 1 < fixedBufferSize - 1 := by
          rw [h.start]
          decide
        rw [serve_more (sendRecv1_byte_more (by decide) hmore true) (by decide)]
        exact ih (h.skip hmore)
      · rename_i hnul
        split
        · rename_i hends
          rw [← h.start] at hends
          have hbyte := (sendRecv1_byte_ends hends true).trans (reply_sent _ _)
          rw [serve_more hbyte (by decide), ih (h.ends c _), h.visible_put]
          rfl
        · rename_i hends
          rw [← h.start, not_or] at hends
          have hmore : row.start + 1 < fixedBufferSize - 1 := by omega
          rw [serve_more (sendRecv1_byte_more hends.1 hmore true) (by decide)]
          exact ih (h.extend hnul hmore)

end NetworkProgram.Oneline1
