import Mathlib.Data.List.DropRight
import NetworkProgram.Client.Model

set_option autoImplicit false

/-!
# Client: what is sent of the standard input

`fgets` cuts the input into pieces that end with a newline or fill the buffer, and each
piece is sent up to its first NUL.  What stands behind the last such piece is not sent:
with it `fgets` comes to the end of the input, and `feof` ends the loop before `send`.
-/

namespace NetworkProgram.Client

open NetworkProgram.Foundation
open NetworkProgram.Libc

/-- A piece that `fgets` ends before the end of the input. -/
def Whole (piece : Bytes) : Prop :=
  lf ∉ piece.dropLast ∧ (piece.getLast? = some lf ∨ piece.length = bufSize - 1)

/-- Less than a piece. -/
def Short (tail : Bytes) : Prop := lf ∉ tail ∧ tail.length < bufSize - 1

/-- The input so far was cut into these pieces, and they were sent as strings. -/
structure Sent (content : Bytes) (s : State) (pieces : List Bytes) (left : Bytes) : Prop where
  content : pieces.flatten ++ left = content
  sent : s.sent = pieces.map cstr
  whole : ∀ piece ∈ pieces, Whole piece

/-- What holds all along a session. -/
def Forwards (content : Bytes) (s : State) : Prop :=
  match s.ended with
  | none => ∃ pieces, Sent content s pieces s.stdin
  | some .stdinEof => ∃ pieces tail, Sent content s pieces tail ∧ Short tail
  | some _ => True

/-- A piece in front of a NUL is sent as a string. -/
theorem take_strlen_piece (buf piece : Bytes) :
    (memcpy buf 0 (piece ++ [0])).take (strlen (memcpy buf 0 (piece ++ [0]))) = cstr piece := by
  rw [take_strlen, memcpy, List.take_zero, List.nil_append, List.append_assoc]
  exact cstr_append_zero piece _

theorem lf_notMem_of {piece : Bytes} (hline : lf ∉ piece.dropLast)
    (hlast : piece.getLast? ≠ some lf) : lf ∉ piece := by
  intro hmem
  have hne : piece ≠ [] := List.ne_nil_of_mem hmem
  rw [List.getLast?_eq_getLast_of_ne_nil hne] at hlast
  rw [← List.dropLast_append_getLast hne] at hmem
  rcases List.mem_append.mp hmem with hmem | hmem
  · exact hline hmem
  · exact hlast (congrArg some (List.mem_singleton.mp hmem).symm)

/-- What `fgets` reads is a whole piece, or all that is left and less than a piece. -/
theorem takeLine_whole {stdin piece rest : Bytes}
    (hline : takeLine (bufSize - 1) stdin = (piece, rest)) :
    (atEof piece rest → piece = stdin ∧ Short piece) ∧
      (¬ atEof piece rest → piece ≠ [] ∧ Whole piece) := by
  have happend := takeLine_append (bufSize - 1) stdin
  rw [hline] at happend
  dsimp only at happend
  rcases eq_or_ne stdin [] with rfl | hne
  · rw [takeLine_nil] at hline
    cases hline
    exact ⟨fun _ => ⟨rfl, List.not_mem_nil, by decide⟩, fun h => absurd (by decide) h⟩
  · have hpiece := takeLine_fgetsLine (n := bufSize - 1) (by decide) hne
    rw [hline] at hpiece
    constructor
    · rintro ⟨hrest, hlast, hshort⟩
      have hrest : rest = [] := hrest
      rw [hrest, List.append_nil] at happend
      exact ⟨happend, lf_notMem_of hpiece.newline hlast, hshort⟩
    · intro hmore
      refine ⟨hpiece.nonempty, hpiece.newline, ?_⟩
      rcases hpiece.ends with hlast | hfull | hrest
      · exact .inl hlast
      · exact .inr hfull
      · by_contra hcon
        rw [not_or] at hcon
        exact hmore ⟨hrest, hcon.1, Nat.lt_of_le_of_ne hpiece.length hcon.2⟩

theorem forwards_receive {content : Bytes} {s : State} (h : Forwards content s)
    (hgoing : s.ended = none) (r : Recv) : Forwards content (s.receive r) := by
  unfold Forwards at h
  rw [hgoing] at h
  cases r with
  | error => trivial
  | eof => trivial
  | data bytes nonempty fits =>
      unfold State.receive
      dsimp only
      split
      · unfold Forwards
        dsimp only
        rw [hgoing]
        obtain ⟨pieces, hpieces⟩ := h
        exact ⟨pieces, hpieces.content, hpieces.sent, hpieces.whole⟩
      · trivial

theorem forwards_forward {content : Bytes} {s : State} (h : Forwards content s)
    (hgoing : s.ended = none) (delivered : Bool) : Forwards content (s.forward delivered) := by
  unfold Forwards at h
  rw [hgoing] at h
  obtain ⟨pieces, hcontent, hsent, hwhole⟩ := h
  obtain ⟨piece, rest, hline⟩ : ∃ piece rest, takeLine (bufSize - 1) s.stdin = (piece, rest) :=
    ⟨_, _, rfl⟩
  have happend := takeLine_append (bufSize - 1) s.stdin
  obtain ⟨heof, hmore⟩ := takeLine_whole hline
  unfold State.forward
  rw [hline] at happend ⊢
  dsimp only at happend ⊢
  split
  · rename_i hend
    obtain ⟨rfl, hshort⟩ := heof hend
    exact ⟨pieces, s.stdin, ⟨hcontent, hsent, hwhole⟩, hshort⟩
  · rename_i hend
    obtain ⟨hne, hpiece⟩ := hmore hend
    rw [if_neg hne]
    split
    · unfold Forwards
      dsimp only
      rw [hgoing]
      refine ⟨pieces ++ [piece], ?_, ?_, ?_⟩
      · rw [List.flatten_concat, List.append_assoc, happend, hcontent]
      · rw [List.map_append, hsent, take_strlen_piece]
        rfl
      · exact List.forall_mem_append.mpr ⟨hwhole, List.forall_mem_singleton.mpr hpiece⟩
    · trivial

theorem forwards_step {content : Bytes} {s t : State} {e : Event} (h : Forwards content s)
    (hstep : s.step e = some t) : Forwards content t := by
  unfold State.step at hstep
  split at hstep
  · cases hstep
  · rename_i hgoing
    rw [Option.not_isSome_iff_eq_none] at hgoing
    cases e with
    | error => cases hstep; exact h
    | timeout => cases hstep; exact h
    | ready socket stdin delivered =>
        have hreceive : Forwards content (socket.elim s s.receive) := by
          cases socket with
          | none => exact h
          | some r => exact forwards_receive h hgoing r
        dsimp only at hstep
        split at hstep
        · rename_i hready
          cases hstep
          exact forwards_forward hreceive (Option.isNone_iff_eq_none.mp hready.1) delivered
        · cases hstep
          exact hreceive

/-! ## What is lost -/

/-- The bytes behind the last newline. -/
def lastLine (content : Bytes) : Bytes := content.rtakeWhile (· ≠ lf)

theorem lastLine_append {left right : Bytes} (h : lf ∉ right) :
    lastLine (left ++ right) = lastLine left ++ right := by
  have hall : ∀ c ∈ right.reverse, decide (c ≠ lf) = true := by
    intro c hc
    have hne : c ≠ lf := fun heq => h (heq ▸ List.mem_reverse.mp hc)
    simpa using hne
  rw [lastLine, lastLine, List.rtakeWhile, List.reverse_append,
    List.takeWhile_append_of_pos hall, List.reverse_append, List.reverse_reverse]
  rfl

theorem lastLine_concat_lf (left : Bytes) : lastLine (left ++ [lf]) = [] :=
  List.rtakeWhile_concat_neg _ _ _ (by simp)

/-- Whole pieces fill up the last line 511 bytes at a time. -/
theorem lastLine_flatten {pieces : List Bytes} (h : ∀ piece ∈ pieces, Whole piece) :
    (lastLine pieces.flatten).length % 511 = 0 := by
  induction pieces using List.reverseRecOn with
  | nil => rfl
  | append_singleton pieces piece ih =>
      obtain ⟨hpieces, hpiece⟩ := List.forall_mem_append.mp h
      obtain ⟨hline, hend⟩ := hpiece piece (List.mem_singleton_self piece)
      rw [List.flatten_concat]
      by_cases hlast : piece.getLast? = some lf
      · obtain ⟨front, rfl⟩ := List.getLast?_eq_some_iff.mp hlast
        rw [← List.append_assoc, lastLine_concat_lf]
        rfl
      · have hfull : piece.length = 511 := hend.resolve_left hlast
        rw [lastLine_append (lf_notMem_of hline hlast), List.length_append, hfull,
          Nat.add_mod_right]
        exact ih hpieces

/-- The condition under which nothing is lost: no NUL, and behind the last newline as many
bytes as full pieces have, or none. -/
def Forwardable (content : Bytes) : Prop :=
  (0 : UInt8) ∉ content ∧ (lastLine content).length % 511 = 0

theorem length_cstr_le (text : Bytes) : (cstr text).length ≤ text.length :=
  (List.takeWhile_prefix _).length_le

theorem length_flatten_cstr_le (pieces : List Bytes) :
    (pieces.map cstr).flatten.length ≤ pieces.flatten.length := by
  induction pieces with
  | nil => exact Nat.le_refl 0
  | cons piece pieces ih =>
      rw [List.map_cons, List.flatten_cons, List.flatten_cons, List.length_append,
        List.length_append]
      exact Nat.add_le_add (length_cstr_le piece) ih

theorem nul_notMem_flatten_cstr (pieces : List Bytes) :
    (0 : UInt8) ∉ (pieces.map cstr).flatten := by
  intro h
  obtain ⟨text, htext, hmem⟩ := List.mem_flatten.mp h
  obtain ⟨piece, -, rfl⟩ := List.mem_map.mp htext
  exact nul_notMem_cstr piece hmem

/-- The strings of the pieces are the input exactly if nothing is cut off at either end. -/
theorem flatten_cstr_eq_iff {pieces : List Bytes} {tail : Bytes} :
    (pieces.map cstr).flatten = pieces.flatten ++ tail ↔
      tail = [] ∧ (0 : UInt8) ∉ pieces.flatten := by
  constructor
  · intro h
    have hlen := length_flatten_cstr_le pieces
    rw [h, List.length_append] at hlen
    have htail : tail = [] := List.length_eq_zero_iff.mp (by omega)
    rw [htail, List.append_nil] at h
    exact ⟨htail, h ▸ nul_notMem_flatten_cstr pieces⟩
  · rintro ⟨rfl, hnul⟩
    rw [List.append_nil]
    congr 1
    refine (List.map_congr_left fun piece hpiece => ?_).trans (List.map_id pieces)
    exact cstr_eq_self fun hmem => hnul (List.mem_flatten.mpr ⟨piece, hpiece, hmem⟩)

theorem forwardable_iff {pieces : List Bytes} {tail : Bytes}
    (hwhole : ∀ piece ∈ pieces, Whole piece) (hshort : Short tail) :
    Forwardable (pieces.flatten ++ tail) ↔ tail = [] ∧ (0 : UInt8) ∉ pieces.flatten := by
  have hpieces := lastLine_flatten hwhole
  have hlen : tail.length < 511 := hshort.2
  have htail : (lastLine (pieces.flatten ++ tail)).length % 511 = tail.length := by
    rw [lastLine_append hshort.1, List.length_append]
    omega
  unfold Forwardable
  rw [htail, List.length_eq_zero_iff]
  constructor
  · rintro ⟨hnul, rfl⟩
    exact ⟨rfl, by rwa [List.append_nil] at hnul⟩
  · rintro ⟨rfl, hnul⟩
    exact ⟨by rwa [List.append_nil], rfl⟩

/-- In every session that ends with the end of the standard input, what was sent is the
standard input if and only if that has no NUL, and what stands behind its last newline
comes out even in pieces of 511 bytes. -/
theorem sent_eq_stdin_iff (stack : Nat → UInt8) {content : Bytes} {events : List Event} {t : State}
    (run : exec State.step (.start stack content) events = some t)
    (hend : t.ended = some .stdinEof) : t.sent.flatten = content ↔ Forwardable content := by
  have hforwards : Forwards content t := by
    refine (Reaches.of_exec run).invariant ?_ fun _ _ _ hs hstep => forwards_step hs hstep
    exact ⟨[], rfl, rfl, List.forall_mem_nil _⟩
  unfold Forwards at hforwards
  rw [hend] at hforwards
  obtain ⟨pieces, tail, hsent, hshort⟩ := hforwards
  rw [← hsent.content, hsent.sent, flatten_cstr_eq_iff, forwardable_iff hsent.whole hshort]

set_option maxRecDepth 8000 in
/-- The session for the input `"a\n"`. -/
theorem sent_eq_stdin_line : ∃ t : State, t.sent = [[97, 10]] ∧
    (t.sent.flatten = [97, 10] ↔ Forwardable [97, 10]) := by
  have run : ∃ t, t.ended = some .stdinEof ∧ t.sent = [[97, 10]] ∧
      exec State.step (.start (fun _ => 0) [97, 10])
        [.ready none true true, .ready none true true] = some t := ⟨_, rfl, rfl, rfl⟩
  obtain ⟨t, hend, hsent, run⟩ := run
  exact ⟨t, hsent, sent_eq_stdin_iff _ run hend⟩

set_option maxRecDepth 8000 in
/-- An input of one byte without a newline is not sent. -/
theorem unterminated_lost : ¬ ∀ (stack : Nat → UInt8) (content : Bytes) (events : List Event)
    (t : State), exec State.step (.start stack content) events = some t →
      t.ended = some .stdinEof → t.sent.flatten = content := by
  have run : ∃ t, t.ended = some .stdinEof ∧ t.sent = [] ∧
      exec State.step (.start (fun _ => 0) [97]) [.ready none true true] = some t :=
    ⟨_, rfl, rfl, rfl⟩
  obtain ⟨t, hend, hsent, run⟩ := run
  intro h
  have heq := h _ _ _ t run hend
  rw [hsent] at heq
  cases heq

/-! ## Sessions to the end -/

/-- As long as there is input, a round takes some of it or ends the session. -/
theorem forward_shorter {s : State} (hgoing : s.ended = none) :
    s.step (.ready none true true) = some (s.forward true) ∧
      ((s.forward true).ended = some .stdinEof ∨
        (s.forward true).ended = none ∧ (s.forward true).stdin.length < s.stdin.length) := by
  refine ⟨?_, ?_⟩
  · unfold State.step
    rw [if_neg (by simp [hgoing])]
    exact if_pos ⟨by simp [hgoing], rfl⟩
  · obtain ⟨piece, rest, hline⟩ : ∃ piece rest, takeLine (bufSize - 1) s.stdin = (piece, rest) :=
      ⟨_, _, rfl⟩
    have happend := takeLine_append (bufSize - 1) s.stdin
    obtain ⟨-, hmore⟩ := takeLine_whole hline
    unfold State.forward
    rw [hline] at happend ⊢
    dsimp only at happend ⊢
    split
    · exact .inl rfl
    · rename_i hend
      have hpos := List.length_pos_iff.mpr (hmore hend).1
      refine .inr ⟨hgoing, ?_⟩
      rw [if_pos rfl, ← happend, List.length_append]
      dsimp only
      omega

theorem exists_session_from (n : Nat) {s : State} (hgoing : s.ended = none)
    (hlen : s.stdin.length < n) : ∃ events t,
      exec State.step s events = some t ∧ t.ended = some .stdinEof := by
  induction n generalizing s with
  | zero => exact absurd hlen (Nat.not_lt_zero _)
  | succ n ih =>
      obtain ⟨hstep, hend | ⟨hnone, hshorter⟩⟩ := forward_shorter hgoing
      · exact ⟨[.ready none true true], _, exec_cons_eq_some.mpr ⟨_, hstep, rfl⟩, hend⟩
      · obtain ⟨events, t, run, hend⟩ := ih hnone (by omega)
        exact ⟨.ready none true true :: events, t, exec_cons_eq_some.mpr ⟨_, hstep, run⟩, hend⟩

/-- Every input has a session that ends with it. -/
theorem exists_session (stack : Nat → UInt8) (content : Bytes) : ∃ events t,
    exec State.step (.start stack content) events = some t ∧ t.ended = some .stdinEof :=
  exists_session_from (content.length + 1) rfl (Nat.lt_succ_self _)

end NetworkProgram.Client
