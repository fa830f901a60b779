import Mathlib.Data.List.Forall2
import NetworkProgram.Httpd.Grammar

set_option autoImplicit false

/-!
# Httpd: header fields and the lines of the stream

`read_header_field` takes what one `fgets` returns for a line.  A line that does not
fit into the buffer comes in several pieces, and each of them is taken for a line:
the second piece may be a field of its own, or the empty line that ends the header.
-/

namespace NetworkProgram.Httpd

open NetworkProgram.Libc

/-- A line of a stream, with the newline that ends it. -/
def Newlined (line : Bytes) : Prop := line.getLast? = some lf ∧ lf ∉ line.dropLast

/-- LF or CRLF only. -/
def EmptyLine (line : Bytes) : Prop := line = [lf] ∨ line = [cr, lf]

instance (line : Bytes) : Decidable (EmptyLine line) :=
  inferInstanceAs (Decidable (_ ∨ _))

/-- The lines up to and including the first empty one. -/
def upToEmpty : List Bytes → List Bytes
  | [] => []
  | line :: lines => if EmptyLine line then [line] else line :: upToEmpty lines

/-- The lines of the request line and of the header. -/
def headLines (input : Bytes) : List Bytes := upToEmpty (linesOf input)

/-- The fields are the lines between the first one and the first empty one, one each,
and `tail` begins right behind the empty one. -/
def LineWise (input : Bytes) (header : List HTTPHeaderField) (tail : Bytes) : Prop :=
  ∃ line fields empty, input = (line :: (fields ++ [empty])).flatten ++ tail ∧
    (∀ l ∈ line :: (fields ++ [empty]), Newlined l) ∧
    (∀ l ∈ line :: fields, ¬ EmptyLine l) ∧ EmptyLine empty ∧
    List.Forall₂ HeaderField fields header.reverse

/-! ## The lines of a stream -/

theorem Newlined.firstLine_append {line : Bytes} (h : Newlined line) (rest : Bytes) :
    firstLine (line ++ rest) = line := by
  obtain ⟨hlast, hnot⟩ := h
  have hne : line ≠ [] := by
    rintro rfl
    cases hlast
  rw [List.getLast?_eq_getLast_of_ne_nil hne, Option.some_inj] at hlast
  rw [← List.dropLast_append_getLast hne, hlast, List.append_assoc, Libc.firstLine_append hnot]
  rfl

theorem Newlined.ne_nil {line : Bytes} (h : Newlined line) : line ≠ [] := by
  rintro rfl
  cases h.1

theorem linesOf_flatten {lines : List Bytes} (h : ∀ l ∈ lines, Newlined l) (rest : Bytes) :
    linesOf (lines.flatten ++ rest) = lines ++ linesOf rest := by
  induction lines with
  | nil => rfl
  | cons line lines ih =>
      rw [List.forall_mem_cons] at h
      have hne : line ++ (lines.flatten ++ rest) ≠ [] :=
        fun hnil => h.1.ne_nil (List.append_eq_nil_iff.mp hnil).1
      rw [List.flatten_cons, List.append_assoc, linesOf_eq hne, h.1.firstLine_append,
        List.drop_left, ih h.2, List.cons_append]

theorem upToEmpty_append {fields more : List Bytes} {empty : Bytes}
    (inner : ∀ l ∈ fields, ¬ EmptyLine l) (last : EmptyLine empty) :
    upToEmpty (fields ++ empty :: more) = fields ++ [empty] := by
  induction fields with
  | nil => exact if_pos last
  | cons line fields ih =>
      rw [List.forall_mem_cons] at inner
      rw [List.cons_append, upToEmpty, if_neg inner.1, ih inner.2, List.cons_append]

theorem headLines_eq {line empty : Bytes} {fields : List Bytes} (tail : Bytes)
    (newlined : ∀ l ∈ line :: (fields ++ [empty]), Newlined l)
    (inner : ∀ l ∈ line :: fields, ¬ EmptyLine l) (last : EmptyLine empty) :
    headLines ((line :: (fields ++ [empty])).flatten ++ tail) = line :: (fields ++ [empty]) := by
  rw [headLines, linesOf_flatten newlined, ← List.cons_append, List.append_assoc,
    List.singleton_append, upToEmpty_append inner last]

/-! ## Pieces -/

/-- For what `fgets` returns the test for the empty line is exact. -/
theorem isEmptyLine_iff {n : Nat} {buf rest : Bytes} (h : FgetsLine n buf rest) :
    IsEmptyLine buf ↔ EmptyLine buf := by
  have hnewline := h.newline
  constructor
  · rintro (hhead | hcstr)
    · cases buf with
      | nil => cases hhead
      | cons c buf =>
          obtain rfl := Option.some.inj hhead
          cases buf with
          | nil => exact .inl rfl
          | cons d buf => exact absurd List.mem_cons_self hnewline
    · obtain ⟨suffix, hbuf⟩ := List.takeWhile_prefix (fun c : UInt8 => c ≠ 0) (l := buf)
      have hbuf : [cr, lf] ++ suffix = buf := by
        rw [← hcstr]
        exact hbuf
      cases suffix with
      | nil => exact .inr hbuf.symm
      | cons c suffix =>
          rw [← hbuf] at hnewline
          exact absurd (List.mem_cons_of_mem _ List.mem_cons_self) hnewline
  · rintro (rfl | rfl)
    · exact .inl rfl
    · exact .inr rfl

theorem FgetsLines.pieces_eq {bufs : List Bytes} {tail : Bytes} (h : FgetsLines bufs tail) :
    pieces (lineBufSize - 1) bufs.flatten = bufs := by
  induction bufs with
  | nil => rfl
  | cons buf bufs ih =>
      obtain ⟨hbuf, hbufs⟩ := h
      have halone : FgetsLine (lineBufSize - 1) buf bufs.flatten :=
        { hbuf with ends := hbuf.ends.imp_right (Or.imp_right fun hnil =>
            (List.append_eq_nil_iff.mp hnil).1) }
      have hne : buf ++ bufs.flatten ≠ [] :=
        fun hnil => hbuf.nonempty (List.append_eq_nil_iff.mp hnil).1
      rw [List.flatten_cons, Libc.pieces_eq (by decide) hne, halone.takeLine_eq, ih hbufs]

theorem Message.Describes.tail_eq {m : Message} {req : HTTPRequest} {rest : Bytes}
    (describes : m.Describes req rest) : m.tail = req.body.getD [] ++ rest := by
  rcases describes.body with ⟨-, hbody, hrest⟩ | ⟨-, -, body, hbody, -, htail⟩
  · rw [hbody, hrest]
    rfl
  · rw [hbody, htail]
    rfl

/-- A header that is read line by line has no line that is too long: it would come in
more pieces than there are lines. -/
theorem short_of_lineWise {input rest : Bytes} {req : HTTPRequest}
    (h : readRequest input = .ok (req, rest))
    (wise : LineWise input req.header (req.body.getD [] ++ rest)) :
    ∀ line ∈ headLines input, line.length ≤ lineBufSize - 1 := by
  obtain ⟨m, hinput, describes⟩ := accepted_of_readRequest h
  obtain ⟨line, fields, empty, hlines, newlined, inner, last, hfields⟩ := wise
  have hsame : (line :: (fields ++ [empty])).flatten = m.lines.flatten := by
    rw [hinput, describes.tail_eq] at hlines
    exact (List.append_cancel_right hlines).symm
  have hcount : (line :: (fields ++ [empty])).length = m.lines.length := by
    have hlen := hfields.length_eq.trans describes.fields.length_eq.symm
    simp [Message.lines, hlen]
  have hall := (length_linesOf_le (n := lineBufSize - 1) (by decide)
    (line :: (fields ++ [empty])).flatten).2
  have hlinesOf : linesOf (line :: (fields ++ [empty])).flatten = line :: (fields ++ [empty]) := by
    simpa [linesOf] using linesOf_flatten newlined []
  rw [hlinesOf] at hall
  rw [hlines, headLines_eq _ newlined inner last]
  intro l hl
  by_contra hlong
  have hmore := hall ⟨l, hl, Nat.lt_of_not_le hlong⟩
  rw [hsame, describes.lines.pieces_eq, hcount] at hmore
  exact Nat.lt_irrefl _ hmore

/-! ## Lines that fit -/

/-- What is read in front of a line of its own is a whole line, if it fits. -/
theorem newlined_of_short {buf rest : Bytes} (h : FgetsLine (lineBufSize - 1) buf rest)
    (more : rest ≠ []) (short : (firstLine (buf ++ rest)).length ≤ lineBufSize - 1) :
    Newlined buf := by
  refine ⟨?_, h.newline⟩
  by_contra hlast
  have hfirst := h.firstLine_eq
  rw [if_neg hlast] at hfirst
  rcases h.ends with hend | hlen | hnil
  · exact hlast hend
  · have hpos := List.length_pos_iff.mpr (firstLine_ne_nil more)
    rw [hfirst, List.length_append] at short
    omega
  · exact more hnil

/-- If the lines up to the first empty one fit, the pieces up to the first empty one
are these lines. -/
theorem newlined_of_headLines {bufs : List Bytes} {last tail : Bytes}
    (h : FgetsLines (bufs ++ [last]) tail) (inner : ∀ buf ∈ bufs, ¬ EmptyLine buf)
    (empty : EmptyLine last)
    (short : ∀ line ∈ headLines ((bufs ++ [last]).flatten ++ tail),
      line.length ≤ lineBufSize - 1) :
    ∀ buf ∈ bufs ++ [last], Newlined buf := by
  have hempty : Newlined last := by
    rcases empty with rfl | rfl
    · exact ⟨rfl, by decide⟩
    · exact ⟨rfl, by decide⟩
  induction bufs with
  | nil =>
      intro buf hbuf
      rw [List.mem_singleton.mp hbuf]
      exact hempty
  | cons buf bufs ih =>
      obtain ⟨hbuf, hbufs⟩ := h
      rw [List.forall_mem_cons] at inner
      have hmore : (bufs ++ [last]).flatten ++ tail ≠ [] := by
        simp [hempty.ne_nil]
      have hne : buf ++ ((bufs ++ [last]).flatten ++ tail) ≠ [] :=
        fun hnil => hbuf.nonempty (List.append_eq_nil_iff.mp hnil).1
      rw [List.cons_append, List.flatten_cons, List.append_assoc, headLines,
        linesOf_eq hne] at short
      have hfits : (firstLine (buf ++ ((bufs ++ [last]).flatten ++ tail))).length ≤
          lineBufSize - 1 := by
        refine short _ ?_
        rw [upToEmpty]
        split <;> exact List.mem_cons_self
      have hfirst := newlined_of_short hbuf hmore hfits
      rw [hfirst.firstLine_append, List.drop_left, upToEmpty, if_neg inner.1,
        List.forall_mem_cons] at short
      exact List.forall_mem_cons.mpr ⟨hfirst, ih hbufs inner.2 short.2⟩

theorem RequestLine.not_emptyLine {buf method path : Bytes} {minor : Int}
    (h : RequestLine buf method path minor) : ¬ EmptyLine buf := by
  obtain ⟨word, proto, version, hbuf, -⟩ := h
  have hspace : space ∈ cstr buf := by
    rw [hbuf]
    exact List.mem_append_right _ List.mem_cons_self
  rintro (rfl | rfl)
  · exact absurd hspace (by decide)
  · exact absurd hspace (by decide)

theorem FgetsLines.exists_of_mem {bufs : List Bytes} {tail buf : Bytes}
    (h : FgetsLines bufs tail) (hbuf : buf ∈ bufs) :
    ∃ rest, FgetsLine (lineBufSize - 1) buf rest := by
  induction bufs with
  | nil => exact absurd hbuf List.not_mem_nil
  | cons first bufs ih =>
      rcases List.mem_cons.mp hbuf with rfl | hbuf
      · exact ⟨_, h.1⟩
      · exact ih h.2 hbuf

theorem lineWise_of_short {input rest : Bytes} {req : HTTPRequest}
    (h : readRequest input = .ok (req, rest))
    (short : ∀ line ∈ headLines input, line.length ≤ lineBufSize - 1) :
    LineWise input req.header (req.body.getD [] ++ rest) := by
  obtain ⟨m, rfl, describes⟩ := accepted_of_readRequest h
  have hexact : ∀ buf ∈ m.lines, IsEmptyLine buf ↔ EmptyLine buf := by
    intro buf hbuf
    obtain ⟨_, hline⟩ := describes.lines.exists_of_mem hbuf
    exact isEmptyLine_iff hline
  have inner : ∀ buf ∈ m.line :: m.fields, ¬ EmptyLine buf := by
    refine List.forall_mem_cons.mpr ⟨describes.line.not_emptyLine, fun buf hbuf => ?_⟩
    rw [← hexact buf (by simp [Message.lines, hbuf])]
    exact describes.inner buf hbuf
  have empty : EmptyLine m.empty := (hexact m.empty (by simp [Message.lines])).mp describes.empty
  refine ⟨m.line, m.fields, m.empty, ?_, ?_, inner, empty, describes.fields⟩
  · rw [← describes.tail_eq]
    rfl
  · exact newlined_of_headLines describes.lines inner empty short

/-- A request is read line by line, one field for each line of its header and the body
from behind the first empty line on, if and only if its lines up to that one fit into
the buffer. -/
theorem header_fields_iff {input rest : Bytes} {req : HTTPRequest}
    (h : readRequest input = .ok (req, rest)) :
    LineWise input req.header (req.body.getD [] ++ rest) ↔
      ∀ line ∈ headLines input, line.length ≤ lineBufSize - 1 :=
  ⟨short_of_lineWise h, lineWise_of_short h⟩

/-! ## Two requests -/

/-- `GET / HTTP/1.0` -/
def plainLine : Bytes :=
  ascii ['G', 'E', 'T', ' ', '/', ' ', 'H', 'T', 'T', 'P', '/', '1', '.', '0', '\n']

/-- The request for `/` with one field. -/
def plainRequest (field : HTTPHeaderField) : HTTPRequest where
  protocolMinorVersion := 0
  method := ascii ['G', 'E', 'T']
  path := ascii ['/']
  header := [field]
  body := none
  length := 0

theorem readRequest_plain {buf tail : Bytes} {field : HTTPHeaderField}
    (hbuf : FgetsLine (lineBufSize - 1) buf ([lf] ++ tail)) (inner : ¬ IsEmptyLine buf)
    (hfield : HeaderField buf field) (hname : strcasecmpEq field.name contentLengthName = false) :
    readRequest (plainLine ++ (buf ++ ([lf] ++ tail))) = .ok (plainRequest field, tail) := by
  refine readRequest_of_accepted ⟨⟨plainLine, [buf], [lf], tail⟩, by simp [Message.lines], ?_⟩
  have hline : FgetsLine (lineBufSize - 1) plainLine (([buf] ++ [[lf]]).flatten ++ tail) :=
    ⟨by decide, by decide, by decide, .inl rfl⟩
  have hempty : FgetsLine (lineBufSize - 1) [lf] ([] ++ tail) :=
    ⟨by decide, by decide, by decide, .inl rfl⟩
  exact {
    lines := ⟨hline, by simpa using hbuf, hempty, trivial⟩
    line := ⟨ascii ['G', 'E', 'T'], http1, ascii ['0', '\n'], rfl, by decide,
      (by decide : space ∉ ascii ['/']), rfl, rfl, rfl⟩
    fields := .cons hfield .nil
    inner := by simpa using inner
    empty := .inl rfl
    length := by simp [plainRequest, declaredLength, lookupHeaderFieldValue, hname]
    body := .inl ⟨rfl, rfl, rfl⟩ }

/-- A field without a name and with `n` letters. -/
def letters (n : Nat) : Bytes := colon :: List.replicate n 97

theorem headerField_letters (n : Nat) (behind : Bytes) (h : (0 : UInt8) ∉ behind) :
    HeaderField (letters n ++ behind)
      { name := [], value := (List.replicate n 97 ++ behind).dropWhile isBlank } := by
  refine ⟨[], List.replicate n 97 ++ behind, ?_, List.not_mem_nil, rfl⟩
  refine cstr_eq_self ?_
  simp [letters, colon, h]

theorem not_isEmptyLine_letters (n : Nat) (behind : Bytes) :
    ¬ IsEmptyLine (letters n ++ behind) := by
  have hlf : colon ≠ lf := by decide
  have hcr : colon ≠ cr := by decide
  rintro (hhead | hcstr)
  · exact hlf (Option.some.inj hhead)
  · have hcons : cstr (letters n ++ behind) = colon :: cstr (List.replicate n 97 ++ behind) := rfl
    rw [hcons] at hcstr
    exact hcr (List.cons.inj hcstr).1

theorem lf_notMem_letters (n : Nat) : lf ∉ letters n := by
  simp [letters, lf, colon, List.mem_replicate]

theorem newlined_letters (n : Nat) : Newlined (letters n ++ [lf]) := by
  refine ⟨List.getLast?_concat, ?_⟩
  rw [List.dropLast_concat]
  exact lf_notMem_letters n

theorem not_emptyLine_letters (n : Nat) : ¬ EmptyLine (letters n ++ [lf]) := by
  have hlf : colon ≠ lf := by decide
  have hcr : colon ≠ cr := by decide
  rintro (h | h)
  · exact hlf (List.cons.inj h).1
  · exact hcr (List.cons.inj h).1

theorem headLines_letters (n : Nat) :
    headLines (plainLine ++ (letters n ++ ([lf] ++ [lf]))) =
      [plainLine, letters n ++ [lf], [lf]] := by
  have hline : Newlined plainLine ∧ ¬ EmptyLine plainLine := ⟨⟨rfl, by decide⟩, by decide⟩
  have newlined : ∀ l ∈ plainLine :: ([letters n ++ [lf]] ++ [[lf]]), Newlined l := by
    have hempty : Newlined [lf] := ⟨rfl, by decide⟩
    simp [hline.1, hempty, newlined_letters]
  have inner : ∀ l ∈ plainLine :: [letters n ++ [lf]], ¬ EmptyLine l := by
    simp [hline.2, not_emptyLine_letters]
  simpa using headLines_eq [] newlined inner (.inl rfl)

/-- A field of three bytes and its newline. -/
theorem header_fields_iff_short :
    LineWise (plainLine ++ [colon, 97, 97, lf, lf]) [{ name := [], value := [97, 97, lf] }] [] := by
  have hbuf : FgetsLine (lineBufSize - 1) (letters 2 ++ [lf]) ([lf] ++ []) :=
    ⟨by decide, by decide, by decide, .inl rfl⟩
  have hread := readRequest_plain hbuf (not_isEmptyLine_letters 2 _)
    (headerField_letters 2 [lf] (by decide)) (by decide)
  exact (header_fields_iff hread).mpr (by decide)

/-- A line of 4096 bytes is taken for a field of 4095 and the empty line, and the empty
line behind it for the body. -/
theorem long_line_is_two :
    ¬ ∀ input req rest, readRequest input = .ok (req, rest) →
      LineWise input req.header (req.body.getD [] ++ rest) := by
  intro h
  obtain ⟨n, hn⟩ : ∃ n, n + 1 = lineBufSize - 1 := ⟨lineBufSize - 2, rfl⟩
  have hlen : (letters n).length = n + 1 := by simp [letters]
  have hbuf : FgetsLine (lineBufSize - 1) (letters n) ([lf] ++ [lf]) :=
    ⟨List.cons_ne_nil _ _, fun hmem => lf_notMem_letters n (List.dropLast_subset _ hmem),
      (hlen.trans hn).le, .inr (.inl (hlen.trans hn))⟩
  have inner := not_isEmptyLine_letters n []
  have hfield := headerField_letters n [] List.not_mem_nil
  rw [List.append_nil] at inner hfield
  have hname : strcasecmpEq [] contentLengthName = false := by decide
  have hread := readRequest_plain hbuf inner hfield hname
  have hshort := short_of_lineWise hread (h _ _ _ hread)
  rw [headLines_letters] at hshort
  have hlong := hshort (letters n ++ [lf]) (by simp)
  rw [List.length_append, List.length_singleton] at hlong
  omega

end NetworkProgram.Httpd
