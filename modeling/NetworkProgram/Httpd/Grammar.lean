import NetworkProgram.Httpd.Request

set_option autoImplicit false

/-!
# Httpd: the streams `read_request` accepts

The form of an accepted stream, as a relation that mentions none of the parsing
loops: lines as `fgets` cuts them, a request line, fields, an empty line, and the
body that the header announces.  `read_request` accepts exactly these streams.
-/

namespace NetworkProgram.Httpd

open NetworkProgram.Libc

/-- METHOD SP PATH SP HTTP/1.MINOR; the protocol's name in any case. -/
def RequestLine (buf method path : Bytes) (minor : Int) : Prop :=
  ∃ word proto version, cstr buf = word ++ space :: (path ++ space :: (proto ++ version)) ∧
    space ∉ word ∧ space ∉ path ∧ proto.map toupper = http1 ∧
    method = upcase word ∧ minor = atoi version

/-- NAME: VALUE -/
def HeaderField (buf : Bytes) (field : HTTPHeaderField) : Prop :=
  ∃ name p, cstr buf = name ++ colon :: p ∧ colon ∉ name ∧
    field = { name := name, value := p.dropWhile isBlank }

/-- Successive calls of `fgets` read these lines in front of `tail`. -/
def FgetsLines : List Bytes → Bytes → Prop
  | [], _ => True
  | buf :: bufs, tail =>
      FgetsLine (lineBufSize - 1) buf (bufs.flatten ++ tail) ∧ FgetsLines bufs tail

/-- The length that the header announces: the value of the last such field of the
stream, or 0. -/
def declaredLength (header : List HTTPHeaderField) : Int :=
  (lookupHeaderFieldValue header contentLengthName).elim 0 atol

/-- The parts of an accepted stream. -/
structure Message where
  line : Bytes
  fields : List Bytes
  empty : Bytes
  tail : Bytes

def Message.lines (m : Message) : List Bytes := m.line :: (m.fields ++ [m.empty])

/-- The request that the parts describe, and what is left of the stream. -/
structure Message.Describes (m : Message) (req : HTTPRequest) (rest : Bytes) : Prop where
  lines : FgetsLines m.lines m.tail
  line : RequestLine m.line req.method req.path req.protocolMinorVersion
  fields : List.Forall₂ HeaderField m.fields req.header.reverse
  inner : ∀ buf ∈ m.fields, ¬ IsEmptyLine buf
  empty : IsEmptyLine m.empty
  length : req.length = declaredLength req.header
  body : (req.length = 0 ∧ req.body = none ∧ rest = m.tail) ∨
    (1 ≤ req.length ∧ req.length ≤ maxRequestBodyLength ∧
      ∃ body, req.body = some body ∧ body.length = req.length ∧ m.tail = body ++ rest)

def Accepted (input : Bytes) (req : HTTPRequest) (rest : Bytes) : Prop :=
  ∃ m : Message, input = m.lines.flatten ++ m.tail ∧ m.Describes req rest

/-! ## The request line -/

theorem nul_notMem_drop_cstr (buf : Bytes) {left right : Bytes} (h : cstr buf = left ++ right) :
    (0 : UInt8) ∉ right := fun hmem =>
  nul_notMem_cstr buf (h ▸ List.mem_append_right _ hmem)

theorem strncasecmpEq_http1_iff {p : Bytes} (hp : (0 : UInt8) ∉ p) :
    strncasecmpEq p http1 http1.length = true ↔
      ∃ proto version, p = proto ++ version ∧ proto.map toupper = http1 := by
  have hself : cstr http1 = http1 := by decide
  have hupper : http1.map toupper = http1 := by decide
  rw [strncasecmpEq, cstr_eq_self hp, hself, List.take_length, hupper, beq_iff_eq]
  constructor
  · intro h
    exact ⟨p.take http1.length, p.drop http1.length, (List.take_append_drop _ _).symm, h⟩
  · rintro ⟨proto, version, rfl, h⟩
    have hlen : proto.length = http1.length := by
      rw [← h, List.length_map]
    rw [← hlen, List.take_left, h]

theorem parseRequestLine_iff {buf method path : Bytes} {minor : Int} :
    parseRequestLine buf = .ok (method, path, minor) ↔ RequestLine buf method path minor := by
  constructor
  · intro h
    unfold parseRequestLine at h
    split at h
    · cases h
    · rename_i word after hword
      obtain ⟨hbuf, hspace⟩ := splitChr_eq_some_iff.mp hword
      split at h
      · cases h
      · rename_i path' p hpath
        obtain ⟨rfl, hspace'⟩ := splitChr_eq_some_iff.mp hpath
        split at h
        · rename_i hproto
          have hnul : (0 : UInt8) ∉ p := by
            have happend : cstr buf = word ++ space :: (path' ++ [space]) ++ p := by simp [hbuf]
            exact nul_notMem_drop_cstr buf happend
          obtain ⟨proto, version, rfl, hupper⟩ := (strncasecmpEq_http1_iff hnul).mp hproto
          have hlen : proto.length = http1.length := by
            rw [← hupper, List.length_map]
          rw [← hlen, List.drop_left] at h
          cases h
          exact ⟨word, proto, version, hbuf, hspace, hspace', hupper, rfl, rfl⟩
        · cases h
  · rintro ⟨word, proto, version, hbuf, hspace, hspace', hupper, rfl, rfl⟩
    have hlen : proto.length = http1.length := by
      rw [← hupper, List.length_map]
    have hnul : (0 : UInt8) ∉ proto ++ version := by
      have happend : cstr buf = word ++ space :: (path ++ [space]) ++ (proto ++ version) := by
        simp [hbuf]
      exact nul_notMem_drop_cstr buf happend
    have hproto := (strncasecmpEq_http1_iff hnul).mpr ⟨proto, version, rfl, hupper⟩
    simp only [parseRequestLine, splitChr_eq_some_iff.mpr ⟨hbuf, hspace⟩,
      splitChr_eq_some_iff.mpr ⟨rfl, hspace'⟩, hproto, if_true]
    rw [← hlen, List.drop_left]

theorem readRequestLine_iff {input rest method path : Bytes} {minor : Int} :
    readRequestLine input = .ok ((method, path, minor), rest) ↔
      ∃ buf, input = buf ++ rest ∧ FgetsLine (lineBufSize - 1) buf rest ∧
        RequestLine buf method path minor := by
  have hsize : 1 < lineBufSize := by decide
  constructor
  · intro h
    unfold readRequestLine at h
    split at h
    · cases h
    · rename_i buf left hfgets
      cases hline : parseRequestLine buf with
      | error e => rw [hline] at h; cases h
      | ok line =>
          rw [hline] at h
          cases h
          obtain ⟨hinput, hpiece⟩ := (fgets_eq_some_iff hsize).mp hfgets
          exact ⟨buf, hinput, hpiece, parseRequestLine_iff.mp hline⟩
  · rintro ⟨buf, hinput, hpiece, hline⟩
    simp only [readRequestLine, (fgets_eq_some_iff hsize).mpr ⟨hinput, hpiece⟩,
      parseRequestLine_iff.mpr hline]
    rfl

/-! ## The header -/

theorem parseHeaderField_iff {buf : Bytes} {field : HTTPHeaderField} :
    parseHeaderField buf = .ok field ↔ HeaderField buf field := by
  unfold parseHeaderField HeaderField
  constructor
  · intro h
    split at h
    · cases h
    · rename_i name p hsplit
      cases h
      obtain ⟨hbuf, hcolon⟩ := splitChr_eq_some_iff.mp hsplit
      exact ⟨name, p, hbuf, hcolon, rfl⟩
  · rintro ⟨name, p, hbuf, hcolon, rfl⟩
    rw [splitChr_eq_some_iff.mpr ⟨hbuf, hcolon⟩]

/-- A line is read, which is the empty line or has a field. -/
theorem readHeaderField_ok_iff {input rest : Bytes} {field : Option HTTPHeaderField} :
    readHeaderField input = .ok (field, rest) ↔
      ∃ buf, input = buf ++ rest ∧ FgetsLine (lineBufSize - 1) buf rest ∧
        (IsEmptyLine buf ∧ field = none ∨
          ¬ IsEmptyLine buf ∧ ∃ f, HeaderField buf f ∧ field = some f) := by
  have hsize : 1 < lineBufSize := by decide
  constructor
  · intro h
    unfold readHeaderField at h
    split at h
    · cases h
    · rename_i buf left hfgets
      obtain ⟨hinput, hpiece⟩ := (fgets_eq_some_iff hsize).mp hfgets
      split at h
      · rename_i hempty
        cases h
        exact ⟨buf, hinput, hpiece, .inl ⟨hempty, rfl⟩⟩
      · rename_i hempty
        cases hfield : parseHeaderField buf with
        | error e => rw [hfield] at h; cases h
        | ok f =>
            rw [hfield] at h
            cases h
            exact ⟨buf, hinput, hpiece, .inr ⟨hempty, f, parseHeaderField_iff.mp hfield, rfl⟩⟩
  · rintro ⟨buf, hinput, hpiece, ⟨hempty, rfl⟩ | ⟨hempty, f, hfield, rfl⟩⟩
    · simp only [readHeaderField, (fgets_eq_some_iff hsize).mpr ⟨hinput, hpiece⟩, if_pos hempty]
    · simp only [readHeaderField, (fgets_eq_some_iff hsize).mpr ⟨hinput, hpiece⟩, if_neg hempty,
        parseHeaderField_iff.mpr hfield]
      rfl

theorem readHeaderField_none_iff {input rest : Bytes} :
    readHeaderField input = .ok (none, rest) ↔
      ∃ buf, input = buf ++ rest ∧ FgetsLine (lineBufSize - 1) buf rest ∧ IsEmptyLine buf := by
  rw [readHeaderField_ok_iff]
  simp

theorem readHeaderField_some_iff {input rest : Bytes} {field : HTTPHeaderField} :
    readHeaderField input = .ok (some field, rest) ↔
      ∃ buf, input = buf ++ rest ∧ FgetsLine (lineBufSize - 1) buf rest ∧
        ¬ IsEmptyLine buf ∧ HeaderField buf field := by
  rw [readHeaderField_ok_iff]
  simp

/-- The lines of a header: fields up to the empty line. -/
structure HeaderLines (bufs : List Bytes) (last tail : Bytes)
    (header : List HTTPHeaderField) : Prop where
  lines : FgetsLines (bufs ++ [last]) tail
  fields : List.Forall₂ HeaderField bufs header
  inner : ∀ buf ∈ bufs, ¬ IsEmptyLine buf
  empty : IsEmptyLine last

theorem readHeader_sound {header header' : List HTTPHeaderField} {input tail : Bytes}
    (h : readHeader header input = .ok (header', tail)) :
    ∃ fields empty new, input = (fields ++ [empty]).flatten ++ tail ∧
      HeaderLines fields empty tail new ∧ header' = new.reverse ++ header := by
  induction header, input using readHeader.induct with
  | case1 header input e hfield =>
      unfold readHeader at h
      split at h
      · cases h
      · rename_i hok; cases hfield.symm.trans hok
      · rename_i hok; cases hfield.symm.trans hok
  | case2 header input rest hfield =>
      unfold readHeader at h
      split at h
      · cases h
      · rename_i hok
        cases hfield.symm.trans hok
        cases h
        obtain ⟨buf, rfl, hpiece, hempty⟩ := readHeaderField_none_iff.mp hfield
        exact ⟨[], buf, [], by simp, ⟨⟨hpiece, trivial⟩, .nil, by simp, hempty⟩, rfl⟩
      · rename_i hok; cases hfield.symm.trans hok
  | case3 header input field rest hfield ih =>
      unfold readHeader at h
      split at h
      · cases h
      · rename_i hok; cases hfield.symm.trans hok
      · rename_i hok
        cases hfield.symm.trans hok
        obtain ⟨fields, empty, new, rfl, lines, rfl⟩ := ih h
        obtain ⟨buf, rfl, hpiece, hinner, hfield⟩ := readHeaderField_some_iff.mp hfield
        refine ⟨buf :: fields, empty, field :: new, by simp, ⟨⟨hpiece, lines.lines⟩,
          .cons hfield lines.fields, ?_, lines.empty⟩, by simp⟩
        intro line hline
        rcases List.mem_cons.mp hline with rfl | hline
        · exact hinner
        · exact lines.inner line hline

theorem readHeader_complete {fields : List Bytes} {empty tail : Bytes}
    {new : List HTTPHeaderField} (lines : HeaderLines fields empty tail new)
    (header : List HTTPHeaderField) :
    readHeader header ((fields ++ [empty]).flatten ++ tail) =
      .ok (new.reverse ++ header, tail) := by
  induction fields generalizing new header with
  | nil =>
      cases lines.fields
      have hfield : readHeaderField (([] ++ [empty]).flatten ++ tail) = .ok (none, tail) :=
        readHeaderField_none_iff.mpr ⟨empty, by simp, lines.lines.1, lines.empty⟩
      unfold readHeader
      split
      · rename_i hok; cases hfield.symm.trans hok
      · rename_i hok; cases hfield.symm.trans hok; rfl
      · rename_i hok; cases hfield.symm.trans hok
  | cons buf fields ih =>
      obtain ⟨⟨hpiece, hrest⟩, hfields, hinner, hempty⟩ := lines
      cases hfields with
      | @cons _ field _ new hfield hfields =>
          have hnext := ih ⟨hrest, hfields, fun line hline =>
            hinner line (List.mem_cons_of_mem _ hline), hempty⟩ (field :: header)
          have hread : readHeaderField ((buf :: fields ++ [empty]).flatten ++ tail) =
              .ok (some field, (fields ++ [empty]).flatten ++ tail) :=
            readHeaderField_some_iff.mpr
              ⟨buf, by simp, hpiece, hinner buf List.mem_cons_self, hfield⟩
          unfold readHeader
          split
          · rename_i hok; cases hread.symm.trans hok
          · rename_i hok; cases hread.symm.trans hok
          · rename_i hok
            cases hread.symm.trans hok
            rw [hnext, List.reverse_cons, List.append_assoc, List.singleton_append]

theorem readHeader_newline : readHeader [] [lf] = .ok ([], []) := by
  have hempty : HeaderLines [] [lf] [] [] :=
    ⟨⟨⟨by decide, by decide, by decide, .inl rfl⟩, trivial⟩, .nil, by simp, .inl rfl⟩
  exact readHeader_complete hempty []

/-! ## The body -/

theorem contentLength_iff {header : List HTTPHeaderField} {length : Int} :
    contentLength header = .ok length ↔ length = declaredLength header ∧ 0 ≤ length := by
  unfold contentLength declaredLength
  cases lookupHeaderFieldValue header contentLengthName with
  | none =>
      simp only [Except.ok.injEq, Option.elim_none]
      omega
  | some val =>
      simp only [Option.elim_some]
      split
      · simp only [reduceCtorEq, false_iff]
        omega
      · simp only [Except.ok.injEq]
        omega

theorem readBody_iff {length : Int} (hlen : 0 ≤ length) {input rest : Bytes} {body : Option Bytes} :
    readBody length input = .ok (body, rest) ↔
      (length = 0 ∧ body = none ∧ rest = input) ∨
        (1 ≤ length ∧ length ≤ maxRequestBodyLength ∧
          ∃ bytes, body = some bytes ∧ bytes.length = length ∧ input = bytes ++ rest) := by
  constructor
  · intro h
    unfold readBody at h
    split at h
    · split at h
      · cases h
      · split at h
        · cases h
        · rename_i hne hmax hshort
          cases h
          refine .inr ⟨by omega, by omega, input.take length.toNat, rfl, ?_,
            (List.take_append_drop _ _).symm⟩
          rw [List.length_take]
          omega
    · rename_i hzero
      cases h
      exact .inl ⟨not_not.mp hzero, rfl, rfl⟩
  · rintro (⟨rfl, rfl, rfl⟩ | ⟨hpos, hmax, bytes, rfl, hbytes, rfl⟩)
    · simp [readBody]
    · have hnat : length.toNat = bytes.length := by omega
      have hne : length ≠ 0 := by omega
      have hle : ¬ length > maxRequestBodyLength := by omega
      have hshort : ¬ (bytes ++ rest).length < bytes.length := by
        rw [List.length_append]
        omega
      simp only [readBody, if_pos hne, if_neg hle, hnat, if_neg hshort, List.take_left,
        List.drop_left]

/-! ## The request -/

theorem accepted_of_readRequest {input rest : Bytes} {req : HTTPRequest}
    (h : readRequest input = .ok (req, rest)) : Accepted input req rest := by
  unfold readRequest at h
  split at h
  · cases h
  · rename_i method path minor afterLine hline
    split at h
    · cases h
    · rename_i header tail hheader
      split at h
      · cases h
      · rename_i length hlength
        split at h
        · cases h
        · rename_i body rest' hbody
          cases h
          obtain ⟨buf, rfl, hpiece, hrequest⟩ := readRequestLine_iff.mp hline
          obtain ⟨fields, empty, new, rfl, lines, rfl⟩ := readHeader_sound hheader
          obtain ⟨hdeclared, hnonneg⟩ := contentLength_iff.mp hlength
          refine ⟨⟨buf, fields, empty, tail⟩, ?_, ⟨⟨hpiece, lines.lines⟩, hrequest, ?_,
            lines.inner, lines.empty, hdeclared, (readBody_iff hnonneg).mp hbody⟩⟩
          · simp [Message.lines]
          · simpa using lines.fields

theorem readRequest_of_accepted {input rest : Bytes} {req : HTTPRequest}
    (h : Accepted input req rest) : readRequest input = .ok (req, rest) := by
  obtain ⟨⟨line, fields, empty, tail⟩, rfl, h⟩ := h
  obtain ⟨⟨hpiece, hlines⟩, hrequest, hfields, hinner, hempty, hlength, hbody⟩ := h
  have hline : readRequestLine ((line :: (fields ++ [empty])).flatten ++ tail) =
      .ok ((req.method, req.path, req.protocolMinorVersion),
        (fields ++ [empty]).flatten ++ tail) :=
    readRequestLine_iff.mpr ⟨line, by simp, hpiece, hrequest⟩
  have hheader := readHeader_complete ⟨hlines, hfields, hinner, hempty⟩ []
  rw [List.reverse_reverse, List.append_nil] at hheader
  have hnonneg : 0 ≤ req.length := by
    rcases hbody with ⟨hzero, -⟩ | ⟨hpos, -⟩ <;> omega
  have hcontent := contentLength_iff.mpr ⟨hlength, hnonneg⟩
  have hread := (readBody_iff hnonneg).mpr hbody
  simp only [readRequest, Message.lines, hline, hheader, hcontent, hread]

/-- `read_request` returns exactly on the streams of this form, with the request
that they describe; on every other stream it ends the process. -/
theorem read_request_iff (input : Bytes) (req : HTTPRequest) (rest : Bytes) :
    readRequest input = .ok (req, rest) ↔ Accepted input req rest :=
  ⟨accepted_of_readRequest, readRequest_of_accepted⟩

/-- `GET / http/1.0` -/
def lowerCaseLine : Bytes :=
  ascii ['G', 'E', 'T', ' ', '/', ' ', 'h', 't', 't', 'p', '/', '1', '.', '0', '\n']

/-- The protocol's name is compared without case: a stream is accepted whose
request line is not METHOD SP PATH SP HTTP/1. to the letter. -/
theorem lower_case_accepted :
    (∃ req, readRequest (lowerCaseLine ++ [lf]) = .ok (req, [])) ∧
      fgets lineBufSize (lowerCaseLine ++ [lf]) = some (lowerCaseLine, [lf]) ∧
      ¬ ∃ method path version,
        lowerCaseLine = method ++ space :: (path ++ space :: (http1 ++ version)) := by
  refine ⟨?_, rfl, ?_⟩
  · have hline : readRequestLine (lowerCaseLine ++ [lf]) =
        .ok ((ascii ['G', 'E', 'T'], ascii ['/'], 0), [lf]) := rfl
    simp only [readRequest, hline, readHeader_newline]
    exact ⟨_, rfl⟩
  · rintro ⟨method, path, version, h⟩
    have hmem : (72 : UInt8) ∈ lowerCaseLine := by
      rw [h]
      simp [http1, ascii]
    exact absurd hmem (by decide)

end NetworkProgram.Httpd
