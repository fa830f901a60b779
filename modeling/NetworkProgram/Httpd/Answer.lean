import NetworkProgram.Httpd.Lines
import NetworkProgram.Httpd.Respond
import NetworkProgram.Httpd.RoundTrip

set_option autoImplicit false

/-!
# Httpd: the answers to HEAD and GET

`respond_to` once more, on whatever the kernel says about a path: nothing is assumed
about how paths lead to files, so links of any kind are allowed, and an opened file may
fail to be read.  The clock's answer is taken apart, to see that the date is one line.
-/

namespace NetworkProgram.Httpd

open NetworkProgram.Libc

/-! ## The clock -/

/-- `struct tm` -/
structure Tm where
  wday : Fin 7
  mday : Nat
  mon : Fin 12
  year : Nat
  hour : Nat
  min : Nat
  sec : Nat

/-- `%a` in the C locale. -/
def dayName (wday : Fin 7) : Bytes :=
  ([text "Sun", text "Mon", text "Tue", text "Wed", text "Thu", text "Fri", text "Sat"]).get wday

/-- `%b` in the C locale. -/
def monthName (mon : Fin 12) : Bytes :=
  ([text "Jan", text "Feb", text "Mar", text "Apr", text "May", text "Jun", text "Jul",
    text "Aug", text "Sep", text "Oct", text "Nov", text "Dec"]).get mon

/-- `%d`, `%H`, `%M` and `%S`. -/
def twoDigits (n : Nat) : Bytes := decimal (n / 10 % 10 : Nat) ++ decimal (n % 10 : Nat)

/-- `strftime(buf, TIME_BUF_SIZE, "%a, %d %b %Y %H:%M:%S GMT", tm)` -/
def strftime (tm : Tm) : Bytes :=
  dayName tm.wday ++ text ", " ++ twoDigits tm.mday ++ text " " ++ monthName tm.mon ++ text " " ++
    decimal tm.year ++ text " " ++ twoDigits tm.hour ++ text ":" ++ twoDigits tm.min ++ text ":" ++
    twoDigits tm.sec ++ text " GMT"

/-! ## The kernel -/

/-- `struct stat` -/
structure Stat where
  regular : Bool
  size : Nat

/-- What the reads of an opened file return: its bytes, and behind them 0 or an error. -/
structure Opened where
  content : Bytes
  broken : Bool

structure Surroundings where
  docroot : Bytes
  tm : Tm
  lstat : Bytes → Option Stat
  openFile : Bytes → Option Opened

/-- The body that `not_found` writes. -/
def notFoundBody : Bytes :=
  text "<html>\r\n" ++
    text "<header><title>Not Found</title><header>\r\n" ++
    text "<body><p>File not found</p></body>\r\n" ++
    text "</html>\r\n"

namespace Surroundings

variable (s : Surroundings)

def commonHeaderFields (status : String) : Bytes :=
  text "HTTP/1.0 " ++ text status ++ text "\r\n" ++
    text "Date: " ++ strftime s.tm ++ text "\r\n" ++
    text "Server: LittleHTTP/1.0\r\n" ++
    text "Connection: close\r\n"

def methodPage (status word : String) (method : Bytes) : Bytes :=
  s.commonHeaderFields status ++
    text "Content-Type: text/html\r\n" ++
    text "\r\n" ++
    text "<html>\r\n" ++
    text "<header>\r\n" ++
    text "<title>" ++ text status ++ text "</title>\r\n" ++
    text "<header>\r\n" ++
    text "<body>\r\n" ++
    text "<p>The request method " ++ method ++ text " is not " ++ text word ++ text "</p>\r\n" ++
    text "</body>\r\n" ++
    text "</html>\r\n"

def notFound (req : HTTPRequest) : Bytes :=
  s.commonHeaderFields "404 Not Found" ++
    text "Content-Type: text/html\r\n" ++
    text "\r\n" ++
    (if req.method = methodHead then [] else notFoundBody)

/-- `get_fileinfo`: the size of a regular file. -/
def fileSize (urlpath : Bytes) : Option Nat :=
  (s.lstat (buildFspath s.docroot urlpath)).bind fun st => if st.regular then some st.size else none

/-- `do_file_response` -/
def fileResponse (req : HTTPRequest) : Response :=
  let path := buildFspath s.docroot req.path
  match s.fileSize req.path with
  | none => { out := s.notFound req, accessed := [path], exit := none }
  | some size =>
      let header := s.commonHeaderFields "200 OK" ++
        text "Content-Length: " ++ text (toString size) ++ text "\r\n" ++
        text "Content-Type: text/plain\r\n" ++
        text "\r\n"
      if req.method = methodHead then { out := header, accessed := [path], exit := none }
      else
        match s.openFile path with
        | none =>
            { out := header
              accessed := [path, path]
              exit := some ⟨"failed to open %s: %s", some path⟩ }
        | some file =>
            { out := header ++ file.content
              accessed := [path, path]
              exit := if file.broken then some ⟨"failed to read %s: %s", some path⟩ else none }

/-- `respond_to` -/
def answer (req : HTTPRequest) : Response :=
  if req.method = methodGet then s.fileResponse req
  else if req.method = methodHead then s.fileResponse req
  else if req.method = methodPost then
    { out := s.methodPage "405 Method Not Allowed" "allowed" req.method, accessed := []
      exit := none }
  else
    { out := s.methodPage "501 Not Implemented" "implemented" req.method, accessed := []
      exit := none }

end Surroundings

/-! ## File systems without links -/

/-- What the kernel says about a file system without links. -/
def Env.surroundings (env : Env) (tm : Tm) : Surroundings where
  docroot := env.docroot
  tm := tm
  lstat := fun path =>
    (env.lookup path).map fun node =>
      match node with
      | .regular content _ => { regular := true, size := content.length }
      | _ => { regular := false, size := 0 }
  openFile := fun path =>
    match env.lookup path with
    | some (.regular content true) => some { content := content, broken := false }
    | _ => none

/-- On such a file system the answers are the ones of `respond_to` there. -/
theorem respondTo_eq_answer {env : Env} {tm : Tm} (hdate : env.date = strftime tm)
    (req : HTTPRequest) : respondTo env req = (env.surroundings tm).answer req := by
  have hcommon : ∀ status, outputCommonHeaderFields env status =
      (env.surroundings tm).commonHeaderFields status := by
    intro status
    rw [outputCommonHeaderFields, hdate]
    rfl
  have hmissing : notFound env req = (env.surroundings tm).notFound req := by
    rw [notFound, hcommon]
    rfl
  have hfile : doFileResponse env req = (env.surroundings tm).fileResponse req := by
    unfold doFileResponse getFileinfo openFile Surroundings.fileResponse Surroundings.fileSize
    rw [hcommon, hmissing]
    simp only [Env.surroundings]
    cases hlookup : env.lookup (buildFspath env.docroot req.path) with
    | none => rfl
    | some node =>
        cases node with
        | directory => rfl
        | other => rfl
        | regular content readable =>
            simp only [hlookup, Option.map_some, Option.bind_some, if_true]
            split
            · rfl
            · cases readable <;> rfl
  have hpage : ∀ status word, methodPage env status word req.method =
      (env.surroundings tm).methodPage status word req.method := by
    intro status word
    delta methodPage
    rw [hcommon]
    rfl
  unfold respondTo Surroundings.answer methodNotAllowed notImplemented
  rw [hfile, hpage, hpage]

/-! ## The header block -/

def commonTexts (tm : Tm) (status : String) : List Bytes :=
  [text "HTTP/1.0 " ++ text status, text "Date: " ++ strftime tm, text "Server: LittleHTTP/1.0",
    text "Connection: close"]

/-- The lines above the empty one, for a regular file of this size or for anything else. -/
def headerTexts (tm : Tm) : Option Nat → List Bytes
  | some size =>
      commonTexts tm "200 OK" ++
        [text "Content-Length: " ++ decimal size, text "Content-Type: text/plain"]
  | none => commonTexts tm "404 Not Found" ++ [text "Content-Type: text/html"]

/-- The header, up to and including the empty line. -/
def headerBlock (tm : Tm) (size : Option Nat) : Bytes :=
  ((headerTexts tm size).map (· ++ crlf)).flatten ++ crlf

/-- The bytes up to and including the first empty line. -/
def upToEmptyLine (out : Bytes) : Bytes := (headLines out).flatten

theorem text_toString (n : Nat) : text (toString n) = decimal n := by
  simp [text, decimal, ascii]

section Writing

variable (s : Surroundings)

theorem commonHeaderFields_eq (status : String) :
    s.commonHeaderFields status = ((commonTexts s.tm status).map (· ++ crlf)).flatten := by
  have hcrlf : text "\r\n" = crlf := rfl
  have hserver : text "Server: LittleHTTP/1.0\r\n" = text "Server: LittleHTTP/1.0" ++ crlf := rfl
  have hclose : text "Connection: close\r\n" = text "Connection: close" ++ crlf := rfl
  simp [Surroundings.commonHeaderFields, commonTexts, hcrlf, hserver, hclose]

theorem notFound_eq (req : HTTPRequest) : s.notFound req =
    headerBlock s.tm none ++ (if req.method = methodHead then [] else notFoundBody) := by
  have hcrlf : text "\r\n" = crlf := rfl
  have htype : text "Content-Type: text/html\r\n" = text "Content-Type: text/html" ++ crlf := rfl
  rw [Surroundings.notFound, commonHeaderFields_eq, hcrlf, htype]
  simp [headerBlock, headerTexts]

/-- What is written for a regular file in front of its content. -/
theorem fileHeader_eq (size : Nat) :
    s.commonHeaderFields "200 OK" ++
        text "Content-Length: " ++ text (toString size) ++ text "\r\n" ++
        text "Content-Type: text/plain\r\n" ++
        text "\r\n" = headerBlock s.tm (some size) := by
  have hcrlf : text "\r\n" = crlf := rfl
  have htype : text "Content-Type: text/plain\r\n" = text "Content-Type: text/plain" ++ crlf := rfl
  rw [commonHeaderFields_eq, hcrlf, htype, text_toString]
  simp [headerBlock, headerTexts]

/-- Both answers begin with the same header block, and the one to HEAD ends with it. -/
theorem fileResponse_out (req : HTTPRequest) :
    ∃ body, (s.fileResponse req).out = headerBlock s.tm (s.fileSize req.path) ++ body ∧
      (req.method = methodHead → body = []) := by
  unfold Surroundings.fileResponse
  cases s.fileSize req.path with
  | none => exact ⟨_, notFound_eq s req, fun hhead => if_pos hhead⟩
  | some size =>
      dsimp only
      rw [fileHeader_eq]
      split
      · exact ⟨[], (List.append_nil _).symm, fun _ => rfl⟩
      · rename_i hget
        refine ⟨((s.openFile (buildFspath s.docroot req.path)).map Opened.content).getD [], ?_,
          fun hhead => absurd hhead hget⟩
        cases s.openFile (buildFspath s.docroot req.path) with
        | none => exact (List.append_nil _).symm
        | some file => rfl

end Writing

/-! ## The first empty line -/

theorem lf_notMem_decimal (n : Int) : lf ∉ decimal n := fun hmem =>
  (mem_decimal hmem).elim (fun heq => absurd heq (by decide)) fun heq => absurd heq (by decide)

theorem lf_notMem_dayName (wday : Fin 7) : lf ∉ dayName wday := by
  revert wday
  decide

theorem lf_notMem_monthName (mon : Fin 12) : lf ∉ monthName mon := by
  revert mon
  decide

/-- The date is one line. -/
theorem lf_notMem_strftime (tm : Tm) : lf ∉ strftime tm := by
  simp only [strftime, twoDigits, List.mem_append, lf_notMem_decimal, lf_notMem_dayName,
    lf_notMem_monthName, or_false, false_or]
  decide

theorem line_append {a b : Bytes} (ha : a ≠ [] ∧ lf ∉ a) (hb : lf ∉ b) :
    a ++ b ≠ [] ∧ lf ∉ a ++ b :=
  ⟨List.append_ne_nil_of_left_ne_nil ha.1 b, fun h => (List.mem_append.mp h).elim ha.2 hb⟩

theorem commonTexts_line (tm : Tm) {status : String} (h : lf ∉ text status) :
    ∀ t ∈ commonTexts tm status, t ≠ [] ∧ lf ∉ t :=
  List.forall_mem_cons.mpr ⟨line_append (by decide) h,
    List.forall_mem_cons.mpr ⟨line_append (by decide) (lf_notMem_strftime tm),
      List.forall_mem_cons.mpr ⟨by decide,
        List.forall_mem_cons.mpr ⟨by decide, List.forall_mem_nil _⟩⟩⟩⟩

/-- No line of the header is empty, or more than one line. -/
theorem headerTexts_line (tm : Tm) (size : Option Nat) :
    ∀ t ∈ headerTexts tm size, t ≠ [] ∧ lf ∉ t := by
  cases size with
  | none =>
      refine List.forall_mem_append.mpr ⟨commonTexts_line tm (by decide), ?_⟩
      exact List.forall_mem_cons.mpr ⟨by decide, List.forall_mem_nil _⟩
  | some size =>
      refine List.forall_mem_append.mpr ⟨commonTexts_line tm (by decide), ?_⟩
      exact List.forall_mem_cons.mpr ⟨line_append (by decide) (lf_notMem_decimal _),
        List.forall_mem_cons.mpr ⟨by decide, List.forall_mem_nil _⟩⟩

theorem newlined_crlf {t : Bytes} (h : lf ∉ t) : Newlined (t ++ crlf) := by
  have hline := fgetsLine_crlf h (Nat.le_refl _) []
  have hlast : t ++ crlf = (t ++ [cr]) ++ [lf] := by simp [crlf]
  exact ⟨by rw [hlast, List.getLast?_concat], hline.newline⟩

theorem not_emptyLine_crlf {t : Bytes} (h : t ≠ []) : ¬ EmptyLine (t ++ crlf) := by
  have hpos := List.length_pos_iff.mpr h
  rintro (heq | heq)
  all_goals
    have hlen := congrArg List.length heq
    rw [List.length_append] at hlen
    change t.length + 2 = _ at hlen
    simp only [List.length_cons, List.length_nil] at hlen
    omega

theorem upToEmptyLine_header {texts : List Bytes} (hne : texts ≠ [])
    (h : ∀ t ∈ texts, t ≠ [] ∧ lf ∉ t) (body : Bytes) :
    upToEmptyLine ((texts.map (· ++ crlf)).flatten ++ crlf ++ body) =
      (texts.map (· ++ crlf)).flatten ++ crlf := by
  obtain ⟨t, rest, rfl⟩ := List.exists_cons_of_ne_nil hne
  have hinner : ∀ l ∈ (t :: rest).map (· ++ crlf), ¬ EmptyLine l :=
    List.forall_mem_map.mpr fun u hu => not_emptyLine_crlf (h u hu).1
  have hnewlined : ∀ l ∈ (t :: rest).map (· ++ crlf) ++ [crlf], Newlined l := by
    refine List.forall_mem_append.mpr ⟨List.forall_mem_map.mpr fun u hu => ?_, ?_⟩
    · exact newlined_crlf (h u hu).2
    · exact List.forall_mem_cons.mpr ⟨newlined_crlf List.not_mem_nil, List.forall_mem_nil _⟩
  have hlines := headLines_eq body hnewlined hinner (.inr rfl)
  have hflatten : ((t ++ crlf) :: (rest.map (· ++ crlf) ++ [crlf])).flatten =
      ((t :: rest).map (· ++ crlf)).flatten ++ crlf := by simp
  rw [hflatten] at hlines
  rw [upToEmptyLine, hlines, hflatten]

/-- HEAD is answered by exactly the bytes that GET is answered by up to the first empty
line, and these come from the clock and from what the kernel says about the file. -/
theorem head_answer (s : Surroundings) {get head : HTTPRequest} (hget : get.method = methodGet)
    (hhead : head.method = methodHead) (hpath : get.path = head.path) :
    (s.answer head).out = upToEmptyLine (s.answer get).out ∧
      (s.answer head).out = headerBlock s.tm (s.fileSize head.path) := by
  have hanswer : s.answer head = s.fileResponse head := by
    unfold Surroundings.answer
    rw [if_pos hhead, ite_self]
  have hanswer' : s.answer get = s.fileResponse get := if_pos hget
  obtain ⟨body, hbody, hnil⟩ := fileResponse_out s head
  obtain ⟨body', hbody', -⟩ := fileResponse_out s get
  have hne : headerTexts s.tm (s.fileSize head.path) ≠ [] := by
    cases s.fileSize head.path <;> exact List.cons_ne_nil _ _
  have hup := upToEmptyLine_header hne (headerTexts_line s.tm _) body'
  rw [hnil hhead, List.append_nil] at hbody
  rw [hpath] at hbody'
  rw [hanswer, hanswer', hbody, hbody']
  exact ⟨hup.symm, rfl⟩

/-- A kernel that knows one file of one byte. -/
def oneFile : Surroundings where
  docroot := ascii ['/', 's']
  tm := { wday := 4, mday := 1, mon := 0, year := 1970, hour := 0, min := 0, sec := 0 }
  lstat := fun _ => some { regular := true, size := 1 }
  openFile := fun _ => some { content := [10], broken := false }

def plainTo (method : Bytes) : HTTPRequest where
  protocolMinorVersion := 0
  method := method
  path := ascii ['f']
  header := []
  body := none
  length := 0

theorem head_answer_one_file :
    (oneFile.answer (plainTo methodHead)).out =
        upToEmptyLine (oneFile.answer (plainTo methodGet)).out ∧
      (oneFile.answer (plainTo methodHead)).out =
        headerBlock oneFile.tm (oneFile.fileSize (ascii ['f'])) :=
  head_answer oneFile (show (plainTo methodGet).method = methodGet from rfl) rfl rfl

end NetworkProgram.Httpd
