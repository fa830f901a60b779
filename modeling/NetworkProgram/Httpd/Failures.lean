import NetworkProgram.Httpd.Answer

set_option autoImplicit false

/-!
# Httpd: an answer that is cut short

`respond_to` with all the calls of `log_exit` that come behind the request: `gmtime`, `open`,
`read` and `fwrite` may fail.  What was written until then is still sent, since `exit` flushes
the stream.  The results of `fprintf` and `fflush` are not looked at, and no signal comes: SIGTERM
and SIGPIPE would end the process too.
-/

namespace NetworkProgram.Httpd

open NetworkProgram.Libc

/-- What the calls of the library do while a request is answered. -/
structure Site extends Surroundings where
  /-- `gmtime` returns `NULL`. -/
  clockFails : Bool
  /-- How many bytes of the file the calls of `fwrite` take before one takes less than it is
  given, if one does. -/
  room : Option Nat

/-- The loop of `read` and `fwrite`, wherever the reads cut the file: what is written of it, and
the call of `log_exit` that ends it, if one does. -/
def copyFile (room : Option Nat) (path : Bytes) (file : Opened) : Bytes × Option LogExit :=
  let copied :=
    (file.content, if file.broken then some ⟨"failed to read %s: %s", some path⟩ else none)
  match room with
  | none => copied
  | some n =>
      if n < file.content.length then
        (file.content.take n, some ⟨"failed to write to socket", none⟩)
      else copied

namespace Site

variable (s : Site)

/-- `output_common_header_fields` before it writes anything. -/
def clockExit (accessed : List Bytes) : Response where
  out := []
  accessed := accessed
  exit := some ⟨"gmtime() failed: %s", none⟩

/-- A page that begins with `output_common_header_fields`. -/
def page (out : Bytes) (accessed : List Bytes) : Response :=
  if s.clockFails then clockExit accessed else { out := out, accessed := accessed, exit := none }

/-- What is written for a regular file in front of its content. -/
def fileHeader (size : Nat) : Bytes :=
  s.commonHeaderFields "200 OK" ++
    text "Content-Length: " ++ text (toString size) ++ text "\r\n" ++
    text "Content-Type: text/plain\r\n" ++
    text "\r\n"

/-- `do_file_response` -/
def fileResponse (req : HTTPRequest) : Response :=
  let path := buildFspath s.docroot req.path
  match s.fileSize req.path with
  | none => s.page (s.notFound req) [path]
  | some size =>
      if s.clockFails then clockExit [path]
      else
        let header := s.fileHeader size
        if req.method = methodHead then { out := header, accessed := [path], exit := none }
        else
          match s.openFile path with
          | none =>
              { out := header
                accessed := [path, path]
                exit := some ⟨"failed to open %s: %s", some path⟩ }
          | some file =>
              let (body, exit) := copyFile s.room path file
              { out := header ++ body, accessed := [path, path], exit := exit }

/-- `respond_to` -/
def answer (req : HTTPRequest) : Response :=
  if req.method = methodGet then s.fileResponse req
  else if req.method = methodHead then s.fileResponse req
  else if req.method = methodPost then
    s.page (s.methodPage "405 Method Not Allowed" "allowed" req.method) []
  else s.page (s.methodPage "501 Not Implemented" "implemented" req.method) []

/-- `service` on the bytes of one connection. -/
def service (input : Bytes) : Response :=
  match readRequest input with
  | .error e => { out := [], accessed := [], exit := some e }
  | .ok (req, _) => s.answer req

/-! ## Answers that are not cut short -/

variable {s} {req : HTTPRequest}

theorem page_of_clock (h : s.clockFails = false) (out : Bytes) (accessed : List Bytes) :
    s.page out accessed = { out := out, accessed := accessed, exit := none } := by
  rw [page, h]
  rfl

/-- The clock and the socket do not fail. -/
structure Sound (s : Site) : Prop where
  clock : s.clockFails = false
  socket : s.room = none

/-- Without such failures it is the answer that the clock and the files give. -/
theorem Sound.answer_eq (h : s.Sound) (req : HTTPRequest) :
    s.answer req = s.toSurroundings.answer req := by
  have hfile : s.fileResponse req = s.toSurroundings.fileResponse req := by
    unfold fileResponse Surroundings.fileResponse
    simp only [page_of_clock h.clock, h.clock, h.socket]
    rfl
  simp only [answer, Surroundings.answer, hfile, page_of_clock h.clock]

theorem clock_of_page {out : Bytes} {accessed : List Bytes}
    (h : (s.page out accessed).exit = none) : s.clockFails = false := by
  rw [← Bool.not_eq_true]
  intro hclock
  rw [page, if_pos hclock] at h
  cases h

theorem copyFile_of_exit {room : Option Nat} {path : Bytes} {file : Opened}
    (h : (copyFile room path file).2 = none) :
    file.broken = false ∧ copyFile room path file = (file.content, none) := by
  have hread : (if file.broken then some ⟨"failed to read %s: %s", some path⟩ else none :
      Option LogExit) = none → file.broken = false := by
    intro hnone
    rw [← Bool.not_eq_true]
    intro hbroken
    rw [if_pos hbroken] at hnone
    cases hnone
  unfold copyFile at h ⊢
  cases room with
  | none =>
      dsimp only at h ⊢
      exact ⟨hread h, congrArg (Prod.mk file.content) h⟩
  | some n =>
      dsimp only at h ⊢
      split at h
      · cases h
      · rename_i hfits
        rw [if_neg hfits]
        exact ⟨hread h, congrArg (Prod.mk file.content) h⟩

theorem fileResponse_of_exit (h : (s.fileResponse req).exit = none) :
    s.fileResponse req = s.toSurroundings.fileResponse req := by
  unfold fileResponse at h ⊢
  unfold Surroundings.fileResponse
  cases hsize : s.fileSize req.path with
  | none =>
      rw [hsize] at h
      exact page_of_clock (clock_of_page h) _ _
  | some size =>
      rw [hsize] at h
      dsimp only at h ⊢
      split at h
      · cases h
      rename_i hclock
      rw [if_neg hclock]
      split at h
      · rename_i hhead
        rw [if_pos hhead, if_pos hhead, fileHeader]
      rename_i hget
      rw [if_neg hget, if_neg hget]
      cases hopen : s.openFile (buildFspath s.docroot req.path) with
      | none => rfl
      | some file =>
          rw [hopen] at h
          obtain ⟨hsound, hcopy⟩ := copyFile_of_exit h
          dsimp only
          rw [hcopy, hsound]
          rfl

/-- An answer that no `log_exit` has cut short is the one that the clock and the files give. -/
theorem answer_of_exit (h : (s.answer req).exit = none) :
    s.answer req = s.toSurroundings.answer req := by
  unfold answer at h ⊢
  unfold Surroundings.answer
  split at h
  · rename_i hget
    rw [if_pos hget, if_pos hget]
    exact fileResponse_of_exit h
  rename_i hget
  rw [if_neg hget, if_neg hget]
  split at h
  · rename_i hhead
    rw [if_pos hhead, if_pos hhead]
    exact fileResponse_of_exit h
  rename_i hhead
  rw [if_neg hhead, if_neg hhead]
  split at h
  · rename_i hpost
    rw [if_pos hpost, if_pos hpost]
    exact page_of_clock (clock_of_page h) _ _
  · rename_i hpost
    rw [if_neg hpost, if_neg hpost]
    exact page_of_clock (clock_of_page h) _ _

end Site

end NetworkProgram.Httpd
