import NetworkProgram.Libc.Input

set_option autoImplicit false

/-!
# Httpd: `read_request`

The request parser of `httpd2.c`.  A stream is the list of the bytes that the
client sends before it closes.  Every function either returns, with the bytes it
has left, or ends the process through `log_exit`; the message is kept, with the
text its `%s` prints (the text of `strerror` is not modelled).
-/

namespace NetworkProgram.Httpd

open NetworkProgram.Libc

/-- `LINE_BUF_SIZE` -/
def lineBufSize : Nat := 4096

/-- `MAX_REQUEST_BODY_LENGTH` -/
def maxRequestBodyLength : Nat := 1024 * 1024

abbrev space : UInt8 := 32
abbrev tab : UInt8 := 9
abbrev colon : UInt8 := 58

/-- `"HTTP/1."` -/
def http1 : Bytes := ascii ['H', 'T', 'T', 'P', '/', '1', '.']

def contentLengthName : Bytes :=
  ascii ['C', 'o', 'n', 't', 'e', 'n', 't', '-', 'L', 'e', 'n', 'g', 't', 'h']

/-- `struct HTTPHeaderField` -/
structure HTTPHeaderField where
  name : Bytes
  value : Bytes
  deriving DecidableEq, Repr

/-- `struct HTTPRequest` -/
structure HTTPRequest where
  protocolMinorVersion : Int
  method : Bytes
  path : Bytes
  /-- The list, last field of the stream first. -/
  header : List HTTPHeaderField
  body : Option Bytes
  length : Int
  deriving DecidableEq, Repr

/-- A call of `log_exit`. -/
structure LogExit where
  fmt : String
  arg : Option Bytes
  deriving DecidableEq, Repr

/-- What a function does with the stream. -/
abbrev Reader (α : Type) : Type := Bytes → Except LogExit (α × Bytes)

/-! ## The request line -/

def upcase (text : Bytes) : Bytes := text.map toupper

/-- The method, the path and the minor version in the text of `buf`. -/
def parseRequestLine (buf : Bytes) : Except LogExit (Bytes × Bytes × Int) :=
  match splitChr space (cstr buf) with
  | none => .error ⟨"parse error on request line (1): %s", some (cstr buf)⟩
  | some (method, path) =>
      match splitChr space path with
      | none => .error ⟨"parse error on request line (2): %s", some method⟩
      | some (path, p) =>
          if strncasecmpEq p http1 http1.length then
            .ok (upcase method, path, atoi (p.drop http1.length))
          else .error ⟨"parse error on request line (3): %s", some method⟩

def readRequestLine : Reader (Bytes × Bytes × Int) := fun input =>
  match fgets lineBufSize input with
  | none => .error ⟨"no request line", none⟩
  | some (buf, rest) => (parseRequestLine buf).map fun line => (line, rest)

/-! ## The header -/

/-- The line that ends the header: LF or CRLF. -/
def IsEmptyLine (buf : Bytes) : Prop := buf.head? = some lf ∨ cstr buf = [cr, lf]

instance (buf : Bytes) : Decidable (IsEmptyLine buf) :=
  inferInstanceAs (Decidable (_ ∨ _))

/-- The bytes that `strspn(p, " \t")` skips. -/
def isBlank (c : UInt8) : Bool := c == space || c == tab

def parseHeaderField (buf : Bytes) : Except LogExit HTTPHeaderField :=
  match splitChr colon (cstr buf) with
  | none => .error ⟨"parse error on request header field: %s", some (cstr buf)⟩
  | some (name, p) => .ok { name := name, value := p.dropWhile isBlank }

/-- One field, or none for the empty line. -/
def readHeaderField : Reader (Option HTTPHeaderField) := fun input =>
  match fgets lineBufSize input with
  | none => .error ⟨"failed to read request header field: %s", none⟩
  | some (buf, rest) =>
      if IsEmptyLine buf then .ok (none, rest)
      else (parseHeaderField buf).map fun field => (some field, rest)

theorem readHeaderField_shorter {input rest : Bytes} {field : HTTPHeaderField}
    (h : readHeaderField input = .ok (some field, rest)) : rest.length < input.length := by
  unfold readHeaderField at h
  split at h
  · cases h
  · rename_i buf left hfgets
    obtain ⟨rfl, hline⟩ := (fgets_eq_some_iff (by decide)).mp hfgets
    have hpos := List.length_pos_iff.mpr hline.nonempty
    split at h
    · cases h
    · cases hfield : parseHeaderField buf with
      | error e => rw [hfield] at h; cases h
      | ok f =>
          rw [hfield] at h
          cases h
          rw [List.length_append]
          omega

/-- The loop of `read_request` over the fields, each put in front of the list. -/
def readHeader (header : List HTTPHeaderField) (input : Bytes) :
    Except LogExit (List HTTPHeaderField × Bytes) :=
  match _h : readHeaderField input with
  | .error e => .error e
  | .ok (none, rest) => .ok (header, rest)
  | .ok (some field, rest) => readHeader (field :: header) rest
termination_by input.length
decreasing_by exact readHeaderField_shorter _h

/-! ## The body -/

/-- The value of the first field of the list with this name. -/
def lookupHeaderFieldValue (header : List HTTPHeaderField) (name : Bytes) : Option Bytes :=
  (header.find? fun h => strcasecmpEq h.name name).map HTTPHeaderField.value

def contentLength (header : List HTTPHeaderField) : Except LogExit Int :=
  match lookupHeaderFieldValue header contentLengthName with
  | none => .ok 0
  | some val =>
      if atol val < 0 then .error ⟨"negative Content-Length value", none⟩ else .ok (atol val)

/-- `fread` of one object of `length` bytes. -/
def readBody (length : Int) : Reader (Option Bytes) := fun input =>
  if length ≠ 0 then
    if length > maxRequestBodyLength then .error ⟨"request body too long", none⟩
    else if input.length < length.toNat then .error ⟨"failed to read request body", none⟩
    else .ok (some (input.take length.toNat), input.drop length.toNat)
  else .ok (none, input)

def readRequest : Reader HTTPRequest := fun input =>
  match readRequestLine input with
  | .error e => .error e
  | .ok ((method, path, minor), input) =>
      match readHeader [] input with
      | .error e => .error e
      | .ok (header, input) =>
          match contentLength header with
          | .error e => .error e
          | .ok length =>
              match readBody length input with
              | .error e => .error e
              | .ok (body, rest) =>
                  .ok ({
                    protocolMinorVersion := minor
                    method := method
                    path := path
                    header := header
                    body := body
                    length := length }, rest)

end NetworkProgram.Httpd
