import NetworkProgram.Foundation.Heap
import NetworkProgram.Httpd.Failures
import NetworkProgram.Libc.Blocks

set_option autoImplicit false

/-!
# Httpd: `service` with its heap

The functions of `httpd2.c` once more, with the blocks that `xmalloc` gives them: the
structures with their pointers, and the strings that these point to.  `malloc` may fail, and so
may the clock, the file and the socket.  What is on the stack, and what is sent, is as in the
model without a heap.  A read of the request that fails counts as the end of the stream.
-/

namespace NetworkProgram.Httpd.Allocation

open NetworkProgram.Foundation
open NetworkProgram.Libc

/-! ## The blocks -/

/-- `struct HTTPHeaderField`; a member is `none` before it is set. -/
structure FieldBlock where
  name : Option Pointer
  value : Option Pointer
  next : Option Pointer

/-- `struct HTTPRequest` -/
structure RequestBlock where
  protocolMinorVersion : Option Int
  method : Option Pointer
  path : Option Pointer
  header : Option Pointer
  body : Option Pointer
  length : Option Int

/-- `struct FileInfo` -/
structure InfoBlock where
  path : Option Pointer
  size : Option Nat
  ok : Option Bool

inductive Block
  | chars (cells : Cells)
  | field (block : FieldBlock)
  | request (block : RequestBlock)
  | info (block : InfoBlock)

namespace Block

def asChars : Block → Option Cells
  | chars cells => some cells
  | _ => none

def asField : Block → Option FieldBlock
  | field block => some block
  | _ => none

def asRequest : Block → Option RequestBlock
  | request block => some block
  | _ => none

def asInfo : Block → Option InfoBlock
  | info block => some block
  | _ => none

/-- What `malloc(sizeof(struct …))` gives. -/
def freshField : Block := field ⟨none, none, none⟩

def freshRequest : Block := request ⟨none, none, none, none, none, none⟩

def freshInfo : Block := info ⟨none, none, none⟩

end Block

/-- A program that `log_exit` may end, with what was sent until then. -/
abbrev Program (α : Type) : Type := HeapProgram Block Response α

variable {α : Type}

/-- Nothing was sent. -/
def silent (e : LogExit) : Response where
  out := []
  accessed := []
  exit := some e

def logExit (e : LogExit) : Program α := HeapProgram.exit (silent e)

/-- The string that a pointer points to. -/
def string (p : Pointer) : Program Bytes := HeapProgram.read p fun b => b.asChars.bind Cells.string

def changeChars (change : Cells → Option Cells) (p : Pointer) : Program Unit :=
  HeapProgram.write p fun b => (b.asChars.bind change).map Block.chars

def strcpy (p : Pointer) (text : Bytes) : Program Unit := changeChars (Cells.strcpy text) p

def upcase (p : Pointer) : Program Unit := changeChars Cells.upcase p

/-- `h->member` -/
def getField (h : Pointer) (member : FieldBlock → Option α) : Program α :=
  HeapProgram.read h fun b => b.asField.bind member

def setField (h : Pointer) (change : FieldBlock → FieldBlock) : Program Unit :=
  HeapProgram.write h fun b => b.asField.map fun block => .field (change block)

/-- `req->member` -/
def getRequest (req : Pointer) (member : RequestBlock → Option α) : Program α :=
  HeapProgram.read req fun b => b.asRequest.bind member

def setRequest (req : Pointer) (change : RequestBlock → RequestBlock) : Program Unit :=
  HeapProgram.write req fun b => b.asRequest.map fun block => .request (change block)

/-- `info->member` -/
def getInfo (info : Pointer) (member : InfoBlock → Option α) : Program α :=
  HeapProgram.read info fun b => b.asInfo.bind member

def setInfo (info : Pointer) (change : InfoBlock → InfoBlock) : Program Unit :=
  HeapProgram.write info fun b => b.asInfo.map fun block => .info (change block)

section Functions

-- Whether `malloc` has room: by the number of the call and the size.
variable (grants : Nat → Nat → Bool)

def outOfMemory : LogExit := ⟨"failed to allocate memory", none⟩

def xmalloc (size : Nat) (b : Block) : Program Pointer := do
  let p ← HeapProgram.malloc grants size b
  match p with
  | none => logExit outOfMemory
  | some d => pure (some d)

/-- `xmalloc` and `strcpy` -/
def newString (text : Bytes) : Program Pointer := do
  let p ← xmalloc grants (text.length + 1) (.chars (Cells.fresh (text.length + 1)))
  strcpy p text
  pure p

/-! ## `read_request` -/

def readRequestLine (req : Pointer) (input : Bytes) : Program Bytes :=
  match fgets lineBufSize input with
  | none => logExit ⟨"no request line", none⟩
  | some (buf, rest) =>
      match splitChr space (cstr buf) with
      | none => logExit ⟨"parse error on request line (1): %s", some (cstr buf)⟩
      | some (method, path) => do
          let p ← newString grants method
          setRequest req fun r => { r with method := some p }
          upcase p
          match splitChr space path with
          | none => logExit ⟨"parse error on request line (2): %s", some method⟩
          | some (path, version) =>
              let q ← newString grants path
              setRequest req fun r => { r with path := some q }
              if strncasecmpEq version http1 http1.length then
                let minor := atoi (version.drop http1.length)
                setRequest req fun r => { r with protocolMinorVersion := some minor }
                pure rest
              else logExit ⟨"parse error on request line (3): %s", some method⟩

/-- `read_header_field` on a line that does not end the header. -/
def newField (buf : Bytes) : Program Pointer :=
  match splitChr colon (cstr buf) with
  | none => logExit ⟨"parse error on request header field: %s", some (cstr buf)⟩
  | some (name, p) => do
      let h ← xmalloc grants 24 .freshField
      let name ← newString grants name
      setField h fun f => { f with name := some name }
      let value ← newString grants (p.dropWhile isBlank)
      setField h fun f => { f with value := some value }
      pure h

/-- The loop of `read_request` over `read_header_field`. -/
def readHeader (req : Pointer) (input : Bytes) : Program Bytes :=
  match _h : fgets lineBufSize input with
  | none => logExit ⟨"failed to read request header field: %s", none⟩
  | some (buf, rest) =>
      if IsEmptyLine buf then pure rest
      else do
        let h ← newField grants buf
        let header ← getRequest req RequestBlock.header
        setField h fun f => { f with next := some header }
        setRequest req fun r => { r with header := some h }
        readHeader req rest
termination_by input.length
decreasing_by
  obtain ⟨rfl, hline⟩ := (fgets_eq_some_iff (Nat.le_of_ble_eq_true rfl)).mp _h
  have hpos := List.length_pos_iff.mpr hline.nonempty
  rw [List.length_append]
  omega

/-- `for (h = req->header; h; h = h->next)`, for `rounds` rounds at most. -/
def lookupHeaderFieldValue (name : Bytes) : Nat → Pointer → Program Pointer
  | _, none => pure none
  | 0, some _ => HeapProgram.undefined
  | rounds + 1, some h => do
      let p ← getField (some h) FieldBlock.name
      let text ← string p
      if strcasecmpEq text name then getField (some h) FieldBlock.value
      else
        let next ← getField (some h) FieldBlock.next
        lookupHeaderFieldValue name rounds next

/-- A list has no more fields than there were blocks. -/
def contentLength (req : Pointer) : Program Int := do
  let header ← getRequest req RequestBlock.header
  let rounds ← HeapProgram.asked
  let val ← lookupHeaderFieldValue contentLengthName rounds header
  match val with
  | none => pure 0
  | some p =>
      let val ← string (some p)
      if atol val < 0 then logExit ⟨"negative Content-Length value", none⟩ else pure (atol val)

/-- `fread(req->body, req->length, 1, in)` -/
def readBody (req : Pointer) (length : Int) (input : Bytes) : Program Unit :=
  if length ≠ 0 then
    if length > maxRequestBodyLength then logExit ⟨"request body too long", none⟩
    else do
      let size := length.toNat
      let body ← xmalloc grants size (.chars (Cells.fresh size))
      setRequest req fun r => { r with body := some body }
      changeChars (Cells.store (input.take size)) body
      if input.length < size then logExit ⟨"failed to read request body", none⟩ else pure ()
  else setRequest req fun r => { r with body := some none }

def readRequest (input : Bytes) : Program Pointer := do
  let req ← xmalloc grants 48 .freshRequest
  let input ← readRequestLine grants req input
  setRequest req fun r => { r with header := some none }
  let input ← readHeader grants req input
  let length ← contentLength req
  setRequest req fun r => { r with length := some length }
  readBody grants req length input
  pure req

/-! ## `respond_to` -/

def buildFspath (docroot urlpath : Bytes) : Program Pointer :=
  newString grants (Httpd.buildFspath docroot urlpath)

def getFileinfo (site : Site) (urlpath : Bytes) : Program Pointer := do
  let info ← xmalloc grants 24 .freshInfo
  let path ← buildFspath grants site.docroot urlpath
  setInfo info fun i => { i with path := some path, ok := some false }
  let path ← string path
  match site.lstat path with
  | none => pure info
  | some st =>
      if st.regular then do
        setInfo info fun i => { i with ok := some true, size := some st.size }
        pure info
      else pure info

def freeFileinfo (info : Pointer) : Program Unit := do
  let path ← getInfo info InfoBlock.path
  HeapProgram.free path
  HeapProgram.free info

/-- What the pages are made of: the method of the request is all they show. -/
def withMethod (method : Bytes) : HTTPRequest where
  protocolMinorVersion := 0
  method := method
  path := []
  header := []
  body := none
  length := 0

/-- `output_common_header_fields` ends the process if `gmtime` fails. -/
def checkClock (site : Site) (accessed : List Bytes) : Program Unit :=
  if site.clockFails then HeapProgram.exit (Site.clockExit accessed) else pure ()

def doFileResponse (site : Site) (req : Pointer) : Program Response := do
  let urlpath ← string (← getRequest req RequestBlock.path)
  let info ← getFileinfo grants site urlpath
  let path ← string (← getInfo info InfoBlock.path)
  if ¬ (← getInfo info InfoBlock.ok) then
    freeFileinfo info
    checkClock site [path]
    let method ← string (← getRequest req RequestBlock.method)
    pure { out := site.notFound (withMethod method), accessed := [path], exit := none }
  else
    checkClock site [path]
    let size ← getInfo info InfoBlock.size
    let header := site.fileHeader size
    let method ← string (← getRequest req RequestBlock.method)
    if method = methodHead then
      freeFileinfo info
      pure { out := header, accessed := [path], exit := none }
    else
      match site.openFile path with
      | none =>
          HeapProgram.exit
            { out := header
              accessed := [path, path]
              exit := some ⟨"failed to open %s: %s", some path⟩ }
      | some file =>
          let copied := copyFile site.room path file
          let response : Response :=
            { out := header ++ copied.1, accessed := [path, path], exit := copied.2 }
          if copied.2.isSome then HeapProgram.exit response
          else
            freeFileinfo info
            pure response

def respondTo (site : Site) (req : Pointer) : Program Response := do
  let method ← string (← getRequest req RequestBlock.method)
  if method = methodGet then doFileResponse grants site req
  else if method = methodHead then doFileResponse grants site req
  else if method = methodPost then
    checkClock site []
    let out := site.methodPage "405 Method Not Allowed" "allowed" method
    pure { out := out, accessed := [], exit := none }
  else
    checkClock site []
    let out := site.methodPage "501 Not Implemented" "implemented" method
    pure { out := out, accessed := [], exit := none }

/-! ## `free_request` -/

/-- `while (head)`, for `rounds` rounds at most. -/
def freeHeader : Nat → Pointer → Program Unit
  | _, none => pure ()
  | 0, some _ => HeapProgram.undefined
  | rounds + 1, some h => do
      let head ← getField (some h) FieldBlock.next
      HeapProgram.free (← getField (some h) FieldBlock.name)
      HeapProgram.free (← getField (some h) FieldBlock.value)
      HeapProgram.free (some h)
      freeHeader rounds head

def freeRequest (req : Pointer) : Program Unit := do
  let head ← getRequest req RequestBlock.header
  let rounds ← HeapProgram.asked
  freeHeader rounds head
  HeapProgram.free (← getRequest req RequestBlock.method)
  HeapProgram.free (← getRequest req RequestBlock.path)
  HeapProgram.free (← getRequest req RequestBlock.body)
  HeapProgram.free req

def service (site : Site) (input : Bytes) : Program Response := do
  let req ← readRequest grants input
  let response ← respondTo grants site req
  freeRequest req
  pure response

end Functions

end NetworkProgram.Httpd.Allocation
