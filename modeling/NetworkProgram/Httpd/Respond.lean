import NetworkProgram.Foundation.Paths
import NetworkProgram.Httpd.Request

set_option autoImplicit false

/-!
# Httpd: `respond_to`

The answer of `httpd2.c` to a request, with the paths it hands to `lstat` and
`open`.  The file system has no symbolic links and does not change while the
request is served; the date is the one the clock gives.  What `log_exit` has found
already written is still sent, since `exit` flushes the stream.
-/

namespace NetworkProgram.Httpd

open NetworkProgram.Foundation
open NetworkProgram.Libc

abbrev slash : UInt8 := 47
abbrev dot : UInt8 := 46

/-! ## The file system -/

/-- What is found under a name. -/
inductive Node
  | directory
  /-- A regular file, and whether the server may read it. -/
  | regular (content : Bytes) (readable : Bool)
  | other

/-- The nodes by the names that lead to them from the root. -/
abbrev FileSystem : Type := List Bytes → Option Node

def moveOf (name : Bytes) : Paths.Move Bytes :=
  if name = [] ∨ name = [dot] then .stay
  else if name = [dot, dot] then .up
  else .down name

def movesOf (path : Bytes) : List (Paths.Move Bytes) := (path.splitOn slash).map moveOf

/-- Where a path starts: at the root, or in the working directory. -/
def startOf (cwd : List Bytes) (path : Bytes) : List Bytes :=
  if path.head? = some slash then [] else cwd

/-- The file a path names, its `.` and `..` resolved. -/
def resolve (cwd : List Bytes) (path : Bytes) : List Bytes :=
  Paths.walk (startOf cwd path) (movesOf path)

/-- The kernel goes through directories only. -/
def follow (fs : FileSystem) (dir : List Bytes) : List (Paths.Move Bytes) → Option Node
  | [] => fs dir
  | move :: moves =>
      match fs dir with
      | some .directory => follow fs (move.apply dir) moves
      | _ => none

/-- The server's surroundings. -/
structure Env where
  fs : FileSystem
  cwd : List Bytes
  docroot : Bytes
  /-- What `strftime` makes of the time. -/
  date : Bytes

def Env.lookup (env : Env) (path : Bytes) : Option Node :=
  follow env.fs (startOf env.cwd path) (movesOf path)

/-! ## The responses -/

def text (s : String) : Bytes := ascii s.toList

/-- What a request brings about: the bytes sent, the paths given to `lstat` and
`open`, and the call of `log_exit`, if it comes to one. -/
structure Response where
  out : Bytes
  accessed : List Bytes
  exit : Option LogExit

def outputCommonHeaderFields (env : Env) (status : String) : Bytes :=
  text "HTTP/1.0 " ++ text status ++ text "\r\n" ++
    text "Date: " ++ env.date ++ text "\r\n" ++
    text "Server: LittleHTTP/1.0\r\n" ++
    text "Connection: close\r\n"

/-- `method_not_allowed` and `not_implemented` differ in the status and a word. -/
def methodPage (env : Env) (status word : String) (method : Bytes) : Bytes :=
  outputCommonHeaderFields env status ++
    text "Content-Type: text/html\r\n" ++
    text "\r\n" ++
    text "<html>\r\n" ++
    text "<header>\r\n" ++
    text "<title>" ++ text status ++ text "</title>\r\n" ++
    text "<header>\r\n" ++
    text "<body>\r\n" ++
    text "<p>The request method " ++ method ++ text " is not " ++ text word ++ text "</p>\r\n" ++
    text "</body>\r\n" ++
    text "</html>\r\n"

def methodNotAllowed (env : Env) (req : HTTPRequest) : Bytes :=
  methodPage env "405 Method Not Allowed" "allowed" req.method

def notImplemented (env : Env) (req : HTTPRequest) : Bytes :=
  methodPage env "501 Not Implemented" "implemented" req.method

def methodGet : Bytes := ascii ['G', 'E', 'T']
def methodHead : Bytes := ascii ['H', 'E', 'A', 'D']
def methodPost : Bytes := ascii ['P', 'O', 'S', 'T']

def notFound (env : Env) (req : HTTPRequest) : Bytes :=
  outputCommonHeaderFields env "404 Not Found" ++
    text "Content-Type: text/html\r\n" ++
    text "\r\n" ++
    (if req.method = methodHead then []
    else
      text "<html>\r\n" ++
        text "<header><title>Not Found</title><header>\r\n" ++
        text "<body><p>File not found</p></body>\r\n" ++
        text "</html>\r\n")

/-- `sprintf(path, "%s/%s", docroot, urlpath)` -/
def buildFspath (docroot urlpath : Bytes) : Bytes := docroot ++ slash :: urlpath

/-- `struct FileInfo`: `size` is set only where `ok` is. -/
structure FileInfo where
  path : Bytes
  size : Option Nat

def getFileinfo (env : Env) (urlpath : Bytes) : FileInfo :=
  let path := buildFspath env.docroot urlpath
  match env.lookup path with
  | some (.regular content _) => { path := path, size := some content.length }
  | _ => { path := path, size := none }

/-- `open` and the reads. -/
def openFile (env : Env) (path : Bytes) : Option Bytes :=
  match env.lookup path with
  | some (.regular content true) => some content
  | _ => none

def doFileResponse (env : Env) (req : HTTPRequest) : Response :=
  let info := getFileinfo env req.path
  match info.size with
  | none => { out := notFound env req, accessed := [info.path], exit := none }
  | some size =>
      let header := outputCommonHeaderFields env "200 OK" ++
        text "Content-Length: " ++ text (toString size) ++ text "\r\n" ++
        text "Content-Type: text/plain\r\n" ++
        text "\r\n"
      if req.method = methodHead then { out := header, accessed := [info.path], exit := none }
      else
        match openFile env info.path with
        | none =>
            { out := header
              accessed := [info.path, info.path]
              exit := some ⟨"failed to open %s: %s", some info.path⟩ }
        | some content =>
            { out := header ++ content, accessed := [info.path, info.path], exit := none }

def respondTo (env : Env) (req : HTTPRequest) : Response :=
  if req.method = methodGet then doFileResponse env req
  else if req.method = methodHead then doFileResponse env req
  else if req.method = methodPost then
    { out := methodNotAllowed env req, accessed := [], exit := none }
  else { out := notImplemented env req, accessed := [], exit := none }

/-- `service` on the bytes of one connection. -/
def service (env : Env) (input : Bytes) : Response :=
  match readRequest input with
  | .error e => { out := [], accessed := [], exit := some e }
  | .ok (req, _) => respondTo env req

end NetworkProgram.Httpd
