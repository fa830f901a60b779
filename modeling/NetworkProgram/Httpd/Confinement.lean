import NetworkProgram.Httpd.Grammar
import NetworkProgram.Httpd.Respond

set_option autoImplicit false

/-!
# Httpd: which files a response looks at

The path of the request goes into the file name as it is, behind the document
root and a slash.  So the file lies below the document root exactly when the path
comes down again by the names it has climbed; with `--chroot` the document root is
the root, above which there is nothing.
-/

namespace NetworkProgram.Httpd

open NetworkProgram.Foundation
open NetworkProgram.Libc

/-- The directory that the requests are served from. -/
def Env.root (env : Env) : List Bytes := resolve env.cwd (env.docroot ++ [slash])

/-- The response looks at files below the document root only. -/
def Confined (env : Env) (response : Response) : Prop :=
  ∀ path ∈ response.accessed, env.root <+: resolve env.cwd path

/-- GET and HEAD are the methods that look at files. -/
def LooksAtFiles (req : HTTPRequest) : Prop := req.method = methodGet ∨ req.method = methodHead

theorem movesOf_append_slash (left right : Bytes) :
    movesOf (left ++ slash :: right) = movesOf left ++ movesOf right := by
  rw [movesOf, List.splitOn_append_cons_self, List.map_append]
  rfl

/-- The file is found by walking from the document root. -/
theorem resolve_buildFspath (env : Env) (urlpath : Bytes) :
    resolve env.cwd (buildFspath env.docroot urlpath) =
      Paths.walk env.root (movesOf urlpath) := by
  have hstart : startOf env.cwd (env.docroot ++ slash :: urlpath) =
      startOf env.cwd (env.docroot ++ [slash]) := by
    cases env.docroot <;> rfl
  have hroot : env.root = Paths.walk (startOf env.cwd (env.docroot ++ [slash]))
      (movesOf env.docroot) := by
    rw [Env.root, resolve, movesOf_append_slash, Paths.walk_append]
    rfl
  rw [resolve, buildFspath, hstart, movesOf_append_slash, Paths.walk_append, hroot]

/-- Every path that is looked at is the one built from the request. -/
theorem accessed_eq (env : Env) (req : HTTPRequest) :
    ((respondTo env req).accessed ≠ [] ↔ LooksAtFiles req) ∧
      ∀ path ∈ (respondTo env req).accessed, path = buildFspath env.docroot req.path := by
  have hpath : (getFileinfo env req.path).path = buildFspath env.docroot req.path := by
    unfold getFileinfo
    dsimp only
    split <;> rfl
  have hfile : (doFileResponse env req).accessed ≠ [] ∧
      ∀ path ∈ (doFileResponse env req).accessed, path = buildFspath env.docroot req.path := by
    rw [← hpath]
    unfold doFileResponse
    dsimp only
    split
    · simp
    · split
      · simp
      · split <;> simp
  unfold respondTo LooksAtFiles
  split
  · rename_i hget
    exact ⟨iff_of_true hfile.1 (.inl hget), hfile.2⟩
  · rename_i hget
    split
    · rename_i hhead
      exact ⟨iff_of_true hfile.1 (.inr hhead), hfile.2⟩
    · rename_i hhead
      split <;> simp [hget, hhead]

/-- A response is confined to the document root exactly when it looks at no file,
or the path of the request comes down again by the names it has climbed. -/
theorem respondTo_confined_iff (env : Env) (req : HTTPRequest) :
    Confined env (respondTo env req) ↔
      (LooksAtFiles req → (Paths.normal (movesOf req.path)).Retraces env.root) := by
  obtain ⟨hlooks, hpath⟩ := accessed_eq env req
  rw [← Paths.below_walk_iff, ← resolve_buildFspath]
  constructor
  · intro hconfined looks
    obtain ⟨path, paths, haccessed⟩ := List.exists_cons_of_ne_nil (hlooks.mpr looks)
    have hmem : path ∈ (respondTo env req).accessed := haccessed ▸ List.mem_cons_self
    exact hpath path hmem ▸ hconfined path hmem
  · intro hretraces path hmem
    rw [hpath path hmem]
    exact hretraces (hlooks.mp (List.ne_nil_of_mem hmem))

/-- With `--chroot` the document root is the empty name in front of the slash. -/
theorem respondTo_confined_of_chroot {env : Env} (chroot : env.docroot = [])
    (req : HTTPRequest) : Confined env (respondTo env req) := by
  have hroot : env.root = [] := by
    rw [Env.root, chroot]
    rfl
  rw [respondTo_confined_iff, hroot]
  exact fun _ => Paths.Normal.retraces_root _

/-- A path that never climbs above where it starts stays inside any document root. -/
theorem respondTo_confined_of_no_climb (env : Env) {req : HTTPRequest}
    (noClimb : (Paths.normal (movesOf req.path)).climb = 0) :
    Confined env (respondTo env req) :=
  (respondTo_confined_iff env req).mpr fun _ =>
    Paths.Normal.retraces_of_climb_eq_zero noClimb env.root

/-- What is served for a stream of bytes looks at files below the document root
only, exactly when the request in it, if there is one, does not ask for a file, or
its path comes down again by the names it has climbed. -/
theorem service_confined_iff (env : Env) (input : Bytes) :
    Confined env (service env input) ↔
      ∀ req rest, readRequest input = .ok (req, rest) → LooksAtFiles req →
        (Paths.normal (movesOf req.path)).Retraces env.root := by
  unfold service
  cases hread : readRequest input with
  | error e =>
      refine iff_of_true (fun path hmem => absurd hmem List.not_mem_nil) fun req rest h => ?_
      cases h
  | ok result =>
      obtain ⟨req, rest⟩ := result
      dsimp only
      rw [respondTo_confined_iff]
      constructor
      · intro hretraces req' rest' h
        cases h
        exact hretraces
      · intro hretraces
        exact hretraces req rest rfl

/-- `/etc/passwd` -/
def passwd : List Bytes := [ascii ['e', 't', 'c'], ascii ['p', 'a', 's', 's', 'w', 'd']]

/-- A server of the files in `/srv`. -/
def srvEnv : Env where
  fs := fun path => if path = passwd then some (.regular (ascii ['r']) true) else some .directory
  cwd := []
  docroot := ascii ['/', 's', 'r', 'v']
  date := []

/-- `GET /../etc/passwd HTTP/1.0` -/
def climbingLine : Bytes :=
  ascii ['G', 'E', 'T', ' ', '/', '.', '.', '/', 'e', 't', 'c', '/', 'p', 'a', 's', 's', 'w', 'd',
    ' ', 'H', 'T', 'T', 'P', '/', '1', '.', '0', '\n']

theorem climbing_not_confined :
    (∃ path ∈ (service srvEnv (climbingLine ++ [lf])).accessed,
        resolve srvEnv.cwd path = passwd) ∧
      ¬ Confined srvEnv (service srvEnv (climbingLine ++ [lf])) := by
  have hline : readRequestLine (climbingLine ++ [lf]) =
      .ok ((methodGet, ascii ['/', '.', '.', '/', 'e', 't', 'c', '/', 'p', 'a', 's', 's', 'w',
        'd'], 0), [lf]) := rfl
  have haccessed : ∃ path ∈ (service srvEnv (climbingLine ++ [lf])).accessed,
      resolve srvEnv.cwd path = passwd := by
    simp only [service, readRequest, hline, readHeader_newline]
    refine ⟨_, List.mem_cons_self, ?_⟩
    decide
  refine ⟨haccessed, fun hconfined => ?_⟩
  obtain ⟨path, hmem, hpasswd⟩ := haccessed
  have hbelow := hconfined path hmem
  rw [hpasswd] at hbelow
  exact absurd hbelow (by decide)

end NetworkProgram.Httpd
