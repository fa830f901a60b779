import NetworkProgram.Foundation.Runs
import NetworkProgram.Httpd.Answer

set_option autoImplicit false

/-!
# Httpd: a transfer while the file changes

`do_file_response` looks at the file three times: `lstat` by its name for the size, `open`
by its name again, and the reads through the descriptor.  Other processes may change the
disk between any two of these, and nothing is compared afterwards, so the body is as long
as `Content-Length` says only if the opened file has the size that `lstat` found.
-/

namespace NetworkProgram.Httpd

open NetworkProgram.Foundation
open NetworkProgram.Libc

/-- `BLOCK_BUF_SIZE` -/
def blockBufSize : Nat := 1024

/-! ## The disk -/

inductive Inode
  | regular (content : Bytes)
  /-- A symbolic link, and the file it leads to in the end. -/
  | link (target : Option Nat)
  | other

/-- The files, and the one with the path's name. -/
structure Disk where
  named : Option Nat
  inode : Nat → Inode

/-- `lstat` of the path, if it finds a regular file. -/
def Disk.size (disk : Disk) : Option Nat :=
  match disk.named.map disk.inode with
  | some (.regular content) => some content.length
  | _ => none

/-- The file that `open` of the path finds. -/
def Disk.target (disk : Disk) : Option Nat :=
  match disk.named with
  | none => none
  | some file =>
      match disk.inode file with
      | .link target => target
      | _ => some file

/-- What `read` may return for a file behind so many bytes: from a regular file its next
bytes, at least one unless there is none. -/
def Inode.Reads (inode : Inode) (offset : Nat) (buf : Bytes) : Prop :=
  buf.length ≤ blockBufSize ∧
    match inode with
    | .regular content => buf <+: content.drop offset ∧ (buf = [] → content.length ≤ offset)
    | _ => True

instance (inode : Inode) (offset : Nat) (buf : Bytes) : Decidable (inode.Reads offset buf) := by
  unfold Inode.Reads
  cases inode <;> exact inferInstance

def Inode.HasSize (inode : Inode) (size : Nat) : Prop :=
  match inode with
  | .regular content => content.length = size
  | _ => False

instance (inode : Inode) (size : Nat) : Decidable (inode.HasSize size) := by
  unfold Inode.HasSize
  cases inode <;> exact inferInstance

/-! ## The transfer -/

/-- Where `do_file_response` is, with `info->size`, the opened file and the body sent. -/
inductive Phase
  | looking
  | opening (size : Nat)
  | reading (size : Nat) (file : Nat) (sent : Bytes)
  | complete (size : Nat) (sent : Bytes)
  /-- Answered with 404. -/
  | missing
  /-- Ended by `log_exit`. -/
  | exited (size : Nat) (sent : Bytes)

structure Transfer where
  disk : Disk
  phase : Phase

inductive Act
  /-- Another process writes, truncates, replaces, removes. -/
  | change (disk : Disk)
  | lstat
  /-- `open`, and whether it is permitted. -/
  | openFile (permitted : Bool)
  /-- `read`, what it returns, and whether `fwrite` succeeds. -/
  | read (answer : Option Bytes) (written : Bool)

def Phase.afterLstat (disk : Disk) : Phase :=
  match disk.size with
  | some size => .opening size
  | none => .missing

def Phase.afterOpen (disk : Disk) (size : Nat) (permitted : Bool) : Phase :=
  match disk.target with
  | some file => if permitted then .reading size file [] else .exited size []
  | none => .exited size []

def Phase.afterRead (size file : Nat) (sent : Bytes) (answer : Option Bytes) (written : Bool) :
    Phase :=
  match answer with
  | none => .exited size sent
  | some buf =>
      if buf = [] then .complete size sent
      else if written then .reading size file (sent ++ buf)
      else .exited size sent

/-- The steps of `do_file_response` for GET, and of the other processes. -/
def Transfer.step (s : Transfer) : Act → Option Transfer
  | .change disk => some { s with disk := disk }
  | .lstat =>
      match s.phase with
      | .looking => some { s with phase := .afterLstat s.disk }
      | _ => none
  | .openFile permitted =>
      match s.phase with
      | .opening size => some { s with phase := .afterOpen s.disk size permitted }
      | _ => none
  | .read answer written =>
      match s.phase with
      | .reading size file sent =>
          if ∀ buf ∈ answer, (s.disk.inode file).Reads sent.length buf then
            some { s with phase := .afterRead size file sent answer written }
          else none
      | _ => none

/-- What a step can do. -/
inductive Moves (s : Transfer) : Act → Transfer → Prop
  | change (disk : Disk) : Moves s (.change disk) { s with disk := disk }
  | lstat (hphase : s.phase = .looking) : Moves s .lstat { s with phase := .afterLstat s.disk }
  | openFile {size : Nat} {permitted : Bool} (hphase : s.phase = .opening size) :
      Moves s (.openFile permitted) { s with phase := .afterOpen s.disk size permitted }
  | read {size file : Nat} {sent : Bytes} {answer : Option Bytes} {written : Bool}
      (hphase : s.phase = .reading size file sent)
      (hreads : ∀ buf ∈ answer, (s.disk.inode file).Reads sent.length buf) :
      Moves s (.read answer written) { s with phase := .afterRead size file sent answer written }

theorem moves_of_step {s t : Transfer} {a : Act} (hstep : s.step a = some t) : Moves s a t := by
  cases a with
  | change disk =>
      obtain rfl := Option.some.inj hstep
      exact .change disk
  | lstat =>
      cases hphase : s.phase <;> simp only [Transfer.step, hphase, reduceCtorEq] at hstep
      obtain rfl := Option.some.inj hstep
      exact .lstat hphase
  | openFile permitted =>
      cases hphase : s.phase <;> simp only [Transfer.step, hphase, reduceCtorEq] at hstep
      obtain rfl := Option.some.inj hstep
      exact .openFile hphase
  | read answer written =>
      cases hphase : s.phase <;> simp only [Transfer.step, hphase, reduceCtorEq] at hstep
      obtain ⟨hreads, hstep⟩ := Option.ite_none_right_eq_some.mp hstep
      obtain rfl := Option.some.inj hstep
      exact .read hphase hreads

def Transfer.start (disk : Disk) : Transfer where
  disk := disk
  phase := .looking

/-- What has been sent. -/
def Phase.out (tm : Tm) : Phase → Bytes
  | .looking => []
  | .opening size => headerBlock tm (some size)
  | .reading size _ sent => headerBlock tm (some size) ++ sent
  | .complete size sent => headerBlock tm (some size) ++ sent
  | .missing => headerBlock tm none ++ notFoundBody
  | .exited size sent => headerBlock tm (some size) ++ sent

/-! ## The length of the body -/

/-- The body sent is no longer than announced, and as long once it is complete. -/
def Phase.Announced : Phase → Prop
  | .reading size _ sent => sent.length ≤ size
  | .complete size sent => sent.length = size
  | _ => True

/-- At a read, the opened file has the size that `lstat` has found. -/
def Steady (s : Transfer) : Act → Prop
  | .read _ _ =>
      match s.phase with
      | .reading size file _ => (s.disk.inode file).HasSize size
      | _ => True
  | _ => True

instance (s : Transfer) (a : Act) : Decidable (Steady s a) := by
  unfold Steady
  cases a with
  | read answer written => cases s.phase <;> exact inferInstance
  | _ => exact inferInstance

theorem announced_afterOpen (disk : Disk) (size : Nat) (permitted : Bool) :
    (Phase.afterOpen disk size permitted).Announced := by
  unfold Phase.afterOpen
  split
  · split
    · exact Nat.zero_le _
    · trivial
  · trivial

theorem announced_afterRead {inode : Inode} {size file : Nat} {sent : Bytes}
    {answer : Option Bytes} {written : Bool} (hsize : inode.HasSize size)
    (hreads : ∀ buf ∈ answer, inode.Reads sent.length buf) (hsent : sent.length ≤ size) :
    (Phase.afterRead size file sent answer written).Announced := by
  cases answer with
  | none => trivial
  | some buf =>
      cases inode with
      | link target => exact absurd hsize id
      | other => exact absurd hsize id
      | regular content =>
          have hsize : content.length = size := hsize
          obtain ⟨-, hnext, hend⟩ := hreads buf rfl
          have hlen := hnext.length_le
          rw [List.length_drop] at hlen
          unfold Phase.afterRead
          dsimp only
          split
          · rename_i hnil
            have hall := hend hnil
            change sent.length = size
            omega
          · split
            · change (sent ++ buf).length ≤ size
              rw [List.length_append]
              omega
            · trivial

theorem announced_step {s t : Transfer} {a : Act} (h : s.phase.Announced) (hsteady : Steady s a)
    (hstep : s.step a = some t) : t.phase.Announced := by
  cases moves_of_step hstep with
  | change disk => exact h
  | lstat hphase =>
      unfold Phase.afterLstat
      dsimp only
      split <;> trivial
  | openFile hphase => exact announced_afterOpen _ _ _
  | read hphase hreads =>
      unfold Steady at hsteady
      rw [hphase] at h hsteady
      exact announced_afterRead hsteady hreads h

/-- In every interleaving in which the opened file has at each read the size that `lstat`
found, a completed transfer has sent as many bytes as the header announces. -/
theorem transfer_length (tm : Tm) {disk : Disk} {acts : List Act} {t : Transfer} {size : Nat}
    {sent : Bytes} (run : exec (guarded Steady Transfer.step) (.start disk) acts = some t)
    (hcomplete : t.phase = .complete size sent) :
    t.phase.out tm = headerBlock tm (some size) ++ sent ∧ sent.length = size := by
  have hannounced : t.phase.Announced := by
    refine Reaches.invariant (I := fun s : Transfer => s.phase.Announced) (Reaches.of_exec run)
      trivial ?_
    intro s a u hs hmove
    obtain ⟨hsteady, hstep⟩ := guarded_eq_some.mp hmove
    exact announced_step hs hsteady hstep
  rw [hcomplete] at hannounced ⊢
  exact ⟨rfl, hannounced⟩

/-- A disk with one file. -/
def oneInode (content : Bytes) : Disk where
  named := some 0
  inode := fun _ => .regular content

/-- The transfer of a file of one byte. -/
theorem transfer_length_one_byte :
    (Phase.complete 1 [97]).out oneFile.tm = headerBlock oneFile.tm (some 1) ++ [97] ∧
      ([97] : Bytes).length = 1 := by
  have run : exec (guarded Steady Transfer.step) (.start (oneInode [97]))
      [.lstat, .openFile true, .read (some [97]) true, .read (some []) true] =
        some ⟨oneInode [97], .complete 1 [97]⟩ := rfl
  exact transfer_length oneFile.tm run rfl

/-- A file that grows between `lstat` and `open`: more bytes are sent than announced. -/
theorem transfer_grown :
    exec Transfer.step (.start (oneInode [97]))
        [.lstat, .change (oneInode [97, 98]), .openFile true, .read (some [97, 98]) true,
          .read (some []) true] = some ⟨oneInode [97, 98], .complete 1 [97, 98]⟩ ∧
      ¬ ∀ (disk : Disk) (acts : List Act) (t : Transfer) (size : Nat) (sent : Bytes),
        exec Transfer.step (.start disk) acts = some t → t.phase = .complete size sent →
          sent.length = size := by
  have run : exec Transfer.step (.start (oneInode [97]))
      [.lstat, .change (oneInode [97, 98]), .openFile true, .read (some [97, 98]) true,
        .read (some []) true] = some ⟨oneInode [97, 98], .complete 1 [97, 98]⟩ := rfl
  exact ⟨run, fun h => absurd (h _ _ _ _ _ run rfl) (by decide)⟩

/-! ## Without a change -/

/-- What the kernel says about a disk that nobody changes. -/
def Disk.surroundings (disk : Disk) (docroot : Bytes) (tm : Tm) : Surroundings where
  docroot := docroot
  tm := tm
  lstat := fun _ => disk.named.map fun file =>
    match disk.inode file with
    | .regular content => { regular := true, size := content.length }
    | _ => { regular := false, size := 0 }
  openFile := fun _ =>
    match disk.target.map disk.inode with
    | some (.regular content) => some { content := content, broken := false }
    | _ => none

/-- No other process takes a step. -/
def Quiet (_ : Transfer) : Act → Prop
  | .change _ => False
  | _ => True

instance (s : Transfer) (a : Act) : Decidable (Quiet s a) := by
  unfold Quiet
  cases a <;> exact inferInstance

/-- The path's name is the one of a regular file with this content. -/
def Disk.Holds (disk : Disk) (file : Nat) (content : Bytes) : Prop :=
  disk.named = some file ∧ disk.inode file = .regular content

/-- How far a transfer is that nobody disturbs. -/
def Phase.Undisturbed (disk : Disk) : Phase → Prop
  | .opening size => ∃ file content, disk.Holds file content ∧ size = content.length
  | .reading size file sent =>
      ∃ content, disk.Holds file content ∧ size = content.length ∧ sent <+: content
  | .complete size sent =>
      ∃ file content, disk.Holds file content ∧ size = content.length ∧ sent = content
  | _ => True

theorem undisturbed_afterLstat (disk : Disk) : (Phase.afterLstat disk).Undisturbed disk := by
  unfold Phase.afterLstat Disk.size
  cases hnamed : disk.named with
  | none => trivial
  | some file =>
      rw [Option.map_some]
      cases hinode : disk.inode file with
      | regular content => exact ⟨file, content, ⟨hnamed, hinode⟩, rfl⟩
      | link target => trivial
      | other => trivial

theorem undisturbed_afterOpen {disk : Disk} {size : Nat} {permitted : Bool}
    (h : (Phase.opening size).Undisturbed disk) :
    (Phase.afterOpen disk size permitted).Undisturbed disk := by
  obtain ⟨file, content, ⟨hnamed, hinode⟩, hsize⟩ := h
  have htarget : disk.target = some file := by
    unfold Disk.target
    rw [hnamed]
    dsimp only
    rw [hinode]
  unfold Phase.afterOpen
  rw [htarget]
  dsimp only
  split
  · exact ⟨content, ⟨hnamed, hinode⟩, hsize, List.nil_prefix⟩
  · trivial

/-- The next bytes of the file are sent. -/
theorem undisturbed_afterRead {disk : Disk} {size file : Nat} {sent : Bytes}
    {answer : Option Bytes} {written : Bool} (h : (Phase.reading size file sent).Undisturbed disk)
    (hreads : ∀ buf ∈ answer, (disk.inode file).Reads sent.length buf) :
    (Phase.afterRead size file sent answer written).Undisturbed disk := by
  obtain ⟨content, hholds, hsize, hprefix⟩ := h
  cases answer with
  | none => trivial
  | some buf =>
      have hnext := hreads buf rfl
      rw [hholds.2] at hnext
      obtain ⟨-, hbuf, hend⟩ := hnext
      obtain ⟨rest, rfl⟩ := hprefix
      rw [List.drop_left] at hbuf
      unfold Phase.afterRead
      dsimp only
      split
      · rename_i hnil
        have hall := hend hnil
        rw [List.length_append] at hall
        obtain rfl : rest = [] := List.length_eq_zero_iff.mp (by omega)
        exact ⟨file, _, hholds, hsize, (List.append_nil _).symm⟩
      · split
        · exact ⟨_, hholds, hsize, (List.prefix_append_right_inj sent).mpr hbuf⟩
        · trivial

theorem undisturbed_step {disk : Disk} {s t : Transfer} {a : Act}
    (h : s.disk = disk ∧ s.phase.Undisturbed disk) (hquiet : Quiet s a)
    (hstep : s.step a = some t) : t.disk = disk ∧ t.phase.Undisturbed disk := by
  obtain ⟨rfl, hundisturbed⟩ := h
  cases moves_of_step hstep with
  | change disk => exact absurd hquiet id
  | lstat hphase => exact ⟨rfl, undisturbed_afterLstat _⟩
  | openFile hphase => exact ⟨rfl, undisturbed_afterOpen (hphase ▸ hundisturbed)⟩
  | read hphase hreads => exact ⟨rfl, undisturbed_afterRead (hphase ▸ hundisturbed) hreads⟩

/-- A completed transfer that nobody disturbs is the answer to GET. -/
theorem undisturbed_answer (docroot : Bytes) (tm : Tm) {disk : Disk} {acts : List Act}
    {t : Transfer} {size : Nat} {sent : Bytes}
    (run : exec (guarded Quiet Transfer.step) (.start disk) acts = some t)
    (hcomplete : t.phase = .complete size sent) {req : HTTPRequest}
    (hget : req.method = methodGet) :
    t.phase.out tm = ((disk.surroundings docroot tm).answer req).out := by
  have hphase : t.disk = disk ∧ t.phase.Undisturbed disk := by
    refine Reaches.invariant (I := fun s : Transfer => s.disk = disk ∧ s.phase.Undisturbed disk)
      (Reaches.of_exec run) ⟨rfl, trivial⟩ ?_
    intro s a u hs hmove
    obtain ⟨hquiet, hstep⟩ := guarded_eq_some.mp hmove
    exact undisturbed_step hs hquiet hstep
  rw [hcomplete] at hphase ⊢
  obtain ⟨-, file, content, ⟨hnamed, hinode⟩, rfl, rfl⟩ := hphase
  have hne : req.method ≠ methodHead := by
    rw [hget]
    decide
  have hsize : (disk.surroundings docroot tm).fileSize req.path = some sent.length := by
    simp [Surroundings.fileSize, Disk.surroundings, hnamed, hinode]
  have hopen : ∀ path, (disk.surroundings docroot tm).openFile path =
      some { content := sent, broken := false } := by
    intro path
    simp [Disk.surroundings, Disk.target, hnamed, hinode]
  have hfile : (disk.surroundings docroot tm).answer req =
      (disk.surroundings docroot tm).fileResponse req := if_pos hget
  rw [hfile]
  unfold Surroundings.fileResponse
  rw [hsize]
  dsimp only
  rw [if_neg hne, fileHeader_eq, hopen]
  rfl

end NetworkProgram.Httpd
