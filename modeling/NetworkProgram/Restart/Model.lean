import NetworkProgram.Foundation.Runs
import NetworkProgram.Kernel.Descriptors
import NetworkProgram.Kernel.Signals

set_option autoImplicit false

/-!
# Restart: programs that start anew on SIGHUP

`chapter03/re-exec.c` and `chapter03/signaltest.c`.  The handler of SIGHUP closes the
descriptors from 3 on, in `re-exec.c`, and overlays the process with its own program.  A
signal may come between any two steps, of `main` and of the handler, and during a handler
again.  In `signaltest.c` the handler is installed with `sigaction` and `SA_NODEFER`, or with
`signal` where `USE_SIGNAL` is defined; `signal` is the one of glibc, which keeps the handler
installed and blocks the signal while it runs.

A step of `main` is a call that opens, changes or closes a descriptor, and every call may fail;
a step of the handler is one round of its loop, or its `execve`.  The kernel hands out the
lowest free number.  `execve` leaves the descriptors and the signal mask as they are, and makes
the disposition the default one.

Scope and limits:
* What is sent and received is left out, with the buffer of `send_recv_loop`, and so is what is
  printed.  No other signal comes, in particular no SIGPIPE.
* `getaddrinfo` and `getnameinfo` count as part of `socket`: they fail together with it, and no
  descriptor that they use stays open.
* A call that a signal interrupts (`EINTR`) is one that fails.
* The program is called with the arguments it wants; without them `main` returns before any of
  this.
-/

namespace NetworkProgram.Restart

open NetworkProgram.Foundation
open NetworkProgram.Kernel

structure Program where
  /-- `SA_NODEFER` -/
  nodefer : Bool
  /-- The handler closes the descriptors from 3 to below this. -/
  maxFd : Nat
  /-- `main` goes on to `server_socket` and `accept_loop`, or counts for ever. -/
  serves : Bool

def reExec : Program where
  nodefer := true
  maxFd := 64
  serves := true

/-- `signaltest.c`, without and with `USE_SIGNAL`. -/
def signaltest (useSignal : Bool) : Program where
  nodefer := !useSignal
  maxFd := 3
  serves := false

/-- Where `main` stands. -/
inductive Pc
  | sigaction
  | socket
  /-- `setsockopt`, `bind` and `listen`: so many of them are left. -/
  | configure (soc left : Nat)
  /-- One of them has failed. -/
  | abandon (soc : Nat)
  | accept (soc : Nat)
  /-- `send_recv_loop` -/
  | serve (soc acc : Nat)
  | close (soc acc : Nat)
  | count
  deriving DecidableEq, Repr

inductive Status
  | running
  /-- Ended by the signal. -/
  | killed
  | exited
  deriving DecidableEq, Repr

structure Process where
  table : Table
  signal : Signal
  pc : Pc
  /-- The calls of the handler that have not returned, the last one first: the `i` of each. -/
  handlers : List Nat
  status : Status
  /-- How many times `execve` has succeeded. -/
  image : Nat
  /-- `execve` has failed since this image made its socket, or since it began if it has made
  none. -/
  failed : Bool
  /-- The number of connections accepted. -/
  next : ConnId

inductive Act
  /-- SIGHUP comes. -/
  | hangup
  | sigaction
  /-- `getaddrinfo` and `socket` succeed with a descriptor, or one of them fails. -/
  | socket (result : Option Nat)
  | configure (ok : Bool)
  | abandon
  | accept (result : Option Nat)
  /-- `send_recv_loop` comes to its end. -/
  | served
  | close
  /-- The next step of the handler called last; `ok` is what becomes of `execve`. -/
  | handler (ok : Bool)

namespace Process

/-- What a signal brings about. -/
def react (s : Process) (signal : Signal × Delivery) : Process :=
  match signal.2 with
  | .nothing => { s with signal := signal.1 }
  | .death => { s with signal := signal.1, status := .killed }
  | .call => { s with signal := signal.1, handlers := 3 :: s.handlers }

/-- `sig_hangup_handler` from `i` on. -/
def hangupHandler (p : Program) (s : Process) (i : Nat) (rest : List Nat) (ok : Bool) : Process :=
  if i < p.maxFd then
    { s with table := Function.update s.table i none, handlers := (i + 1) :: rest }
  else if ok then
    { s with
      signal := s.signal.exec
      pc := .sigaction
      handlers := []
      image := s.image + 1
      failed := false }
  else ({ s with handlers := rest, failed := true } : Process).react s.signal.leave

/-- The next step of `main`. -/
def mainStep (p : Program) (s : Process) : Act → Option Process
  | .sigaction =>
      if s.pc = .sigaction then
        some { s with
          signal := s.signal.install p.nodefer
          pc := if p.serves then .socket else .count }
      else none
  | .socket result =>
      match s.pc, result with
      | .socket, none => some { s with status := .exited }
      | .socket, some soc =>
          if LowestFree s.table soc then
            some { s with
              table := Function.update s.table soc (some .listening)
              pc := .configure soc 3
              failed := false }
          else none
      | _, _ => none
  | .configure ok =>
      match s.pc with
      | .configure soc left =>
          if ok then
            if s.table soc = some .listening then
              some { s with pc := if left ≤ 1 then .accept soc else .configure soc (left - 1) }
            else none
          else some { s with pc := .abandon soc }
      | _ => none
  | .abandon =>
      match s.pc with
      | .abandon soc =>
          some { s with table := Function.update s.table soc none, status := .exited }
      | _ => none
  | .accept result =>
      match s.pc, result with
      | .accept _, none => some s
      | .accept soc, some acc =>
          if s.table soc = some .listening ∧ LowestFree s.table acc then
            some { s with
              table := Function.update s.table acc (some (.conn s.next))
              pc := .serve soc acc
              next := s.next + 1 }
          else none
      | _, _ => none
  | .served =>
      match s.pc with
      | .serve soc acc => some { s with pc := .close soc acc }
      | _ => none
  | .close =>
      match s.pc with
      | .close soc acc =>
          some { s with table := Function.update s.table acc none, pc := .accept soc }
      | _ => none
  | _ => none

def step (p : Program) (s : Process) (a : Act) : Option Process :=
  if s.status = .running then
    match a, s.handlers with
    | .hangup, _ => some (s.react s.signal.raise)
    | .handler ok, i :: rest => some (s.hangupHandler p i rest ok)
    | a, [] => s.mainStep p a
    | _, _ :: _ => none
  else none

/-- A program that is started with these descriptors. -/
def start (table : Table) : Process where
  table := table
  signal := .fresh
  pc := .sigaction
  handlers := []
  status := .running
  image := 0
  failed := false
  next := 0

end Process

section React

variable (s : Process) (signal : Signal × Delivery)

/-- A signal leaves `main` and the descriptors alone. -/
theorem Process.react_eq : ∃ handlers status,
    s.react signal = { s with signal := signal.1, handlers := handlers, status := status } := by
  obtain ⟨signal, delivery⟩ := signal
  cases delivery with
  | nothing => exact ⟨s.handlers, s.status, rfl⟩
  | death => exact ⟨s.handlers, .killed, rfl⟩
  | call => exact ⟨3 :: s.handlers, s.status, rfl⟩

@[simp] theorem Process.react_table : (s.react signal).table = s.table := by
  obtain ⟨handlers, status, heq⟩ := s.react_eq signal
  rw [heq]

@[simp] theorem Process.react_signal : (s.react signal).signal = signal.1 := by
  obtain ⟨handlers, status, heq⟩ := s.react_eq signal
  rw [heq]

@[simp] theorem Process.react_pc : (s.react signal).pc = s.pc := by
  obtain ⟨handlers, status, heq⟩ := s.react_eq signal
  rw [heq]

@[simp] theorem Process.react_image : (s.react signal).image = s.image := by
  obtain ⟨handlers, status, heq⟩ := s.react_eq signal
  rw [heq]

@[simp] theorem Process.react_failed : (s.react signal).failed = s.failed := by
  obtain ⟨handlers, status, heq⟩ := s.react_eq signal
  rw [heq]

@[simp] theorem Process.react_next : (s.react signal).next = s.next := by
  obtain ⟨handlers, status, heq⟩ := s.react_eq signal
  rw [heq]

end React

/-! ## What a step can do -/

inductive MainMove (p : Program) (s : Process) : Act → Process → Prop
  | sigaction (hpc : s.pc = .sigaction) :
      MainMove p s .sigaction
        { s with signal := s.signal.install p.nodefer, pc := if p.serves then .socket else .count }
  | noSocket (hpc : s.pc = .socket) :
      MainMove p s (.socket none) { s with status := .exited }
  | socket {soc : Nat} (hpc : s.pc = .socket) (hfree : LowestFree s.table soc) :
      MainMove p s (.socket (some soc))
        { s with
          table := Function.update s.table soc (some .listening)
          pc := .configure soc 3
          failed := false }
  | configure {soc left : Nat} (hpc : s.pc = .configure soc left)
      (hsoc : s.table soc = some .listening) :
      MainMove p s (.configure true)
        { s with pc := if left ≤ 1 then .accept soc else .configure soc (left - 1) }
  | refused {soc left : Nat} (hpc : s.pc = .configure soc left) :
      MainMove p s (.configure false) { s with pc := .abandon soc }
  | abandon {soc : Nat} (hpc : s.pc = .abandon soc) :
      MainMove p s .abandon
        { s with table := Function.update s.table soc none, status := .exited }
  | noConnection {soc : Nat} (hpc : s.pc = .accept soc) : MainMove p s (.accept none) s
  | accept {soc acc : Nat} (hpc : s.pc = .accept soc) (hsoc : s.table soc = some .listening)
      (hfree : LowestFree s.table acc) :
      MainMove p s (.accept (some acc))
        { s with
          table := Function.update s.table acc (some (.conn s.next))
          pc := .serve soc acc
          next := s.next + 1 }
  | served {soc acc : Nat} (hpc : s.pc = .serve soc acc) :
      MainMove p s .served { s with pc := .close soc acc }
  | close {soc acc : Nat} (hpc : s.pc = .close soc acc) :
      MainMove p s .close { s with table := Function.update s.table acc none, pc := .accept soc }

variable {p : Program} {s t : Process} {a : Act}

theorem mainMove_of_step (h : s.mainStep p a = some t) : MainMove p s a t := by
  cases a with
  | hangup => cases h
  | handler ok => cases h
  | sigaction =>
      obtain ⟨hpc, rfl⟩ := Option.ite_some_none_eq_some.mp h
      exact .sigaction hpc
  | socket result =>
      dsimp only [Process.mainStep] at h
      split at h
      · rename_i hpc
        cases h
        exact .noSocket hpc
      · rename_i hpc
        obtain ⟨hfree, rfl⟩ := Option.ite_some_none_eq_some.mp h
        exact .socket hpc hfree
      · cases h
  | configure ok =>
      dsimp only [Process.mainStep] at h
      split at h
      · rename_i hpc
        split at h
        · rename_i hok
          obtain ⟨hsoc, rfl⟩ := Option.ite_some_none_eq_some.mp h
          obtain rfl := hok
          exact .configure hpc hsoc
        · rename_i hok
          cases h
          obtain rfl := Bool.eq_false_iff.mpr hok
          exact .refused hpc
      · cases h
  | abandon =>
      dsimp only [Process.mainStep] at h
      split at h
      · rename_i hpc
        cases h
        exact .abandon hpc
      · cases h
  | accept result =>
      dsimp only [Process.mainStep] at h
      split at h
      · rename_i hpc
        cases h
        exact .noConnection hpc
      · rename_i hpc
        obtain ⟨⟨hsoc, hfree⟩, rfl⟩ := Option.ite_some_none_eq_some.mp h
        exact .accept hpc hsoc hfree
      · cases h
  | served =>
      dsimp only [Process.mainStep] at h
      split at h
      · rename_i hpc
        cases h
        exact .served hpc
      · cases h
  | close =>
      dsimp only [Process.mainStep] at h
      split at h
      · rename_i hpc
        cases h
        exact .close hpc
      · cases h

/-- A signal comes, the handler goes on, or else `main` does. -/
theorem move_of_step (h : s.step p a = some t) : s.status = .running ∧
    ((a = .hangup ∧ t = s.react s.signal.raise) ∨
      (∃ i rest ok, a = .handler ok ∧ s.handlers = i :: rest ∧
        t = s.hangupHandler p i rest ok) ∨
      (s.handlers = [] ∧ MainMove p s a t)) := by
  unfold Process.step at h
  split at h
  · rename_i hrunning
    refine ⟨hrunning, ?_⟩
    split at h
    · cases h
      exact .inl ⟨rfl, rfl⟩
    · rename_i hhandlers
      cases h
      exact .inr (.inl ⟨_, _, _, rfl, hhandlers, rfl⟩)
    · rename_i hhandlers
      exact .inr (.inr ⟨hhandlers, mainMove_of_step h⟩)
    · cases h
  · cases h

end NetworkProgram.Restart
