import NetworkProgram.Foundation.Runs

set_option autoImplicit false

/-!
# Server5: the model of `chapter05/server5.c`

The parent accepts, forks a child for each connection, and reaps the children that
have terminated: one by `wait` in the handler of SIGCHLD, and one by `waitpid` with
WNOHANG after each connection.  Signals are not queued: a child that terminates makes
SIGCHLD pending, however many terminated before it.  The handler is installed with
`signal`, so SIGCHLD is blocked while it runs.

What the kernel does is asked of each step:

* a pending SIGCHLD may be delivered between any two steps of `accept_loop`, which goes on
  when the handler has returned;
* `wait` reaps a child that has terminated, blocks as long as there is none and some child
  runs, and fails if there are no children at all;
* `waitpid` with WNOHANG reaps one if there is one, and otherwise returns at once;
* `fork` makes a child with a number that no child has, running or not yet reaped.

Limits of scope: a child is its number, and may terminate at any time.  Its work, what is
printed and the descriptors of the processes are left out (`Workers.Forking` has the
descriptors).  `accept` that fails with EINTR is one that fails.  No other signal than
SIGCHLD comes, and the parent does not end.
-/

namespace NetworkProgram.Server5

open NetworkProgram.Foundation

abbrev Pid : Type := Nat

/-- Where `accept_loop` stands in the parent. -/
inductive Pc
  /-- `accept` -/
  | accept
  /-- `fork`, for the connection just accepted -/
  | fork
  /-- `waitpid(-1, &status, WNOHANG)` -/
  | waitpid
  deriving DecidableEq, Repr

/-- Where `sig_chld_handler` stands, if it runs. -/
inductive Handler
  /-- Not running. -/
  | outside
  /-- `wait(&status)` -/
  | wait
  /-- Behind it. -/
  | done
  deriving DecidableEq, Repr

structure State where
  /-- The children that run. -/
  running : List Pid
  /-- The children that have terminated and were not reaped. -/
  zombies : List Pid
  /-- SIGCHLD is pending. -/
  pending : Bool
  handler : Handler
  pc : Pc
  deriving DecidableEq, Repr

def init : State where
  running := []
  zombies := []
  pending := false
  handler := .outside
  pc := .accept

inductive Action
  /-- A child terminates. -/
  | exit (pid : Pid)
  /-- SIGCHLD is delivered. -/
  | deliver
  /-- `wait` returns, with the child it reaps, or none for an error. -/
  | wait (result : Option Pid)
  /-- The handler returns. -/
  | sigreturn
  /-- `accept` returns a descriptor, or fails (EINTR included). -/
  | accept (accepted : Bool)
  /-- `fork`, with the child it makes, or none for an error. -/
  | fork (result : Option Pid)
  /-- `waitpid`, with the child it reaps, or none for 0 and for an error. -/
  | waitpid (result : Option Pid)
  deriving DecidableEq, Repr

def exit (s : State) (pid : Pid) : Option State :=
  if pid ∈ s.running then
    some { s with
      running := s.running.erase pid
      zombies := pid :: s.zombies
      pending := true }
  else none

def deliver (s : State) : Option State :=
  match s.handler with
  | .outside =>
      if s.pending then some { s with pending := false, handler := .wait } else none
  | _ => none

/-- A child is reaped if there is one to reap. -/
def reap (s : State) : Option Pid → Option State
  | some pid =>
      if pid ∈ s.zombies then some { s with zombies := s.zombies.erase pid } else none
  | none => if s.zombies = [] then some s else none

/-- `wait` fails if there is no child at all, and blocks while those that there are run. -/
def wait (s : State) (result : Option Pid) : Option State :=
  match s.handler with
  | .wait =>
      if result = none ∧ s.running ≠ [] then none
      else (reap s result).map fun t => { t with handler := .done }
  | _ => none

def sigreturn (s : State) : Option State :=
  match s.handler with
  | .done => some { s with handler := .outside }
  | _ => none

def accept (s : State) (accepted : Bool) : Option State :=
  match s.handler, s.pc with
  | .outside, .accept => some { s with pc := if accepted then .fork else .accept }
  | _, _ => none

def fork (s : State) (result : Option Pid) : Option State :=
  match s.handler, s.pc with
  | .outside, .fork =>
      match result with
      | some pid =>
          if pid ∉ s.running ∧ pid ∉ s.zombies then
            some { s with running := pid :: s.running, pc := .waitpid }
          else none
      | none => some { s with pc := .waitpid }
  | _, _ => none

def waitpid (s : State) (result : Option Pid) : Option State :=
  match s.handler, s.pc with
  | .outside, .waitpid => (reap s result).map fun t => { t with pc := .accept }
  | _, _ => none

def step (s : State) : Action → Option State
  | .exit pid => exit s pid
  | .deliver => deliver s
  | .wait result => wait s result
  | .sigreturn => sigreturn s
  | .accept accepted => accept s accepted
  | .fork result => fork s result
  | .waitpid result => waitpid s result

/-! ## What a step can do -/

/-- Reaping takes one zombie away, or there is none. -/
inductive Reaped (s : State) : Option Pid → State → Prop
  | child {pid : Pid} (mem : pid ∈ s.zombies) :
      Reaped s (some pid) { s with zombies := s.zombies.erase pid }
  | nobody (empty : s.zombies = []) : Reaped s none s

inductive Move (s : State) : Action → State → Prop
  | exits {pid : Pid} (mem : pid ∈ s.running) :
      Move s (.exit pid) { s with
        running := s.running.erase pid, zombies := pid :: s.zombies, pending := true }
  | delivers (handler : s.handler = .outside) (pending : s.pending = true) :
      Move s .deliver { s with pending := false, handler := .wait }
  | waits {result : Option Pid} {t : State} (handler : s.handler = .wait)
      (alone : result = none → s.running = []) (reaped : Reaped s result t) :
      Move s (.wait result) { t with handler := .done }
  | returns (handler : s.handler = .done) :
      Move s .sigreturn { s with handler := .outside }
  | accepts {accepted : Bool} (handler : s.handler = .outside) (pc : s.pc = .accept) :
      Move s (.accept accepted) { s with pc := if accepted then .fork else .accept }
  | forks {pid : Pid} (handler : s.handler = .outside) (pc : s.pc = .fork)
      (fresh : pid ∉ s.running ∧ pid ∉ s.zombies) :
      Move s (.fork (some pid)) { s with running := pid :: s.running, pc := .waitpid }
  | forkFails (handler : s.handler = .outside) (pc : s.pc = .fork) :
      Move s (.fork none) { s with pc := .waitpid }
  | checks {result : Option Pid} {t : State} (handler : s.handler = .outside)
      (pc : s.pc = .waitpid) (reaped : Reaped s result t) :
      Move s (.waitpid result) { t with pc := .accept }

section Inversion

variable {s t : State}

theorem reaped_of_reap {result : Option Pid} (h : reap s result = some t) :
    Reaped s result t := by
  cases result with
  | some pid =>
      simp only [reap, Option.ite_none_right_eq_some, Option.some.injEq] at h
      obtain ⟨mem, rfl⟩ := h
      exact .child mem
  | none =>
      simp only [reap, Option.ite_none_right_eq_some, Option.some.injEq] at h
      obtain ⟨empty, rfl⟩ := h
      exact .nobody empty

theorem move_of_wait {result : Option Pid} (h : wait s result = some t) :
    Move s (.wait result) t := by
  unfold wait at h
  split at h
  · rename_i handler
    split at h
    · cases h
    · rename_i alone
      obtain ⟨u, hreap, rfl⟩ := Option.map_eq_some_iff.mp h
      refine .waits handler (fun hresult => ?_) (reaped_of_reap hreap)
      by_contra hrunning
      exact alone ⟨hresult, hrunning⟩
  · cases h

theorem move_of_fork {result : Option Pid} (h : fork s result = some t) :
    Move s (.fork result) t := by
  unfold fork at h
  split at h
  · rename_i handler pc
    cases result with
    | some pid =>
        simp only [Option.ite_none_right_eq_some, Option.some.injEq] at h
        obtain ⟨fresh, rfl⟩ := h
        exact .forks handler pc fresh
    | none =>
        cases h
        exact .forkFails handler pc
  · cases h

theorem move_of_step {a : Action} (h : step s a = some t) : Move s a t := by
  cases a with
  | exit pid =>
      simp only [step, exit, Option.ite_none_right_eq_some, Option.some.injEq] at h
      obtain ⟨mem, rfl⟩ := h
      exact .exits mem
  | deliver =>
      simp only [step, deliver] at h
      split at h
      · rename_i handler
        simp only [Option.ite_none_right_eq_some, Option.some.injEq] at h
        obtain ⟨pending, rfl⟩ := h
        exact .delivers handler pending
      · cases h
  | wait result => exact move_of_wait h
  | sigreturn =>
      simp only [step, sigreturn] at h
      split at h
      · rename_i handler
        cases h
        exact .returns handler
      · cases h
  | accept accepted =>
      simp only [step, accept] at h
      split at h
      · rename_i handler pc
        cases h
        exact .accepts handler pc
      · cases h
  | fork result => exact move_of_fork h
  | waitpid result =>
      simp only [step, waitpid] at h
      split at h
      · rename_i handler pc
        obtain ⟨u, hreap, rfl⟩ := Option.map_eq_some_iff.mp h
        exact .checks handler pc (reaped_of_reap hreap)
      · cases h

theorem Reaped.length {result : Option Pid} (h : Reaped s result t) :
    t.zombies.length = s.zombies.length - 1 := by
  cases h with
  | child mem => exact List.length_erase_of_mem mem
  | nobody empty => rw [empty]; rfl

end Inversion

end NetworkProgram.Server5
