set_option autoImplicit false

/-!
# Kernel: one signal of a process

A signal that is blocked waits; one that is not ends the process or calls its handler,
during which it is blocked unless the handler was installed with `SA_NODEFER`.  `execve`
takes the handler away, and keeps what is blocked and what waits.
-/

namespace NetworkProgram.Kernel

inductive Disposition
  /-- The signal ends the process. -/
  | default
  | handler (nodefer : Bool)
  deriving DecidableEq, Repr

structure Signal where
  disposition : Disposition
  blocked : Bool
  pending : Bool
  deriving DecidableEq, Repr

/-- What comes of a signal. -/
inductive Delivery
  | nothing
  | death
  | call
  deriving DecidableEq, Repr

namespace Signal

def fresh : Signal where
  disposition := .default
  blocked := false
  pending := false

/-- A signal that is not blocked. -/
def deliver (s : Signal) : Signal × Delivery :=
  match s.disposition with
  | .default => (s, .death)
  | .handler nodefer => ({ s with blocked := !nodefer }, .call)

def raise (s : Signal) : Signal × Delivery :=
  if s.blocked then ({ s with pending := true }, .nothing) else s.deliver

/-- The handler returns, which was called when the signal was not blocked. -/
def leave (s : Signal) : Signal × Delivery :=
  if s.pending then deliver { s with blocked := false, pending := false }
  else ({ s with blocked := false }, .nothing)

/-- `sigaction` and `signal` -/
def install (s : Signal) (nodefer : Bool) : Signal := { s with disposition := .handler nodefer }

def exec (s : Signal) : Signal := { s with disposition := .default }

/-- The signal is never held up. -/
structure Open (s : Signal) : Prop where
  blocked : s.blocked = false
  pending : s.pending = false
  nodefer : s.disposition = .handler true ∨ s.disposition = .default

variable {s : Signal}

theorem open_fresh : fresh.Open := ⟨rfl, rfl, .inr rfl⟩

theorem Open.install (h : s.Open) : (s.install true).Open := ⟨h.blocked, h.pending, .inl rfl⟩

theorem Open.exec (h : s.Open) : s.exec.Open := ⟨h.blocked, h.pending, .inr rfl⟩

/-- With `SA_NODEFER` a signal only finds a handler, or ends the process. -/
theorem Open.raise (h : s.Open) :
    s.raise = (s, if s.disposition = .default then .death else .call) := by
  obtain ⟨disposition, blocked, pending⟩ := s
  obtain ⟨rfl, rfl, hnodefer⟩ := h
  rcases hnodefer with rfl | rfl <;> rfl

theorem Open.leave (h : s.Open) : s.leave = (s, .nothing) := by
  obtain ⟨disposition, blocked, pending⟩ := s
  obtain ⟨rfl, rfl, -⟩ := h
  rfl

/-- What is blocked stays blocked, and is not delivered. -/
theorem raise_of_blocked (h : s.blocked = true) :
    s.raise = ({ s with pending := true }, .nothing) := if_pos h

end Signal

end NetworkProgram.Kernel
