import NetworkProgram.Server9.Service

set_option autoImplicit false

/-!
# Server9: the server with its test clients

The clients of `testclient.c`: each sends one line, which a single `recv`
delivers, and waits for the whole reply before it sends the next one or closes.
The system is the server, the clients by the connection they have, and how many
replies each has read.
-/

namespace NetworkProgram.Server9

open NetworkProgram.Foundation
open NetworkProgram.Kernel
open NetworkProgram.Libc

/-- Where a client stands in `send_recv_loop`. -/
inductive Client
  /-- About to send, or to close. -/
  | ready
  /-- The line, with its newline, was sent and is not received yet. -/
  | sent (line : Bytes)
  /-- In `recv`, for the reply. -/
  | waiting
  | closed
  deriving DecidableEq, Repr

/-- The longest line whose reply fits: `sizeof(buf)`, less `":OK\r\n"` and the NUL. -/
def maxLine : Nat := 506

/-- What a client sends before its newline. -/
def Line (line : Bytes) : Prop :=
  line.length ≤ maxLine ∧ ∀ b ∈ line, b ≠ 0 ∧ b ≠ cr ∧ b ≠ lf

instance (line : Bytes) : Decidable (Line line) :=
  inferInstanceAs (Decidable (_ ∧ _))

/-- The reply a client expects: its line without the newline, and `":OK\r\n"`. -/
def expectedReply (m : Bytes) : Bytes := okReply m.dropLast

structure System where
  server : State
  clients : ConnId → Client
  /-- How many replies each client has read. -/
  read : ConnId → Nat

def System.init (k : Startup) : System where
  server := Server9.init k
  clients := fun _ => .ready
  read := fun _ => 0

inductive SysAction
  | server (a : Action)
  | sendLine (c : ConnId) (line : Bytes)
  | readReply (c : ConnId)
  | hangUp (c : ConnId)
  deriving DecidableEq, Repr

def System.setClient (y : System) (c : ConnId) (client : Client) : System :=
  { y with clients := Function.update y.clients c client }

/-- The server's step, in the system. -/
def System.serve (k : Startup) (y : System) (a : Action) : Option System :=
  (step k y.server a).map fun s => { y with server := s }

/-- `recv` returns the line the client has sent, or the end of a closed connection. -/
def System.recv (k : Startup) (y : System) (c : ConnId) (answer : Answer) : Option System :=
  match answer, y.clients c with
  | .data m, .sent line =>
      if m = line ++ [lf] then
        ((y.serve k (.recv answer)).map fun z => z.setClient c .waiting)
      else none
  | .eof, .closed => y.serve k (.recv answer)
  | .error, .closed => y.serve k (.recv answer)
  | _, _ => none

/-- A `send` succeeds: the client is there to read the reply. -/
def sysStep (k : Startup) (y : System) : SysAction → Option System
  | .server (.recv answer) =>
      match y.server.pc with
      | .recving fd _ =>
          match y.server.fds (y.server.lastSlot fd).acc with
          | some (.conn c) => y.recv k c answer
          | _ => none
      | _ => none
  | .server (.thread qi delivered) => if delivered then y.serve k (.thread qi delivered) else none
  | .server a => y.serve k a
  | .sendLine c line =>
      if y.clients c = .ready ∧ Line line then some (y.setClient c (.sent line)) else none
  | .readReply c =>
      if y.clients c = .waiting ∧ y.read c < (repliedOn y.server.log c).length then
        some { y.setClient c .ready with read := Function.update y.read c (y.read c + 1) }
      else none
  | .hangUp c => if y.clients c = .ready then some (y.setClient c .closed) else none

/-! ## Inversion -/

/-- What a step of the system can do. -/
inductive SysMove (k : Startup) (y : System) : SysAction → System → Prop
  /-- A step of the server that is no `recv`. -/
  | serves {a : Action} {t : State} (step : step k y.server a = some t)
      (noRecv : ∀ answer, a ≠ .recv answer)
      (delivers : ∀ qi delivered, a = .thread qi delivered → delivered = true) :
      SysMove k y (.server a) { y with server := t }
  | recvsLine {t : State} {fd : Nat} {events : List Nat} {c : ConnId} {line : Bytes}
      (step : step k y.server (.recv (.data (line ++ [lf]))) = some t)
      (pc : y.server.pc = .recving fd events)
      (owner : y.server.fds (y.server.lastSlot fd).acc = some (.conn c))
      (sent : y.clients c = .sent line) :
      SysMove k y (.server (.recv (.data (line ++ [lf]))))
        { y.setClient c .waiting with server := t }
  | recvsEnd {t : State} {answer : Answer} {fd : Nat} {events : List Nat} {c : ConnId}
      (step : step k y.server (.recv answer) = some t)
      (ended : answer = .error ∨ answer = .eof)
      (pc : y.server.pc = .recving fd events)
      (owner : y.server.fds (y.server.lastSlot fd).acc = some (.conn c))
      (closed : y.clients c = .closed) :
      SysMove k y (.server (.recv answer)) { y with server := t }
  | sends {c : ConnId} {line : Bytes} (ready : y.clients c = .ready) (text : Line line) :
      SysMove k y (.sendLine c line) (y.setClient c (.sent line))
  | reads {c : ConnId} (waiting : y.clients c = .waiting)
      (replied : y.read c < (repliedOn y.server.log c).length) :
      SysMove k y (.readReply c)
        { y.setClient c .ready with read := Function.update y.read c (y.read c + 1) }
  | hangsUp {c : ConnId} (ready : y.clients c = .ready) :
      SysMove k y (.hangUp c) (y.setClient c .closed)

theorem serve_eq_some {k : Startup} {y z : System} {a : Action} :
    y.serve k a = some z ↔ ∃ t, step k y.server a = some t ∧ z = { y with server := t } := by
  rw [System.serve, Option.map_eq_some_iff]
  exact exists_congr fun t => and_congr_right fun _ => eq_comm

theorem sysMove_of_recv {k : Startup} {y z : System} {fd : Nat} {events : List Nat} {c : ConnId}
    {answer : Answer} (pc : y.server.pc = .recving fd events)
    (owner : y.server.fds (y.server.lastSlot fd).acc = some (.conn c))
    (h : y.recv k c answer = some z) : SysMove k y (.server (.recv answer)) z := by
  unfold System.recv at h
  split at h
  · rename_i m line sent
    split at h
    · rename_i hm
      subst hm
      obtain ⟨w, hserve, rfl⟩ := Option.map_eq_some_iff.mp h
      obtain ⟨t, hstep, rfl⟩ := serve_eq_some.mp hserve
      exact .recvsLine hstep pc owner sent
    · cases h
  · rename_i closed
    obtain ⟨t, hstep, rfl⟩ := serve_eq_some.mp h
    exact .recvsEnd hstep (.inr rfl) pc owner closed
  · rename_i closed
    obtain ⟨t, hstep, rfl⟩ := serve_eq_some.mp h
    exact .recvsEnd hstep (.inl rfl) pc owner closed
  · cases h

theorem sysMove_of_sysStep {k : Startup} {y z : System} {a : SysAction}
    (h : sysStep k y a = some z) : SysMove k y a z := by
  unfold sysStep at h
  split at h
  · split at h
    · rename_i pc
      split at h
      · rename_i owner
        exact sysMove_of_recv pc owner h
      · cases h
    · cases h
  · split at h
    · rename_i hdelivered
      obtain ⟨t, hstep, rfl⟩ := serve_eq_some.mp h
      refine .serves hstep (fun answer heq => by cases heq) fun qi delivered heq => ?_
      cases heq
      exact hdelivered
    · cases h
  · rename_i noRecv noThread
    obtain ⟨t, hstep, rfl⟩ := serve_eq_some.mp h
    refine .serves hstep (fun answer heq => noRecv answer (by rw [heq])) fun qi delivered heq => ?_
    exact absurd (by rw [heq]) (noThread qi delivered)
  · split at h
    · rename_i guard
      cases h
      exact .sends guard.1 guard.2
    · cases h
  · split at h
    · rename_i guard
      cases h
      exact .reads guard.1 guard.2
    · cases h
  · split at h
    · rename_i guard
      cases h
      exact .hangsUp guard
    · cases h

/-! ## The log of one connection -/

@[simp] theorem receivedOn_append (l l' : List Event) (c : ConnId) :
    receivedOn (l ++ l') c = receivedOn l c ++ receivedOn l' c :=
  List.filterMap_append

@[simp] theorem repliedOn_append (l l' : List Event) (c : ConnId) :
    repliedOn (l ++ l') c = repliedOn l c ++ repliedOn l' c :=
  List.filterMap_append

theorem receivedOn_received (c d : ConnId) (m : Bytes) :
    receivedOn [.received d m] c = if d = c then [m] else [] := by
  simp only [receivedOn, List.filterMap_cons, List.filterMap_nil]
  split_ifs <;> rfl

theorem repliedOn_replied (c d src : ConnId) (m : Bytes) :
    repliedOn [.replied d src m] c = if d = c then [m] else [] := by
  simp only [repliedOn, List.filterMap_cons, List.filterMap_nil]
  split_ifs <;> rfl

@[simp] theorem repliedOn_received (c d : ConnId) (m : Bytes) :
    repliedOn [.received d m] c = [] := rfl

@[simp] theorem receivedOn_replied (c d src : ConnId) (m : Bytes) :
    receivedOn [.replied d src m] c = [] := rfl

end NetworkProgram.Server9
