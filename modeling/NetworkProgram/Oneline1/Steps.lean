import NetworkProgram.Oneline1.Model

set_option autoImplicit false

/-!
# Oneline1: what a step can do

`Move` lists the steps of the model with their guards and results, one
constructor for each branch of the source.  A first invariant follows from it: a
descriptor that no connection uses has an idle row.
-/

namespace NetworkProgram.Oneline1

open NetworkProgram.Foundation
open NetworkProgram.Kernel
open NetworkProgram.Libc

/-! ## What `send_recv_1` does -/

/-- The reply to the line in the row, and its end. -/
def Store.reply (buf : Store) (pos : Nat) (delivered : Bool) : Served :=
  if delivered then
    { ret := 0, row := .cleared buf.cut pos, sent := [okReply (cstr buf.cut.bytes)] }
  else { ret := -1, row := .cleared buf.cut pos, sent := [] }

/-- The row with one more byte of the line under way. -/
def Row.extend (row : Row) (c : UInt8) (h : row.start + 1 < fixedBufferSize - 1) : Row where
  buf := row.buf.put row.start c row.start_lt
  pos := row.start + 1
  room := fun _ => h

section Served

variable {row : Row} {c : UInt8}

theorem sendRecv1_eof_idle (h : row.start = 0) (delivered : Bool) :
    sendRecv1 row .eof delivered =
      { ret := -1, row := .cleared row.buf row.start, sent := [] } := by
  have hrv : (recvOneLine1 row .eof).rv = 0 := if_neg (by omega)
  unfold sendRecv1
  dsimp only
  rw [if_neg (by omega), if_pos hrv]
  rfl

theorem sendRecv1_eof (h : 0 < row.start) (delivered : Bool) :
    sendRecv1 row .eof delivered = row.buf.reply row.start delivered := by
  have hrv : (recvOneLine1 row .eof).rv = row.start := if_pos h
  unfold sendRecv1
  dsimp only
  rw [if_neg (by omega), if_neg (by omega), dif_neg (by omega)]
  rfl

/-- A newline, or the last byte that fits, ends the line. -/
theorem sendRecv1_byte_ends (h : c = lf ∨ row.start + 1 = fixedBufferSize - 1)
    (delivered : Bool) :
    sendRecv1 row (.byte c) delivered =
      (row.buf.put row.start c row.start_lt).reply (row.start + 1) delivered := by
  have hrv : (recvOneLine1 row (.byte c)).rv = row.start + 1 := by
    dsimp only [recvOneLine1]
    split
    · rfl
    · exact if_pos (h.resolve_left ‹_›)
  unfold sendRecv1
  dsimp only
  rw [if_neg (by omega), if_neg (by omega), dif_neg (by omega)]
  rfl

theorem sendRecv1_byte_more (hc : c ≠ lf) (h : row.start + 1 < fixedBufferSize - 1)
    (delivered : Bool) :
    sendRecv1 row (.byte c) delivered = { ret := -2, row := row.extend c h, sent := [] } := by
  have hrv : (recvOneLine1 row (.byte c)).rv = -2 := by
    dsimp only [recvOneLine1]
    rw [if_neg hc, if_neg (Nat.ne_of_lt h)]
  unfold sendRecv1
  dsimp only
  rw [if_neg (by omega), if_neg (by omega), dif_pos hrv]
  rfl

end Served

/-! ## The moves -/

/-- The state after `send_recv_1` on descriptor `fd` of connection `c`, with `r` its
result. -/
def State.serve (s : State) (fd : Nat) (events : List Nat) (c : ConnId) (readable : Readable)
    (r : Served) : State :=
  { s with
    pc := if r.ret = -1 then .closing fd events else .batch events
    rows := Function.update s.rows fd r.row
    taken := if readable = .byte then Function.update s.taken c (s.taken c + 1) else s.taken
    own :=
      if readable = .byte then
        Function.update s.own fd (max (s.own fd) ((s.rows fd).start + 1))
      else s.own
    log := s.log ++ r.sent.map fun m => (c, m) }

/-- What `send_recv_1` does on the descriptor `fd` of connection `c`. -/
def State.service (input : ConnId → Nat → UInt8) (s : State) (fd : Nat) (c : ConnId)
    (readable : Readable) (delivered : Bool) : Served :=
  sendRecv1 (s.rows fd) (readable.recv (input c (s.taken c))) delivered

inductive Move (k : Startup) (input : ConnId → Nat → UInt8) (s : State) : Action → State → Prop
  | epollWait {ready : List Nat} (pc : s.pc = .batch []) (nodup : ready.Nodup)
      (known : ∀ fd ∈ ready, fd = k.soc ∨ fd ∈ s.interest) :
      Move k input s (.epollWait ready) { s with pc := .batch ready }
  | acceptFails {events : List Nat} (pc : s.pc = .batch (k.soc :: events)) :
      Move k input s (.accept none) { s with pc := .batch events, acc := none }
  | accepts {events : List Nat} {acc : Nat} (pc : s.pc = .batch (k.soc :: events))
      (free : LowestFree s.fds acc) :
      Move k input s (.accept (some acc)) { s with
        pc := .accepted events
        acc := some acc
        fds := Function.update s.fds acc (some (.conn s.next))
        next := s.next + 1
        own := Function.update s.own acc 0 }
  | refuses {events : List Nat} {acc : Nat} {added : Bool} (pc : s.pc = .accepted events)
      (new : s.acc = some acc) (full : s.count + 1 ≥ maxChild) :
      Move k input s (.register added)
        { s with pc := .batch events, fds := Function.update s.fds acc none }
  | registers {events : List Nat} {acc : Nat} (pc : s.pc = .accepted events)
      (new : s.acc = some acc) (room : s.count + 1 < maxChild) :
      Move k input s (.register true)
        { s with pc := .batch events, interest := acc :: s.interest, count := s.count + 1 }
  | registerFails {events : List Nat} {acc : Nat} (pc : s.pc = .accepted events)
      (new : s.acc = some acc) (room : s.count + 1 < maxChild) :
      Move k input s (.register false) { s with
        pc := .returned
        fds := Function.update (Function.update s.fds acc none) k.epollfd none }
  | serves {fd : Nat} {events : List Nat} {c : ConnId} {readable : Readable} {delivered : Bool}
      (pc : s.pc = .batch (fd :: events)) (conn : s.fds fd = some (.conn c)) :
      Move k input s (.sendRecv readable delivered)
        (s.serve fd events c readable (s.service input fd c readable delivered))
  | closes {fd : Nat} {events : List Nat} (pc : s.pc = .closing fd events)
      (mem : fd ∈ s.interest) :
      Move k input s .close { s with
        pc := .batch events
        interest := s.interest.erase fd
        fds := Function.update s.fds fd none
        count := s.count - 1 }
  | closeFails {fd : Nat} {events : List Nat} (pc : s.pc = .closing fd events)
      (mem : fd ∉ s.interest) :
      Move k input s .close { s with
        pc := .returned
        fds := Function.update (s.fds.closeAcc s.acc) k.epollfd none }

section Inversion

variable {k : Startup} {input : ConnId → Nat → UInt8} {s t : State}

theorem move_of_epollWait {ready : List Nat} (h : epollWait k s ready = some t) :
    Move k input s (.epollWait ready) t := by
  unfold epollWait at h
  split at h
  · rename_i pc
    split at h
    · rename_i guard
      cases h
      exact .epollWait pc guard.1 guard.2.2
    · cases h
  · cases h

theorem move_of_accept {result : Option Nat} (h : accept k s result = some t) :
    Move k input s (.accept result) t := by
  unfold accept at h
  split at h
  · rename_i fd events pc
    split at h
    · rename_i hfd
      subst hfd
      cases result with
      | none => cases h; exact .acceptFails pc
      | some acc =>
          dsimp only at h
          split at h
          · rename_i free
            cases h
            exact .accepts pc free
          · cases h
    · cases h
  · cases h

theorem move_of_register {added : Bool} (h : register k s added = some t) :
    Move k input s (.register added) t := by
  unfold register at h
  split at h
  · rename_i events acc pc new
    split at h
    · rename_i full
      cases h
      exact .refuses pc new full
    · rename_i room
      cases added with
      | true => cases h; exact .registers pc new (by omega)
      | false => cases h; exact .registerFails pc new (by omega)
  · cases h

/-- The connection that is served, with a row of the table for its descriptor. -/
theorem eq_serve_of_sendRecv {readable : Readable} {delivered : Bool}
    (h : sendRecv k input s readable delivered = some t) :
    ∃ fd events c, s.pc = .batch (fd :: events) ∧ s.fds fd = some (.conn c) ∧
      (fd ≠ k.soc ∧ fd < maxChild * 4) ∧
      t = s.serve fd events c readable (s.service input fd c readable delivered) := by
  unfold sendRecv at h
  split at h
  · rename_i fd events pc
    split at h
    · rename_i c conn
      split at h
      · rename_i hlow
        cases h
        exact ⟨fd, events, c, pc, conn, hlow, rfl⟩
      · cases h
    · cases h
  · cases h

theorem move_of_sendRecv {readable : Readable} {delivered : Bool}
    (h : sendRecv k input s readable delivered = some t) :
    Move k input s (.sendRecv readable delivered) t := by
  obtain ⟨fd, events, c, pc, conn, -, rfl⟩ := eq_serve_of_sendRecv h
  exact .serves pc conn

theorem move_of_close (h : close k s = some t) : Move k input s .close t := by
  unfold close at h
  split at h
  · rename_i fd events pc
    split at h
    · rename_i mem
      cases h
      exact .closes pc mem
    · rename_i mem
      cases h
      exact .closeFails pc mem
  · cases h

/-- Every step of the program is one of the moves. -/
theorem move_of_step {a : Action} (h : step k input s a = some t) : Move k input s a t := by
  cases a with
  | epollWait ready => exact move_of_epollWait h
  | accept result => exact move_of_accept h
  | register added => exact move_of_register h
  | sendRecv readable delivered => exact move_of_sendRecv h
  | close => exact move_of_close h

/-- `close` is what happens to a connection that is given up, and nothing else is. -/
theorem close_iff_closing {a : Action} (h : step k input s a = some t) :
    a = .close ↔ ∃ fd events, s.pc = .closing fd events := by
  have hnot : ∀ {pc : Pc}, s.pc = pc → (∀ fd events, pc ≠ .closing fd events) →
      ¬ ∃ fd events, s.pc = .closing fd events := by
    rintro pc hpc hne ⟨fd, events, hclosing⟩
    exact hne fd events (hpc.symm.trans hclosing)
  cases move_of_step h with
  | epollWait pc => exact iff_of_false nofun (hnot pc nofun)
  | acceptFails pc => exact iff_of_false nofun (hnot pc nofun)
  | accepts pc => exact iff_of_false nofun (hnot pc nofun)
  | refuses pc => exact iff_of_false nofun (hnot pc nofun)
  | registers pc => exact iff_of_false nofun (hnot pc nofun)
  | registerFails pc => exact iff_of_false nofun (hnot pc nofun)
  | serves pc => exact iff_of_false nofun (hnot pc nofun)
  | closes pc => exact iff_of_true rfl ⟨_, _, pc⟩
  | closeFails pc => exact iff_of_true rfl ⟨_, _, pc⟩

end Inversion

/-! ## What is sent -/

theorem sentOn_append (log log' : List (ConnId × Bytes)) (c : ConnId) :
    sentOn (log ++ log') c = sentOn log c ++ sentOn log' c := by
  rw [sentOn, List.filter_append, List.map_append, sentOn, sentOn]

theorem sentOn_other {c d : ConnId} (h : d ≠ c) (sent : List Bytes) :
    sentOn (sent.map fun m => (d, m)) c = [] := by
  rw [sentOn, List.map_eq_nil_iff, List.filter_eq_nil_iff]
  intro entry hmem
  obtain ⟨m, -, rfl⟩ := List.mem_map.mp hmem
  simpa using h

theorem sentOn_self (c : ConnId) (sent : List Bytes) :
    sentOn (sent.map fun m => (c, m)) c = sent := by
  have hall : ∀ entry ∈ sent.map fun m => (c, m), decide (entry.1 = c) = true := by
    intro entry hmem
    obtain ⟨m, -, rfl⟩ := List.mem_map.mp hmem
    exact decide_eq_true rfl
  rw [sentOn, List.filter_eq_self.mpr hall, List.map_map]
  exact List.map_id sent

/-! ## Idle rows -/

theorem idle_cleared (buf : Store) (pos : Nat) : (Row.cleared buf pos).Idle := buf.clear_head

/-- A connection that is given up leaves an idle row. -/
theorem sendRecv1_idle {row : Row} {answer : Recv} {delivered : Bool}
    (h : (sendRecv1 row answer delivered).ret = -1) :
    (sendRecv1 row answer delivered).row.Idle := by
  unfold sendRecv1 at h ⊢
  dsimp only at h ⊢
  split
  · exact idle_cleared _ _
  · split
    · exact idle_cleared _ _
    · split
      · rename_i herror heof hmore
        rw [if_neg herror, if_neg heof, dif_pos hmore] at h
        cases h
      · split <;> exact idle_cleared _ _

/-- Rows that no connection uses are idle. -/
structure IdleInv (s : State) : Prop where
  unused : s.pc ≠ .returned → ∀ fd, (∀ c, s.fds fd ≠ some (.conn c)) → (s.rows fd).Idle
  accepted : ∀ events acc, s.pc = .accepted events → s.acc = some acc → (s.rows acc).Idle
  closing : ∀ fd events, s.pc = .closing fd events → (s.rows fd).Idle

theorem idleInv_init (k : Startup) : IdleInv (init k) where
  unused := fun _ _ _ => rfl
  accepted := nofun
  closing := fun _ _ _ => rfl

section Invariant

variable {k : Startup} {input : ConnId → Nat → UInt8} {s t : State} {a : Action}

/-- A descriptor without a connection after a `close` had none before, or is the one
closed. -/
theorem unused_close {table : Table} {d fd : Nat}
    (h : ∀ c, Function.update table d none fd ≠ some (.conn c)) :
    fd = d ∨ ∀ c, table fd ≠ some (.conn c) := by
  rcases eq_or_ne fd d with heq | hne
  · exact .inl heq
  · rw [Function.update_of_ne hne] at h
    exact .inr h

theorem IdleInv.step (h : IdleInv s) (hstep : step k input s a = some t) : IdleInv t := by
  cases move_of_step hstep with
  | epollWait pc nodup known => exact ⟨fun _ => h.unused (by simp [pc]), nofun, nofun⟩
  | acceptFails pc => exact ⟨fun _ => h.unused (by simp [pc]), nofun, nofun⟩
  | @accepts events acc pc free =>
      have hunused := h.unused (by simp [pc])
      refine ⟨fun _ fd hfd => hunused fd fun c hc => ?_, fun _ e _ hacc => ?_, nofun⟩
      · refine hfd c ((Function.update_of_ne ?_ _ _).trans hc)
        rintro rfl
        cases free.1.symm.trans hc
      · obtain rfl := Option.some.inj hacc
        exact hunused acc fun c hc => by cases free.1.symm.trans hc
  | @refuses events acc added pc new full =>
      refine ⟨fun _ fd hfd => ?_, nofun, nofun⟩
      rcases unused_close hfd with rfl | hold
      · exact h.accepted events _ pc new
      · exact h.unused (by simp [pc]) fd hold
  | registers pc new room => exact ⟨fun _ => h.unused (by simp [pc]), nofun, nofun⟩
  | registerFails pc new room => exact ⟨fun hpc => absurd rfl hpc, nofun, nofun⟩
  | @serves fd events c readable delivered pc conn =>
      refine ⟨fun _ e he => ?_, fun events' acc hpc => ?_, fun e events' hpc => ?_⟩
      · have hne : e ≠ fd := by
          rintro rfl
          exact he c conn
        dsimp only [State.serve]
        rw [Function.update_of_ne hne]
        exact h.unused (by simp [pc]) e he
      · dsimp only [State.serve] at hpc
        split at hpc <;> cases hpc
      · dsimp only [State.serve] at hpc ⊢
        split at hpc
        · rename_i hret
          cases hpc
          rw [Function.update_self]
          exact sendRecv1_idle hret
        · cases hpc
  | @closes fd events pc mem =>
      refine ⟨fun _ e he => ?_, nofun, nofun⟩
      rcases unused_close he with rfl | hold
      · exact h.closing e events pc
      · exact h.unused (by simp [pc]) e hold
  | closeFails pc mem => exact ⟨fun hpc => absurd rfl hpc, nofun, nofun⟩

end Invariant

end NetworkProgram.Oneline1
