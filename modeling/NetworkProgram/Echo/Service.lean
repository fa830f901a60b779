import Mathlib.Data.List.Nodup
import NetworkProgram.Echo.Children

set_option autoImplicit false

/-!
# Echo: the service the servers give

Seen from outside a server is a set of open connections, at most `MAX_CHILD - 1`
of them.  This module says what one event does to such a service, and that the
moves of a server do the same.
-/

namespace NetworkProgram.Echo

open NetworkProgram.Foundation
open NetworkProgram.Kernel
open NetworkProgram.Libc

/-- How a call of `send_recv` goes when the chunk leaves room for the NUL. -/
inductive Outcome
  | data (chunk : Chunk) (short : chunk.bytes.length < bufSize) (delivered : Bool)
  | eof
  | error

/-- One event on the outside of a server. -/
inductive Single
  | connect
  | call (c : ConnId) (outcome : Outcome)

namespace Outcome

/-- The call goes so, whatever is on the stack. -/
def Matches (a : Answer) : Outcome → Prop
  | .data chunk _ delivered => a.received = .data chunk ∧ a.delivered = delivered
  | .eof => a.received = .eof
  | .error => a.received = .error

/-- The connection stays open. -/
def kept : Outcome → Bool
  | .data _ _ delivered => delivered
  | .eof => false
  | .error => false

def sent : Outcome → List Bytes
  | .data chunk _ delivered => if delivered then [echo chunk.bytes] else []
  | .eof => []
  | .error => []

/-- An answer that matches. -/
def answer : Outcome → Answer
  | .data chunk _ delivered => .plain (.data chunk) delivered
  | .eof => .plain .eof true
  | .error => .plain .error true

theorem matches_answer (o : Outcome) : o.Matches o.answer := by
  cases o with
  | data chunk short delivered => exact ⟨rfl, rfl⟩
  | eof => rfl
  | error => rfl

theorem Matches.sendRecv {o : Outcome} {a : Answer} (h : o.Matches a) :
    ((sendRecv a).ret = -1 ↔ o.kept = false) ∧ (sendRecv a).sent = o.sent := by
  obtain ⟨stack, received, delivered⟩ := a
  cases o with
  | data chunk short kept =>
      obtain ⟨rfl, rfl⟩ := h
      rw [sendRecv_data stack short]
      cases delivered <;> exact ⟨by simp [kept], rfl⟩
  | eof =>
      obtain rfl := h
      exact ⟨by simp [Echo.sendRecv, kept], rfl⟩
  | error =>
      obtain rfl := h
      exact ⟨by simp [Echo.sendRecv, kept], rfl⟩

end Outcome

/-- The open connections, the number accepted so far, and the log. -/
structure Service where
  conns : List ConnId
  next : ConnId
  log : List Event

namespace Service

def start : Service where
  conns := []
  next := 0
  log := []

def connect (v : Service) : Service :=
  if v.conns.length + 1 ≥ maxChild then
    { v with
      next := v.next + 1
      log := v.log ++ [.accepted v.next, .closed (some (.conn v.next))] }
  else
    { conns := v.next :: v.conns
      next := v.next + 1
      log := v.log ++ [.accepted v.next] }

def call (v : Service) (c : ConnId) (o : Outcome) : Service where
  conns := if o.kept then v.conns else v.conns.erase c
  next := v.next
  log := v.log ++ .called (some (.conn c)) :: o.sent.map (.sent (some (.conn c))) ++
    if o.kept then [] else [.closed (some (.conn c))]

/-- A call is for an open connection. -/
def step (v : Service) : Single → Option Service
  | .connect => some v.connect
  | .call c o => if c ∈ v.conns then some (v.call c o) else none

/-- The log after these events, if they are for connections open at the time. -/
def expected (events : List Single) : Option (List Event) :=
  (exec step start events).map Service.log

end Service

/-! ## Servers and the service -/

/-- A server at the top of its loop is in this state of the service. -/
structure Represents (soc : Nat) (h : Host) (v : Service) : Prop where
  ok : h.Ok soc
  next : h.next = v.next
  log : h.log = v.log
  opened : ∀ c, h.fds.Open c ↔ c ∈ v.conns
  nodup : v.conns.Nodup

theorem represents_start (k : Listener) : Represents k.soc (.start k) .start where
  ok := Host.ok_start k
  next := rfl
  log := rfl
  opened := fun c => ⟨fun ⟨d, hd⟩ => absurd hd (k.noConn d c), fun h => absurd h List.not_mem_nil⟩
  nodup := List.nodup_nil

section Represents

variable {soc : Nat} {h t : Host} {v : Service}

/-- Descriptors without duplicates that are the connections' are as many as these. -/
theorem Represents.length_eq (rep : Represents soc h v) {held : List Nat} (hnodup : held.Nodup)
    (hheld : ∀ fd, fd ∈ held ↔ ∃ c, h.fds fd = some (.conn c)) :
    held.length = v.conns.length := by
  have hperm : (held.map h.fds).Perm (v.conns.map fun c => some (.conn c)) := by
    rw [List.perm_ext_iff_of_nodup]
    · intro d
      rw [List.mem_map, List.mem_map]
      constructor
      · rintro ⟨fd, hfd, rfl⟩
        obtain ⟨c, hc⟩ := (hheld fd).mp hfd
        exact ⟨c, (rep.opened c).mp ⟨fd, hc⟩, hc.symm⟩
      · rintro ⟨c, hc, rfl⟩
        obtain ⟨fd, hfd⟩ := (rep.opened c).mpr hc
        exact ⟨fd, (hheld fd).mpr ⟨c, hfd⟩, hfd⟩
    · refine List.Nodup.map_on (fun d hd e _ heq => ?_) hnodup
      obtain ⟨c, hc⟩ := (hheld d).mp hd
      exact rep.ok.injective d e c hc (heq.symm.trans hc)
    · exact List.Nodup.map (fun c e heq => by simpa using heq) rep.nodup
  simpa using hperm.length_eq

theorem Represents.next_notMem (rep : Represents soc h v) : v.next ∉ v.conns := by
  intro hmem
  obtain ⟨d, hd⟩ := (rep.opened _).mpr hmem
  exact Nat.lt_irrefl _ (rep.next ▸ rep.ok.lt_next hd)

theorem Represents.connect (rep : Represents soc h v) {d : Nat}
    (move : h.step (admission v.conns.length d) = some t) : Represents soc t v.connect := by
  have hfresh := rep.next_notMem
  unfold admission at move
  unfold Service.connect
  split at move
  · rename_i hfull
    simp only [Host.step, Option.ite_none_right_eq_some, Option.some.injEq] at move
    obtain ⟨free, rfl⟩ := move
    rw [if_pos hfull]
    refine ⟨rep.ok.refuse free, congrArg Nat.succ rep.next, ?_, fun c => ?_, rep.nodup⟩
    · simp [Host.close, Host.accept, rep.log, rep.next]
    · have hself : (h.accept d).fds d = some (.conn h.next) := Function.update_self ..
      have hclose := (rep.ok.accept free).injective.open_close hself c
      have haccept := Table.open_accept free.1 h.next c
      dsimp only [Host.close, Host.accept] at hclose haccept ⊢
      rw [hclose, haccept, rep.opened c, rep.next]
      constructor
      · rintro ⟨rfl | hmem, hne⟩
        · exact absurd rfl hne
        · exact hmem
      · intro hmem
        exact ⟨.inr hmem, fun heq => hfresh (heq ▸ hmem)⟩
  · rename_i hfull
    simp only [Host.step, Option.ite_none_right_eq_some, Option.some.injEq] at move
    obtain ⟨free, rfl⟩ := move
    rw [if_neg hfull]
    refine ⟨rep.ok.accept free, congrArg Nat.succ rep.next, ?_, fun c => ?_,
      List.nodup_cons.mpr ⟨hfresh, rep.nodup⟩⟩
    · simp [Host.accept, rep.log, rep.next]
    · rw [Host.accept, Table.open_accept free.1, rep.opened c, rep.next, List.mem_cons]

theorem Represents.call (rep : Represents soc h v) {fd : Nat} {c : ConnId} {o : Outcome}
    {a : Answer} (hfd : h.fds fd = some (.conn c)) (ha : o.Matches a) :
    Represents soc (h.visit fd a) (v.call c o) := by
  have hok := rep.ok.visit hfd a
  obtain ⟨hret, hsent⟩ := ha.sendRecv
  unfold Host.visit at hok ⊢
  unfold Service.call
  cases hkept : o.kept with
  | true =>
      have hne : ¬ (sendRecv a).ret = -1 := by simp [hret, hkept]
      rw [if_neg hne] at hok ⊢
      exact {
        ok := hok
        next := rep.next
        log := by simp [Host.call, hfd, hsent, rep.log]
        opened := rep.opened
        nodup := rep.nodup }
  | false =>
      have heq : (sendRecv a).ret = -1 := hret.mpr hkept
      rw [if_pos heq] at hok ⊢
      exact {
        ok := hok
        next := rep.next
        log := by simp [Host.close, Host.call, hfd, hsent, rep.log]
        opened := by
          intro e
          have hclose := rep.ok.injective.open_close hfd e
          dsimp only [Host.close, Host.call]
          rw [hclose, rep.opened e, if_neg Bool.false_ne_true, rep.nodup.mem_erase_iff, and_comm]
        nodup := by
          rw [if_neg Bool.false_ne_true]
          exact rep.nodup.erase c }

end Represents

end NetworkProgram.Echo
