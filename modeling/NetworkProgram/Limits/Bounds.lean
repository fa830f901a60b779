import NetworkProgram.Echo.Batches
import NetworkProgram.Oneline1.Descriptors

set_option autoImplicit false

/-!
# Limits: the counter of the epoll servers

`server4` and `oneline1` count their connections, and both call `epoll_wait` with room
for `MAX_CHILD + 1` events on an array of `MAX_CHILD`.
-/

namespace NetworkProgram.Limits

open NetworkProgram.Foundation
open NetworkProgram.Kernel

/-- `count` is the number of connections in the epoll set, less than `limit`, and
`epoll_wait` has no more than `limit` events to report. -/
structure Counted (limit soc : Nat) (fds : Table) (count : Int) (interest : List Nat) : Prop where
  nodup : interest.Nodup
  registered : ∀ fd ∈ interest, ∃ c, fds fd = some (.conn c)
  counts : count = interest.length
  nonneg : 0 ≤ count
  lt : count ≤ limit - 1
  fits : ∀ events, Reported soc interest events → events.length ≤ limit

/-- A counter that is exact keeps the events within the array. -/
theorem counted_of {limit soc : Nat} {fds : Table} {count : Int} {interest : List Nat}
    (nodup : interest.Nodup) (registered : ∀ fd ∈ interest, ∃ c, fds fd = some (.conn c))
    (hcount : count = interest.length) (hlt : interest.length < limit) :
    Counted limit soc fds count interest where
  nodup := nodup
  registered := registered
  counts := hcount
  nonneg := by omega
  lt := by omega
  fits := fun _ h => Nat.le_trans h.length_le hlt

/-- In every state that `server4` comes to, between two events as well, and in every state
of `oneline1`: the counter is exact, and no more events are reported than the array holds.
In `oneline1`, started with the standard streams only, every descriptor that indexes the
tables has a row in them. -/
theorem epoll_bounded :
    (∀ (k : Echo.Epoll.Startup) (s : Echo.Epoll.State), Echo.Epoll.Comes k s →
      s.returned = false → Counted Echo.maxChild k.soc s.host.fds s.count s.interest) ∧
    (∀ (k : Startup) (input : ConnId → Nat → UInt8) (s : Oneline1.State),
      Reaches (Oneline1.step k input) (Oneline1.init k) s → s.pc ≠ .returned →
        Counted Oneline1.maxChild k.soc s.fds s.count s.interest ∧
        (k.Standard → ∀ fd events, s.pc = .batch (fd :: events) → fd ≠ k.soc →
          fd < Oneline1.maxChild * 4)) := by
  refine ⟨fun k s comes running => ?_, fun k input s run running => ⟨?_, ?_⟩⟩
  · have ok := comes.ok running
    exact counted_of ok.nodup (fun fd => (ok.held fd).mp) ok.count
      (Nat.lt_of_le_of_lt ok.room (by decide))
  · have desc := Oneline1.descInv_of_run run
    exact counted_of desc.nodup (desc.registered running) desc.count
      (Nat.lt_of_le_of_lt desc.room (by decide))
  · intro standard fd events pc hne
    have desc := Oneline1.descInv_of_run run
    have hplaced := desc.placed
    simp only [Oneline1.Placed, pc] at hplaced
    have hfd := (hplaced.2 fd List.mem_cons_self).resolve_left hne
    obtain ⟨c, hc⟩ := desc.registered running fd hfd
    exact (Oneline1.low_of_run standard run).low fd c hc

theorem standard_plain : Startup.plain.Standard := by
  intro d hd
  by_contra hnot
  push Not at hnot
  obtain ⟨htwo, hsoc, hepoll⟩ := hnot
  refine hd ?_
  unfold Startup.plain at hsoc hepoll ⊢
  dsimp only at hsoc hepoll ⊢
  rw [if_neg (by omega), if_neg hsoc, if_neg hepoll]

/-- A connection is closed, and in the same round its descriptor is given away again. -/
theorem epoll_bounded_recycled :
    (∃ s, Echo.Epoll.Comes .plain s ∧ s.interest = [5] ∧ s.host.next = 2 ∧
      Counted Echo.maxChild 3 s.host.fds s.count s.interest) ∧
    (∃ s, Reaches (Oneline1.step .plain fun _ _ => 0) (Oneline1.init .plain) s ∧
      s.pc = .batch [5] ∧ s.next = 2 ∧ 5 < Oneline1.maxChild * 4) := by
  have first := Reaches.of_exec (show exec (Echo.Epoll.step .plain) (.start .plain)
    [.ready [3] (fun _ => some 5) (fun _ => true) fun _ => .plain .eof true] = some _ from rfl)
  have second := Echo.Epoll.Comes.between first (show Echo.Epoll.Serving .plain _ [5, 3]
    (fun _ => some 5) (fun _ => true) (fun _ => .plain .eof true) 2 _ from
    ⟨rfl, ⟨by decide, by decide⟩, by decide, rfl⟩)
  have run := Reaches.of_exec (show exec (Oneline1.step .plain fun _ _ => 0) (Oneline1.init .plain)
    [.epollWait [3], .accept (some 5), .register true, .epollWait [5, 3], .sendRecv .eof true,
      .close, .accept (some 5), .register true, .epollWait [5]] = some _ from rfl)
  exact ⟨⟨_, second, rfl, rfl, epoll_bounded.1 _ _ second rfl⟩,
    ⟨_, run, rfl, rfl, (epoll_bounded.2 _ _ _ run (by decide)).2 standard_plain 5 [] rfl
      (by decide)⟩⟩

end NetworkProgram.Limits
