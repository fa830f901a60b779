import NetworkProgram.Limits.Acceptors

set_option autoImplicit false

/-!
# Limits: when the servers are full

`MAX_CHILD` is documented as the number of connections served at a time, but the test
`count + 1 >= MAX_CHILD` refuses the connection that would be number `MAX_CHILD`: all five
servers are full with one connection less.
-/

namespace NetworkProgram.Limits

open NetworkProgram.Foundation
open NetworkProgram.Kernel

theorem epoll_opened {k : Echo.Epoll.Startup} {u : Echo.Epoll.State} (ok : u.Ok k) {x : Admission}
    (free : LowestFree u.host.fds x.acc) (hfds : x.fds = u.host.fds) :
    x.opened = u.interest.length := by
  rw [Admission.opened, hfds]
  exact Table.opened_of_free ok.nodup ok.held free.1

theorem lowestFree_of_acceptReady {k : Echo.Epoll.Startup} {u t : Echo.Epoll.State} {d : Nat}
    {added : Bool} (h : Echo.Epoll.acceptReady k u (some d) added = .ok t) :
    LowestFree u.host.fds d := by
  by_contra hnot
  rw [Echo.Epoll.acceptReady, if_neg hnot] at h
  cases h

theorem epoll_fullAt (k : Echo.Epoll.Startup) : (epoll k).FullAt (maxChild - 1) := by
  rintro s run a x ⟨events, result, added, answer, n, u, t, -, serving, running, -, -, hready,
    hfds, hfull⟩
  have ok := (Echo.Epoll.Comes.between run serving).ok running
  have hroom := ok.room
  have hcount := ok.count
  have free := lowestFree_of_acceptReady hready
  rw [Echo.Epoll.acceptReady, if_pos free, Except.ok.injEq] at hready
  subst hready
  rw [hfull, epoll_opened ok free hfds]
  unfold Echo.Epoll.register
  split
  · rename_i hge
    refine iff_of_true ⟨running, Function.update_self ..⟩ ?_
    simp only [Echo.maxChild, maxChild] at *
    omega
  · rename_i hlt
    refine iff_of_false ?_ ?_
    · cases added n with
      | true =>
          rintro ⟨-, hnone⟩
          simp [Echo.Host.accept] at hnone
      | false =>
          rintro ⟨hrun, -⟩
          simp at hrun
    · simp only [Echo.maxChild, maxChild] at *
      omega

theorem epoll_below (k : Echo.Epoll.Startup) : (epoll k).Below maxChild := by
  intro s run
  have safe := Echo.Epoll.reaches_safe run
  refine ⟨encard_connections_lt (fun d c hd _ => safe.held d c hd)
    (Nat.lt_of_le_of_lt safe.room (by decide)), ?_⟩
  rintro a x ⟨events, result, added, answer, n, u, t, -, serving, running, -, -, hready, hfds, -⟩
  have ok := (Echo.Epoll.Comes.between run serving).ok running
  rw [epoll_opened ok (lowestFree_of_acceptReady hready) hfds]
  exact Nat.lt_of_le_of_lt ok.room (by decide)

/-- The epoll set lists the open connections but for the new one. -/
theorem queue_opened {k : Startup} {s : Server9.State} (desc : Server9.DescInv k s)
    (held : Server9.Held s) {events : List Nat} (pc : s.pc = .accepted events) {x : Admission}
    (hfds : x.fds = s.fds) (hacc : s.acc = some x.acc) : x.opened = s.interest.length := by
  obtain ⟨-, -, hnotin, -⟩ := desc.accepted pc hacc
  rw [Admission.opened, hfds]
  refine Table.opened_of_new desc.nodup hnotin desc.registered fun e c hc hne => ?_
  refine (held e c hc).resolve_right fun hout => hne ?_
  simpa [Server9.State.outside, pc, hacc, eq_comm] using hout

theorem queue_fullAt (k : Startup) : (queue k).FullAt (maxChild - 1) := by
  rintro s run a x ⟨events, added, t, pc, rfl, hstep, hfds, hacc, hfull⟩
  have desc := Server9.descInv_of_run run
  have hsize := desc.size
  obtain ⟨-, hcount, -, c, hc⟩ := desc.accepted pc hacc
  rw [hfull, queue_opened desc (Server9.held_of_run run) pc hfds hacc]
  cases Server9.move_of_step hstep with
  | refuses _ new full =>
      obtain rfl := Option.some.inj (new.symm.trans hacc)
      refine iff_of_true ⟨by simp, Function.update_self ..⟩ ?_
      simp only [Server9.maxChild, maxChild] at *
      omega
  | registers _ _ room =>
      refine iff_of_false (fun hfree => by cases hc.symm.trans hfree.2) ?_
      simp only [Server9.maxChild, maxChild] at *
      omega
  | registerFails _ _ room =>
      refine iff_of_false (fun hfree => hfree.1 rfl) ?_
      simp only [Server9.maxChild, maxChild] at *
      omega

/-- The connections are those of the set, and one that is about to be closed. -/
theorem queue_below (k : Startup) : (queue k).Below maxChild := by
  intro s run
  have desc := Server9.descInv_of_run run
  have held := Server9.held_of_run run
  constructor
  · cases hpc : s.pc with
    | closing fd events =>
        have hroom := desc.room
        have hplaced := desc.placed
        simp only [Server9.Placed, hpc] at hplaced
        refine @encard_connections_lt _ _ (fd :: s.interest) (fun d c hd _ => ?_) ?_
        · refine List.mem_cons.mpr ((held d c hd).symm.imp_left fun hout => ?_)
          simpa [Server9.State.outside, hpc, eq_comm] using hout
        · rw [List.length_cons]
          simp only [Server9.maxChild, maxChild] at *
          omega
    | accepted events =>
        refine encard_connections_lt (fun d c hd hne => ?_) desc.size
        refine (held d c hd).resolve_right fun hout => hne ?_
        simpa [queue, Server9.State.outside, hpc] using hout
    | _ =>
        exact encard_connections_lt
          (fun d c hd _ => held.inside (by simp [Server9.State.outside, hpc]) hd) desc.size
  · rintro a x ⟨events, added, t, pc, rfl, -, hfds, hacc, -⟩
    rw [queue_opened desc held pc hfds hacc]
    exact desc.size

theorem lines_opened {k : Startup} {s : Oneline1.State} (desc : Oneline1.DescInv k s)
    {events : List Nat} (pc : s.pc = .accepted events) {x : Admission} (hfds : x.fds = s.fds)
    (hacc : s.acc = some x.acc) : x.opened = s.interest.length := by
  obtain ⟨-, hnotin, -⟩ := desc.accepted pc hacc
  rw [Admission.opened, hfds]
  refine Table.opened_of_new desc.nodup hnotin (desc.registered (by simp [pc]))
    fun e c hc hne => ?_
  refine (desc.held e c hc).resolve_right fun hout => hne ?_
  simpa [Oneline1.State.outside, pc, hacc, eq_comm] using hout

theorem lines_fullAt (k : Startup) (input : ConnId → Nat → UInt8) :
    (lines k input).FullAt (maxChild - 1) := by
  rintro s run a x ⟨events, added, t, pc, rfl, hstep, hfds, hacc, hfull⟩
  have desc := Oneline1.descInv_of_run run
  have hroom := desc.room
  have hcount := desc.count
  obtain ⟨-, -, c, hc⟩ := desc.accepted pc hacc
  rw [hfull, lines_opened desc pc hfds hacc]
  cases Oneline1.move_of_step hstep with
  | refuses _ new full =>
      obtain rfl := Option.some.inj (new.symm.trans hacc)
      refine iff_of_true ⟨by simp, Function.update_self ..⟩ ?_
      simp only [Oneline1.maxChild, maxChild] at *
      omega
  | registers _ _ room =>
      refine iff_of_false (fun hfree => by cases hc.symm.trans hfree.2) ?_
      simp only [Oneline1.maxChild, maxChild] at *
      omega
  | registerFails _ _ room =>
      refine iff_of_false (fun hfree => hfree.1 rfl) ?_
      simp only [Oneline1.maxChild, maxChild] at *
      omega

theorem lines_below (k : Startup) (input : ConnId → Nat → UInt8) :
    (lines k input).Below maxChild := by
  intro s run
  have desc := Oneline1.descInv_of_run run
  have hlt : s.interest.length < maxChild := Nat.lt_of_le_of_lt desc.room (by decide)
  refine ⟨encard_connections_lt (fun d c hd hne => ?_) hlt, ?_⟩
  · exact (desc.held d c hd).resolve_right hne
  · rintro a x ⟨events, added, t, pc, rfl, -, hfds, hacc, -⟩
    rw [lines_opened desc pc hfds hacc]
    exact hlt

theorem Server.fullAt (server : Server) : server.acceptor.FullAt (maxChild - 1) := by
  cases server with
  | select k => exact select_fullAt k
  | poll k => exact poll_fullAt k
  | epoll k => exact epoll_fullAt k
  | queue k => exact queue_fullAt k
  | lines k input => exact lines_fullAt k input

theorem Server.below (server : Server) : server.acceptor.Below maxChild := by
  cases server with
  | select k => exact select_below k
  | poll k => exact poll_below k
  | epoll k => exact epoll_below k
  | queue k => exact queue_below k
  | lines k input => exact lines_below k input

/-- As long as no connection is accepted while `MAX_CHILD - 1` are open, the servers keep
to `MAX_CHILD`.  In any run, they do at each connection that is accepted exactly if not so
many are open.  `MAX_CHILD` connections are never open, not even just before one is refused. -/
theorem full_only_at_maxChild (server : Server) :
    (∀ s, Reaches (guarded (server.acceptor.Spares (maxChild - 1)) server.acceptor.step)
        server.acceptor.init s →
      ∀ a, server.acceptor.Spares (maxChild - 1) s a →
        ∀ x, server.acceptor.admits s a x → x.Within maxChild) ∧
    (∀ s, Reaches server.acceptor.step server.acceptor.init s →
      ∀ a x, server.acceptor.admits s a x → (x.Within maxChild ↔ x.opened ≠ maxChild - 1)) ∧
    server.acceptor.Below maxChild := by
  have hfull := server.fullAt
  refine ⟨fun s run a spares x hx => ?_,
    fun s run a x hx => hfull.within_iff (by decide) run hx, server.below⟩
  exact (hfull.within_iff (by decide) (reaches_of_guarded run) hx).mpr (spares x hx)

/-! ## Nineteen clients -/

/-- Connections that come one by one and stay, on descriptors from `d` on. -/
def arrivals : Nat → Nat → List Echo.Select.Wake
  | _, 0 => []
  | d, n + 1 => .ready [3] (some d) (fun _ => .plain .eof true) :: arrivals (d + 1) n

/-- `server2` closes a connection at once. -/
theorem select_admits {k : Echo.Listener} {s t : Echo.State} {d : Nat}
    (h : Echo.acceptReady s (some d) = .ok t) (closed : t.host.fds d = none) :
    (select k).admits s (.ready [k.soc] (some d) fun _ => .plain .eof true)
      { fds := s.host.fds, acc := d, full := true } :=
  ⟨_, _, rfl, List.mem_singleton_self _, t, h, rfl, iff_of_true rfl closed⟩

theorem nineteen_open :
    ∃ s t, Reaches (select .plain).step (select .plain).init s ∧ s.childNo = 19 ∧
      Echo.acceptReady s (some 23) = .ok t ∧ t.host.fds 23 = none := by
  have run := Reaches.of_exec (show exec (Echo.Select.step .plain) (.start .plain)
    (arrivals 4 19) = some _ from rfl)
  exact ⟨_, _, run, rfl, rfl, rfl⟩

/-- The next connection is refused, with one place left. -/
theorem full_only_at_maxChild_nineteen :
    ∃ s w x, s.childNo = 19 ∧ (select .plain).admits s w x ∧ x.full = true ∧
      (x.Within maxChild ↔ x.opened ≠ maxChild - 1) ∧ x.opened < maxChild := by
  obtain ⟨s, t, run, hno, hready, closed⟩ := nineteen_open
  have hx := select_admits (k := .plain) hready closed
  have key := full_only_at_maxChild (.select .plain)
  exact ⟨s, _, _, hno, hx, rfl, key.2.1 s run _ _ hx, (key.2.2 s run).2 _ _ hx⟩

theorem full_before_maxChild :
    ¬ ∀ server : Server, ∀ s, Reaches server.acceptor.step server.acceptor.init s →
      ∀ a x, server.acceptor.admits s a x → x.Within maxChild := by
  intro h
  obtain ⟨s, t, run, -, hready, closed⟩ := nineteen_open
  have hx := select_admits (k := .plain) hready closed
  have hopened := (select_fullAt .plain s run _ _ hx).mp rfl
  exact absurd ((h (.select .plain) s run _ _ hx rfl).symm.trans hopened) (by decide)

end NetworkProgram.Limits
