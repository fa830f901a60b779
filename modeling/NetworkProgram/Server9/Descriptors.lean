import NetworkProgram.Kernel.EpollSet
import NetworkProgram.Server9.Steps

set_option autoImplicit false

/-!
# Server9: connections, descriptors and the epoll set

Whatever the clients and the network do: the descriptors in the epoll set are
open connections, there are at most `MAX_CHILD - 1` of them, `accept_loop` looks
only at events of the listening socket or of the set, and `EPOLL_CTL_DEL` never
fails.
-/

namespace NetworkProgram.Server9

open NetworkProgram.Foundation
open NetworkProgram.Kernel

/-- The events left to look at are of the listening socket or of the epoll set,
each once. -/
def KnownEvents (k : Startup) (interest events : List Nat) : Prop :=
  events.Nodup ∧ ∀ fd ∈ events, fd = k.soc ∨ fd ∈ interest

/-- What holds at each place of `accept_loop`. -/
def Placed (k : Startup) (s : State) : Prop :=
  match s.pc with
  | .batch events => KnownEvents k s.interest events ∧ s.count = s.interest.length
  | .accepted events =>
      KnownEvents k s.interest events ∧ s.count = s.interest.length ∧
        ∃ acc, s.acc = some acc ∧ acc ∉ s.interest ∧ ∃ c, s.fds acc = some (.conn c)
  | .recving fd events =>
      KnownEvents k s.interest (fd :: events) ∧ s.count = s.interest.length ∧
        fd ∈ s.interest ∧ (s.lastSlot fd).acc = fd
  | .recvd fd events =>
      KnownEvents k s.interest (fd :: events) ∧ s.count = s.interest.length ∧
        fd ∈ s.interest ∧ (s.lastSlot fd).acc = fd
  | .closing fd events =>
      KnownEvents k s.interest events ∧ s.count = s.interest.length + 1 ∧
        fd ∉ s.interest ∧ ∃ c, s.fds fd = some (.conn c)
  | .returned => True

structure DescInv (k : Startup) (s : State) : Prop where
  conn_lt : ∀ d c, s.fds d = some (.conn c) → c < s.next
  injective : Table.ConnInjective s.fds
  nodup : s.interest.Nodup
  registered : ∀ d ∈ s.interest, ∃ c, s.fds d = some (.conn c)
  size : s.interest.length < maxChild
  room : s.count < maxChild
  epollfd : s.pc ≠ .returned → s.fds k.epollfd = some .epoll
  placed : Placed k s

theorem descInv_init (k : Startup) : DescInv k (init k) where
  conn_lt := fun d c h => absurd h (k.noConn d c)
  injective := fun d _ c h => absurd h (k.noConn d c)
  nodup := List.nodup_nil
  registered := fun _ h => absurd h List.not_mem_nil
  size := by simp [init, maxChild]
  room := by simp [init, maxChild]
  epollfd := fun _ => k.epollfd_epoll
  placed := ⟨⟨List.nodup_nil, fun _ h => absurd h List.not_mem_nil⟩, rfl⟩

section Step

variable {k : Startup} {s t : State} {a : Action}

theorem KnownEvents.tail {interest events : List Nat} {fd : Nat}
    (h : KnownEvents k interest (fd :: events)) : KnownEvents k interest events :=
  Reported.tail h

theorem KnownEvents.grow {interest events : List Nat} (h : KnownEvents k interest events)
    (fd : Nat) : KnownEvents k (fd :: interest) events :=
  Reported.grow h fd

theorem KnownEvents.erase {interest events : List Nat} {fd : Nat}
    (h : KnownEvents k interest (fd :: events)) : KnownEvents k (interest.erase fd) events :=
  Reported.erase h

theorem epollfd_close {fds : Table} {fd : Nat} (h : fds k.epollfd = some .epoll)
    (hfd : ∃ c, fds fd = some (.conn c)) :
    Function.update fds fd none k.epollfd = some .epoll := by
  obtain ⟨c, hc⟩ := hfd
  exact Table.update_of_held h (by simp [hc]) _

/-- The number that `accept_loop` put into its slot stays there. -/
theorem lastSlot_acc_of_thread (hstep : step k s a = some t) (thread : a.IsThread) (fd : Nat) :
    (t.lastSlot fd).acc = (s.lastSlot fd).acc := by
  have move := queueMove_of_step hstep (queueIndex fd)
  unfold State.lastSlot
  generalize t.queues (queueIndex fd) = q', t.threads (queueIndex fd) = p' at move ⊢
  cases move with
  | stay => rfl
  | store storing => exact absurd storing (thread.quiet s _).1
  | publish publishing => exact absurd publishing (thread.quiet s _).2
  | dequeue => rfl
  | @format i f _ _ stage =>
      simp only [Queue.setSlot]
      by_cases hi : (s.queues (queueIndex fd)).last = i
      · subst hi
        rw [Function.update_self]
        exact (stage.fields _).1
      · rw [Function.update_of_ne hi]
  | reply => rfl

/-- A step that changes neither the descriptors nor the set nor the counter. -/
theorem DescInv.quiet (h : DescInv k s) (running : t.pc ≠ .returned → s.pc ≠ .returned)
    (fds : t.fds = s.fds) (next : t.next = s.next) (interest : t.interest = s.interest)
    (count : t.count = s.count) (placed : Placed k t) : DescInv k t where
  conn_lt := by rw [fds, next]; exact h.conn_lt
  injective := by rw [fds]; exact h.injective
  nodup := by rw [interest]; exact h.nodup
  registered := by rw [fds, interest]; exact h.registered
  size := by rw [interest]; exact h.size
  room := by rw [count]; exact h.room
  epollfd := by rw [fds]; exact fun hpc => h.epollfd (running hpc)
  placed := placed

/-- A connection outside of the set is closed. -/
theorem DescInv.close (h : DescInv k s) (running : s.pc ≠ .returned) {fd : Nat}
    (hfd : fd ∉ s.interest) (conn : ∃ c, s.fds fd = some (.conn c))
    (fds : t.fds = Function.update s.fds fd none) (next : t.next = s.next)
    (interest : t.interest = s.interest) (count : t.count ≤ s.count) (placed : Placed k t) :
    DescInv k t where
  conn_lt := by rw [fds, next]; exact conn_lt_close h.conn_lt fd
  injective := by rw [fds]; exact h.injective.close fd
  nodup := by rw [interest]; exact h.nodup
  registered := by rw [fds, interest]; exact registered_close h.registered hfd
  size := by rw [interest]; exact h.size
  room := count.trans_lt h.room
  epollfd := by rw [fds]; exact fun _ => epollfd_close (h.epollfd running) conn
  placed := placed

/-- A `send_thread` changes nothing here. -/
theorem DescInv.thread (h : DescInv k s) (hstep : step k s a = some t) (thread : a.IsThread)
    (pc : t.pc = s.pc) (fds : t.fds = s.fds) (next : t.next = s.next)
    (interest : t.interest = s.interest) (count : t.count = s.count) (acc : t.acc = s.acc) :
    DescInv k t := by
  have hslot := lastSlot_acc_of_thread hstep thread
  refine h.quiet (by rw [pc]; exact id) fds next interest count ?_
  have hplaced := h.placed
  unfold Placed at hplaced ⊢
  simp only [pc, fds, interest, count, acc, hslot]
  exact hplaced

/-- The connection that `accept_loop` has in hand is open, and not in the set. -/
theorem DescInv.accepted (h : DescInv k s) {events : List Nat} {acc : Nat}
    (pc : s.pc = .accepted events) (new : s.acc = some acc) :
    KnownEvents k s.interest events ∧ s.count = s.interest.length ∧ acc ∉ s.interest ∧
      ∃ c, s.fds acc = some (.conn c) := by
  have hplaced := h.placed
  simp only [Placed, pc] at hplaced
  obtain ⟨known, count, acc', hnew, hacc, hconn⟩ := hplaced
  obtain rfl := Option.some.inj (new.symm.trans hnew)
  exact ⟨known, count, hacc, hconn⟩

/-- The epoll instance is not in its own set. -/
theorem DescInv.epollfd_not_mem (h : DescInv k s) (running : s.pc ≠ .returned) :
    k.epollfd ∉ s.interest := by
  intro hmem
  obtain ⟨c, hc⟩ := h.registered _ hmem
  cases (h.epollfd running).symm.trans hc

theorem DescInv.accept (h : DescInv k s) {events : List Nat} {acc : Nat}
    (pc : s.pc = .batch (k.soc :: events)) (free : LowestFree s.fds acc) :
    DescInv k { s with
      pc := .accepted events
      acc := some acc
      fds := Function.update s.fds acc (some (.conn s.next))
      next := s.next + 1 } := by
  have hplaced := h.placed
  simp only [Placed, pc] at hplaced
  have hnotin : acc ∉ s.interest := by
    intro hmem
    obtain ⟨c, hc⟩ := h.registered acc hmem
    cases free.1.symm.trans hc
  refine ⟨conn_lt_open h.conn_lt _, h.injective.open_ ?_ acc, h.nodup,
    registered_open h.registered free.1 _, h.size, h.room,
    fun _ => Table.update_of_held (h.epollfd (by simp [pc])) (by simp [free.1]) _,
    hplaced.1.tail, hplaced.2, acc, rfl, hnotin, s.next, Function.update_self _ _ _⟩
  intro e he
  exact absurd (h.conn_lt e _ he) (Nat.lt_irrefl _)

/-- The set grows and shrinks with the counter. -/
theorem DescInv.register (h : DescInv k s) {events : List Nat} {acc : Nat}
    (pc : s.pc = .accepted events) (new : s.acc = some acc) (room : s.count + 1 < maxChild) :
    DescInv k { s with
      pc := .batch events, interest := acc :: s.interest, count := s.count + 1 } := by
  obtain ⟨known, count, hacc, hconn⟩ := h.accepted pc new
  refine ⟨h.conn_lt, h.injective, List.nodup_cons.mpr ⟨hacc, h.nodup⟩,
    List.forall_mem_cons.mpr ⟨hconn, h.registered⟩, ?_, room, fun _ => h.epollfd (by simp [pc]),
    known.grow _, ?_⟩
  · dsimp only
    rw [List.length_cons]
    omega
  · dsimp only
    rw [List.length_cons]
    omega

theorem DescInv.deregister (h : DescInv k s) {fd : Nat} {events : List Nat}
    (pc : s.pc = .recvd fd events) (mem : fd ∈ s.interest) :
    DescInv k { s with pc := .closing fd events, interest := s.interest.erase fd } := by
  have hplaced := h.placed
  simp only [Placed, pc] at hplaced
  obtain ⟨known, count, -, -⟩ := hplaced
  have hlen := List.length_erase_of_mem mem
  have hpos := List.length_pos_of_mem mem
  have hsize := h.size
  refine ⟨h.conn_lt, h.injective, h.nodup.erase _,
    fun d hd => h.registered d (List.mem_of_mem_erase hd), ?_, h.room,
    fun _ => h.epollfd (by simp [pc]), known.erase, ?_, h.nodup.not_mem_erase,
    h.registered fd mem⟩
  · dsimp only
    omega
  · dsimp only
    omega

theorem DescInv.step (h : DescInv k s) (hstep : step k s a = some t) : DescInv k t := by
  have hthread := h.thread hstep
  have hplaced := h.placed
  cases move_of_step hstep with
  | epollWait pc nodup known =>
      simp only [Placed, pc] at hplaced
      exact h.quiet (by simp [pc]) rfl rfl rfl rfl ⟨⟨nodup, known⟩, hplaced.2⟩
  | acceptFails pc =>
      simp only [Placed, pc] at hplaced
      exact h.quiet (by simp [pc]) rfl rfl rfl rfl ⟨hplaced.1.tail, hplaced.2⟩
  | accepts pc free => exact h.accept pc free
  | refuses pc new full =>
      obtain ⟨known, count, hacc, hconn⟩ := h.accepted pc new
      exact h.close (by simp [pc]) hacc hconn rfl rfl rfl le_rfl ⟨known, count⟩
  | registers pc new room => exact h.register pc new room
  | registerFails pc new room =>
      obtain ⟨-, -, hacc, -⟩ := h.accepted pc new
      exact ⟨conn_lt_close (conn_lt_close h.conn_lt _) _, (h.injective.close _).close _, h.nodup,
        registered_close (registered_close h.registered hacc) (h.epollfd_not_mem (by simp [pc])),
        h.size, h.room, fun hpc => absurd rfl hpc, trivial⟩
  | @storesAcc fd events pc ne =>
      simp only [Placed, pc] at hplaced
      have hfd : fd ∈ s.interest :=
        (hplaced.1.2 fd List.mem_cons_self).resolve_left ne
      exact h.quiet (by simp [pc]) rfl rfl rfl rfl ⟨hplaced.1, hplaced.2, hfd,
        by simp [State.lastSlot, State.setLastSlot, State.setQueue, Queue.setSlot]⟩
  | recvEnds pc ended =>
      simp only [Placed, pc] at hplaced
      obtain ⟨known, count, hfd, hacc⟩ := hplaced
      refine h.quiet (by simp [pc]) rfl rfl rfl rfl ⟨known, count, hfd, ?_⟩
      simpa [State.lastSlot, State.setLastSlot, State.setQueue, Queue.setSlot] using hacc
  | recvs pc owner =>
      simp only [Placed, pc] at hplaced
      obtain ⟨known, count, hfd, hacc⟩ := hplaced
      refine h.quiet (by simp [pc]) rfl rfl rfl rfl ⟨known, count, hfd, ?_⟩
      simpa [State.lastSlot, State.setLastSlot, State.setQueue, Queue.setSlot] using hacc
  | deregisters pc ended mem => exact h.deregister pc mem
  | deregisterFails pc ended mem =>
      simp only [Placed, pc] at hplaced
      exact absurd hplaced.2.2.1 mem
  | publishes pc got =>
      simp only [Placed, pc] at hplaced
      exact h.quiet (by simp [pc]) rfl rfl rfl rfl ⟨hplaced.1.tail, hplaced.2.1⟩
  | closes pc =>
      simp only [Placed, pc] at hplaced
      obtain ⟨known, count, hfd, hconn⟩ := hplaced
      refine h.close (by simp [pc]) hfd hconn rfl rfl rfl (Int.sub_le_self _ (by decide))
        ⟨known, ?_⟩
      dsimp only
      omega
  | dequeues => exact hthread trivial rfl rfl rfl rfl rfl rfl
  | waits => exact hthread trivial rfl rfl rfl rfl rfl rfl
  | resumes => exact hthread trivial rfl rfl rfl rfl rfl rfl
  | formats => exact hthread trivial rfl rfl rfl rfl rfl rfl
  | replies => exact hthread trivial rfl rfl rfl rfl rfl rfl
  | wakesUp => exact hthread trivial rfl rfl rfl rfl rfl rfl

end Step

/-! ## Connections outside of the set -/

/-- The open connection that is not in the set: just accepted, or about to be closed. -/
def State.outside (s : State) : Option Nat :=
  match s.pc with
  | .accepted _ => s.acc
  | .closing fd _ => some fd
  | _ => none

/-- All other connections are in it. -/
def Held (s : State) : Prop :=
  ∀ d c, s.fds d = some (.conn c) → d ∈ s.interest ∨ s.outside = some d

theorem held_init (k : Startup) : Held (init k) := fun d c h => absurd h (k.noConn d c)

section Held

variable {s t : State} {d fd : Nat} {c : ConnId}

theorem Held.inside (h : Held s) (hout : s.outside = none)
    (hd : s.fds d = some (.conn c)) : d ∈ s.interest := by
  refine (h d c hd).resolve_right fun houtside => ?_
  cases hout.symm.trans houtside

/-- A step that opens nothing, and keeps the set. -/
theorem Held.fewer (h : Held s) (hout : s.outside = none)
    (hfds : ∀ d x, t.fds d = some x → s.fds d = some x) (hinterest : t.interest = s.interest) :
    Held t := by
  intro d c hd
  rw [hinterest]
  exact .inl (h.inside hout (hfds d _ hd))

/-- A step that changes neither the descriptors nor the set. -/
theorem Held.quiet (h : Held s) (hout : s.outside = none) (hfds : t.fds = s.fds)
    (hinterest : t.interest = s.interest) : Held t :=
  h.fewer hout (fun _ _ hd => hfds ▸ hd) hinterest

/-- The connection outside of the set is closed, and perhaps another descriptor. -/
theorem Held.close (h : Held s) (hout : s.outside = some fd)
    (hfds : ∀ d x, t.fds d = some x → d ≠ fd ∧ s.fds d = some x)
    (hinterest : t.interest = s.interest) : Held t := by
  intro d c hd
  rw [hinterest]
  obtain ⟨hne, hold⟩ := hfds d _ hd
  refine .inl ((h d c hold).resolve_right fun houtside => hne ?_)
  exact (Option.some.inj (hout.symm.trans houtside)).symm

theorem Held.step {k : Startup} {a : Action} (h : Held s) (hstep : step k s a = some t) :
    Held t := by
  cases move_of_step hstep with
  | epollWait pc nodup known => exact h.quiet (by simp [State.outside, pc]) rfl rfl
  | acceptFails pc => exact h.quiet (by simp [State.outside, pc]) rfl rfl
  | @accepts events acc pc free =>
      intro d c hd
      rcases eq_or_ne d acc with rfl | hne
      · exact .inr rfl
      · dsimp only at hd
        rw [Function.update_of_ne hne] at hd
        exact .inl (h.inside (by simp [State.outside, pc]) hd)
  | refuses pc new full =>
      exact h.close (by simp [State.outside, pc, new]) (fun _ _ => held_of_close) rfl
  | registers pc new room =>
      intro d c hd
      refine .inl (List.mem_cons.mpr ((h d c hd).symm.imp (fun hout => ?_) id))
      simpa [State.outside, pc, new, eq_comm] using hout
  | registerFails pc new room =>
      exact h.close (by simp [State.outside, pc, new])
        (fun _ _ hd => held_of_close (held_of_close hd).2) rfl
  | storesAcc pc ne => exact h.quiet (by simp [State.outside, pc]) rfl rfl
  | recvEnds pc ended => exact h.quiet (by simp [State.outside, pc]) rfl rfl
  | recvs pc owner => exact h.quiet (by simp [State.outside, pc]) rfl rfl
  | @deregisters fd events pc ended mem =>
      intro d c hd
      have hmem := h.inside (by simp [State.outside, pc]) hd
      rcases eq_or_ne d fd with rfl | hne
      · exact .inr rfl
      · exact .inl ((List.mem_erase_of_ne hne).mpr hmem)
  | deregisterFails pc ended mem =>
      exact h.fewer (by simp [State.outside, pc])
        (fun _ _ hd => held_of_closeAcc (held_of_close hd).2) rfl
  | publishes pc got => exact h.quiet (by simp [State.outside, pc]) rfl rfl
  | closes pc => exact h.close (by simp [State.outside, pc]) (fun _ _ => held_of_close) rfl
  | dequeues => exact h
  | waits => exact h
  | resumes => exact h
  | formats => exact h
  | replies => exact h
  | wakesUp => exact h

end Held

theorem held_of_run {k : Startup} {s : State} (run : Reaches (step k) (init k) s) : Held s :=
  run.invariant (held_init k) fun _ _ _ h hstep => h.step hstep

theorem descInv_of_run {k : Startup} {s : State} (run : Reaches (step k) (init k) s) :
    DescInv k s :=
  run.invariant (descInv_init k) fun _ _ _ h hstep => h.step hstep

end NetworkProgram.Server9
