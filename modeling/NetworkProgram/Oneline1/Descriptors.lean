import NetworkProgram.Kernel.EpollSet
import NetworkProgram.Oneline1.Steps

set_option autoImplicit false

/-!
# Oneline1: descriptors, the counter and the epoll set

`accept_loop` of `chapter06/oneline1.c` keeps no list of its connections.  The kernel has
them in the epoll set (`interest`), and the local variable `count` is how many they are.
Three results are proved here, for every run, whatever the clients do and whatever
`accept`, `epoll_ctl(EPOLL_CTL_ADD)`, `recv` and `send` return:

* `DescInv`: the set and the counter agree, at most `MAX_CHILD - 1` connections are in the
  set, and besides the one just accepted no other is open.  It follows that
  `EPOLL_CTL_DEL` never fails, so that `close(acc)` behind it is not reached.
* `Low`: every descriptor of a connection has a row in `g_buf` and `g_pos`.  This rests on
  the numbers: the kernel hands out the lowest free one, and few are open.
* `descInv_of_run` and `low_of_run` carry both over the runs.

Limits of scope: `Low` is about a process that was started with the standard streams, the
listening socket and the epoll instance and nothing else open (`Startup.Standard`); with
more descriptors inherited the rows do not suffice, and the model has no step there.  What
the rows hold is the subject of the other modules; here they are not looked at.  After
`accept_loop` has returned, nothing is said about the set.
-/

namespace NetworkProgram.Oneline1

open NetworkProgram.Foundation
open NetworkProgram.Kernel

/-- The open connection that is not in the set: the one just accepted. -/
def State.outside (s : State) : Option Nat :=
  match s.pc with
  | .accepted _ => s.acc
  | _ => none

/-- What holds at each place of `accept_loop`. -/
def Placed (k : Startup) (s : State) : Prop :=
  match s.pc with
  | .batch events => Reported k.soc s.interest events
  | .accepted events =>
      Reported k.soc s.interest events ∧
        ∃ acc, s.acc = some acc ∧ acc ∉ s.interest ∧ ∃ c, s.fds acc = some (.conn c)
  | .closing fd events => Reported k.soc s.interest (fd :: events) ∧ fd ∈ s.interest
  | .returned => True

structure DescInv (k : Startup) (s : State) : Prop where
  nodup : s.interest.Nodup
  registered : s.pc ≠ .returned → ∀ d ∈ s.interest, ∃ c, s.fds d = some (.conn c)
  count : s.count = s.interest.length
  room : s.interest.length ≤ maxChild - 1
  held : ∀ d c, s.fds d = some (.conn c) → d ∈ s.interest ∨ s.outside = some d
  placed : Placed k s

theorem descInv_init (k : Startup) : DescInv k (init k) where
  nodup := List.nodup_nil
  registered := fun _ _ h => absurd h List.not_mem_nil
  count := rfl
  room := Nat.zero_le _
  held := fun d c h => absurd h (k.noConn d c)
  placed := reported_nil

/-- Descriptors that are no connection's were there at the start, and those of
connections have a row. -/
structure Low (k : Startup) (fds : Table) : Prop where
  inherited : ∀ d x, fds d = some x → k.table d ≠ none ∨ ∃ c, x = .conn c
  low : ∀ d c, fds d = some (.conn c) → d < maxChild * 4

theorem low_init (k : Startup) : Low k (init k).fds where
  inherited := fun d x h => .inl fun hnone => by cases h.symm.trans hnone
  low := fun d c h => absurd h (k.noConn d c)

theorem Low.close {k : Startup} {fds : Table} (h : Low k fds) (d : Nat) :
    Low k (Function.update fds d none) where
  inherited := fun e x he => h.inherited e x (held_of_close he).2
  low := fun e c he => h.low e c (held_of_close he).2

theorem Low.closeAcc {k : Startup} {fds : Table} (h : Low k fds) (acc : Option Nat) :
    Low k (fds.closeAcc acc) := by
  cases acc with
  | none => exact h
  | some acc => exact h.close acc

theorem Low.open_ {k : Startup} {fds : Table} (h : Low k fds) {d : Nat} (hd : d < maxChild * 4)
    (c : ConnId) : Low k (Function.update fds d (some (.conn c))) where
  inherited := by
    intro e x he
    rcases eq_or_ne e d with rfl | hne
    · rw [Function.update_self, Option.some.injEq] at he
      exact .inr ⟨c, he.symm⟩
    · rw [Function.update_of_ne hne] at he
      exact h.inherited e x he
  low := by
    intro e c' he
    rcases eq_or_ne e d with rfl | hne
    · exact hd
    · rw [Function.update_of_ne hne] at he
      exact h.low e c' he

section Step

variable {k : Startup} {input : ConnId → Nat → UInt8} {s t : State} {a : Action}

/-- No connection is outside of the set. -/
theorem DescInv.inside (h : DescInv k s) (hout : s.outside = none) {d : Nat} {c : ConnId}
    (hd : s.fds d = some (.conn c)) : d ∈ s.interest :=
  (h.held d c hd).resolve_right fun houtside => by cases hout.symm.trans houtside

/-- A step that changes neither the descriptors nor the set nor the counter. -/
theorem DescInv.quiet (h : DescInv k s) (running : s.pc ≠ .returned) (hout : s.outside = none)
    (hfds : t.fds = s.fds) (hinterest : t.interest = s.interest) (hcount : t.count = s.count)
    (placed : Placed k t) : DescInv k t where
  nodup := by rw [hinterest]; exact h.nodup
  registered := by rw [hinterest, hfds]; exact fun _ => h.registered running
  count := by rw [hinterest, hcount]; exact h.count
  room := by rw [hinterest]; exact h.room
  held := by rw [hinterest, hfds]; exact fun d c hd => .inl (h.inside hout hd)
  placed := placed

/-- The connection that `accept_loop` has in hand is open, and not in the set. -/
theorem DescInv.accepted (h : DescInv k s) {events : List Nat} {acc : Nat}
    (pc : s.pc = .accepted events) (new : s.acc = some acc) :
    Reported k.soc s.interest events ∧ acc ∉ s.interest ∧ ∃ c, s.fds acc = some (.conn c) := by
  have hplaced := h.placed
  simp only [Placed, pc] at hplaced
  obtain ⟨known, acc', hnew, hacc, hconn⟩ := hplaced
  obtain rfl := Option.some.inj (new.symm.trans hnew)
  exact ⟨known, hacc, hconn⟩

/-- `accept_loop` closes descriptors and returns. -/
theorem DescInv.ends (h : DescInv k s) (hpc : t.pc = .returned)
    (hfds : ∀ d c, t.fds d = some (.conn c) → d ∈ s.interest)
    (hinterest : t.interest = s.interest) (hcount : t.count = s.count) : DescInv k t where
  nodup := by rw [hinterest]; exact h.nodup
  registered := fun running => absurd hpc running
  count := by rw [hinterest, hcount]; exact h.count
  room := by rw [hinterest]; exact h.room
  held := by rw [hinterest]; exact fun d c hd => .inl (hfds d c hd)
  placed := by
    rw [Placed, hpc]
    trivial

theorem placed_serve {fd : Nat} {events : List Nat} {c : ConnId} {readable : Readable}
    {r : Served} (known : Reported k.soc s.interest (fd :: events)) (hfd : fd ∈ s.interest) :
    Placed k (s.serve fd events c readable r) := by
  by_cases hret : r.ret = -1
  · have hpc : (s.serve fd events c readable r).pc = .closing fd events := if_pos hret
    simp only [Placed, hpc]
    exact ⟨known, hfd⟩
  · have hpc : (s.serve fd events c readable r).pc = .batch events := if_neg hret
    simp only [Placed, hpc]
    exact known.tail

theorem DescInv.step (h : DescInv k s) (hstep : step k input s a = some t) : DescInv k t := by
  have hplaced := h.placed
  have hregistered := h.registered
  have hcount := h.count
  have hroom := h.room
  cases move_of_step hstep with
  | epollWait pc nodup known =>
      exact h.quiet (by simp [pc]) (by simp [State.outside, pc]) rfl rfl rfl ⟨nodup, known⟩
  | acceptFails pc =>
      simp only [Placed, pc] at hplaced
      exact h.quiet (by simp [pc]) (by simp [State.outside, pc]) rfl rfl rfl hplaced.tail
  | @accepts events acc pc free =>
      simp only [Placed, pc] at hplaced
      have hopen := hregistered (by simp [pc])
      have hnotin : acc ∉ s.interest := by
        intro hmem
        obtain ⟨c, hc⟩ := hopen acc hmem
        cases free.1.symm.trans hc
      refine ⟨h.nodup, fun _ => registered_open hopen free.1 _, hcount, hroom, fun d c hd => ?_,
        hplaced.tail, acc, rfl, hnotin, _, Function.update_self ..⟩
      rcases eq_or_ne d acc with rfl | hne
      · exact .inr rfl
      · dsimp only at hd
        rw [Function.update_of_ne hne] at hd
        exact .inl (h.inside (by simp [State.outside, pc]) hd)
  | @refuses events acc added pc new full =>
      obtain ⟨known, hacc, -⟩ := h.accepted pc new
      refine ⟨h.nodup, fun _ => registered_close (hregistered (by simp [pc])) hacc, hcount, hroom,
        fun d c hd => ?_, known⟩
      obtain ⟨hne, hold⟩ := held_of_close hd
      refine .inl ((h.held d c hold).resolve_right fun hout => hne ?_)
      simpa [State.outside, pc, new, eq_comm] using hout
  | @registers events acc pc new room =>
      obtain ⟨known, hacc, hconn⟩ := h.accepted pc new
      refine ⟨List.nodup_cons.mpr ⟨hacc, h.nodup⟩,
        fun _ => List.forall_mem_cons.mpr ⟨hconn, hregistered (by simp [pc])⟩, ?_, ?_,
        fun d c hd => .inl (List.mem_cons.mpr ((h.held d c hd).symm.imp (fun hout => ?_) id)),
        known.grow _⟩
      · dsimp only
        rw [List.length_cons]
        omega
      · dsimp only
        rw [List.length_cons]
        omega
      · simpa [State.outside, pc, new, eq_comm] using hout
  | @registerFails events acc pc new room =>
      refine h.ends rfl (fun d c hd => ?_) rfl rfl
      obtain ⟨hne, hold⟩ := held_of_close (held_of_close hd).2
      refine (h.held d c hold).resolve_right fun hout => hne ?_
      simpa [State.outside, pc, new, eq_comm] using hout
  | @serves fd events c readable delivered pc conn =>
      simp only [Placed, pc] at hplaced
      have hout : s.outside = none := by simp [State.outside, pc]
      exact h.quiet (by simp [pc]) hout rfl rfl rfl (placed_serve hplaced (h.inside hout conn))
  | @closes fd events pc mem =>
      simp only [Placed, pc] at hplaced
      obtain ⟨known, hfd⟩ := hplaced
      have hlen := List.length_erase_of_mem mem
      have hpos := List.length_pos_of_mem mem
      refine ⟨h.nodup.erase _, fun _ => registered_close (fun d hd =>
        hregistered (by simp [pc]) d (List.mem_of_mem_erase hd)) h.nodup.not_mem_erase, ?_, ?_,
        fun d c hd => ?_, known.erase⟩
      · dsimp only
        omega
      · dsimp only
        omega
      · obtain ⟨hne, hold⟩ := held_of_close hd
        exact .inl ((List.mem_erase_of_ne hne).mpr
          (h.inside (by simp [State.outside, pc]) hold))
  | @closeFails fd events pc mem =>
      refine h.ends rfl (fun d c hd => ?_) rfl rfl
      exact h.inside (by simp [State.outside, pc]) (held_of_closeAcc (held_of_close hd).2)

/-- With few connections open, the next descriptor is low. -/
theorem Low.free_lt (h : Low k s.fds) (desc : DescInv k s) (standard : k.Standard)
    {events : List Nat} (pc : s.pc = .batch events) {d : Nat} (free : LowestFree s.fds d) :
    d < maxChild * 4 := by
  have hle : d ≤ ([0, 1, 2, k.soc, k.epollfd] ++ s.interest).length := by
    refine free.le_length fun e he => ?_
    obtain ⟨x, hx⟩ := Option.ne_none_iff_exists'.mp he
    rw [List.mem_append]
    rcases h.inherited e x hx with hold | ⟨c, rfl⟩
    · left
      rcases standard e hold with hlt | rfl | rfl
      · have hcases : e = 0 ∨ e = 1 ∨ e = 2 := by omega
        rcases hcases with rfl | rfl | rfl <;> simp
      · simp
      · simp
    · exact .inr (desc.inside (by simp [State.outside, pc]) hx)
  have hroom := desc.room
  simp only [List.length_append, List.length_cons, List.length_nil, maxChild] at hle hroom ⊢
  omega

theorem Low.step (h : Low k s.fds) (desc : DescInv k s) (standard : k.Standard)
    (hstep : step k input s a = some t) : Low k t.fds := by
  cases move_of_step hstep with
  | epollWait pc nodup known => exact h
  | acceptFails pc => exact h
  | accepts pc free => exact h.open_ (h.free_lt desc standard pc free) _
  | refuses pc new full => exact h.close _
  | registers pc new room => exact h
  | registerFails pc new room => exact (h.close _).close _
  | serves pc conn => exact h
  | closes pc mem => exact h.close _
  | closeFails pc mem => exact (h.closeAcc _).close _

end Step

section Run

variable {k : Startup} {input : ConnId → Nat → UInt8} {s : State}

theorem descInv_of_run (run : Reaches (step k input) (init k) s) : DescInv k s :=
  run.invariant (descInv_init k) fun _ _ _ h hstep => h.step hstep

theorem low_of_run (standard : k.Standard) (run : Reaches (step k input) (init k) s) :
    Low k s.fds := by
  induction run with
  | refl => exact low_init k
  | tail run hstep ih => exact ih.step (descInv_of_run run) standard hstep

end Run

end NetworkProgram.Oneline1
