import NetworkProgram.Echo.Batches
import NetworkProgram.Oneline1.Descriptors
import NetworkProgram.Server9.Descriptors

set_option autoImplicit false

/-!
# Limits: the servers with a limit on their connections

`server2`, `server3`, `server4`, `server9` and `oneline1` close a connection at once when
they are full.  Each decides this by a counter or a mark of its own, and each at its
own place in the loop.  What they have in common is an `Acceptor`: steps, and in some
of them a look at a new connection.
-/

namespace NetworkProgram.Limits

open NetworkProgram.Foundation
open NetworkProgram.Kernel

/-- `MAX_CHILD` -/
def maxChild : Nat := 20

/-- A server decides about the connection that `accept` returned on `acc`; `fds` are the
descriptors then, and `full` says that it closes the connection as full. -/
structure Admission where
  fds : Table
  acc : Nat
  full : Bool

/-- How many connections are open already. -/
noncomputable def Admission.opened (x : Admission) : Nat := x.fds.opened x.acc

/-- A connection is closed as full only when `limit` connections are open. -/
def Admission.Within (limit : Nat) (x : Admission) : Prop := x.full = true → x.opened = limit

/-- A server, as far as the limit on its connections goes. -/
structure Acceptor where
  State : Type
  Action : Type
  step : State → Action → Option State
  init : State
  /-- In this state and by this action the server decides so. -/
  admits : State → Action → Admission → Prop
  fds : State → Table
  /-- The new connection about which the server has still to decide. -/
  undecided : State → Option Nat

/-- The descriptors of the connections that are open, but for an undecided one. -/
def Acceptor.connections (A : Acceptor) (s : A.State) : Set Nat :=
  {d | (∃ c, A.fds s d = some (.conn c)) ∧ A.undecided s ≠ some d}

/-- In every run fewer than `limit` connections are open, in every state and before every
decision. -/
def Acceptor.Below (A : Acceptor) (limit : Nat) : Prop :=
  ∀ s, Reaches A.step A.init s →
    (A.connections s).encard < limit ∧ ∀ a x, A.admits s a x → x.opened < limit

/-- In this step no connection is accepted while `n` are open. -/
def Acceptor.Spares (A : Acceptor) (n : Nat) (s : A.State) (a : A.Action) : Prop :=
  ∀ x, A.admits s a x → x.opened ≠ n

noncomputable instance (A : Acceptor) (n : Nat) (s : A.State) (a : A.Action) :
    Decidable (A.Spares n s a) := Classical.propDecidable _

/-- In every run, a connection is closed as full when `n` are open, and only then. -/
def Acceptor.FullAt (A : Acceptor) (n : Nat) : Prop :=
  ∀ s, Reaches A.step A.init s → ∀ a x, A.admits s a x → (x.full = true ↔ x.opened = n)

theorem reaches_of_guarded {σ α : Type} {good : σ → α → Prop} [∀ s a, Decidable (good s a)]
    {step : σ → α → Option σ} {s t : σ} (run : Reaches (guarded good step) s t) :
    Reaches step s t := by
  induction run with
  | refl => exact .refl
  | tail _ move ih => exact .tail ih (guarded_eq_some.mp move).2

/-- A server that is full at `n` keeps to another limit as long as `n` is not met. -/
theorem Acceptor.FullAt.within_iff {A : Acceptor} {n limit : Nat} (h : A.FullAt n)
    (hne : n ≠ limit) {s : A.State} (run : Reaches A.step A.init s) {a : A.Action}
    {x : Admission} (hx : A.admits s a x) : x.Within limit ↔ x.opened ≠ n := by
  have hfull := h s run a x hx
  constructor
  · intro within heq
    exact hne (heq.symm.trans (within (hfull.mpr heq)))
  · intro hopened full
    exact absurd (hfull.mp full) hopened

/-! ## The servers -/

/-- `acceptReady` of `server2` and `server3` decides so. -/
def Places (s : Echo.State) (x : Admission) : Prop :=
  ∃ t, Echo.acceptReady s (some x.acc) = .ok t ∧ x.fds = s.host.fds ∧
    (x.full = true ↔ t.host.fds x.acc = none)

/-- `server2` -/
def select (k : Echo.Listener) : Acceptor where
  State := Echo.State
  Action := Echo.Select.Wake
  step := Echo.Select.step k
  init := .start k
  admits := fun s w x =>
    ∃ mask answer, w = .ready mask (some x.acc) answer ∧ k.soc ∈ mask ∧ Places s x
  fds := fun s => s.host.fds
  undecided := fun _ => none

/-- `server3` -/
def poll (k : Echo.Listener) : Acceptor where
  State := Echo.State
  Action := Echo.Poll.Wake
  step := Echo.Poll.step k
  init := .start k
  admits := fun s w x =>
    ∃ revents answer, w = .ready revents (some x.acc) answer ∧ (revents 0).pollin = true ∧
      Places s x
  fds := fun s => s.host.fds
  undecided := fun _ => none

/-- `server4`, which comes to event `n` of a batch in state `u`. -/
def epoll (k : Echo.Epoll.Startup) : Acceptor where
  State := Echo.Epoll.State
  Action := Echo.Epoll.Wake
  step := Echo.Epoll.step k
  init := .start k
  admits := fun s w x =>
    ∃ events result added answer n u t, w = .ready events result added answer ∧
      Echo.Epoll.Serving k s events result added answer n u ∧ u.returned = false ∧
      events[n]? = some k.soc ∧ result n = some x.acc ∧
      Echo.Epoll.acceptReady k u (some x.acc) (added n) = .ok t ∧ x.fds = u.host.fds ∧
      (x.full = true ↔ t.returned = false ∧ t.host.fds x.acc = none)
  fds := fun s => s.host.fds
  undecided := fun _ => none

/-- `server9` -/
def queue (k : Startup) : Acceptor where
  State := Server9.State
  Action := Server9.Action
  step := Server9.step k
  init := Server9.init k
  admits := fun s a x =>
    ∃ events added t, s.pc = .accepted events ∧ a = .register added ∧
      Server9.step k s a = some t ∧ x.fds = s.fds ∧ s.acc = some x.acc ∧
      (x.full = true ↔ t.pc ≠ .returned ∧ t.fds x.acc = none)
  fds := fun s => s.fds
  undecided := fun s =>
    match s.pc with
    | .accepted _ => s.acc
    | _ => none

/-- `oneline1` -/
def lines (k : Startup) (input : ConnId → Nat → UInt8) : Acceptor where
  State := Oneline1.State
  Action := Oneline1.Action
  step := Oneline1.step k input
  init := Oneline1.init k
  admits := fun s a x =>
    ∃ events added t, s.pc = .accepted events ∧ a = .register added ∧
      Oneline1.step k input s a = some t ∧ x.fds = s.fds ∧ s.acc = some x.acc ∧
      (x.full = true ↔ t.pc ≠ .returned ∧ t.fds x.acc = none)
  fds := fun s => s.fds
  undecided := fun s =>
    match s.pc with
    | .accepted _ => s.acc
    | _ => none

/-- One of the five, as it is started. -/
inductive Server
  | select (k : Echo.Listener)
  | poll (k : Echo.Listener)
  | epoll (k : Echo.Epoll.Startup)
  | queue (k : Startup)
  | lines (k : Startup) (input : ConnId → Nat → UInt8)

def Server.acceptor : Server → Acceptor
  | .select k => Limits.select k
  | .poll k => Limits.poll k
  | .epoll k => Limits.epoll k
  | .queue k => Limits.queue k
  | .lines k input => Limits.lines k input

/-! ## When they are full -/

section Table

variable {soc : Nat} {s : Echo.State} {x : Admission}

theorem Places.free (h : Places s x) : LowestFree s.host.fds x.acc := by
  obtain ⟨t, hready, -, -⟩ := h
  by_contra hnot
  rw [Echo.acceptReady_impossible fun hall => hnot (hall x.acc rfl)] at hready
  cases hready

/-- The table of the descriptors lists the open connections. -/
theorem Places.opened (h : Places s x) (ok : s.Ok soc) :
    x.opened = s.child.reduceOption.length := by
  have free := h.free
  obtain ⟨t, -, hfds, -⟩ := h
  rw [Admission.opened, hfds]
  exact Table.opened_of_free ok.nodup ok.held free.1

theorem full_iff_place (ok : s.Ok soc) (h : Places s x) :
    x.full = true ↔ x.opened = maxChild - 1 := by
  have free := h.free
  have hopened := h.opened ok
  obtain ⟨t, hready, hfds, hfull⟩ := h
  have hfree : ∀ d ∈ some x.acc, LowestFree s.host.fds d := fun d hd => Option.some.inj hd ▸ free
  obtain ⟨u, hu, hok, run⟩ := Echo.acceptReady_eq ok hfree
  obtain rfl := Except.ok.inj (hu.symm.trans hready)
  obtain ⟨v, move, hend⟩ := exec_cons_eq_some.mp run
  obtain rfl := Option.some.inj hend
  have hle := ok.marked.length_le
  have hroom := ok.room
  rw [hfull, hopened]
  unfold Echo.admission at move
  split at move
  · rename_i hge
    rw [Echo.Host.step, if_pos free, Option.some.injEq] at move
    refine iff_of_true (by simp [← move, Echo.Host.close]) ?_
    simp only [Echo.maxChild, maxChild] at *
    omega
  · rename_i hlt
    rw [Echo.Host.step, if_pos free, Option.some.injEq] at move
    refine iff_of_false (by simp [← move, Echo.Host.accept]) ?_
    simp only [Echo.maxChild, maxChild] at *
    omega

theorem length_lt_of_ok (ok : s.Ok soc) : s.child.reduceOption.length < maxChild := by
  have hle := ok.marked.length_le
  have hroom := ok.room
  simp only [Echo.maxChild, maxChild] at *
  omega

/-- A list of the open connections shows how many are open. -/
theorem encard_connections_lt {A : Acceptor} {t : A.State} {listed : List Nat}
    (held : ∀ d c, A.fds t d = some (.conn c) → A.undecided t ≠ some d → d ∈ listed)
    (hlt : listed.length < maxChild) : (A.connections t).encard < maxChild := by
  have hle : (A.connections t).encard ≤ listed.length := by
    refine encard_le_length ?_
    rintro d ⟨⟨c, hc⟩, hne⟩
    exact held d c hc hne
  exact hle.trans_lt (Nat.cast_lt.mpr hlt)

end Table

theorem select_fullAt (k : Echo.Listener) : (select k).FullAt (maxChild - 1) := by
  rintro s run a x ⟨mask, answer, -, -, places⟩
  exact full_iff_place (Echo.Select.reaches_ok run) places

theorem select_below (k : Echo.Listener) : (select k).Below maxChild := by
  intro s run
  have ok := Echo.Select.reaches_ok run
  refine ⟨encard_connections_lt (fun d c hd _ => (ok.held d).mpr ⟨c, hd⟩) (length_lt_of_ok ok), ?_⟩
  rintro a x ⟨mask, answer, -, -, places⟩
  exact places.opened ok ▸ length_lt_of_ok ok

theorem poll_fullAt (k : Echo.Listener) : (poll k).FullAt (maxChild - 1) := by
  rintro s run a x ⟨revents, answer, -, -, places⟩
  exact full_iff_place (Echo.Poll.reaches_ok run) places

theorem poll_below (k : Echo.Listener) : (poll k).Below maxChild := by
  intro s run
  have ok := Echo.Poll.reaches_ok run
  refine ⟨encard_connections_lt (fun d c hd _ => (ok.held d).mpr ⟨c, hd⟩) (length_lt_of_ok ok), ?_⟩
  rintro a x ⟨revents, answer, -, -, places⟩
  exact places.opened ok ▸ length_lt_of_ok ok

end NetworkProgram.Limits
