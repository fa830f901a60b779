import NetworkProgram.Echo.Select
import NetworkProgram.Echo.Poll

set_option autoImplicit false

/-!
# Echo: the table of connections in every run

Whatever `select` or `poll` reports and however `accept`, `recv` and `send` answer:
at the top of the loop the table holds the open connections and nothing else.
-/

namespace NetworkProgram.Echo

open NetworkProgram.Foundation
open NetworkProgram.Foundation.Slots
open NetworkProgram.Kernel

/-- The table is what it is meant to be. -/
structure State.Exact (s : State) : Prop where
  /-- The entries in use are different descriptors. -/
  distinct : (s.child.take s.childNo).reduceOption.Nodup
  /-- They are the descriptors of the open connections. -/
  held : ∀ fd, some fd ∈ s.child.take s.childNo ↔ ∃ c, s.host.fds fd = some (.conn c)
  /-- A connection is open from its `accept` to its `close`. -/
  opened : ∀ c, s.host.fds.Open c ↔
    .accepted c ∈ s.host.log ∧ .closed (some (.conn c)) ∉ s.host.log
  /-- No connection is closed twice, and nothing that is not open. -/
  once : ∀ c, s.host.log.count (.closed (some (.conn c))) ≤ 1
  closes : .closed none ∉ s.host.log
  unused : ∀ i, s.childNo ≤ i → i < maxChild → s.child[i]? = some none
  childNo_le : s.childNo ≤ maxChild - 1

theorem State.Ok.exact {soc : Nat} {s : State} (ok : s.Ok soc) : s.Exact where
  distinct := by
    rw [ok.marked.reduceOption_take]
    exact ok.nodup
  held := by
    intro fd
    rw [← List.reduceOption_mem_iff, ok.marked.reduceOption_take, ok.held fd]
  opened := by
    intro c
    rw [ok.host.open_iff c, ok.host.accepted c]
  once := ok.host.once
  closes := ok.host.closes
  unused := by
    intro i hle hlt
    exact ok.marked.getElem?_eq_none hle (by rw [ok.size]; exact hlt)
  childNo_le := ok.room

theorem Select.reaches_ok {k : Listener} {s : State}
    (run : Reaches (Select.step k) (State.start k) s) : s.Ok k.soc := by
  refine run.invariant (State.ok_start k) fun u w v ok move => ?_
  by_cases hpossible : w.Possible k u
  · obtain ⟨t, heq, hok, -⟩ := Select.wakeUp_round ok hpossible
    rw [Select.step, heq] at move
    exact Option.some.inj move ▸ hok
  · rw [Select.step, Select.wakeUp_impossible ok hpossible] at move
    cases move

theorem Poll.reaches_ok {k : Listener} {s : State}
    (run : Reaches (Poll.step k) (State.start k) s) : s.Ok k.soc := by
  refine run.invariant (State.ok_start k) fun u w v ok move => ?_
  by_cases hpossible : w.Possible u
  · obtain ⟨t, heq, hok, -⟩ := Poll.wakeUp_round ok hpossible
    rw [Poll.step, heq] at move
    exact Option.some.inj move ▸ hok
  · rw [Poll.step, Poll.wakeUp_impossible ok hpossible] at move
    cases move

theorem Select.inRange {k : Listener} {s : State} (ok : s.Ok k.soc) (w : Select.Wake) :
    Select.wakeUp k s w ≠ .error .outOfRange := by
  by_cases hpossible : w.Possible k s
  · obtain ⟨t, heq, -⟩ := Select.wakeUp_round ok hpossible
    simp [heq]
  · simp [Select.wakeUp_impossible ok hpossible]

theorem Poll.inRange {k : Listener} {s : State} (ok : s.Ok k.soc) (w : Poll.Wake) :
    Poll.wakeUp k s w ≠ .error .outOfRange := by
  by_cases hpossible : w.Possible s
  · obtain ⟨t, heq, -⟩ := Poll.wakeUp_round ok hpossible
    simp [heq]
  · simp [Poll.wakeUp_impossible ok hpossible]

/-- In every run of `server2` and of `server3` the table is exact at the top of the
loop, and the round that follows stays inside its arrays. -/
theorem child_exact (k : Listener) :
    (∀ s, Reaches (Select.step k) (State.start k) s →
      s.Exact ∧ ∀ w, Select.wakeUp k s w ≠ .error .outOfRange) ∧
    (∀ s, Reaches (Poll.step k) (State.start k) s →
      s.Exact ∧ ∀ w, Poll.wakeUp k s w ≠ .error .outOfRange) := by
  constructor
  · intro s run
    have ok := Select.reaches_ok run
    exact ⟨ok.exact, Select.inRange ok⟩
  · intro s run
    have ok := Poll.reaches_ok run
    exact ⟨ok.exact, Poll.inRange ok⟩

/-- Two connections, then a third in the round in which the first is closed. -/
theorem child_exact_three :
    ∃ s, Reaches (Select.step .plain) (.start .plain) s ∧
      s.child.take s.childNo = [none, some 5, some 6] ∧ s.Exact := by
  have run := Reaches.of_exec (show exec (Select.step .plain) (.start .plain)
    [.ready [3] (some 4) fun _ => .plain .eof true,
      .ready [3] (some 5) fun _ => .plain .eof true,
      .ready [3, 4] (some 6) fun _ => .plain .eof true] = some _ from rfl)
  exact ⟨_, run, rfl, ((child_exact .plain).1 _ run).1⟩

end NetworkProgram.Echo
