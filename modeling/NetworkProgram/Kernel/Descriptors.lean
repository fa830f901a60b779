import Mathlib.Data.Nat.Find
import Mathlib.Logic.Function.Basic
import Mathlib.Tactic.SplitIfs

set_option autoImplicit false

/-!
# Kernel: the descriptor table of a server process

The servers name a connection by its descriptor, and the kernel hands out the
lowest free number, so that a number that was closed comes back.  A connection
itself is named here by its rank among the accepted ones (`ConnId`), which never
comes back.
-/

namespace NetworkProgram.Kernel

/-- Connections are numbered in the order in which they were accepted. -/
abbrev ConnId : Type := Nat

/-- What an open descriptor refers to. -/
inductive Desc
  /-- Standard streams and whatever else the process inherited. -/
  | other
  /-- The listening socket. -/
  | listening
  /-- The epoll instance. -/
  | epoll
  /-- An accepted connection. -/
  | conn (c : ConnId)
  deriving DecidableEq, Repr

/-- The open descriptors. -/
abbrev Table : Type := Nat → Option Desc

/-- `d` is the number the next `accept` returns. -/
def LowestFree (table : Table) (d : Nat) : Prop :=
  table d = none ∧ ∀ e, e < d → table e ≠ none

instance (table : Table) (d : Nat) : Decidable (LowestFree table d) :=
  inferInstanceAs (Decidable (_ ∧ ∀ e, e < d → _))

theorem exists_lowestFree {table : Table} (h : ∃ d, table d = none) : ∃ d, LowestFree table d :=
  ⟨Nat.find h, Nat.find_spec h, fun _ he => Nat.find_min h he⟩

/-- The descriptors when the accept loop starts: the listening socket and the
epoll instance are open, no connection is. -/
structure Startup where
  table : Table
  soc : Nat
  epollfd : Nat
  soc_listening : table soc = some .listening
  epollfd_epoll : table epollfd = some .epoll
  noConn : ∀ d c, table d ≠ some (.conn c)

/-- A server started from a shell: 0 to 2 are the standard streams. -/
def Startup.plain : Startup where
  table := fun d =>
    if d < 3 then some .other
    else if d = 3 then some .listening
    else if d = 4 then some .epoll
    else none
  soc := 3
  epollfd := 4
  soc_listening := rfl
  epollfd_epoll := rfl
  noConn := by
    intro d c
    split_ifs <;> simp

/-- `close(acc)`, where `acc` is a descriptor or -1. -/
def Table.closeAcc (table : Table) : Option Nat → Table
  | none => table
  | some acc => Function.update table acc none

/-- What a descriptor refers to stays when another one changes. -/
theorem Table.update_of_held {table : Table} {d e : Nat} {x : Desc} (he : table e = some x)
    (hd : table d ≠ some x) (value : Option Desc) : Function.update table d value e = some x := by
  have hne : e ≠ d := by
    rintro rfl
    exact hd he
  rw [Function.update_of_ne hne, he]

/-- No two descriptors refer to one connection. -/
def Table.ConnInjective (table : Table) : Prop :=
  ∀ d e c, table d = some (.conn c) → table e = some (.conn c) → d = e

theorem Table.ConnInjective.close {table : Table} (h : table.ConnInjective) (d : Nat) :
    Table.ConnInjective (Function.update table d none) := by
  intro e f c he hf
  have hed : e ≠ d := by rintro rfl; simp at he
  have hfd : f ≠ d := by rintro rfl; simp at hf
  rw [Function.update_of_ne hed] at he
  rw [Function.update_of_ne hfd] at hf
  exact h e f c he hf

/-- A connection that no descriptor refers to yet may take any number. -/
theorem Table.ConnInjective.open_ {table : Table} (h : table.ConnInjective) {c : ConnId}
    (fresh : ∀ e, table e ≠ some (.conn c)) (d : Nat) :
    Table.ConnInjective (Function.update table d (some (.conn c))) := by
  intro e f c' he hf
  by_cases hed : e = d
  · by_cases hfd : f = d
    · exact hed.trans hfd.symm
    · rw [Function.update_of_ne hfd] at hf
      subst hed
      rw [Function.update_self, Option.some.injEq, Desc.conn.injEq] at he
      exact absurd (he ▸ hf) (fresh f)
  · rw [Function.update_of_ne hed] at he
    by_cases hfd : f = d
    · subst hfd
      rw [Function.update_self, Option.some.injEq, Desc.conn.injEq] at hf
      exact absurd (hf ▸ he) (fresh e)
    · rw [Function.update_of_ne hfd] at hf
      exact h e f c' he hf

/-- Connection `c` is open. -/
def Table.Open (table : Table) (c : ConnId) : Prop := ∃ d, table d = some (.conn c)

theorem Table.open_accept {table : Table} {d : Nat} (free : table d = none) (c e : ConnId) :
    Table.Open (Function.update table d (some (.conn c))) e ↔ e = c ∨ table.Open e := by
  constructor
  · rintro ⟨f, hf⟩
    rcases eq_or_ne f d with rfl | hne
    · rw [Function.update_self, Option.some.injEq, Desc.conn.injEq] at hf
      exact .inl hf.symm
    · rw [Function.update_of_ne hne] at hf
      exact .inr ⟨f, hf⟩
  · rintro (rfl | ⟨f, hf⟩)
    · exact ⟨d, Function.update_self ..⟩
    · exact ⟨f, Table.update_of_held hf (by simp [free]) _⟩

theorem Table.ConnInjective.open_close {table : Table} (h : table.ConnInjective) {d : Nat}
    {c : ConnId} (hd : table d = some (.conn c)) (e : ConnId) :
    Table.Open (Function.update table d none) e ↔ table.Open e ∧ e ≠ c := by
  constructor
  · rintro ⟨f, hf⟩
    have hne : f ≠ d := by
      rintro rfl
      rw [Function.update_self] at hf
      cases hf
    rw [Function.update_of_ne hne] at hf
    refine ⟨⟨f, hf⟩, ?_⟩
    rintro rfl
    exact hne (h f d e hf hd)
  · rintro ⟨⟨f, hf⟩, hec⟩
    exact ⟨f, Table.update_of_held hf (by simp [hd, hec.symm]) _⟩

/-- Closing what is no connection leaves the connections. -/
theorem Table.open_close_other {table : Table} {d : Nat} (hd : ∀ c, table d ≠ some (.conn c))
    (e : ConnId) : Table.Open (Function.update table d none) e ↔ table.Open e := by
  constructor
  · rintro ⟨f, hf⟩
    rcases eq_or_ne f d with rfl | hne
    · rw [Function.update_self] at hf
      cases hf
    · exact ⟨f, by rwa [Function.update_of_ne hne] at hf⟩
  · rintro ⟨f, hf⟩
    exact ⟨f, Table.update_of_held hf (hd e) _⟩

end NetworkProgram.Kernel
