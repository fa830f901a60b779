import Mathlib.Data.List.Perm.Subperm
import Mathlib.Data.Set.Card
import NetworkProgram.Kernel.Descriptors

set_option autoImplicit false

/-!
# Kernel: what is open, and what an epoll set reports

A server that waits with `epoll` keeps a set of descriptors in the kernel; the
connections among them are `interest`.  `epoll_wait` reports descriptors of the
set, each once.  `accept` returns the lowest free number, so with few descriptors
open all numbers are small.
-/

namespace NetworkProgram.Kernel

/-! ## Events -/

/-- The events are of the listening socket or of the epoll set, each once. -/
def Reported (soc : Nat) (interest events : List Nat) : Prop :=
  events.Nodup ∧ ∀ fd ∈ events, fd = soc ∨ fd ∈ interest

section Reported

variable {soc fd : Nat} {interest events : List Nat}

theorem reported_nil : Reported soc interest [] :=
  ⟨List.nodup_nil, fun _ h => absurd h List.not_mem_nil⟩

theorem Reported.tail (h : Reported soc interest (fd :: events)) : Reported soc interest events :=
  ⟨h.1.of_cons, fun e he => h.2 e (List.mem_cons_of_mem _ he)⟩

theorem Reported.grow (h : Reported soc interest events) (fd : Nat) :
    Reported soc (fd :: interest) events :=
  ⟨h.1, fun e he => (h.2 e he).imp id (List.mem_cons_of_mem _)⟩

/-- The event just handled is not among those left. -/
theorem Reported.erase (h : Reported soc interest (fd :: events)) :
    Reported soc (interest.erase fd) events := by
  obtain ⟨hnotin, hnodup⟩ := List.nodup_cons.mp h.1
  refine ⟨hnodup, fun e he => ?_⟩
  have hne : e ≠ fd := by
    rintro rfl
    exact hnotin he
  exact (h.2 e (List.mem_cons_of_mem _ he)).imp id fun hmem =>
    (List.mem_erase_of_ne hne).mpr hmem

theorem Reported.take (h : Reported soc interest events) (n : Nat) :
    Reported soc interest (events.take n) :=
  ⟨h.1.sublist (List.take_sublist n events), fun e he => h.2 e (List.mem_of_mem_take he)⟩

theorem Reported.length_le (h : Reported soc interest events) :
    events.length ≤ interest.length + 1 := by
  have hsub : events.Subperm (soc :: interest) := by
    refine List.subperm_of_subset h.1 fun fd hfd => ?_
    rw [List.mem_cons]
    exact h.2 fd hfd
  exact hsub.length_le

end Reported

/-! ## Open connections -/

section Table

variable {fds : Table} {interest : List Nat} {fd : Nat} {n : ConnId}

/-- Closing a descriptor that is not in the set keeps the set open. -/
theorem registered_close (h : ∀ d ∈ interest, ∃ c, fds d = some (.conn c)) (hfd : fd ∉ interest) :
    ∀ d ∈ interest, ∃ c, Function.update fds fd none d = some (.conn c) := by
  intro d hd
  have hne : d ≠ fd := by
    rintro rfl
    exact hfd hd
  rw [Function.update_of_ne hne]
  exact h d hd

theorem registered_open (h : ∀ d ∈ interest, ∃ c, fds d = some (.conn c)) (hfd : fds fd = none)
    (n : ConnId) : ∀ d ∈ interest, ∃ c, Function.update fds fd (some (.conn n)) d =
      some (.conn c) := by
  intro d hd
  obtain ⟨c, hc⟩ := h d hd
  exact ⟨c, Table.update_of_held hc (by simp [hfd]) _⟩

theorem conn_lt_close (h : ∀ d c, fds d = some (.conn c) → c < n) (fd : Nat) :
    ∀ d c, Function.update fds fd none d = some (.conn c) → c < n := by
  intro d c hd
  by_cases hne : d = fd
  · rw [hne, Function.update_self] at hd
    cases hd
  · rw [Function.update_of_ne hne] at hd
    exact h d c hd

/-- The new connection takes the next number. -/
theorem conn_lt_open (h : ∀ d c, fds d = some (.conn c) → c < n) (fd : Nat) :
    ∀ d c, Function.update fds fd (some (.conn n)) d = some (.conn c) → c < n + 1 := by
  intro d c hd
  by_cases hne : d = fd
  · rw [hne, Function.update_self, Option.some.injEq, Desc.conn.injEq] at hd
    exact hd ▸ Nat.lt_succ_self _
  · rw [Function.update_of_ne hne] at hd
    exact Nat.lt_succ_of_lt (h d c hd)

/-- A descriptor that is open after a `close` was open before, and is not the one closed. -/
theorem held_of_close {d : Nat} {x : Desc} (h : Function.update fds fd none d = some x) :
    d ≠ fd ∧ fds d = some x := by
  have hne : d ≠ fd := by
    rintro rfl
    rw [Function.update_self] at h
    cases h
  rw [Function.update_of_ne hne] at h
  exact ⟨hne, h⟩

/-- What is open after `close(acc)` was open before. -/
theorem held_of_closeAcc {acc : Option Nat} {d : Nat} {x : Desc}
    (h : fds.closeAcc acc d = some x) : fds d = some x := by
  cases acc with
  | none => exact h
  | some acc => exact (held_of_close h).2

/-- The process has inherited the standard streams and nothing else. -/
def Startup.Standard (k : Startup) : Prop :=
  ∀ d, k.table d ≠ none → d ≤ 2 ∨ d = k.soc ∨ d = k.epollfd

/-- The lowest free number is at most the number of open descriptors. -/
theorem LowestFree.le_length {d : Nat} (free : LowestFree fds d) {opened : List Nat}
    (h : ∀ e, fds e ≠ none → e ∈ opened) : d ≤ opened.length := by
  have hsub : (List.range d).Subperm opened :=
    List.subperm_of_subset List.nodup_range fun e he => h e (free.2 e (List.mem_range.mp he))
  simpa using hsub.length_le

/-! ## How many connections are open -/

/-- A list of what has the property, each once, tells how many have it. -/
theorem ncard_eq_length {P : Nat → Prop} {listed : List Nat} (nodup : listed.Nodup)
    (h : ∀ e, e ∈ listed ↔ P e) : Set.ncard {e | P e} = listed.length := by
  have hset : {e | P e} = (listed.toFinset : Set Nat) := by
    ext e
    rw [Set.mem_ofPred_eq, ← h e, Finset.mem_coe, List.mem_toFinset]
  rw [hset, Set.ncard_coe_finset, List.toFinset_card_of_nodup nodup]

/-- A list of what has the property, and perhaps more, bounds how many have it. -/
theorem encard_le_length {P : Nat → Prop} {listed : List Nat} (h : ∀ e, P e → e ∈ listed) :
    Set.encard {e | P e} ≤ listed.length := by
  have hsub : {e | P e} ⊆ (listed.toFinset : Set Nat) := by
    intro e he
    rw [Finset.mem_coe, List.mem_toFinset]
    exact h e he
  have hle := Set.encard_le_encard hsub
  rw [Set.encard_coe_eq_coe_finsetCard] at hle
  exact hle.trans (Nat.cast_le.mpr listed.toFinset_card_le)

/-- The number of open connections, the one on descriptor `d` not counted. -/
noncomputable def Table.opened (fds : Table) (d : Nat) : Nat :=
  Set.ncard {e | e ≠ d ∧ ∃ c, fds e = some (.conn c)}

/-- A list of the open connections, each once, tells how many they are. -/
theorem Table.opened_eq {d : Nat} (nodup : interest.Nodup)
    (h : ∀ e, e ∈ interest ↔ e ≠ d ∧ ∃ c, fds e = some (.conn c)) :
    fds.opened d = interest.length :=
  ncard_eq_length nodup h

/-- The descriptor `d` is free, so that all connections count. -/
theorem Table.opened_of_free {d : Nat} (nodup : interest.Nodup)
    (held : ∀ e, e ∈ interest ↔ ∃ c, fds e = some (.conn c)) (free : fds d = none) :
    fds.opened d = interest.length := by
  refine Table.opened_eq nodup fun e => ?_
  rw [held e]
  constructor
  · rintro ⟨c, hc⟩
    refine ⟨?_, c, hc⟩
    rintro rfl
    cases free.symm.trans hc
  · exact And.right

/-- A new connection stands on `d`, which is not listed yet. -/
theorem Table.opened_of_new {d : Nat} (nodup : interest.Nodup) (hnew : d ∉ interest)
    (registered : ∀ e ∈ interest, ∃ c, fds e = some (.conn c))
    (held : ∀ e c, fds e = some (.conn c) → e ≠ d → e ∈ interest) :
    fds.opened d = interest.length := by
  refine Table.opened_eq nodup fun e => ?_
  constructor
  · intro he
    refine ⟨?_, registered e he⟩
    rintro rfl
    exact hnew he
  · rintro ⟨hne, c, hc⟩
    exact held e c hc hne

end Table

end NetworkProgram.Kernel
