import NetworkProgram.Kernel.EpollSet
import NetworkProgram.Libevent.Model

set_option autoImplicit false

/-!
# Libevent: events and connections

The registered events and the open connections correspond one to one as long as each
call of `accept_handler` makes both or none.  There are two calls that make one of
them: an interrupted `accept` whose event is registered all the same, and a failed
`event_add` after a connection was accepted.
-/

namespace NetworkProgram.Libevent

open NetworkProgram.Foundation
open NetworkProgram.Kernel

/-- The registered events and the open connections correspond, and every structure is
registered or was freed once. -/
structure State.Matched (s : State) : Prop where
  allocated : ∀ ev ∈ s.registered, ev < s.allocated
  once : s.registered.Nodup
  /-- Every registered event watches an open connection. -/
  watched : ∀ ev ∈ s.registered, ∃ d c, s.watch ev = some d ∧ s.fds d = some (.conn c)
  /-- Every open connection is watched by one event. -/
  unique : ∀ d c, s.fds d = some (.conn c) → ∃! ev, ev ∈ s.registered ∧ s.watch ev = some d
  freed : ∀ ev, s.freed.count ev = if ev < s.allocated ∧ ev ∉ s.registered then 1 else 0

/-- The call registers an event for the connection that it accepted, and no event when
`accept` was interrupted. -/
def Action.Good : Action → Prop
  | .accept true (.accepted _) added => added = true
  | .accept true .interrupted added => added = false
  | _ => True

theorem matched_init (k : Echo.Listener) : (init k).Matched where
  allocated := fun _ h => absurd h List.not_mem_nil
  once := List.nodup_nil
  watched := fun _ h => absurd h List.not_mem_nil
  unique := fun d c h => absurd h (k.noConn d c)
  freed := fun ev => (if_neg fun h => absurd h.1 (Nat.not_lt_zero ev)).symm

section Step

variable {s t : State}

/-- The next structure is not registered yet. -/
theorem State.Matched.ne_allocated (ok : s.Matched) {ev : EventId} (h : ev ∈ s.registered) :
    ev ≠ s.allocated := Nat.ne_of_lt (ok.allocated ev h)

theorem State.Matched.watch_update (ok : s.Matched) {ev : EventId} (h : ev ∈ s.registered)
    (acc : Option Nat) : Function.update s.watch s.allocated acc ev = s.watch ev :=
  Function.update_of_ne (ok.ne_allocated h) _ _

theorem lt_succ_iff_of_ne {m n : Nat} (h : m ≠ n) : m < n + 1 ↔ m < n :=
  ⟨fun hlt => Nat.lt_of_le_of_ne (Nat.le_of_lt_succ hlt) h, Nat.lt_succ_of_lt⟩

/-- A structure that is allocated and freed again. -/
theorem State.Matched.freed_next (ok : s.Matched) (ev : EventId) :
    (s.freed ++ [s.allocated]).count ev =
      if ev < s.allocated + 1 ∧ ev ∉ s.registered then 1 else 0 := by
  rw [List.count_append, ok.freed ev, List.count_singleton]
  rcases eq_or_ne ev s.allocated with rfl | hne
  · have hnot : s.allocated ∉ s.registered := fun h => ok.ne_allocated h rfl
    simp [hnot]
  · simp [lt_succ_iff_of_ne hne, hne.symm]

/-- A connection and its event. -/
theorem State.Matched.keep (ok : s.Matched) {acc : Nat} (free : LowestFree s.fds acc)
    (c : ConnId) (next : ConnId) :
    (eventAdd { s with fds := Function.update s.fds acc (some (.conn c)), next := next }
      (some acc) true).Matched := by
  rw [eventAdd_true]
  refine ⟨fun ev hev => ?_, List.nodup_cons.mpr ⟨fun h => ok.ne_allocated h rfl, ok.once⟩, ?_, ?_,
    ?_⟩
  · rcases List.mem_cons.mp hev with rfl | hev
    · exact Nat.lt_succ_self _
    · exact Nat.lt_succ_of_lt (ok.allocated ev hev)
  · intro ev hev
    rcases List.mem_cons.mp hev with rfl | hev
    · exact ⟨acc, c, Function.update_self .., Function.update_self ..⟩
    · obtain ⟨d, e, hwatch, hd⟩ := ok.watched ev hev
      exact ⟨d, e, (ok.watch_update hev _).trans hwatch,
        Table.update_of_held hd (by simp [free.1]) _⟩
  · intro d e hd
    dsimp only at hd ⊢
    rcases eq_or_ne d acc with rfl | hne
    · refine ⟨s.allocated, ⟨List.mem_cons_self, Function.update_self ..⟩, ?_⟩
      rintro ev ⟨hev, hwatch⟩
      refine (List.mem_cons.mp hev).resolve_right fun hev => ?_
      rw [ok.watch_update hev] at hwatch
      obtain ⟨d', e', hwatch', hd'⟩ := ok.watched ev hev
      obtain rfl := Option.some.inj (hwatch.symm.trans hwatch')
      cases free.1.symm.trans hd'
    · rw [Function.update_of_ne hne] at hd
      obtain ⟨ev, ⟨hev, hwatch⟩, honly⟩ := ok.unique d e hd
      refine ⟨ev, ⟨List.mem_cons_of_mem _ hev, (ok.watch_update hev _).trans hwatch⟩, ?_⟩
      rintro ev' ⟨hev', hwatch'⟩
      rcases List.mem_cons.mp hev' with rfl | hev'
      · rw [Function.update_self, Option.some.injEq] at hwatch'
        exact absurd hwatch'.symm hne
      · rw [ok.watch_update hev'] at hwatch'
        exact honly ev' ⟨hev', hwatch'⟩
  · intro ev
    dsimp only
    rw [ok.freed ev]
    rcases eq_or_ne ev s.allocated with rfl | hne
    · simp
    · simp [lt_succ_iff_of_ne hne, hne]

/-- No connection, and the structure is freed. -/
theorem State.Matched.drop (ok : s.Matched) : (eventAdd s none false).Matched := by
  rw [eventAdd_false]
  refine ⟨fun ev hev => Nat.lt_succ_of_lt (ok.allocated ev hev), ok.once, ?_, ?_, ok.freed_next⟩
  · intro ev hev
    obtain ⟨d, c, hwatch, hd⟩ := ok.watched ev hev
    exact ⟨d, c, (ok.watch_update hev _).trans hwatch, hd⟩
  · intro d c hd
    obtain ⟨ev, ⟨hev, hwatch⟩, honly⟩ := ok.unique d c hd
    refine ⟨ev, ⟨hev, (ok.watch_update hev _).trans hwatch⟩, ?_⟩
    rintro ev' ⟨hev', hwatch'⟩
    exact honly ev' ⟨hev', (ok.watch_update hev' _).symm.trans hwatch'⟩

/-- The connection is open, and nothing watches it. -/
theorem State.Matched.not_leaked (ok : s.Matched) {acc : Nat} (free : LowestFree s.fds acc)
    (c : ConnId) (next : ConnId) :
    ¬ (eventAdd { s with fds := Function.update s.fds acc (some (.conn c)), next := next }
      (some acc) false).Matched := by
  intro matched
  obtain ⟨ev, ⟨hev, hwatch⟩, -⟩ := matched.unique acc c (Function.update_self ..)
  have hev : ev ∈ s.registered := hev
  have hwatch : s.watch ev = some acc := (ok.watch_update hev _).symm.trans hwatch
  obtain ⟨d, e, hwatch', hd⟩ := ok.watched ev hev
  obtain rfl := Option.some.inj (hwatch.symm.trans hwatch')
  cases free.1.symm.trans hd

/-- The event watches nothing. -/
theorem not_matched_none : ¬ (eventAdd s none true).Matched := by
  intro matched
  rw [eventAdd_true] at matched
  obtain ⟨d, c, hwatch, -⟩ := matched.watched s.allocated List.mem_cons_self
  cases (Function.update_self (f := s.watch) s.allocated none).symm.trans hwatch

/-- The event, its structure and its descriptor go together. -/
theorem State.Matched.release (ok : s.Matched) {ev : EventId} (mem : ev ∈ s.registered) :
    (release s ev (s.watch ev)).Matched := by
  obtain ⟨d, c, hwatch, hd⟩ := ok.watched ev mem
  have hother : ∀ e ∈ s.registered.erase ev, e ∈ s.registered ∧ s.watch e ≠ some d := by
    intro e he
    have hmem := List.mem_of_mem_erase he
    refine ⟨hmem, fun hsame => ?_⟩
    obtain ⟨ev', -, honly⟩ := ok.unique d c hd
    have heq := (honly e ⟨hmem, hsame⟩).trans (honly ev ⟨mem, hwatch⟩).symm
    exact ok.once.not_mem_erase (heq ▸ he)
  rw [hwatch]
  refine ⟨fun e he => ok.allocated e (hother e he).1, ok.once.erase ev, ?_, ?_, ?_⟩
  · intro e he
    obtain ⟨hmem, hne⟩ := hother e he
    obtain ⟨d', c', hwatch', hd'⟩ := ok.watched e hmem
    refine ⟨d', c', hwatch', (Function.update_of_ne ?_ _ _).trans hd'⟩
    rintro rfl
    exact hne hwatch'
  · intro d' c' hd'
    obtain ⟨hne, hold⟩ := held_of_close hd'
    obtain ⟨e, ⟨he, hwatch'⟩, honly⟩ := ok.unique d' c' hold
    refine ⟨e, ⟨(List.mem_erase_of_ne ?_).mpr he, hwatch'⟩, ?_⟩
    · rintro rfl
      exact hne (Option.some.inj (hwatch'.symm.trans hwatch))
    · rintro e' ⟨he', hw'⟩
      exact honly e' ⟨(hother e' he').1, hw'⟩
  · intro e
    change (s.freed ++ [ev]).count e = if e < s.allocated ∧ e ∉ s.registered.erase ev then 1 else 0
    rw [List.count_append, ok.freed e, List.count_singleton]
    rcases eq_or_ne e ev with rfl | hne
    · simp [mem, ok.allocated e mem, ok.once.not_mem_erase]
    · simp [hne.symm, List.mem_erase_of_ne hne]

theorem State.Matched.logged (ok : s.Matched) (log : List (ConnId × Libc.Bytes)) :
    State.Matched { s with log := log } where
  allocated := ok.allocated
  once := ok.once
  watched := ok.watched
  unique := ok.unique
  freed := ok.freed

/-- From a state in order, a call leads to one exactly if it is good. -/
theorem matched_step_iff {a : Action} (ok : s.Matched) (hstep : step s a = some t) :
    t.Matched ↔ a.Good := by
  cases move_of_step hstep with
  | ignores => exact iff_of_true ok trivial
  | @accepts acc added free =>
      cases added with
      | true => exact iff_of_true (ok.keep free _ _) rfl
      | false => exact iff_of_false (ok.not_leaked free _ _) Bool.false_ne_true
  | @interrupted added =>
      cases added with
      | true => exact iff_of_false not_matched_none Bool.true_eq_false.mp
      | false => exact iff_of_true ok.drop rfl
  | fails => exact iff_of_true ok trivial
  | skips mem => exact iff_of_true ok trivial
  | serves mem => exact iff_of_true (ok.logged _) trivial
  | releases mem => exact iff_of_true ((ok.logged _).release mem) trivial

end Step

/-- In every run: the correspondence holds after each call exactly if each call of
`accept_handler` registers an event for the connection that it accepts, and none when
`accept` is interrupted. -/
theorem matched_iff (k : Echo.Listener) (calls : List Action) {s : State}
    (run : exec step (init k) calls = some s) :
    (∀ n t, exec step (init k) (calls.take n) = some t → t.Matched) ↔ ∀ a ∈ calls, a.Good :=
  exec_invariant_iff (fun _ _ _ ok hstep => matched_step_iff ok hstep) (matched_init k) run

/-- Two connections; the first one is closed, and an `accept` fails. -/
theorem matched_iff_two :
    ∃ s, exec step (init .plain) [.accept true (.accepted 4) true, .accept true (.accepted 5) true,
        .read 0 true (.plain .eof true), .accept true .error false] = some s ∧
      s.registered = [1] ∧ s.freed = [0] ∧ s.Matched := by
  have run : exec step (init .plain) [.accept true (.accepted 4) true,
      .accept true (.accepted 5) true, .read 0 true (.plain .eof true),
      .accept true .error false] = some _ := rfl
  refine ⟨_, run, rfl, rfl, (matched_iff .plain _ run).mpr ?_ 4 _ run⟩
  simp [Action.Good]

/-- An interrupted `accept`: an event is registered for -1. -/
theorem interrupted_unmatched :
    ¬ ∀ calls s, exec step (init .plain) calls = some s → s.Matched := by
  intro h
  exact not_matched_none (s := init .plain) (h [.accept true .interrupted true] _ rfl)

end NetworkProgram.Libevent
