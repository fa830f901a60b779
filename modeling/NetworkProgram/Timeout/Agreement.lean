import NetworkProgram.Timeout.Model

set_option autoImplicit false

/-!
# Timeout: when the six functions agree

The functions that wait in the kernel see what happens within ten seconds, and
nothing else.  The loops that sleep see what has happened at one of their looks at
the socket, and stop looking when `time` is more than ten seconds ahead.
-/

namespace NetworkProgram.Timeout

open NetworkProgram.Foundation

section Timeline

variable {w : Timeline}

/-- The end of the ten seconds. -/
def Timeline.deadline (w : Timeline) : Nat := w.start + timeoutSec * second

/-- What the functions are to return. -/
def Timeline.expected (w : Timeline) (bufsize : Nat) : Int :=
  match w.happened w.deadline with
  | some e => e.length bufsize
  | none => -1

/-- When the round after `i` naps begins. -/
def Timeline.instant (w : Timeline) : Nat → Nat
  | 0 => w.start
  | i + 1 => w.instant i + w.naps i

/-- Before round `i` the clock did not stop the loop. -/
def Timeline.Reached (w : Timeline) (i : Nat) : Prop := ∀ j < i, w.late (w.instant j) = false

/-- No `recv` that may block for ever follows a timeout. -/
def Quiet (log : List Op) : Prop :=
  ∀ before behind, log = before ++ .timeout :: behind → .recv .blocking ∉ behind

theorem happened_eq_some {now : Nat} {e : Happening} :
    w.happened now = some e ↔ ∃ t, w.event = some (t, e) ∧ t ≤ now := by
  unfold Timeline.happened
  cases w.event with
  | none => simp
  | some p =>
      obtain ⟨t, e'⟩ := p
      by_cases h : t ≤ now
      · simp only [if_pos h, Option.some.injEq, Prod.mk.injEq]
        constructor
        · rintro rfl
          exact ⟨t, ⟨rfl, rfl⟩, h⟩
        · rintro ⟨t', ⟨-, rfl⟩, -⟩
          rfl
      · simp only [if_neg h, reduceCtorEq, Option.some.injEq, Prod.mk.injEq, false_iff]
        rintro ⟨t', ⟨rfl, rfl⟩, hle⟩
        exact h hle

theorem happened_eq_none {now : Nat} :
    w.happened now = none ↔ ∀ t e, w.event = some (t, e) → now < t := by
  unfold Timeline.happened
  cases w.event with
  | none => simp
  | some p =>
      obtain ⟨t, e'⟩ := p
      by_cases h : t ≤ now
      · simp [h]
      · simp [h]; omega

theorem happened_of_idle (h : w.event = none) (now : Nat) : w.happened now = none :=
  happened_eq_none.mpr fun t e h' => by rw [h] at h'; cases h'

/-- There is one event. -/
theorem happened_of_event {t now : Nat} {e e' : Happening} (h : w.event = some (t, e))
    (happened : w.happened now = some e') : e' = e ∧ t ≤ now := by
  obtain ⟨t', h', hle⟩ := happened_eq_some.mp happened
  obtain ⟨rfl, rfl⟩ := Prod.mk.inj (Option.some.inj (h.symm.trans h'))
  exact ⟨rfl, hle⟩

theorem fionread_pos {now : Nat} (h : 0 < w.fionread now) :
    ∃ k pos, w.happened now = some (.data k pos) ∧ w.fionread now = k := by
  unfold Timeline.fionread at h ⊢
  cases hhappened : w.happened now with
  | none => rw [hhappened] at h; exact absurd h (Nat.lt_irrefl 0)
  | some e =>
      cases e with
      | data k pos => exact ⟨k, pos, rfl, rfl⟩
      | closed => rw [hhappened] at h; exact absurd h (Nat.lt_irrefl 0)

theorem fionread_pos_iff {t now : Nat} {e : Happening} (h : w.event = some (t, e)) :
    0 < w.fionread now ↔ e ≠ .closed ∧ t ≤ now := by
  unfold Timeline.fionread Timeline.happened
  rw [h]
  by_cases hle : t ≤ now
  · simp only [hle, and_true]
    cases e with
    | data k pos => exact iff_of_true pos (fun heq => by cases heq)
    | closed => exact iff_of_false (Nat.lt_irrefl 0) (fun hne => hne rfl)
  · simp [hle]

theorem instant_mono {i j : Nat} (h : i ≤ j) : w.instant i ≤ w.instant j := by
  induction h with
  | refl => exact Nat.le_refl _
  | step _ ih => exact Nat.le_trans ih (Nat.le_add_right _ _)

/-- The clock is late only after the ten seconds, but within twelve it is. -/
theorem deadline_lt_of_late {now : Nat} (h : w.late now = true) : w.deadline < now := by
  unfold Timeline.late time second timeoutSec at h
  unfold Timeline.deadline second timeoutSec
  have hlate := of_decide_eq_true h
  omega

theorem lt_of_not_late {now : Nat} (h : w.late now = false) : now < w.start + 12 * second := by
  unfold Timeline.late time second timeoutSec at h
  unfold second
  have hearly := of_decide_eq_false h
  omega

theorem late_mono {now later : Nat} (hle : now ≤ later) (h : w.late now = true) :
    w.late later = true := by
  unfold Timeline.late time second timeoutSec at h ⊢
  have hlate := of_decide_eq_true h
  refine decide_eq_true ?_
  have hdiv : now / 1000000 ≤ later / 1000000 := Nat.div_le_div_right hle
  omega

end Timeline

/-! ## The functions that wait in the kernel -/

section Waiting

variable {w : Timeline} {bufsize : Nat} {s : State}

theorem wait_fst (w : Timeline) : (w.wait w.start).1 = w.happened w.deadline := by
  unfold Timeline.wait Timeline.happened Timeline.deadline
  cases w.event with
  | none => rfl
  | some p =>
      dsimp only
      split <;> rfl

theorem expected_of_none (h : w.happened w.deadline = none) : w.expected bufsize = -1 := by
  rw [Timeline.expected, h]

theorem expected_of_some {e : Happening} (h : w.happened w.deadline = some e) :
    w.expected bufsize = e.length bufsize := by
  rw [Timeline.expected, h]

theorem quiet_of_notMem {log : List Op} (h : .recv .blocking ∉ log) : Quiet log := by
  rintro before behind rfl hmem
  exact h (List.mem_append_right _ (List.mem_cons_of_mem _ hmem))

theorem quiet_of_no_timeout {log : List Op} (h : .timeout ∉ log) : Quiet log := by
  rintro before behind rfl
  exact absurd (List.mem_append_right _ List.mem_cons_self) h

theorem quiet_timeout {log : List Op} (h : .timeout ∉ log) : Quiet (log ++ [.timeout]) := by
  intro before behind heq
  rcases List.append_eq_append_iff.mp heq with ⟨mid, hbefore, hmid⟩ | ⟨mid, hlog, hmid⟩
  · cases mid with
    | nil =>
        obtain rfl := (List.cons.inj hmid).2
        exact List.not_mem_nil
    | cons op mid => simp at hmid
  · cases mid with
    | nil =>
        obtain rfl := (List.cons.inj hmid).2
        exact List.not_mem_nil
    | cons op mid =>
        obtain rfl := (List.cons.inj hmid).1
        exact absurd (hlog ▸ List.mem_append_right _ List.mem_cons_self) h

/-- A `recv` that may block for ever finds what was waited for. -/
theorem receive_eq {e : Happening} {now : Nat} (hmode : s.mode = .blocking)
    (h : w.happened now = some e) :
    ∃ t, s.receive w bufsize = some t ∧ t.ended = true ∧ t.rv = e.length bufsize ∧
      t.log = s.log ++ [.recv .blocking] := by
  obtain ⟨t, hevent, -⟩ := happened_eq_some.mp h
  unfold State.receive recv
  rw [hmode, hevent]
  exact ⟨_, rfl, rfl, rfl, rfl⟩

/-- The loop ends in this round, with the result that is expected. -/
def Done (w : Timeline) (bufsize : Nat) (result : Option State) : Prop :=
  ∃ t, result = some t ∧ t.ended = true ∧ t.rv = w.expected bufsize ∧ Quiet t.log

theorem done_timedOut (h : w.happened w.deadline = none) (hlog : s.log = []) :
    Done w bufsize (some s.timedOut) := by
  refine ⟨_, rfl, rfl, (expected_of_none h).symm, quiet_of_notMem ?_⟩
  simp [State.timedOut, hlog]

theorem done_receive {e : Happening} (h : w.happened w.deadline = some e)
    (hmode : s.mode = .blocking) (hlog : s.log = []) : Done w bufsize (s.receive w bufsize) := by
  obtain ⟨t, heq, hended, hrv, hlog'⟩ := receive_eq hmode h
  refine ⟨t, heq, hended, hrv.trans (expected_of_some h).symm, quiet_of_no_timeout ?_⟩
  simp [hlog', hlog]

theorem done_select (rv : Int) :
    Done w bufsize (select w bufsize (Method.select.enter w rv)) := by
  unfold select
  dsimp only [Method.enter]
  rw [wait_fst]
  cases h : w.happened w.deadline with
  | none => exact done_timedOut h rfl
  | some e => exact done_receive h rfl rfl

theorem done_poll (rv : Int) :
    Done w bufsize (poll w bufsize (Method.poll.enter w rv)) := by
  unfold poll
  dsimp only [Method.enter]
  rw [wait_fst]
  cases h : w.happened w.deadline with
  | none => exact done_timedOut h rfl
  | some e => exact done_receive h rfl rfl

theorem done_setsockopt (rv : Int) :
    Done w bufsize (setsockopt w bufsize (Method.setsockopt.enter w rv)) := by
  unfold setsockopt recv
  dsimp only [Method.enter, Method.mode]
  rw [wait_fst]
  cases h : w.happened w.deadline with
  | none =>
      refine ⟨_, rfl, rfl, (expected_of_none h).symm, quiet_of_notMem ?_⟩
      simp [State.timedOut]
  | some e =>
      refine ⟨_, rfl, rfl, (expected_of_some h).symm, quiet_of_no_timeout ?_⟩
      simp

end Waiting

/-! ## The functions that look again and again -/

section Polling

variable {w : Timeline} {bufsize : Nat}

/-- The state before a round: all looks so far saw the clock in time and the socket idle. -/
structure Looking (w : Timeline) (mode : Mode) (idle : Nat → Prop) (s : State) : Prop where
  now : s.now = w.instant s.slept
  mode : s.mode = mode
  going : s.ended = false
  reached : w.Reached s.slept
  idle : ∀ j < s.slept, idle (w.instant j)
  untimed : .timeout ∉ s.log

/-- Another nap. -/
theorem Looking.nap {mode : Mode} {idle : Nat → Prop} {s : State} (h : Looking w mode idle s)
    (log : List Op) (early : w.late s.now = false) (hidle : idle s.now)
    (untimed : .timeout ∉ log) :
    Looking w mode idle (State.nap w { s with log := log }) ∧
      w.start + 12 * second - (State.nap w { s with log := log }).now <
        w.start + 12 * second - s.now := by
  have hnow := h.now
  have hstep (P : Nat → Prop) (before : ∀ j < s.slept, P (w.instant j)) (this : P s.now) :
      ∀ j < s.slept + 1, P (w.instant j) := by
    intro j hj
    rcases Nat.lt_succ_iff_lt_or_eq.mp hj with hlt | rfl
    · exact before j hlt
    · exact hnow ▸ this
  constructor
  · refine ⟨?_, h.mode, h.going, hstep (fun now => w.late now = false) h.reached early,
      hstep idle h.idle hidle, untimed⟩
    change s.now + w.naps s.slept = w.instant s.slept + w.naps s.slept
    rw [hnow]
  · have hlong := w.long s.slept
    have hroom := lt_of_not_late early
    change _ - (s.now + w.naps s.slept) < _
    omega

theorem looking_enter (m : Method) (rv : Int) (idle : Nat → Prop) :
    Looking w m.mode idle (m.enter w rv) where
  now := rfl
  mode := rfl
  going := rfl
  reached := fun _ h => absurd h (Nat.not_lt_zero _)
  idle := fun _ h => absurd h (Nat.not_lt_zero _)
  untimed := List.not_mem_nil

/-- How the loop of `recv_with_timeout_by_nonblocking` ends: in round `i` it sees that
something happened, or that the time is over. -/
def NonblockingEnds (w : Timeline) (bufsize : Nat) (t : State) : Prop :=
  ∃ i, w.Reached i ∧
    ((∃ e, w.happened (w.instant i) = some e ∧ t.rv = e.length bufsize) ∨
      (w.late (w.instant i) = true ∧ w.happened (w.instant i) = none ∧ t.rv = -1)) ∧
    Quiet t.log

theorem nonblocking_ends (w : Timeline) (bufsize : Nat) (rv : Int) :
    ∃ t, DoWhile (nonblocking w bufsize) State.ended (Method.nonblocking.enter w rv) t ∧
      NonblockingEnds w bufsize t := by
  refine DoWhile.total (I := fun s => Looking w .nonblocking (fun now => w.happened now = none) s ∧
    .recv .blocking ∉ s.log) (fun s => w.start + 12 * second - s.now) ?_
    ⟨looking_enter .nonblocking rv _, List.not_mem_nil⟩
  rintro s ⟨h, hlog⟩
  have hnow := h.now
  obtain ⟨now, slept, mode, rv, ended, log⟩ := s
  obtain rfl : mode = .nonblocking := h.mode
  unfold nonblocking recv
  dsimp only at hnow hlog ⊢
  cases hlate : w.late now with
  | true =>
      simp only [if_true, State.timedOut]
      have hquiet : Quiet (log ++ [.timeout] ++ [.recv .nonblocking]) :=
        quiet_of_notMem (by simp [hlog])
      cases hhappened : w.happened now with
      | none =>
          exact ⟨_, rfl, .inl ⟨rfl, slept, h.reached,
            .inr ⟨hnow ▸ hlate, hnow ▸ hhappened, rfl⟩, hquiet⟩⟩
      | some e =>
          exact ⟨_, rfl, .inl ⟨rfl, slept, h.reached, .inl ⟨e, hnow ▸ hhappened, rfl⟩, hquiet⟩⟩
  | false =>
      simp only [Bool.false_eq_true, if_false]
      have hlog' : .recv .blocking ∉ log ++ [.recv .nonblocking] := by simp [hlog]
      cases hhappened : w.happened now with
      | none =>
          have hnap := h.nap (log ++ [.recv .nonblocking]) hlate hhappened
            (by simpa using h.untimed)
          exact ⟨_, rfl, .inr ⟨h.going, ⟨hnap.1, hlog'⟩, hnap.2⟩⟩
      | some e =>
          exact ⟨_, rfl, .inl ⟨rfl, slept, h.reached, .inl ⟨e, hnow ▸ hhappened, rfl⟩,
            quiet_of_notMem hlog'⟩⟩

/-- How the loop of `recv_with_timeout_by_ioctl` ends: in round `i` it sees that the time
is over, or that there is data. -/
def IoctlEnds (w : Timeline) (bufsize : Nat) (t : State) : Prop :=
  ∃ i, w.Reached i ∧ (∀ j < i, w.fionread (w.instant j) = 0) ∧
    ((w.late (w.instant i) = true ∧ t.rv = -1) ∨
      (w.late (w.instant i) = false ∧ 0 < w.fionread (w.instant i) ∧
        t.rv = min (w.fionread (w.instant i)) bufsize)) ∧
    Quiet t.log

theorem ioctl_ends (w : Timeline) (bufsize : Nat) (rv : Int) :
    ∃ t, DoWhile (ioctl w bufsize) State.ended (Method.ioctl.enter w rv) t ∧
      IoctlEnds w bufsize t := by
  refine DoWhile.total (I := Looking w .blocking fun now => w.fionread now = 0)
    (fun s => w.start + 12 * second - s.now) ?_
    (looking_enter .ioctl rv _)
  intro s h
  have hnow := h.now
  unfold ioctl
  split
  · rename_i late
    refine ⟨_, rfl, .inl ⟨rfl, s.slept, h.reached, h.idle, .inl ⟨hnow ▸ late, rfl⟩, ?_⟩⟩
    exact quiet_timeout h.untimed
  · rename_i early
    split
    · rename_i hidle
      have hnap := h.nap s.log (by simpa using early) hidle h.untimed
      exact ⟨_, rfl, .inr ⟨h.going, hnap⟩⟩
    · rename_i hdata
      obtain ⟨k, pos, hhappened, hk⟩ := fionread_pos (Nat.pos_of_ne_zero hdata)
      obtain ⟨t, heq, hended, hrv, hlog⟩ := receive_eq h.mode hhappened
      refine ⟨t, heq, .inl ⟨hended, s.slept, h.reached, h.idle, .inr ⟨?_, ?_, ?_⟩, ?_⟩⟩
      · exact hnow ▸ (by simpa using early)
      · exact hnow ▸ Nat.pos_of_ne_zero hdata
      · rw [hrv, ← hnow, hk]
        rfl
      · rw [hlog]
        exact quiet_of_no_timeout (by simpa using h.untimed)

end Polling

/-! ## The six functions -/

section Agreement

variable {w : Timeline} {bufsize : Nat}

/-- What a function returns is what is expected. -/
def Correct (m : Method) (w : Timeline) (bufsize : Nat) : Prop :=
  ∀ rv t, Returns m w bufsize rv t → t.rv = w.expected bufsize

/-- The round in which the clock stops the loop is one of those it comes to, and no
later one is. -/
theorem le_of_reached {i j : Nat} (hlate : w.late (w.instant i) = true) (h : w.Reached j) :
    j ≤ i := by
  refine Nat.le_of_not_lt fun hlt => ?_
  have hearly := h i hlt
  rw [hlate] at hearly
  cases hearly

theorem returns_of_done {m : Method} {rv : Int}
    (h : Done w bufsize (m.body w bufsize (m.enter w rv))) :
    ∃ t, Returns m w bufsize rv t ∧ Quiet t.log ∧ t.rv = w.expected bufsize := by
  obtain ⟨t, hbody, hended, hrv, hquiet⟩ := h
  exact ⟨_, ⟨t, .last hbody hended, rfl⟩, hquiet, hrv⟩

theorem returns_unique {m : Method} {rv : Int} {t u : State} (h : Returns m w bufsize rv t)
    (h' : Returns m w bufsize rv u) : t = u := by
  obtain ⟨t, hloop, rfl⟩ := h
  obtain ⟨u, hloop', rfl⟩ := h'
  rw [hloop.unique hloop']

theorem correct_of_done {m : Method}
    (h : ∀ rv, Done w bufsize (m.body w bufsize (m.enter w rv))) : Correct m w bufsize := by
  intro rv t ht
  obtain ⟨u, hu, -, hrv⟩ := returns_of_done (h rv)
  rw [returns_unique ht hu, hrv]

theorem early_of_lt {i : Nat} (hearly : w.late (w.instant i) = false) : w.Reached i := by
  intro j hj
  cases hlate : w.late (w.instant j) with
  | false => rfl
  | true =>
      rw [late_mono (instant_mono (Nat.le_of_lt hj)) hlate] at hearly
      cases hearly

theorem expected_of_event {t : Nat} {e : Happening} (h : w.event = some (t, e)) :
    w.expected bufsize = if t ≤ w.deadline then (e.length bufsize : Int) else -1 := by
  split
  · rename_i hle
    exact expected_of_some (happened_eq_some.mpr ⟨t, h, hle⟩)
  · rename_i hlt
    refine expected_of_none (happened_eq_none.mpr fun t' e' h' => ?_)
    obtain ⟨rfl, -⟩ := Prod.mk.inj (Option.some.inj (h.symm.trans h'))
    omega

/-- The loop of non-blocking calls is wrong about what happens after the ten seconds,
but before its last round. -/
theorem nonblocking_correct_iff {t : Nat} {e : Happening} {u : State} (h : w.event = some (t, e))
    (ends : NonblockingEnds w bufsize u) :
    u.rv = w.expected bufsize ↔ t ≤ w.deadline ∨ ∀ i, w.Reached i → w.instant i < t := by
  rw [expected_of_event h]
  obtain ⟨i, hreached, ⟨e', hhappened, hrv⟩ | ⟨hlate, hhappened, hrv⟩, -⟩ := ends
  · obtain ⟨rfl, hle⟩ := happened_of_event h hhappened
    rw [hrv]
    by_cases hin : t ≤ w.deadline
    · simp [hin]
    · rw [if_neg hin]
      constructor
      · intro heq
        omega
      · rintro (hle' | hnever)
        · exact absurd hle' hin
        · have hlt := hnever i hreached
          omega
  · have hlt := happened_eq_none.mp hhappened t e h
    have hdeadline := deadline_lt_of_late hlate
    rw [hrv, if_neg (by omega)]
    refine iff_of_true rfl (.inr fun j hj => ?_)
    have hmono := instant_mono (w := w) (le_of_reached hlate hj)
    omega

/-- The loop of `ioctl` calls never sees the end of the stream, and sees data if it
is there in a round in which the clock is in time. -/
theorem ioctl_correct_iff {t : Nat} {e : Happening} {u : State} (h : w.event = some (t, e))
    (ends : IoctlEnds w bufsize u) :
    u.rv = w.expected bufsize ↔
      (t ≤ w.deadline ↔ e ≠ .closed ∧ ∃ i, w.late (w.instant i) = false ∧ t ≤ w.instant i) := by
  rw [expected_of_event h]
  obtain ⟨i, -, hidle, ⟨hlate, hrv⟩ | ⟨hearly, hpos, hrv⟩, -⟩ := ends
  · have hunseen : ¬ (e ≠ .closed ∧ ∃ j, w.late (w.instant j) = false ∧ t ≤ w.instant j) := by
      rintro ⟨hdata, j, hearly, hle⟩
      have hpos := (fionread_pos_iff h).mpr ⟨hdata, hle⟩
      rcases Nat.lt_or_ge j i with hlt | hge
      · rw [hidle j hlt] at hpos
        exact Nat.lt_irrefl 0 hpos
      · rw [late_mono (instant_mono hge) hlate] at hearly
        cases hearly
    rw [hrv, iff_false_right hunseen]
    by_cases hin : t ≤ w.deadline
    · rw [if_pos hin]
      exact iff_of_false (by omega) (not_not.mpr hin)
    · rw [if_neg hin]
      exact iff_of_true rfl hin
  · have hdata := (fionread_pos_iff h).mp hpos
    have hseen : e ≠ .closed ∧ ∃ j, w.late (w.instant j) = false ∧ t ≤ w.instant j :=
      ⟨hdata.1, i, hearly, hdata.2⟩
    rw [iff_true_right hseen, hrv]
    obtain ⟨k, pos, hhappened, hk⟩ := fionread_pos hpos
    obtain ⟨rfl, -⟩ := happened_of_event h hhappened
    rw [hk]
    by_cases hin : t ≤ w.deadline
    · rw [if_pos hin]
      exact iff_of_true rfl hin
    · rw [if_neg hin]
      exact iff_of_false (by omega) hin

theorem nonblocking_correct_of_idle {u : State} (h : w.event = none)
    (ends : NonblockingEnds w bufsize u) : u.rv = w.expected bufsize := by
  rw [expected_of_none (happened_of_idle h _)]
  obtain ⟨i, -, ⟨e, hhappened, -⟩ | ⟨-, -, hrv⟩, -⟩ := ends
  · rw [happened_of_idle h] at hhappened
    cases hhappened
  · exact hrv

theorem ioctl_correct_of_idle {u : State} (h : w.event = none) (ends : IoctlEnds w bufsize u) :
    u.rv = w.expected bufsize := by
  rw [expected_of_none (happened_of_idle h _)]
  obtain ⟨i, -, -, ⟨-, hrv⟩ | ⟨-, hpos, -⟩, -⟩ := ends
  · exact hrv
  · obtain ⟨k, pos, hhappened, -⟩ := fionread_pos hpos
    rw [happened_of_idle h] at hhappened
    cases hhappened

/-! ## When they agree -/

/-- What happens is seen by all six functions or by none: it is data that arrives in
the ten seconds and before a round in which the clock is in time, or it happens after
every round. -/
def Timeline.InTime (w : Timeline) : Prop :=
  ∀ t e, w.event = some (t, e) →
    (t ≤ w.deadline ∧ e ≠ .closed ∧ ∃ i, w.late (w.instant i) = false ∧ t ≤ w.instant i) ∨
      ∀ i, w.Reached i → w.instant i < t

theorem inTime_of_correct (hn : Correct .nonblocking w bufsize) (hi : Correct .ioctl w bufsize) :
    w.InTime := by
  intro t e h
  obtain ⟨u, hloop, hends⟩ := nonblocking_ends w bufsize 0
  obtain ⟨v, hloop', hends'⟩ := ioctl_ends w bufsize 0
  have hrv := (nonblocking_correct_iff h hends).mp
    (hn 0 { u with mode := .blocking } ⟨u, hloop, rfl⟩)
  have hrv' := (ioctl_correct_iff h hends').mp
    (hi 0 { v with mode := .blocking } ⟨v, hloop', rfl⟩)
  by_cases hin : t ≤ w.deadline
  · exact .inl ⟨hin, hrv'.mp hin⟩
  · exact .inr (hrv.resolve_left hin)

theorem nonblocking_correct (hin : w.InTime) : Correct .nonblocking w bufsize := by
  intro rv t ht
  obtain ⟨u, hloop, hends⟩ := nonblocking_ends w bufsize rv
  obtain rfl := returns_unique ht ⟨u, hloop, rfl⟩
  change u.rv = _
  cases hevent : w.event with
  | none => exact nonblocking_correct_of_idle hevent hends
  | some p =>
      exact (nonblocking_correct_iff hevent hends).mpr ((hin p.1 p.2 hevent).imp_left And.left)

theorem ioctl_correct (hin : w.InTime) : Correct .ioctl w bufsize := by
  intro rv t ht
  obtain ⟨u, hloop, hends⟩ := ioctl_ends w bufsize rv
  obtain rfl := returns_unique ht ⟨u, hloop, rfl⟩
  change u.rv = _
  cases hevent : w.event with
  | none => exact ioctl_correct_of_idle hevent hends
  | some p =>
      rw [ioctl_correct_iff hevent hends]
      rcases hin p.1 p.2 hevent with ⟨hle, hseen⟩ | hnever
      · exact iff_of_true hle hseen
      · refine iff_of_false ?_ ?_
        · obtain ⟨i, hreached, -, ⟨hlate, -⟩ | ⟨-, hpos, -⟩, -⟩ := hends
          · have hdeadline := deadline_lt_of_late hlate
            have hlt := hnever i hreached
            omega
          · have hle := ((fionread_pos_iff hevent).mp hpos).2
            exact absurd (hnever i hreached) (Nat.not_lt.mpr hle)
        · rintro ⟨-, i, hearly, hle⟩
          exact absurd (hnever i (early_of_lt hearly)) (Nat.not_lt.mpr hle)

/-- Every function returns, and calls no `recv` that may block after its timeout. -/
theorem returns (m : Method) (w : Timeline) (bufsize : Nat) (rv : Int) :
    ∃ t, Returns m w bufsize rv t ∧ Quiet t.log := by
  cases m with
  | nonblocking =>
      obtain ⟨u, hloop, i, -, -, hquiet⟩ := nonblocking_ends w bufsize rv
      exact ⟨_, ⟨u, hloop, rfl⟩, hquiet⟩
  | select =>
      obtain ⟨t, ht, hquiet, -⟩ := returns_of_done (m := .select) (done_select (w := w) rv)
      exact ⟨t, ht, hquiet⟩
  | poll =>
      obtain ⟨t, ht, hquiet, -⟩ := returns_of_done (m := .poll) (done_poll (w := w) rv)
      exact ⟨t, ht, hquiet⟩
  | epoll =>
      obtain ⟨t, ht, hquiet, -⟩ := returns_of_done (m := .epoll) (done_poll (w := w) rv)
      exact ⟨t, ht, hquiet⟩
  | ioctl =>
      obtain ⟨u, hloop, i, -, -, -, hquiet⟩ := ioctl_ends w bufsize rv
      exact ⟨_, ⟨u, hloop, rfl⟩, hquiet⟩
  | setsockopt =>
      obtain ⟨t, ht, hquiet, -⟩ := returns_of_done (m := .setsockopt) (done_setsockopt (w := w) rv)
      exact ⟨t, ht, hquiet⟩

/-- Every function returns, without a `recv` that may block after its timeout; and all
six return what is expected if and only if they all see what happens, or none does. -/
theorem recv_with_timeout_agree (w : Timeline) (bufsize : Nat) :
    (∀ m rv, ∃ t, Returns m w bufsize rv t ∧ Quiet t.log) ∧
    ((∀ m, Correct m w bufsize) ↔ w.InTime) := by
  refine ⟨fun m rv => returns m w bufsize rv, ?_, ?_⟩
  · intro h
    exact inTime_of_correct (h .nonblocking) (h .ioctl)
  · intro hin m
    cases m with
    | nonblocking => exact nonblocking_correct hin
    | select => exact correct_of_done done_select
    | poll => exact correct_of_done done_poll
    | epoll => exact correct_of_done (m := .epoll) done_poll
    | ioctl => exact ioctl_correct hin
    | setsockopt => exact correct_of_done done_setsockopt

/-- The peer closes one second after the call. -/
def closing : Timeline where
  start := 0
  naps := fun _ => 100000
  long := fun _ => Nat.le_refl _
  event := some (second, .closed)

/-- The loop of `ioctl` calls waits for the timeout when the peer has closed. -/
theorem ioctl_misses_close :
    ¬ ∀ (w : Timeline) (bufsize : Nat) (m : Method), Correct m w bufsize := by
  intro h
  obtain ⟨u, hloop, hends⟩ := ioctl_ends closing 512 0
  have hrv := (ioctl_correct_iff rfl hends).mp
    (h closing 512 .ioctl 0 { u with mode := .blocking } ⟨u, hloop, rfl⟩)
  exact (hrv.mp (by decide)).1 rfl

end Agreement

end NetworkProgram.Timeout
