import NetworkProgram.Server5.Model

set_option autoImplicit false

/-!
# Server5: zombies and signals

The parent owes one reaping for SIGCHLD if it is pending, and one if the handler is
at its `wait`.  Two things can come apart: several children may terminate for one
signal, and `waitpid` may reap the child whose signal is still pending.  In the first
case there are more zombies than the parent will reap, in the second fewer.
-/

namespace NetworkProgram.Server5

open NetworkProgram.Foundation

/-- The handler is at its `wait`. -/
def State.atWait (s : State) : Nat := if s.handler = .wait then 1 else 0

/-- How many children the handler is still going to reap. -/
def State.due (s : State) : Nat := s.pending.toNat + s.atWait

/-- `wait` is entered, or about to be, without a zombie while a child runs. -/
def State.Blocks (s : State) : Prop := s.handler = .wait ∧ s.zombies = [] ∧ s.running ≠ []

/-- The parent waits in `accept`, and SIGCHLD is neither pending nor handled. -/
def State.Waits (s : State) : Prop :=
  s.pc = .accept ∧ s.handler = .outside ∧ s.pending = false

def Action.isExit : Action → Bool
  | .exit _ => true
  | _ => false

/-- `waitpid` reaps a child. -/
def Action.reaps : Action → Bool
  | .waitpid (some _) => true
  | _ => false

/-- `waitpid` does not take the last zombie while SIGCHLD is pending. -/
def KeepsOne (s : State) (a : Action) : Prop :=
  a.reaps = true ∧ s.pending = true → 2 ≤ s.zombies.length

instance (s : State) (a : Action) : Decidable (KeepsOne s a) :=
  inferInstanceAs (Decidable (_ ∧ _ → _))

/-- When a child terminates, all that did so before are reaped, or will be by the `wait`
that the handler is at. -/
def OneByOne (s : State) (a : Action) : Prop :=
  a.isExit = true → s.zombies.length ≤ s.atWait

instance (s : State) (a : Action) : Decidable (OneByOne s a) :=
  inferInstanceAs (Decidable (_ → _))

section Steps

variable {s t : State} {a : Action}

theorem atWait_of_outside (h : s.handler = .outside) : s.atWait = 0 := by
  simp [State.atWait, h]

theorem atWait_of_wait (h : s.handler = .wait) : s.atWait = 1 := by
  simp [State.atWait, h]

/-! ## Enough zombies -/

theorem due_le_step (h : s.due ≤ s.zombies.length) (good : KeepsOne s a)
    (hstep : step s a = some t) : t.due ≤ t.zombies.length := by
  unfold State.due at h ⊢
  cases move_of_step hstep with
  | exits mem =>
      have hle := Bool.toNat_le s.pending
      simp only [Bool.toNat_true, List.length_cons, State.atWait] at h ⊢
      omega
  | delivers handler pending =>
      rw [pending, atWait_of_outside handler] at h
      simpa [State.atWait] using h
  | waits handler alone reaped =>
      rw [atWait_of_wait handler] at h
      have hlen := reaped.length
      cases reaped with
      | child mem =>
          simp only [State.atWait] at hlen ⊢
          simp
          omega
      | nobody empty => simp [empty] at h
  | returns handler => simpa [State.atWait, handler] using h
  | accepts handler pc => exact h
  | forks handler pc fresh => exact h
  | forkFails handler pc => exact h
  | checks handler pc reaped =>
      have hlen := reaped.length
      cases reaped with
      | @child pid mem =>
          have hkeeps := good
          simp only [KeepsOne, Action.reaps, true_and] at hkeeps
          rw [atWait_of_outside handler] at h
          simp only [State.atWait, handler] at hlen ⊢
          cases hpending : s.pending with
          | true =>
              have htwo := hkeeps hpending
              simp
              omega
          | false => simp
      | nobody empty => exact h

/-- The child whose signal is pending was reaped: the handler will find nobody. -/
theorem blocks_after {pid : Pid} (hstep : step s (.waitpid (some pid)) = some t)
    (last : ¬ KeepsOne s (.waitpid (some pid))) :
    ∃ u, step t .deliver = some u ∧ (u.Blocks ↔ u.running ≠ []) := by
  obtain ⟨⟨-, pending⟩, hlt⟩ := Classical.not_imp.mp last
  cases move_of_step hstep with
  | checks handler pc reaped =>
      have hlen := reaped.length
      cases reaped with
      | child mem =>
          refine ⟨{ s with
            zombies := s.zombies.erase pid, pc := .accept, pending := false, handler := .wait },
            by simp [step, deliver, handler, pending], ?_⟩
          have hnil : s.zombies.erase pid = [] := by
            refine List.eq_nil_of_length_eq_zero ?_
            dsimp only at hlen
            omega
          simp [State.Blocks, hnil]

/-! ## Enough signals -/

theorem zombies_le_step (h : s.zombies.length ≤ s.due) (good : OneByOne s a)
    (hstep : step s a = some t) : t.zombies.length ≤ t.due := by
  unfold State.due at h ⊢
  cases move_of_step hstep with
  | exits mem =>
      have hle := good rfl
      simp only [Bool.toNat_true, List.length_cons, State.atWait] at hle ⊢
      omega
  | delivers handler pending =>
      rw [pending, atWait_of_outside handler] at h
      simpa [State.atWait] using h
  | waits handler alone reaped =>
      rw [atWait_of_wait handler] at h
      have hlen := reaped.length
      cases reaped with
      | child mem =>
          simp only [State.atWait] at hlen ⊢
          simp
          omega
      | nobody empty => simp [empty]
  | returns handler => simpa [State.atWait, handler] using h
  | accepts handler pc => exact h
  | forks handler pc fresh => exact h
  | forkFails handler pc => exact h
  | checks handler pc reaped =>
      have hlen := reaped.length
      cases reaped with
      | child mem =>
          simp only [State.atWait] at h hlen ⊢
          omega
      | nobody empty => exact h

/-! ## What the parent comes to by itself -/

/-- Outside of the handler: at most one more child is reaped. -/
theorem settles_outside (pc : s.pc = .accept) (handler : s.handler = .outside)
    (more : s.due < s.zombies.length) :
    ∃ u, Reaches step s u ∧ u.Waits ∧ u.zombies ≠ [] := by
  unfold State.due at more
  rw [atWait_of_outside handler] at more
  cases hpending : s.pending with
  | false =>
      refine ⟨s, .refl, ⟨pc, handler, hpending⟩, ?_⟩
      rintro hnil
      simp [hnil] at more
  | true =>
      rw [hpending] at more
      obtain ⟨pid, rest, hzombies⟩ := List.exists_cons_of_length_pos (Nat.zero_lt_of_lt more)
      have hrest : rest ≠ [] := by
        rintro rfl
        simp [hzombies] at more
      refine ⟨{ s with pending := false, zombies := rest },
        .of_exec (show exec step s [.deliver, .wait (some pid), .sigreturn] = _ from ?_),
        ⟨pc, handler, rfl⟩, hrest⟩
      simp [exec, step, deliver, wait, reap, sigreturn, handler, hpending, hzombies]

theorem settles_done (pc : s.pc = .accept) (handler : s.handler = .done)
    (more : s.due < s.zombies.length) :
    ∃ u, Reaches step s u ∧ u.Waits ∧ u.zombies ≠ [] := by
  have hstep : step s .sigreturn = some { s with handler := .outside } := by
    simp [step, sigreturn, handler]
  obtain ⟨u, run, hu⟩ := settles_outside (s := { s with handler := .outside }) pc rfl
    (by simpa [State.due, State.atWait, handler] using more)
  exact ⟨u, (Reaches.tail .refl hstep).trans run, hu⟩

/-- With more zombies than are due, some are left when all signals were handled. -/
theorem settles (pc : s.pc = .accept) (more : s.due < s.zombies.length) :
    ∃ u, Reaches step s u ∧ u.Waits ∧ u.zombies ≠ [] := by
  cases handler : s.handler with
  | outside => exact settles_outside pc handler more
  | done => exact settles_done pc handler more
  | wait =>
      obtain ⟨pid, rest, hzombies⟩ := List.exists_cons_of_length_pos (Nat.zero_lt_of_lt more)
      have hstep : step s (.wait (some pid)) =
          some { s with zombies := rest, handler := .done } := by
        simp [step, wait, reap, handler, hzombies]
      obtain ⟨u, run, hu⟩ := settles_done (s := { s with zombies := rest, handler := .done }) pc rfl
        (by simp [State.due, State.atWait, handler, hzombies] at more ⊢; omega)
      exact ⟨u, (Reaches.tail .refl hstep).trans run, hu⟩

theorem left_after {pid : Pid} (pc : s.pc = .accept) (many : ¬ OneByOne s (.exit pid))
    (hstep : step s (.exit pid) = some t) :
    ∃ u, Reaches step t u ∧ u.Waits ∧ u.zombies ≠ [] := by
  have hlt := Nat.lt_of_not_le (Classical.not_imp.mp many).2
  cases move_of_step hstep with
  | exits mem =>
      refine settles pc ?_
      simp only [State.due, State.atWait, List.length_cons, Bool.toNat_true] at hlt ⊢
      omega

end Steps

/-! ## Every run -/

theorem reaches_due_le {s : State} (run : Reaches (guarded KeepsOne step) init s) :
    s.due ≤ s.zombies.length :=
  run.invariant (I := fun s => s.due ≤ s.zombies.length) (Nat.le_refl _) fun _ _ _ h move => by
    obtain ⟨good, hstep⟩ := guarded_eq_some.mp move
    exact due_le_step h good hstep

theorem reaches_zombies_le {s : State} (run : Reaches (guarded OneByOne step) init s) :
    s.zombies.length ≤ s.due :=
  run.invariant (I := fun s => s.zombies.length ≤ s.due) (Nat.le_refl _) fun _ _ _ h move => by
    obtain ⟨good, hstep⟩ := guarded_eq_some.mp move
    exact zombies_le_step h good hstep

/-- If `waitpid` never takes the last zombie while SIGCHLD is pending, `wait` never
blocks.  Once it has taken it, the next delivery makes `wait` block unless no child runs. -/
theorem wait_never_blocks (s : State) :
    (Reaches (guarded KeepsOne step) init s → ¬ s.Blocks) ∧
    (∀ pid t, step s (.waitpid (some pid)) = some t → ¬ KeepsOne s (.waitpid (some pid)) →
      ∃ u, step t .deliver = some u ∧ (u.Blocks ↔ u.running ≠ [])) := by
  refine ⟨fun run blocks => ?_, fun pid t hstep last => blocks_after hstep last⟩
  have hdue := reaches_due_le run
  rw [State.due, atWait_of_wait blocks.1, blocks.2.1] at hdue
  exact absurd hdue (Nat.not_succ_le_zero _)

/-- Two children; the first one's signal is delivered before the loop looks for it. -/
theorem wait_never_blocks_two :
    ∃ s, Reaches (guarded KeepsOne step) init s ∧ s.handler = .wait ∧ s.running = [2] ∧
      ¬ s.Blocks := by
  have run := Reaches.of_exec (show exec (guarded KeepsOne step) init
    [.accept true, .fork (some 1), .waitpid none, .accept true, .fork (some 2), .exit 1,
      .deliver] = some _ from rfl)
  exact ⟨_, run, rfl, rfl, (wait_never_blocks _).1 run⟩

/-- The first child terminates; the loop reaps it, and then its signal is delivered. -/
theorem wait_blocks : ¬ ∀ s, Reaches step init s → ¬ s.Blocks := by
  intro h
  have run := Reaches.of_exec (show exec step init
    [.accept true, .fork (some 1), .waitpid none, .accept true, .fork (some 2), .exit 1,
      .waitpid (some 1), .deliver] = some _ from rfl)
  exact h _ run ⟨rfl, rfl, List.cons_ne_nil _ _⟩

/-- If the children terminate one by one, no zombie is left when the parent waits and
all signals were handled.  Otherwise, if the parent waits in `accept`, it can come to
wait with a zombie. -/
theorem no_zombie_left (s : State) :
    (Reaches (guarded OneByOne step) init s → s.Waits → s.zombies = []) ∧
    (∀ pid t, s.pc = .accept → step s (.exit pid) = some t → ¬ OneByOne s (.exit pid) →
      ∃ u, Reaches step t u ∧ u.Waits ∧ u.zombies ≠ []) := by
  refine ⟨fun run waits => ?_, fun pid t pc hstep many => left_after pc many hstep⟩
  have hle := reaches_zombies_le run
  rw [State.due, waits.2.2, atWait_of_outside waits.2.1] at hle
  exact List.eq_nil_of_length_eq_zero (Nat.le_zero.mp hle)

/-- A child terminates while the handler waits for another. -/
theorem no_zombie_left_two :
    ∃ s, Reaches (guarded OneByOne step) init s ∧ s.pc = .accept ∧ s.running = [] ∧
      s.zombies = [] := by
  have run := Reaches.of_exec (show exec (guarded OneByOne step) init
    [.accept true, .fork (some 1), .waitpid none, .accept true, .fork (some 2), .waitpid none,
      .exit 1, .deliver, .exit 2, .wait (some 1), .sigreturn, .deliver, .wait (some 2),
      .sigreturn] = some _ from rfl)
  exact ⟨_, run, rfl, rfl, (no_zombie_left _).1 run ⟨rfl, rfl, rfl⟩⟩

/-- Two children terminate for one signal. -/
theorem zombie_left : ¬ ∀ s, Reaches step init s → s.Waits → s.zombies = [] := by
  intro h
  have run := Reaches.of_exec (show exec step init
    [.accept true, .fork (some 1), .waitpid none, .accept true, .fork (some 2), .waitpid none,
      .exit 1, .exit 2, .deliver, .wait (some 1), .sigreturn] = some _ from rfl)
  exact absurd (h _ run ⟨rfl, rfl, rfl⟩) (List.cons_ne_nil _ _)

end NetworkProgram.Server5
