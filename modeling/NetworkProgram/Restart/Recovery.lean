import NetworkProgram.Restart.Descriptors

set_option autoImplicit false

/-!
# Restart: how often a program starts anew

The handler of SIGHUP does not return from a successful `execve`, and what is blocked during
a handler stays blocked in the new image.  So with `signal` a program starts anew once; with
`SA_NODEFER` any number of times, and from whatever it was doing.  Since the server can always
be made to start anew, it keeps its descriptors only if it was started with those that
`Launch` asks for (`descriptors_kept_iff`).
-/

namespace NetworkProgram.Restart

open NetworkProgram.Foundation
open NetworkProgram.Kernel

variable {p : Program} {s t : Process}

/-! ## With `SA_NODEFER` -/

/-- The handler is installed, and the signal gets through. -/
structure Alert (s : Process) : Prop where
  signal : s.signal.Open
  installed : s.pc ≠ .sigaction → s.signal.disposition ≠ .default

theorem Alert.start (table : Table) : Alert (.start table) where
  signal := Signal.open_fresh
  installed := fun h => absurd rfl h

theorem Alert.step (hp : p.nodefer = true) (h : Alert s) {a : Act} (hstep : s.step p a = some t) :
    Alert t := by
  obtain ⟨-, ⟨-, rfl⟩ | ⟨i, rest, ok, -, -, rfl⟩ | ⟨-, hmove⟩⟩ := move_of_step hstep
  · rw [h.signal.raise]
    refine ⟨?_, fun hpc => ?_⟩
    · rw [Process.react_signal]
      exact h.signal
    · rw [Process.react_signal]
      rw [Process.react_pc] at hpc
      exact h.installed hpc
  · unfold Process.hangupHandler
    split
    · exact ⟨h.signal, h.installed⟩
    · cases ok with
      | true => exact ⟨h.signal.exec, fun hpc => absurd rfl hpc⟩
      | false =>
          rw [if_neg Bool.false_ne_true, h.signal.leave]
          exact ⟨h.signal, h.installed⟩
  · cases hmove with
    | sigaction hpc =>
        rw [hp]
        exact ⟨h.signal.install, fun _ => Disposition.noConfusion⟩
    | noSocket hpc => exact ⟨h.signal, h.installed⟩
    | abandon hpc => exact ⟨h.signal, h.installed⟩
    | noConnection hpc => exact h
    | socket hpc _ => exact ⟨h.signal, fun _ => h.installed (by rw [hpc]; exact Pc.noConfusion)⟩
    | configure hpc _ => exact ⟨h.signal, fun _ => h.installed (by rw [hpc]; exact Pc.noConfusion)⟩
    | refused hpc => exact ⟨h.signal, fun _ => h.installed (by rw [hpc]; exact Pc.noConfusion)⟩
    | accept hpc _ _ => exact ⟨h.signal, fun _ => h.installed (by rw [hpc]; exact Pc.noConfusion)⟩
    | served hpc => exact ⟨h.signal, fun _ => h.installed (by rw [hpc]; exact Pc.noConfusion)⟩
    | close hpc => exact ⟨h.signal, fun _ => h.installed (by rw [hpc]; exact Pc.noConfusion)⟩

theorem Alert.of_reaches {table : Table} (hp : p.nodefer = true)
    (run : Reaches (Process.step p) (.start table) s) : Alert s :=
  run.invariant (.start table) fun _ _ _ h hstep => h.step hp hstep

/-- A new image, about to install the handler. -/
structure Fresh (image : Nat) (s : Process) : Prop where
  pc : s.pc = .sigaction
  handlers : s.handlers = []
  status : s.status = .running
  image : s.image = image

/-- The handler closes what is left to close, and comes to `execve`. -/
theorem exec_handler (p : Program) (n : Nat) {s : Process} {i : Nat} {rest : List Nat}
    (hrunning : s.status = .running) (hhandlers : s.handlers = i :: rest) (hn : p.maxFd ≤ i + n) :
    ∃ m t, exec (Process.step p) s (List.replicate m (.handler true)) = some t ∧
      Fresh (s.image + 1) t ∧ ∀ d, d < i ∨ p.maxFd ≤ d → t.table d = s.table d := by
  have hstep : s.step p (.handler true) = some (s.hangupHandler p i rest true) := by
    unfold Process.step
    rw [if_pos hrunning, hhandlers]
  by_cases hi : i < p.maxFd
  · cases n with
    | zero => omega
    | succ n =>
        have hnext : s.hangupHandler p i rest true =
            { s with table := Function.update s.table i none, handlers := (i + 1) :: rest } :=
          if_pos hi
        obtain ⟨m, t, hexec, hfresh, htable⟩ := exec_handler p n
          (s := { s with table := Function.update s.table i none, handlers := (i + 1) :: rest })
          hrunning rfl (by omega)
        refine ⟨m + 1, t, ?_, hfresh, fun d hd => ?_⟩
        · rw [List.replicate_succ]
          exact exec_cons_eq_some.mpr ⟨_, hstep.trans (congrArg some hnext), hexec⟩
        · rw [htable d (by omega)]
          exact Function.update_of_ne (by omega) _ _
  · have hnext : s.hangupHandler p i rest true =
        { s with
          signal := s.signal.exec
          pc := .sigaction
          handlers := []
          image := s.image + 1
          failed := false } := if_neg hi
    refine ⟨1, _, exec_cons_eq_some.mpr ⟨_, hstep.trans (congrArg some hnext), rfl⟩, ?_,
      fun _ _ => rfl⟩
    exact ⟨rfl, rfl, hrunning, rfl⟩

/-- SIGHUP makes the program start anew, with the descriptors that the handler leaves open. -/
theorem Alert.restarts (h : Alert s) (hrunning : s.status = .running) (hpc : s.pc ≠ .sigaction) :
    ∃ m t, exec (Process.step p) s (.hangup :: List.replicate m (.handler true)) = some t ∧
      Fresh (s.image + 1) t ∧ ∀ d, d < 3 ∨ p.maxFd ≤ d → t.table d = s.table d := by
  have hraise : s.signal.raise = (s.signal, .call) := by
    rw [h.signal.raise, if_neg (h.installed hpc)]
  have hstep : s.step p .hangup = some { s with handlers := 3 :: s.handlers } := by
    rw [Process.step, if_pos hrunning, hraise]
    rfl
  obtain ⟨m, t, hexec, hfresh, htable⟩ := exec_handler p (p.maxFd - 3)
    (s := { s with handlers := 3 :: s.handlers }) hrunning rfl (by omega)
  exact ⟨m, t, exec_cons_eq_some.mpr ⟨_, hstep, hexec⟩, hfresh, htable⟩

/-! ## `re-exec.c` -/

/-- A server in `accept_loop` on a socket that listens. -/
structure Listening (soc image : Nat) (s : Process) : Prop where
  pc : s.pc = .accept soc
  listening : s.table soc = some .listening
  handlers : s.handlers = []
  status : s.status = .running
  image : s.image = image

/-- What `main` does up to `accept_loop`, if all of it succeeds. -/
def comeUp (soc : Nat) : List Act :=
  [.sigaction, .socket (some soc), .configure true, .configure true, .configure true]

theorem exec_comeUp {image soc : Nat} (h : Fresh image s) (hfree : LowestFree s.table soc) :
    ∃ t, exec (Process.step reExec) s (comeUp soc) = some t ∧ Listening soc image t ∧
      t.table = Function.update s.table soc (some .listening) := by
  obtain ⟨table, signal, pc, handlers, status, image, failed, next⟩ := s
  obtain ⟨rfl, rfl, rfl, rfl⟩ := h
  have hheld : Function.update table soc (some .listening) soc = some .listening :=
    Function.update_self ..
  refine ⟨{ table := Function.update table soc (some .listening)
            signal := signal.install true
            pc := .accept soc
            handlers := []
            status := .running
            image := image
            failed := false
            next := next }, ?_, ⟨rfl, hheld, rfl, rfl, rfl⟩, rfl⟩
  refine exec_cons_eq_some.mpr ⟨_, rfl, exec_cons_eq_some.mpr ⟨_, if_pos hfree, ?_⟩⟩
  refine exec_cons_eq_some.mpr ⟨_, if_pos hheld, exec_cons_eq_some.mpr ⟨_, if_pos hheld, ?_⟩⟩
  exact exec_cons_eq_some.mpr ⟨_, if_pos hheld, rfl⟩

/-- One SIGHUP makes the server listen again, whatever it was doing: while it serves, inside
the handler, or deaf; and on the same descriptor each time. -/
theorem hangup_restarts {k : Launch} (run : Reaches (Process.step reExec) (.start k.table) s)
    (hrunning : s.status = .running) (hpc : s.pc ≠ .sigaction) {soc : Nat}
    (hfree : LowestFree (k.base 1) soc) :
    ∃ m t, exec (Process.step reExec) s
        (.hangup :: List.replicate m (.handler true) ++ comeUp soc) = some t ∧
      Listening soc (s.image + 1) t := by
  obtain ⟨m, u, hexec, hfresh, -⟩ := (Alert.of_reaches rfl run).restarts hrunning hpc
  have hreaches := run.trans (Reaches.of_exec hexec)
  have htable : u.table = k.base 1 := by
    have hkept := (kept_of_launch hreaches).overlaid hfresh.pc (by rw [hfresh.image]; omega)
    rw [hkept, hfresh.image]
    rfl
  obtain ⟨t, hcome, hlistening, -⟩ := exec_comeUp hfresh (htable ▸ hfree)
  exact ⟨m, t, exec_append_eq_some.mpr ⟨u, hexec, hcome⟩, hlistening⟩

/-- The server that has become deaf while it served. -/
theorem hangup_restarts_deaf : ∃ s, Reaches (Process.step reExec) (.start Launch.plain.table) s ∧
    s.failed = true ∧ s.table 3 = none ∧
    ∃ m t, exec (Process.step reExec) s
        (.hangup :: List.replicate m (.handler true) ++ comeUp 3) = some t ∧
      Listening 3 (s.image + 1) t := by
  obtain ⟨s, run, hpc, hrunning, -, hfailed⟩ := exists_deaf
  have hclosed : s.table 3 = none :=
    (Inv.of_reaches run).deaf 3 (by rw [hpc]; rfl) hfailed
  have hfree : LowestFree (Launch.plain.base 1) 3 := by decide
  refine ⟨s, run, hfailed, hclosed, hangup_restarts run hrunning ?_ hfree⟩
  rw [hpc]
  exact Pc.noConfusion

/-! ### The descriptors to start with -/

section Leaks

variable {table : Table}

/-- What the handler does not close comes into the next image. -/
theorem unswept_of_kept
    (h : ∀ s, Reaches (Process.step reExec) (.start table) s → Kept table s)
    (run : Reaches (Process.step reExec) (.start table) s) (hrunning : s.status = .running)
    (hpc : s.pc ≠ .sigaction) {d : Nat} (hopen : s.table d ≠ none) (hfree : table d = none) :
    Swept d := by
  by_contra hd
  obtain ⟨m, t, hexec, hfresh, htable⟩ := (Alert.of_reaches rfl run).restarts hrunning hpc
  have hkept := (h t (run.trans (.of_exec hexec))).overlaid hfresh.pc
    (by rw [hfresh.image]; exact Nat.succ_ne_zero _)
  have hleft : t.table d = s.table d := htable d (by
    unfold Swept at hd
    change d < 3 ∨ 64 ≤ d
    omega)
  rw [hkept, imageBase, if_neg (by rw [hfresh.image]; exact Nat.succ_ne_zero _), if_neg hd,
    hfree] at hleft
  exact hopen hleft.symm

/-- A server that keeps its descriptors was started with the standard streams, no socket that
listens, and two free numbers that the handler closes. -/
theorem launch_of_kept (hfinite : ∃ n, ∀ d, n ≤ d → table d = none)
    (h : ∀ s, Reaches (Process.step reExec) (.start table) s → Kept table s) :
    ∃ k : Launch, k.table = table := by
  obtain ⟨n, hn⟩ := hfinite
  obtain ⟨x, hx⟩ := exists_lowestFree ⟨n, hn n (Nat.le_refl n)⟩
  obtain ⟨s, hup, hlistening, hheld⟩ := exec_comeUp (s := .start table) ⟨rfl, rfl, rfl, rfl⟩ hx
  have hrun : Reaches (Process.step reExec) (.start table) s := .of_exec hup
  have hpc : s.pc ≠ .sigaction := by
    rw [hlistening.pc]
    exact Pc.noConfusion
  have hsoc : s.table x ≠ none := by
    rw [hlistening.listening]
    exact Option.some_ne_none _
  have hxSwept := unswept_of_kept h hrun hlistening.status hpc hsoc hx.1
  -- The number of the first connection is the next one that is free.
  have hmany : s.table (max n (x + 1)) = none := by
    rw [hheld]
    exact (Function.update_of_ne (by omega) _ _).trans (hn _ (Nat.le_max_left _ _))
  obtain ⟨y, hy⟩ := exists_lowestFree ⟨_, hmany⟩
  have hne : y ≠ x := fun heq => hsoc (heq ▸ hy.1)
  have hyFree : table y = none := by
    have hfree := hy.1
    rw [hheld] at hfree
    exact (Function.update_of_ne hne _ _).symm.trans hfree
  obtain ⟨t, hstep, htPc, htStatus, htTable⟩ : ∃ t, s.step reExec (.accept (some y)) = some t ∧
      t.pc = .serve x y ∧ t.status = .running ∧
      t.table = Function.update s.table y (some (.conn s.next)) := by
    refine ⟨{ s with
      table := Function.update s.table y (some (.conn s.next))
      pc := .serve x y
      next := s.next + 1 }, ?_, rfl, hlistening.status, rfl⟩
    simp only [Process.step, if_pos hlistening.status, hlistening.handlers, Process.mainStep,
      hlistening.pc, if_pos (And.intro hlistening.listening hy)]
  have hySwept := unswept_of_kept h (hrun.tail hstep) htStatus
    (by rw [htPc]; exact Pc.noConfusion)
    (by rw [htTable, Function.update_self]; exact Option.some_ne_none _) hyFree
  have hlt : x < y := by
    refine Nat.lt_of_le_of_ne (Nat.le_of_not_lt fun hlow => ?_) hne.symm
    exact hx.2 y hlow hyFree
  refine ⟨⟨table, fun d hd => hx.2 d (Nat.lt_of_lt_of_le hd hxSwept.1), fun d hd => ?_,
    x, y, hlt, hySwept.2, hx.1, hyFree⟩, rfl⟩
  cases (h _ .refl).unique d hd

/-- For any table to start with: in every state that SIGHUPs, failures and restarts lead to the
server has kept its descriptors if and only if it was started with the standard streams open,
no socket that listens, and two free numbers below 64. -/
theorem descriptors_kept_iff (table : Table) (hfinite : ∃ n, ∀ d, n ≤ d → table d = none) :
    (∀ s, Reaches (Process.step reExec) (.start table) s → Kept table s) ↔
      (∀ d, d < 3 → table d ≠ none) ∧ (∀ d, table d ≠ some .listening) ∧
        ∃ x y, x < y ∧ y < 64 ∧ table x = none ∧ table y = none := by
  constructor
  · intro h
    obtain ⟨k, rfl⟩ := launch_of_kept hfinite h
    exact ⟨k.std, k.noSocket, k.roomy⟩
  · rintro ⟨std, noSocket, roomy⟩ s run
    exact kept_of_launch (k := ⟨table, std, noSocket, roomy⟩) run

end Leaks

/-- Started from a shell it keeps them; with the standard input closed it does not. -/
theorem descriptors_kept_shell :
    (∀ s, Reaches (Process.step reExec) (.start Launch.plain.table) s →
      Kept Launch.plain.table s) ∧
    ¬ ∀ s, Reaches (Process.step reExec)
      (.start (Function.update Launch.plain.table 0 none)) s →
        Kept (Function.update Launch.plain.table 0 none) s := by
  have hplain : ∀ d, 3 ≤ d → Launch.plain.table d = none := fun d hd =>
    if_neg (Nat.not_lt.mpr hd)
  constructor
  · exact (descriptors_kept_iff Launch.plain.table ⟨3, hplain⟩).mpr
      ⟨Launch.plain.std, Launch.plain.noSocket, Launch.plain.roomy⟩
  · intro h
    refine ((descriptors_kept_iff _ ⟨3, fun d hd => ?_⟩).mp h).1 0 (by decide) ?_
    · exact (Function.update_of_ne (by omega) _ _).trans (hplain d hd)
    · exact Function.update_self ..

/-! ## With `signal` -/

/-- The first image, in which the handler is called once at most; and the second one, in which
the signal is blocked. -/
inductive Once (s : Process) : Prop
  | first (image : s.image = 0) (handlers : s.handlers = []) (blocked : s.signal.blocked = false)
      (pending : s.signal.pending = false) (deferred : s.signal.disposition ≠ .handler true)
  | handling (image : s.image = 0) (one : s.handlers.length = 1)
      (blocked : s.signal.blocked = true) (deferred : s.signal.disposition = .handler false)
  | second (image : s.image = 1) (handlers : s.handlers = []) (blocked : s.signal.blocked = true)

theorem Once.react_deliver (signal : Signal) (himage : s.image = 0) (hhandlers : s.handlers = [])
    (hblocked : signal.blocked = false) (hpending : signal.pending = false)
    (hdeferred : signal.disposition ≠ .handler true) : Once (s.react signal.deliver) := by
  obtain ⟨disposition, blocked, pending⟩ := signal
  cases disposition with
  | default => exact .first himage hhandlers hblocked hpending hdeferred
  | handler nodefer =>
      obtain rfl : nodefer = false :=
        Bool.eq_false_iff.mpr fun htrue => hdeferred (congrArg Disposition.handler htrue)
      exact .handling himage (congrArg (fun l => (3 :: l).length) hhandlers) rfl rfl

/-- `main` does not touch the signal, except to install the handler. -/
theorem mainMove_signal {a : Act} (h : MainMove p s a t) :
    t.handlers = s.handlers ∧ t.image = s.image ∧
      (t.signal = s.signal ∨ t.signal = s.signal.install p.nodefer) := by
  cases h with
  | sigaction => exact ⟨rfl, rfl, .inr rfl⟩
  | _ => exact ⟨rfl, rfl, .inl rfl⟩

theorem Once.step (hp : p.nodefer = false) (h : Once s) {a : Act} (hstep : s.step p a = some t) :
    Once t := by
  obtain ⟨-, ⟨-, rfl⟩ | ⟨i, rest, ok, -, hcalled, rfl⟩ | ⟨hidle, hmove⟩⟩ := move_of_step hstep
  · cases h with
    | first himage hhandlers hblocked hpending hdeferred =>
        have hraise : s.signal.raise = s.signal.deliver := if_neg (by simp [hblocked])
        rw [hraise]
        exact .react_deliver s.signal himage hhandlers hblocked hpending hdeferred
    | handling himage hone hblocked hdeferred =>
        rw [Signal.raise_of_blocked hblocked]
        exact .handling himage hone hblocked hdeferred
    | second himage hhandlers hblocked =>
        rw [Signal.raise_of_blocked hblocked]
        exact .second himage hhandlers hblocked
  · cases h with
    | first himage hhandlers => rw [hhandlers] at hcalled; cases hcalled
    | second himage hhandlers => rw [hhandlers] at hcalled; cases hcalled
    | handling himage hone hblocked hdeferred =>
        rw [hcalled] at hone
        obtain rfl : rest = [] := List.length_eq_zero_iff.mp (Nat.succ.inj hone)
        unfold Process.hangupHandler
        split
        · exact .handling himage rfl hblocked hdeferred
        · cases ok with
          | true => exact .second (congrArg Nat.succ himage) rfl hblocked
          | false =>
              have hdeferred' : s.signal.disposition ≠ .handler true := by
                rw [hdeferred]
                intro heq
                cases heq
              rw [if_neg Bool.false_ne_true, Signal.leave]
              split
              · exact .react_deliver _ himage rfl rfl rfl hdeferred'
              · rename_i hpending
                exact .first himage rfl rfl (Bool.eq_false_iff.mpr hpending) hdeferred'
  · obtain ⟨hhandlers', himage', hsignal⟩ := mainMove_signal hmove
    cases h with
    | first himage hhandlers hblocked hpending hdeferred =>
        rcases hsignal with hsame | hinstall
        · exact .first (himage'.trans himage) (hhandlers'.trans hhandlers) (by rwa [hsame])
            (by rwa [hsame]) (by rwa [hsame])
        · refine .first (himage'.trans himage) (hhandlers'.trans hhandlers) (by rwa [hinstall])
            (by rwa [hinstall]) ?_
          rw [hinstall, hp]
          intro heq
          cases heq
    | handling himage hone hblocked hdeferred =>
        rw [hidle] at hone
        cases hone
    | second himage hhandlers hblocked =>
        refine .second (himage'.trans himage) (hhandlers'.trans hhandlers) ?_
        rcases hsignal with hsame | hinstall
        · rwa [hsame]
        · rwa [hinstall]

theorem Once.of_reaches {table : Table} (hp : p.nodefer = false)
    (run : Reaches (Process.step p) (.start table) s) : Once s :=
  run.invariant (.first rfl rfl rfl rfl fun h => by cases h) fun _ _ _ h hstep => h.step hp hstep

theorem exists_fresh (table : Table) (hp : p.nodefer = true) (n : Nat) :
    ∃ s, Reaches (Process.step p) (.start table) s ∧ Fresh n s := by
  induction n with
  | zero => exact ⟨.start table, .refl, rfl, rfl, rfl, rfl⟩
  | succ n ih =>
      obtain ⟨s, run, hfresh⟩ := ih
      obtain ⟨u, hmove⟩ : ∃ u, s.step p .sigaction = some u := by
        unfold Process.step
        rw [if_pos hfresh.status, hfresh.handlers]
        exact ⟨_, if_pos hfresh.pc⟩
      obtain ⟨hrunning, ⟨hact, -⟩ | ⟨i, rest, ok, hact, -⟩ | ⟨-, hmain⟩⟩ := move_of_step hmove
      · cases hact
      · cases hact
      obtain ⟨hpc, hstatus, himage⟩ : u.pc ≠ .sigaction ∧ u.status = .running ∧ u.image = n := by
        cases hmain with
        | sigaction =>
            refine ⟨?_, hfresh.status, hfresh.image⟩
            dsimp only
            split <;> exact Pc.noConfusion
      have hreaches := run.tail hmove
      obtain ⟨m, t, hexec, hnext, -⟩ := (Alert.of_reaches hp hreaches).restarts hstatus hpc
      exact ⟨t, hreaches.trans (.of_exec hexec), himage ▸ hnext⟩

/-- A program whose handler overlays it starts anew any number of times if and only if the
handler was installed with `SA_NODEFER`.  Without it no run starts it anew a second time, and
from the first time on SIGHUP is blocked. -/
theorem restarted_iff (p : Program) (table : Table) :
    ((∀ n, ∃ s, Reaches (Process.step p) (.start table) s ∧ s.image = n) ↔ p.nodefer = true) ∧
      (p.nodefer = false → ∀ s, Reaches (Process.step p) (.start table) s →
        s.image ≤ 1 ∧ (s.image = 1 → s.signal.blocked = true)) := by
  have hbound : p.nodefer = false → ∀ s, Reaches (Process.step p) (.start table) s →
      s.image ≤ 1 ∧ (s.image = 1 → s.signal.blocked = true) := by
    intro hp s run
    cases Once.of_reaches hp run with
    | first himage => exact ⟨by omega, fun hone => by omega⟩
    | handling himage => exact ⟨by omega, fun hone => by omega⟩
    | second himage hhandlers hblocked => exact ⟨Nat.le_of_eq himage, fun _ => hblocked⟩
  refine ⟨⟨fun hall => ?_, fun hp n => ?_⟩, hbound⟩
  · by_contra hdeferred
    obtain ⟨s, run, himage⟩ := hall 2
    have hle := (hbound (Bool.eq_false_iff.mpr hdeferred) s run).1
    omega
  · obtain ⟨s, run, hfresh⟩ := exists_fresh table hp n
    exact ⟨s, run, hfresh.image⟩

/-- `signaltest.c` as it is, and with `USE_SIGNAL`. -/
theorem restarted_iff_signaltest :
    (∀ n, ∃ s, Reaches (Process.step (signaltest false)) (.start Launch.plain.table) s ∧
      s.image = n) ∧
    ∀ s, Reaches (Process.step (signaltest true)) (.start Launch.plain.table) s →
      s.image ≤ 1 ∧ (s.image = 1 → s.signal.blocked = true) :=
  ⟨(restarted_iff (signaltest false) Launch.plain.table).1.mpr rfl,
    (restarted_iff (signaltest true) Launch.plain.table).2 rfl⟩

end NetworkProgram.Restart
