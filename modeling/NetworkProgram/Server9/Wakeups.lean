import NetworkProgram.Server9.Locks

set_option autoImplicit false

/-!
# Server9: no wake-up is lost

`send_thread` calls `pthread_cond_wait` without a loop around it, and `accept_loop`
fills its slot before it takes the mutex.  The check for an empty queue and the call
that blocks are under one lock, though, and so are the change of `last` and the
signal: while the mutex is free, a thread that is blocked has an empty queue.
-/

namespace NetworkProgram.Server9

open NetworkProgram.Foundation
open NetworkProgram.Kernel

/-- The queue whose mutex `accept_loop` holds. -/
def AcceptStmt.inside : AcceptStmt → Option (Fin maxSender)
  | .outside => none
  | .lock _ => none
  | .advance qi => some qi
  | .signal qi => some qi
  | .unlock qi => some qi

/-- Nothing is queued between `front` and `last`. -/
def State.Drained (s : State) (qi : Fin maxSender) : Prop :=
  (s.queues qi).last = (s.queues qi).front

/-- The mutex of a queue is held by who is in its section; a thread there is not
blocked; it blocks only if the queue is empty, and is blocked on a queue that is not
only until the signal. -/
structure Fine.Ok (f : Fine) (qi : Fin maxSender) : Prop where
  accept_holds : f.mutex qi = some .accept ↔ f.accept.inside = some qi
  send_holds : f.mutex qi = some .send ↔ f.send qi ≠ .outside
  awake : f.send qi ≠ .outside → f.base.threads qi ≠ .waiting
  waits : f.send qi = .wait → f.base.Drained qi
  blocked : f.base.threads qi = .waiting → f.base.Drained qi ∨ f.accept = .signal qi

theorem Fine.ok_init (k : Startup) (qi : Fin maxSender) : (Fine.init k).Ok qi where
  accept_holds := by simp [Fine.init, Fine.quiet, AcceptStmt.inside]
  send_holds := by simp [Fine.init, Fine.quiet]
  awake h := absurd rfl h
  waits _ := rfl
  blocked _ := .inl rfl

section Preservation

variable {k : Startup} {f g : Fine} {qi : Fin maxSender}

/-- A step outside of the sections moves neither end of a queue and blocks no thread. -/
theorem Fine.outside_kept {a : Action} {t : State} (h : step k f.base a = some t)
    (hout : f.outside a = true) (qi : Fin maxSender) :
    (t.Drained qi ↔ f.base.Drained qi) ∧
      (t.threads qi = .waiting → f.base.threads qi = .waiting) := by
  have awake : a.Turn qi → f.base.threads qi ≠ .lock := by
    rintro ⟨delivered, rfl⟩
    simp only [Fine.outside, decide_eq_true_eq] at hout
    exact hout.2.1
  have move := queueMove_of_step h qi
  unfold State.Drained
  generalize t.queues qi = q', t.threads qi = p' at move ⊢
  generalize hp : f.base.threads qi = p at move awake ⊢
  cases move with
  | stay idle =>
      refine ⟨Iff.rfl, fun heq => ?_⟩
      cases idle with
      | same => exact heq
      | sleeps own => exact absurd rfl (awake own)
      | resumes => cases heq
      | wakes => rfl
  | store => exact ⟨Iff.rfl, id⟩
  | publish publishing =>
      obtain ⟨rfl, fd, events, pc, rfl, got⟩ := publishing
      simp [Fine.outside, defaultBranch, pc, got] at hout
  | dequeue own lock => exact absurd lock (awake own)
  | format _ stage => exact ⟨Iff.rfl, fun heq => by cases stage <;> cases heq⟩
  | reply => exact ⟨Iff.rfl, fun heq => by cases heq⟩

theorem Fine.Ok.outside {a : Action} {t : State} (ok : f.Ok qi) (h : step k f.base a = some t)
    (hout : f.outside a = true) : Fine.Ok { f with base := t } qi := by
  obtain ⟨hdrained, hwaiting⟩ := Fine.outside_kept h hout qi
  exact {
    accept_holds := ok.accept_holds
    send_holds := ok.send_holds
    awake := fun hsend heq => ok.awake hsend (hwaiting heq)
    waits := fun hsend => hdrained.mpr (ok.waits hsend)
    blocked := fun heq => (ok.blocked (hwaiting heq)).imp_left hdrained.mpr }

theorem Fine.Ok.switch (ok : f.Ok qi) (h : f.switch = some g) : g.Ok qi := by
  unfold Fine.switch at h
  split at h
  · rename_i qj events haccept _
    cases h
    have hblocked := ok.blocked
    rw [haccept] at hblocked
    exact {
      accept_holds := by simpa [haccept, AcceptStmt.inside] using ok.accept_holds
      send_holds := ok.send_holds
      awake := ok.awake
      waits := ok.waits
      blocked := fun heq => (hblocked heq).imp_right fun hne => by cases hne }
  · cases h

/-- A statement about another queue's section. -/
theorem Fine.Ok.other (ok : f.Ok qi) (mutex : g.mutex qi = f.mutex qi)
    (inside : g.accept.inside = some qi ↔ f.accept.inside = some qi)
    (signal : f.accept = .signal qi → g.accept = .signal qi) (send : g.send qi = f.send qi)
    (queue : g.base.queues qi = f.base.queues qi)
    (thread : g.base.threads qi = f.base.threads qi) : g.Ok qi where
  accept_holds := by rw [mutex, inside]; exact ok.accept_holds
  send_holds := by rw [mutex, send]; exact ok.send_holds
  awake := by rw [send, thread]; exact ok.awake
  waits := by unfold State.Drained; rw [send, queue]; exact ok.waits
  blocked := by
    unfold State.Drained
    rw [thread, queue]
    exact fun heq => (ok.blocked heq).imp_right signal

/-- A thread that does not hold the mutex is in no section. -/
theorem Fine.Ok.send_outside (ok : f.Ok qi) (h : f.mutex qi ≠ some .send) :
    f.send qi = .outside := by
  by_contra hin
  exact h (ok.send_holds.mpr hin)

theorem Fine.Ok.send_outside_of_inside (ok : f.Ok qi) (h : f.accept.inside = some qi) :
    f.send qi = .outside := by
  refine ok.send_outside ?_
  rw [ok.accept_holds.mpr h]
  exact fun heq => by cases heq

/-- Before the signal of the queue is due, a blocked thread has nothing to take. -/
theorem Fine.Ok.drained (ok : f.Ok qi) (h : f.base.threads qi = .waiting)
    (notYet : f.accept ≠ .signal qi) : f.base.Drained qi :=
  (ok.blocked h).resolve_right notYet

/-- `pthread_mutex_lock` in `accept_loop`. -/
theorem Fine.Ok.locks (ok : f.Ok qi) (haccept : f.accept = .lock qi) (free : f.mutex qi = none) :
    Fine.Ok { f with
      mutex := Function.update f.mutex qi (some .accept), accept := .advance qi } qi where
  accept_holds := by simp [AcceptStmt.inside]
  send_holds := by
    have hsend := ok.send_outside (by rw [free]; exact fun heq => by cases heq)
    simp [hsend]
  awake := ok.awake
  waits := ok.waits
  blocked := fun heq => .inl (ok.drained heq (by simp [haccept]))

/-- `last = QUEUE_NEXT(last)`: the signal is due. -/
theorem Fine.Ok.advances {q : Queue} (ok : f.Ok qi) (haccept : f.accept = .advance qi) :
    Fine.Ok { f with base := f.base.setQueue qi q, accept := .signal qi } qi where
  accept_holds := by
    have hholds := ok.accept_holds
    rw [haccept] at hholds
    exact hholds
  send_holds := ok.send_holds
  awake := ok.awake
  waits := fun hwait => by
    have hsend := ok.send_outside_of_inside (by rw [haccept]; rfl)
    rw [hsend] at hwait
    cases hwait
  blocked := fun _ => .inr rfl

/-- `pthread_cond_signal`: no thread of the queue is blocked. -/
theorem Fine.Ok.signals (ok : f.Ok qi) (haccept : f.accept = .signal qi) :
    Fine.Ok { f with
      base := f.base.setThread qi (signal (f.base.threads qi)), accept := .unlock qi } qi := by
  have hsend := ok.send_outside_of_inside (by rw [haccept]; rfl)
  have hholds := ok.accept_holds
  rw [haccept] at hholds
  exact {
    accept_holds := hholds
    send_holds := ok.send_holds
    awake := fun hin => absurd hsend hin
    waits := fun hwait => by rw [hsend] at hwait; cases hwait
    blocked := fun heq => by
      simp only [State.setThread, Function.update_self] at heq
      exact absurd heq (signal_ne_waiting _) }

/-- `pthread_mutex_unlock` in `accept_loop`. -/
theorem Fine.Ok.unlocks (ok : f.Ok qi) (haccept : f.accept = .unlock qi) :
    Fine.Ok { f with mutex := Function.update f.mutex qi none, accept := .outside } qi where
  accept_holds := by simp [AcceptStmt.inside]
  send_holds := by
    have hsend := ok.send_outside_of_inside (by rw [haccept]; rfl)
    simp [hsend]
  awake := ok.awake
  waits := ok.waits
  blocked := fun heq => .inl (ok.drained heq (by simp [haccept]))

theorem Fine.Ok.acceptStmt (ok : f.Ok qi) (h : f.acceptStmt = some g) : g.Ok qi := by
  unfold Fine.acceptStmt at h
  split at h
  · cases h
  · rename_i qj haccept
    split at h
    · rename_i free
      cases h
      rcases eq_or_ne qi qj with rfl | hne
      · exact ok.locks haccept free
      · exact ok.other (by simp [hne]) (by simp [haccept, AcceptStmt.inside, hne.symm])
          (by simp [haccept]) rfl rfl rfl
    · cases h
  · rename_i qj haccept
    cases h
    rcases eq_or_ne qi qj with rfl | hne
    · exact ok.advances haccept
    · exact ok.other rfl (by simp [haccept, AcceptStmt.inside]) (by simp [haccept])
        rfl (by simp [State.setQueue, hne]) rfl
  · rename_i qj haccept
    cases h
    rcases eq_or_ne qi qj with rfl | hne
    · exact ok.signals haccept
    · exact ok.other rfl (by simp [haccept, AcceptStmt.inside]) (by simp [haccept, hne.symm])
        rfl rfl (by simp [State.setThread, hne])
  · rename_i qj haccept
    cases h
    rcases eq_or_ne qi qj with rfl | hne
    · exact ok.unlocks haccept
    · exact ok.other (by simp [hne]) (by simp [haccept, AcceptStmt.inside, hne.symm])
        (by simp [haccept]) rfl rfl rfl

/-- `pthread_mutex_lock` returns, or `pthread_cond_wait` does. -/
theorem Fine.Ok.enter {stmt : SendStmt} (ok : f.Ok qi) (free : f.mutex qi = none)
    (awake : f.base.threads qi ≠ .waiting) (inside : stmt ≠ .outside) (go : stmt ≠ .wait) :
    (f.enter qi stmt).Ok qi where
  accept_holds := by
    have hholds := ok.accept_holds
    rw [free] at hholds
    simpa [Fine.enter] using hholds
  send_holds := by simp [Fine.enter, inside]
  awake := fun _ => awake
  waits := fun heq => absurd (by simpa [Fine.enter] using heq) go
  blocked := ok.blocked

/-- The thread goes on in its section. -/
theorem Fine.Ok.goTo {stmt : SendStmt} (ok : f.Ok qi) (hin : f.send qi ≠ .outside)
    (inside : stmt ≠ .outside) (waits : stmt = .wait → f.base.Drained qi) :
    (f.goTo qi stmt).Ok qi where
  accept_holds := ok.accept_holds
  send_holds := by simpa [Fine.goTo, inside] using ok.send_holds.mpr hin
  awake := fun _ => ok.awake hin
  waits := fun heq => waits (by simpa [Fine.goTo] using heq)
  blocked := ok.blocked

/-- `pthread_mutex_unlock`, or `pthread_cond_wait` blocks. -/
theorem Fine.Ok.leave {pc : SendPc} (ok : f.Ok qi) (hin : f.send qi ≠ .outside)
    (waits : pc = .waiting → f.base.Drained qi) : (f.leave qi pc).Ok qi where
  accept_holds := by
    have hmutex := ok.send_holds.mpr hin
    have hholds := ok.accept_holds
    rw [hmutex] at hholds
    simpa [Fine.leave] using hholds
  send_holds := by simp [Fine.leave]
  awake := by simp [Fine.leave]
  waits := by simp [Fine.leave]
  blocked := fun heq => .inl (waits (by simpa [Fine.leave, State.setThread] using heq))

/-- The thread takes a slot; it is in its section, and not blocked. -/
theorem Fine.Ok.take {stmt : SendStmt} {q : Queue} (ok : f.Ok qi) (hin : f.send qi ≠ .outside)
    (inside : stmt ≠ .outside) (go : stmt ≠ .wait) :
    Fine.Ok { f.goTo qi stmt with base := f.base.setQueue qi q } qi where
  accept_holds := ok.accept_holds
  send_holds := by simpa [Fine.goTo, inside] using ok.send_holds.mpr hin
  awake := fun _ => ok.awake hin
  waits := fun heq => absurd (by simpa [Fine.goTo] using heq) go
  blocked := fun heq => absurd heq (ok.awake hin)

theorem Fine.Ok.sendStmt_own (ok : f.Ok qi) (h : f.sendStmt qi = some g) : g.Ok qi := by
  unfold Fine.sendStmt at h
  split at h
  · split at h
    · rename_i hlock
      split at h
      · rename_i free
        cases h
        exact ok.enter free (by simp [hlock]) (by simp) (by simp)
      · cases h
    · rename_i hwoken
      split at h
      · rename_i free
        cases h
        exact ok.enter free (by simp [hwoken]) (by simp) (by simp)
      · cases h
    · cases h
  · rename_i hcheck
    cases h
    refine ok.goTo (by simp [hcheck]) (by split <;> simp) fun hwait => ?_
    split at hwait
    · cases hwait
    · rename_i hempty
      exact not_ne_iff.mp hempty
  · rename_i htake
    cases h
    exact ok.goTo (by simp [htake]) (by simp) (fun heq => by cases heq)
  · rename_i i hadvance
    cases h
    exact ok.take (by simp [hadvance]) (by simp) (by simp)
  · rename_i i hunlock
    cases h
    exact ok.leave (by simp [hunlock]) (fun heq => by cases heq)
  · rename_i hwait
    cases h
    exact ok.leave (by simp [hwait]) fun _ => ok.waits hwait
  · rename_i hback
    cases h
    exact ok.leave (by simp [hback]) (fun heq => by cases heq)

theorem Fine.Ok.sendStmt {qj : Fin maxSender} (ok : f.Ok qi) (h : f.sendStmt qj = some g) :
    g.Ok qi := by
  rcases eq_or_ne qi qj with rfl | hne
  · exact ok.sendStmt_own h
  · have hkept : g.mutex qi = f.mutex qi ∧ g.accept = f.accept ∧ g.send qi = f.send qi ∧
        g.base.queues qi = f.base.queues qi ∧ g.base.threads qi = f.base.threads qi := by
      unfold Fine.sendStmt at h
      split at h
      · split at h
        · split at h <;> cases h
          simp [Fine.enter, hne]
        · split at h <;> cases h
          simp [Fine.enter, hne]
        · cases h
      all_goals
        cases h
        simp [Fine.goTo, Fine.leave, State.setThread, State.setQueue, hne]
    obtain ⟨mutex, accept, send, queue, thread⟩ := hkept
    exact ok.other mutex (by rw [accept]) (by rw [accept]; exact id) send queue thread

theorem Fine.Ok.step {a : FineAction} (ok : f.Ok qi) (h : fineStep k f a = some g) : g.Ok qi := by
  cases a with
  | outside a =>
      simp only [fineStep] at h
      split at h
      · rename_i hout
        obtain ⟨t, hstep, rfl⟩ := Option.map_eq_some_iff.mp h
        exact ok.outside hstep hout
      · cases h
  | switch => exact ok.switch h
  | accept => exact ok.acceptStmt h
  | send qj => exact ok.sendStmt h

end Preservation

theorem fineReaches_ok {k : Startup} {f : Fine} (run : Reaches (fineStep k) (Fine.init k) f)
    (qi : Fin maxSender) : f.Ok qi :=
  run.invariant (I := fun f => f.Ok qi) (Fine.ok_init k qi) fun _ _ _ ok move => ok.step move

/-- In every run, while the mutex of a queue is free, a thread that is blocked in
`pthread_cond_wait` and was not signalled has nothing to take. -/
theorem no_lost_wakeUp {k : Startup} {f : Fine} (run : Reaches (fineStep k) (Fine.init k) f)
    (qi : Fin maxSender) (free : f.mutex qi = none) (blocked : f.base.threads qi = .waiting) :
    (f.base.queues qi).last = (f.base.queues qi).front := by
  have ok := fineReaches_ok run qi
  refine (ok.blocked blocked).resolve_right fun hsignal => ?_
  have hheld := ok.accept_holds.mpr (by rw [hsignal]; rfl)
  rw [free] at hheld
  cases hheld

/-- The thread blocks, is signalled for a message, answers it and blocks again. -/
theorem no_lost_wakeUp_twice :
    ∃ f, Reaches (fineStep .plain) (Fine.init .plain) f ∧ f.base.threads 1 = .waiting ∧
      (f.base.queues 1).front = 1 ∧ (f.base.queues 1).last = (f.base.queues 1).front := by
  have run := Reaches.of_exec (show exec (fineStep .plain) (Fine.init .plain)
    ([.send 1, .send 1, .send 1] ++
      [.outside (.epollWait [3]), .outside (.accept (some 5)), .outside (.register true),
        .outside (.epollWait [5]), .outside .storeAcc, .outside (.recv (.data [97, 10])),
        .switch, .accept, .accept, .accept, .accept] ++
      [.send 1, .send 1, .send 1, .send 1, .send 1, .send 1, .send 1] ++
      List.replicate 5 (.outside (.thread 1 true)) ++
      [.send 1, .send 1, .send 1]) = some _ from rfl)
  exact ⟨_, run, rfl, rfl, no_lost_wakeUp run 1 rfl rfl⟩

end NetworkProgram.Server9
