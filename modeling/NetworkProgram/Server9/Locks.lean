import NetworkProgram.Server9.Steps

set_option autoImplicit false

/-!
# Server9: the mutex sections, statement by statement

`Server9.Model` takes what stands between `pthread_mutex_lock` and
`pthread_mutex_unlock` as one step.  Here each of these statements is a step, the
mutex has a holder, and `pthread_cond_wait` gives the mutex back when it blocks and
takes it again before it returns.  The statements outside of the sections are those
of `Server9.Model`.
-/

namespace NetworkProgram.Server9

open NetworkProgram.Foundation
open NetworkProgram.Kernel

/-- Who may hold the mutex of a queue. -/
inductive Party
  | accept
  | send
  deriving DecidableEq, Repr

/-- The next statement of `accept_loop` in the default branch of its `switch`. -/
inductive AcceptStmt
  /-- Not in that branch. -/
  | outside
  /-- `pthread_mutex_lock` -/
  | lock (qi : Fin maxSender)
  /-- `last = QUEUE_NEXT(last)` -/
  | advance (qi : Fin maxSender)
  /-- `pthread_cond_signal` -/
  | signal (qi : Fin maxSender)
  /-- `pthread_mutex_unlock` -/
  | unlock (qi : Fin maxSender)
  deriving DecidableEq, Repr

/-- The next statement of a `send_thread` that holds its mutex. -/
inductive SendStmt
  /-- The mutex is not held: before `pthread_mutex_lock`, in `pthread_cond_wait`, or at
  work on a slot. -/
  | outside
  /-- `if (last != front)` -/
  | check
  /-- `i = front` -/
  | take
  /-- `front = QUEUE_NEXT(front)` -/
  | advance (i : Nat)
  /-- `pthread_mutex_unlock`, with a slot in hand -/
  | unlock (i : Nat)
  /-- `pthread_cond_wait` -/
  | wait
  /-- `pthread_mutex_unlock` after `pthread_cond_wait` -/
  | giveBack
  deriving DecidableEq, Repr

/-- In `base` a thread that is `waiting` is blocked in `pthread_cond_wait`; it is
`woken` by a signal or for no reason and has then to take the mutex again. -/
structure Fine where
  base : State
  mutex : Fin maxSender → Option Party
  accept : AcceptStmt
  send : Fin maxSender → SendStmt

namespace Fine

/-- Nobody is in a mutex section. -/
def quiet (s : State) : Fine where
  base := s
  mutex := fun _ => none
  accept := .outside
  send := fun _ => .outside

def init (k : Startup) : Fine := quiet (Server9.init k)

/-- The thread takes the mutex, and goes on with `stmt`. -/
def enter (f : Fine) (qi : Fin maxSender) (stmt : SendStmt) : Fine :=
  { f with
    mutex := Function.update f.mutex qi (some .send)
    send := Function.update f.send qi stmt }

/-- The thread goes on with `stmt`. -/
def goTo (f : Fine) (qi : Fin maxSender) (stmt : SendStmt) : Fine :=
  { f with send := Function.update f.send qi stmt }

/-- The thread gives the mutex back, and stands at `pc`. -/
def leave (f : Fine) (qi : Fin maxSender) (pc : SendPc) : Fine :=
  { f with
    base := f.base.setThread qi pc
    mutex := Function.update f.mutex qi none
    send := Function.update f.send qi .outside }

end Fine

inductive FineAction
  /-- A step of `Server9.Model` that is not about a mutex. -/
  | outside (a : Action)
  /-- The `switch` takes its default branch. -/
  | switch
  /-- The next statement of `accept_loop` in that branch. -/
  | accept
  /-- The next statement of a `send_thread` about its mutex. -/
  | send (qi : Fin maxSender)
  deriving DecidableEq, Repr

/-- The queue and the events left if the `switch` on the received length takes its
default branch. -/
def defaultBranch (s : State) : Option (Fin maxSender × List Nat) :=
  match s.pc with
  | .recvd fd events =>
      if (s.lastSlot fd).len = -1 ∨ (s.lastSlot fd).len = 0 then none
      else some (queueIndex fd, events)
  | _ => none

/-- The steps of `Server9.Model` that are not about a mutex. -/
def Fine.outside (f : Fine) : Action → Bool
  | .thread qi _ =>
      f.send qi = .outside ∧ f.base.threads qi ≠ .lock ∧ f.base.threads qi ≠ .woken
  | .wakeUp _ => true
  | .dispatch => f.accept = .outside ∧ (defaultBranch f.base).isNone
  | _ => f.accept = .outside

def Fine.switch (f : Fine) : Option Fine :=
  match f.accept, defaultBranch f.base with
  | .outside, some (qi, events) =>
      some { f with base := { f.base with pc := .batch events }, accept := .lock qi }
  | _, _ => none

def Fine.acceptStmt (f : Fine) : Option Fine :=
  match f.accept with
  | .outside => none
  | .lock qi =>
      if f.mutex qi = none then
        some { f with mutex := Function.update f.mutex qi (some .accept), accept := .advance qi }
      else none
  | .advance qi =>
      let q := f.base.queues qi
      some { f with
        base := f.base.setQueue qi { q with
          last := queueNext q.last, held := Function.update q.held q.last true }
        accept := .signal qi }
  | .signal qi =>
      some { f with
        base := f.base.setThread qi (Server9.signal (f.base.threads qi)), accept := .unlock qi }
  | .unlock qi =>
      some { f with mutex := Function.update f.mutex qi none, accept := .outside }

def Fine.sendStmt (f : Fine) (qi : Fin maxSender) : Option Fine :=
  let q := f.base.queues qi
  match f.send qi with
  | .outside =>
      match f.base.threads qi with
      | .lock => if f.mutex qi = none then some (f.enter qi .check) else none
      | .woken => if f.mutex qi = none then some (f.enter qi .giveBack) else none
      | _ => none
  | .check => some (f.goTo qi (if q.last ≠ q.front then .take else .wait))
  | .take => some (f.goTo qi (.advance q.front))
  | .advance i =>
      some { f.goTo qi (.unlock i) with
        base := f.base.setQueue qi { q with
          front := queueNext q.front, held := Function.update q.held q.front false } }
  | .unlock i => some (f.leave qi (.terminate i))
  | .wait => some (f.leave qi .waiting)
  | .giveBack => some (f.leave qi .lock)

def fineStep (k : Startup) (f : Fine) : FineAction → Option Fine
  | .outside a =>
      if f.outside a then (step k f.base a).map fun s => { f with base := s } else none
  | .switch => f.switch
  | .accept => f.acceptStmt
  | .send qi => f.sendStmt qi

/-! ## The sections as steps of `Server9.Model` -/

section Sections

variable {k : Startup} {s t : State}

@[simp] theorem base_quiet : (Fine.quiet s).base = s := rfl

theorem fineReaches_outside {a : Action} (h : step k s a = some t)
    (hout : (Fine.quiet s).outside a = true) :
    Reaches (fineStep k) (Fine.quiet s) (Fine.quiet t) := by
  refine .of_exec (show exec (fineStep k) _ [.outside a] = _ from ?_)
  simp only [exec, fineStep, hout, if_true]
  rw [base_quiet, h]
  rfl

/-- The default branch of the `switch`. -/
theorem fineReaches_publishes {fd : Nat} {events : List Nat} (pc : s.pc = .recvd fd events)
    (got : ¬ ((s.lastSlot fd).len = -1 ∨ (s.lastSlot fd).len = 0)) :
    Reaches (fineStep k) (Fine.quiet s)
      (Fine.quiet { publish s (queueIndex fd) with pc := .batch events }) := by
  have hbranch : defaultBranch s = some (queueIndex fd, events) := by
    simp [defaultBranch, pc, got]
  refine .of_exec (show exec (fineStep k) _
    [.switch, .accept, .accept, .accept, .accept] = _ from ?_)
  simp [exec, fineStep, Fine.switch, Fine.acceptStmt, Fine.quiet, hbranch, publish,
    State.setQueue, State.setThread]

/-- The first branch of `if (last != front)`. -/
theorem fineReaches_dequeues {qi : Fin maxSender} (pc : s.threads qi = .lock)
    (nonempty : (s.queues qi).last ≠ (s.queues qi).front) :
    Reaches (fineStep k) (Fine.quiet s) (Fine.quiet ((s.setQueue qi { s.queues qi with
      front := queueNext (s.queues qi).front
      held := Function.update (s.queues qi).held (s.queues qi).front false }).setThread qi
        (.terminate (s.queues qi).front))) := by
  refine .of_exec (show exec (fineStep k) _
    [.send qi, .send qi, .send qi, .send qi, .send qi] = _ from ?_)
  simp [exec, fineStep, Fine.sendStmt, Fine.enter, Fine.goTo, Fine.leave, Fine.quiet, pc,
    nonempty, State.setQueue, State.setThread]

/-- The other branch, up to where `pthread_cond_wait` blocks. -/
theorem fineReaches_waits {qi : Fin maxSender} (pc : s.threads qi = .lock)
    (empty : (s.queues qi).last = (s.queues qi).front) :
    Reaches (fineStep k) (Fine.quiet s) (Fine.quiet (s.setThread qi .waiting)) := by
  refine .of_exec (show exec (fineStep k) _ [.send qi, .send qi, .send qi] = _ from ?_)
  simp [exec, fineStep, Fine.sendStmt, Fine.enter, Fine.goTo, Fine.leave, Fine.quiet, pc, empty]

/-- From where `pthread_cond_wait` was woken. -/
theorem fineReaches_resumes {qi : Fin maxSender} (pc : s.threads qi = .woken) :
    Reaches (fineStep k) (Fine.quiet s) (Fine.quiet (s.setThread qi .lock)) := by
  refine .of_exec (show exec (fineStep k) _ [.send qi, .send qi] = _ from ?_)
  simp [exec, fineStep, Fine.sendStmt, Fine.enter, Fine.leave, Fine.quiet, pc]

/-- Every step of `Server9.Model` is a run of statements. -/
theorem fineReaches_of_step {a : Action} (h : step k s a = some t) :
    Reaches (fineStep k) (Fine.quiet s) (Fine.quiet t) := by
  have outside := fineReaches_outside h
  cases move_of_step h with
  | publishes pc got => exact fineReaches_publishes pc got
  | dequeues pc nonempty => exact fineReaches_dequeues pc nonempty
  | waits pc empty => exact fineReaches_waits pc empty
  | resumes pc => exact fineReaches_resumes pc
  | deregisters pc ended _ =>
      exact outside (by simp [Fine.outside, Fine.quiet, defaultBranch, pc, ended])
  | deregisterFails pc ended _ =>
      exact outside (by simp [Fine.outside, Fine.quiet, defaultBranch, pc, ended])
  | @formats qi _ _ _ _ stage =>
      have hand := stage.hand_eq.1
      have hlock : s.threads qi ≠ .lock := fun heq => by rw [heq] at hand; cases hand
      have hwoken : s.threads qi ≠ .woken := fun heq => by rw [heq] at hand; cases hand
      exact outside (by simp [Fine.outside, Fine.quiet, hlock, hwoken])
  | replies pc => exact outside (by simp [Fine.outside, Fine.quiet, pc])
  | _ => exact outside rfl

/-- Every run of `Server9.Model` is one of the statements. -/
theorem fineReaches_of_reaches (run : Reaches (step k) (init k) s) :
    Reaches (fineStep k) (Fine.init k) (Fine.quiet s) := by
  induction run with
  | refl => exact .refl
  | tail _ move ih => exact ih.trans (fineReaches_of_step move)

end Sections

end NetworkProgram.Server9
