import NetworkProgram.Server9.Model

set_option autoImplicit false

/-!
# Server9: what a step can do

`Move` lists the steps of the model with their guards and their results, one
constructor for each branch of the source.  The invariants of the later modules
are proved by cases on it and never unfold `step`.
-/

namespace NetworkProgram.Server9

open NetworkProgram.Foundation
open NetworkProgram.Kernel
open NetworkProgram.Libc

/-- The four statements of `send_thread` that work on the slot in hand. -/
inductive Stage : SendPc → Nat → (QueueData → QueueData) → SendPc → Prop
  | terminate (i : Nat) : Stage (.terminate i) i terminateSlot (.cut i)
  | cut (i : Nat) : Stage (.cut i) i cutSlot (.append i)
  | append (i : Nat) : Stage (.append i) i appendSlot (.measure i)
  | measure (i : Nat) : Stage (.measure i) i measureSlot (.reply i)

/-- The slot that `accept_loop` writes for descriptor `fd`. -/
def State.lastSlot (s : State) (fd : Nat) : QueueData :=
  (s.queues (queueIndex fd)).data (s.queues (queueIndex fd)).last

/-- Write that slot. -/
def State.setLastSlot (s : State) (fd : Nat) (slot : QueueData) : State :=
  s.setQueue (queueIndex fd)
    ((s.queues (queueIndex fd)).setSlot (s.queues (queueIndex fd)).last slot)

inductive Move (k : Startup) (s : State) : Action → State → Prop
  | epollWait {ready : List Nat} (pc : s.pc = .batch []) (nodup : ready.Nodup)
      (known : ∀ fd ∈ ready, fd = k.soc ∨ fd ∈ s.interest) :
      Move k s (.epollWait ready) { s with pc := .batch ready }
  | acceptFails {events : List Nat} (pc : s.pc = .batch (k.soc :: events)) :
      Move k s (.accept none) { s with pc := .batch events, acc := none }
  | accepts {events : List Nat} {acc : Nat} (pc : s.pc = .batch (k.soc :: events))
      (free : LowestFree s.fds acc) :
      Move k s (.accept (some acc)) { s with
        pc := .accepted events
        acc := some acc
        fds := Function.update s.fds acc (some (.conn s.next))
        next := s.next + 1 }
  | refuses {events : List Nat} {acc : Nat} {added : Bool} (pc : s.pc = .accepted events)
      (new : s.acc = some acc) (full : s.count + 1 ≥ maxChild) :
      Move k s (.register added)
        { s with pc := .batch events, fds := Function.update s.fds acc none }
  | registers {events : List Nat} {acc : Nat} (pc : s.pc = .accepted events)
      (new : s.acc = some acc) (room : s.count + 1 < maxChild) :
      Move k s (.register true)
        { s with pc := .batch events, interest := acc :: s.interest, count := s.count + 1 }
  | registerFails {events : List Nat} {acc : Nat} (pc : s.pc = .accepted events)
      (new : s.acc = some acc) (room : s.count + 1 < maxChild) :
      Move k s (.register false) { s with
        pc := .returned
        fds := Function.update (Function.update s.fds acc none) k.epollfd none }
  | storesAcc {fd : Nat} {events : List Nat} (pc : s.pc = .batch (fd :: events))
      (ne : fd ≠ k.soc) :
      Move k s .storeAcc { s.setLastSlot fd { s.lastSlot fd with acc := fd } with
        pc := .recving fd events }
  | recvEnds {fd : Nat} {events : List Nat} {answer : Answer} {len : Int}
      (pc : s.pc = .recving fd events)
      (ended : answer = .error ∧ len = -1 ∨ answer = .eof ∧ len = 0) :
      Move k s (.recv answer) { s.setLastSlot fd { s.lastSlot fd with len := len } with
        pc := .recvd fd events }
  | recvs {fd : Nat} {events : List Nat} {c : ConnId} {m : Bytes}
      (pc : s.pc = .recving fd events) (owner : s.fds (s.lastSlot fd).acc = some (.conn c))
      (pos : 0 < m.length) (le : m.length ≤ bufSize) :
      Move k s (.recv (.data m)) { s.setLastSlot fd { s.lastSlot fd with
          buf := m ++ (s.lastSlot fd).buf.drop m.length, len := m.length, src := c } with
        pc := .recvd fd events
        log := s.log ++ [.received c m] }
  | deregisters {fd : Nat} {events : List Nat} (pc : s.pc = .recvd fd events)
      (ended : (s.lastSlot fd).len = -1 ∨ (s.lastSlot fd).len = 0) (mem : fd ∈ s.interest) :
      Move k s .dispatch { s with pc := .closing fd events, interest := s.interest.erase fd }
  | deregisterFails {fd : Nat} {events : List Nat} (pc : s.pc = .recvd fd events)
      (ended : (s.lastSlot fd).len = -1 ∨ (s.lastSlot fd).len = 0) (mem : fd ∉ s.interest) :
      Move k s .dispatch { s with
        pc := .returned
        fds := Function.update (s.fds.closeAcc s.acc) k.epollfd none }
  | publishes {fd : Nat} {events : List Nat} (pc : s.pc = .recvd fd events)
      (got : ¬ ((s.lastSlot fd).len = -1 ∨ (s.lastSlot fd).len = 0)) :
      Move k s .dispatch { publish s (queueIndex fd) with pc := .batch events }
  | closes {fd : Nat} {events : List Nat} (pc : s.pc = .closing fd events) :
      Move k s .close { s with
        pc := .batch events
        fds := Function.update s.fds fd none
        count := s.count - 1 }
  | dequeues {qi : Fin maxSender} {delivered : Bool} (pc : s.threads qi = .lock)
      (nonempty : (s.queues qi).last ≠ (s.queues qi).front) :
      Move k s (.thread qi delivered) ((s.setQueue qi { s.queues qi with
        front := queueNext (s.queues qi).front
        held := Function.update (s.queues qi).held (s.queues qi).front false }).setThread qi
          (.terminate (s.queues qi).front))
  | waits {qi : Fin maxSender} {delivered : Bool} (pc : s.threads qi = .lock)
      (empty : (s.queues qi).last = (s.queues qi).front) :
      Move k s (.thread qi delivered) (s.setThread qi .waiting)
  | resumes {qi : Fin maxSender} {delivered : Bool} (pc : s.threads qi = .woken) :
      Move k s (.thread qi delivered) (s.setThread qi .lock)
  | formats {qi : Fin maxSender} {delivered : Bool} {i : Nat} {f : QueueData → QueueData}
      {next : SendPc} (stage : Stage (s.threads qi) i f next) :
      Move k s (.thread qi delivered) (onSlot s qi i f next)
  | replies {qi : Fin maxSender} {delivered : Bool} {i : Nat} (pc : s.threads qi = .reply i) :
      Move k s (.thread qi delivered) { s.setThread qi .lock with
        log := s.log ++ sendSlot s.fds ((s.queues qi).data i) delivered }
  | wakesUp {qi : Fin maxSender} (pc : s.threads qi = .waiting) :
      Move k s (.wakeUp qi) (s.setThread qi .woken)

section Inversion

variable {k : Startup} {s t : State}

theorem move_of_epollWait {ready : List Nat} (h : epollWait k s ready = some t) :
    Move k s (.epollWait ready) t := by
  unfold epollWait at h
  split at h
  · rename_i pc
    split at h
    · rename_i guard
      cases h
      exact .epollWait pc guard.1 guard.2.2
    · cases h
  · cases h

theorem move_of_accept {result : Option Nat} (h : accept k s result = some t) :
    Move k s (.accept result) t := by
  unfold accept at h
  split at h
  · rename_i fd events pc
    split at h
    · rename_i hfd
      subst hfd
      cases result with
      | none => cases h; exact .acceptFails pc
      | some acc =>
          dsimp only at h
          split at h
          · rename_i free
            cases h
            exact .accepts pc free
          · cases h
    · cases h
  · cases h

theorem move_of_register {added : Bool} (h : register k s added = some t) :
    Move k s (.register added) t := by
  unfold register at h
  split at h
  · rename_i events acc pc new
    split at h
    · rename_i full
      cases h
      exact .refuses pc new full
    · rename_i room
      cases added with
      | true => cases h; exact .registers pc new (by omega)
      | false => cases h; exact .registerFails pc new (by omega)
  · cases h

theorem move_of_storeAcc (h : storeAcc k s = some t) : Move k s .storeAcc t := by
  unfold storeAcc at h
  split at h
  · rename_i fd events pc
    split at h
    · cases h
    · rename_i ne
      cases h
      exact .storesAcc pc ne
  · cases h

theorem move_of_recv {answer : Answer} (h : recv s answer = some t) :
    Move k s (.recv answer) t := by
  unfold recv at h
  split at h
  · rename_i fd events pc
    cases answer with
    | error => cases h; exact .recvEnds pc (.inl ⟨rfl, rfl⟩)
    | eof => cases h; exact .recvEnds pc (.inr ⟨rfl, rfl⟩)
    | data m =>
        dsimp only at h
        split at h
        · rename_i c owner
          split at h
          · rename_i guard
            cases h
            exact .recvs pc owner guard.1 guard.2
          · cases h
        · cases h
  · cases h

theorem move_of_dispatch (h : dispatch k s = some t) : Move k s .dispatch t := by
  unfold dispatch at h
  split at h
  · rename_i fd events pc
    dsimp only at h
    split at h
    · rename_i ended
      split at h
      · rename_i mem
        cases h
        exact .deregisters pc ended mem
      · rename_i mem
        cases h
        exact .deregisterFails pc ended mem
    · rename_i got
      cases h
      exact .publishes pc got
  · cases h

theorem move_of_close (h : close s = some t) : Move k s .close t := by
  unfold close at h
  split at h
  · rename_i fd events pc
    cases h
    exact .closes pc
  · cases h

theorem move_of_sendThread {qi : Fin maxSender} {delivered : Bool}
    (h : sendThread s qi delivered = some t) : Move k s (.thread qi delivered) t := by
  unfold sendThread at h
  split at h
  · rename_i pc
    cases h
    unfold dequeue
    dsimp only
    split
    · rename_i nonempty
      exact .dequeues pc nonempty
    · rename_i empty
      exact .waits pc (not_ne_iff.mp empty)
  · cases h
  · rename_i pc
    cases h
    exact .resumes pc
  · rename_i i pc
    cases h
    exact .formats (pc ▸ .terminate i)
  · rename_i i pc
    cases h
    exact .formats (pc ▸ .cut i)
  · rename_i i pc
    cases h
    exact .formats (pc ▸ .append i)
  · rename_i i pc
    cases h
    exact .formats (pc ▸ .measure i)
  · rename_i i pc
    cases h
    exact .replies pc

theorem move_of_wakeUp {qi : Fin maxSender} (h : wakeUp s qi = some t) :
    Move k s (.wakeUp qi) t := by
  unfold wakeUp at h
  split at h
  · rename_i pc
    cases h
    exact .wakesUp pc
  · cases h

/-- Every step of the program is one of the moves. -/
theorem move_of_step {a : Action} (h : step k s a = some t) : Move k s a t := by
  cases a with
  | epollWait ready => exact move_of_epollWait h
  | accept result => exact move_of_accept h
  | register added => exact move_of_register h
  | storeAcc => exact move_of_storeAcc h
  | recv answer => exact move_of_recv h
  | dispatch => exact move_of_dispatch h
  | close => exact move_of_close h
  | thread qi delivered => exact move_of_sendThread h
  | wakeUp qi => exact move_of_wakeUp h

end Inversion

/-! ## The effect on one queue -/

/-- The steps that write the slot at `last` of queue `qi`. -/
def State.Storing (s : State) (a : Action) (qi : Fin maxSender) : Prop :=
  (a = .storeAcc ∧ ∃ fd events, s.pc = .batch (fd :: events) ∧ queueIndex fd = qi) ∨
    ∃ answer fd events, a = .recv answer ∧ s.pc = .recving fd events ∧ queueIndex fd = qi

/-- The step that advances `last` of queue `qi`. -/
def State.Publishing (s : State) (a : Action) (qi : Fin maxSender) : Prop :=
  a = .dispatch ∧ ∃ fd events, s.pc = .recvd fd events ∧ queueIndex fd = qi ∧
    ¬ ((s.lastSlot fd).len = -1 ∨ (s.lastSlot fd).len = 0)

/-- The step that the queue's `send_thread` takes. -/
def Action.Turn (a : Action) (qi : Fin maxSender) : Prop :=
  ∃ delivered, a = .thread qi delivered

/-- What one step does to a thread without a slot in hand.  `turn` says that the
step is the thread's, `empty` that its queue is. -/
inductive IdleMove (turn empty : Prop) : SendPc → SendPc → Prop
  | same {p : SendPc} (rest : ¬ turn) : IdleMove turn empty p p
  | sleeps (own : turn) (h : empty) : IdleMove turn empty .lock .waiting
  | resumes (own : turn) : IdleMove turn empty .woken .lock
  | wakes (rest : ¬ turn) : IdleMove turn empty .waiting .woken

/-- What one step does to a queue and its thread, given what it may be. -/
inductive QueueMove (storing publishing turn : Prop) (q : Queue) (p : SendPc) :
    Queue → SendPc → Prop
  /-- Nothing, but for waking an idle thread up or sending it to sleep. -/
  | stay {p' : SendPc} (idle : IdleMove turn (q.last = q.front) p p') :
      QueueMove storing publishing turn q p q p'
  /-- `accept_loop` writes its slot. -/
  | store (h : storing) (slot : QueueData) :
      QueueMove storing publishing turn q p (q.setSlot q.last slot) p
  /-- `accept_loop` publishes its slot. -/
  | publish (h : publishing) : QueueMove storing publishing turn q p { q with
      last := queueNext q.last
      held := Function.update q.held q.last true } (signal p)
  /-- `send_thread` takes the front slot. -/
  | dequeue (own : turn) (lock : p = .lock) (nonempty : q.last ≠ q.front) :
      QueueMove storing publishing turn q p { q with
        front := queueNext q.front
        held := Function.update q.held q.front false } (.terminate q.front)
  /-- `send_thread` works on its slot. -/
  | format {i : Nat} {f : QueueData → QueueData} {p' : SendPc} (own : turn)
      (stage : Stage p i f p') :
      QueueMove storing publishing turn q p (q.setSlot i (f (q.data i))) p'
  /-- `send_thread` is done with its slot. -/
  | reply {i : Nat} (own : turn) (hand : p = .reply i) :
      QueueMove storing publishing turn q p q .lock

theorem signal_ne_waiting (p : SendPc) : signal p ≠ .waiting := by
  cases p <;> simp [signal]

@[simp] theorem hand_signal (p : SendPc) : (signal p).hand = p.hand := by
  cases p <;> rfl

theorem IdleMove.hand_eq {turn empty : Prop} {p p' : SendPc} (h : IdleMove turn empty p p') :
    p'.hand = p.hand := by
  cases h <;> rfl

theorem Stage.hand_eq {p p' : SendPc} {i : Nat} {f : QueueData → QueueData}
    (h : Stage p i f p') : p.hand = some i ∧ p'.hand = some i := by
  cases h <;> exact ⟨rfl, rfl⟩

/-- The statements on the slot leave its descriptor and its source alone. -/
theorem Stage.fields {p p' : SendPc} {i : Nat} {f : QueueData → QueueData}
    (h : Stage p i f p') (slot : QueueData) :
    (f slot).acc = slot.acc ∧ (f slot).src = slot.src := by
  cases h <;> exact ⟨rfl, rfl⟩

section Update

variable {storing publishing turn : Prop} {s : State} {qi qj : Fin maxSender}

theorem QueueMove.same (quiet : ¬ turn) : QueueMove storing publishing turn
    (s.queues qi) (s.threads qi) (s.queues qi) (s.threads qi) :=
  .stay (.same quiet)

theorem QueueMove.setLastSlot {fd : Nat} {slot : QueueData} (quiet : ¬ turn)
    (own : qi = queueIndex fd → storing) : QueueMove storing publishing turn
      (s.queues qi) (s.threads qi) ((s.setLastSlot fd slot).queues qi) (s.threads qi) := by
  rcases eq_or_ne qi (queueIndex fd) with hqi | hqi
  · have hstoring := own hqi
    subst hqi
    simp only [State.setLastSlot, State.setQueue, Function.update_self]
    exact .store hstoring slot
  · simp only [State.setLastSlot, State.setQueue, Function.update_of_ne hqi]
    exact .same quiet

theorem QueueMove.setThread {p : SendPc} (quiet : qi ≠ qj → ¬ turn)
    (own : qi = qj →
      IdleMove turn ((s.queues qi).last = (s.queues qi).front) (s.threads qi) p) :
    QueueMove storing publishing turn
      (s.queues qi) (s.threads qi) (s.queues qi) ((s.setThread qj p).threads qi) := by
  rcases eq_or_ne qi qj with hqi | hqi
  · have hown := own hqi
    subst hqi
    simp only [State.setThread, Function.update_self]
    exact .stay hown
  · simp only [State.setThread, Function.update_of_ne hqi]
    exact .same (quiet hqi)

theorem QueueMove.set {q : Queue} {p : SendPc} (quiet : qi ≠ qj → ¬ turn)
    (own : qi = qj → QueueMove storing publishing turn (s.queues qi) (s.threads qi) q p) :
    QueueMove storing publishing turn (s.queues qi) (s.threads qi)
      (((s.setQueue qj q).setThread qj p).queues qi)
      (((s.setQueue qj q).setThread qj p).threads qi) := by
  rcases eq_or_ne qi qj with hqi | hqi
  · have hown := own hqi
    subst hqi
    simpa only [State.setThread, State.setQueue, Function.update_self] using hown
  · simp only [State.setThread, State.setQueue, Function.update_of_ne hqi]
    exact .same (quiet hqi)

end Update

/-- Another thread's step is not this thread's. -/
theorem not_turn_of_ne {qi qj : Fin maxSender} {delivered : Bool} (hne : qi ≠ qj) :
    ¬ Action.Turn (.thread qj delivered) qi := by
  rintro ⟨d, heq⟩
  cases heq
  exact hne rfl

/-- Every step does one of these things to each queue. -/
theorem queueMove_of_step {k : Startup} {s t : State} {a : Action} (h : step k s a = some t)
    (qi : Fin maxSender) :
    QueueMove (s.Storing a qi) (s.Publishing a qi) (a.Turn qi)
      (s.queues qi) (s.threads qi) (t.queues qi) (t.threads qi) := by
  cases move_of_step h with
  | epollWait => exact .same nofun
  | acceptFails => exact .same nofun
  | accepts => exact .same nofun
  | refuses => exact .same nofun
  | registers => exact .same nofun
  | registerFails => exact .same nofun
  | @storesAcc fd events pc =>
      exact .setLastSlot nofun fun hqi => .inl ⟨rfl, fd, events, pc, hqi.symm⟩
  | @recvEnds fd events answer len pc =>
      exact .setLastSlot nofun fun hqi => .inr ⟨_, fd, events, rfl, pc, hqi.symm⟩
  | @recvs fd events c m pc =>
      exact .setLastSlot nofun fun hqi => .inr ⟨_, fd, events, rfl, pc, hqi.symm⟩
  | deregisters => exact .same nofun
  | deregisterFails => exact .same nofun
  | @publishes fd events pc got =>
      refine .set (fun _ => nofun) fun hqi => ?_
      subst hqi
      exact .publish ⟨rfl, fd, events, pc, rfl, got⟩
  | closes => exact .same nofun
  | dequeues pc nonempty =>
      refine .set not_turn_of_ne fun hqi => ?_
      subst hqi
      exact .dequeue ⟨_, rfl⟩ pc nonempty
  | waits pc empty =>
      refine .setThread not_turn_of_ne fun hqi => ?_
      subst hqi
      rw [pc]
      exact .sleeps ⟨_, rfl⟩ empty
  | resumes pc =>
      refine .setThread not_turn_of_ne fun hqi => ?_
      subst hqi
      rw [pc]
      exact .resumes ⟨_, rfl⟩
  | formats stage =>
      refine .set not_turn_of_ne fun hqi => ?_
      subst hqi
      exact .format ⟨_, rfl⟩ stage
  | @replies qj delivered i pc =>
      rcases eq_or_ne qi qj with rfl | hqi
      · simp only [State.setThread, Function.update_self]
        exact .reply ⟨delivered, rfl⟩ pc
      · simp only [State.setThread, Function.update_of_ne hqi]
        exact .same (not_turn_of_ne hqi)
  | wakesUp pc =>
      refine .setThread (fun _ => nofun) fun hqi => ?_
      subst hqi
      rw [pc]
      exact .wakes nofun

/-- The actions of the `send_thread`s. -/
def Action.IsThread : Action → Prop
  | .thread _ _ => True
  | .wakeUp _ => True
  | _ => False

/-- A `send_thread` neither fills nor publishes a slot. -/
theorem Action.IsThread.quiet {a : Action} (h : a.IsThread) (s : State) (qi : Fin maxSender) :
    ¬ s.Storing a qi ∧ ¬ s.Publishing a qi := by
  refine ⟨?_, ?_⟩
  · rintro (⟨rfl, -⟩ | ⟨answer, fd, events, rfl, -⟩) <;> exact h
  · rintro ⟨rfl, -⟩
    exact h

/-- Unless `accept_loop` writes or publishes its slot, the step leaves the slot
alone, and does not take it in hand. -/
theorem QueueMove.last_kept {storing publishing turn : Prop} {q q' : Queue} {p p' : SendPc}
    (move : QueueMove storing publishing turn q p q' p') (hs : ¬ storing) (hp : ¬ publishing)
    (apart : p.hand ≠ some q.last) :
    q'.last = q.last ∧ q'.data q'.last = q.data q.last ∧ p'.hand ≠ some q'.last := by
  cases move with
  | stay idle => exact ⟨rfl, rfl, idle.hand_eq ▸ apart⟩
  | store storing => exact absurd storing hs
  | publish publishing => exact absurd publishing hp
  | dequeue _ _ nonempty =>
      exact ⟨rfl, rfl, fun heq => nonempty (Option.some.inj heq).symm⟩
  | @format i f _ _ stage =>
      obtain ⟨hhand, hhand'⟩ := stage.hand_eq
      have hne : q.last ≠ i := by
        rintro rfl
        exact apart hhand
      exact ⟨rfl, Function.update_of_ne hne _ _,
        fun heq => apart (hhand.trans (hhand'.symm.trans heq))⟩
  | reply => exact ⟨rfl, rfl, fun heq => by cases heq⟩

/-! ## The effect on the descriptors -/

/-- What one step does to the descriptor table. -/
inductive FdsMove (s : State) : Action → State → Prop
  | same {a : Action} {t : State} (fds : t.fds = s.fds) : FdsMove s a t
  | close {a : Action} {t : State} (d : Nat) (fds : t.fds = Function.update s.fds d none) :
      FdsMove s a t
  | close₂ {a : Action} {t : State} (acc : Option Nat) (e : Nat)
      (fds : t.fds = Function.update (s.fds.closeAcc acc) e none) : FdsMove s a t
  | open_ {acc : Nat} {t : State} (free : LowestFree s.fds acc)
      (fds : t.fds = Function.update s.fds acc (some (.conn s.next)))
      (queues : t.queues = s.queues) (threads : t.threads = s.threads) :
      FdsMove s (.accept (some acc)) t

theorem fdsMove_of_step {k : Startup} {s t : State} {a : Action} (h : step k s a = some t) :
    FdsMove s a t := by
  cases move_of_step h with
  | accepts _ free => exact .open_ free rfl rfl rfl
  | refuses => exact .close _ rfl
  | @registerFails _ acc => exact .close₂ (some acc) _ rfl
  | deregisterFails => exact .close₂ s.acc _ rfl
  | closes => exact .close _ rfl
  | _ => exact .same rfl

end NetworkProgram.Server9
