import NetworkProgram.Server9.Ownership

set_option autoImplicit false

/-!
# Server9: whose reply goes where

A queued message names its connection by the descriptor number it came in on.
The reply goes to whatever that number refers to when `send` runs.  It is the
right connection as long as no number with a message still queued or in hand is
given to a new connection, and the slot in hand is not received into again.
-/

namespace NetworkProgram.Server9

open NetworkProgram.Foundation
open NetworkProgram.Kernel
open NetworkProgram.Libc

/-- `accept` does not return the number of a message that is queued or in hand,
and `accept_loop` does not start to fill the slot that `send_thread` is using. -/
def Fresh (s : State) (a : Action) : Prop :=
  match a, s.pc with
  | .accept (some acc), _ =>
      ∀ qi : Fin maxSender, ∀ slot ∈ s.inHand qi ++ s.queued qi, slot.acc ≠ acc
  | .storeAcc, .batch (fd :: _) =>
      (s.threads (queueIndex fd)).hand ≠ some (s.queues (queueIndex fd)).last
  | _, _ => True

instance (s : State) (a : Action) : Decidable (Fresh s a) := by
  unfold Fresh
  generalize s.pc = pc
  rcases a with _ | ⟨_ | _⟩ <;> rcases pc with ⟨_ | _⟩ | _ <;> infer_instance

/-- Every reply went to the connection its message had come from. -/
def RightConnection (log : List Event) : Prop :=
  ∀ c src m, .replied c src m ∈ log → c = src

/-! ## The invariant -/

/-- The slot's number refers to the connection the message came from, or to none. -/
def Bound (fds : Table) (slot : QueueData) : Prop :=
  ∀ c, fds slot.acc = some (.conn c) → c = slot.src

/-- Closing a descriptor leaves every slot bound. -/
theorem Bound.close {fds : Table} {slot : QueueData} (h : Bound fds slot) (d : Nat) :
    Bound (Function.update fds d none) slot := by
  intro c hc
  by_cases hd : slot.acc = d
  · rw [hd, Function.update_self] at hc
    cases hc
  · rw [Function.update_of_ne hd] at hc
    exact h c hc

theorem Bound.closeAcc {fds : Table} {slot : QueueData} (h : Bound fds slot)
    (acc : Option Nat) : Bound (fds.closeAcc acc) slot := by
  cases acc with
  | none => exact h
  | some acc => exact h.close acc

/-- So does giving another number to a connection. -/
theorem Bound.open_ {fds : Table} {slot : QueueData} (h : Bound fds slot) {d : Nat}
    (hd : slot.acc ≠ d) (c : ConnId) : Bound (Function.update fds d (some (.conn c))) slot := by
  intro c' hc
  rw [Function.update_of_ne hd] at hc
  exact h c' hc

/-- A queue whose queued slots, and the slot in hand, are bound. -/
structure QueueBound (fds : Table) (q : Queue) (p : SendPc) : Prop where
  front_lt : q.front < maxQueueSz
  last_lt : q.last < maxQueueSz
  queued : ∀ slot ∈ Ring.contents maxQueueSz q.front q.last q.data, Bound fds slot
  hand : ∀ i, p.hand = some i →
    i < maxQueueSz ∧ Ring.next maxQueueSz i = q.front ∧ Bound fds (q.data i)

theorem QueueBound.map {fds fds' : Table} {q : Queue} {p : SendPc} (h : QueueBound fds q p)
    (keep : ∀ slot, Bound fds slot →
      (slot ∈ Ring.contents maxQueueSz q.front q.last q.data ∨
        ∃ i, p.hand = some i ∧ slot = q.data i) → Bound fds' slot) :
    QueueBound fds' q p := by
  refine ⟨h.front_lt, h.last_lt, fun slot hs => keep slot (h.queued slot hs) (.inl hs), ?_⟩
  intro i hi
  obtain ⟨hlt, hnext, hbound⟩ := h.hand i hi
  exact ⟨hlt, hnext, keep _ hbound (.inr ⟨i, hi, rfl⟩)⟩

/-- What a step does to a queue keeps its slots bound if the producer does not
write the slot in hand and publishes a bound slot. -/
theorem QueueBound.move {storing publishing turn : Prop} {fds : Table} {q q' : Queue}
    {p p' : SendPc} (h : QueueBound fds q p) (move : QueueMove storing publishing turn q p q' p')
    (apart : storing → p.hand ≠ some q.last) (bound : publishing → Bound fds (q.data q.last)) :
    QueueBound fds q' p' := by
  cases move with
  | stay idle =>
      exact ⟨h.front_lt, h.last_lt, h.queued, fun i hi => h.hand i (idle.hand_eq ▸ hi)⟩
  | store storing slot =>
      refine ⟨h.front_lt, h.last_lt, ?_, ?_⟩
      · simp only [Queue.setSlot, Ring.contents_update_last h.front_lt h.last_lt]
        exact h.queued
      · intro i hi
        have hne : i ≠ q.last := by
          rintro rfl
          exact apart storing hi
        simp only [Queue.setSlot, Function.update_of_ne hne]
        exact h.hand i hi
  | publish publishing =>
      refine ⟨h.front_lt, Ring.next_lt (by decide), ?_, fun i hi => h.hand i (hand_signal p ▸ hi)⟩
      by_cases room : Ring.depth maxQueueSz q.front q.last + 1 < maxQueueSz
      · simp only [queueNext_eq, Ring.contents_push h.front_lt h.last_lt room]
        intro slot hslot
        rcases List.mem_append.mp hslot with hslot | hslot
        · exact h.queued slot hslot
        · rw [List.mem_singleton.mp hslot]
          exact bound publishing
      · have hlt := Ring.depth_lt q.front q.last (N := maxQueueSz) (by decide)
        have full : Ring.depth maxQueueSz q.front q.last + 1 = maxQueueSz := by omega
        simp only [queueNext_eq, Ring.contents_overrun h.front_lt h.last_lt full]
        intro slot hslot
        exact absurd hslot List.not_mem_nil
  | dequeue _ _ nonempty =>
      have hpop := Ring.contents_pop h.front_lt h.last_lt nonempty q.data
      refine ⟨Ring.next_lt (by decide), h.last_lt, ?_, ?_⟩
      · intro slot hslot
        exact h.queued slot (hpop ▸ List.mem_cons_of_mem _ hslot)
      · intro i hi
        cases hi
        exact ⟨h.front_lt, rfl, h.queued _ (hpop ▸ List.mem_cons_self)⟩
  | @format i f _ _ stage =>
      obtain ⟨hp, hp'⟩ := stage.hand_eq
      obtain ⟨hlt, hnext, hbound⟩ := h.hand i hp
      refine ⟨h.front_lt, h.last_lt, ?_, ?_⟩
      · simp only [Queue.setSlot, Ring.contents_update_taken h.front_lt h.last_lt hlt hnext]
        exact h.queued
      · intro j hj
        cases hp'.symm.trans hj
        refine ⟨hlt, hnext, ?_⟩
        simp only [Queue.setSlot, Function.update_self]
        intro c hc
        rw [(stage.fields (q.data i)).1] at hc
        exact (hbound c hc).trans (stage.fields (q.data i)).2.symm
  | reply => exact ⟨h.front_lt, h.last_lt, h.queued, fun i hi => by cases hi⟩

/-- The slot that `accept_loop` is filling is its own, and bound once filled. -/
def Filling (s : State) : Prop :=
  match s.pc with
  | .recving fd _ =>
      (s.threads (queueIndex fd)).hand ≠ some (s.queues (queueIndex fd)).last
  | .recvd fd _ =>
      (s.threads (queueIndex fd)).hand ≠ some (s.queues (queueIndex fd)).last ∧
        ((s.lastSlot fd).len = -1 ∨ (s.lastSlot fd).len = 0 ∨ Bound s.fds (s.lastSlot fd))
  | _ => True

structure CrossingInv (s : State) : Prop where
  queue : ∀ qi, QueueBound s.fds (s.queues qi) (s.threads qi)
  filling : Filling s
  log : RightConnection s.log

theorem crossingInv_init (k : Startup) : CrossingInv (init k) := by
  refine ⟨fun qi => ⟨Nat.zero_lt_succ _, Nat.zero_lt_succ _, ?_, fun i hi => by cases hi⟩,
    trivial, ?_⟩
  · have hnil : Ring.contents maxQueueSz Queue.zero.front Queue.zero.last Queue.zero.data = [] :=
      (Ring.contents_eq_nil_iff (by decide) (by decide)).mpr rfl
    intro slot hslot
    simp only [init, hnil] at hslot
    exact absurd hslot List.not_mem_nil
  · intro c src m h
    exact absurd h List.not_mem_nil

section Step

variable {k : Startup} {s t : State} {a : Action}

theorem CrossingInv.apart (h : CrossingInv s) (fresh : Fresh s a) {qi : Fin maxSender}
    (storing : s.Storing a qi) : (s.threads qi).hand ≠ some (s.queues qi).last := by
  rcases storing with ⟨rfl, fd, events, pc, rfl⟩ | ⟨answer, fd, events, rfl, pc, rfl⟩
  · simpa only [Fresh, pc] using fresh
  · simpa only [Filling, pc] using h.filling

theorem CrossingInv.bound (h : CrossingInv s) {qi : Fin maxSender}
    (publishing : s.Publishing a qi) :
    Bound s.fds ((s.queues qi).data (s.queues qi).last) := by
  obtain ⟨-, fd, events, pc, rfl, got⟩ := publishing
  have hfilling := h.filling
  simp only [Filling, pc] at hfilling
  rcases hfilling.2 with herr | hend | hbound
  · exact absurd (.inl herr) got
  · exact absurd (.inr hend) got
  · exact hbound

theorem CrossingInv.queue_step (h : CrossingInv s) (fresh : Fresh s a) (hstep : step k s a = some t)
    (qi : Fin maxSender) : QueueBound t.fds (t.queues qi) (t.threads qi) := by
  have hmove := (h.queue qi).move (queueMove_of_step hstep qi) (h.apart fresh) h.bound
  cases fdsMove_of_step hstep with
  | same fds => exact fds ▸ hmove
  | close d fds => exact fds ▸ hmove.map fun slot hslot _ => hslot.close d
  | close₂ acc e fds => exact fds ▸ hmove.map fun slot hslot _ => (hslot.closeAcc acc).close e
  | open_ free fds queues threads =>
      rw [fds]
      refine hmove.map fun slot hslot hmem => hslot.open_ (fresh qi slot ?_) _
      rw [queues, threads] at hmem
      rcases hmem with hmem | ⟨i, hi, rfl⟩
      · exact List.mem_append_right _ hmem
      · refine List.mem_append_left _ ?_
        simp [State.inHand, hi]

/-- A `send_thread` does not disturb the slot that is being filled. -/
theorem Filling.thread (h : Filling s) (hstep : step k s a = some t) (thread : a.IsThread)
    (pc : t.pc = s.pc) (fds : t.fds = s.fds) : Filling t := by
  have kept := fun qi => (queueMove_of_step hstep qi).last_kept
    (thread.quiet s qi).1 (thread.quiet s qi).2
  unfold Filling at h ⊢
  rw [pc]
  split
  · rename_i fd _ hpc
    simp only [hpc] at h
    exact (kept _ h).2.2
  · rename_i fd _ hpc
    simp only [hpc] at h
    obtain ⟨-, hdata, hhand⟩ := kept _ h.1
    refine ⟨hhand, ?_⟩
    unfold State.lastSlot at h ⊢
    rw [hdata, fds]
    exact h.2
  · trivial

theorem CrossingInv.filling_step (h : CrossingInv s) (fresh : Fresh s a)
    (hstep : step k s a = some t) : Filling t := by
  have hthread := h.filling.thread hstep
  cases move_of_step hstep with
  | storesAcc pc ne =>
      simpa [Fresh, Filling, pc, State.setLastSlot, State.setQueue, Queue.setSlot] using fresh
  | recvEnds pc ended =>
      have hfilling := h.filling
      simp only [Filling, pc] at hfilling
      refine ⟨by simpa [State.setLastSlot, State.setQueue, Queue.setSlot] using hfilling, ?_⟩
      rcases ended with ⟨-, rfl⟩ | ⟨-, rfl⟩
      · exact .inl (by simp [State.lastSlot, State.setLastSlot, State.setQueue, Queue.setSlot])
      · exact .inr (.inl (by
          simp [State.lastSlot, State.setLastSlot, State.setQueue, Queue.setSlot]))
  | @recvs fd events c m pc owner =>
      have hfilling := h.filling
      simp only [Filling, pc] at hfilling
      refine ⟨by simpa [State.setLastSlot, State.setQueue, Queue.setSlot] using hfilling, ?_⟩
      refine .inr (.inr fun c' hc' => ?_)
      simp only [State.lastSlot, State.setLastSlot, State.setQueue, Queue.setSlot,
        Function.update_self] at hc' owner ⊢
      rw [owner, Option.some.injEq, Desc.conn.injEq] at hc'
      exact hc'.symm
  | dequeues => exact hthread trivial rfl rfl
  | waits => exact hthread trivial rfl rfl
  | resumes => exact hthread trivial rfl rfl
  | formats => exact hthread trivial rfl rfl
  | replies => exact hthread trivial rfl rfl
  | wakesUp => exact hthread trivial rfl rfl
  | _ => trivial

theorem CrossingInv.log_step (h : CrossingInv s) (hstep : step k s a = some t) :
    RightConnection t.log := by
  cases move_of_step hstep with
  | recvs =>
      intro c src m hmem
      rcases List.mem_append.mp hmem with hmem | hmem
      · exact h.log c src m hmem
      · cases List.mem_singleton.mp hmem
  | @replies qi delivered i pc =>
      intro c src m hmem
      rcases List.mem_append.mp hmem with hmem | hmem
      · exact h.log c src m hmem
      · have hbound := ((h.queue qi).hand i (by rw [pc]; rfl)).2.2
        unfold sendSlot at hmem
        split at hmem
        · rename_i c' howner
          split at hmem
          · cases List.mem_singleton.mp hmem
            exact hbound _ howner
          · exact absurd hmem List.not_mem_nil
        · exact absurd hmem List.not_mem_nil
  | _ => exact h.log

end Step

/-- In every run in which `accept` never returns a number with a message queued
or in hand, and `accept_loop` never receives into the slot in hand, every reply
is sent on the connection its message came from. -/
theorem replies_on_right_connection {k : Startup} {s : State}
    (run : Reaches (guarded Fresh (step k)) (init k) s) : RightConnection s.log := by
  have hinv : CrossingInv s := by
    refine run.invariant (crossingInv_init k) ?_
    intro u a v h move
    obtain ⟨fresh, hstep⟩ := guarded_eq_some.mp move
    exact ⟨h.queue_step fresh hstep, h.filling_step fresh hstep, h.log_step hstep⟩
  exact hinv.log

theorem replies_on_right_connection_oneExchange :
    ∃ s, Reaches (guarded Fresh (step .plain)) (init .plain) s ∧
      s.log = [.received 0 [97, lf], .replied 0 0 (okReply [97])] ∧ RightConnection s.log := by
  have hlog : (exec (guarded Fresh (step .plain)) (init .plain) oneExchange).map State.log =
      some [.received 0 [97, lf], .replied 0 0 (okReply [97])] := by decide +kernel
  obtain ⟨s, hexec, hs⟩ := Option.map_eq_some_iff.mp hlog
  have run := Reaches.of_exec hexec
  exact ⟨s, run, hs, replies_on_right_connection run⟩

/-- The first client sends a line and closes before its thread runs; the next
client gets its descriptor, and its reply. -/
def crossing : List Action :=
  [.epollWait [3], .accept (some 5), .register true,
    .epollWait [5], .storeAcc, .recv (.data [97, lf]), .dispatch,
    .epollWait [5], .storeAcc, .recv .eof, .dispatch, .close,
    .epollWait [3], .accept (some 5), .register true,
    .thread 1 true, .thread 1 true, .thread 1 true, .thread 1 true, .thread 1 true, .thread 1 true]

theorem reply_crosses :
    ∃ s, Reaches (step .plain) (init .plain) s ∧
      s.log = [.received 0 [97, lf], .replied 1 0 (okReply [97])] ∧ ¬ RightConnection s.log := by
  have hlog : (exec (step .plain) (init .plain) crossing).map State.log =
      some [.received 0 [97, lf], .replied 1 0 (okReply [97])] := by decide +kernel
  obtain ⟨s, hexec, hs⟩ := Option.map_eq_some_iff.mp hlog
  refine ⟨s, .of_exec hexec, hs, fun hright => ?_⟩
  have hmem : .replied 1 0 (okReply [97]) ∈ s.log := by
    rw [hs]
    exact List.mem_cons_of_mem _ List.mem_cons_self
  have hsrc := hright 1 0 (okReply [97]) hmem
  exact absurd hsrc (by decide)

end NetworkProgram.Server9
