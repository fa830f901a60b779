import NetworkProgram.Server9.Steps

set_option autoImplicit false

/-!
# Server9: who owns a slot

`accept_loop` receives into `data[last]` without holding the mutex and without
asking whether the queue is full, and `send_thread` advances `front` before it
uses the slot it took.  The slot is the producer's own only while the messages
of the queue that are queued or in hand leave room for one more; this module
proves that the room is also enough.
-/

namespace NetworkProgram.Server9

open NetworkProgram.Foundation
open NetworkProgram.Kernel
open NetworkProgram.Libc

theorem queueNext_eq (i : Nat) : queueNext i = Ring.next maxQueueSz i := rfl

/-- The messages of a queue that were received and not answered yet. -/
def State.outstanding (s : State) (qi : Fin maxSender) : Nat :=
  s.depth qi + (s.inHand qi).length

/-- The slot `accept_loop` writes next neither holds a message that was not
dequeued nor is the one `send_thread` is using. -/
def SlotOwned (s : State) (qi : Fin maxSender) : Prop :=
  (s.queues qi).held (s.queues qi).last = false ∧
    (s.threads qi).hand ≠ some (s.queues qi).last

/-- Advancing `last` does not make a queue with messages look empty. -/
def NoFalseEmpty (q q' : Queue) : Prop :=
  q'.last = queueNext q.last → q.last ≠ q.front → q'.last ≠ q'.front

/-- A message is published only into a queue with fewer than `MAXQUEUESZ - 1`
messages that were received and not answered. -/
def Room (s : State) (a : Action) : Prop :=
  match a, s.pc with
  | .dispatch, .recvd fd _ =>
      (s.lastSlot fd).len = -1 ∨ (s.lastSlot fd).len = 0 ∨
        s.outstanding (queueIndex fd) < maxQueueSz - 1
  | _, _ => True

instance (s : State) (a : Action) : Decidable (Room s a) := by
  unfold Room
  generalize s.pc = pc
  cases a <;> cases pc <;> infer_instance

/-! ## The ring invariant -/

/-- The marked slots are the ring's, and the slot in hand is the one just before
the front. -/
structure RingInv (q : Queue) (p : SendPc) : Prop where
  front_lt : q.front < maxQueueSz
  last_lt : q.last < maxQueueSz
  held_iff : ∀ i, q.held i = true ↔
    ∃ n, n < Ring.depth maxQueueSz q.front q.last ∧ Ring.index maxQueueSz q.front n = i
  hand : ∀ i, p.hand = some i → i < maxQueueSz ∧ Ring.next maxQueueSz i = q.front ∧
    Ring.depth maxQueueSz q.front q.last + 1 < maxQueueSz

theorem ringInv_zero : RingInv .zero .lock := by
  refine ⟨by decide, by decide, ?_, fun i h => by cases h⟩
  intro i
  have hdepth : Ring.depth maxQueueSz 0 0 = 0 := by decide
  simp [Queue.zero, hdepth]

theorem RingInv.held_last {q : Queue} {p : SendPc} (h : RingInv q p) : q.held q.last = false := by
  by_contra hheld
  obtain ⟨n, hn, heq⟩ := (h.held_iff q.last).mp (by simpa using hheld)
  exact Ring.index_ne_last h.front_lt h.last_lt hn heq

theorem RingInv.hand_ne_last {q : Queue} {p : SendPc} (h : RingInv q p) :
    p.hand ≠ some q.last := by
  intro heq
  obtain ⟨hlt, hnext, room⟩ := h.hand _ heq
  exact Ring.ne_last_of_next_eq_front h.front_lt h.last_lt hlt hnext room rfl

/-- The `send_thread`s leave the slot at `last` alone. -/
theorem RingInv.lastSlot_of_thread {k : Startup} {s t : State} {a : Action} {fd : Nat}
    (h : RingInv (s.queues (queueIndex fd)) (s.threads (queueIndex fd)))
    (hstep : step k s a = some t) (thread : a.IsThread) : t.lastSlot fd = s.lastSlot fd := by
  obtain ⟨hstoring, hpublishing⟩ := thread.quiet s (queueIndex fd)
  exact ((queueMove_of_step hstep _).last_kept hstoring hpublishing h.hand_ne_last).2.1

theorem RingInv.slotOwned {s : State} {qi : Fin maxSender}
    (h : RingInv (s.queues qi) (s.threads qi)) : SlotOwned s qi :=
  ⟨h.held_last, h.hand_ne_last⟩

/-- Writing a slot moves no index. -/
theorem RingInv.setSlot {q : Queue} {p : SendPc} (h : RingInv q p) (i : Nat) (slot : QueueData) :
    RingInv (q.setSlot i slot) p :=
  ⟨h.front_lt, h.last_lt, h.held_iff, h.hand⟩

theorem RingInv.of_hand {q : Queue} {p p' : SendPc} (h : RingInv q p) (hand : p'.hand = p.hand) :
    RingInv q p' :=
  ⟨h.front_lt, h.last_lt, h.held_iff, fun i hi => h.hand i (hand ▸ hi)⟩

theorem RingInv.publish {q : Queue} {p : SendPc} (h : RingInv q p)
    (room : Ring.depth maxQueueSz q.front q.last + p.hand.toList.length < maxQueueSz - 1) :
    RingInv { q with last := queueNext q.last, held := Function.update q.held q.last true } p := by
  have hroom : Ring.depth maxQueueSz q.front q.last + 1 < maxQueueSz := by omega
  have hdepth := Ring.depth_next_last h.front_lt h.last_lt hroom
  refine ⟨h.front_lt, Ring.next_lt (by decide), ?_, ?_⟩
  · intro i
    simp only [queueNext_eq, hdepth]
    by_cases hi : i = q.last
    · subst hi
      rw [Function.update_self]
      exact ⟨fun _ => ⟨_, Nat.lt_succ_self _, Ring.index_depth h.front_lt h.last_lt⟩, fun _ => rfl⟩
    · rw [Function.update_of_ne hi, h.held_iff]
      constructor
      · rintro ⟨n, hn, heq⟩
        exact ⟨n, by omega, heq⟩
      · rintro ⟨n, hn, heq⟩
        have hne : n ≠ Ring.depth maxQueueSz q.front q.last := by
          rintro rfl
          exact hi (heq ▸ Ring.index_depth h.front_lt h.last_lt)
        exact ⟨n, by omega, heq⟩
  · intro i hi
    obtain ⟨hlt, hnext, _⟩ := h.hand i hi
    simp only [queueNext_eq, hdepth]
    rw [hi] at room
    simp only [Option.toList_some, List.length_singleton] at room
    exact ⟨hlt, hnext, by omega⟩

theorem RingInv.dequeue {q : Queue} {p : SendPc} (h : RingInv q p) (nonempty : q.last ≠ q.front) :
    RingInv { q with front := queueNext q.front, held := Function.update q.held q.front false }
      (.terminate q.front) := by
  have hdepth := Ring.depth_next_front h.front_lt h.last_lt nonempty
  have hlt := Ring.depth_lt q.front q.last (N := maxQueueSz) (by decide)
  refine ⟨Ring.next_lt (by decide), h.last_lt, ?_, ?_⟩
  · intro i
    simp only [queueNext_eq, Ring.index_next_front]
    by_cases hi : i = q.front
    · subst hi
      rw [Function.update_self]
      refine ⟨fun hfalse => (Bool.false_ne_true hfalse).elim, ?_⟩
      rintro ⟨n, hn, heq⟩
      have hzero := Ring.index_injective h.front_lt (j := n + 1) (k := 0) (by omega) (by decide)
        (heq.trans (Ring.index_zero h.front_lt).symm)
      omega
    · rw [Function.update_of_ne hi, h.held_iff]
      constructor
      · rintro ⟨n, hn, heq⟩
        cases n with
        | zero => exact absurd (heq.symm.trans (Ring.index_zero h.front_lt)) hi
        | succ n => exact ⟨n, by omega, heq⟩
      · rintro ⟨n, hn, heq⟩
        exact ⟨n + 1, by omega, heq⟩
  · intro i hi
    cases hi
    refine ⟨h.front_lt, rfl, ?_⟩
    dsimp only
    rw [queueNext_eq]
    omega

/-- Every step keeps the ring invariant of a queue, a publishing one if there is
room. -/
theorem RingInv.move {storing publishing turn : Prop} {q q' : Queue} {p p' : SendPc}
    (h : RingInv q p) (move : QueueMove storing publishing turn q p q' p')
    (room : publishing →
      Ring.depth maxQueueSz q.front q.last + p.hand.toList.length < maxQueueSz - 1) :
    RingInv q' p' := by
  cases move with
  | stay idle => exact h.of_hand idle.hand_eq
  | store _ slot => exact h.setSlot _ _
  | publish pub => exact (h.publish (room pub)).of_hand (hand_signal p)
  | dequeue _ _ nonempty => exact h.dequeue nonempty
  | format _ stage =>
      obtain ⟨hp, hp'⟩ := stage.hand_eq
      exact (h.setSlot _ _).of_hand (hp'.trans hp.symm)
  | reply => exact ⟨h.front_lt, h.last_lt, h.held_iff, fun i hi => by cases hi⟩

/-- With room no step makes a queue with messages look empty. -/
theorem RingInv.noFalseEmpty {storing publishing turn : Prop} {q q' : Queue} {p p' : SendPc}
    (h : RingInv q p) (move : QueueMove storing publishing turn q p q' p')
    (room : publishing →
      Ring.depth maxQueueSz q.front q.last + p.hand.toList.length < maxQueueSz - 1) :
    NoFalseEmpty q q' := by
  have hnext : queueNext q.last ≠ q.last := by
    rw [queueNext_eq, Ring.next_eq h.last_lt, maxQueueSz]
    split <;> omega
  intro hlast _
  cases move with
  | stay => exact absurd hlast.symm hnext
  | store _ slot => exact absurd hlast.symm hnext
  | publish pub =>
      have hroom := room pub
      have hdepth : Ring.depth maxQueueSz q.front q.last + 1 < maxQueueSz := by omega
      exact Ring.next_last_ne_front h.front_lt h.last_lt hdepth
  | dequeue _ _ nonempty => exact absurd hlast.symm hnext
  | format => exact absurd hlast.symm hnext
  | reply => exact absurd hlast.symm hnext

theorem outstanding_eq (s : State) (qi : Fin maxSender) :
    s.outstanding qi = Ring.depth maxQueueSz (s.queues qi).front (s.queues qi).last +
      (s.threads qi).hand.toList.length := by
  unfold State.outstanding State.depth State.inHand
  cases (s.threads qi).hand <;> rfl

/-- The step condition, read off for a publishing step. -/
theorem room_of_publishing {s : State} {a : Action} {qi : Fin maxSender} (room : Room s a)
    (h : s.Publishing a qi) : s.outstanding qi < maxQueueSz - 1 := by
  obtain ⟨rfl, fd, events, pc, rfl, got⟩ := h
  simp only [Room, pc] at room
  tauto

theorem ringInv_of_run {k : Startup} {s : State}
    (run : Reaches (guarded Room (step k)) (init k) s) (qi : Fin maxSender) :
    RingInv (s.queues qi) (s.threads qi) := by
  refine run.invariant (I := fun s => RingInv (s.queues qi) (s.threads qi)) ringInv_zero ?_
  intro u a v hinv move
  obtain ⟨room, hstep⟩ := guarded_eq_some.mp move
  refine hinv.move (queueMove_of_step hstep qi) fun pub => ?_
  rw [← outstanding_eq]
  exact room_of_publishing room pub

/-- A publishing step without room breaks the ownership of the slot it moves to,
or empties the queue: the condition is exact. -/
theorem not_owned_of_no_room {k : Startup} {s t : State} {a : Action} {qi : Fin maxSender}
    (hinv : RingInv (s.queues qi) (s.threads qi)) (h : step k s a = some t)
    (pub : s.Publishing a qi) (full : maxQueueSz - 1 ≤ s.outstanding qi) :
    ¬ (SlotOwned t qi ∧ NoFalseEmpty (s.queues qi) (t.queues qi)) := by
  obtain ⟨rfl, fd, events, pc, rfl, got⟩ := pub
  have hq : t.queues (queueIndex fd) = { s.queues (queueIndex fd) with
      last := queueNext (s.queues (queueIndex fd)).last
      held := Function.update (s.queues (queueIndex fd)).held
        (s.queues (queueIndex fd)).last true } ∧
      (t.threads (queueIndex fd)).hand = (s.threads (queueIndex fd)).hand := by
    cases move_of_step h with
    | deregisters pc' ended => cases pc.symm.trans pc'; exact absurd ended got
    | deregisterFails pc' ended => cases pc.symm.trans pc'; exact absurd ended got
    | publishes pc' =>
        cases pc.symm.trans pc'
        simp [publish, State.setQueue, State.setThread]
  rintro ⟨⟨hheld, hhand⟩, hempty⟩
  rw [hq.1] at hheld hhand hempty
  rw [hq.2] at hhand
  rw [outstanding_eq] at full
  have hlt := Ring.depth_lt (s.queues (queueIndex fd)).front (s.queues (queueIndex fd)).last
    (N := maxQueueSz) (by decide)
  cases hcase : (s.threads (queueIndex fd)).hand with
  | none =>
      rw [hcase] at full
      simp only [Option.toList_none, List.length_nil, Nat.add_zero] at full
      have hfull : Ring.depth maxQueueSz (s.queues (queueIndex fd)).front
          (s.queues (queueIndex fd)).last + 1 = maxQueueSz := by omega
      refine hempty rfl ?_ (Ring.next_last_eq_front hinv.front_lt hinv.last_lt hfull)
      intro heq
      have hzero := (Ring.depth_eq_zero_iff hinv.front_lt hinv.last_lt).mpr heq
      rw [hzero] at full
      exact absurd full (by decide)
  | some i =>
      obtain ⟨hi, hnext, room⟩ := hinv.hand i hcase
      rw [hcase] at full hhand
      simp only [Option.toList_some, List.length_singleton] at full
      refine hhand (congrArg some ?_)
      have hfront := hinv.front_lt
      have hlast := hinv.last_lt
      rw [Ring.depth_eq hfront hlast] at full room
      rw [Ring.next_eq hi] at hnext
      simp only [queueNext_eq, Ring.next_eq hlast]
      split_ifs at * <;> omega

/-- In every run that publishes only with room, `accept_loop` owns the slot it
writes next, no queue with messages looks empty, and of the steps possible now
exactly those with room keep it so. -/
theorem slots_owned_iff_room {k : Startup} {s : State}
    (run : Reaches (guarded Room (step k)) (init k) s) :
    (∀ qi, SlotOwned s qi) ∧ ∀ a t, step k s a = some t →
      (Room s a ↔ ∀ qi, SlotOwned t qi ∧ NoFalseEmpty (s.queues qi) (t.queues qi)) := by
  have hinv := ringInv_of_run run
  refine ⟨fun qi => (hinv qi).slotOwned, fun a t h => ⟨?_, ?_⟩⟩
  · intro room qi
    refine ⟨(ringInv_of_run (.tail run (guarded_eq_some.mpr ⟨room, h⟩)) qi).slotOwned, ?_⟩
    refine (hinv qi).noFalseEmpty (queueMove_of_step h qi) fun pub => ?_
    rw [← outstanding_eq]
    exact room_of_publishing room pub
  · intro howned
    unfold Room
    split
    · rename_i fd events pc
      by_contra hcon
      simp only [not_or, Nat.not_lt] at hcon
      obtain ⟨herr, hend, full⟩ := hcon
      exact not_owned_of_no_room (hinv (queueIndex fd)) h
        ⟨rfl, fd, events, pc, rfl, fun ended => ended.elim herr hend⟩ full (howned _)
    · trivial

/-- One client connects, sends one message and gets its reply. -/
def oneExchange : List Action :=
  [.epollWait [3], .accept (some 5), .register true, .epollWait [5], .storeAcc,
    .recv (.data [97, lf]), .dispatch, .thread 1 true, .thread 1 true, .thread 1 true,
    .thread 1 true, .thread 1 true, .thread 1 true]

theorem slots_owned_iff_room_oneExchange :
    ∃ s, Reaches (guarded Room (step .plain)) (init .plain) s ∧
      s.log = [.received 0 [97, lf], .replied 0 0 (okReply [97])] ∧
      ((∀ qi, SlotOwned s qi) ∧ ∀ a t, step .plain s a = some t →
        (Room s a ↔ ∀ qi, SlotOwned t qi ∧ NoFalseEmpty (s.queues qi) (t.queues qi))) := by
  have hlog : (exec (guarded Room (step .plain)) (init .plain) oneExchange).map State.log =
      some [.received 0 [97, lf], .replied 0 0 (okReply [97])] := by decide +kernel
  obtain ⟨s, hexec, hs⟩ := Option.map_eq_some_iff.mp hlog
  have run := Reaches.of_exec hexec
  exact ⟨s, run, hs, slots_owned_iff_room run⟩

/-! ## The overrun

One client that sends 4096 messages before the thread of its queue first runs. -/

/-- Up to the `switch` on the length of a one-byte message on descriptor 5. -/
def receiveByte : List Action := [.epollWait [5], .storeAcc, .recv (.data [lf])]

/-- A connection on descriptor 5 and `n` messages received on it. -/
def flood (n : Nat) : List Action :=
  [.epollWait [3], .accept (some 5), .register true] ++
    (List.replicate n (receiveByte ++ [.dispatch])).flatten

/-- What the flood leaves behind, as far as its next message depends on it. -/
structure Flooded (n : Nat) (s : State) : Prop where
  pc : s.pc = .batch []
  interest : 5 ∈ s.interest
  open_ : s.fds 5 = some (.conn 0)
  front : (s.queues 1).front = 0
  last : (s.queues 1).last = n
  idle : s.threads 1 = .lock
  held : 0 < n → (s.queues 1).held 0 = true

theorem flooded_receive {n : Nat} {s : State} (h : Flooded n s) :
    ∃ t, exec (step .plain) s receiveByte = some t ∧ t.pc = .recvd 5 [] ∧
      (t.lastSlot 5).len = 1 ∧ t.queues 1 = (s.queues 1).setSlot n (t.lastSlot 5) ∧
      t.threads = s.threads ∧ t.interest = s.interest ∧ t.fds = s.fds := by
  have hq : queueIndex 5 = 1 := rfl
  have hsoc : Startup.plain.soc = 3 := rfl
  refine ⟨{ s.setLastSlot 5
      { acc := 5, buf := lf :: (s.lastSlot 5).buf.tail, len := 1, src := 0 } with
    pc := .recvd 5 [], log := s.log ++ [.received 0 [lf]] }, ?_, rfl, ?_, ?_, rfl, rfl, rfl⟩
  · simp [exec, receiveByte, step, epollWait, storeAcc, recv, h.pc, h.interest, h.open_, hsoc,
      State.setLastSlot, State.lastSlot, State.setQueue, Queue.setSlot, bufSize]
  · simp [State.lastSlot, State.setLastSlot, State.setQueue, Queue.setSlot]
  · simp [State.lastSlot, State.setLastSlot, State.setQueue, Queue.setSlot, hq, h.last]

theorem flooded_dispatch {n : Nat} {s t : State} (h : Flooded n s) (pc : t.pc = .recvd 5 [])
    (len : (t.lastSlot 5).len = 1) (queue : t.queues 1 = (s.queues 1).setSlot n (t.lastSlot 5))
    (threads : t.threads = s.threads) :
    ∃ u, step .plain t .dispatch = some u ∧
      u.pc = .batch [] ∧ u.interest = t.interest ∧ u.fds = t.fds ∧ u.threads 1 = .lock ∧
      u.queues 1 = { t.queues 1 with
        last := queueNext n, held := Function.update (s.queues 1).held n true } := by
  have hq : queueIndex 5 = 1 := rfl
  have hlen : ((t.queues 1).data (t.queues 1).last).len = 1 := len
  have hidle : t.threads 1 = .lock := by rw [threads, h.idle]
  have hlast : (t.queues 1).last = n := by rw [queue]; exact h.last
  have hheld : (t.queues 1).held = (s.queues 1).held := by rw [queue]; rfl
  refine ⟨{ publish t 1 with pc := .batch [] }, ?_, rfl, rfl, rfl, ?_, ?_⟩
  · simp [step, dispatch, pc, hq, hlen]
  · simp [publish, State.setThread, State.setQueue, signal, hidle]
  · simp [publish, State.setThread, State.setQueue, hlast, hheld]

theorem flooded_flood (n : Nat) (h : n < maxQueueSz) :
    ∃ s, exec (step .plain) (init .plain) (flood n) = some s ∧ Flooded n s := by
  induction n with
  | zero =>
      have hstart : (exec (step .plain) (init .plain) (flood 0)).isSome := by decide
      obtain ⟨s, hs⟩ := Option.isSome_iff_exists.mp hstart
      refine ⟨s, hs, ?_⟩
      simp only [flood, List.replicate, List.flatten_nil, List.append_nil] at hs
      cases hs
      exact ⟨rfl, by decide, rfl, rfl, rfl, rfl, fun h => absurd h (by decide)⟩
  | succ n ih =>
      obtain ⟨s, hexec, hs⟩ := ih (by omega)
      obtain ⟨t, hreceive, pc, len, queue, threads, interest, fds⟩ := flooded_receive hs
      obtain ⟨u, hstep, pc', interest', fds', idle', queue'⟩ :=
        flooded_dispatch hs pc len queue threads
      have hflood : flood (n + 1) = flood n ++ (receiveByte ++ [.dispatch]) := by
        simp [flood, List.replicate_succ', List.flatten_append]
      refine ⟨u, ?_, pc', ?_, ?_, ?_, ?_, idle', fun _ => ?_⟩
      · rw [hflood, exec_append _ hexec, exec_append _ hreceive]
        simp [exec, hstep]
      · rw [interest', interest]; exact hs.interest
      · rw [fds', fds]; exact hs.open_
      · rw [queue', queue]; exact hs.front
      · rw [queue']
        exact Nat.mod_eq_of_lt h
      · rw [queue']
        by_cases hn : n = 0
        · subst hn
          exact Function.update_self 0 true (s.queues 1).held
        · exact (Function.update_of_ne (fun heq => hn heq.symm) true (s.queues 1).held).trans
            (hs.held (Nat.pos_of_ne_zero hn))

/-- After 4096 messages a queue with 4096 messages looks empty, and the next
message is received into the slot of the first. -/
theorem queue_overrun :
    ∃ s t, exec (step .plain) (init .plain) (flood 4095 ++ receiveByte) = some s ∧
      step .plain s .dispatch = some t ∧
      (s.queues 1).last ≠ (s.queues 1).front ∧ (t.queues 1).last = (t.queues 1).front ∧
      (t.queues 1).held (t.queues 1).last = true := by
  obtain ⟨s, hexec, hs⟩ := flooded_flood 4095 (by decide)
  obtain ⟨t, hreceive, pc, len, queue, threads, -⟩ := flooded_receive hs
  obtain ⟨u, hstep, -, -, -, -, queue'⟩ :=
    flooded_dispatch hs pc len queue threads
  have hfront : (t.queues 1).front = 0 := by rw [queue]; exact hs.front
  have hlast : (t.queues 1).last = 4095 := by rw [queue]; exact hs.last
  refine ⟨t, u, (exec_append _ hexec).trans hreceive, hstep, ?_, ?_, ?_⟩
  · rw [hfront, hlast]; decide
  · rw [queue']
    exact (show queueNext 4095 = 0 by decide).trans hfront.symm
  · rw [queue']
    have hzero : queueNext 4095 ≠ 4095 := by decide
    exact (Function.update_of_ne hzero true (s.queues 1).held).trans (hs.held (by decide))

end NetworkProgram.Server9
