import NetworkProgram.Server9.Ownership
import NetworkProgram.Server9.Descriptors

set_option autoImplicit false

/-!
# Server9: the messages in service

Seen from outside, a queue with its thread is a list of messages: the one in
hand, with what `send_thread` has already done to it, then those in the ring,
then the one that `accept_loop` has received and not published.  Taking a slot
from the ring and publishing one leave that list as it is; a `recv` appends to
it, a statement of `send_thread` works on its head, and `send` takes the head
away.
-/

namespace NetworkProgram.Server9

open NetworkProgram.Foundation
open NetworkProgram.Kernel
open NetworkProgram.Libc

/-- The last statement of `send_thread` that a slot has seen. -/
inductive Phase
  | received
  | terminated
  | cut
  | appended
  | measured
  deriving DecidableEq, Repr

/-- The phase of the slot in hand. -/
def SendPc.phase : SendPc → Phase
  | .cut _ => .terminated
  | .append _ => .cut
  | .measure _ => .appended
  | .reply _ => .measured
  | _ => .received

/-- The statements of `send_thread`, by phases. -/
inductive PhaseStage : Phase → (QueueData → QueueData) → Phase → Prop
  | terminate : PhaseStage .received terminateSlot .terminated
  | cut : PhaseStage .terminated cutSlot .cut
  | append : PhaseStage .cut appendSlot .appended
  | measure : PhaseStage .appended measureSlot .measured

theorem Stage.phases {p p' : SendPc} {i : Nat} {f : QueueData → QueueData}
    (h : Stage p i f p') : PhaseStage p.phase f p'.phase := by
  cases h
  · exact .terminate
  · exact .cut
  · exact .append
  · exact .measure

theorem PhaseStage.fields {ph ph' : Phase} {f : QueueData → QueueData} (h : PhaseStage ph f ph')
    (slot : QueueData) : (f slot).acc = slot.acc ∧ (f slot).src = slot.src := by
  cases h <;> exact ⟨rfl, rfl⟩

/-- The slot in hand, with its phase. -/
def handEntry (q : Queue) (p : SendPc) : List (Phase × QueueData) :=
  (p.hand.map fun i => (p.phase, q.data i)).toList

/-- The slot that was received and not published. -/
def State.unpublished (s : State) (qi : Fin maxSender) : List QueueData :=
  match s.pc with
  | .recvd fd _ =>
      if queueIndex fd = qi ∧ ¬ ((s.lastSlot fd).len = -1 ∨ (s.lastSlot fd).len = 0) then
        [s.lastSlot fd]
      else []
  | _ => []

/-- The messages a queue and its thread have in service. -/
def serviceOf (q : Queue) (p : SendPc) (unpublished : List QueueData) :
    List (Phase × QueueData) :=
  handEntry q p ++
    (Ring.contents maxQueueSz q.front q.last q.data ++ unpublished).map (Prod.mk .received)

def State.service (s : State) (qi : Fin maxSender) : List (Phase × QueueData) :=
  serviceOf (s.queues qi) (s.threads qi) (s.unpublished qi)

/-- The slot a received message is stored in. -/
def arrived (s : State) (fd : Nat) (c : ConnId) (m : Bytes) : QueueData :=
  { s.lastSlot fd with
    buf := m ++ (s.lastSlot fd).buf.drop m.length, len := m.length, src := c }

/-! ## The service of one queue -/

theorem handEntry_of_none {q : Queue} {p : SendPc} (h : p.hand = none) : handEntry q p = [] := by
  simp [handEntry, h]

theorem handEntry_of_some {q : Queue} {p : SendPc} {i : Nat} (h : p.hand = some i) :
    handEntry q p = [(p.phase, q.data i)] := by
  simp [handEntry, h]

theorem serviceOf_idle {q : Queue} {p p' : SendPc} (h : p' = p ∨ p.hand = none ∧ p'.hand = none)
    (filled : List QueueData) : serviceOf q p' filled = serviceOf q p filled := by
  rcases h with rfl | ⟨hp, hp'⟩
  · rfl
  · rw [serviceOf, serviceOf, handEntry_of_none hp, handEntry_of_none hp']

theorem signal_idle (p : SendPc) : signal p = p ∨ p.hand = none ∧ (signal p).hand = none := by
  cases p
  case waiting => exact .inr ⟨rfl, rfl⟩
  all_goals exact .inl rfl

section Queue

variable {q : Queue} {p : SendPc} (h : RingInv q p)
include h

/-- Writing the producer's slot is not seen before it is received. -/
theorem RingInv.serviceOf_store (slot : QueueData) (filled : List QueueData) :
    serviceOf (q.setSlot q.last slot) p filled = serviceOf q p filled := by
  have hhand : handEntry (q.setSlot q.last slot) p = handEntry q p := by
    cases hp : p.hand with
    | none => rw [handEntry_of_none hp, handEntry_of_none hp]
    | some i =>
        have hne : i ≠ q.last := by
          rintro rfl
          exact h.hand_ne_last hp
        rw [handEntry_of_some hp, handEntry_of_some hp]
        simp only [Queue.setSlot, Function.update_of_ne hne]
  rw [serviceOf, serviceOf, hhand]
  simp only [Queue.setSlot, Ring.contents_update_last h.front_lt h.last_lt]

/-- Publishing moves the received slot into the ring. -/
theorem RingInv.serviceOf_publish
    (room : Ring.depth maxQueueSz q.front q.last + 1 < maxQueueSz) (held : Nat → Bool) :
    serviceOf { q with last := queueNext q.last, held := held } (signal p) [] =
      serviceOf q p [q.data q.last] := by
  rw [serviceOf_idle (signal_idle p)]
  simp only [serviceOf, handEntry, queueNext_eq, Ring.contents_push h.front_lt h.last_lt room,
    List.append_nil]

/-- Dequeuing moves the first slot of the ring into the hand. -/
theorem RingInv.serviceOf_dequeue (idle : p.hand = none) (nonempty : q.last ≠ q.front)
    (held : Nat → Bool) (filled : List QueueData) :
    serviceOf { q with front := queueNext q.front, held := held } (.terminate q.front) filled =
      serviceOf q p filled := by
  simp only [serviceOf, handEntry_of_none idle, queueNext_eq,
    Ring.contents_pop h.front_lt h.last_lt nonempty]
  rfl

/-- A statement of `send_thread` works on the head of the service. -/
theorem RingInv.serviceOf_format {p' : SendPc} {i : Nat} {f : QueueData → QueueData}
    (stage : Stage p i f p') (filled : List QueueData) :
    ∃ slot rest, serviceOf q p filled = (p.phase, slot) :: rest ∧
      serviceOf (q.setSlot i (f (q.data i))) p' filled = (p'.phase, f slot) :: rest := by
  obtain ⟨hp, hp'⟩ := stage.hand_eq
  obtain ⟨hlt, hnext, -⟩ := h.hand i hp
  refine ⟨q.data i, (Ring.contents maxQueueSz q.front q.last q.data ++ filled).map
    (Prod.mk .received), ?_, ?_⟩
  · rw [serviceOf, handEntry_of_some hp]
    rfl
  · rw [serviceOf, handEntry_of_some hp']
    simp only [Queue.setSlot, Ring.contents_update_taken h.front_lt h.last_lt hlt hnext,
      Function.update_self]
    rfl

omit h in
/-- `send` takes the head away. -/
theorem serviceOf_reply {i : Nat} (hp : p = .reply i) (filled : List QueueData) :
    serviceOf q p filled = (.measured, q.data i) :: serviceOf q .lock filled := by
  subst hp
  rfl

end Queue

/-! ## The service of every queue -/

theorem unpublished_of_pc {s : State} (h : ∀ fd events, s.pc ≠ .recvd fd events)
    (qi : Fin maxSender) : s.unpublished qi = [] := by
  unfold State.unpublished
  split
  · rename_i fd events pc
    exact absurd pc (h fd events)
  · rfl

theorem unpublished_congr {s t : State} (pc : t.pc = s.pc) (qi : Fin maxSender)
    (slot : ∀ fd, queueIndex fd = qi → t.lastSlot fd = s.lastSlot fd) :
    t.unpublished qi = s.unpublished qi := by
  unfold State.unpublished
  rw [pc]
  split
  · rename_i fd events _
    by_cases hfd : queueIndex fd = qi
    · rw [slot fd hfd]
    · simp [hfd]
  · rfl

/-- What a step does to the messages in service. -/
inductive ServiceStep (s : State) (a : Action) (t : State) : Prop
  /-- Nothing. -/
  | quiet (action : ∀ m, a ≠ .recv (.data m)) (log : t.log = s.log)
      (service : ∀ qi, t.service qi = s.service qi)
  /-- A message is received. -/
  | arrive {fd : Nat} {events : List Nat} {c : ConnId} {m : Bytes}
      (pc : s.pc = .recving fd events) (action : a = .recv (.data m))
      (owner : s.fds (s.lastSlot fd).acc = some (.conn c))
      (fds : t.fds = s.fds) (interest : t.interest = s.interest) (next : t.next = s.next)
      (log : t.log = s.log ++ [.received c m])
      (own : t.service (queueIndex fd) =
        s.service (queueIndex fd) ++ [(.received, arrived s fd c m)])
      (others : ∀ qi, qi ≠ queueIndex fd → t.service qi = s.service qi)
  /-- A statement of `send_thread` is run. -/
  | work {qj : Fin maxSender} {delivered : Bool} {ph ph' : Phase} {f : QueueData → QueueData}
      {slot : QueueData} {rest : List (Phase × QueueData)}
      (stage : PhaseStage ph f ph') (action : a = .thread qj delivered)
      (fds : t.fds = s.fds) (interest : t.interest = s.interest) (next : t.next = s.next)
      (log : t.log = s.log)
      (before : s.service qj = (ph, slot) :: rest) (after : t.service qj = (ph', f slot) :: rest)
      (others : ∀ qi, qi ≠ qj → t.service qi = s.service qi)
  /-- A reply is sent. -/
  | leave {qj : Fin maxSender} {delivered : Bool} {slot : QueueData}
      {rest : List (Phase × QueueData)} (action : a = .thread qj delivered)
      (fds : t.fds = s.fds) (interest : t.interest = s.interest) (next : t.next = s.next)
      (log : t.log = s.log ++ sendSlot s.fds slot delivered)
      (before : s.service qj = (.measured, slot) :: rest) (after : t.service qj = rest)
      (others : ∀ qi, qi ≠ qj → t.service qi = s.service qi)

section Step

variable {k : Startup} {s t : State} {a : Action}

theorem service_eq_of_quiet (queues : t.queues = s.queues) (threads : t.threads = s.threads)
    (before : ∀ fd events, s.pc ≠ .recvd fd events) (after : ∀ fd events, t.pc ≠ .recvd fd events)
    (qi : Fin maxSender) : t.service qi = s.service qi := by
  rw [State.service, State.service, queues, threads, unpublished_of_pc before,
    unpublished_of_pc after]

/-- The slot that is being filled is not touched by a `send_thread`. -/
theorem unpublished_of_thread (ring : ∀ qi, RingInv (s.queues qi) (s.threads qi))
    (hstep : step k s a = some t) (thread : a.IsThread) (pc : t.pc = s.pc) (qi : Fin maxSender) :
    t.unpublished qi = s.unpublished qi := by
  refine unpublished_congr pc qi fun fd hfd => ?_
  exact (ring (queueIndex fd)).lastSlot_of_thread hstep thread

/-- Writing the slot at `last` shows in the service when the slot is received. -/
theorem service_setLastSlot (ring : ∀ qi, RingInv (s.queues qi) (s.threads qi)) (fd : Nat)
    (slot : QueueData) (before : ∀ fd events, s.pc ≠ .recvd fd events)
    (queues : t.queues = (s.setLastSlot fd slot).queues) (threads : t.threads = s.threads)
    (qi : Fin maxSender) :
    t.service qi = s.service qi ++ (t.unpublished qi).map (Prod.mk .received) := by
  rw [State.service, State.service, queues, threads, unpublished_of_pc before]
  have happend : ∀ (q : Queue) (filled : List QueueData), serviceOf q (s.threads qi) filled =
      serviceOf q (s.threads qi) [] ++ filled.map (Prod.mk .received) := by
    intro q filled
    simp [serviceOf]
  rw [happend]
  congr 1
  by_cases hqi : qi = queueIndex fd
  · subst hqi
    simp only [State.setLastSlot, State.setQueue, Function.update_self]
    exact (ring _).serviceOf_store slot []
  · simp only [State.setLastSlot, State.setQueue, Function.update_of_ne hqi]

/-- The service of a queue that the thread `qj` does not work for. -/
theorem service_of_other (ring : ∀ qi, RingInv (s.queues qi) (s.threads qi))
    (hstep : step k s a = some t) (thread : a.IsThread) (pc : t.pc = s.pc) {qi : Fin maxSender}
    (queue : t.queues qi = s.queues qi) (own : t.threads qi = s.threads qi) :
    t.service qi = s.service qi := by
  rw [State.service, State.service, queue, own, unpublished_of_thread ring hstep thread pc]

/-- Waking an idle thread up or sending it to sleep does nothing to the service. -/
theorem service_of_idle (ring : ∀ qi, RingInv (s.queues qi) (s.threads qi)) {qj : Fin maxSender}
    {p : SendPc} (hstep : step k s a = some (s.setThread qj p)) (thread : a.IsThread)
    (before : (s.threads qj).hand = none) (after : p.hand = none) (qi : Fin maxSender) :
    (s.setThread qj p).service qi = s.service qi := by
  rcases eq_or_ne qi qj with rfl | hqi
  · rw [State.service, State.service, unpublished_of_thread ring hstep thread rfl]
    simp only [State.setThread, Function.update_self]
    exact serviceOf_idle (.inr ⟨before, after⟩) _
  · exact service_of_other ring hstep thread rfl rfl (Function.update_of_ne hqi _ _)

/-- Publishing moves the received slot inside the service. -/
theorem service_publish {fd : Nat} {events : List Nat} (pc : s.pc = .recvd fd events)
    (got : ¬ ((s.lastSlot fd).len = -1 ∨ (s.lastSlot fd).len = 0))
    (ring : RingInv (s.queues (queueIndex fd)) (s.threads (queueIndex fd)))
    (room : Ring.depth maxQueueSz (s.queues (queueIndex fd)).front
      (s.queues (queueIndex fd)).last + 1 < maxQueueSz) (qi : Fin maxSender) :
    State.service { publish s (queueIndex fd) with pc := .batch events } qi = s.service qi := by
  rw [State.service, State.service, unpublished_of_pc (by simp)]
  rcases eq_or_ne qi (queueIndex fd) with rfl | hqi
  · have hfilled : s.unpublished (queueIndex fd) = [s.lastSlot fd] := by
      simp only [State.unpublished, pc, true_and]
      exact if_pos got
    rw [hfilled]
    simp only [publish, State.setQueue, State.setThread, Function.update_self]
    exact ring.serviceOf_publish room _
  · have hfilled : s.unpublished qi = [] := by
      simp only [State.unpublished, pc]
      exact if_neg fun hguard => hqi hguard.1.symm
    rw [hfilled]
    simp only [publish, State.setQueue, State.setThread, Function.update_of_ne hqi]

/-- A received message is the last one in service. -/
theorem service_arrived (ring : ∀ qi, RingInv (s.queues qi) (s.threads qi)) {fd : Nat}
    {events : List Nat} {c : ConnId} {m : Bytes} (before : s.pc = .recving fd events)
    (pos : 0 < m.length) (pc : t.pc = .recvd fd events)
    (queues : t.queues = (s.setLastSlot fd (arrived s fd c m)).queues)
    (threads : t.threads = s.threads) (qi : Fin maxSender) :
    t.service qi = s.service qi ++
      (if queueIndex fd = qi then [arrived s fd c m] else []).map (Prod.mk .received) := by
  have hlen : ¬ ((arrived s fd c m).len = -1 ∨ (arrived s fd c m).len = 0) := by
    simp only [arrived]
    omega
  have hslot : t.lastSlot fd = arrived s fd c m := by
    rw [State.lastSlot, queues]
    simp [State.setLastSlot, State.setQueue, Queue.setSlot]
  rw [service_setLastSlot ring fd _ (by simp [before]) queues threads qi, State.unpublished, pc]
  simp only [hslot, hlen, not_false_eq_true, and_true]

/-- Every step, a publishing one if there is room, does one of the four things to
the messages in service. -/
theorem serviceStep_of_step (ring : ∀ qi, RingInv (s.queues qi) (s.threads qi))
    (room : ∀ qi, s.Publishing a qi →
      Ring.depth maxQueueSz (s.queues qi).front (s.queues qi).last + 1 < maxQueueSz)
    (hstep : step k s a = some t) : ServiceStep s a t := by
  have hother := fun thread pc => @service_of_other k s t a ring hstep thread pc
  have hfilled := fun thread pc => unpublished_of_thread ring hstep thread pc
  have hquiet : (∀ m, a ≠ .recv (.data m)) → t.log = s.log → t.queues = s.queues →
      t.threads = s.threads → (∀ fd events, s.pc ≠ .recvd fd events) →
      (∀ fd events, t.pc ≠ .recvd fd events) → ServiceStep s a t :=
    fun action log queues threads before after =>
      .quiet action log (service_eq_of_quiet queues threads before after)
  cases move_of_step hstep with
  | epollWait pc => exact hquiet (by simp) rfl rfl rfl (by simp [pc]) (by simp)
  | acceptFails pc => exact hquiet (by simp) rfl rfl rfl (by simp [pc]) (by simp)
  | accepts pc => exact hquiet (by simp) rfl rfl rfl (by simp [pc]) (by simp)
  | refuses pc => exact hquiet (by simp) rfl rfl rfl (by simp [pc]) (by simp)
  | registers pc => exact hquiet (by simp) rfl rfl rfl (by simp [pc]) (by simp)
  | registerFails pc => exact hquiet (by simp) rfl rfl rfl (by simp [pc]) (by simp)
  | closes pc => exact hquiet (by simp) rfl rfl rfl (by simp [pc]) (by simp)
  | @storesAcc fd events pc =>
      refine .quiet (by simp) rfl fun qi => ?_
      refine Eq.trans (service_setLastSlot ring fd { s.lastSlot fd with acc := fd } (by simp [pc])
        ?_ ?_ qi) ?_
      · rfl
      · rfl
      · rw [unpublished_of_pc (by simp)]
        exact List.append_nil _
  | @recvEnds fd events answer len pc ended =>
      refine .quiet (by rcases ended with ⟨rfl, -⟩ | ⟨rfl, -⟩ <;> simp) rfl fun qi => ?_
      have hlen : len = -1 ∨ len = 0 := ended.imp And.right And.right
      refine Eq.trans (service_setLastSlot ring fd { s.lastSlot fd with len := len } (by simp [pc])
        ?_ ?_ qi) ?_
      · rfl
      · rfl
      · simp [State.unpublished, State.lastSlot, State.setLastSlot, State.setQueue, Queue.setSlot,
          hlen]
  | @recvs fd events c m pc owner pos le =>
      have hservice := service_arrived (t := { s.setLastSlot fd (arrived s fd c m) with
        pc := .recvd fd events, log := s.log ++ [.received c m] }) ring pc pos rfl rfl rfl
      refine .arrive pc rfl owner rfl rfl rfl rfl ?_ fun qi hqi => ?_
      · exact (hservice (queueIndex fd)).trans (by rw [if_pos rfl]; rfl)
      · refine (hservice qi).trans ?_
        rw [if_neg fun heq => hqi heq.symm]
        exact List.append_nil _
  | deregisters pc ended =>
      refine .quiet (by simp) rfl fun qi => ?_
      rw [State.service, State.service, unpublished_of_pc (by simp)]
      simp [State.unpublished, pc, ended]
  | deregisterFails pc ended =>
      refine .quiet (by simp) rfl fun qi => ?_
      rw [State.service, State.service, unpublished_of_pc (by simp)]
      simp [State.unpublished, pc, ended]
  | @publishes fd events pc got =>
      have hroom := room _ ⟨rfl, fd, events, pc, rfl, got⟩
      exact .quiet (by simp) rfl (service_publish pc got (ring _) hroom)
  | @dequeues qj delivered pc nonempty =>
      refine .quiet (by simp) rfl fun qi => ?_
      rcases eq_or_ne qi qj with rfl | hqi
      · rw [State.service, State.service, hfilled trivial rfl]
        simp only [State.setQueue, State.setThread, Function.update_self]
        exact (ring qi).serviceOf_dequeue (by rw [pc]; rfl) nonempty _ _
      · exact hother trivial rfl (Function.update_of_ne hqi _ _) (Function.update_of_ne hqi _ _)
  | waits pc =>
      exact .quiet (by simp) rfl (service_of_idle ring hstep trivial (by rw [pc]; rfl) rfl)
  | resumes pc =>
      exact .quiet (by simp) rfl (service_of_idle ring hstep trivial (by rw [pc]; rfl) rfl)
  | wakesUp pc =>
      exact .quiet (by simp) rfl (service_of_idle ring hstep trivial (by rw [pc]; rfl) rfl)
  | @formats qj delivered i f next stage =>
      obtain ⟨slot, rest, before, after⟩ := (ring qj).serviceOf_format stage (s.unpublished qj)
      refine .work stage.phases rfl rfl rfl rfl rfl before ?_ fun qi hqi => ?_
      · rw [State.service, hfilled trivial rfl]
        simp only [onSlot, State.setQueue, State.setThread, Function.update_self]
        exact after
      · exact hother trivial rfl (Function.update_of_ne hqi _ _) (Function.update_of_ne hqi _ _)
  | @replies qj delivered i pc =>
      refine .leave rfl rfl rfl rfl rfl (serviceOf_reply pc (s.unpublished qj)) ?_ fun qi hqi => ?_
      · rw [State.service, hfilled trivial rfl]
        simp only [State.setThread, Function.update_self]
      · exact hother trivial rfl rfl (Function.update_of_ne hqi _ _)

end Step

end NetworkProgram.Server9
