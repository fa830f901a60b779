import Mathlib.Data.List.Perm.Subperm
import NetworkProgram.Server9.Clients
import NetworkProgram.Server9.Crossing

set_option autoImplicit false

/-!
# Server9: one exchange at a time

The invariant of the server with its test clients.  A connection is either
settled, every message received on it answered, or exactly one slot in service
is its last message, on the way to its reply, and its client waits for it.  Since
each slot in service belongs to another registered descriptor, a queue never has
more than `MAX_CHILD - 1` of them, which is the room the ring needs.
-/

namespace NetworkProgram.Server9

open NetworkProgram.Foundation
open NetworkProgram.Kernel
open NetworkProgram.Libc

/-! ## The contents of a slot on the way to its reply -/

/-- What the slot of the message `line ++ "\n"` holds after each statement of
`send_thread`. -/
def Content (line : Bytes) (slot : QueueData) : Phase → Prop
  | .received => (∃ rest, slot.buf = line ++ lf :: rest) ∧ slot.len = (line.length + 1 : Nat)
  | .terminated => ∃ rest, slot.buf = line ++ lf :: rest
  | .cut => cstr slot.buf = line
  | .appended => cstr slot.buf = okReply line
  | .measured => slot.buf.take slot.len.toNat = okReply line

theorem visible_line {line : Bytes} (text : Line line) (rest : Bytes) :
    visible (line ++ lf :: rest) = line :=
  (visible_append_of_stop (.inr (.inr rfl))).trans (visible_eq_self text.2)

/-- Each statement turns the contents of its phase into those of the next. -/
theorem Content.stage {line : Bytes} {slot : QueueData} {ph ph' : Phase}
    {f : QueueData → QueueData} (h : Content line slot ph) (stage : PhaseStage ph f ph')
    (text : Line line) (size : slot.buf.length = bufSize) : Content line (f slot) ph' := by
  cases stage with
  | terminate =>
      obtain ⟨⟨rest, hbuf⟩, hlen⟩ := h
      refine ⟨rest.set 0 0, ?_⟩
      have hpos : 0 ≤ slot.len := by omega
      have hnat : slot.len.toNat = line.length + 1 := by omega
      simp only [terminateSlot, if_pos hpos, hnat, hbuf]
      rw [List.set_append_right _ _ (by omega), Nat.add_sub_cancel_left]
      rfl
  | cut =>
      obtain ⟨rest, hbuf⟩ := h
      change cstr (cutLine slot.buf) = line
      rw [cstr_cutLine, hbuf, visible_line text]
  | append =>
      have hstr : cstr slot.buf = line := h
      have hlen : strlen slot.buf = line.length := congrArg List.length hstr
      have hmax := text.1
      have htail : okTail.length = 5 := rfl
      change cstr (mystrlcat slot.buf okTail bufSize).1 = okReply line
      rw [cstr_mystrlcat (by decide) _ (Nat.le_of_eq size.symm), hstr, okReply]
      rw [hlen, htail, bufSize]
      rw [maxLine] at hmax
      omega
  | measure =>
      have hstr : cstr slot.buf = okReply line := h
      change slot.buf.take (Int.toNat (strlen slot.buf)) = okReply line
      rw [Int.toNat_natCast, take_strlen, hstr]

/-- Every statement of the server keeps the buffers at their size. -/
theorem PhaseStage.length_buf {ph ph' : Phase} {f : QueueData → QueueData}
    (stage : PhaseStage ph f ph') (slot : QueueData) :
    (f slot).buf.length = slot.buf.length := by
  cases stage with
  | terminate =>
      rw [terminateSlot]
      dsimp only
      split
      · exact List.length_set
      · rfl
  | cut => exact length_cutAt _ _
  | append => exact length_mystrlcat _ _ _
  | measure => rfl

/-- All buffers have their declared size. -/
def Sized (s : State) : Prop :=
  ∀ qi i, ((s.queues qi).data i).buf.length = bufSize

theorem sized_init (k : Startup) : Sized (init k) := fun _ _ => List.length_replicate

theorem sized_setSlot {q : Queue} (h : ∀ i, (q.data i).buf.length = bufSize) (j : Nat)
    {slot : QueueData} (size : slot.buf.length = bufSize) (i : Nat) :
    ((q.setSlot j slot).data i).buf.length = bufSize := by
  by_cases hi : i = j
  · subst hi
    simpa only [Queue.setSlot, Function.update_self] using size
  · simpa only [Queue.setSlot, Function.update_of_ne hi] using h i

theorem Sized.setQueue {s : State} (h : Sized s) (qj : Fin maxSender) {q : Queue}
    (size : ∀ i, (q.data i).buf.length = bufSize) : Sized (s.setQueue qj q) := by
  intro qi i
  by_cases hqi : qi = qj
  · subst hqi
    simpa only [State.setQueue, Function.update_self] using size i
  · simpa only [State.setQueue, Function.update_of_ne hqi] using h qi i

theorem Sized.step {k : Startup} {s t : State} {a : Action} (h : Sized s)
    (hstep : step k s a = some t) : Sized t := by
  have hset : ∀ qj j slot, slot.buf.length = bufSize →
      Sized (s.setQueue qj ((s.queues qj).setSlot j slot)) := fun qj j _ size =>
    h.setQueue qj (sized_setSlot (h qj) j size)
  cases move_of_step hstep with
  | @storesAcc fd => exact hset (queueIndex fd) _ _ (h (queueIndex fd) _)
  | @recvEnds fd => exact hset (queueIndex fd) _ _ (h (queueIndex fd) _)
  | @recvs fd _ _ m _ _ _ le =>
      refine hset (queueIndex fd) _ _ ?_
      have hslot : (s.lastSlot fd).buf.length = bufSize := h _ _
      simp only [List.length_append, List.length_drop, hslot]
      omega
  | publishes => exact h.setQueue _ (h _)
  | dequeues => exact h.setQueue _ (h _)
  | @formats qi _ i _ _ stage =>
      refine hset qi i _ ?_
      rw [stage.phases.length_buf]
      exact h qi i
  | _ => exact h

/-! ## The invariant -/

/-- The message in the slot is the last one of its connection, and the client
waits for its reply. -/
structure Owed (y : System) (qi : Fin maxSender) (entry : Phase × QueueData) : Prop where
  queue : queueIndex entry.2.acc = qi
  registered : entry.2.acc ∈ y.server.interest
  owner : y.server.fds entry.2.acc = some (.conn entry.2.src)
  waiting : y.clients entry.2.src = .waiting
  size : entry.2.buf.length = bufSize
  exchange : ∃ earlier line, Line line ∧
    receivedOn y.server.log entry.2.src = earlier ++ [line ++ [lf]] ∧
    repliedOn y.server.log entry.2.src = earlier.map expectedReply ∧
    y.read entry.2.src = earlier.length ∧ Content line entry.2 entry.1

/-- Every message of the connection is answered; a client that waits has one
reply left to read. -/
structure Settled (y : System) (c : ConnId) : Prop where
  replied : repliedOn y.server.log c = (receivedOn y.server.log c).map expectedReply
  read : y.read c + (if y.clients c = .waiting then 1 else 0) = (repliedOn y.server.log c).length

def InService (s : State) (c : ConnId) : Prop :=
  ∃ qi, ∃ entry ∈ s.service qi, entry.2.src = c

/-- `recv` fails, or ends, only on connections their clients have closed. -/
def Ended (y : System) : Prop :=
  match y.server.pc with
  | .recvd fd _ =>
      (y.server.lastSlot fd).len = -1 ∨ (y.server.lastSlot fd).len = 0 →
        ∃ c, y.server.fds fd = some (.conn c) ∧ y.clients c = .closed
  | _ => True

/-- No wake-up is lost: a thread sleeps only on an empty queue. -/
def Idle (s : State) : Prop :=
  ∀ qi, s.threads qi = .waiting → (s.queues qi).last = (s.queues qi).front

/-- What clients send, and have sent, are lines. -/
structure Lines (y : System) : Prop where
  sent : ∀ c line, y.clients c = .sent line → Line line
  received : ∀ c, ∀ m ∈ receivedOn y.server.log c, ∃ line, Line line ∧ m = line ++ [lf]

/-- Every slot in service is owed a reply, each to another connection, and every
other connection is settled. -/
structure Exchanging (y : System) : Prop where
  owed : ∀ qi, ∀ entry ∈ y.server.service qi, Owed y qi entry
  distinct : ∀ qi, ((y.server.service qi).map fun entry => entry.2.acc).Nodup
  standing : ∀ c, Settled y c ∨ InService y.server c

structure SystemInv (k : Startup) (y : System) : Prop where
  desc : DescInv k y.server
  ring : ∀ qi, RingInv (y.server.queues qi) (y.server.threads qi)
  sized : Sized y.server
  idle : Idle y.server
  ended : Ended y
  lines : Lines y
  right : RightConnection y.server.log
  exchanging : Exchanging y

theorem service_init (k : Startup) (qi : Fin maxSender) : (init k).service qi = [] := by
  have hnil : Ring.contents maxQueueSz Queue.zero.front Queue.zero.last Queue.zero.data = [] :=
    (Ring.contents_eq_nil_iff (by decide) (by decide)).mpr rfl
  simp [State.service, serviceOf, handEntry, init, SendPc.hand, State.unpublished, hnil]

theorem systemInv_init (k : Startup) : SystemInv k (.init k) where
  desc := descInv_init k
  ring := fun _ => ringInv_zero
  sized := sized_init k
  idle := fun _ h => by cases h
  ended := trivial
  lines := ⟨by simp [System.init], fun _ _ h => absurd h List.not_mem_nil⟩
  right := fun _ _ _ h => absurd h List.not_mem_nil
  exchanging := by
    refine ⟨fun qi entry h => ?_, fun qi => ?_, fun _ => .inl ⟨rfl, rfl⟩⟩
    · rw [System.init, service_init] at h
      exact absurd h List.not_mem_nil
    · rw [System.init, service_init]
      exact List.nodup_nil

/-! ## The size of the service -/

theorem length_service (s : State) (qi : Fin maxSender) :
    (s.service qi).length = s.outstanding qi + (s.unpublished qi).length := by
  rw [outstanding_eq]
  simp only [State.service, serviceOf, handEntry, List.length_append, List.length_map,
    Ring.length_contents, Option.length_toList, Option.isSome_map]
  omega

/-- The slots in service belong to different registered descriptors. -/
theorem SystemInv.length_service_le {k : Startup} {y : System} (h : SystemInv k y)
    (qi : Fin maxSender) : (y.server.service qi).length ≤ y.server.interest.length := by
  have hsub : ((y.server.service qi).map fun entry => entry.2.acc) ⊆ y.server.interest := by
    intro fd hfd
    obtain ⟨entry, hentry, rfl⟩ := List.mem_map.mp hfd
    exact (h.exchanging.owed qi entry hentry).registered
  simpa using ((h.exchanging.distinct qi).subperm hsub).length_le

/-- Every publishing step finds room. -/
theorem SystemInv.room {k : Startup} {y : System} (h : SystemInv k y) {a : Action}
    {qi : Fin maxSender} (pub : y.server.Publishing a qi) :
    y.server.outstanding qi + 1 < maxChild := by
  obtain ⟨-, fd, events, pc, rfl, got⟩ := pub
  have hone : (y.server.unpublished (queueIndex fd)).length = 1 := by
    simp only [State.unpublished, pc, true_and]
    rw [if_pos got]
    rfl
  have hlen := length_service y.server (queueIndex fd)
  have hle := h.length_service_le (queueIndex fd)
  have hsize := h.desc.size
  omega

/-- The room, in the terms of the ring. -/
theorem SystemInv.ring_room {k : Startup} {y : System} (h : SystemInv k y) {a : Action}
    {qi : Fin maxSender} (pub : y.server.Publishing a qi) :
    Ring.depth maxQueueSz (y.server.queues qi).front (y.server.queues qi).last +
      (y.server.threads qi).hand.toList.length < maxQueueSz - 1 := by
  have hroom := h.room pub
  rw [outstanding_eq] at hroom
  have hsize : maxChild < maxQueueSz := by decide
  omega

/-! ## What a step leaves alone -/

section Server

variable {k : Startup} {s t : State} {a : Action}

/-- A registered descriptor stays registered and keeps its connection, unless the
step acts on its end. -/
theorem kept_of_step (h : DescInv k s) (hstep : step k s a = some t) {d : Nat}
    (hd : d ∈ s.interest) :
    d ∈ t.interest ∧ t.fds d = s.fds d ∨
      ∃ events, s.pc = .recvd d events ∧ ((s.lastSlot d).len = -1 ∨ (s.lastSlot d).len = 0) := by
  obtain ⟨c, hc⟩ := h.registered d hd
  have hplaced := h.placed
  have hother : ∀ {e : Nat}, e ∉ s.interest → Function.update s.fds e none d = s.fds d := by
    intro e he
    refine Function.update_of_ne ?_ _ _
    rintro rfl
    exact he hd
  cases move_of_step hstep with
  | accepts _ free =>
      refine .inl ⟨hd, Function.update_of_ne ?_ _ _⟩
      rintro rfl
      cases free.1.symm.trans hc
  | refuses pc new =>
      obtain ⟨-, -, hacc, -⟩ := h.accepted pc new
      exact .inl ⟨hd, hother hacc⟩
  | registers => exact .inl ⟨List.mem_cons_of_mem _ hd, rfl⟩
  | registerFails pc new =>
      obtain ⟨-, -, hacc, -⟩ := h.accepted pc new
      refine .inl ⟨hd, (Function.update_of_ne ?_ _ _).trans (hother hacc)⟩
      rintro rfl
      cases (h.epollfd (by simp [pc])).symm.trans hc
  | @deregisters fd events pc ended mem =>
      rcases eq_or_ne d fd with rfl | hne
      · exact .inr ⟨events, pc, ended⟩
      · exact .inl ⟨(List.mem_erase_of_ne hne).mpr hd, rfl⟩
  | deregisterFails pc ended mem =>
      simp only [Placed, pc] at hplaced
      exact absurd hplaced.2.2.1 mem
  | closes pc =>
      simp only [Placed, pc] at hplaced
      exact .inl ⟨hd, hother hplaced.2.2.1⟩
  | _ => exact .inl ⟨hd, rfl⟩

theorem QueueMove.idle {storing publishing turn : Prop} {q q' : Queue} {p p' : SendPc}
    (move : QueueMove storing publishing turn q p q' p') (h : p = .waiting → q.last = q.front) :
    p' = .waiting → q'.last = q'.front := by
  intro hp
  cases move with
  | stay idle =>
      cases idle with
      | same => exact h hp
      | sleeps _ empty => exact empty
      | resumes => cases hp
      | wakes => cases hp
  | store _ slot => exact h hp
  | publish => exact absurd hp (signal_ne_waiting p)
  | dequeue => cases hp
  | format _ stage =>
      have hhand := stage.hand_eq.2
      rw [hp] at hhand
      cases hhand
  | reply => cases hp

theorem Idle.step (h : Idle s) (hstep : step k s a = some t) : Idle t :=
  fun qi => (queueMove_of_step hstep qi).idle (h qi)

end Server

end NetworkProgram.Server9
