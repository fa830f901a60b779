import Mathlib.Data.List.Nodup
import NetworkProgram.Server9.Exchanges

set_option autoImplicit false

/-!
# Server9: the exchanges are kept by every step

Each step of the server and of the clients keeps the invariant of `Exchanges`:
`send_thread` only ever answers the message its slot was received with, to the
client that waits for it, and `accept_loop` only ever closes a connection that
has no message in service.
-/

namespace NetworkProgram.Server9

open NetworkProgram.Foundation
open NetworkProgram.Kernel
open NetworkProgram.Libc

/-- Nothing happened on the connection. -/
structure Untouched (y z : System) (c : ConnId) : Prop where
  client : z.clients c = y.clients c
  read : z.read c = y.read c
  received : receivedOn z.server.log c = receivedOn y.server.log c
  replied : repliedOn z.server.log c = repliedOn y.server.log c

theorem Owed.keep {y z : System} {qi : Fin maxSender} {entry : Phase × QueueData}
    (h : Owed y qi entry) (registered : entry.2.acc ∈ z.server.interest)
    (fds : z.server.fds entry.2.acc = y.server.fds entry.2.acc)
    (same : Untouched y z entry.2.src) : Owed z qi entry := by
  refine ⟨h.queue, registered, fds.trans h.owner, same.client.trans h.waiting, h.size, ?_⟩
  rw [same.received, same.replied, same.read]
  exact h.exchange

theorem Settled.keep {y z : System} {c : ConnId} (h : Settled y c) (same : Untouched y z c) :
    Settled z c := by
  refine ⟨?_, ?_⟩
  · rw [same.replied, same.received]
    exact h.replied
  · rw [same.client, same.read, same.replied]
    exact h.read

/-- An exchange stands where the statement of its slot has left it. -/
theorem Owed.work {y : System} {qi : Fin maxSender} {ph ph' : Phase} {slot : QueueData}
    {f : QueueData → QueueData} (h : Owed y qi (ph, slot)) (stage : PhaseStage ph f ph') :
    Owed y qi (ph', f slot) := by
  obtain ⟨hacc, hsrc⟩ := stage.fields slot
  obtain ⟨earlier, line, text, received, replied, read, content⟩ := h.exchange
  refine ⟨?_, ?_, ?_, ?_, ?_, earlier, line, text, ?_, ?_, ?_, ?_⟩
  all_goals dsimp only
  · rw [hacc]; exact h.queue
  · rw [hacc]; exact h.registered
  · rw [hacc, hsrc]; exact h.owner
  · rw [hsrc]; exact h.waiting
  · rw [stage.length_buf]; exact h.size
  · rw [hsrc]; exact received
  · rw [hsrc]; exact replied
  · rw [hsrc]; exact read
  · exact content.stage stage text h.size

/-- The reply that `send` puts on the connection. -/
theorem Owed.sendSlot {y : System} {qi : Fin maxSender} {slot : QueueData}
    (h : Owed y qi (.measured, slot)) :
    ∃ earlier m, receivedOn y.server.log slot.src = earlier ++ [m] ∧
      repliedOn y.server.log slot.src = earlier.map expectedReply ∧
      y.read slot.src = earlier.length ∧
      sendSlot y.server.fds slot true = [.replied slot.src slot.src (expectedReply m)] := by
  obtain ⟨earlier, line, -, received, replied, read, content⟩ := h.exchange
  refine ⟨earlier, line ++ [lf], received, replied, read, ?_⟩
  have howner : y.server.fds slot.acc = some (.conn slot.src) := h.owner
  have hcontent : slot.buf.take slot.len.toNat = okReply line := content
  simp only [Server9.sendSlot, howner, hcontent, if_true, expectedReply, List.dropLast_concat]

/-- A client that does not wait has no message in service. -/
theorem Exchanging.settled {y : System} (h : Exchanging y) {c : ConnId}
    (idle : y.clients c ≠ .waiting) : Settled y c := by
  rcases h.standing c with hsettled | ⟨qi, entry, hentry, rfl⟩
  · exact hsettled
  · exact absurd (h.owed qi entry hentry).waiting idle

/-! ## What a step does to the exchanges -/

/-- The slots in service keep their descriptors. -/
def Kept (y z : System) : Prop :=
  ∀ qi, ∀ entry ∈ y.server.service qi, entry.2.acc ∈ z.server.interest ∧
    z.server.fds entry.2.acc = y.server.fds entry.2.acc

section Exchanging

variable {y z : System} (h : Exchanging y) (kept : Kept y z)
include h kept

theorem Exchanging.quiet (same : ∀ c, Untouched y z c)
    (service : ∀ qi, z.server.service qi = y.server.service qi) : Exchanging z := by
  refine ⟨fun qi entry hentry => ?_, fun qi => service qi ▸ h.distinct qi, fun c => ?_⟩
  · rw [service] at hentry
    obtain ⟨hreg, hfds⟩ := kept qi entry hentry
    exact (h.owed qi entry hentry).keep hreg hfds (same _)
  · refine (h.standing c).imp (fun hs => hs.keep (same c)) ?_
    rintro ⟨qi, entry, hentry, hsrc⟩
    exact ⟨qi, entry, (service qi).symm ▸ hentry, hsrc⟩

theorem Exchanging.work (same : ∀ c, Untouched y z c) {qj : Fin maxSender} {ph ph' : Phase}
    {f : QueueData → QueueData} {slot : QueueData} {rest : List (Phase × QueueData)}
    (stage : PhaseStage ph f ph') (before : y.server.service qj = (ph, slot) :: rest)
    (after : z.server.service qj = (ph', f slot) :: rest)
    (others : ∀ qi, qi ≠ qj → z.server.service qi = y.server.service qi) : Exchanging z := by
  obtain ⟨hacc, hsrc⟩ := stage.fields slot
  refine ⟨fun qi entry hentry => ?_, fun qi => ?_, fun c => ?_⟩
  · rcases eq_or_ne qi qj with rfl | hne
    · rw [after] at hentry
      rcases List.mem_cons.mp hentry with rfl | hrest
      · have hhead : (ph, slot) ∈ y.server.service qi := before ▸ List.mem_cons_self
        obtain ⟨hreg, hfds⟩ := kept qi _ hhead
        exact ((h.owed qi _ hhead).work stage).keep (hacc.symm ▸ hreg) (hacc.symm ▸ hfds) (same _)
      · have hmem : entry ∈ y.server.service qi := before ▸ List.mem_cons_of_mem _ hrest
        obtain ⟨hreg, hfds⟩ := kept qi entry hmem
        exact (h.owed qi entry hmem).keep hreg hfds (same _)
    · rw [others qi hne] at hentry
      obtain ⟨hreg, hfds⟩ := kept qi entry hentry
      exact (h.owed qi entry hentry).keep hreg hfds (same _)
  · rcases eq_or_ne qi qj with rfl | hne
    · have hdistinct := h.distinct qi
      rw [before] at hdistinct
      rw [after]
      simpa only [List.map_cons, hacc] using hdistinct
    · rw [others qi hne]
      exact h.distinct qi
  · refine (h.standing c).imp (fun hs => hs.keep (same c)) ?_
    rintro ⟨qi, entry, hentry, rfl⟩
    rcases eq_or_ne qi qj with rfl | hne
    · rw [before] at hentry
      rcases List.mem_cons.mp hentry with rfl | hrest
      · exact ⟨qi, (ph', f slot), after.symm ▸ List.mem_cons_self, hsrc⟩
      · exact ⟨qi, entry, after.symm ▸ List.mem_cons_of_mem _ hrest, rfl⟩
    · exact ⟨qi, entry, (others qi hne).symm ▸ hentry, rfl⟩

/-- The reply settles its connection. -/
theorem Exchanging.leave (injective : Table.ConnInjective y.server.fds) {qj : Fin maxSender}
    {slot : QueueData} {rest : List (Phase × QueueData)}
    (before : y.server.service qj = (.measured, slot) :: rest)
    (after : z.server.service qj = rest)
    (others : ∀ qi, qi ≠ qj → z.server.service qi = y.server.service qi)
    (same : ∀ c, c ≠ slot.src → Untouched y z c) (settled : Settled z slot.src) :
    Exchanging z := by
  have hhead : (Phase.measured, slot) ∈ y.server.service qj := before ▸ List.mem_cons_self
  have hacc : ∀ qi, ∀ entry ∈ y.server.service qi, entry.2.src = slot.src →
      entry.2.acc = slot.acc := fun qi entry hentry hsrc =>
    injective _ _ _ (h.owed qi entry hentry).owner (hsrc ▸ (h.owed qj _ hhead).owner)
  have hdistinct := h.distinct qj
  rw [before, List.map_cons, List.nodup_cons] at hdistinct
  -- What is still in service was in service, for another connection.
  have hstill : ∀ qi, ∀ entry ∈ z.server.service qi,
      entry ∈ y.server.service qi ∧ entry.2.src ≠ slot.src := by
    intro qi entry hentry
    rcases eq_or_ne qi qj with rfl | hne
    · rw [after] at hentry
      have hmem : entry ∈ y.server.service qi := before ▸ List.mem_cons_of_mem _ hentry
      exact ⟨hmem, fun heq =>
        hdistinct.1 (List.mem_map.mpr ⟨entry, hentry, hacc qi entry hmem heq⟩)⟩
    · rw [others qi hne] at hentry
      refine ⟨hentry, fun heq => hne ?_⟩
      rw [← (h.owed qi entry hentry).queue, hacc qi entry hentry heq]
      exact (h.owed qj _ hhead).queue
  refine ⟨fun qi entry hentry => ?_, fun qi => ?_, fun c => ?_⟩
  · obtain ⟨hmem, hsrc⟩ := hstill qi entry hentry
    obtain ⟨hreg, hfds⟩ := kept qi entry hmem
    exact (h.owed qi entry hmem).keep hreg hfds (same _ hsrc)
  · rcases eq_or_ne qi qj with rfl | hne
    · rw [after]
      exact hdistinct.2
    · rw [others qi hne]
      exact h.distinct qi
  · rcases eq_or_ne c slot.src with rfl | hc
    · exact .inl settled
    · refine (h.standing c).imp (fun hs => hs.keep (same c hc)) ?_
      rintro ⟨qi, entry, hentry, rfl⟩
      rcases eq_or_ne qi qj with rfl | hne
      · rw [before] at hentry
        rcases List.mem_cons.mp hentry with rfl | hrest
        · exact absurd rfl hc
        · exact ⟨qi, entry, after.symm ▸ hrest, rfl⟩
      · exact ⟨qi, entry, (others qi hne).symm ▸ hentry, rfl⟩

/-- A message received on a settled connection starts an exchange. -/
theorem Exchanging.arrive {slot : QueueData} (idle : y.clients slot.src ≠ .waiting)
    (owner : y.server.fds slot.acc = some (.conn slot.src))
    (own : z.server.service (queueIndex slot.acc) =
      y.server.service (queueIndex slot.acc) ++ [(.received, slot)])
    (others : ∀ qi, qi ≠ queueIndex slot.acc → z.server.service qi = y.server.service qi)
    (same : ∀ c, c ≠ slot.src → Untouched y z c)
    (owed : Owed z (queueIndex slot.acc) (.received, slot)) : Exchanging z := by
  have hsrc : ∀ qi, ∀ entry ∈ y.server.service qi, entry.2.src ≠ slot.src := by
    intro qi entry hentry heq
    exact idle (heq ▸ (h.owed qi entry hentry).waiting)
  have hkeep : ∀ qi, ∀ entry ∈ y.server.service qi, Owed z qi entry := by
    intro qi entry hentry
    obtain ⟨hreg, hfds⟩ := kept qi entry hentry
    exact (h.owed qi entry hentry).keep hreg hfds (same _ (hsrc qi entry hentry))
  refine ⟨fun qi entry hentry => ?_, fun qi => ?_, fun c => ?_⟩
  · rcases eq_or_ne qi (queueIndex slot.acc) with rfl | hne
    · rw [own] at hentry
      rcases List.mem_append.mp hentry with hentry | hentry
      · exact hkeep _ entry hentry
      · rw [List.mem_singleton.mp hentry]
        exact owed
    · rw [others qi hne] at hentry
      exact hkeep qi entry hentry
  · rcases eq_or_ne qi (queueIndex slot.acc) with rfl | hne
    · rw [own, List.map_append, List.map_singleton]
      refine List.nodup_append.mpr ⟨h.distinct _, List.nodup_singleton _, ?_⟩
      intro fd hfd fd' hfd' heq
      obtain ⟨entry, hentry, rfl⟩ := List.mem_map.mp hfd
      rw [List.mem_singleton.mp hfd'] at heq
      have howner := (h.owed _ entry hentry).owner
      rw [heq, owner, Option.some.injEq, Desc.conn.injEq] at howner
      exact hsrc _ entry hentry howner.symm
    · rw [others qi hne]
      exact h.distinct qi
  · rcases eq_or_ne c slot.src with rfl | hc
    · exact .inr ⟨_, _, own.symm ▸ List.mem_append_right _ List.mem_cons_self, rfl⟩
    · refine (h.standing c).imp (fun hs => hs.keep (same c hc)) ?_
      rintro ⟨qi, entry, hentry, rfl⟩
      rcases eq_or_ne qi (queueIndex slot.acc) with rfl | hne
      · exact ⟨_, entry, own.symm ▸ List.mem_append_left _ hentry, rfl⟩
      · exact ⟨qi, entry, (others qi hne).symm ▸ hentry, rfl⟩

end Exchanging

/-- A client moves on; its connection was settled and still is. -/
theorem Exchanging.client {y z : System} (h : Exchanging y) {c : ConnId}
    (server : z.server = y.server) (settled : Settled z c)
    (apart : ∀ qi, ∀ entry ∈ y.server.service qi, entry.2.src ≠ c)
    (same : ∀ d, d ≠ c → Untouched y z d) : Exchanging z := by
  refine ⟨fun qi entry hentry => ?_, fun qi => server ▸ h.distinct qi, fun d => ?_⟩
  · rw [server] at hentry
    have howed := h.owed qi entry hentry
    exact howed.keep (server ▸ howed.registered) (by rw [server]) (same _ (apart qi entry hentry))
  · rcases eq_or_ne d c with rfl | hd
    · exact .inl settled
    · exact (h.standing d).imp (fun hs => hs.keep (same d hd)) fun hs => server ▸ hs

/-- A line received on a settled connection is owed a reply. -/
theorem Settled.owed {y : System} {t : State} {fd : Nat} {c : ConnId} {line : Bytes}
    (h : Settled y c) (idle : y.clients c ≠ .waiting) (text : Line line)
    (size : (y.server.lastSlot fd).buf.length = bufSize)
    (registered : (y.server.lastSlot fd).acc ∈ t.interest)
    (owner : t.fds (y.server.lastSlot fd).acc = some (.conn c))
    (log : t.log = y.server.log ++ [.received c (line ++ [lf])]) :
    Owed { y.setClient c .waiting with server := t }
      (queueIndex (arrived y.server fd c (line ++ [lf])).acc)
      (.received, arrived y.server fd c (line ++ [lf])) := by
  refine ⟨rfl, registered, owner, Function.update_self _ _ _, ?_,
    receivedOn y.server.log c, line, text, ?_, ?_, ?_, ?_⟩
  · have hmax := text.1
    simp only [arrived, List.length_append, List.length_drop, List.length_singleton, size]
    rw [maxLine] at hmax
    rw [bufSize]
    omega
  · simp only [log, receivedOn_append, receivedOn_received]
    exact congrArg _ (if_pos rfl)
  · refine Eq.trans ?_ h.replied
    simp only [log, repliedOn_append, repliedOn_received, List.append_nil]
    rfl
  · have hread := h.read
    rw [if_neg idle, h.replied, List.length_map] at hread
    exact hread
  · refine ⟨⟨(y.server.lastSlot fd).buf.drop (line ++ [lf]).length, ?_⟩, ?_⟩
    · simp [arrived]
    · simp [arrived]

/-- Lines stay lines when another one is received. -/
theorem Lines.received_line {y : System} {t : State} {c : ConnId} {line : Bytes} (h : Lines y)
    (text : Line line) (log : t.log = y.server.log ++ [.received c (line ++ [lf])]) :
    Lines { y.setClient c .waiting with server := t } := by
  refine ⟨fun d line' hsent => ?_, fun d m hm => ?_⟩
  · rcases eq_or_ne d c with rfl | hd
    · have hself : Function.update y.clients d .waiting d = .sent line' := hsent
      rw [Function.update_self] at hself
      cases hself
    · exact h.sent d line' ((Function.update_of_ne hd _ _).symm.trans hsent)
  · simp only [log, receivedOn_append, receivedOn_received] at hm
    rcases List.mem_append.mp hm with hm | hm
    · exact h.received d m hm
    · split at hm
      · exact ⟨line, text, List.mem_singleton.mp hm⟩
      · exact absurd hm List.not_mem_nil

/-! ## The steps of the server -/

section Serve

variable {k : Startup} {y : System} {t : State} {a : Action}
variable (h : SystemInv k y) (hstep : step k y.server a = some t)
include h hstep

/-- The descriptors of the slots in service are neither deregistered nor closed. -/
theorem SystemInv.kept {qi : Fin maxSender} {entry : Phase × QueueData}
    (hentry : entry ∈ y.server.service qi) :
    entry.2.acc ∈ t.interest ∧ t.fds entry.2.acc = y.server.fds entry.2.acc := by
  have howed := h.exchanging.owed qi entry hentry
  rcases kept_of_step h.desc hstep howed.registered with hkept | ⟨events, pc, hends⟩
  · exact hkept
  · have hended := h.ended
    simp only [Ended, pc] at hended
    obtain ⟨c, hc, hclosed⟩ := hended hends
    rw [howed.owner, Option.some.injEq, Desc.conn.injEq] at hc
    rw [← hc, howed.waiting] at hclosed
    cases hclosed

theorem SystemInv.ring_step (qi : Fin maxSender) : RingInv (t.queues qi) (t.threads qi) :=
  (h.ring qi).move (queueMove_of_step hstep qi) h.ring_room

theorem SystemInv.serviceStep : ServiceStep y.server a t := by
  refine serviceStep_of_step h.ring (fun qi pub => ?_) hstep
  have hroom := h.ring_room pub
  omega

/-- Away from `recv`, the end of a connection is not made up. -/
theorem SystemInv.ended_step (noRecv : ∀ answer, a ≠ .recv answer) :
    Ended { y with server := t } := by
  have hthread : a.IsThread → t.pc = y.server.pc → t.fds = y.server.fds →
      Ended { y with server := t } := by
    intro thread pc fds
    have hended := h.ended
    unfold Ended at hended ⊢
    dsimp only
    rw [pc]
    split
    · rename_i fd events hpc
      have hslot := (h.ring (queueIndex fd)).lastSlot_of_thread hstep thread
      rw [hslot, fds]
      simpa only [hpc] using hended
    · trivial
  cases move_of_step hstep with
  | recvEnds => exact absurd rfl (noRecv _)
  | recvs => exact absurd rfl (noRecv _)
  | dequeues => exact hthread trivial rfl rfl
  | waits => exact hthread trivial rfl rfl
  | resumes => exact hthread trivial rfl rfl
  | formats => exact hthread trivial rfl rfl
  | replies => exact hthread trivial rfl rfl
  | wakesUp => exact hthread trivial rfl rfl
  | _ => trivial

/-- A step of the server that receives no data. -/
theorem SystemInv.serve (noData : ∀ m, a ≠ .recv (.data m))
    (delivers : ∀ qi delivered, a = .thread qi delivered → delivered = true)
    (ended : Ended { y with server := t }) : SystemInv k { y with server := t } := by
  have hkept : Kept y { y with server := t } := fun _ _ => h.kept hstep
  have hinv : ∀ received right exchanging, SystemInv k { y with server := t } :=
    fun received right exchanging => ⟨h.desc.step hstep, h.ring_step hstep, h.sized.step hstep,
      h.idle.step hstep, ended, ⟨h.lines.sent, received⟩, right, exchanging⟩
  cases h.serviceStep hstep with
  | quiet _ log service =>
      refine hinv ?_ ?_ (h.exchanging.quiet hkept (fun c => ?_) service)
      · exact fun c => log.symm ▸ h.lines.received c
      · exact log.symm ▸ h.right
      · exact ⟨rfl, rfl, congrArg (receivedOn · c) log, congrArg (repliedOn · c) log⟩
  | arrive _ action => exact absurd action (noData _)
  | work stage _ _ _ _ log before after others =>
      refine hinv ?_ ?_ (h.exchanging.work hkept (fun c => ?_) stage before after others)
      · exact fun c => log.symm ▸ h.lines.received c
      · exact log.symm ▸ h.right
      · exact ⟨rfl, rfl, congrArg (receivedOn · c) log, congrArg (repliedOn · c) log⟩
  | @leave qj delivered slot rest action _ _ _ log before after others =>
      have howed := h.exchanging.owed qj (.measured, slot) (before ▸ List.mem_cons_self)
      have hwaiting : y.clients slot.src = .waiting := howed.waiting
      obtain ⟨earlier, m, received, replied, read, hsend⟩ := howed.sendSlot
      rw [delivers qj delivered action, hsend] at log
      refine hinv ?_ ?_ (h.exchanging.leave hkept h.desc.injective before after others ?_ ?_)
      · intro c m' hm
        simp only [log, receivedOn_append, receivedOn_replied, List.append_nil] at hm
        exact h.lines.received c m' hm
      · intro c src m' hmem
        rw [log] at hmem
        rcases List.mem_append.mp hmem with hmem | hmem
        · exact h.right c src m' hmem
        · cases List.mem_singleton.mp hmem
          rfl
      · intro c hc
        refine ⟨rfl, rfl, ?_, ?_⟩
        · simp only [log, receivedOn_append, receivedOn_replied, List.append_nil]
        · simp only [log, repliedOn_append, repliedOn_replied, if_neg hc.symm, List.append_nil]
      · refine ⟨?_, ?_⟩
        · simp [log, repliedOn_replied, received, replied]
        · simp [log, repliedOn_replied, replied, read, hwaiting]

/-- `recv` fails, or returns the end, on a connection that its client has closed. -/
theorem SystemInv.recvEnd {answer : Answer} {fd : Nat} {events : List Nat} {c : ConnId}
    (action : a = .recv answer) (ended : answer = .error ∨ answer = .eof)
    (pc : y.server.pc = .recving fd events)
    (owner : y.server.fds (y.server.lastSlot fd).acc = some (.conn c))
    (closed : y.clients c = .closed) : SystemInv k { y with server := t } := by
  subst action
  have hplaced := h.desc.placed
  simp only [Placed, pc] at hplaced
  obtain ⟨-, -, -, hacc⟩ := hplaced
  refine h.serve hstep (fun m heq => ?_) (by simp) ?_
  · cases heq
    simp at ended
  · cases move_of_step hstep with
    | recvEnds pc' =>
        cases pc.symm.trans pc'
        exact fun _ => ⟨c, hacc ▸ owner, closed⟩
    | recvs => simp at ended

/-- `recv` returns the line that the client has sent. -/
theorem SystemInv.recvLine {fd : Nat} {events : List Nat} {c : ConnId} {line : Bytes}
    (action : a = .recv (.data (line ++ [lf]))) (pc : y.server.pc = .recving fd events)
    (owner : y.server.fds (y.server.lastSlot fd).acc = some (.conn c))
    (sent : y.clients c = .sent line) :
    SystemInv k { y.setClient c .waiting with server := t } := by
  subst action
  have text := h.lines.sent c line sent
  have hplaced := h.desc.placed
  simp only [Placed, pc] at hplaced
  obtain ⟨-, -, hreg, hacc⟩ := hplaced
  have hkept : Kept y { y.setClient c .waiting with server := t } := fun _ _ => h.kept hstep
  have hrecvd : ∃ events, t.pc = .recvd fd events ∧
      (t.lastSlot fd).len = ((line ++ [lf]).length : Nat) := by
    cases move_of_step hstep with
    | recvEnds pc' ended =>
        rcases ended with ⟨heq, -⟩ | ⟨heq, -⟩ <;> cases heq
    | recvs pc' =>
        cases pc.symm.trans pc'
        exact ⟨_, rfl, by
          simp [State.lastSlot, State.setLastSlot, State.setQueue, Queue.setSlot]⟩
  cases h.serviceStep hstep with
  | quiet action => exact absurd rfl (action _)
  | work _ action => cases action
  | leave action => cases action
  | @arrive fd' events' c' m pc' action owner' fds interest next log own others =>
      cases pc.symm.trans pc'
      cases action
      cases owner.symm.trans owner'
      have hidle : y.clients c ≠ .waiting := by
        simp [sent]
      have hsettled := h.exchanging.settled hidle
      have same : ∀ d, d ≠ c → Untouched y { y.setClient c .waiting with server := t } d := by
        intro d hd
        refine ⟨Function.update_of_ne hd _ _, rfl, ?_, ?_⟩
        · simp only [log, receivedOn_append, receivedOn_received, if_neg hd.symm, List.append_nil]
        · simp only [log, repliedOn_append, repliedOn_received, List.append_nil]
      have hq : queueIndex (arrived y.server fd c (line ++ [lf])).acc = queueIndex fd :=
        congrArg queueIndex hacc
      have howed := hsettled.owed (t := t) hidle text (h.sized _ _)
        (interest ▸ hacc.symm ▸ hreg) (fds ▸ owner) log
      refine ⟨h.desc.step hstep, h.ring_step hstep, h.sized.step hstep, h.idle.step hstep, ?_,
        h.lines.received_line text log, ?_, ?_⟩
      · obtain ⟨events, hpc, hlen⟩ := hrecvd
        simp only [Ended, hpc, hlen]
        simp only [List.length_append, List.length_singleton]
        intro hends
        omega
      · intro d src m hmem
        rw [log] at hmem
        rcases List.mem_append.mp hmem with hmem | hmem
        · exact h.right d src m hmem
        · cases List.mem_singleton.mp hmem
      · exact h.exchanging.arrive hkept hidle owner (hq.symm ▸ own) (hq.symm ▸ others) same howed

end Serve

/-! ## The steps of the clients -/

section Clients

variable {k : Startup} {y : System} (h : SystemInv k y) {c : ConnId}
include h

/-- The client of a settled connection that has no message in service moves on,
though not away from a closed connection. -/
theorem SystemInv.client {z : System} (server : z.server = y.server)
    (others : ∀ d, d ≠ c → z.clients d = y.clients d ∧ z.read d = y.read d)
    (settled : Settled z c) (apart : ∀ qi, ∀ entry ∈ y.server.service qi, entry.2.src ≠ c)
    (open_ : y.clients c ≠ .closed) (text : ∀ line, z.clients c = .sent line → Line line) :
    SystemInv k z := by
  have same : ∀ d, d ≠ c → Untouched y z d := fun d hd =>
    ⟨(others d hd).1, (others d hd).2, by rw [server], by rw [server]⟩
  refine ⟨server ▸ h.desc, server ▸ h.ring, server ▸ h.sized, server ▸ h.idle, ?_, ⟨?_, ?_⟩,
    server ▸ h.right, h.exchanging.client server settled apart same⟩
  · have hended := h.ended
    unfold Ended at hended ⊢
    rw [server]
    split
    · rename_i fd events pc
      simp only [pc] at hended
      intro hends
      obtain ⟨d, hd, hclosed⟩ := hended hends
      have hne : d ≠ c := by
        rintro rfl
        exact open_ hclosed
      exact ⟨d, hd, (others d hne).1.trans hclosed⟩
    · trivial
  · intro d line hsent
    rcases eq_or_ne d c with rfl | hd
    · exact text line hsent
    · exact h.lines.sent d line ((others d hd).1 ▸ hsent)
  · rw [server]
    exact h.lines.received

/-- A client that is ready sends a line, or closes. -/
theorem SystemInv.setClient {client : Client} (ready : y.clients c = .ready)
    (idle : client ≠ .waiting) (text : ∀ line, client = .sent line → Line line) :
    SystemInv k (y.setClient c client) := by
  have hidle : y.clients c ≠ .waiting := by
    simp [ready]
  have hself : (y.setClient c client).clients c = client := Function.update_self _ _ _
  have hsettled := h.exchanging.settled hidle
  refine h.client (c := c) rfl (fun d hd => ⟨Function.update_of_ne hd _ _, rfl⟩) ?_ ?_ ?_ ?_
  · refine ⟨hsettled.replied, ?_⟩
    rw [hself, if_neg idle]
    have hread := hsettled.read
    rw [if_neg hidle] at hread
    exact hread
  · intro qi entry hentry heq
    exact hidle (heq ▸ (h.exchanging.owed qi entry hentry).waiting)
  · simp [ready]
  · rw [hself]
    exact text

/-- A client reads the reply it has waited for. -/
theorem SystemInv.readReply (waiting : y.clients c = .waiting)
    (replied : y.read c < (repliedOn y.server.log c).length) :
    SystemInv k { y.setClient c .ready with read := Function.update y.read c (y.read c + 1) } := by
  have apart : ∀ qi, ∀ entry ∈ y.server.service qi, entry.2.src ≠ c := by
    rintro qi entry hentry rfl
    obtain ⟨earlier, line, -, -, hreplied, hread, -⟩ :=
      (h.exchanging.owed qi entry hentry).exchange
    rw [hreplied, hread, List.length_map] at replied
    exact Nat.lt_irrefl _ replied
  have hsettled : Settled y c := by
    refine (h.exchanging.standing c).resolve_right ?_
    rintro ⟨qi, entry, hentry, hsrc⟩
    exact apart qi entry hentry hsrc
  refine h.client (c := c) rfl
    (fun d hd => ⟨Function.update_of_ne hd _ _, Function.update_of_ne hd _ _⟩) ?_ apart ?_ ?_
  · refine ⟨hsettled.replied, ?_⟩
    have hread := hsettled.read
    rw [if_pos waiting] at hread
    simpa [System.setClient] using hread
  · simp [waiting]
  · intro line hsent
    simp [System.setClient] at hsent

end Clients

/-! ## Runs -/

theorem SystemInv.step {k : Startup} {y z : System} {a : SysAction} (h : SystemInv k y)
    (hstep : sysStep k y a = some z) : SystemInv k z := by
  cases sysMove_of_sysStep hstep with
  | serves step noRecv delivers =>
      exact h.serve step (fun m => noRecv _) delivers (h.ended_step step noRecv)
  | recvsLine step pc owner sent => exact h.recvLine step rfl pc owner sent
  | recvsEnd step ended pc owner closed => exact h.recvEnd step rfl ended pc owner closed
  | sends ready text =>
      refine h.setClient ready (by simp) fun line heq => ?_
      cases heq
      exact text
  | reads waiting replied => exact h.readReply waiting replied
  | hangsUp ready => exact h.setClient ready (by simp) (by simp)

theorem systemInv_of_run {k : Startup} {y : System} (run : Reaches (sysStep k) (.init k) y) :
    SystemInv k y :=
  run.invariant (systemInv_init k) fun _ _ _ h hstep => h.step hstep

/-- In every reachable state the replies on a connection are those to its
messages, in their order, but for the last message. -/
theorem SystemInv.replies {k : Startup} {y : System} (h : SystemInv k y) (c : ConnId) :
    ∃ pending, pending.length ≤ 1 ∧ (receivedOn y.server.log c).map expectedReply =
      repliedOn y.server.log c ++ pending := by
  rcases h.exchanging.standing c with hsettled | ⟨qi, entry, hentry, rfl⟩
  · exact ⟨[], Nat.zero_le _, by rw [hsettled.replied, List.append_nil]⟩
  · obtain ⟨earlier, line, -, received, replied, -⟩ :=
      (h.exchanging.owed qi entry hentry).exchange
    refine ⟨[expectedReply (line ++ [lf])], Nat.le_refl _, ?_⟩
    rw [received, replied, List.map_append, List.map_singleton]

end NetworkProgram.Server9
