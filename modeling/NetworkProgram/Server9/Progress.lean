import NetworkProgram.Server9.Replies

set_option autoImplicit false

/-!
# Server9: every message is answered

Safety says that no wrong reply is sent; here every message gets its reply, as
long as the threads go on running.  The argument counts the statements that the
queue's `send_thread` still has to run until the `send` for the message: each of
its steps takes one away, and no other step adds any.
-/

namespace NetworkProgram.Server9

open NetworkProgram.Foundation
open NetworkProgram.Kernel
open NetworkProgram.Libc

/-! ## The steps left until a reply -/

/-- The steps of `send_thread` until its next visit to the queue, and one more. -/
def SendPc.remaining : SendPc → Nat
  | .waiting => 8
  | .woken => 7
  | .lock => 6
  | .terminate _ => 5
  | .cut _ => 4
  | .append _ => 3
  | .measure _ => 2
  | .reply _ => 1

/-- The descriptors of the published messages, in the order of their replies. -/
def replyOrder (q : Queue) (p : SendPc) : List Nat :=
  (serviceOf q p []).map fun entry => entry.2.acc

/-- The steps of `send_thread` until the reply on `fd`. -/
def toGo (q : Queue) (p : SendPc) (fd : Nat) : Nat :=
  6 * (replyOrder q p).idxOf fd + p.remaining

theorem replyOrder_eq_nil {q : Queue} {p : SendPc} (hp : p = .waiting) (empty : q.last = q.front)
    (h : RingInv q p) : replyOrder q p = [] := by
  subst hp
  have hnil : Ring.contents maxQueueSz q.front q.last q.data = [] :=
    (Ring.contents_eq_nil_iff h.front_lt h.last_lt).mpr empty
  simp [replyOrder, serviceOf, handEntry, SendPc.hand, hnil]

theorem Stage.remaining {p p' : SendPc} {i : Nat} {f : QueueData → QueueData}
    (h : Stage p i f p') : p'.remaining + 1 = p.remaining := by
  cases h <;> rfl

theorem toGo_lt {q q' : Queue} {p p' : SendPc} (order : replyOrder q' p' = replyOrder q p)
    (remaining : p'.remaining < p.remaining) (fd : Nat) : toGo q' p' fd < toGo q p fd := by
  rw [toGo, toGo, order]
  exact Nat.add_lt_add_left remaining _

/-- One step either brings the reply on `fd` nearer, if it is the thread's, or
does not put it off; or it is the `send` itself. -/
theorem RingInv.toGo_move {storing publishing turn : Prop} {q q' : Queue} {p p' : SendPc}
    (h : RingInv q p) (move : QueueMove storing publishing turn q p q' p')
    (room : publishing → Ring.depth maxQueueSz q.front q.last + 1 < maxQueueSz)
    (other : storing ∨ publishing → ¬ turn) (idle : p = .waiting → q.last = q.front)
    {fd : Nat} (mem : fd ∈ replyOrder q p) :
    (fd ∈ replyOrder q' p' ∧ toGo q' p' fd ≤ toGo q p fd ∧
        (turn → toGo q' p' fd < toGo q p fd)) ∨
      turn ∧ ∃ i, p = .reply i ∧ (q.data i).acc = fd := by
  have hne : p ≠ .waiting := by
    intro hp
    rw [replyOrder_eq_nil hp (idle hp) h] at mem
    exact absurd mem List.not_mem_nil
  have nearer : ∀ {q' : Queue} {p' : SendPc}, replyOrder q' p' = replyOrder q p →
      p'.remaining < p.remaining → fd ∈ replyOrder q' p' ∧ toGo q' p' fd ≤ toGo q p fd ∧
        (turn → toGo q' p' fd < toGo q p fd) := by
    intro q' p' order remaining
    have hlt := toGo_lt order remaining fd
    exact ⟨order ▸ mem, Nat.le_of_lt hlt, fun _ => hlt⟩
  cases move with
  | stay idle =>
      cases idle with
      | same rest => exact .inl ⟨mem, Nat.le_refl _, fun turn => absurd turn rest⟩
      | sleeps _ empty =>
          have hnil : Ring.contents maxQueueSz q.front q.last q.data = [] :=
            (Ring.contents_eq_nil_iff h.front_lt h.last_lt).mpr empty
          simp [replyOrder, serviceOf, handEntry, SendPc.hand, hnil] at mem
      | resumes => exact .inl (nearer rfl (by decide))
      | wakes => exact absurd rfl hne
  | store hstore slot =>
      have hsame : replyOrder (q.setSlot q.last slot) p = replyOrder q p := by
        rw [replyOrder, h.serviceOf_store]
        rfl
      refine .inl ⟨hsame ▸ mem, ?_, fun turn => absurd turn (other (.inl hstore))⟩
      rw [toGo, hsame]
      exact Nat.le_refl _
  | publish hpublish =>
      have hgrow : replyOrder { q with
            last := queueNext q.last, held := Function.update q.held q.last true } (signal p) =
          replyOrder q p ++ [(q.data q.last).acc] := by
        rw [replyOrder, h.serviceOf_publish (room hpublish)]
        simp [replyOrder, serviceOf]
      have hsignal : signal p = p := by
        cases p
        case waiting => exact absurd rfl hne
        all_goals rfl
      refine .inl ⟨hgrow ▸ List.mem_append_left _ mem, ?_,
        fun turn => absurd turn (other (.inr hpublish))⟩
      rw [toGo, hgrow, hsignal, List.idxOf_append_of_mem mem]
      exact Nat.le_refl _
  | dequeue _ lock nonempty =>
      refine .inl (nearer ?_ ?_)
      · rw [replyOrder, h.serviceOf_dequeue (by rw [lock]; rfl) nonempty]
        rfl
      · rw [lock]
        exact Nat.lt_succ_self 5
  | @format i f _ _ stage =>
      obtain ⟨slot, rest, before, after⟩ := h.serviceOf_format stage []
      refine .inl (nearer ?_ ?_)
      · rw [replyOrder, replyOrder, before, after]
        simp only [List.map_cons, (stage.fields slot).1]
      · have hone := stage.remaining
        omega
  | @reply i own hand =>
      have hpop := serviceOf_reply (q := q) hand []
      have horder : replyOrder q p = (q.data i).acc :: replyOrder q .lock := by
        rw [replyOrder, hpop]
        rfl
      rcases eq_or_ne (q.data i).acc fd with heq | hne
      · exact .inr ⟨own, i, hand, heq⟩
      · have hmem : fd ∈ replyOrder q .lock := by
          rw [horder] at mem
          exact (List.mem_cons.mp mem).resolve_left fun heq => hne heq.symm
        have hfall : toGo q .lock fd < toGo q p fd := by
          rw [toGo, toGo, horder, List.idxOf_cons_ne _ hne, hand]
          simp only [SendPc.remaining]
          omega
        exact .inl ⟨hmem, Nat.le_of_lt hfall, fun _ => hfall⟩

/-! ## One message -/

/-- A message of connection `c` is published, and it is at least the `N`-th. -/
structure Pending (y : System) (qi : Fin maxSender) (fd : Nat) (c : ConnId) (N : Nat) : Prop where
  owner : y.server.fds fd = some (.conn c)
  received : N ≤ (receivedOn y.server.log c).length
  published : fd ∈ replyOrder (y.server.queues qi) (y.server.threads qi)

def Answered (y : System) (c : ConnId) (N : Nat) : Prop :=
  N ≤ (repliedOn y.server.log c).length

/-- The log only grows. -/
theorem log_step {k : Startup} {s t : State} {a : Action} (h : step k s a = some t) :
    ∃ new, t.log = s.log ++ new := by
  cases move_of_step h with
  | recvs => exact ⟨_, rfl⟩
  | replies => exact ⟨_, rfl⟩
  | _ => exact ⟨[], (List.append_nil _).symm⟩

theorem log_of_reply {k : Startup} {s t : State} {qi : Fin maxSender} {delivered : Bool} {i : Nat}
    (h : step k s (.thread qi delivered) = some t) (hreply : s.threads qi = .reply i) :
    t.log = s.log ++ sendSlot s.fds ((s.queues qi).data i) delivered := by
  simp only [Server9.step, sendThread, hreply, Option.some.injEq] at h
  rw [← h]

theorem published_mem_service {s : State} {qi : Fin maxSender} {entry : Phase × QueueData}
    (h : entry ∈ serviceOf (s.queues qi) (s.threads qi) []) : entry ∈ s.service qi := by
  rw [serviceOf, List.append_nil] at h
  rw [State.service, serviceOf, List.map_append, ← List.append_assoc]
  exact List.mem_append_left _ h

section Pending

variable {k : Startup} {y z : System} {a : SysAction} {qi : Fin maxSender} {fd : Nat}
variable {c : ConnId} {N : Nat}

/-- A step of the server answers the message or brings its reply nearer. -/
theorem Pending.serve (h : SystemInv k y) (pending : Pending y qi fd c N) {a : Action} {t : State}
    (hstep : step k y.server a = some t)
    (delivers : ∀ qi delivered, a = .thread qi delivered → delivered = true)
    (server : z.server = t) :
    (Pending z qi fd c N ∧
        toGo (z.server.queues qi) (z.server.threads qi) fd ≤
          toGo (y.server.queues qi) (y.server.threads qi) fd ∧
        (a.Turn qi → toGo (z.server.queues qi) (z.server.threads qi) fd <
          toGo (y.server.queues qi) (y.server.threads qi) fd)) ∨
      Answered z c N := by
  subst server
  obtain ⟨new, hlog⟩ := log_step hstep
  obtain ⟨entry, hentry, hacc⟩ := List.mem_map.mp pending.published
  have hservice := published_mem_service hentry
  have howed := h.exchanging.owed qi entry hservice
  have hsrc : entry.2.src = c := by
    have howner := howed.owner
    rw [hacc, pending.owner, Option.some.injEq, Desc.conn.injEq] at howner
    exact howner.symm
  have hroom : y.server.Publishing a qi →
      Ring.depth maxQueueSz (y.server.queues qi).front (y.server.queues qi).last + 1 <
        maxQueueSz := by
    intro pub
    have hroom := h.ring_room pub
    omega
  have hother : y.server.Storing a qi ∨ y.server.Publishing a qi → ¬ a.Turn qi := by
    rintro hor ⟨delivered, rfl⟩
    have thread : (Action.thread qi delivered).IsThread := trivial
    exact hor.elim (thread.quiet _ _).1 (thread.quiet _ _).2
  rcases (h.ring qi).toGo_move (queueMove_of_step hstep qi) hroom hother (h.idle qi)
    pending.published with ⟨hmem, hle, hlt⟩ | ⟨⟨delivered, rfl⟩, i, hreply, hslot⟩
  · refine .inl ⟨⟨?_, ?_, hmem⟩, hle, hlt⟩
    · have hfds := (h.kept hstep hservice).2
      rw [hacc] at hfds
      exact hfds.trans pending.owner
    · have hreceived := pending.received
      rw [hlog, receivedOn_append, List.length_append]
      omega
  · -- The `send` for this very message.
    right
    have hdelivered := delivers qi delivered rfl
    subst hdelivered
    have hpop := serviceOf_reply (q := y.server.queues qi) hreply (y.server.unpublished qi)
    have hhead := h.exchanging.owed qi (.measured, (y.server.queues qi).data i)
      (by rw [State.service, hpop]; exact List.mem_cons_self)
    have hhsrc : ((y.server.queues qi).data i).src = c := by
      have howner := hhead.owner
      rw [hslot, pending.owner, Option.some.injEq, Desc.conn.injEq] at howner
      exact howner.symm
    obtain ⟨earlier, m, received, replied, -, hsend⟩ := hhead.sendSlot
    rw [hhsrc] at received replied hsend
    have hreceived := pending.received
    rw [received, List.length_append, List.length_singleton] at hreceived
    have hlog' := log_of_reply hstep hreply
    rw [hsend] at hlog'
    rw [Answered, hlog', repliedOn_append, repliedOn_replied, if_pos rfl, replied]
    simpa using hreceived

/-- A step of the system answers the message or brings its reply nearer. -/
theorem Pending.step (h : SystemInv k y) (pending : Pending y qi fd c N)
    (hstep : sysStep k y a = some z) :
    (Pending z qi fd c N ∧
        toGo (z.server.queues qi) (z.server.threads qi) fd ≤
          toGo (y.server.queues qi) (y.server.threads qi) fd ∧
        ((∃ delivered, a = .server (.thread qi delivered)) →
          toGo (z.server.queues qi) (z.server.threads qi) fd <
            toGo (y.server.queues qi) (y.server.threads qi) fd)) ∨
      Answered z c N := by
  have hclient : ∀ {w : System}, (∀ b, a ≠ .server b) → w.server = y.server →
      Pending w qi fd c N ∧ toGo (w.server.queues qi) (w.server.threads qi) fd ≤
          toGo (y.server.queues qi) (y.server.threads qi) fd ∧
        ((∃ delivered, a = .server (.thread qi delivered)) →
          toGo (w.server.queues qi) (w.server.threads qi) fd <
            toGo (y.server.queues qi) (y.server.threads qi) fd) := by
    intro w noServer server
    exact ⟨⟨server ▸ pending.owner, server ▸ pending.received, server ▸ pending.published⟩,
      by rw [server], fun turn => turn.elim fun _ heq => absurd heq (noServer _)⟩
  cases sysMove_of_sysStep hstep with
  | serves step _ delivers =>
      refine (pending.serve h step delivers rfl).imp_left ?_
      rintro ⟨hpending, hle, hlt⟩
      refine ⟨hpending, hle, ?_⟩
      rintro ⟨delivered, heq⟩
      cases heq
      exact hlt ⟨delivered, rfl⟩
  | recvsLine step =>
      refine (pending.serve h step (by simp) rfl).imp_left ?_
      rintro ⟨hpending, hle, -⟩
      exact ⟨hpending, hle, by simp⟩
  | recvsEnd step =>
      refine (pending.serve h step (by simp) rfl).imp_left ?_
      rintro ⟨hpending, hle, -⟩
      exact ⟨hpending, hle, by simp⟩
  | sends => exact .inl (hclient (by simp) rfl)
  | reads => exact .inl (hclient (by simp) rfl)
  | hangsUp => exact .inl (hclient (by simp) rfl)

end Pending

/-- A message of connection `c` was received on `fd`, is not published yet, and is
at least the `N`-th. -/
structure Unpublished (y : System) (fd : Nat) (c : ConnId) (N : Nat) : Prop where
  pc : ∃ events, y.server.pc = .recvd fd events
  got : ¬ ((y.server.lastSlot fd).len = -1 ∨ (y.server.lastSlot fd).len = 0)
  owner : y.server.fds fd = some (.conn c)
  received : N ≤ (receivedOn y.server.log c).length

/-- The next step of `accept_loop` publishes the message. -/
theorem Unpublished.step {k : Startup} {y z : System} {a : SysAction} {fd : Nat} {c : ConnId}
    {N : Nat} (h : SystemInv k y) (unpublished : Unpublished y fd c N)
    (hstep : sysStep k y a = some z) :
    (Unpublished z fd c N ∧ a ≠ .server .dispatch) ∨ Pending z (queueIndex fd) fd c N := by
  obtain ⟨⟨events, pc⟩, got, owner, received⟩ := unpublished
  have hclient : ∀ {w : System}, a ≠ .server .dispatch → w.server = y.server →
      Unpublished w fd c N ∧ a ≠ .server .dispatch := fun noDispatch server =>
    ⟨⟨server ▸ ⟨events, pc⟩, server ▸ got, server ▸ owner, server ▸ received⟩, noDispatch⟩
  cases sysMove_of_sysStep hstep with
  | @serves a t step =>
      obtain ⟨new, hlog⟩ := log_step step
      have hreceived : N ≤ (receivedOn t.log c).length := by
        rw [hlog, receivedOn_append, List.length_append]
        omega
      have hthread : a.IsThread → t.pc = y.server.pc → t.fds = y.server.fds →
          Unpublished { y with server := t } fd c N ∧ SysAction.server a ≠ .server .dispatch := by
        intro thread hpc hfds
        have hslot := (h.ring (queueIndex fd)).lastSlot_of_thread step thread
        refine ⟨⟨⟨events, hpc.trans pc⟩, hslot ▸ got, hfds ▸ owner, hreceived⟩, ?_⟩
        rintro heq
        cases heq
        exact thread
      cases move_of_step step with
      | epollWait pc' => cases pc.symm.trans pc'
      | acceptFails pc' => cases pc.symm.trans pc'
      | accepts pc' => cases pc.symm.trans pc'
      | refuses pc' => cases pc.symm.trans pc'
      | registers pc' => cases pc.symm.trans pc'
      | registerFails pc' => cases pc.symm.trans pc'
      | storesAcc pc' => cases pc.symm.trans pc'
      | recvEnds pc' => cases pc.symm.trans pc'
      | recvs pc' => cases pc.symm.trans pc'
      | deregisters pc' ended =>
          cases pc.symm.trans pc'
          exact absurd ended got
      | deregisterFails pc' ended =>
          cases pc.symm.trans pc'
          exact absurd ended got
      | publishes pc' =>
          cases pc.symm.trans pc'
          have hplaced := h.desc.placed
          simp only [Placed, pc] at hplaced
          obtain ⟨-, -, -, hacc⟩ := hplaced
          have hroom : Ring.depth maxQueueSz (y.server.queues (queueIndex fd)).front
              (y.server.queues (queueIndex fd)).last + 1 < maxQueueSz := by
            have pub : y.server.Publishing .dispatch (queueIndex fd) :=
              ⟨rfl, fd, events, pc, rfl, got⟩
            have hroom := h.ring_room pub
            omega
          refine .inr ⟨owner, received, ?_⟩
          simp only [replyOrder, publish, State.setQueue, State.setThread, Function.update_self]
          rw [(h.ring _).serviceOf_publish hroom, serviceOf]
          simp only [List.map_append, List.map_singleton]
          refine List.mem_append_right _ (List.mem_append_right _ ?_)
          exact List.mem_singleton.mpr hacc.symm
      | closes pc' => cases pc.symm.trans pc'
      | dequeues => exact .inl (hthread trivial rfl rfl)
      | waits => exact .inl (hthread trivial rfl rfl)
      | resumes => exact .inl (hthread trivial rfl rfl)
      | formats => exact .inl (hthread trivial rfl rfl)
      | replies => exact .inl (hthread trivial rfl rfl)
      | wakesUp => exact .inl (hthread trivial rfl rfl)
  | recvsLine _ pc' => cases pc.symm.trans pc'
  | recvsEnd _ _ pc' => cases pc.symm.trans pc'
  | sends => exact .inl (hclient (by simp) rfl)
  | reads => exact .inl (hclient (by simp) rfl)
  | hangsUp => exact .inl (hclient (by simp) rfl)

/-! ## Fair runs -/

/-- The threads keep running: a `send_thread` that is not asleep takes another
step, and `accept_loop` publishes what it has received. -/
structure Fair {k : Startup} {y : System} (tr : Trace (sysStep k) y) : Prop where
  thread : ∀ qi n, (∀ m, n ≤ m → (tr.state m).server.threads qi ≠ .waiting) →
    ∃ m, n ≤ m ∧ ∃ delivered, tr.act m = some (.server (.thread qi delivered))
  dispatch : ∀ n, (∀ m, n ≤ m → ∃ fd events, (tr.state m).server.pc = .recvd fd events) →
    ∃ m, n ≤ m ∧ tr.act m = some (.server .dispatch)

theorem sysLog_step {k : Startup} {y z : System} {a : SysAction} (h : sysStep k y a = some z) :
    ∃ new, z.server.log = y.server.log ++ new := by
  cases sysMove_of_sysStep h with
  | serves step => exact log_step step
  | recvsLine step => exact log_step step
  | recvsEnd step => exact log_step step
  | _ => exact ⟨[], (List.append_nil _).symm⟩

section Trace

variable {k : Startup} {tr : Trace (sysStep k) (.init k)}

theorem systemInv_trace (tr : Trace (sysStep k) (.init k)) (n : Nat) : SystemInv k (tr.state n) :=
  systemInv_of_run (tr.reaches n)

theorem answered_stable {c : ConnId} {N n m : Nat} (hnm : n ≤ m)
    (h : Answered (tr.state n) c N) : Answered (tr.state m) c N := by
  refine tr.stable (P := fun y => Answered y c N) (fun i a hact hi => ?_) hnm h
  obtain ⟨new, hlog⟩ := sysLog_step (tr.move i a hact)
  rw [Answered] at hi ⊢
  rw [hlog, repliedOn_append, List.length_append]
  omega

theorem received_stable (tr : Trace (sysStep k) (.init k)) (c : ConnId) {n m : Nat} (hnm : n ≤ m) :
    receivedOn (tr.state n).server.log c <+: receivedOn (tr.state m).server.log c := by
  refine tr.stable (P := fun y => receivedOn (tr.state n).server.log c <+:
    receivedOn y.server.log c) (fun i a hact hi => ?_) hnm (List.prefix_refl _)
  obtain ⟨new, hlog⟩ := sysLog_step (tr.move i a hact)
  rw [hlog, receivedOn_append]
  exact hi.trans (List.prefix_append _ _)

/-- A published message is answered. -/
theorem Pending.answered (fair : Fair tr) {qi : Fin maxSender} {fd : Nat} {c : ConnId} {N n : Nat}
    (h : Pending (tr.state n) qi fd c N) : ∃ m, n ≤ m ∧ Answered (tr.state m) c N := by
  have stays : ∀ i a, tr.act i = some a →
      Pending (tr.state i) qi fd c N ∧ ¬ Answered (tr.state i) c N →
      Pending (tr.state (i + 1)) qi fd c N ∧ ¬ Answered (tr.state (i + 1)) c N →
      toGo ((tr.state (i + 1)).server.queues qi) ((tr.state (i + 1)).server.threads qi) fd ≤
          toGo ((tr.state i).server.queues qi) ((tr.state i).server.threads qi) fd ∧
        ((∃ delivered, a = .server (.thread qi delivered)) →
          toGo ((tr.state (i + 1)).server.queues qi) ((tr.state (i + 1)).server.threads qi) fd <
            toGo ((tr.state i).server.queues qi) ((tr.state i).server.threads qi) fd) := by
    intro i a hact hi hnext
    rcases hi.1.step (systemInv_trace tr i) (tr.move i a hact) with ⟨-, hle, hlt⟩ | hanswered
    · exact ⟨hle, hlt⟩
    · exact absurd hanswered hnext.2
  have runs : ∀ i, (∀ m, i ≤ m → Pending (tr.state m) qi fd c N ∧ ¬ Answered (tr.state m) c N) →
      ∃ m a, i ≤ m ∧ tr.act m = some a ∧ ∃ delivered, a = .server (.thread qi delivered) := by
    intro i always
    have awake : ∀ m, i ≤ m → (tr.state m).server.threads qi ≠ .waiting := by
      intro m hm hwaiting
      have hinv := systemInv_trace tr m
      have hmem := (always m hm).1.published
      rw [replyOrder_eq_nil hwaiting (hinv.idle qi hwaiting) (hinv.ring qi)] at hmem
      exact absurd hmem List.not_mem_nil
    obtain ⟨m, hm, delivered, hact⟩ := fair.thread qi i awake
    exact ⟨m, _, hm, hact, delivered, rfl⟩
  obtain ⟨m, hm, hnot⟩ := tr.eventually_not
    (P := fun y => Pending y qi fd c N ∧ ¬ Answered y c N)
    (fun y => toGo (y.server.queues qi) (y.server.threads qi) fd) _ stays runs n
  have hboth : Pending (tr.state m) qi fd c N ∨ Answered (tr.state m) c N := by
    refine tr.stable (P := fun y => Pending y qi fd c N ∨ Answered y c N)
      (fun i a hact hi => ?_) hm (.inl h)
    rcases hi with hi | hi
    · exact (hi.step (systemInv_trace tr i) (tr.move i a hact)).imp_left And.left
    · exact .inr (answered_stable (Nat.le_succ i) hi)
  refine ⟨m, hm, ?_⟩
  by_contra hanswered
  exact hnot ⟨hboth.resolve_right hanswered, hanswered⟩

/-- A received message is published. -/
theorem Unpublished.published (fair : Fair tr) {fd : Nat} {c : ConnId} {N n : Nat}
    (h : Unpublished (tr.state n) fd c N) :
    ∃ m, n ≤ m ∧ Pending (tr.state m) (queueIndex fd) fd c N := by
  by_contra never
  have always : ∀ m, n ≤ m → Unpublished (tr.state m) fd c N := by
    intro m hm
    induction hm with
    | refl => exact h
    | @step m hm ih =>
        cases hact : tr.act m with
        | none => exact (tr.idle m hact).symm ▸ ih
        | some a =>
            rcases ih.step (systemInv_trace tr m) (tr.move m a hact) with ⟨hnext, -⟩ | hpending
            · exact hnext
            · exact absurd ⟨m + 1, Nat.le_succ_of_le hm, hpending⟩ never
  obtain ⟨m, hm, hact⟩ := fair.dispatch n fun m hm => ⟨fd, (always m hm).pc⟩
  rcases (always m hm).step (systemInv_trace tr m) (tr.move m _ hact) with ⟨-, hne⟩ | hpending
  · exact hne rfl
  · exact never ⟨m + 1, Nat.le_succ_of_le hm, hpending⟩

/-- The messages received on a connection by now will all be answered. -/
theorem answered_of_fair (fair : Fair tr) (n : Nat) (c : ConnId) :
    ∃ m, n ≤ m ∧ Answered (tr.state m) c (receivedOn (tr.state n).server.log c).length := by
  have hinv := systemInv_trace tr n
  rcases hinv.exchanging.standing c with hsettled | ⟨qi, entry, hentry, rfl⟩
  · refine ⟨n, Nat.le_refl n, ?_⟩
    rw [Answered, hsettled.replied, List.length_map]
  · have howed := hinv.exchanging.owed qi entry hentry
    rw [State.service, serviceOf, List.map_append, ← List.append_assoc] at hentry
    rcases List.mem_append.mp hentry with hentry | hentry
    · have hpending : Pending (tr.state n) qi entry.2.acc entry.2.src
          (receivedOn (tr.state n).server.log entry.2.src).length := by
        refine ⟨howed.owner, Nat.le_refl _, List.mem_map.mpr ⟨entry, ?_, rfl⟩⟩
        rw [serviceOf, List.append_nil]
        exact hentry
      exact hpending.answered fair
    · obtain ⟨slot, hslot, rfl⟩ := List.mem_map.mp hentry
      unfold State.unpublished at hslot
      split at hslot
      · rename_i fd events pc
        split at hslot
        · rename_i guard
          cases List.mem_singleton.mp hslot
          have hplaced := hinv.desc.placed
          simp only [Placed, pc] at hplaced
          obtain ⟨-, -, -, hacc⟩ := hplaced
          have howner : (tr.state n).server.fds ((tr.state n).server.lastSlot fd).acc =
              some (.conn ((tr.state n).server.lastSlot fd).src) := howed.owner
          rw [hacc] at howner
          have hunpublished : Unpublished (tr.state n) fd ((tr.state n).server.lastSlot fd).src
              (receivedOn (tr.state n).server.log
                ((tr.state n).server.lastSlot fd).src).length :=
            ⟨⟨events, pc⟩, guard.2, howner, Nat.le_refl _⟩
          obtain ⟨m, hm, hpending⟩ := hunpublished.published fair
          obtain ⟨m', hm', hanswered⟩ := hpending.answered fair
          exact ⟨m', Nat.le_trans hm hm', hanswered⟩
        · exact absurd hslot List.not_mem_nil
      · exact absurd hslot List.not_mem_nil

end Trace

/-! ## The server and its test clients -/

/-- What the test clients check, and more: every message was a line; the replies
on each connection are those to its messages in their order, the last one perhaps
still missing, each sent to the connection its message came from; and a queue,
with the slot its thread has in hand, holds at most `MAX_CHILD - 1` messages. -/
structure Served (y : System) : Prop where
  lines : ∀ c, ∀ m ∈ receivedOn y.server.log c, ∃ line, Line line ∧ m = line ++ [lf]
  replies : ∀ c, ∃ pending, pending.length ≤ 1 ∧
    (receivedOn y.server.log c).map expectedReply = repliedOn y.server.log c ++ pending
  right : RightConnection y.server.log
  bounded : ∀ qi, y.server.outstanding qi ≤ maxChild - 1

theorem SystemInv.served {k : Startup} {y : System} (h : SystemInv k y) : Served y := by
  refine ⟨h.lines.received, h.replies, h.right, fun qi => ?_⟩
  have hlen := length_service y.server qi
  have hle := h.length_service_le qi
  have hsize := h.desc.size
  omega

/-- The server serves its test clients: in every reachable state, however the
threads and the clients interleave, and in every fair run each message received
gets its reply. -/
theorem testclients_served {k : Startup} :
    (∀ y, Reaches (sysStep k) (.init k) y → Served y) ∧
      ∀ tr : Trace (sysStep k) (.init k), Fair tr → ∀ n c, ∃ m, n ≤ m ∧
        (receivedOn (tr.state n).server.log c).map expectedReply <+:
          repliedOn (tr.state m).server.log c := by
  refine ⟨fun y run => (systemInv_of_run run).served, fun tr fair n c => ?_⟩
  obtain ⟨m, hm, hanswered⟩ := answered_of_fair fair n c
  refine ⟨m, hm, ?_⟩
  obtain ⟨pending, -, heq⟩ := (systemInv_trace tr m).replies c
  have hreceived := (received_stable tr c hm).map expectedReply
  rw [heq] at hreceived
  refine List.prefix_of_prefix_length_le hreceived (List.prefix_append _ _) ?_
  rw [List.length_map]
  exact hanswered

/-- A client connects, sends a line, reads its reply and hangs up; the threads go
to sleep. -/
def oneClient : List SysAction :=
  [.sendLine 0 [97], .server (.epollWait [3]), .server (.accept (some 5)),
    .server (.register true), .server (.thread 1 true), .server (.epollWait [5]),
    .server .storeAcc, .server (.recv (.data [97, lf])), .server .dispatch,
    .server (.thread 1 true), .server (.thread 1 true), .server (.thread 1 true),
    .server (.thread 1 true), .server (.thread 1 true), .server (.thread 1 true),
    .server (.thread 1 true), .readReply 0, .hangUp 0, .server (.thread 1 true),
    .server (.thread 0 true)]

theorem testclients_served_oneClient :
    ∃ (y : System) (tr : Trace (sysStep .plain) (.init .plain)), Fair tr ∧
      tr.state oneClient.length = y ∧
      y.server.log = [.received 0 [97, lf], .replied 0 0 (okReply [97])] ∧ Served y ∧
      ∃ m, oneClient.length ≤ m ∧ (receivedOn y.server.log 0).map expectedReply <+:
        repliedOn (tr.state m).server.log 0 := by
  have hrun : (exec (sysStep .plain) (.init .plain) oneClient).map
      (fun y => (y.server.log, y.server.threads 0, y.server.threads 1, y.server.pc)) =
      some ([.received 0 [97, lf], .replied 0 0 (okReply [97])], .waiting, .waiting,
        .batch []) := by decide +kernel
  obtain ⟨y, hexec, hy⟩ := Option.map_eq_some_iff.mp hrun
  simp only [Prod.mk.injEq] at hy
  obtain ⟨hlog, hzero, hone, hpc⟩ := hy
  have hlast : ∀ n, (Trace.ofExec hexec).state (max n oneClient.length) = y := fun n =>
    Trace.ofExec_state hexec (Nat.le_max_right _ _)
  have hfair : Fair (Trace.ofExec hexec) := by
    have hwaiting : ∀ qi : Fin 2, y.server.threads qi = .waiting :=
      Fin.forall_fin_two.mpr ⟨hzero, hone⟩
    refine ⟨fun qi n awake => ?_, fun n busy => ?_⟩
    · refine absurd ?_ (awake _ (Nat.le_max_left n oneClient.length))
      rw [hlast n]
      exact hwaiting qi
    · obtain ⟨fd, events, hrecvd⟩ := busy _ (Nat.le_max_left n oneClient.length)
      rw [hlast n, hpc] at hrecvd
      cases hrecvd
  have hstate := Trace.ofExec_state hexec (Nat.le_refl oneClient.length)
  refine ⟨y, _, hfair, hstate, hlog, testclients_served.1 y (.of_exec hexec), ?_⟩
  have hreplies := testclients_served.2 _ hfair oneClient.length 0
  rw [hstate] at hreplies
  exact hreplies

end NetworkProgram.Server9
