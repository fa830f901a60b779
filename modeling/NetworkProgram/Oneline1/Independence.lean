import NetworkProgram.Kernel.EpollSet
import NetworkProgram.Oneline1.Steps

set_option autoImplicit false

/-!
# Oneline1: what a connection can see of the others

Two runs that differ only in the bytes of the other connections are compared.
The row of a connection agrees in both as far as the connection itself has
written it; behind that stand bytes of earlier connections with the same
descriptor.  A line that ends in a newline or fills the buffer shows none of them.
A line that is cut off by the end of the stream has no terminator, and its reply
goes on with what is left in the row.
-/

namespace NetworkProgram.Oneline1

open NetworkProgram.Foundation
open NetworkProgram.Kernel
open NetworkProgram.Libc

/-! ## One row in two runs -/

/-- The rows agree on their first `n` bytes and on the line under way, which is
among them. -/
structure RowAgree (n : Nat) (r r' : Row) : Prop where
  bytes : r.buf.bytes.take n = r'.buf.bytes.take n
  idle : r.Idle ↔ r'.Idle
  pos : ¬ r.Idle → r.pos = r'.pos ∧ r.pos ≤ n

/-- A line under way shows at most `n` bytes of its row. -/
def Contained (n : Nat) (row : Row) : Prop :=
  ¬ row.Idle → (visible row.buf.bytes).length ≤ n

instance (n : Nat) (row : Row) : Decidable (Contained n row) :=
  inferInstanceAs (Decidable (_ → _))

section Rows

variable {n : Nat}

theorem visible_agree {b b' : Bytes} (h : b.take n = b'.take n) (hb : (visible b).length ≤ n)
    (hb' : (visible b').length ≤ n) : visible b = visible b' := by
  rw [← visible_take hb, h, visible_take hb']

theorem cleared_agree {b b' : Store} (h : b.bytes.take n = b'.bytes.take n) (p p' : Nat) :
    RowAgree n (.cleared b p) (.cleared b' p') where
  bytes := by
    change (b.bytes.set 0 0).take n = (b'.bytes.set 0 0).take n
    rw [List.take_set, h, ← List.take_set]
  idle := iff_of_true (idle_cleared _ _) (idle_cleared _ _)
  pos := fun hidle => absurd (idle_cleared _ _) hidle

/-- The reply and the row behind it. -/
theorem reply_agree {b b' : Store} (h : b.bytes.take n = b'.bytes.take n)
    (hb : (visible b.bytes).length ≤ n) (hb' : (visible b'.bytes).length ≤ n) (p p' : Nat) :
    cstr b.cut.bytes = cstr b'.cut.bytes ∧ RowAgree n (.cleared b.cut p) (.cleared b'.cut p') := by
  constructor
  · change cstr (cutLine b.bytes) = cstr (cutLine b'.bytes)
    rw [cstr_cutLine, cstr_cutLine, visible_agree h hb hb']
  · refine cleared_agree ?_ p p'
    change (cutLine b.bytes).take n = (cutLine b'.bytes).take n
    rw [take_cutLine, take_cutLine, h]

theorem RowAgree.start {r r' : Row} (h : RowAgree n r r') :
    r.start = r'.start ∧ r.start ≤ n := by
  unfold Row.start
  by_cases hidle : r.Idle
  · rw [if_pos hidle, if_pos (h.idle.mp hidle)]
    exact ⟨rfl, Nat.zero_le n⟩
  · rw [if_neg hidle, if_neg fun h' => hidle (h.idle.mpr h')]
    exact h.pos hidle

/-- One more byte at the same place, of the connection's own. -/
theorem put_agree {b b' : Store} (h : b.bytes.take n = b'.bytes.take n) {p : Nat} (hp : p ≤ n)
    (hlt : p < fixedBufferSize - 1) (c : UInt8) :
    (b.put p c hlt).bytes.take (max n (p + 1)) = (b'.put p c hlt).bytes.take (max n (p + 1)) := by
  have hget : ∀ i, i < n → b.bytes[i]? = b'.bytes[i]? := by
    intro i hi
    rw [← List.getElem?_take_of_lt hi, h, List.getElem?_take_of_lt hi]
  have hsize : b.bytes.length = b'.bytes.length := b.size.trans b'.size.symm
  refine List.ext_getElem? fun i => ?_
  rw [List.getElem?_take, List.getElem?_take]
  split
  · change (b.bytes.set p c)[i]? = (b'.bytes.set p c)[i]?
    rw [List.getElem?_set, List.getElem?_set]
    split
    · rw [hsize]
    · exact hget i (by omega)
  · rfl

/-- Both runs do the same with the row, and the rows agree on the next byte too. -/
def ServedAgree (n : Nat) (served served' : Served) : Prop :=
  served.ret = served'.ret ∧ served.sent = served'.sent ∧ RowAgree n served.row served'.row

theorem servedAgree_reply {b b' : Store} (h : b.bytes.take n = b'.bytes.take n)
    (hb : (visible b.bytes).length ≤ n) (hb' : (visible b'.bytes).length ≤ n) {p p' : Nat}
    (delivered : Bool) : ServedAgree n (b.reply p delivered) (b'.reply p' delivered) := by
  obtain ⟨hreply, hrow⟩ := reply_agree h hb hb' p p'
  cases delivered with
  | true => exact ⟨rfl, congrArg (fun text => [okReply text]) hreply, hrow⟩
  | false => exact ⟨rfl, rfl, hrow⟩

/-- A byte that ends the line also ends what is visible of the row. -/
theorem length_visible_put {b : Store} {p : Nat} {c : UInt8} (hlt : p < fixedBufferSize - 1)
    (h : c = lf ∨ p + 1 = fixedBufferSize - 1) :
    (visible (b.put p c hlt).bytes).length ≤ p + 1 := by
  rcases h with rfl | hfull
  · have hget : (b.put p lf hlt).bytes[p]? = some lf :=
      List.getElem?_set_self (by rw [b.size]; omega)
    exact (length_visible_le_of_stop hget (.inr (.inr rfl))).trans (Nat.le_succ p)
  · exact length_visible_le_of_stop (hfull ▸ (b.put p c hlt).last) (.inl rfl)

/-- How far the connection has written its row after a byte. -/
def ownNext (n : Nat) (row : Row) (readable : Readable) : Nat :=
  if readable = .byte then max n (row.start + 1) else n

theorem RowAgree.sendRecv1 {r r' : Row} (h : RowAgree n r r') (c : UInt8)
    (readable : Readable) (delivered : Bool)
    (hr : readable = .eof → Contained n r) (hr' : readable = .eof → Contained n r') :
    ServedAgree (ownNext n r readable) (sendRecv1 r (readable.recv c) delivered)
      (sendRecv1 r' (readable.recv c) delivered) := by
  obtain ⟨hstart, hle⟩ := h.start
  cases readable with
  | error => exact ⟨rfl, rfl, cleared_agree h.bytes _ _⟩
  | eof =>
      change ServedAgree n (Oneline1.sendRecv1 r .eof delivered)
        (Oneline1.sendRecv1 r' .eof delivered)
      rcases Nat.eq_zero_or_pos r.start with hzero | hpos
      · rw [sendRecv1_eof_idle hzero, sendRecv1_eof_idle (hstart ▸ hzero)]
        exact ⟨rfl, rfl, cleared_agree h.bytes _ _⟩
      · have hbusy : ¬ r.Idle := fun hidle => by
          rw [Row.start, if_pos hidle] at hpos
          exact Nat.lt_irrefl 0 hpos
        rw [sendRecv1_eof hpos, sendRecv1_eof (hstart ▸ hpos)]
        exact servedAgree_reply h.bytes (hr rfl hbusy)
          (hr' rfl fun hidle => hbusy (h.idle.mpr hidle)) delivered
  | byte =>
      change ServedAgree (max n (r.start + 1)) (Oneline1.sendRecv1 r (.byte c) delivered)
        (Oneline1.sendRecv1 r' (.byte c) delivered)
      have hput := put_agree h.bytes hle r.start_lt c
      have hsame : r'.buf.put r'.start c r'.start_lt = r'.buf.put r.start c r.start_lt := by
        congr 1
        exact hstart.symm
      by_cases hends : c = lf ∨ r.start + 1 = fixedBufferSize - 1
      · have hmax := Nat.le_max_right n (r.start + 1)
        rw [sendRecv1_byte_ends hends, sendRecv1_byte_ends (hstart ▸ hends), hsame]
        exact servedAgree_reply hput ((length_visible_put r.start_lt hends).trans hmax)
          ((length_visible_put r.start_lt hends).trans hmax) delivered
      · rw [not_or] at hends
        have hmore : r.start + 1 < fixedBufferSize - 1 := by
          have hlt := r.start_lt
          omega
        rw [sendRecv1_byte_more hends.1 hmore, sendRecv1_byte_more hends.1 (hstart ▸ hmore)]
        rw [← hsame] at hput
        refine ⟨rfl, rfl, hput, ?_, fun _ => ⟨?_, Nat.le_max_right _ _⟩⟩
        · have hhead := congrArg List.head? hput
          rw [List.head?_take, List.head?_take, if_neg (by omega), if_neg (by omega)] at hhead
          exact Eq.congr hhead rfl
        · exact congrArg (· + 1) hstart

end Rows

/-! ## Two runs -/

/-- What two runs share that differ in the bytes of the connections other than `c`. -/
structure Shared (c : ConnId) (s s' : State) : Prop where
  acc : s.acc = s'.acc
  count : s.count = s'.count
  interest : s.interest = s'.interest
  fds : s.fds = s'.fds
  next : s.next = s'.next
  taken : s.taken c = s'.taken c
  rows : ∀ fd, s.fds fd = some (.conn c) →
    s.own fd = s'.own fd ∧ RowAgree (s.own fd) (s.rows fd) (s'.rows fd)
  log : sentOn s.log c = sentOn s'.log c

/-- One run is about to close a connection that goes on in the other. -/
inductive Parted : Pc → Pc → Prop
  | left {fd : Nat} {events events' : List Nat} : Parted (.closing fd events) (.batch events')
  | right {fd : Nat} {events events' : List Nat} : Parted (.batch events') (.closing fd events)

/-- Runs that are parted have no action in common. -/
theorem parted_stuck {k : Startup} {input input' : ConnId → Nat → UInt8} {s s' t t' : State}
    {a : Action} (h : Parted s.pc s'.pc) (hstep : step k input s a = some t)
    (hstep' : step k input' s' a = some t') : False := by
  have hiff := (close_iff_closing hstep).symm.trans (close_iff_closing hstep')
  generalize s.pc = pc, s'.pc = pc' at h hiff
  cases h with
  | left =>
      obtain ⟨_, _, hpc⟩ := hiff.mp ⟨_, _, rfl⟩
      cases hpc
  | right =>
      obtain ⟨_, _, hpc⟩ := hiff.mpr ⟨_, _, rfl⟩
      cases hpc

/-- The descriptor of the event that is next. -/
def State.current (s : State) : Option Nat :=
  match s.pc with
  | .batch (fd :: _) => some fd
  | _ => none

/-- `send_recv_1` will find the end of the stream. -/
def Action.AtEof (a : Action) : Prop := ∃ delivered, a = .sendRecv .eof delivered

instance : DecidablePred Action.AtEof
  | .sendRecv .eof delivered => .isTrue ⟨delivered, rfl⟩
  | .sendRecv .error _ => .isFalse nofun
  | .sendRecv .byte _ => .isFalse nofun
  | .epollWait _ => .isFalse nofun
  | .accept _ => .isFalse nofun
  | .register _ => .isFalse nofun
  | .close => .isFalse nofun

/-- The condition on a step: the end of the stream of connection `c` comes in no line
that shows more of the row than `c` has written. -/
def EndsContained (c : ConnId) (s : State) (a : Action) : Prop :=
  a.AtEof → ∀ fd ∈ s.current, s.fds fd = some (.conn c) → Contained (s.own fd) (s.rows fd)

instance (c : ConnId) (s : State) (a : Action) : Decidable (EndsContained c s a) :=
  inferInstanceAs (Decidable (_ → ∀ fd ∈ s.current, _ → _))

section Step

variable {k : Startup} {input input' : ConnId → Nat → UInt8} {c : ConnId} {s s' t t' : State}
  {a : Action}

theorem rowAgree_idle {r r' : Row} (h : r.Idle) (h' : r'.Idle) : RowAgree 0 r r' where
  bytes := by rw [List.take_zero, List.take_zero]
  idle := iff_of_true h h'
  pos := fun hbusy => absurd h hbusy

theorem serve_own_self (s : State) (fd : Nat) (events : List Nat) (d : ConnId)
    (readable : Readable) (r : Served) :
    (s.serve fd events d readable r).own fd = ownNext (s.own fd) (s.rows fd) readable := by
  dsimp only [State.serve, ownNext]
  split
  · exact Function.update_self _ _ _
  · rfl

theorem serve_own_of_ne (s : State) {fd e : Nat} (h : e ≠ fd) (events : List Nat) (d : ConnId)
    (readable : Readable) (r : Served) :
    (s.serve fd events d readable r).own e = s.own e := by
  dsimp only [State.serve]
  split
  · exact Function.update_of_ne h _ _
  · rfl

theorem serve_rows_of_ne (s : State) {fd e : Nat} (h : e ≠ fd) (events : List Nat) (d : ConnId)
    (readable : Readable) (r : Served) :
    (s.serve fd events d readable r).rows e = s.rows e := Function.update_of_ne h _ _

/-- The connection itself is served in both runs. -/
theorem Shared.serve_own (h : Shared c s s') {fd : Nat} {readable : Readable} {r r' : Served}
    (hserved : ServedAgree (ownNext (s.own fd) (s.rows fd) readable) r r')
    (hown : s.own fd = s'.own fd) (hstart : (s.rows fd).start = (s'.rows fd).start)
    (events : List Nat) :
    Shared c (s.serve fd events c readable r) (s'.serve fd events c readable r') ∧
      (s.serve fd events c readable r).pc = (s'.serve fd events c readable r').pc := by
  obtain ⟨hret, hsent, hrow⟩ := hserved
  refine ⟨⟨h.acc, h.count, h.interest, h.fds, h.next, ?_, fun e he => ?_, ?_⟩, ?_⟩
  · dsimp only [State.serve]
    split
    · rw [Function.update_self, Function.update_self, h.taken]
    · exact h.taken
  · rcases eq_or_ne e fd with rfl | hne
    · rw [serve_own_self, serve_own_self]
      have hsame : ownNext (s.own e) (s.rows e) readable =
          ownNext (s'.own e) (s'.rows e) readable := by
        rw [ownNext, ownNext, hown, hstart]
      refine ⟨hsame, ?_⟩
      dsimp only [State.serve]
      rw [Function.update_self, Function.update_self]
      exact hrow
    · rw [serve_own_of_ne s hne, serve_own_of_ne s' hne, serve_rows_of_ne s hne,
        serve_rows_of_ne s' hne]
      exact h.rows e he
  · dsimp only [State.serve]
    rw [sentOn_append, sentOn_append, h.log, hsent]
  · dsimp only [State.serve]
    rw [hret]

/-- Another connection is served, and may be given up in one of the runs. -/
theorem Shared.serve_other (h : Shared c s s') {fd : Nat} {d : ConnId} (hd : d ≠ c)
    (conn : s.fds fd = some (.conn d)) (readable : Readable) (r r' : Served)
    (events : List Nat) :
    Shared c (s.serve fd events d readable r) (s'.serve fd events d readable r') ∧
      ((s.serve fd events d readable r).pc = (s'.serve fd events d readable r').pc ∨
        Parted (s.serve fd events d readable r).pc (s'.serve fd events d readable r').pc) := by
  refine ⟨⟨h.acc, h.count, h.interest, h.fds, h.next, ?_, fun e he => ?_, ?_⟩, ?_⟩
  · dsimp only [State.serve]
    split
    · rw [Function.update_of_ne hd.symm, Function.update_of_ne hd.symm, h.taken]
    · exact h.taken
  · have hne : e ≠ fd := by
      rintro rfl
      cases conn.symm.trans he
      exact hd rfl
    rw [serve_own_of_ne s hne, serve_own_of_ne s' hne, serve_rows_of_ne s hne,
      serve_rows_of_ne s' hne]
    exact h.rows e he
  · dsimp only [State.serve]
    rw [sentOn_append, sentOn_append, h.log, sentOn_other hd, sentOn_other hd]
  · dsimp only [State.serve]
    split
    · split
      · exact .inl rfl
      · exact .inr .left
    · split
      · exact .inr .right
      · exact .inl rfl

/-- A connection is accepted in both runs, on the same descriptor; its row is idle. -/
theorem Shared.accept (h : Shared c s s') (hidle : IdleInv s) (hidle' : IdleInv s')
    (hpc : s.pc = s'.pc) {result : Option Nat} (move : Move k input s (.accept result) t)
    (move' : Move k input' s' (.accept result) t') : Shared c t t' ∧ t.pc = t'.pc := by
  cases move with
  | acceptFails pc =>
      cases move' with
      | acceptFails pc' =>
          cases pc.symm.trans (hpc.trans pc')
          exact ⟨⟨rfl, h.count, h.interest, h.fds, h.next, h.taken, h.rows, h.log⟩, rfl⟩
  | @accepts events acc pc free =>
      cases move' with
      | accepts pc' free' =>
          cases pc.symm.trans (hpc.trans pc')
          refine ⟨⟨rfl, h.count, h.interest, ?_, ?_, h.taken, fun fd hfd => ?_, h.log⟩, rfl⟩
          · dsimp only
            rw [h.fds, h.next]
          · exact congrArg (· + 1) h.next
          · dsimp only at hfd ⊢
            rcases eq_or_ne fd acc with rfl | hne
            · rw [Function.update_self, Function.update_self]
              refine ⟨rfl, rowAgree_idle (hidle.unused (by simp [pc]) _ fun d hd => ?_)
                (hidle'.unused (by simp [pc']) _ fun d hd => ?_)⟩
              · cases free.1.symm.trans hd
              · cases free'.1.symm.trans hd
            · rw [Function.update_of_ne hne] at hfd ⊢
              rw [Function.update_of_ne hne]
              exact h.rows fd hfd

/-- Both runs have room for the new connection, or both have none. -/
theorem Shared.register (h : Shared c s s') (hpc : s.pc = s'.pc) {added : Bool}
    (move : Move k input s (.register added) t) (move' : Move k input' s' (.register added) t') :
    Shared c t t' ∧ t.pc = t'.pc := by
  have hcount := h.count
  cases move with
  | refuses pc new full =>
      cases move' with
      | refuses pc' new' =>
          cases pc.symm.trans (hpc.trans pc')
          cases new.symm.trans (h.acc.trans new')
          refine ⟨⟨h.acc, h.count, h.interest, ?_, h.next, h.taken,
            fun fd hfd => h.rows fd (held_of_close hfd).2, h.log⟩, rfl⟩
          dsimp only
          rw [h.fds]
      | registers _ _ room => omega
      | registerFails _ _ room => omega
  | registers pc new room =>
      cases move' with
      | refuses _ _ full => omega
      | registers pc' new' =>
          cases pc.symm.trans (hpc.trans pc')
          cases new.symm.trans (h.acc.trans new')
          refine ⟨⟨h.acc, ?_, ?_, h.fds, h.next, h.taken, h.rows, h.log⟩, rfl⟩
          · exact congrArg (· + 1) h.count
          · dsimp only
            rw [h.interest]
  | registerFails pc new room =>
      cases move' with
      | refuses _ _ full => omega
      | registerFails pc' new' =>
          cases new.symm.trans (h.acc.trans new')
          refine ⟨⟨h.acc, h.count, h.interest, ?_, h.next, h.taken,
            fun fd hfd => h.rows fd (held_of_close (held_of_close hfd).2).2, h.log⟩, rfl⟩
          dsimp only
          rw [h.fds]

/-- A connection is given up in both runs. -/
theorem Shared.close (h : Shared c s s') (hpc : s.pc = s'.pc) (move : Move k input s .close t)
    (move' : Move k input' s' .close t') : Shared c t t' ∧ t.pc = t'.pc := by
  cases move with
  | closes pc mem =>
      rw [h.interest] at mem
      cases move' with
      | closes pc' =>
          cases pc.symm.trans (hpc.trans pc')
          refine ⟨⟨h.acc, ?_, ?_, ?_, h.next, h.taken,
            fun fd hfd => h.rows fd (held_of_close hfd).2, h.log⟩, rfl⟩
          · exact congrArg (· - 1) h.count
          · dsimp only
            rw [h.interest]
          · dsimp only
            rw [h.fds]
      | closeFails pc' mem' =>
          cases pc.symm.trans (hpc.trans pc')
          exact absurd mem mem'
  | closeFails pc mem =>
      rw [h.interest] at mem
      cases move' with
      | closes pc' mem' =>
          cases pc.symm.trans (hpc.trans pc')
          exact absurd mem' mem
      | closeFails pc' =>
          refine ⟨⟨h.acc, h.count, h.interest, ?_, h.next, h.taken,
            fun fd hfd => h.rows fd (held_of_closeAcc (held_of_close hfd).2), h.log⟩, rfl⟩
          dsimp only
          rw [h.fds, h.acc]

/-- A connection is served in both runs: the one looked at, or another one. -/
theorem Shared.sendRecv (h : Shared c s s') (hinput : input c = input' c) (hpc : s.pc = s'.pc)
    {readable : Readable} {delivered : Bool}
    (hgood : EndsContained c s (.sendRecv readable delivered))
    (hgood' : EndsContained c s' (.sendRecv readable delivered))
    (move : Move k input s (.sendRecv readable delivered) t)
    (move' : Move k input' s' (.sendRecv readable delivered) t') :
    Shared c t t' ∧ (t.pc = t'.pc ∨ Parted t.pc t'.pc) := by
  cases move with
  | @serves fd events d _ _ pc conn =>
      cases move' with
      | @serves _ _ d' _ _ pc' conn' =>
          cases pc.symm.trans (hpc.trans pc')
          cases (h.fds ▸ conn).symm.trans conn'
          rcases eq_or_ne d c with rfl | hd
          · obtain ⟨hown, hrow⟩ := h.rows fd conn
            have hcurrent : fd ∈ s.current := by
              rw [State.current, pc]
              rfl
            have hcurrent' : fd ∈ s'.current := by
              rw [State.current, pc']
              rfl
            have hserved := hrow.sendRecv1 (input d (s.taken d)) readable delivered
              (fun heof => hgood (heof ▸ ⟨delivered, rfl⟩) fd hcurrent conn)
              (fun heof => hown ▸ hgood' (heof ▸ ⟨delivered, rfl⟩) fd hcurrent' conn')
            have hbyte : input' d (s'.taken d) = input d (s.taken d) := by
              rw [hinput, h.taken]
            obtain ⟨hshared, hsame⟩ := h.serve_own hserved hown hrow.start.1 events
            rw [State.service, State.service, hbyte]
            exact ⟨hshared, .inl hsame⟩
          · exact h.serve_other hd conn readable _ _ events

theorem Shared.step (h : Shared c s s') (hidle : IdleInv s) (hidle' : IdleInv s')
    (hinput : input c = input' c) (hpc : s.pc = s'.pc)
    (hgood : EndsContained c s a) (hgood' : EndsContained c s' a)
    (hstep : step k input s a = some t) (hstep' : step k input' s' a = some t') :
    Shared c t t' ∧ (t.pc = t'.pc ∨ Parted t.pc t'.pc) := by
  have move := move_of_step hstep
  have move' := move_of_step hstep'
  cases a with
  | epollWait ready =>
      cases move
      cases move'
      exact ⟨⟨h.acc, h.count, h.interest, h.fds, h.next, h.taken, h.rows, h.log⟩, .inl rfl⟩
  | accept result =>
      obtain ⟨hshared, hsame⟩ := h.accept hidle hidle' hpc move move'
      exact ⟨hshared, .inl hsame⟩
  | register added =>
      obtain ⟨hshared, hsame⟩ := h.register hpc move move'
      exact ⟨hshared, .inl hsame⟩
  | sendRecv readable delivered => exact h.sendRecv hinput hpc hgood hgood' move move'
  | close =>
      obtain ⟨hshared, hsame⟩ := h.close hpc move move'
      exact ⟨hshared, .inl hsame⟩

end Step

theorem shared_init (k : Startup) (c : ConnId) : Shared c (init k) (init k) where
  acc := rfl
  count := rfl
  interest := rfl
  fds := rfl
  next := rfl
  taken := rfl
  rows := fun fd hfd => absurd hfd (k.noConn fd c)
  log := rfl

/-- What is sent on a connection depends only on its own bytes, in runs that never
find the end of its stream in a line that shows more of the row than it has
written. -/
theorem sent_independent (k : Startup) (c : ConnId) (input input' : ConnId → Nat → UInt8)
    (hinput : input c = input' c) (acts : List Action) (s s' : State)
    (run : exec (guarded (EndsContained c) (step k input)) (init k) acts = some s)
    (run' : exec (guarded (EndsContained c) (step k input')) (init k) acts = some s') :
    sentOn s.log c = sentOn s'.log c := by
  let R : State → State → Prop := fun s s' =>
    (IdleInv s ∧ IdleInv s') ∧ Shared c s s' ∧ (s.pc = s'.pc ∨ Parted s.pc s'.pc)
  have start : R (init k) (init k) :=
    ⟨⟨idleInv_init k, idleInv_init k⟩, shared_init k c, .inl rfl⟩
  have hend : R s s' := by
    refine exec_related ?_ start run run'
    rintro u u' a v v' ⟨⟨hidle, hidle'⟩, hshared, hpc⟩ hmove hmove'
    obtain ⟨hgood, hstep⟩ := guarded_eq_some.mp hmove
    obtain ⟨hgood', hstep'⟩ := guarded_eq_some.mp hmove'
    refine ⟨⟨hidle.step hstep, hidle'.step hstep'⟩, ?_⟩
    rcases hpc with hpc | hparted
    · exact hshared.step hidle hidle' hinput hpc hgood hgood' hstep hstep'
    · exact absurd hstep' fun h => parted_stuck hparted hstep h
  exact hend.2.1.log

/-! ## A line cut off behind a longer one -/

/-- A connection is accepted on descriptor 5. -/
def acceptOn5 : List Action := [.epollWait [3], .accept (some 5), .register true]

/-- The connection on descriptor 5 is readable. -/
def serve5 (readable : Readable) : List Action := [.epollWait [5], .sendRecv readable true]

/-- A connection sends a line of four bytes and closes; the next one gets its
descriptor, sends `n` bytes and closes. -/
def twoClients (n : Nat) : List Action :=
  acceptOn5 ++ (List.replicate 4 (serve5 .byte)).flatten ++ serve5 .eof ++ [.close] ++
    acceptOn5 ++ (List.replicate n (serve5 .byte)).flatten ++ serve5 .eof

/-- The first connection sends `"abc\n"` or `"axc\n"` and the second one `"z\n"`. -/
theorem sent_independent_newline :
    ∃ s s',
      exec (guarded (EndsContained 1) (step .plain (streams [[97, 98, 99, lf], [122, lf]])))
        (init .plain) (twoClients 2) = some s ∧
      exec (guarded (EndsContained 1) (step .plain (streams [[97, 120, 99, lf], [122, lf]])))
        (init .plain) (twoClients 2) = some s' ∧
      sentOn s.log 1 = sentOn s'.log 1 := by
  have run : (exec (guarded (EndsContained 1) (step .plain
      (streams [[97, 98, 99, lf], [122, lf]]))) (init .plain) (twoClients 2)).isSome := by
    decide +kernel
  have run' : (exec (guarded (EndsContained 1) (step .plain
      (streams [[97, 120, 99, lf], [122, lf]]))) (init .plain) (twoClients 2)).isSome := by
    decide +kernel
  obtain ⟨s, hs⟩ := Option.isSome_iff_exists.mp run
  obtain ⟨s', hs'⟩ := Option.isSome_iff_exists.mp run'
  have hinput : streams [[97, 98, 99, lf], [122, lf]] 1 =
      streams [[97, 120, 99, lf], [122, lf]] 1 := funext fun _ => rfl
  exact ⟨s, s', hs, hs', sent_independent _ 1 _ _ hinput _ s s' hs hs'⟩

/-- Without a newline behind its `"z"` the second connection is sent bytes of the
first one. -/
theorem other_bytes_sent :
    ∃ s s',
      exec (step .plain (streams [[97, 98, 99, lf], [122]])) (init .plain) (twoClients 1) =
        some s ∧
      exec (step .plain (streams [[97, 120, 99, lf], [122]])) (init .plain) (twoClients 1) =
        some s' ∧
      streams [[97, 98, 99, lf], [122]] 1 = streams [[97, 120, 99, lf], [122]] 1 ∧
      sentOn s.log 1 = [okReply [122, 98, 99]] ∧ sentOn s'.log 1 = [okReply [122, 120, 99]] ∧
      sentOn s.log 1 ≠ sentOn s'.log 1 := by
  have run : (exec (step .plain (streams [[97, 98, 99, lf], [122]])) (init .plain)
      (twoClients 1)).map (fun s => sentOn s.log 1) = some [okReply [122, 98, 99]] := by
    decide +kernel
  have run' : (exec (step .plain (streams [[97, 120, 99, lf], [122]])) (init .plain)
      (twoClients 1)).map (fun s => sentOn s.log 1) = some [okReply [122, 120, 99]] := by
    decide +kernel
  obtain ⟨s, hs, hsent⟩ := Option.map_eq_some_iff.mp run
  obtain ⟨s', hs', hsent'⟩ := Option.map_eq_some_iff.mp run'
  refine ⟨s, s', hs, hs', rfl, hsent, hsent', ?_⟩
  rw [hsent, hsent']
  decide

end NetworkProgram.Oneline1
