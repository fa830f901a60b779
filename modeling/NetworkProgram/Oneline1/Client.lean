import NetworkProgram.Oneline1.Lines

set_option autoImplicit false

/-!
# Oneline1: a run with one client

`accept_loop` of a server that was just started and has one client: it calls
`send_recv_1` once for every byte of the client's stream and for its end, and so
sends what `serve` says.
-/

namespace NetworkProgram.Oneline1

open NetworkProgram.Foundation
open NetworkProgram.Kernel
open NetworkProgram.Libc

/-- Connection `c` is open on descriptor `fd`, and `accept_loop` waits. -/
structure Solo (k : Startup) (s : State) (fd : Nat) (c : ConnId) : Prop where
  pc : s.pc = .batch []
  conn : s.fds fd = some (.conn c)
  registered : fd ∈ s.interest
  ne : fd ≠ k.soc
  row : fd < maxChild * 4

/-- The descriptor is readable, and `send_recv_1` is called. -/
def call (fd : Nat) (readable : Readable) : List Action :=
  [.epollWait [fd], .sendRecv readable true]

/-- Every byte of a stream of `n` bytes, and its end `ends` times. -/
def calls (fd n ends : Nat) : List Action :=
  (List.replicate n (call fd .byte)).flatten ++ (List.replicate ends (call fd .eof)).flatten

section Calls

variable {k : Startup} (input : ConnId → Nat → UInt8) {s : State} {fd : Nat} {c : ConnId}

theorem Solo.exec_call (h : Solo k s fd c) (readable : Readable) :
    exec (step k input) s (call fd readable) =
      some (s.serve fd [] c readable (s.service input fd c readable true)) := by
  have hwait : step k input s (.epollWait [fd]) = some { s with pc := .batch [fd] } := by
    change epollWait k s [fd] = _
    rw [epollWait, h.pc]
    have hready : [fd].Nodup ∧ [fd].length ≤ maxChild + 1 ∧
        ∀ e ∈ [fd], e = k.soc ∨ e ∈ s.interest := by
      refine ⟨List.pairwise_singleton _ fd, Nat.succ_le_succ (Nat.zero_le _), fun e he => .inr ?_⟩
      exact List.mem_singleton.mp he ▸ h.registered
    exact if_pos hready
  have hserve : step k input { s with pc := .batch [fd] } (.sendRecv readable true) =
      some (s.serve fd [] c readable (s.service input fd c readable true)) := by
    change sendRecv k input { s with pc := .batch [fd] } readable true = _
    rw [sendRecv]
    dsimp only
    rw [h.conn]
    exact if_pos ⟨h.ne, h.row⟩
  exact exec_cons_eq_some.mpr ⟨_, hwait, exec_cons_eq_some.mpr ⟨_, hserve, rfl⟩⟩

/-- A call that does not give the connection up: the next one finds the new row. -/
theorem Solo.serve (h : Solo k s fd c) (readable : Readable) {r : Served} (hret : r.ret ≠ -1) :
    Solo k (s.serve fd [] c readable r) fd c where
  pc := if_neg hret
  conn := h.conn
  registered := h.registered
  ne := h.ne
  row := h.row

theorem sentOn_serve (s : State) (fd : Nat) (events : List Nat) (c : ConnId)
    (readable : Readable) (r : Served) :
    sentOn (s.serve fd events c readable r).log c = sentOn s.log c ++ r.sent := by
  dsimp only [State.serve]
  rw [sentOn_append, sentOn_self]

/-- After a call that gives the connection up it is closed. -/
theorem Solo.exec_close (h : Solo k s fd c) (readable : Readable) {r : Served}
    (hret : r.ret = -1) :
    ∃ t, exec (step k input) (s.serve fd [] c readable r) [.close] = some t ∧
      t.pc = .batch [] ∧ t.fds fd = none ∧ sentOn t.log c = sentOn s.log c ++ r.sent := by
  have hpc : (s.serve fd [] c readable r).pc = .closing fd [] := if_pos hret
  have hmem : fd ∈ (s.serve fd [] c readable r).interest := h.registered
  have hlog := sentOn_serve s fd [] c readable r
  generalize s.serve fd [] c readable r = u at hpc hmem hlog ⊢
  have hclose : step k input u .close = some { u with
      pc := .batch []
      interest := u.interest.erase fd
      fds := Function.update u.fds fd none
      count := u.count - 1 } := by
    change close k u = _
    rw [close, hpc]
    exact if_pos hmem
  exact ⟨_, exec_cons_eq_some.mpr ⟨_, hclose, rfl⟩, rfl, Function.update_self _ _ _, hlog⟩

/-- `send_recv_1` never gives a connection up on a byte. -/
theorem sendRecv1_byte_ret (row : Row) (b : UInt8) : (sendRecv1 row (.byte b) true).ret ≠ -1 := by
  by_cases hends : b = lf ∨ row.start + 1 = fixedBufferSize - 1
  · rw [sendRecv1_byte_ends hends, reply_sent]
    exact (by decide : (0 : Int) ≠ -1)
  · rw [not_or] at hends
    have hlt := row.start_lt
    have hmore : row.start + 1 < fixedBufferSize - 1 := by omega
    rw [sendRecv1_byte_more hends.1 hmore]
    exact (by decide : (-2 : Int) ≠ -1)

theorem serve_taken (s : State) (fd : Nat) (events : List Nat) (c : ConnId) (r : Served) :
    (s.serve fd events c .byte r).taken c = s.taken c + 1 := Function.update_self _ _ _

theorem serve_rows_self (s : State) (fd : Nat) (events : List Nat) (c : ConnId)
    (readable : Readable) (r : Served) : (s.serve fd events c readable r).rows fd = r.row :=
  Function.update_self _ _ _

/-- The last call: no line is under way. -/
theorem Solo.run_last (h : Solo k s fd c) (hzero : (s.rows fd).start = 0) :
    ∃ t, exec (step k input) s (call fd .eof ++ [.close]) = some t ∧ t.pc = .batch [] ∧
      t.fds fd = none ∧ sentOn t.log c = sentOn s.log c := by
  have hcall := h.exec_call input .eof
  have hservice : s.service input fd c .eof true =
      { ret := -1, row := .cleared (s.rows fd).buf (s.rows fd).start, sent := [] } :=
    sendRecv1_eof_idle hzero true
  rw [hservice] at hcall
  obtain ⟨t, hclose, hpc, hfd, hlog⟩ := h.exec_close input .eof
    (r := { ret := -1, row := .cleared (s.rows fd).buf (s.rows fd).start, sent := [] }) rfl
  refine ⟨t, (exec_append _ hcall).trans hclose, hpc, hfd, ?_⟩
  rw [hlog, List.append_nil]

/-- The end of the stream answers the line under way, if any, and then closes. -/
theorem Solo.run_end (h : Solo k s fd c) :
    ∃ ends t, exec (step k input) s (calls fd 0 ends ++ [.close]) = some t ∧
      t.pc = .batch [] ∧ t.fds fd = none ∧
      sentOn t.log c = sentOn s.log c ++ Oneline1.serve (s.rows fd) [.eof, .eof] := by
  rcases Nat.eq_zero_or_pos (s.rows fd).start with hzero | hpos
  · obtain ⟨t, hrun, hpc, hfd, hlog⟩ := h.run_last input hzero
    refine ⟨1, t, hrun, hpc, hfd, ?_⟩
    rw [hlog, serve_end (sendRecv1_eof_idle hzero true), List.append_nil]
  · have hreply := (sendRecv1_eof hpos true).trans (reply_sent _ _)
    have hret : (s.service input fd c .eof true).ret ≠ -1 := by
      change (sendRecv1 (s.rows fd) .eof true).ret ≠ -1
      rw [hreply]
      exact (by decide : (0 : Int) ≠ -1)
    have hidle : (s.service input fd c .eof true).row.start = 0 := by
      change (sendRecv1 (s.rows fd) .eof true).row.start = 0
      rw [hreply]
      exact Row.start_of_idle (idle_cleared _ _)
    have hcall := h.exec_call input .eof
    obtain ⟨t, hrun, hpc, hfd, hlog⟩ := (h.serve .eof hret).run_last input
      (by rw [serve_rows_self, hidle])
    have hserve : Oneline1.serve (s.rows fd) [.eof, .eof] =
        (s.service input fd c .eof true).sent ++
          Oneline1.serve (s.service input fd c .eof true).row [.eof] := if_neg hret
    refine ⟨2, t, (exec_append _ hcall).trans hrun, hpc, hfd, ?_⟩
    rw [hlog, sentOn_serve, hserve, serve_end (sendRecv1_eof_idle hidle true), List.append_nil]

/-- The calls for the stream of the client, and the end of its connection. -/
theorem Solo.run (h : Solo k s fd c) {data : Bytes}
    (hdata : ∀ i, i < data.length → data[i]? = some (input c (s.taken c + i))) :
    ∃ ends t, exec (step k input) s (calls fd data.length ends ++ [.close]) = some t ∧
      t.pc = .batch [] ∧ t.fds fd = none ∧
      sentOn t.log c = sentOn s.log c ++ Oneline1.serve (s.rows fd) (events data) := by
  induction data generalizing s with
  | nil => exact h.run_end input
  | cons b data ih =>
      have hret := sendRecv1_byte_ret (s.rows fd) b
      have hb : input c (s.taken c) = b := (Option.some_inj.mp (hdata 0 (Nat.succ_pos _))).symm
      have hservice : s.service input fd c .byte true = sendRecv1 (s.rows fd) (.byte b) true := by
        rw [State.service, hb, Readable.recv]
      have hcall := h.exec_call input .byte
      rw [hservice] at hcall
      obtain ⟨ends, t, hrun, hpc, hfd, hlog⟩ := ih (h.serve .byte hret)
        fun i hi => by
          rw [serve_taken, Nat.add_assoc, Nat.add_comm 1 i]
          exact hdata (i + 1) (Nat.succ_lt_succ hi)
      refine ⟨ends, t, ?_, hpc, hfd, ?_⟩
      · have hsplit : calls fd (b :: data).length ends ++ [.close] =
            call fd .byte ++ (calls fd data.length ends ++ [.close]) := by
          rw [calls, List.length_cons, List.replicate_succ, List.flatten_cons, calls]
          simp only [List.append_assoc]
        rw [hsplit, exec_append _ hcall]
        exact hrun
      · have hserve : Oneline1.serve (s.rows fd) (events (b :: data)) =
            (sendRecv1 (s.rows fd) (.byte b) true).sent ++
              Oneline1.serve (sendRecv1 (s.rows fd) (.byte b) true).row (events data) := if_neg hret
        rw [hlog, sentOn_serve, List.append_assoc, hserve, serve_rows_self]

end Calls

/-- The client's connection is accepted. -/
def opening (k : Startup) (fd : Nat) : List Action :=
  [.epollWait [k.soc], .accept (some fd), .register true]

theorem exec_opening {k : Startup} (input : ConnId → Nat → UInt8) {fd : Nat}
    (hfree : LowestFree k.table fd) (hrow : fd < maxChild * 4) :
    ∃ s, exec (step k input) (init k) (opening k fd) = some s ∧ Solo k s fd 0 ∧
      s.rows fd = .zero ∧ s.taken 0 = 0 ∧ s.log = [] := by
  have hwait : step k input (init k) (.epollWait [k.soc]) =
      some { init k with pc := .batch [k.soc] } := by
    refine if_pos
      ⟨List.pairwise_singleton _ k.soc, Nat.succ_le_succ (Nat.zero_le _), fun e he => ?_⟩
    exact .inl (List.mem_singleton.mp he)
  have haccept : step k input { init k with pc := .batch [k.soc] } (.accept (some fd)) =
      some { init k with
        pc := .accepted []
        acc := some fd
        fds := Function.update k.table fd (some (.conn 0))
        next := 1
        own := Function.update (fun _ => 0) fd 0 } := by
    change (if k.soc = k.soc then _ else _) = _
    rw [if_pos rfl]
    exact if_pos hfree
  have hne : fd ≠ k.soc := by
    rintro rfl
    cases hfree.1.symm.trans k.soc_listening
  refine ⟨_, exec_cons_eq_some.mpr ⟨_, hwait, exec_cons_eq_some.mpr ⟨_, haccept,
    exec_cons_eq_some.mpr ⟨_, rfl, rfl⟩⟩⟩, ⟨rfl, Function.update_self _ _ _,
    List.mem_cons_self, hne, hrow⟩, rfl, rfl, rfl⟩

/-- A server that was just started, and its client: every byte of the stream, its end as
often as `send_recv_1` asks for it, and the close. -/
theorem client_served {k : Startup} {fd : Nat} (hfree : LowestFree k.table fd)
    (hrow : fd < maxChild * 4) (data : Bytes) :
    ∃ ends t, exec (step k (streams [data])) (init k)
        (opening k fd ++ (calls fd data.length ends ++ [.close])) = some t ∧
      t.pc = .batch [] ∧ t.fds fd = none ∧ sentOn t.log 0 = serve .zero (events data) := by
  obtain ⟨s, hopen, hsolo, hzero, htaken, hlog⟩ := exec_opening (streams [data]) hfree hrow
  have hdata : ∀ i, i < data.length → data[i]? = some (streams [data] 0 (s.taken 0 + i)) := by
    intro i hi
    rw [htaken, Nat.zero_add]
    change data[i]? = some (data.getD i 0)
    rw [List.getD_eq_getElem?_getD, List.getElem?_eq_getElem hi, Option.getD_some]
  obtain ⟨ends, t, hrun, hpc, hfd, hsent⟩ := hsolo.run _ hdata
  refine ⟨ends, t, (exec_append _ hopen).trans hrun, hpc, hfd, ?_⟩
  rw [hsent, hlog, hzero]
  rfl

end NetworkProgram.Oneline1
