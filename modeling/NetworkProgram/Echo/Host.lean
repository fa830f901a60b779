import NetworkProgram.Foundation.Runs
import NetworkProgram.Kernel.Descriptors
import NetworkProgram.Echo.SendRecv

set_option autoImplicit false

/-!
# Echo: descriptors and the log of a server

What the three servers do to their descriptors, whatever table they keep beside
them.  A wake-up of a server is a list of `Move`s; the rules of this module
say what holds after any such list.
-/

namespace NetworkProgram.Echo

open NetworkProgram.Foundation
open NetworkProgram.Kernel
open NetworkProgram.Libc

/-- The descriptors when the accept loop starts: the listening socket is open, no
connection is. -/
structure Listener where
  table : Table
  soc : Nat
  soc_listening : table soc = some .listening
  noConn : ∀ d c, table d ≠ some (.conn c)
  finite : ∃ n, ∀ d, n ≤ d → table d = none

/-- A server started from a shell: 0 to 2 are the standard streams. -/
def Listener.plain : Listener where
  table := fun d => if d < 3 then some .other else if d = 3 then some .listening else none
  soc := 3
  soc_listening := rfl
  noConn := by
    intro d c
    split_ifs <;> simp
  finite := ⟨4, fun d hd => by rw [if_neg (by omega), if_neg (by omega)]⟩

/-- What a server did.  A descriptor stands for what it refers to at that moment. -/
inductive Event
  /-- `accept` returned connection `c`. -/
  | accepted (c : ConnId)
  /-- `send_recv` was called, which receives. -/
  | called (d : Option Desc)
  | sent (d : Option Desc) (m : Bytes)
  | closed (d : Option Desc)
  deriving DecidableEq, Repr

/-- What the kernel keeps for a server, and the log of what happened. -/
structure Host where
  fds : Table
  /-- The number of connections accepted so far. -/
  next : ConnId
  log : List Event

namespace Host

def start (k : Listener) : Host where
  fds := k.table
  next := 0
  log := []

/-- `accept` returns the descriptor `d`. -/
def accept (h : Host) (d : Nat) : Host where
  fds := Function.update h.fds d (some (.conn h.next))
  next := h.next + 1
  log := h.log ++ [.accepted h.next]

def close (h : Host) (fd : Nat) : Host :=
  { h with fds := Function.update h.fds fd none, log := h.log ++ [.closed (h.fds fd)] }

/-- `send_recv(fd, ..)` -/
def call (h : Host) (fd : Nat) (a : Answer) : Host :=
  { h with log := h.log ++ .called (h.fds fd) :: (sendRecv a).sent.map (.sent (h.fds fd)) }

end Host

/-! ## Moves -/

inductive Move
  /-- A connection is accepted and kept. -/
  | keep (d : Nat)
  /-- A connection is accepted and closed at once. -/
  | refuse (d : Nat)
  /-- `send_recv`, and `close` if it returns -1. -/
  | visit (fd : Nat) (a : Answer)
  /-- The epoll instance is closed. -/
  | drop (fd : Nat)

namespace Host

def visit (h : Host) (fd : Nat) (a : Answer) : Host :=
  if (sendRecv a).ret = -1 then (h.call fd a).close fd else h.call fd a

def step (h : Host) : Move → Option Host
  | .keep d => if LowestFree h.fds d then some (h.accept d) else none
  | .refuse d => if LowestFree h.fds d then some ((h.accept d).close d) else none
  | .visit fd a => some (h.visit fd a)
  | .drop fd => if h.fds fd = some .epoll then some (h.close fd) else none

/-- What a move adds to the log. -/
def emitted (h : Host) : Move → List Event
  | .keep _ => [.accepted h.next]
  | .refuse _ => [.accepted h.next, .closed (some (.conn h.next))]
  | .visit fd a =>
      .called (h.fds fd) :: (sendRecv a).sent.map (.sent (h.fds fd)) ++
        if (sendRecv a).ret = -1 then [.closed (h.fds fd)] else []
  | .drop fd => [.closed (h.fds fd)]

end Host

/-- The descriptors that `send_recv` is called on, in order. -/
def calls (moves : List Move) : List Nat :=
  moves.filterMap fun
    | .visit fd _ => some fd
    | _ => none

@[simp] theorem calls_nil : calls [] = [] := rfl

theorem calls_append (left right : List Move) :
    calls (left ++ right) = calls left ++ calls right :=
  List.filterMap_append

/-! ## What a move does -/

section Step

variable {h t : Host} {m : Move}

theorem Host.step_log (move : h.step m = some t) : t.log = h.log ++ h.emitted m := by
  cases m with
  | keep d =>
      simp only [Host.step, Option.ite_none_right_eq_some, Option.some.injEq] at move
      obtain ⟨-, rfl⟩ := move
      rfl
  | refuse d =>
      simp only [Host.step, Option.ite_none_right_eq_some, Option.some.injEq] at move
      obtain ⟨-, rfl⟩ := move
      simp [Host.close, Host.accept, Host.emitted]
  | visit fd a =>
      obtain rfl := Option.some.inj move
      by_cases hret : (sendRecv a).ret = -1 <;>
        simp [Host.visit, Host.emitted, Host.close, Host.call, hret]
  | drop fd =>
      simp only [Host.step, Option.ite_none_right_eq_some, Option.some.injEq] at move
      obtain ⟨-, rfl⟩ := move
      rfl

end Step

/-! ## What every list of moves keeps -/

/-- The log and the descriptors agree: a connection is open from its `accept` to
its `close`, and is closed once. -/
structure Host.Ok (soc : Nat) (h : Host) : Prop where
  soc : h.fds soc = some .listening
  injective : Table.ConnInjective h.fds
  accepted : ∀ c, .accepted c ∈ h.log ↔ c < h.next
  closed_lt : ∀ c, .closed (some (.conn c)) ∈ h.log → c < h.next
  open_iff : ∀ c, h.fds.Open c ↔ c < h.next ∧ .closed (some (.conn c)) ∉ h.log
  once : ∀ c, h.log.count (.closed (some (.conn c))) ≤ 1
  closes : .closed none ∉ h.log
  finite : ∃ n, ∀ d, n ≤ d → h.fds d = none

theorem Host.ok_start (k : Listener) : Host.Ok k.soc (Host.start k) where
  soc := k.soc_listening
  injective := fun d _ c hd => absurd hd (k.noConn d c)
  accepted := fun c => by simp [Host.start]
  closed_lt := fun c h => absurd h List.not_mem_nil
  open_iff := fun c => by simp [Host.start, Table.Open, k.noConn]
  once := fun c => by simp [Host.start]
  closes := List.not_mem_nil
  finite := k.finite

section Ok

variable {soc : Nat} {h : Host}

theorem Host.Ok.lt_next (ok : h.Ok soc) {d : Nat} {c : ConnId} (hd : h.fds d = some (.conn c)) :
    c < h.next :=
  ((ok.open_iff c).mp ⟨d, hd⟩).1

theorem Host.Ok.ne_soc (ok : h.Ok soc) {d : Nat} {c : ConnId} (hd : h.fds d = some (.conn c)) :
    d ≠ soc := by
  rintro rfl
  rw [ok.soc] at hd
  cases hd

theorem Host.Ok.finite_close (ok : h.Ok soc) (fd : Nat) :
    ∃ n, ∀ d, n ≤ d → (h.close fd).fds d = none := by
  obtain ⟨n, hn⟩ := ok.finite
  refine ⟨n, fun d hd => ?_⟩
  rcases eq_or_ne d fd with rfl | hne
  · exact Function.update_self ..
  · exact (Function.update_of_ne hne _ _).trans (hn d hd)

theorem Host.Ok.accept (ok : h.Ok soc) {d : Nat} (free : LowestFree h.fds d) :
    (h.accept d).Ok soc where
  soc := Table.update_of_held ok.soc (by simp [free.1]) _
  injective := ok.injective.open_ (fun e he => Nat.lt_irrefl _ (ok.lt_next he)) d
  accepted := by
    intro c
    simp only [Host.accept, List.mem_append, List.mem_singleton, Event.accepted.injEq, ok.accepted]
    exact Nat.lt_succ_iff_lt_or_eq.symm
  closed_lt := by
    intro c hc
    simp only [Host.accept, List.mem_append, List.mem_singleton, reduceCtorEq, or_false] at hc
    exact Nat.lt_succ_of_lt (ok.closed_lt c hc)
  open_iff := by
    intro c
    have hclosed := ok.closed_lt c
    simp only [Host.accept, List.mem_append, List.mem_singleton, reduceCtorEq, or_false,
      Table.open_accept free.1, ok.open_iff c]
    constructor
    · rintro (rfl | ⟨hlt, hnot⟩)
      · exact ⟨Nat.lt_succ_self _, fun hmem => Nat.lt_irrefl _ (hclosed hmem)⟩
      · exact ⟨Nat.lt_succ_of_lt hlt, hnot⟩
    · rintro ⟨hlt, hnot⟩
      rcases Nat.lt_succ_iff_lt_or_eq.mp hlt with hlt | rfl
      · exact .inr ⟨hlt, hnot⟩
      · exact .inl rfl
  once := by
    intro c
    simpa [Host.accept, List.count_append] using ok.once c
  closes := by
    simpa [Host.accept] using ok.closes
  finite := by
    obtain ⟨n, hn⟩ := ok.finite
    refine ⟨max n (d + 1), fun e he => ?_⟩
    exact (Function.update_of_ne (by omega) _ _).trans (hn e (by omega))

theorem Host.Ok.call (ok : h.Ok soc) (fd : Nat) (a : Answer) : (h.call fd a).Ok soc where
  soc := ok.soc
  injective := ok.injective
  accepted := fun c => by simpa [Host.call] using ok.accepted c
  closed_lt := fun c => by simpa [Host.call] using ok.closed_lt c
  open_iff := fun c => by simpa [Host.call] using ok.open_iff c
  once := by
    intro c
    have hnot : Event.closed (some (.conn c)) ∉
        (sendRecv a).sent.map (Event.sent (h.fds fd)) := by simp
    simpa [Host.call, List.count_append, List.count_eq_zero.mpr hnot] using ok.once c
  closes := by simpa [Host.call] using ok.closes
  finite := ok.finite

theorem Host.Ok.close (ok : h.Ok soc) {fd : Nat} {c : ConnId} (hfd : h.fds fd = some (.conn c)) :
    (h.close fd).Ok soc where
  soc := Table.update_of_held ok.soc (by simp [hfd]) _
  injective := ok.injective.close fd
  accepted := fun e => by simpa [Host.close] using ok.accepted e
  closed_lt := by
    intro e he
    simp only [Host.close, hfd, List.mem_append, List.mem_singleton, Event.closed.injEq,
      Option.some.injEq, Desc.conn.injEq] at he
    rcases he with he | rfl
    · exact ok.closed_lt e he
    · exact ok.lt_next hfd
  open_iff := by
    intro e
    simp only [Host.close, hfd, List.mem_append, List.mem_singleton, Event.closed.injEq,
      Option.some.injEq, Desc.conn.injEq, ok.injective.open_close hfd, ok.open_iff e, not_or,
      and_assoc]
  once := by
    intro e
    have hopen := ((ok.open_iff c).mp ⟨fd, hfd⟩).2
    simp only [Host.close, hfd, List.count_append]
    rcases eq_or_ne e c with rfl | hne
    · simp [List.count_eq_zero.mpr hopen]
    · simpa [hne.symm] using ok.once e
  closes := by simpa [Host.close, hfd] using ok.closes
  finite := ok.finite_close fd

theorem Host.Ok.drop (ok : h.Ok soc) {fd : Nat} (hfd : h.fds fd = some .epoll) :
    (h.close fd).Ok soc where
  soc := Table.update_of_held ok.soc (by simp [hfd]) _
  injective := ok.injective.close fd
  accepted := fun e => by simpa [Host.close] using ok.accepted e
  closed_lt := fun e => by simpa [Host.close, hfd] using ok.closed_lt e
  open_iff := by
    intro e
    have hother : ∀ c, h.fds fd ≠ some (.conn c) := fun c => by rw [hfd]; simp
    simpa [Host.close, hfd, Table.open_close_other hother] using ok.open_iff e
  once := fun e => by simpa [Host.close, hfd, List.count_append] using ok.once e
  closes := by simpa [Host.close, hfd] using ok.closes
  finite := ok.finite_close fd

theorem Host.Ok.visit (ok : h.Ok soc) {fd : Nat} {c : ConnId} (hfd : h.fds fd = some (.conn c))
    (a : Answer) : (h.visit fd a).Ok soc := by
  unfold Host.visit
  split
  · exact (ok.call fd a).close (h := h.call fd a) hfd
  · exact ok.call fd a

theorem Host.fds_refuse {d : Nat} (free : LowestFree h.fds d) :
    ((h.accept d).close d).fds = h.fds := by
  dsimp only [Host.accept, Host.close]
  rw [Function.update_idem, ← free.1, Function.update_eq_self]

theorem Host.Ok.refuse (ok : h.Ok soc) {d : Nat} (free : LowestFree h.fds d) :
    ((h.accept d).close d).Ok soc :=
  (ok.accept free).close (Function.update_self d _ h.fds)

theorem Host.Ok.step {m : Move} {t : Host} (ok : h.Ok soc) (move : h.step m = some t)
    (conns : ∀ fd ∈ calls [m], ∃ c, h.fds fd = some (.conn c)) : t.Ok soc := by
  cases m with
  | keep d =>
      simp only [Host.step, Option.ite_none_right_eq_some, Option.some.injEq] at move
      obtain ⟨free, rfl⟩ := move
      exact ok.accept free
  | refuse d =>
      simp only [Host.step, Option.ite_none_right_eq_some, Option.some.injEq] at move
      obtain ⟨free, rfl⟩ := move
      exact ok.refuse free
  | visit fd a =>
      obtain rfl := Option.some.inj move
      obtain ⟨c, hc⟩ := conns fd List.mem_cons_self
      exact ok.visit hc a
  | drop fd =>
      simp only [Host.step, Option.ite_none_right_eq_some, Option.some.injEq] at move
      obtain ⟨hfd, rfl⟩ := move
      exact ok.drop hfd

end Ok

/-! ## Calls on connections that were ready -/

/-- Of the events that follow `h`, each call of `send_recv` is for a connection that
was open in `h` on a descriptor that was `ready`; it is the first such call, and
before it that connection was not closed. -/
def OnlyReady (h : Host) (ready : Nat → Prop) (events : List Event) : Prop :=
  ∀ before d after, events = before ++ .called d :: after →
    ∃ fd c, ready fd ∧ h.fds fd = some (.conn c) ∧ d = some (.conn c) ∧
      .called d ∉ before ∧ .closed d ∉ before ∧ .accepted c ∉ events

theorem OnlyReady.mono {h : Host} {ready ready' : Nat → Prop} {events : List Event}
    (honly : OnlyReady h ready events) (himp : ∀ fd, ready fd → ready' fd) :
    OnlyReady h ready' events := by
  intro before d after hsplit
  obtain ⟨fd, c, hready, hrest⟩ := honly before d after hsplit
  exact ⟨fd, c, himp fd hready, hrest⟩

section Batch

variable {soc : Nat} {h t : Host} {m : Move}

/-- A move leaves the connections alone that it does not call. -/
theorem Host.step_fds (move : h.step m = some t) {fd : Nat} {c : ConnId}
    (hfd : h.fds fd = some (.conn c)) (hnot : fd ∉ calls [m]) : t.fds fd = some (.conn c) := by
  cases m with
  | keep d =>
      simp only [Host.step, Option.ite_none_right_eq_some, Option.some.injEq] at move
      obtain ⟨free, rfl⟩ := move
      exact Table.update_of_held hfd (by simp [free.1]) _
  | refuse d =>
      simp only [Host.step, Option.ite_none_right_eq_some, Option.some.injEq] at move
      obtain ⟨free, rfl⟩ := move
      rcases eq_or_ne fd d with rfl | hne
      · rw [free.1] at hfd
        cases hfd
      · exact (Function.update_of_ne hne _ _).trans ((Function.update_of_ne hne _ _).trans hfd)
  | visit d a =>
      obtain rfl := Option.some.inj move
      have hne : fd ≠ d := fun heq => hnot (heq ▸ List.mem_cons_self)
      unfold Host.visit
      split
      · exact (Function.update_of_ne hne _ _).trans hfd
      · exact hfd
  | drop d =>
      simp only [Host.step, Option.ite_none_right_eq_some, Option.some.injEq] at move
      obtain ⟨hd, rfl⟩ := move
      exact Table.update_of_held hfd (by simp [hd]) _

theorem Host.exec_fds {moves : List Move} (run : exec Host.step h moves = some t) {fd : Nat}
    {c : ConnId} (hfd : h.fds fd = some (.conn c)) (hnot : fd ∉ calls moves) :
    t.fds fd = some (.conn c) := by
  induction moves generalizing h with
  | nil =>
      obtain rfl := Option.some.inj run
      exact hfd
  | cons m moves ih =>
      obtain ⟨u, move, tail⟩ := exec_cons_eq_some.mp run
      have hcalls : calls (m :: moves) = calls [m] ++ calls moves := calls_append [m] moves
      rw [hcalls, List.mem_append, not_or] at hnot
      exact ih tail (Host.step_fds move hfd hnot.1) hnot.2

theorem Host.accepted_mem_emitted {c : ConnId} (hc : .accepted c ∈ h.emitted m) :
    c = h.next := by
  cases m with
  | keep d => simpa [Host.emitted] using hc
  | refuse d => simpa [Host.emitted] using hc
  | visit fd a =>
      simp only [Host.emitted] at hc
      split at hc <;> simp at hc
  | drop fd => simp [Host.emitted] at hc

/-- Besides a connection just accepted, only the one called is closed. -/
theorem Host.closed_mem_emitted (move : h.step m = some t) {c : ConnId}
    (hc : .closed (some (.conn c)) ∈ h.emitted m) :
    c = h.next ∨ ∃ fd ∈ calls [m], h.fds fd = some (.conn c) := by
  cases m with
  | keep d => simp [Host.emitted] at hc
  | refuse d =>
      refine .inl ?_
      simpa [Host.emitted] using hc
  | visit fd a =>
      refine .inr ⟨fd, List.mem_cons_self, ?_⟩
      simp only [Host.emitted, List.cons_append, List.mem_cons, reduceCtorEq, List.mem_append,
        List.mem_map, and_false, exists_false, false_or] at hc
      split at hc
      · exact (Event.closed.inj (List.mem_singleton.mp hc)).symm
      · cases hc
  | drop fd =>
      simp only [Host.step, Option.ite_none_right_eq_some] at move
      rw [Host.emitted, List.mem_singleton, move.1] at hc
      simp at hc

/-- A move calls `send_recv` at most once, and does so first. -/
theorem Host.emitted_eq_called {before rest : List Event} {d : Option Desc}
    (h' : h.emitted m = before ++ .called d :: rest) :
    before = [] ∧ ∃ fd, calls [m] = [fd] ∧ d = h.fds fd := by
  have hmem : .called d ∈ h.emitted m := by
    rw [h']
    exact List.mem_append_right _ List.mem_cons_self
  cases m with
  | keep d => simp [Host.emitted] at hmem
  | refuse d => simp [Host.emitted] at hmem
  | drop fd => simp [Host.emitted] at hmem
  | visit fd a =>
      rw [Host.emitted, List.cons_append] at h'
      cases before with
      | nil => exact ⟨rfl, fd, rfl, (Event.called.inj (List.cons.inj h').1).symm⟩
      | cons e before =>
          have htail : .called d ∈ (sendRecv a).sent.map (Event.sent (h.fds fd)) ++
              if (sendRecv a).ret = -1 then [.closed (h.fds fd)] else [] := by
            rw [(List.cons.inj h').2]
            exact List.mem_append_right _ List.mem_cons_self
          rw [List.mem_append] at htail
          split at htail <;> simp at htail

theorem Host.called_mem_emitted {d : Option Desc} (hd : .called d ∈ h.emitted m) :
    ∃ fd, calls [m] = [fd] ∧ d = h.fds fd := by
  obtain ⟨before, rest, hsplit⟩ := List.append_of_mem hd
  exact (Host.emitted_eq_called hsplit).2

theorem Host.next_le (move : h.step m = some t) : h.next ≤ t.next := by
  cases m with
  | keep d =>
      simp only [Host.step, Option.ite_none_right_eq_some, Option.some.injEq] at move
      obtain ⟨-, rfl⟩ := move
      exact Nat.le_succ _
  | refuse d =>
      simp only [Host.step, Option.ite_none_right_eq_some, Option.some.injEq] at move
      obtain ⟨-, rfl⟩ := move
      exact Nat.le_succ _
  | visit fd a =>
      obtain rfl := Option.some.inj move
      unfold Host.visit
      split <;> exact Nat.le_refl _
  | drop fd =>
      simp only [Host.step, Option.ite_none_right_eq_some, Option.some.injEq] at move
      obtain ⟨-, rfl⟩ := move
      exact Nat.le_refl _

/-- One move in front of a list of moves on other connections. -/
theorem OnlyReady.cons {fds : List Nat} {events : List Event} (ok : h.Ok soc)
    (move : h.step m = some t) (conns : ∀ fd ∈ calls [m], ∃ c, h.fds fd = some (.conn c))
    (later : ∀ fd ∈ fds, fd ∉ calls [m] ∧ ∃ c, h.fds fd = some (.conn c))
    (fresh : ∀ c, .accepted c ∈ events → t.next ≤ c) (rest : OnlyReady t (· ∈ fds) events) :
    OnlyReady h (· ∈ calls [m] ++ fds) (h.emitted m ++ events) := by
  have notAccepted : ∀ {fd c}, h.fds fd = some (.conn c) →
      .accepted c ∉ h.emitted m ++ events := by
    intro fd c hfd hmem
    have hlt := ok.lt_next hfd
    rcases List.mem_append.mp hmem with hmem | hmem
    · exact Nat.lt_irrefl _ (Host.accepted_mem_emitted hmem ▸ hlt)
    · exact Nat.lt_irrefl _ (hlt.trans_le ((Host.next_le move).trans (fresh c hmem)))
  intro before d after hsplit
  -- A call of a later move: the move in front is about another connection.
  have hlater : ∀ mid, before = h.emitted m ++ mid → events = mid ++ .called d :: after →
      ∃ fd c, fd ∈ calls [m] ++ fds ∧ h.fds fd = some (.conn c) ∧ d = some (.conn c) ∧
        .called d ∉ before ∧ .closed d ∉ before ∧ .accepted c ∉ h.emitted m ++ events := by
    rintro mid rfl hevents
    obtain ⟨fd, c, hmem, hfd, rfl, hcalled, hclosed, -⟩ := rest mid d after hevents
    obtain ⟨hother, c', hc'⟩ := later fd hmem
    obtain rfl : c = c' := by
      have hsame := Host.step_fds move hc' hother
      rwa [hfd, Option.some.injEq, Desc.conn.injEq] at hsame
    have hdistinct : ∀ e ∈ calls [m], h.fds e ≠ some (.conn c) := by
      intro e he heq
      exact hother (ok.injective fd e c hc' heq ▸ he)
    refine ⟨fd, c, List.mem_append_right _ hmem, hc', rfl, fun hin => ?_, fun hin => ?_,
      notAccepted hc'⟩
    · rcases List.mem_append.mp hin with hin | hin
      · obtain ⟨e, hcalls, heq⟩ := Host.called_mem_emitted hin
        exact hdistinct e (hcalls ▸ List.mem_cons_self) heq.symm
      · exact hcalled hin
    · rcases List.mem_append.mp hin with hin | hin
      · rcases Host.closed_mem_emitted move hin with rfl | ⟨e, he, heq⟩
        · exact Nat.lt_irrefl _ (ok.lt_next hc')
        · exact hdistinct e he heq
      · exact hclosed hin
  rcases List.append_eq_append_iff.mp hsplit with ⟨mid, hbefore, hevents⟩ | ⟨mid, hemitted, hrest⟩
  · exact hlater mid hbefore hevents
  · cases mid with
    | nil => exact hlater [] (by simpa using hemitted.symm) hrest.symm
    | cons e mid =>
        obtain rfl := (List.cons.inj hrest).1
        obtain ⟨rfl, fd, hcalls, rfl⟩ := Host.emitted_eq_called hemitted
        obtain ⟨c, hc⟩ := conns fd (hcalls ▸ List.mem_cons_self)
        exact ⟨fd, c, List.mem_append_left _ (hcalls ▸ List.mem_cons_self), hc, hc,
          List.not_mem_nil, List.not_mem_nil, notAccepted hc⟩

/-- The batch rule: moves that call `send_recv` on different connections, all open
at the start, keep the descriptors and the log in agreement, and no call is on a
connection accepted or closed meanwhile. -/
theorem Host.Ok.exec {moves : List Move} (ok : h.Ok soc) (run : exec Host.step h moves = some t)
    (nodup : (calls moves).Nodup) (conns : ∀ fd ∈ calls moves, ∃ c, h.fds fd = some (.conn c)) :
    t.Ok soc ∧ ∃ events, t.log = h.log ++ events ∧ OnlyReady h (· ∈ calls moves) events ∧
      ∀ c, .accepted c ∈ events → h.next ≤ c := by
  induction moves generalizing h with
  | nil =>
      obtain rfl := Option.some.inj run
      exact ⟨ok, [], (List.append_nil _).symm, fun before d after h => by simp at h,
        fun c h => absurd h List.not_mem_nil⟩
  | cons m moves ih =>
      obtain ⟨u, move, tail⟩ := exec_cons_eq_some.mp run
      have hcalls : calls (m :: moves) = calls [m] ++ calls moves := calls_append [m] moves
      rw [hcalls] at nodup conns ⊢
      obtain ⟨-, hnodup, hdisjoint⟩ := List.nodup_append.mp nodup
      have hfirst : ∀ fd ∈ calls [m], ∃ c, h.fds fd = some (.conn c) :=
        fun fd hfd => conns fd (List.mem_append_left _ hfd)
      have hlater : ∀ fd ∈ calls moves, fd ∉ calls [m] ∧ ∃ c, h.fds fd = some (.conn c) :=
        fun fd hfd =>
          ⟨fun hin => hdisjoint fd hin fd hfd rfl, conns fd (List.mem_append_right _ hfd)⟩
      have hkept : ∀ fd ∈ calls moves, ∃ c, u.fds fd = some (.conn c) := by
        intro fd hfd
        obtain ⟨hnot, c, hc⟩ := hlater fd hfd
        exact ⟨c, Host.step_fds move hc hnot⟩
      obtain ⟨hok, events, hlog, honly, hfresh⟩ :=
        ih (ok.step move hfirst) tail hnodup hkept
      refine ⟨hok, h.emitted m ++ events, ?_, .cons ok move hfirst hlater hfresh honly, ?_⟩
      · rw [hlog, Host.step_log move, List.append_assoc]
      · intro c hc
        rcases List.mem_append.mp hc with hc | hc
        · exact (Host.accepted_mem_emitted hc).ge
        · exact (Host.next_le move).trans (hfresh c hc)

end Batch

/-- What a round of a server does to its descriptors: `send_recv` is called on
connections that were ready, on each at most once. -/
def Round (h t : Host) (ready : Nat → Prop) : Prop :=
  ∃ moves, exec Host.step h moves = some t ∧ (calls moves).Nodup ∧
    ∀ fd ∈ calls moves, ready fd ∧ ∃ c, h.fds fd = some (.conn c)

theorem Round.refl (h : Host) (ready : Nat → Prop) : Round h h ready :=
  ⟨[], rfl, List.nodup_nil, fun _ hfd => absurd hfd List.not_mem_nil⟩

theorem Round.onlyReady {soc : Nat} {h t : Host} {ready : Nat → Prop} (round : Round h t ready)
    (ok : h.Ok soc) : ∃ events, t.log = h.log ++ events ∧ OnlyReady h ready events := by
  obtain ⟨moves, run, nodup, hcalls⟩ := round
  obtain ⟨-, events, hlog, honly, -⟩ := ok.exec run nodup fun fd hfd => (hcalls fd hfd).2
  exact ⟨events, hlog, honly.mono fun fd hfd => (hcalls fd hfd).1⟩

end NetworkProgram.Echo
