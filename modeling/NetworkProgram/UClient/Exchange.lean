import NetworkProgram.Foundation.Datagrams
import NetworkProgram.UClient.Model

set_option autoImplicit false

/-!
# UClient: clients and servers over a network

Any number of hosts run `u-client`, any number run `u-server`, and others send what they
like.  The network loses, copies and reorders datagrams, and does not forge their senders.
A program that has stored outside its buffer is not described by its source any more: it
may send anything.
-/

namespace NetworkProgram.UClient

open scoped List
open NetworkProgram.Foundation
open NetworkProgram.Libc
open NetworkProgram.UServer (bufSize Outcome uServer)

/-- What a host runs. -/
inductive Kind
  | server
  | client
  | other
  deriving DecidableEq, Repr

structure Packet (Address : Type) where
  source : Address
  dest : Address
  contents : Bytes
  deriving DecidableEq, Repr

/-- The hosts, the standard input of each, and what is in its `buf` and in `from` at the
start. -/
structure Setup (Address : Type) where
  kind : Address → Kind
  resolve : Resolver Address
  stdin : Address → Bytes
  stack : Address → Bytes
  stack_length : ∀ a, (stack a).length = bufSize
  peer : Address → Address

/-- A program in its loop. -/
structure Host (Address : Type) where
  buf : Bytes
  peer : Address
  stdin : Bytes
  ended : Bool
  /-- It has stored outside `buf`. -/
  overrun : Bool

structure State (Address : Type) where
  net : Network (Packet Address)
  host : Address → Host Address
  /-- What clients have printed, as packets from the sender to the client. -/
  shown : List (Packet Address)

inductive Act (Address : Type)
  /-- A round of a server: what `recvfrom` gives, if it does not fail, and whether `sendto`
  succeeds. -/
  | serve (a : Address) (packet : Option (Packet Address)) (delivered : Bool)
  /-- A round of a client: what the socket gives, if it is ready; whether the standard input
  is ready, and whether `getaddrinfo` and `sendto` succeed. -/
  | turn (a : Address) (soc : Option (Option (Packet Address))) (stdin found delivered : Bool)
  | lose (p : Packet Address)
  | copy (p : Packet Address)
  /-- A host that runs something else, or that has stored outside `buf`. -/
  | stray (p : Packet Address)

variable {Address : Type} [DecidableEq Address]

/-- `recvfrom` cuts a datagram that is longer than the buffer. -/
def outcomeOf : Option (Packet Address) → Outcome Address
  | none => .error
  | some p =>
      .datagram
        { source := p.source
          contents := p.contents.take bufSize
          fits := List.length_take_le _ _ }

/-- What a computation gives, if it stays in its buffer. -/
def checked {β : Type} (m : Traced UInt8 β) (buf : Bytes) : Option (β × Bytes) :=
  if ∀ a ∈ (m buf).log, a.Below bufSize then (m buf).result else none

/-- The network when a program has received. -/
def received (net : Network (Packet Address)) :
    Option (Packet Address) → Network (Packet Address)
  | none => net
  | some p => net.arrive p

/-- The network when a client has sent. -/
def transmitted (net : Network (Packet Address)) (a : Address) :
    Option (Address × Bytes) → Network (Packet Address)
  | none => net
  | some (dest, line) => net.send { source := a, dest := dest, contents := line }

/-- What clients have printed, when one has printed some more. -/
def printed (shown : List (Packet Address)) (a : Address) :
    Option (Address × Bytes) → List (Packet Address)
  | none => shown
  | some (source, text) => { source := source, dest := a, contents := text } :: shown

/-- What is left of the standard input. -/
def unread (stdin : Bytes) : Option Typed → Bytes
  | none => stdin
  | some typed => typed.rest

/-- One round of `send_recv_loop` of `u-server`. -/
def State.serve (s : State Address) (a : Address) (packet : Option (Packet Address))
    (delivered : Bool) : State Address :=
  let host := s.host a
  let net := received s.net packet
  let peer := (outcomeOf packet).peer host.peer
  match checked (uServer.roundTraced host.peer (outcomeOf packet)) host.buf with
  | none =>
      { s with net := net, host := Function.update s.host a { host with overrun := true } }
  | some (reply, buf) =>
      let host := { host with buf := buf, peer := peer }
      match reply with
      | none => { s with net := net, host := Function.update s.host a host }
      | some reply =>
          if delivered then
            { s with
              net := net.send { source := a, dest := peer, contents := reply }
              host := Function.update s.host a host }
          else { s with net := net, host := Function.update s.host a { host with ended := true } }

/-- What `fgets` takes from the standard input, which is read where `recvfrom` has not failed. -/
def Host.typed (host : Host Address) (soc : Option (Option (Packet Address)))
    (stdin found delivered : Bool) : Option Typed :=
  if stdin ∧ soc ≠ some none then
    some
      { piece := (takeLine (bufSize - 1) host.stdin).1
        rest := (takeLine (bufSize - 1) host.stdin).2
        found := found
        delivered := delivered }
  else none

/-- One round of `send_recv_loop` of `u-client`. -/
def Setup.turn (setup : Setup Address) (s : State Address) (a : Address)
    (soc : Option (Option (Packet Address))) (stdin found delivered : Bool) : State Address :=
  let host := s.host a
  let net := received s.net soc.join
  let typed := host.typed soc stdin found delivered
  match checked (turnTraced setup.resolve (soc.map outcomeOf) typed) host.buf with
  | none =>
      { s with net := net, host := Function.update s.host a { host with overrun := true } }
  | some (turn, buf) =>
      { net := transmitted net a turn.sent
        host := Function.update s.host a
          { host with buf := buf, stdin := unread host.stdin typed, ended := turn.ended }
        shown := printed s.shown a turn.shown }

/-- The program is in its loop, and the packet is there for it. -/
def State.Ready (s : State Address) (a : Address) (packet : Option (Packet Address)) : Prop :=
  (s.host a).ended = false ∧ (s.host a).overrun = false ∧
    ∀ p ∈ packet, p ∈ s.net.flight ∧ p.dest = a

instance (s : State Address) (a : Address) (packet : Option (Packet Address)) :
    Decidable (s.Ready a packet) :=
  inferInstanceAs (Decidable (_ ∧ _ ∧ ∀ p ∈ packet, _))

def Setup.step (setup : Setup Address) (s : State Address) : Act Address → Option (State Address)
  | .serve a packet delivered =>
      if setup.kind a = .server ∧ s.Ready a packet then some (s.serve a packet delivered) else none
  | .turn a soc stdin found delivered =>
      if setup.kind a = .client ∧ s.Ready a soc.join then
        some (setup.turn s a soc stdin found delivered)
      else none
  | .lose p => if p ∈ s.net.flight then some { s with net := s.net.lose p } else none
  | .copy p => if p ∈ s.net.flight then some { s with net := s.net.copy p } else none
  | .stray p =>
      if setup.kind p.source = .other ∨ (s.host p.source).overrun then
        some { s with net := s.net.send p }
      else none

def Setup.start (setup : Setup Address) : State Address where
  net := .empty
  host := fun a =>
    { buf := setup.stack a
      peer := setup.peer a
      stdin := setup.stdin a
      ended := false
      overrun := false }
  shown := []

/-! ## What is asked and answered -/

/-- The datagram that a client makes of a line. -/
def Setup.question (setup : Setup Address) (a : Address) (line : Bytes) :
    Option (Packet Address) :=
  match addressee setup.resolve (cstr line) with
  | none => none
  | some dest => some { source := a, dest := dest, contents := cstr line }

/-- The datagram that a server makes of one. -/
def Setup.answer (setup : Setup Address) (p : Packet Address) : Option (Packet Address) :=
  if setup.kind p.dest = .server then
    some
      { source := p.dest
        dest := p.source
        contents := (okReply (visible p.contents)).take (bufSize - 1) }
  else none

/-- The lines that `fgets` cuts a client's standard input into, as they are sent. -/
def Setup.questions (setup : Setup Address) (a : Address) (stdin : Bytes) :
    List (Packet Address) :=
  (pieces (bufSize - 1) stdin).filterMap (setup.question a)

def Setup.fromServer (setup : Setup Address) (p : Packet Address) : Bool :=
  setup.kind p.source = .server

variable {setup : Setup Address}

omit [DecidableEq Address] in
/-- `fgets` takes the next line off what will be asked. -/
theorem questions_eq (setup : Setup Address) (a : Address) (stdin : Bytes) :
    setup.questions a stdin = (setup.question a (takeLine (bufSize - 1) stdin).1).toList ++
      setup.questions a (takeLine (bufSize - 1) stdin).2 := by
  rcases eq_or_ne stdin [] with rfl | hne
  · rfl
  · rw [Setup.questions, pieces_eq (Nat.le_of_ble_eq_true rfl) hne]
    cases hquestion : setup.question a (takeLine (bufSize - 1) stdin).1 with
    | none => rw [List.filterMap_cons_none hquestion]; rfl
    | some q => rw [List.filterMap_cons_some hquestion]; rfl

theorem line_short (stdin : Bytes) : (takeLine (bufSize - 1) stdin).1.length < bufSize := by
  have hle : (takeLine (bufSize - 1) stdin).1.length ≤ bufSize - 1 := by
    rw [takeLine_eq]
    exact List.length_take_le _ _
  exact Nat.lt_of_le_of_lt hle (Nat.le_of_ble_eq_true rfl)

theorem rest_of_no_line (stdin : Bytes) (h : (takeLine (bufSize - 1) stdin).1 = []) :
    (takeLine (bufSize - 1) stdin).2 = [] := by
  rcases eq_or_ne stdin [] with rfl | hne
  · rfl
  · exact absurd h (takeLine_fgetsLine (Nat.le_of_ble_eq_true rfl) hne).nonempty

/-- What the network, the unread input and the printed lines say, in a run in which no
program has stored outside its buffer. -/
structure Ledger (setup : Setup Address) (net : Network (Packet Address))
    (stdin : Address → Bytes) (shown : List (Packet Address)) : Prop where
  sound : net.Sound
  short : ∀ p ∈ net.sent, setup.kind p.source ≠ .other → p.contents.length < bufSize
  plain : ∀ p ∈ net.sent, setup.kind p.source = .server → (0 : UInt8) ∉ p.contents
  asked : ∀ a, setup.kind a = .client →
    (net.sent.filter fun p => p.source = a) ++ setup.questions a (stdin a) <+~
      setup.questions a (setup.stdin a)
  answered : net.sent.filter setup.fromServer <+~ net.arrived.filterMap setup.answer
  shown : shown.filter setup.fromServer <+~ net.arrived.filter setup.fromServer

namespace Ledger

variable {net : Network (Packet Address)} {stdin : Address → Bytes}
  {shown : List (Packet Address)} {p : Packet Address}

theorem start (setup : Setup Address) : Ledger setup .empty setup.stdin [] where
  sound := .empty
  short := fun _ hp => absurd hp List.not_mem_nil
  plain := fun _ hp => absurd hp List.not_mem_nil
  asked := fun _ _ => List.Subperm.refl _
  answered := List.Subperm.refl _
  shown := List.Subperm.refl _

theorem filterMap_cons_sublist {α β : Type} (f : α → Option β) (a : α) (l : List α) :
    l.filterMap f <+ (a :: l).filterMap f :=
  (List.sublist_cons_self a l).filterMap f

/-- A datagram arrives, and what a client prints of it. -/
theorem arrive (h : Ledger setup net stdin shown) (hp : p ∈ net.flight) :
    Ledger setup (net.arrive p) stdin shown where
  sound := h.sound.arrive hp
  short := h.short
  plain := h.plain
  asked := h.asked
  answered := h.answered.trans (filterMap_cons_sublist _ _ _).subperm
  shown := h.shown.trans ((List.sublist_cons_self p net.arrived).filter _).subperm

theorem display (h : Ledger setup net stdin shown) (hp : p ∈ net.flight) :
    Ledger setup (net.arrive p) stdin
      ({ source := p.source, dest := p.dest, contents := cstr p.contents } :: shown) where
  sound := h.sound.arrive hp
  short := h.short
  plain := h.plain
  asked := h.asked
  answered := h.answered.trans (filterMap_cons_sublist _ _ _).subperm
  shown := by
    cases hserver : setup.fromServer p with
    | false =>
        rw [List.filter_cons_of_neg (by exact Bool.eq_false_iff.mp hserver)]
        exact h.shown.trans ((List.sublist_cons_self p net.arrived).filter _).subperm
    | true =>
        have hplain := h.plain p (h.sound.flight_subset hp) (of_decide_eq_true hserver)
        have harrived : (net.arrive p).arrived.filter setup.fromServer =
            p :: net.arrived.filter setup.fromServer := List.filter_cons_of_pos hserver
        rw [cstr_eq_self hplain, harrived, List.filter_cons_of_pos (by exact hserver)]
        exact (List.subperm_cons p).mpr h.shown

theorem lose (h : Ledger setup net stdin shown) (p : Packet Address) :
    Ledger setup (net.lose p) stdin shown :=
  { h with sound := h.sound.lose p }

theorem copy (h : Ledger setup net stdin shown) (hp : p ∈ net.flight) :
    Ledger setup (net.copy p) stdin shown :=
  { h with sound := h.sound.copy hp }

omit [DecidableEq Address] in
theorem filter_send_of_neg {f : Packet Address → Bool} (h : f p = false) :
    (net.send p).sent.filter f = net.sent.filter f :=
  List.filter_cons_of_neg (by simp [h])

omit [DecidableEq Address] in
theorem filter_send_of_pos {f : Packet Address → Bool} (h : f p = true) :
    (net.send p).sent.filter f = p :: net.sent.filter f :=
  List.filter_cons_of_pos h

/-- What is not sent by a client is no question. -/
theorem asked_send (h : Ledger setup net stdin shown) (hp : setup.kind p.source ≠ .client)
    {a : Address} (ha : setup.kind a = .client) :
    ((net.send p).sent.filter fun q => q.source = a) ++ setup.questions a (stdin a) <+~
      setup.questions a (setup.stdin a) := by
  have hne : p.source ≠ a := by
    rintro rfl
    exact hp ha
  rw [filter_send_of_neg (decide_eq_false hne)]
  exact h.asked a ha

/-- Others send what they like. -/
theorem stray (h : Ledger setup net stdin shown) (hp : setup.kind p.source = .other) :
    Ledger setup (net.send p) stdin shown where
  sound := h.sound.send p
  short := List.forall_mem_cons.mpr ⟨fun hne => absurd hp hne, h.short⟩
  plain := by
    refine List.forall_mem_cons.mpr ⟨fun hserver => ?_, h.plain⟩
    rw [hp] at hserver
    cases hserver
  asked := fun a ha => h.asked_send (by rw [hp]; exact Kind.noConfusion) ha
  answered := by
    have hserver : setup.fromServer p = false := by
      rw [Setup.fromServer, hp]
      rfl
    rw [filter_send_of_neg hserver]
    exact h.answered
  shown := h.shown

theorem nul_notMem_reply (text : Bytes) (n : Nat) :
    (0 : UInt8) ∉ (okReply (visible text)).take n := by
  intro hmem
  rcases List.mem_append.mp (List.mem_of_mem_take hmem) with hvisible | htail
  · rw [← cstr_cutLine] at hvisible
    exact nul_notMem_cstr _ hvisible
  · exact absurd htail (by decide)

/-- A server answers what has just arrived. -/
theorem reply (h : Ledger setup net stdin shown) (hp : p ∈ net.flight)
    (hserver : setup.kind p.dest = .server) :
    Ledger setup ((net.arrive p).send
      { source := p.dest
        dest := p.source
        contents := (okReply (visible p.contents)).take (bufSize - 1) }) stdin shown where
  sound := (h.sound.arrive hp).send _
  short := by
    refine List.forall_mem_cons.mpr ⟨fun _ => ?_, h.short⟩
    exact Nat.lt_of_le_of_lt (List.length_take_le _ _) (Nat.le_of_ble_eq_true rfl)
  plain := List.forall_mem_cons.mpr ⟨fun _ => nul_notMem_reply _ _, h.plain⟩
  asked := fun a ha => (h.arrive hp).asked_send (by
    dsimp only
    rw [hserver]
    exact Kind.noConfusion) ha
  answered := by
    have hanswer : setup.answer p = some
        { source := p.dest
          dest := p.source
          contents := (okReply (visible p.contents)).take (bufSize - 1) } := if_pos hserver
    have harrived : ((net.arrive p).send
        { source := p.dest
          dest := p.source
          contents := (okReply (visible p.contents)).take (bufSize - 1) }).arrived =
        p :: net.arrived := rfl
    rw [filter_send_of_pos (decide_eq_true hserver), harrived, List.filterMap_cons_some hanswer]
    exact (List.subperm_cons _).mpr h.answered
  shown := (h.arrive hp).shown

/-- A client reads a line and sends it, or not. -/
theorem read (h : Ledger setup net stdin shown) (a : Address) :
    Ledger setup net (Function.update stdin a (takeLine (bufSize - 1) (stdin a)).2) shown where
  sound := h.sound
  short := h.short
  plain := h.plain
  asked := fun b hb => by
    rcases eq_or_ne b a with rfl | hne
    · refine List.Subperm.trans ?_ (h.asked b hb)
      rw [Function.update_self, questions_eq setup b (stdin b)]
      exact ((List.sublist_append_right _ _).append_left _).subperm
    · rw [Function.update_of_ne hne]
      exact h.asked b hb
  answered := h.answered
  shown := h.shown

theorem ask (h : Ledger setup net stdin shown) {a : Address} (ha : setup.kind a = .client)
    {line rest : Bytes} (hline : takeLine (bufSize - 1) (stdin a) = (line, rest))
    {dest : Address} (hdest : addressee setup.resolve (cstr line) = some dest) :
    Ledger setup (net.send { source := a, dest := dest, contents := cstr line })
      (Function.update stdin a rest) shown := by
  have hquestion : setup.question a line =
      some { source := a, dest := dest, contents := cstr line } := by
    rw [Setup.question, hdest]
  have hread := h.read a
  rw [hline] at hread
  refine ⟨h.sound.send _, ?_, ?_, ?_, ?_, h.shown⟩
  · refine List.forall_mem_cons.mpr ⟨fun _ => ?_, h.short⟩
    have hle : (cstr line).length ≤ line.length := (List.takeWhile_prefix _).length_le
    have hshort := line_short (stdin a)
    rw [hline] at hshort
    exact Nat.lt_of_le_of_lt hle hshort
  · refine List.forall_mem_cons.mpr ⟨fun hserver => ?_, h.plain⟩
    rw [ha] at hserver
    cases hserver
  · intro b hb
    rcases eq_or_ne b a with rfl | hne
    · refine List.Subperm.trans ?_ (h.asked b hb)
      rw [Function.update_self, questions_eq setup b (stdin b), hline, hquestion,
        filter_send_of_pos (decide_eq_true rfl)]
      exact List.perm_middle.symm.subperm
    · rw [filter_send_of_neg (decide_eq_false hne.symm)]
      exact hread.asked b hb
  · have hserver : setup.fromServer { source := a, dest := dest, contents := cstr line } =
        false := by
      rw [Setup.fromServer, ha]
      rfl
    rw [filter_send_of_neg hserver]
    exact h.answered

end Ledger

/-! ## The rounds of the programs -/

section Checked

variable {β : Type} {m : Traced UInt8 β} {buf : Bytes} {b : β}

theorem checked_of_works (h : Works m buf b) :
    ∃ left, left.length = bufSize ∧ checked m buf = some (b, left) := by
  obtain ⟨left, hleft, hends⟩ := h
  refine ⟨left, hleft, ?_⟩
  rw [checked, if_pos hends.log, hends.result]

theorem checked_of_outside {x : Access} (h : x ∈ (m buf).log) (hx : ¬ x.Below bufSize) :
    checked m buf = none :=
  if_neg fun hall => hx (hall x h)

end Checked

theorem write_end_outside : ¬ (Access.write bufSize).Below bufSize :=
  fun h => absurd h.2 (Int.lt_irrefl _)

section Rounds

variable {s : State Address} {a : Address} {p : Packet Address}

omit [DecidableEq Address] in
theorem outcomeOf_short (h : p.contents.length < bufSize) :
    outcomeOf (some p) = .datagram
      { source := p.source, contents := p.contents, fits := h.le } := by
  simp only [outcomeOf, List.take_of_length_le h.le]

omit [DecidableEq Address] in
theorem outcomeOf_long (h : bufSize ≤ p.contents.length) :
    (p.contents.take bufSize).length = bufSize := by
  rw [List.length_take]
  omega

omit [DecidableEq Address] in
/-- A server answers what leaves room for the NUL. -/
theorem serve_works {peer : Address} {buf : Bytes} (hbuf : buf.length = bufSize)
    (h : p.contents.length < bufSize) :
    Works (uServer.roundTraced peer (outcomeOf (some p))) buf
      (some ((okReply (visible p.contents)).take (bufSize - 1))) := by
  rw [outcomeOf_short h]
  have hlen := (Traced.ends_store_zero h.le hbuf).2
  have hreply := ends_reply hlen h
  rw [List.take_left] at hreply
  have hleft : (mystrlcat (cutLine ((p.contents ++ buf.drop p.contents.length).set
      p.contents.length 0)) okTail bufSize).1.length = bufSize := by
    rw [length_mystrlcat, cutLine, length_cutAt, List.length_set, hlen]
  exact ⟨_, hleft, (UServer.ends_recvfrom hbuf).bind (hreply.bind (Traced.ends_pure _))⟩

omit [DecidableEq Address] in
/-- Neither an error of `recvfrom` nor what fills the buffer does a server survive. -/
theorem serve_outside {peer : Address} {buf : Bytes} (hbuf : buf.length = bufSize)
    {packet : Option (Packet Address)} (h : ∀ p ∈ packet, bufSize ≤ p.contents.length) :
    checked (uServer.roundTraced peer (outcomeOf packet)) buf = none := by
  cases packet with
  | none =>
      have hwrite : Access.write (-1) ∈ (uServer.roundTraced peer .error buf).log := by
        rw [UServer.round_error]
        exact Traced.mem_log_bind (UServer.replies_uServer.error buf)
      exact checked_of_outside hwrite fun hbelow => absurd hbelow.1 (by decide)
  | some p =>
      have hwrite : Access.write bufSize ∈
          (uServer.roundTraced peer (outcomeOf (some p)) buf).log := by
        refine (UServer.ends_recvfrom hbuf).mem_log ?_
        have hfull := outcomeOf_long (h p rfl)
        exact Traced.mem_log_bind (UServer.replies_uServer.outside hfull.le hbuf (by
          rw [UServer.Fits, hfull]
          exact Nat.not_succ_le_self 511))
      exact checked_of_outside hwrite write_end_outside

/-- A round of a server on a datagram that leaves room for the NUL. -/
theorem State.serve_eq (hbuf : (s.host a).buf.length = bufSize) (h : p.contents.length < bufSize)
    (delivered : Bool) : ∃ left : Bytes, left.length = bufSize ∧
      s.serve a (some p) delivered =
        if delivered then
          { s with
            net := (s.net.arrive p).send
              { source := a
                dest := p.source
                contents := (okReply (visible p.contents)).take (bufSize - 1) }
            host := Function.update s.host a { s.host a with buf := left, peer := p.source } }
        else
          { s with
            net := s.net.arrive p
            host := Function.update s.host a
              { s.host a with buf := left, peer := p.source, ended := true } } := by
  have hworks : Works (uServer.roundTraced (s.host a).peer (outcomeOf (some p))) (s.host a).buf
      (some ((okReply (visible p.contents)).take (bufSize - 1))) :=
    serve_works hbuf h
  obtain ⟨left, hleft, hchecked⟩ := checked_of_works hworks
  refine ⟨left, hleft, ?_⟩
  simp only [State.serve, hchecked]
  rfl

/-- The end of a server. -/
theorem State.serve_overrun (hbuf : (s.host a).buf.length = bufSize)
    {packet : Option (Packet Address)}
    (h : ∀ p ∈ packet, bufSize ≤ p.contents.length) (delivered : Bool) :
    ((s.serve a packet delivered).host a).overrun = true := by
  simp only [State.serve, serve_outside hbuf h, Function.update_self]

theorem typed_fits (host : Host Address) (soc : Option (Option (Packet Address)))
    (stdin found delivered : Bool) : ∀ typed ∈ host.typed soc stdin found delivered,
      typed.Fits := by
  intro typed htyped
  unfold Host.typed at htyped
  split at htyped
  · obtain rfl := Option.some.inj htyped
    exact ⟨line_short host.stdin, rest_of_no_line host.stdin⟩
  · cases htyped

/-- A round of a client on a datagram that leaves room for the NUL. -/
theorem Setup.turn_eq (setup : Setup Address) (hbuf : (s.host a).buf.length = bufSize)
    {soc : Option (Option (Packet Address))} (hsoc : ∀ p ∈ soc.join, p.contents.length < bufSize)
    (stdin found delivered : Bool) {typed : Option Typed}
    (htyped : (s.host a).typed soc stdin found delivered = typed) :
    ∃ left : Bytes, left.length = bufSize ∧
      setup.turn s a soc stdin found delivered =
        { net := transmitted (received s.net soc.join) a
            (UClient.turn setup.resolve (soc.map outcomeOf) typed).sent
          host := Function.update s.host a
            { s.host a with
              buf := left
              stdin := unread (s.host a).stdin typed
              ended := (UClient.turn setup.resolve (soc.map outcomeOf) typed).ended }
          shown :=
            printed s.shown a (UClient.turn setup.resolve (soc.map outcomeOf) typed).shown } := by
  have hshort : ∀ d, soc.map outcomeOf = some (.datagram d) → d.contents.length < bufSize := by
    intro d hd
    obtain ⟨packet, rfl, houtcome⟩ := Option.map_eq_some_iff.mp hd
    cases packet with
    | none => cases houtcome
    | some p =>
        obtain rfl := UServer.Outcome.datagram.inj houtcome
        exact Nat.lt_of_le_of_lt (List.length_take_le' _ _) (hsoc p rfl)
  obtain ⟨left, hleft, hchecked⟩ := checked_of_works (turn_works setup.resolve hbuf hshort
    (htyped ▸ typed_fits (s.host a) soc stdin found delivered))
  refine ⟨left, hleft, ?_⟩
  simp only [Setup.turn, htyped, hchecked]

/-- The end of a client. -/
theorem Setup.turn_overrun (setup : Setup Address) (hbuf : (s.host a).buf.length = bufSize)
    (h : bufSize ≤ p.contents.length) (stdin found delivered : Bool) :
    ((setup.turn s a (some (some p)) stdin found delivered).host a).overrun = true := by
  have hwrite : Access.write bufSize ∈ (turnTraced setup.resolve
      ((some (some p)).map outcomeOf) ((s.host a).typed (some (some p)) stdin found delivered)
      (s.host a).buf).log :=
    UClient.turn_overrun setup.resolve _ hbuf (outcomeOf_long h)
  simp only [Setup.turn, checked_of_outside hwrite write_end_outside, Function.update_self]

theorem Setup.step_serve {setup : Setup Address} (ha : setup.kind a = .server)
    {packet : Option (Packet Address)}
    (hready : s.Ready a packet) (delivered : Bool) :
    setup.step s (.serve a packet delivered) = some (s.serve a packet delivered) :=
  if_pos ⟨ha, hready⟩

theorem Setup.step_turn {setup : Setup Address} (ha : setup.kind a = .client)
    {soc : Option (Option (Packet Address))}
    (hready : s.Ready a soc.join) (stdin found delivered : Bool) :
    setup.step s (.turn a soc stdin found delivered) =
      some (setup.turn s a soc stdin found delivered) :=
  if_pos ⟨ha, hready⟩

end Rounds

/-! ## Runs -/

/-- No program has stored outside its buffer. -/
structure Inv (setup : Setup Address) (s : State Address) : Prop where
  quiet : ∀ a, (s.host a).overrun = false
  buf : ∀ a, (s.host a).buf.length = bufSize
  ledger : Ledger setup s.net (fun a => (s.host a).stdin) s.shown

/-- What comes from outside leaves room for the NUL, and `recvfrom` of a server succeeds. -/
def Setup.Fits (setup : Setup Address) : Act Address → Prop
  | .serve _ packet _ =>
      ∃ p, packet = some p ∧ (setup.kind p.source = .other → p.contents.length < bufSize)
  | .turn _ soc _ _ _ =>
      ∀ p ∈ soc.join, setup.kind p.source = .other → p.contents.length < bufSize
  | _ => True

section Steps

variable {s : State Address}

theorem Inv.start (setup : Setup Address) : Inv setup setup.start where
  quiet := fun _ => rfl
  buf := setup.stack_length
  ledger := .start setup

/-- What the programs send leaves room for the NUL. -/
theorem Inv.fits (h : Inv setup s) {p : Packet Address} (hp : p ∈ s.net.flight)
    (hother : setup.kind p.source = .other → p.contents.length < bufSize) :
    p.contents.length < bufSize := by
  by_cases hkind : setup.kind p.source = .other
  · exact hother hkind
  · exact h.ledger.short p (h.ledger.sound.flight_subset hp) hkind

theorem stdin_update (host : Address → Host Address) (a : Address)
    (new : Host Address) :
    (fun b => (Function.update host a new b).stdin) =
      Function.update (fun b => (host b).stdin) a new.stdin :=
  Function.comp_update Host.stdin host a new

/-- A host in a state that is quiet. -/
theorem Inv.update {net : Network (Packet Address)} {shown : List (Packet Address)}
    (h : Inv setup s) (a : Address) {new : Host Address} (hquiet : new.overrun = false)
    (hbuf : new.buf.length = bufSize)
    (hledger : Ledger setup net (Function.update (fun b => (s.host b).stdin) a new.stdin) shown) :
    Inv setup { net := net, host := Function.update s.host a new, shown := shown } where
  quiet := fun b => by
    dsimp only
    rcases eq_or_ne b a with rfl | hne
    · rw [Function.update_self, hquiet]
    · rw [Function.update_of_ne hne]
      exact h.quiet b
  buf := fun b => by
    dsimp only
    rcases eq_or_ne b a with rfl | hne
    · rw [Function.update_self, hbuf]
    · rw [Function.update_of_ne hne]
      exact h.buf b
  ledger := by
    rw [stdin_update]
    exact hledger

theorem Inv.serve (h : Inv setup s) {a : Address} {p : Packet Address}
    (ha : setup.kind a = .server) (hready : s.Ready a (some p))
    (hp : p.contents.length < bufSize) (delivered : Bool) :
    Inv setup (s.serve a (some p) delivered) := by
  obtain ⟨-, -, hpacket⟩ := hready
  obtain ⟨hflight, rfl⟩ := hpacket p rfl
  obtain ⟨left, hleft, hserve⟩ := State.serve_eq (h.buf p.dest) hp delivered
  rw [hserve]
  cases delivered with
  | true =>
      refine h.update p.dest (h.quiet p.dest) hleft ?_
      rw [Function.update_eq_self_iff.mpr rfl]
      exact h.ledger.reply hflight ha
  | false =>
      refine h.update p.dest (h.quiet p.dest) hleft ?_
      rw [Function.update_eq_self_iff.mpr rfl]
      exact h.ledger.arrive hflight

omit [DecidableEq Address] in
/-- A line goes out as it is, to where it says, or not at all. -/
theorem forwarding_sent (resolve : Resolver Address) (t : Typed) :
    (forwarding resolve t).1 = none ∨ ∃ dest, addressee resolve (cstr t.piece) = some dest ∧
      (forwarding resolve t).1 = some (dest, cstr t.piece) := by
  rw [forwarding]
  split
  · exact .inl rfl
  · cases hdest : addressee resolve (cstr t.piece) with
    | none => exact .inl rfl
    | some dest =>
        dsimp only
        cases t.found with
        | false => exact .inl rfl
        | true =>
            cases t.delivered with
            | false => exact .inl rfl
            | true => exact .inr ⟨dest, rfl, rfl⟩

section Turns

variable {net : Network (Packet Address)} {stdin : Address → Bytes}
  {shown : List (Packet Address)} {a : Address} {typed : Option Typed}

theorem Ledger.unread (h : Ledger setup net stdin shown)
    (htyped : ∀ t ∈ typed, takeLine (bufSize - 1) (stdin a) = (t.piece, t.rest)) :
    Ledger setup net (Function.update stdin a (unread (stdin a) typed)) shown := by
  cases typed with
  | none =>
      rw [UClient.unread, Function.update_eq_self]
      exact h
  | some t =>
      have hread := h.read a
      rw [htyped t rfl] at hread
      exact hread

theorem Ledger.type (h : Ledger setup net stdin shown) (ha : setup.kind a = .client)
    (htyped : ∀ t ∈ typed, takeLine (bufSize - 1) (stdin a) = (t.piece, t.rest)) :
    Ledger setup (transmitted net a (typing setup.resolve typed).1)
      (Function.update stdin a (UClient.unread (stdin a) typed)) shown := by
  cases typed with
  | none => exact h.unread htyped
  | some t =>
      rw [typing]
      rcases forwarding_sent setup.resolve t with hnone | ⟨dest, hdest, hsome⟩
      · rw [hnone]
        exact h.unread htyped
      · rw [hsome]
        exact h.ask ha (htyped t rfl) hdest

/-- What a client does to the network, to its input and to what it has printed. -/
theorem Ledger.turn (h : Ledger setup net stdin shown) (ha : setup.kind a = .client)
    {soc : Option (Option (Packet Address))}
    (hsoc : ∀ p ∈ soc.join, p ∈ net.flight ∧ p.dest = a ∧ p.contents.length < bufSize)
    (htyped : ∀ t ∈ typed, takeLine (bufSize - 1) (stdin a) = (t.piece, t.rest)) :
    Ledger setup
      (transmitted (received net soc.join) a
        (UClient.turn setup.resolve (soc.map outcomeOf) typed).sent)
      (Function.update stdin a (UClient.unread (stdin a) typed))
      (printed shown a (UClient.turn setup.resolve (soc.map outcomeOf) typed).shown) := by
  cases soc with
  | none => exact h.type ha htyped
  | some packet =>
      cases packet with
      | none => exact h.unread htyped
      | some p =>
          obtain ⟨hflight, rfl, hshort⟩ := hsoc p rfl
          rw [Option.map_some, outcomeOf_short hshort]
          exact (h.display hflight).type ha htyped

end Turns

theorem Inv.turn (h : Inv setup s) {a : Address} (ha : setup.kind a = .client)
    {soc : Option (Option (Packet Address))} (hready : s.Ready a soc.join)
    (hsoc : ∀ p ∈ soc.join, p.contents.length < bufSize) (stdin found delivered : Bool) :
    Inv setup (setup.turn s a soc stdin found delivered) := by
  obtain ⟨-, -, hpacket⟩ := hready
  obtain ⟨left, hleft, hturn⟩ := setup.turn_eq (h.buf a) hsoc stdin found delivered rfl
  rw [hturn]
  refine h.update a (h.quiet a) hleft (h.ledger.turn ha ?_ ?_)
  · intro p hp
    exact ⟨(hpacket p hp).1, (hpacket p hp).2, hsoc p hp⟩
  · intro t ht
    unfold Host.typed at ht
    split at ht
    · obtain rfl := Option.some.inj ht
      rfl
    · cases ht

/-- Steps that meet the condition keep every program inside its buffer. -/
theorem Inv.step (h : Inv setup s) {act : Act Address} {t : State Address}
    (hstep : setup.step s act = some t) (hfits : setup.Fits act) : Inv setup t := by
  cases act with
  | serve a packet delivered =>
      obtain ⟨⟨ha, hready⟩, rfl⟩ := Option.ite_some_none_eq_some.mp hstep
      obtain ⟨p, rfl, hother⟩ := hfits
      exact h.serve ha hready (h.fits (hready.2.2 p rfl).1 hother) delivered
  | turn a soc stdin found delivered =>
      obtain ⟨⟨ha, hready⟩, rfl⟩ := Option.ite_some_none_eq_some.mp hstep
      refine h.turn ha hready (fun p hp => ?_) stdin found delivered
      exact h.fits (hready.2.2 p hp).1 (hfits p hp)
  | lose p =>
      obtain ⟨-, rfl⟩ := Option.ite_some_none_eq_some.mp hstep
      exact ⟨h.quiet, h.buf, h.ledger.lose p⟩
  | copy p =>
      obtain ⟨hp, rfl⟩ := Option.ite_some_none_eq_some.mp hstep
      exact ⟨h.quiet, h.buf, h.ledger.copy hp⟩
  | stray p =>
      obtain ⟨hp, rfl⟩ := Option.ite_some_none_eq_some.mp hstep
      have hother := hp.resolve_right (by rw [h.quiet]; exact Bool.false_ne_true)
      exact ⟨h.quiet, h.buf, h.ledger.stray hother⟩

/-- The others do not. -/
theorem Inv.fits_of_step (h : Inv setup s) {act : Act Address} {t : State Address}
    (hstep : setup.step s act = some t) (hquiet : ∀ a, (t.host a).overrun = false) :
    setup.Fits act := by
  by_contra hfits
  cases act with
  | serve a packet delivered =>
      obtain ⟨-, rfl⟩ := Option.ite_some_none_eq_some.mp hstep
      have hlong : ∀ p ∈ packet, bufSize ≤ p.contents.length := by
        rintro p rfl
        by_contra hlt
        exact hfits ⟨p, rfl, fun _ => Nat.lt_of_not_le hlt⟩
      have hoverrun := State.serve_overrun (s := s) (h.buf a) hlong delivered
      rw [hquiet a] at hoverrun
      cases hoverrun
  | turn a soc stdin found delivered =>
      obtain ⟨-, rfl⟩ := Option.ite_some_none_eq_some.mp hstep
      obtain ⟨p, hp, hlong⟩ : ∃ p ∈ soc.join, bufSize ≤ p.contents.length := by
        by_contra hnone
        refine hfits fun p hp _ => Nat.lt_of_not_le fun hle => hnone ⟨p, hp, hle⟩
      obtain rfl : soc = some (some p) := Option.join_eq_some_iff.mp hp
      have hoverrun := setup.turn_overrun (h.buf a) hlong stdin found delivered
      rw [hquiet a] at hoverrun
      cases hoverrun
  | lose p => exact hfits trivial
  | copy p => exact hfits trivial
  | stray p => exact hfits trivial

theorem Inv.exec (h : Inv setup s) {acts : List (Act Address)} {t : State Address}
    (run : exec setup.step s acts = some t) (hfits : ∀ act ∈ acts, setup.Fits act) :
    Inv setup t := by
  induction acts generalizing s with
  | nil => exact Option.some.inj run ▸ h
  | cons act acts ih =>
      obtain ⟨u, hstep, htail⟩ := exec_cons_eq_some.mp run
      obtain ⟨hfirst, hrest⟩ := List.forall_mem_cons.mp hfits
      exact ih (h.step hstep hfirst) htail hrest

end Steps

/-- Clients and servers never store outside their buffers on each other's account: they stay
inside all along a run exactly as long as whatever others send them leaves room for the NUL
and no `recvfrom` of a server fails. -/
theorem exchange_safe_iff (setup : Setup Address) {acts : List (Act Address)}
    {s : State Address} (run : exec setup.step setup.start acts = some s) :
    (∀ n t, exec setup.step setup.start (acts.take n) = some t →
        ∀ a, (t.host a).overrun = false) ↔
      ∀ act ∈ acts, setup.Fits act := by
  refine exec_forall_iff (I := Inv setup) (fun _ h => h.quiet) ?_ ?_ (.start setup) run
  · intro u act v h hstep hfits
    exact h.step hstep hfits
  · intro u act v h hstep hquiet
    exact h.fits_of_step hstep hquiet

/-- A server at 0, and a client at 1 that asks it for `h:7`; what is at 2 runs neither. -/
def Setup.pair : Setup Nat where
  kind := fun a => if a = 0 then .server else if a = 1 then .client else .other
  resolve := fun _ _ => some 0
  stdin := fun _ => ascii ['h', ':', '7', '\n']
  stack := fun _ => List.replicate bufSize lf
  stack_length := fun _ => List.length_replicate
  peer := fun a => a

def pairLong : Packet Nat where
  source := 2
  dest := 0
  contents := List.replicate bufSize lf

theorem exchange_unsafe_pairLong :
    ¬ ∀ n t, exec Setup.pair.step Setup.pair.start
        ([.stray pairLong, .serve 0 (some pairLong) true].take n) = some t →
      ∀ a, (t.host a).overrun = false := by
  have hrun : (exec Setup.pair.step Setup.pair.start
      [.stray pairLong, .serve 0 (some pairLong) true]).isSome = true := by decide +kernel
  obtain ⟨s, run⟩ := Option.isSome_iff_exists.mp hrun
  rw [exchange_safe_iff Setup.pair run]
  intro hall
  obtain ⟨p, hp, hshort⟩ := hall (.serve 0 (some pairLong) true) (by simp)
  obtain rfl := Option.some.inj hp
  exact absurd (hshort rfl) (by rw [pairLong, List.length_replicate]; exact Nat.lt_irrefl _)

/-- The answer that a client may expect to a line of its input. -/
def Setup.expected (setup : Setup Address) (a : Address) (line : Bytes) :
    Option (Packet Address) :=
  match addressee setup.resolve (cstr line) with
  | none => none
  | some dest =>
      if setup.kind dest = .server then
        some
          { source := dest
            dest := a
            contents := (okReply (visible line)).take (bufSize - 1) }
      else none

theorem visible_cstr (text : Bytes) : visible (cstr text) = visible text := by
  rw [visible, cstr, List.takeWhile_takeWhile, visible]
  congr 1
  funext c
  by_cases hc : c = 0 <;> simp [hc]

omit [DecidableEq Address] in
theorem questions_answer (setup : Setup Address) (a : Address) (stdin : Bytes) :
    (setup.questions a stdin).filterMap setup.answer =
      (pieces (bufSize - 1) stdin).filterMap (setup.expected a) := by
  rw [Setup.questions, List.filterMap_filterMap]
  refine List.filterMap_congr fun line _ => ?_
  unfold Setup.question Setup.expected
  cases addressee setup.resolve (cstr line) with
  | none => rfl
  | some dest =>
      change setup.answer { source := a, dest := dest, contents := cstr line } = _
      unfold Setup.answer
      rw [visible_cstr]

/-- What a client prints from a server. -/
def Setup.answersTo (setup : Setup Address) (s : State Address) (a : Address) :
    List (Packet Address) :=
  (s.shown.filter setup.fromServer).filter fun p => p.dest = a

/-- Whatever the network does, everything that a client prints from a server is the answer to
a line of its input that names the server; and if the network copies nothing, there is such a
line for each. -/
theorem exchange_answers (setup : Setup Address) {acts : List (Act Address)}
    {s : State Address} (run : exec setup.step setup.start acts = some s)
    (hfits : ∀ act ∈ acts, setup.Fits act) {a : Address} (ha : setup.kind a = .client) :
    setup.answersTo s a ⊆ (pieces (bufSize - 1) (setup.stdin a)).filterMap (setup.expected a) ∧
      (s.net.copied = [] → setup.answersTo s a <+~
        (pieces (bufSize - 1) (setup.stdin a)).filterMap (setup.expected a)) := by
  have hledger := ((Inv.start setup).exec run hfits).ledger
  have hanswers : s.net.Answers setup.answer
      (fun p => decide (p.source = a))
      (fun p => decide (p.dest = a) && setup.fromServer p)
      (setup.questions a (setup.stdin a)) (setup.answersTo s a) := by
    refine ⟨fun p q hanswer hq => ?_, ?_, ?_, ?_⟩
    · obtain ⟨hdest, -⟩ := Bool.and_eq_true_iff.mp hq
      obtain ⟨-, rfl⟩ := Option.ite_some_none_eq_some.mp hanswer
      exact hdest
    · exact (List.sublist_append_left _ _).subperm.trans (hledger.asked a ha)
    · rw [← List.filter_filter]
      exact List.filter_sublist.subperm.trans hledger.answered
    · rw [← List.filter_filter]
      exact hledger.shown.filter _
  rw [← questions_answer]
  exact ⟨hanswers.heard_subset hledger.sound, hanswers.heard_subperm hledger.sound⟩

def pairQuestion : Packet Nat where
  source := 1
  dest := 0
  contents := ascii ['h', ':', '7', '\n']

def pairAnswer : Packet Nat where
  source := 0
  dest := 1
  contents := ascii ['h', ':', '7', ':', 'O', 'K', '\r', '\n']

/-- The client reads its line and sends it, the server answers, the client prints. -/
def pairActs : List (Act Nat) :=
  [.turn 1 none true true true, .serve 0 (some pairQuestion) true,
    .turn 1 (some (some pairAnswer)) false true true]

/-- The question is on its way. -/
def pairAsked (line : Bytes) : State Nat where
  net := Network.empty.send pairQuestion
  host := Function.update Setup.pair.start.host 1
    { Setup.pair.start.host 1 with buf := line, stdin := [] }
  shown := []

/-- The answer is on its way. -/
def pairAnswered (line left : Bytes) : State Nat where
  net := ((pairAsked line).net.arrive pairQuestion).send pairAnswer
  host := Function.update (pairAsked line).host 0
    { (pairAsked line).host 0 with buf := left, peer := 1 }
  shown := []

theorem exists_pairAsked : ∃ line, line.length = bufSize ∧
    Setup.pair.step Setup.pair.start (.turn 1 none true true true) = some (pairAsked line) := by
  have hnone : ∀ p, p ∉ (none : Option (Option (Packet Nat))).join := Option.not_mem_none
  obtain ⟨line, hline, hask⟩ := Setup.pair.turn_eq (s := Setup.pair.start) (a := 1)
    List.length_replicate (fun p hp => absurd hp (hnone p)) true true true rfl
  have hturn : UClient.turn Setup.pair.resolve none
      ((Setup.pair.start.host 1).typed none true true true) =
        { shown := none, sent := some (0, pairQuestion.contents), ended := false } := by
    rfl
  rw [Option.map_none, hturn] at hask
  refine ⟨line, hline, ?_⟩
  rw [Setup.step_turn rfl ⟨rfl, rfl, fun p hp => absurd hp (hnone p)⟩, hask]
  rfl

theorem exists_pairAnswered {line : Bytes} : ∃ left,
    Setup.pair.step (pairAsked line) (.serve 0 (some pairQuestion) true) =
      some (pairAnswered line left) := by
  obtain ⟨left, -, hserve⟩ := State.serve_eq (s := pairAsked line) (a := 0) (p := pairQuestion)
    List.length_replicate (Nat.le_of_ble_eq_true rfl) true
  have hready : (pairAsked line).Ready 0 (some pairQuestion) := by
    refine ⟨rfl, rfl, fun p hp => ?_⟩
    obtain rfl := Option.some.inj hp
    exact ⟨List.mem_singleton_self _, rfl⟩
  refine ⟨left, ?_⟩
  rw [Setup.step_serve rfl hready, hserve, if_pos rfl]
  rfl

theorem exists_pairPrinted {line left : Bytes} (hline : line.length = bufSize) : ∃ s,
    Setup.pair.step (pairAnswered line left) (.turn 1 (some (some pairAnswer)) false true true) =
      some s ∧ s.shown = [pairAnswer] := by
  have hshort : ∀ p ∈ (some (some pairAnswer)).join, p.contents.length < bufSize := by
    intro p hp
    obtain rfl := Option.some.inj hp
    exact Nat.le_of_ble_eq_true rfl
  obtain ⟨last, -, hprint⟩ := Setup.pair.turn_eq (s := pairAnswered line left) (a := 1)
    hline hshort false true true rfl
  have hready : (pairAnswered line left).Ready 1 (some (some pairAnswer)).join := by
    refine ⟨rfl, rfl, fun p hp => ?_⟩
    obtain rfl := Option.some.inj hp
    exact ⟨List.mem_cons_self, rfl⟩
  refine ⟨_, Setup.step_turn rfl hready false true true, ?_⟩
  rw [hprint]
  rfl

theorem exchange_answers_pair : ∃ s, exec Setup.pair.step Setup.pair.start pairActs = some s ∧
    Setup.pair.answersTo s 1 = [pairAnswer] ∧
    Setup.pair.answersTo s 1 ⊆ (pieces (bufSize - 1) (Setup.pair.stdin 1)).filterMap
      (Setup.pair.expected 1) ∧
    (s.net.copied = [] → Setup.pair.answersTo s 1 <+~
      (pieces (bufSize - 1) (Setup.pair.stdin 1)).filterMap (Setup.pair.expected 1)) := by
  obtain ⟨line, hline, hask⟩ := exists_pairAsked
  obtain ⟨left, hserve⟩ := exists_pairAnswered
  obtain ⟨s, hprint, hs⟩ := exists_pairPrinted hline
  have run : exec Setup.pair.step Setup.pair.start pairActs = some s :=
    exec_cons_eq_some.mpr ⟨_, hask, exec_cons_eq_some.mpr ⟨_, hserve,
      exec_cons_eq_some.mpr ⟨_, hprint, rfl⟩⟩⟩
  refine ⟨s, run, ?_, exchange_answers Setup.pair run ?_ rfl⟩
  · rw [Setup.answersTo, hs]
    rfl
  · intro act hact
    simp only [pairActs, List.mem_cons, List.not_mem_nil, or_false] at hact
    rcases hact with rfl | rfl | rfl
    · exact fun p hp => absurd hp (Option.not_mem_none p)
    · exact ⟨pairQuestion, rfl, fun h => by cases h⟩
    · intro p hp hother
      obtain rfl := Option.some.inj hp
      cases hother

end NetworkProgram.UClient
