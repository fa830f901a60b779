import NetworkProgram.Telnet.Screen
import NetworkProgram.Telnet.Timing

set_option autoImplicit false

/-!
# Telnet: the negotiation

`recv_data` answers every option command with IAC WONT, requests and offers, agreements and
refusals alike.  So it answers an answer too, and two peers that are both like this one go on
as long as a command is under way.
-/

namespace NetworkProgram.Telnet

open NetworkProgram.Foundation
open NetworkProgram.Libc

/-- What is sent to the server in answer to its commands. -/
def replies (log : List Event) : List Bytes :=
  log.filterMap fun
    | .shown _ => none
    | .replied reply => some reply
    | .typed _ => none

@[simp] theorem replies_append (log log' : List Event) :
    replies (log ++ log') = replies log ++ replies log' :=
  List.filterMap_append

@[simp] theorem replies_heard (log : List Event) : replies (heard log) = replies log :=
  filterMap_heard (fun _ => rfl) log

/-- The replies of `n` calls of `recv_data`. -/
def repliesAfter (n : Nat) (received : Bytes) : List Bytes :=
  replies (calls n (start (steady received))).log

theorem repliesAfter_eq {n : Nat} {received : Bytes} (h : received.length ≤ n) :
    repliesAfter n received = replies (hear .data (steady received)) := by
  rw [repliesAfter, ← replies_heard, heard_calls (by simpa [steady] using h)]

/-! ## The replies to a stream -/

/-- What `recv_data` replies to an element. -/
def Element.reply : Element → Option Bytes
  | .data _ _ => none
  | .escaped => none
  | .command _ _ => none
  | .option _ opt _ => some [iac, wont, opt]
  | .subnegotiation _ _ => none

/-- What a refusal of all options is: a request and an offer are answered, each by its own
verb, and an answer is not. -/
def Element.refusal : Element → Option Bytes
  | .data _ _ => none
  | .escaped => none
  | .command _ _ => none
  | .option verb opt _ =>
      if verb = doOpt then some [iac, wont, opt]
      else if verb = will then some [iac, dont, opt]
      else none
  | .subnegotiation _ _ => none

/-- IAC and two more bytes are replied to. -/
theorem replies_three (x y : UInt8) (rest : Bytes) :
    replies (hear .data (steady (iac :: x :: y :: rest))) =
      [iac, wont, y] :: replies (hear .data (steady rest)) := rfl

theorem replies_simple {es : List Element} (simple : ∀ e ∈ es, e.Simple) (rest : Bytes) :
    replies (hear .data (steady (stream es ++ rest))) =
      es.filterMap Element.reply ++ replies (hear .data (steady rest)) := by
  have hreplies : ∀ e ∈ es, replies e.events = e.reply.toList := by
    intro e _
    cases e <;> rfl
  rw [hear_simple simple, replies_append, replies, List.filterMap_flatMap,
    List.filterMap_eq_flatMap_toList]
  exact congrArg (· ++ _) (List.flatMap_congr hreplies)

/-! ## Two peers -/

inductive Peer
  | left
  | right
  deriving DecidableEq, Repr

def Peer.other : Peer → Peer
  | .left => .right
  | .right => .left

/-- Two peers that read with `recv_data` what the other one sends. -/
structure Exchange where
  /-- The bytes that were sent to each of them and not read yet. -/
  underWay : Peer → Bytes
  /-- The number of replies so far. -/
  sent : Nat

/-- One of the calls of `recv` would wait for more. -/
def waits : Bytes → Bool
  | [] => true
  | c :: rest => decide (c = iac ∧ rest.length < 2)

/-- One call of `recv_data`: the replies, and what is left; none while it waits. -/
def receive (arrived : Bytes) : Option (List Bytes × Bytes) :=
  if waits arrived then none
  else
    let s := (recvData (start (steady arrived))).2
    some (replies s.log, bytes s.input)

/-- Peer `p` calls `recv_data`. -/
def exchange (s : Exchange) (p : Peer) : Option Exchange :=
  (receive (s.underWay p)).map fun (sent, rest) =>
    { underWay := Function.update (Function.update s.underWay p rest) p.other
        (s.underWay p.other ++ sent.flatten)
      sent := s.sent + sent.length }

/-- Nothing was replied yet. -/
def Exchange.start (underWay : Peer → Bytes) : Exchange where
  underWay := underWay
  sent := 0

/-- Data and option commands are under way. -/
structure Streams (es : Peer → List Element) (s : Exchange) : Prop where
  underWay : ∀ p, s.underWay p = stream (es p)
  simple : ∀ p, ∀ e ∈ es p, e.Simple

/-- The sum over the peers. -/
def both (f : List Element → Nat) (es : Peer → List Element) : Nat := f (es .left) + f (es .right)

/-- The number of commands, and of bytes of data. -/
def commands (es : List Element) : Nat := (es.filterMap Element.reply).length

def plain (es : List Element) : Nat := (dataOf es).length

/-- The reply as an element. -/
def Element.answer : Element → List Element
  | .data _ _ => []
  | .escaped => []
  | .command _ _ => []
  | .option _ opt _ => [.option wont opt (by decide)]
  | .subnegotiation _ _ => []

section Exchange

variable {es : Peer → List Element} {s t : Exchange} {p : Peer}

theorem both_eq (f : List Element → Nat) (es : Peer → List Element) (p : Peer) :
    both f es = f (es p) + f (es p.other) := by
  cases p with
  | left => rfl
  | right => exact Nat.add_comm _ _

theorem both_update (f : List Element → Nat) (es : Peer → List Element) (p : Peer)
    (own others : List Element) :
    both f (Function.update (Function.update es p own) p.other others) = f own + f others := by
  cases p with
  | left => rfl
  | right => exact Nat.add_comm _ _

theorem receive_simple {e : Element} (simple : e.Simple) (rest : Bytes) :
    receive (e.bytes ++ rest) = some (e.reply.toList, rest) := by
  cases e with
  | data c plain =>
      rw [show Element.bytes (.data c plain) ++ rest = c :: rest from rfl, receive, waits]
      simp [plain, recvData, steady_cons, start, replies, Element.reply]
  | option verb opt known =>
      rw [show Element.bytes (.option verb opt known) ++ rest = iac :: verb :: opt :: rest from rfl,
        receive, waits]
      simp [recvData, recvCommand, State.refuse, steady_cons, start, replies, Element.reply]
  | escaped => exact simple.elim
  | command => exact simple.elim
  | subnegotiation => exact simple.elim

theorem stream_answer (e : Element) : stream e.answer = e.reply.toList.flatten := by
  cases e <;> rfl

theorem simple_answer (e : Element) : ∀ a ∈ e.answer, a.Simple := by
  cases e <;> simp [Element.answer, Element.Simple]

/-- A call takes a byte of data, or puts a command in the place of a command. -/
theorem commands_answer {e : Element} (simple : e.Simple) :
    commands e.answer = commands [e] ∧ e.reply.toList.length = commands [e] ∧
      commands [e] + plain [e] = 1 ∧ plain e.answer = 0 := by
  cases e with
  | data => exact ⟨rfl, rfl, rfl, rfl⟩
  | option => exact ⟨rfl, rfl, rfl, rfl⟩
  | escaped => exact simple.elim
  | command => exact simple.elim
  | subnegotiation => exact simple.elim

theorem commands_append (es es' : List Element) :
    commands (es ++ es') = commands es + commands es' := by
  rw [commands, List.filterMap_append, List.length_append]
  rfl

theorem plain_append (es es' : List Element) : plain (es ++ es') = plain es + plain es' := by
  rw [plain, dataOf, List.flatMap_append, List.length_append]
  rfl

/-- The peer reads its first element, and the answer is under way to the other one. -/
theorem exchange_cons {e : Element} {behind : List Element} (simple : e.Simple)
    (underWay : s.underWay p = stream (e :: behind)) :
    exchange s p = some {
      underWay := Function.update (Function.update s.underWay p (stream behind)) p.other
        (s.underWay p.other ++ stream e.answer)
      sent := s.sent + e.reply.toList.length } := by
  rw [exchange, underWay, stream, List.flatMap_cons, receive_simple simple, stream_answer]
  rfl

theorem exchange_nil (underWay : s.underWay p = []) : exchange s p = none := by
  rw [exchange, underWay]
  rfl

/-- One call of `recv_data` of one of the peers. -/
theorem Streams.exchange (streams : Streams es s) (move : exchange s p = some t) :
    ∃ es', Streams es' t ∧ both commands es' = both commands es ∧
      t.sent + both plain es = s.sent + both plain es' + 1 ∧
      t.sent ≤ s.sent + both commands es := by
  have hunder := streams.underWay p
  cases hes : es p with
  | nil =>
      rw [hes] at hunder
      rw [exchange_nil hunder] at move
      cases move
  | cons e behind =>
      have hsimple := streams.simple p
      rw [hes] at hunder hsimple
      obtain ⟨he, hbehind⟩ := List.forall_mem_cons.mp hsimple
      rw [exchange_cons he hunder] at move
      obtain rfl := Option.some.inj move
      have hcons : commands (e :: behind) = commands [e] + commands behind :=
        commands_append [e] behind
      obtain ⟨hcommands, hreply, hone, hplain⟩ := commands_answer he
      refine ⟨Function.update (Function.update es p behind) p.other (es p.other ++ e.answer),
        ⟨fun q => ?_, fun q => ?_⟩, ?_, ?_, ?_⟩
      · dsimp only
        rcases eq_or_ne q p.other with rfl | hother
        · rw [Function.update_self, Function.update_self, streams.underWay]
          exact (List.flatMap_append ..).symm
        · rw [Function.update_of_ne hother, Function.update_of_ne hother]
          rcases eq_or_ne q p with rfl | hne
          · rw [Function.update_self, Function.update_self]
          · rw [Function.update_of_ne hne, Function.update_of_ne hne]
            exact streams.underWay q
      · rcases eq_or_ne q p.other with rfl | hother
        · rw [Function.update_self]
          exact List.forall_mem_append.mpr ⟨streams.simple p.other, simple_answer e⟩
        · rw [Function.update_of_ne hother]
          rcases eq_or_ne q p with rfl | hne
          · rw [Function.update_self]
            exact hbehind
          · rw [Function.update_of_ne hne]
            exact streams.simple q
      · rw [both_update, both_eq _ es p, hes, commands_append, hcommands, hcons]
        omega
      · have hcons : plain (e :: behind) = plain [e] + plain behind := plain_append [e] behind
        rw [both_update, both_eq _ es p, hes, plain_append, hplain, hcons]
        dsimp only
        omega
      · rw [both_eq _ es p, hes, hcons]
        dsimp only
        omega

/-- A peer to whom a command is under way has something to read. -/
theorem Streams.progress (streams : Streams es s) (more : both commands es ≠ 0) :
    ∃ p t, Telnet.exchange s p = some t := by
  have hsome : ∃ p, es p ≠ [] := by
    by_contra hnone
    have hnil : ∀ p, es p = [] := by simpa using hnone
    exact more (by rw [both, hnil, hnil]; rfl)
  obtain ⟨p, hp⟩ := hsome
  obtain ⟨e, behind, hes⟩ := List.exists_cons_of_ne_nil hp
  have hsimple : e.Simple := streams.simple p e (hes ▸ List.mem_cons_self)
  exact ⟨p, _, exchange_cons hsimple (hes ▸ streams.underWay p)⟩

/-- Any number of calls of either peer. -/
theorem Streams.exec {acts : List Peer} (streams : Streams es s)
    (run : Foundation.exec Telnet.exchange s acts = some t) :
    ∃ es', Streams es' t ∧ both commands es' = both commands es ∧
      t.sent + both plain es = s.sent + both plain es' + acts.length ∧
      t.sent ≤ s.sent + acts.length * both commands es := by
  induction acts generalizing s es with
  | nil =>
      obtain rfl := Option.some.inj run
      exact ⟨es, streams, rfl, rfl, Nat.le_add_right _ _⟩
  | cons p acts ih =>
      obtain ⟨u, move, tail⟩ := exec_cons_eq_some.mp run
      obtain ⟨es₁, hstreams, hcommands, hsent, hle⟩ := streams.exchange move
      obtain ⟨es₂, hlast, hcommands', hsent', hle'⟩ := ih hstreams tail
      refine ⟨es₂, hlast, hcommands'.trans hcommands, ?_, ?_⟩
      · rw [List.length_cons]
        omega
      · rw [hcommands] at hle'
        rw [List.length_cons, Nat.succ_mul]
        omega

/-- The number of replies is bounded only if no command is under way. -/
theorem Streams.bounded_iff (streams : Streams es s) :
    (∃ bound, ∀ acts t, Foundation.exec Telnet.exchange s acts = some t → t.sent ≤ bound) ↔
      both commands es = 0 := by
  constructor
  · rintro ⟨bound, hbound⟩
    by_contra more
    obtain ⟨acts, t, hlength, run, -⟩ := exec_of_progress
      (I := fun t => ∃ es', Streams es' t ∧ both commands es' = both commands es)
      (fun u ⟨es', hstreams, hcommands⟩ => by
        obtain ⟨p, v, move⟩ := hstreams.progress (hcommands ▸ more)
        obtain ⟨es'', hstreams', hcommands', -⟩ := hstreams.exchange move
        exact ⟨p, v, move, es'', hstreams', hcommands'.trans hcommands⟩)
      (bound + both plain es + 1) ⟨es, streams, rfl⟩
    obtain ⟨es', -, -, hsent, -⟩ := streams.exec run
    have hle := hbound acts t run
    omega
  · intro none
    refine ⟨s.sent, fun acts t run => ?_⟩
    obtain ⟨es', -, -, -, hle⟩ := streams.exec run
    rwa [none, Nat.mul_zero] at hle

end Exchange

/-- To data and option commands `recv_data` replies IAC WONT for each command, in order, and
to IAC and any two bytes in the same way.  Between two peers that do so every command is
answered by one command: their number never changes, and the exchange is finite only if there
is none. -/
theorem recv_data_negotiates :
    (∀ (n : Nat) (es : List Element), (∀ e ∈ es, e.Simple) → (stream es).length ≤ n →
      repliesAfter n (stream es) = es.filterMap Element.reply) ∧
    (∀ (n : Nat) (es : List Element) (x y : UInt8) (rest : Bytes), (∀ e ∈ es, e.Simple) →
      (stream es ++ iac :: x :: y :: rest).length ≤ n →
      repliesAfter n (stream es ++ iac :: x :: y :: rest) =
        es.filterMap Element.reply ++ [iac, wont, y] :: repliesAfter n rest) ∧
    ∀ es : Peer → List Element, (∀ p, ∀ e ∈ es p, e.Simple) →
      (∀ acts t, exec exchange (.start fun p => stream (es p)) acts = some t →
        (∃ es', Streams es' t ∧ both commands es' = both commands es ∧
          t.sent + both plain es = both plain es' + acts.length) ∧
        (both commands es ≠ 0 → ∃ p u, exchange t p = some u)) ∧
      ((∃ bound, ∀ acts t, exec exchange (.start fun p => stream (es p)) acts = some t →
        t.sent ≤ bound) ↔ both commands es = 0) := by
  refine ⟨fun n es simple hn => ?_, fun n es x y rest simple hn => ?_, fun es simple => ?_⟩
  · have hsimple := replies_simple simple []
    rw [List.append_nil] at hsimple
    rw [repliesAfter_eq hn, hsimple]
    exact List.append_nil _
  · rw [repliesAfter_eq hn, replies_simple simple, replies_three]
    rw [List.length_append, List.length_cons, List.length_cons, List.length_cons] at hn
    rw [repliesAfter_eq (by omega)]
  · have streams : Streams es (.start fun p => stream (es p)) := ⟨fun _ => rfl, simple⟩
    refine ⟨fun acts t run => ?_, streams.bounded_iff⟩
    obtain ⟨es', hstreams, hcommands, hsent, -⟩ := streams.exec run
    rw [Exchange.start, Nat.zero_add] at hsent
    exact ⟨⟨es', hstreams, hcommands, hsent⟩, fun more => hstreams.progress (hcommands ▸ more)⟩

/-- A request between data. -/
theorem recv_data_negotiates_request :
    repliesAfter 5 [97, iac, doOpt, 1, 98] = [[iac, wont, 1]] :=
  recv_data_negotiates.1 5 [.data 97 (by decide), .option doOpt 1 (by decide), .data 98 (by decide)]
    (by simp [Element.Simple]) (by decide)

/-- An answer is answered. -/
theorem wont_is_answered :
    ¬ ∀ (es : List Element) (n : Nat), (∀ e ∈ es, e.Simple) → (stream es).length ≤ n →
      repliesAfter n (stream es) = es.filterMap Element.refusal := by
  intro h
  have hreplies := h [.option wont 1 (by decide)] 3 (by simp [Element.Simple]) (by decide)
  revert hreplies
  decide

end NetworkProgram.Telnet
