import NetworkProgram.Telnet.Timing

set_option autoImplicit false

/-!
# Telnet: the end of the stream

What `recv_data` does is told call by call here: what each `recv` returns, what is sent, and what
`recv_data` returns.  The first `recv` is tested for 0, the second and the third are not.
-/

namespace NetworkProgram.Telnet

open NetworkProgram.Foundation
open NetworkProgram.Libc

/-- What one call of `recv_data` does. -/
structure CallOf where
  /-- What its `recv` return; none at the end of the stream. -/
  recvs : List (Option UInt8)
  shown : Option UInt8
  sent : Option Bytes
  ret : Int
  /-- What it leaves of the stream. -/
  rest : Bytes
  deriving DecidableEq, Repr

/-- `recv(g_soc, &c, 1, 0)`: what it returns, `c` after it, and the rest of the stream. -/
def recvOne (c : UInt8) : Bytes → Option UInt8 × UInt8 × Bytes
  | [] => (none, c, [])
  | x :: rest => (some x, x, rest)

/-- `recv_data`; `delivered` if its `send` succeeds. -/
def recvDataCall (delivered : Bool) : Bytes → CallOf
  | [] => { recvs := [none], shown := none, sent := none, ret := -1, rest := [] }
  | c :: rest =>
      if c = iac then
        let (first, c₁, rest) := recvOne c rest
        let (second, c₂, rest) := recvOne c₁ rest
        { recvs := [some c, first, second], shown := none, sent := some [iac, wont, c₂],
          ret := if delivered then 0 else -1, rest := rest }
      else { recvs := [some c], shown := some c, sent := none, ret := 0, rest := rest }

/-- The calls of `recv_data`, one after the other, until one returns -1. -/
def session : List Bool → Bytes → List CallOf
  | [], _ => []
  | delivered :: oks, stream =>
      let call := recvDataCall delivered stream
      call :: if call.ret = -1 then [] else session oks call.rest

/-- A whole command was received for what is sent, and the end of the stream is reported. -/
structure CallOf.Orderly (call : CallOf) : Prop where
  whole : call.sent ≠ none → none ∉ call.recvs
  reports : none ∈ call.recvs → call.ret = -1

/-- All calls are orderly, whichever `send` succeeds. -/
def Orderly (stream : Bytes) : Prop := ∀ oks, ∀ call ∈ session oks stream, call.Orderly

/-! ## One call -/

/-- The events of a call. -/
def CallOf.events (call : CallOf) : List Event :=
  call.shown.toList.map .shown ++ call.sent.toList.map .replied

/-- The same call in the runs of the clients. -/
theorem recvData_eq {s : State} {input : Bytes} (h : s.input = steady input) :
    recvData s = ((recvDataCall true input).ret,
      { s with
        input := steady (recvDataCall true input).rest
        log := s.log ++ (recvDataCall true input).events }) := by
  obtain ⟨_, errno, log, ended⟩ := s
  obtain rfl : _ = steady input := h
  cases input with
  | nil => exact congrArg (fun log => (-1, State.mk _ errno log ended)) (List.append_nil log).symm
  | cons c rest =>
      by_cases hc : c = iac
      · subst hc
        match rest with
        | [] => rfl
        | [x] => rfl
        | x :: y :: rest => rfl
      · simp [recvData, recvDataCall, steady_cons, hc, CallOf.events]

/-- What follows a call that is orderly and returns 0. -/
theorem orderly_of_call {stream rest : Bytes}
    (call : ∀ delivered, (recvDataCall delivered stream).Orderly)
    (left : ∀ delivered, (recvDataCall delivered stream).rest = rest)
    (goes : (recvDataCall true stream).ret ≠ -1) : Orderly stream ↔ Orderly rest := by
  constructor
  · intro h oks c hc
    refine h (true :: oks) c ?_
    rw [session, if_neg goes, left]
    exact List.mem_cons_of_mem _ hc
  · intro h oks c hc
    cases oks with
    | nil => exact absurd hc List.not_mem_nil
    | cons delivered oks =>
        rcases List.mem_cons.mp hc with rfl | hc
        · exact call delivered
        · split at hc
          · exact absurd hc List.not_mem_nil
          · exact h oks c (left delivered ▸ hc)

theorem orderly_nil : Orderly [] := by
  intro oks c hc
  cases oks with
  | nil => exact absurd hc List.not_mem_nil
  | cons delivered oks =>
      obtain rfl := List.mem_singleton.mp hc
      exact ⟨fun h => absurd rfl h, fun _ => rfl⟩

theorem orderly_data {c : UInt8} (plain : c ≠ iac) (rest : Bytes) :
    Orderly (c :: rest) ↔ Orderly rest := by
  have hcall (delivered : Bool) : recvDataCall delivered (c :: rest) =
      { recvs := [some c], shown := some c, sent := none, ret := 0, rest := rest } :=
    if_neg plain
  refine orderly_of_call (fun delivered => ?_) (fun delivered => ?_) ?_
  · rw [hcall]
    exact ⟨fun h => absurd rfl h, by simp⟩
  · rw [hcall]
  · rw [hcall]
    exact (by decide : (0 : Int) ≠ -1)

theorem orderly_command (x y : UInt8) (rest : Bytes) :
    Orderly (iac :: x :: y :: rest) ↔ Orderly rest := by
  refine orderly_of_call (fun delivered => ⟨fun _ => ?_, fun h => ?_⟩) (fun _ => rfl) ?_
  · exact (by simp : none ∉ [some iac, some x, some y])
  · exact absurd h (by simp : none ∉ [some iac, some x, some y])
  · exact (by decide : (0 : Int) ≠ -1)

/-- Inside of a command the end of the stream is answered. -/
theorem not_orderly_of_cut {stream : Bytes} (sent : (recvDataCall true stream).sent ≠ none)
    (cut : none ∈ (recvDataCall true stream).recvs) : ¬ Orderly stream :=
  fun h => (h [true] _ List.mem_cons_self).whole sent cut

/-! ## Whole streams -/

/-- `recv_data` is orderly exactly if the stream does not end inside of a command. -/
theorem orderly_iff (stream : Bytes) : Orderly stream ↔ finish .data (steady stream) = .data := by
  induction hn : stream.length using Nat.strong_induction_on generalizing stream with
  | _ n ih =>
      match stream with
      | [] => exact iff_of_true orderly_nil rfl
      | c :: rest =>
          by_cases hc : c = iac
          · subst hc
            match rest with
            | [] =>
                exact iff_of_false (not_orderly_of_cut (by decide) (by decide)) Phase.noConfusion
            | [x] =>
                refine iff_of_false (not_orderly_of_cut ?_ ?_) Phase.noConfusion
                · exact Option.some_ne_none _
                · exact (by simp : none ∈ [some iac, some x, none])
            | x :: y :: rest =>
                rw [orderly_command]
                exact ih rest.length (by rw [← hn]; simp only [List.length_cons]; omega) rest rfl
          · rw [orderly_data hc, steady_cons, finish_byte, Phase.next, if_neg hc]
            exact ih rest.length (by rw [← hn]; exact Nat.lt_succ_self _) rest rfl

/-- The stream ends behind IAC: a refusal is sent, and 0 returned. -/
theorem not_orderly_iac : ¬ Orderly [97, iac] := by
  intro h
  have hcall := h [true, true] (recvDataCall true [iac]) (by decide)
  exact absurd (hcall.reports (by decide)) (by decide)

end NetworkProgram.Telnet
