import NetworkProgram.Telnet.Decoding

set_option autoImplicit false

/-!
# Telnet: what is typed

`telnet1` sends what `getchar` returned as it is, and `telnet3` if it is not EOF, which for a
`char` is 0xFF.  Neither doubles a byte 0xFF, so that the server takes it for IAC.
-/

namespace NetworkProgram.Telnet

open NetworkProgram.Foundation
open NetworkProgram.Libc

/-! ## The receiver -/

/-- The data in bytes that hold no command: IAC IAC is the byte 0xFF, and IAC with any other
byte is a command. -/
def decode : Bytes → Option Bytes
  | [] => some []
  | [c] => if c = iac then none else some [c]
  | c :: x :: rest =>
      if c = iac then
        if x = iac then (decode rest).map (iac :: ·) else none
      else (decode (x :: rest)).map (c :: ·)

theorem decode_cons {c : UInt8} (plain : c ≠ iac) (rest : Bytes) :
    decode (c :: rest) = (decode rest).map (c :: ·) := by
  cases rest with
  | nil => exact if_neg plain
  | cons x rest => exact if_neg plain

theorem length_decode {sent data : Bytes} (h : decode sent = some data) :
    data.length ≤ sent.length := by
  induction sent using decode.induct generalizing data with
  | case1 =>
      obtain rfl := Option.some.inj h
      exact Nat.le_refl _
  | case2 => simp [decode] at h
  | case3 c plain =>
      rw [decode, if_neg plain] at h
      obtain rfl := Option.some.inj h
      exact Nat.le_refl _
  | case4 rest ih =>
      rw [decode, if_pos rfl, if_pos rfl] at h
      obtain ⟨data, hrest, rfl⟩ := Option.map_eq_some_iff.mp h
      have hle := ih hrest
      simp only [List.length_cons]
      omega
  | case5 x rest hx => simp [decode, hx] at h
  | case6 c x rest plain ih =>
      rw [decode_cons plain] at h
      obtain ⟨data, hrest, rfl⟩ := Option.map_eq_some_iff.mp h
      exact Nat.succ_le_succ (ih hrest)

/-- Bytes that are sent as they are arrive as they are, if there is no IAC among them. -/
theorem decode_eq_self_iff (data : Bytes) : decode data = some data ↔ iac ∉ data := by
  induction data with
  | nil => exact iff_of_true rfl List.not_mem_nil
  | cons c data ih =>
      by_cases hc : c = iac
      · subst hc
        refine iff_of_false (fun h => ?_) (not_not_intro List.mem_cons_self)
        cases data with
        | nil => simp [decode] at h
        | cons x rest =>
            -- Two bytes make at most one.
            rw [decode, if_pos rfl] at h
            obtain ⟨-, h⟩ := Option.ite_none_right_eq_some.mp h
            obtain ⟨data, hrest, heq⟩ := Option.map_eq_some_iff.mp h
            have hle := length_decode hrest
            have hlen := congrArg List.length heq
            simp only [List.length_cons] at hlen
            omega
      · rw [decode_cons hc, List.mem_cons, not_or, ← ih]
        constructor
        · intro h
          obtain ⟨data', hrest, heq⟩ := Option.map_eq_some_iff.mp h
          obtain rfl := (List.cons.inj heq).2
          exact ⟨Ne.symm hc, hrest⟩
        · rintro ⟨-, hrest⟩
          rw [hrest]
          rfl

/-! ## The senders -/

/-- The bytes sent for what was typed. -/
def sent (log : List Event) : Bytes :=
  log.filterMap fun
    | .shown _ => none
    | .replied _ => none
    | .typed c => some c

@[simp] theorem sent_append (log log' : List Event) : sent (log ++ log') = sent log ++ sent log' :=
  List.filterMap_append

/-- What `getchar` is asked for in a round. -/
def Select.stdin : Select → List Getchar
  | .interrupted => []
  | .failed => []
  | .timeout => []
  | .ready _ stdin => stdin.toList

/-- The rounds of a run that come to `getchar`: in the one that ends the loop `recv_data` has
failed before. -/
def completed {α : Type} (s : State) (rounds : List α) : List α :=
  if s.ended then rounds.dropLast else rounds

/-- What `getchar` returned in a run of `telnet1`. -/
def typed (s : State) (answers : List Select) : List Getchar :=
  (completed s answers).flatMap Select.stdin

/-- The bytes among what `getchar` returned. -/
def keys (typed : List Getchar) : Bytes :=
  typed.filterMap fun
    | .byte c => some c
    | .eof => none
    | .again => none

theorem sent_heard (log : List Event) : sent (heard log) = [] := by
  rw [sent, List.filterMap_eq_nil_iff]
  intro e he
  cases e with
  | shown c => rfl
  | replied reply => rfl
  | typed c => exact absurd (List.mem_filter.mp he).2 Bool.false_ne_true

/-- `recv_data` sends replies only. -/
theorem sent_recvData (s : State) : sent (recvData s).2.log = sent s.log := by
  have call := call_recvData s
  generalize recvData s = result at call ⊢
  cases call with
  | atEnd => rfl
  | fails => rfl
  | takes own log => rw [log, sent_append, ← own, sent_heard, List.append_nil]

/-- A client that in each round sends what `keyed` says has sent the keys of all rounds. -/
theorem sent_of_run {α : Type} {step : State → α → Option State} {keyed : α → Bytes}
    (ends : ∀ s a, s.ended = true → step s a = none)
    (one : ∀ s a t, step s a = some t →
      sent t.log = sent s.log ++ if t.ended then [] else keyed a)
    {rounds : List α} {s t : State} (going : s.ended = false)
    (run : exec step s rounds = some t) :
    sent t.log = sent s.log ++ (completed t rounds).flatMap keyed := by
  induction rounds generalizing s with
  | nil =>
      obtain rfl := Option.some.inj run
      rw [completed, going]
      exact (List.append_nil _).symm
  | cons a rounds ih =>
      obtain ⟨u, move, tail⟩ := exec_cons_eq_some.mp run
      have hone := one s a u move
      cases hu : u.ended with
      | true =>
          rw [hu, if_pos rfl] at hone
          cases rounds with
          | nil =>
              obtain rfl := Option.some.inj tail
              rw [hone, completed, hu, if_pos rfl]
              rfl
          | cons b rounds =>
              obtain ⟨v, hmove, -⟩ := exec_cons_eq_some.mp tail
              rw [ends u b hu] at hmove
              cases hmove
      | false =>
          rw [hu, if_neg Bool.false_ne_true] at hone
          have hcons : completed t (a :: rounds) = a :: completed t rounds := by
            cases rounds with
            | nil =>
                obtain rfl := Option.some.inj tail
                rw [completed, completed, hu]
                rfl
            | cons b rounds =>
                unfold completed
                split <;> rfl
          rw [ih hu tail, hone, hcons, List.flatMap_cons, List.append_assoc]

theorem ended_recvData (s : State) : (recvData s).2.ended = s.ended := by
  have call := call_recvData s
  generalize recvData s = result at call ⊢
  cases call with
  | atEnd => rfl
  | fails => rfl
  | takes _ _ _ ended => exact ended

theorem sent_telnet1 {s t : State} {answer : Select} (h : telnet1 s answer = some t) :
    sent t.log = sent s.log ++ if t.ended then [] else answer.stdin.map Getchar.char := by
  unfold telnet1 at h
  split at h
  · cases h
  rename_i going
  rw [Bool.not_eq_true] at going
  cases answer with
  | interrupted => cases h; simp [Select.stdin]
  | failed => cases h; simp
  | timeout => cases h; simp [Select.stdin]
  | ready socket stdin =>
      dsimp only at h
      have hreceived : sent (if socket then recvData s else (0, s)).2.log = sent s.log ∧
          (if socket then recvData s else (0, s)).2.ended = false := by
        cases socket with
        | false => exact ⟨rfl, going⟩
        | true => exact ⟨sent_recvData s, (ended_recvData s).trans going⟩
      generalize (if socket then recvData s else (0, s)) = received at h hreceived
      obtain ⟨hsent, hended⟩ := hreceived
      rw [← hsent]
      split at h
      · cases h; simp
      · cases stdin with
        | none => cases h; simp [Select.stdin]
        | some typed =>
            cases h
            rw [sent_append, if_neg (by simp [hended])]
            rfl

theorem sent_telnet3 {s t : State} {stdin : Getchar} (h : telnet3 s stdin = some t) :
    sent t.log = sent s.log ++
      if t.ended then [] else if stdin.char ≠ 255 then [stdin.char] else [] := by
  unfold telnet3 at h
  split at h
  · cases h
  rename_i going
  have hended := (ended_recvData s).trans (Bool.not_eq_true _ ▸ going)
  rw [← sent_recvData s]
  generalize recvData s = received at h hended
  dsimp only at h
  split at h
  · cases h; simp
  · split at h
    · next hchar =>
      cases h
      rw [sent_append, if_neg (by simp [hended]), if_pos hchar]
      rfl
    · next hchar =>
      cases h
      rw [if_neg hchar, ite_self, List.append_nil]

/-! ## The bytes that are sent -/

theorem keyed_eq_keys {typed : List Getchar} (h : iac ∉ keys typed) :
    typed.flatMap (fun stdin => if stdin.char ≠ 255 then [stdin.char] else []) = keys typed := by
  induction typed with
  | nil => rfl
  | cons stdin typed ih =>
      rw [List.flatMap_cons]
      cases stdin with
      | byte c =>
          rw [show keys (.byte c :: typed) = c :: keys typed from rfl, List.mem_cons, not_or] at h
          have hchar : Getchar.char (.byte c) ≠ 255 := Ne.symm h.1
          rw [if_pos hchar, ih h.2]
          rfl
      | eof => exact ih h
      | again => exact ih h

/-- `telnet1` sends the bytes that were typed as they are, and so does `telnet3` if none of them
is 0xFF; for the end of the input, and while nothing is typed, `telnet3` sends nothing.  Sent as
they are, bytes arrive as they are exactly if none of them is 0xFF. -/
theorem typing (data : Bytes) :
    (∀ input answers s, exec telnet1 (start input) answers = some s →
      typed s answers = data.map .byte → sent s.log = data) ∧
    (iac ∉ data → ∀ input rounds s, exec telnet3 (start input) rounds = some s →
      keys (completed s rounds) = data → sent s.log = data) ∧
    (decode data = some data ↔ iac ∉ data) := by
  refine ⟨fun input answers s run htyped => ?_, fun plain input rounds s run hkeys => ?_,
    decode_eq_self_iff data⟩
  · have hends : ∀ s a, s.ended = true → telnet1 s a = none := fun s a h => if_pos h
    have hsent := sent_of_run hends (fun _ _ _ => sent_telnet1) rfl run
    rw [hsent, ← List.map_flatMap, ← typed, htyped, List.map_map]
    exact List.map_id data
  · have hends : ∀ s a, s.ended = true → telnet3 s a = none := fun s a h => if_pos h
    have hsent := sent_of_run hends (fun _ _ _ => sent_telnet3) rfl run
    rw [hsent, keyed_eq_keys (hkeys ▸ plain), hkeys]
    rfl

/-- Two letters, while the server sends nothing. -/
theorem typing_letters :
    ∃ s, exec telnet3 (start [.again, .again, .again]) [.byte 97, .again, .byte 98] = some s ∧
      sent s.log = [97, 98] := by
  obtain ⟨s, run, hkeys⟩ : ∃ s, exec telnet3 (start [.again, .again, .again])
      [.byte 97, .again, .byte 98] = some s ∧
      keys (completed s [.byte 97, .again, .byte 98]) = [97, 98] := ⟨_, rfl, rfl⟩
  exact ⟨s, run, (typing [97, 98]).2.1 (by decide) _ _ s run hkeys⟩

/-- A byte 0xFF is not doubled. -/
theorem key_not_doubled :
    ¬ ∀ (data : Bytes) input answers s, exec telnet1 (start input) answers = some s →
      typed s answers = data.map .byte → decode (sent s.log) = some data := by
  intro h
  have hdecode := h [255] [] [.ready false (some (.byte 255))] _ rfl rfl
  revert hdecode
  decide

end NetworkProgram.Telnet
