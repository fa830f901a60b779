import NetworkProgram.Telnet.Decoding

set_option autoImplicit false

/-!
# Telnet: a stream that arrives in pieces

`recv_data` keeps nothing from one call to the next.  In `telnet1` its `recv` waits
for the rest of a command; in `telnet3` it fails, the call returns, and what was read
of the command is forgotten.  This module compares the two on one stream.
-/

namespace NetworkProgram.Telnet

open NetworkProgram.Foundation
open NetworkProgram.Libc

/-- No `recv` inside of a command finds nothing. -/
def Whole : Phase → List Arrival → Prop
  | _, [] => True
  | p, .again :: rest => p = .data ∧ Whole .data rest
  | p, .byte c :: rest => Whole (p.next c) rest

/-- Behind every IAC of the stream stand two more bytes. -/
def Complete (stream : Bytes) : Prop :=
  ∀ before behind, stream = before ++ iac :: behind → 2 ≤ behind.length

/-- `telnet1` and `telnet3` show the same and reply the same once they have read the
stream that arrives so. -/
def Agree (input : List Arrival) : Prop :=
  ∀ s t, Reaches telnet1 (start (steady (bytes input))) s → s.input = [] →
    Reaches telnet3 (start input) t → t.input = [] → heard s.log = heard t.log

@[simp] theorem bytes_steady (stream : Bytes) : bytes (steady stream) = stream := by
  induction stream with
  | nil => rfl
  | cons c stream ih => exact congrArg (c :: ·) ih

theorem again_notMem_steady (stream : Bytes) : .again ∉ steady stream := by
  simp [steady]

@[simp] theorem whole_byte {p : Phase} {c : UInt8} {rest : List Arrival} :
    Whole p (.byte c :: rest) ↔ Whole (p.next c) rest := by
  cases p <;> exact Iff.rfl

@[simp] theorem whole_again {p : Phase} {rest : List Arrival} :
    Whole p (.again :: rest) ↔ p = .data ∧ Whole .data rest := by
  cases p <;> exact Iff.rfl

theorem whole_steady (p : Phase) (stream : Bytes) : Whole p (steady stream) := by
  induction stream generalizing p with
  | nil => cases p <;> exact trivial
  | cons c stream ih => exact whole_byte.mpr (ih _)

/-- Whoever waits for the commands hears what arrives at once. -/
theorem hear_eq_of_whole {p : Phase} {input : List Arrival} (h : Whole p input) :
    hear p input = hear p (steady (bytes input)) := by
  induction input generalizing p with
  | nil => cases p <;> rfl
  | cons a rest ih =>
      cases a with
      | byte c =>
          rw [hear_byte, bytes, steady_cons, hear_byte, ih (whole_byte.mp h)]
      | again =>
          obtain ⟨rfl, hrest⟩ := whole_again.mp h
          rw [hear_again, bytes, ih hrest]

/-! ## Counting the bytes -/

/-- The bytes that an event stands for. -/
def Event.size : Event → Nat
  | .shown _ => 1
  | .replied _ => 3
  | .typed _ => 0

def sizes : List Event → Nat
  | [] => 0
  | e :: log => e.size + sizes log

/-- The bytes of the command that were read, and those that are still to come. -/
def Phase.taken : Phase → Nat
  | .data => 0
  | .command => 1
  | .option _ => 2

def Phase.missing : Phase → Nat
  | .data => 0
  | .command => 2
  | .option _ => 1

/-- The place at the end of the stream. -/
def finish : Phase → List Arrival → Phase
  | p, [] => p
  | _, .again :: rest => finish .data rest
  | p, .byte c :: rest => finish (p.next c) rest

@[simp] theorem finish_byte (p : Phase) (c : UInt8) (rest : List Arrival) :
    finish p (.byte c :: rest) = finish (p.next c) rest := by
  cases p <;> rfl

@[simp] theorem finish_again (p : Phase) (rest : List Arrival) :
    finish p (.again :: rest) = finish .data rest := by
  cases p <;> rfl

@[simp] theorem taken_eq_zero {p : Phase} : p.taken = 0 ↔ p = .data := by
  cases p <;> simp [Phase.taken]

theorem sizes_append (log log' : List Event) : sizes (log ++ log') = sizes log + sizes log' := by
  induction log with
  | nil => exact (Nat.zero_add _).symm
  | cons e log ih => rw [List.cons_append, sizes, sizes, ih, Nat.add_assoc]

theorem sizes_emit (p : Phase) (c : UInt8) : sizes (p.emit c) + (p.next c).taken = p.taken + 1 := by
  cases p with
  | data =>
      dsimp only [Phase.emit, Phase.next]
      by_cases hc : c = iac
      · rw [if_pos hc, if_pos hc]; rfl
      · rw [if_neg hc, if_neg hc]; rfl
  | command => rfl
  | option => rfl

/-- What is heard falls short of the stream by the bytes that were forgotten. -/
theorem sizes_hear (p : Phase) (input : List Arrival) :
    ∃ lost, sizes (hear p input) + lost =
        p.taken + (bytes input).length + (finish p input).missing ∧
      (lost = 0 ↔ Whole p input) := by
  induction input generalizing p with
  | nil =>
      refine ⟨0, ?_, iff_of_true rfl ?_⟩
      · cases p <;> rfl
      · cases p <;> exact trivial
  | cons a rest ih =>
      cases a with
      | byte c =>
          obtain ⟨lost, hsizes, hwhole⟩ := ih (p.next c)
          refine ⟨lost, ?_, ?_⟩
          · have hemit := sizes_emit p c
            rw [hear_byte, sizes_append, finish_byte, bytes, List.length_cons]
            omega
          · rw [whole_byte]
            exact hwhole
      | again =>
          obtain ⟨lost, hsizes, hwhole⟩ := ih .data
          refine ⟨lost + p.taken, ?_, ?_⟩
          · rw [hear_again, finish_again, bytes]
            simp only [Phase.taken] at hsizes
            omega
          · rw [whole_again, Nat.add_eq_zero_iff, hwhole, taken_eq_zero, and_comm]

/-- The stream ends inside of a command only if it has an IAC with less than two bytes behind. -/
theorem missing_finish (p : Phase) (input : List Arrival) :
    (finish p input).missing = 0 ∨ (bytes input).length + (finish p input).missing = p.missing ∨
      ∃ before behind, bytes input = before ++ iac :: behind ∧
        behind.length + (finish p input).missing = 2 := by
  induction input generalizing p with
  | nil => exact .inr (.inl (by cases p <;> rfl))
  | cons a rest ih =>
      cases a with
      | byte c =>
          rw [finish_byte, bytes]
          rcases ih (p.next c) with hzero | hstart | ⟨before, behind, hbytes, htwo⟩
          · exact .inl hzero
          · cases p with
            | data =>
                dsimp only [Phase.next] at hstart ⊢
                by_cases hc : c = iac
                · rw [if_pos hc] at hstart ⊢
                  exact .inr (.inr ⟨[], bytes rest, by rw [hc]; rfl, hstart⟩)
                · rw [if_neg hc] at hstart ⊢
                  exact .inl (Nat.eq_zero_of_add_eq_zero_left hstart)
            | command =>
                refine .inr (.inl ?_)
                rw [List.length_cons]
                simp only [Phase.next, Phase.missing] at hstart ⊢
                omega
            | option => exact .inl (Nat.eq_zero_of_add_eq_zero_left hstart)
          · exact .inr (.inr ⟨c :: before, behind, by rw [hbytes]; rfl, htwo⟩)
      | again =>
          rw [finish_again, bytes]
          rcases ih .data with hzero | hstart | hiac
          · exact .inl hzero
          · exact .inl (Nat.eq_zero_of_add_eq_zero_left hstart)
          · exact .inr (.inr hiac)

theorem missing_eq_zero {input : List Arrival} (h : Complete (bytes input)) :
    (finish .data input).missing = 0 := by
  rcases missing_finish .data input with hzero | hstart | ⟨before, behind, hbytes, htwo⟩
  · exact hzero
  · exact Nat.eq_zero_of_add_eq_zero_left hstart
  · have hroom := h before behind hbytes
    omega

/-- A complete stream is heard in full only by who waits for the commands. -/
theorem whole_of_hear_eq {input : List Arrival} (complete : Complete (bytes input))
    (h : hear .data input = hear .data (steady (bytes input))) : Whole .data input := by
  obtain ⟨lost, hsizes, hwhole⟩ := sizes_hear .data input
  obtain ⟨lost', hsizes', hwhole'⟩ := sizes_hear .data (steady (bytes input))
  rw [missing_eq_zero complete] at hsizes
  rw [missing_eq_zero (by rwa [bytes_steady]), bytes_steady, ← h] at hsizes'
  have hzero := hwhole'.mpr (whole_steady _ _)
  exact hwhole.mp (by omega)

/-! ## The two clients -/

/-- The clients agree if they hear the same, and always come to hear it. -/
theorem agree_iff (input : List Arrival) :
    Agree input ↔ hear .data input = hear .data (steady (bytes input)) := by
  constructor
  · intro h
    obtain ⟨used, s, -, hexec, hs⟩ :=
      telnet1_reads (List.replicate (bytes input).length none)
        (s := start (steady (bytes input))) (by simp [start, steady]) (again_notMem_steady _) rfl
    obtain ⟨used', t, -, hexec', ht⟩ :=
      telnet3_reads (List.replicate input.length .again) (s := start input) (by simp [start]) rfl
    have runs := Reaches.of_exec hexec
    have runt := Reaches.of_exec hexec'
    rw [← heard_telnet1 runs hs, ← heard_telnet3 runt ht]
    exact (h s t runs hs runt ht).symm
  · intro h s t runs hs runt ht
    rw [heard_telnet1 runs hs, heard_telnet3 runt ht, h]

/-- If no `recv` of `telnet3` finds nothing inside of a command, it shows and replies
what `telnet1` does; and for a stream that the server does not end near an IAC, only if. -/
theorem telnet3_agrees (input : List Arrival) :
    (Whole .data input → Agree input) ∧
    (Complete (bytes input) → (Agree input ↔ Whole .data input)) := by
  rw [agree_iff]
  exact ⟨hear_eq_of_whole, fun complete => ⟨whole_of_hear_eq complete, hear_eq_of_whole⟩⟩

/-- The socket is empty between bytes and commands only. -/
theorem telnet3_agrees_pause :
    Agree [.again, .byte 97, .again, .again, .byte iac, .byte doOpt, .byte 1, .again,
      .byte 98] := by
  refine (telnet3_agrees _).1 ?_
  have h97 : (97 : UInt8) ≠ iac := by decide
  simp [Whole, Phase.next, h97]

/-- The socket is empty behind the IAC of a command. -/
theorem telnet3_loses_command : ¬ ∀ input, Agree input := by
  intro h
  have hagree := h [.byte iac, .again, .byte doOpt, .byte 1]
  rw [agree_iff] at hagree
  revert hagree
  decide

end NetworkProgram.Telnet
