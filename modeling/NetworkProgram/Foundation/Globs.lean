import Mathlib.Data.List.Basic

set_option autoImplicit false

/-!
# Foundation: globs

A glob is a list of pieces: any sequence of letters, any one letter, or a certain
letter.  Which letters count as the same is a parameter.
-/

namespace NetworkProgram.Foundation

variable {α : Type}

inductive Piece (α : Type)
  | sequence
  | one
  | letter (c : α)
  deriving DecidableEq, Repr

/-- The text is a match of the pieces. -/
inductive Glob (same : α → α → Prop) : List (Piece α) → List α → Prop
  | nil : Glob same [] []
  | sequence (skipped : List α) {pieces : List (Piece α)} {text : List α}
      (rest : Glob same pieces text) : Glob same (.sequence :: pieces) (skipped ++ text)
  | one (d : α) {pieces : List (Piece α)} {text : List α}
      (rest : Glob same pieces text) : Glob same (.one :: pieces) (d :: text)
  | letter {c d : α} (equal : same d c) {pieces : List (Piece α)} {text : List α}
      (rest : Glob same pieces text) : Glob same (.letter c :: pieces) (d :: text)

namespace Glob

variable {same : α → α → Prop} {pieces left right : List (Piece α)} {text : List α}

/-! ## One piece -/

theorem nil_iff : Glob same [] text ↔ text = [] := by
  constructor
  · intro h
    cases h
    rfl
  · rintro rfl
    exact .nil

theorem sequence_iff :
    Glob same (.sequence :: pieces) text ↔ ∃ rest, rest <:+ text ∧ Glob same pieces rest := by
  constructor
  · intro h
    cases h with
    | sequence skipped rest => exact ⟨_, List.suffix_append _ _, rest⟩
  · rintro ⟨rest, ⟨skipped, rfl⟩, hrest⟩
    exact .sequence skipped hrest

theorem one_iff :
    Glob same (.one :: pieces) text ↔ ∃ d rest, text = d :: rest ∧ Glob same pieces rest := by
  constructor
  · intro h
    cases h with
    | one d rest => exact ⟨d, _, rfl, rest⟩
  · rintro ⟨d, rest, rfl, hrest⟩
    exact .one d hrest

theorem letter_iff {c : α} : Glob same (.letter c :: pieces) text ↔
    ∃ d rest, text = d :: rest ∧ same d c ∧ Glob same pieces rest := by
  constructor
  · intro h
    cases h with
    | letter equal rest => exact ⟨_, _, rfl, equal, rest⟩
  · rintro ⟨d, rest, rfl, hequal, hrest⟩
    exact .letter hequal hrest

/-! ## Sequences only -/

/-- Pieces that are all sequences match every text, if there are any. -/
theorem of_sequences (h : ∀ p ∈ pieces, p = .sequence) (hne : pieces ≠ []) (text : List α) :
    Glob same pieces text := by
  induction pieces with
  | nil => exact absurd rfl hne
  | cons p pieces ih =>
      obtain rfl := h p List.mem_cons_self
      cases pieces with
      | nil => exact sequence_iff.mpr ⟨[], List.nil_suffix, .nil⟩
      | cons q pieces =>
          refine sequence_iff.mpr ⟨text, List.suffix_refl _, ih ?_ (List.cons_ne_nil _ _)⟩
          exact fun p hp => h p (List.mem_cons_of_mem _ hp)

theorem empty_iff : Glob same pieces [] ↔ ∀ p ∈ pieces, p = .sequence := by
  induction pieces with
  | nil => simp [nil_iff]
  | cons p pieces ih =>
      cases p with
      | sequence => simp [sequence_iff, ih]
      | one => simp [one_iff]
      | letter c => simp [letter_iff]

/-- What matches the empty text matches every text. -/
theorem of_empty (h : Glob same pieces []) (hne : pieces ≠ []) (text : List α) :
    Glob same pieces text :=
  of_sequences (empty_iff.mp h) hne text

/-! ## Pieces in a row -/

end Glob

end NetworkProgram.Foundation
