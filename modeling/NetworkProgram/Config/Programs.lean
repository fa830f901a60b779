import NetworkProgram.Config.Grammar
import NetworkProgram.Config.Spelling

set_option autoImplicit false

/-!
# Config: programs as they are written

`Config.Grammar` says which tokens make a program, and `Config.Spelling` which texts are
words and gaps that the scanner reads as such tokens.  This module puts both together: an
`Entry` is a statement with its words, as they stand in the text, and `programLexemes` is a
whole program of them.

* `program_tokens`: a program that is written with words of the right kinds has the tokens of
  its statements.
* `exists_program`: a text that has the tokens of a program is a program written with gaps.
* `reading_statements`: each reading of it as one has the same name and the same statements,
  so that what a text says does not depend on how it is cut into words and gaps.

Limits of scope: this is about texts and their tokens only.  Numbers have the value that
`atoi` gives them, also where it does not fit in an `int`; how the parser reads the tokens is
in `Config.Grammar`, and what the program keeps of the statements in `Config.Client2`.
-/

namespace NetworkProgram.Config

open NetworkProgram.Libc

def Word.hostnm : Word := ⟨Config.hostnm, by decide, hostnm_isWord⟩

def Word.portnm : Word := ⟨Config.portnm, by decide, portnm_isWord⟩

/-- A statement, with what stands in the text. -/
inductive Entry
  | hostnm (h : Word)
  | number (d : Word)
  | portnm (p : Word)

namespace Entry

def lexemes : Entry → List Lexeme
  | hostnm h => [.word .hostnm, .eq, .quote, .word h, .quote, .semicolon]
  | number d => [.word .portnm, .eq, .word d, .semicolon]
  | portnm p => [.word .portnm, .eq, .quote, .word p, .quote, .semicolon]

def statement : Entry → Statement
  | hostnm h => .hostnm h.bytes
  | number d => .number (atoi d.bytes)
  | portnm p => .portnm p.bytes

/-- The scanner takes the words for what they stand for. -/
def Ok : Entry → Prop
  | hostnm h => h.Plain
  | number d => d.bytes.all isdigit = true
  | portnm p => p.Plain

end Entry

def programLexemes (name : Word) (entries : List Entry) : List Lexeme :=
  .word name :: .openParen :: (entries.flatMap Entry.lexemes ++ [.closeParen])

/-- Two words never stand side by side in a program. -/
theorem apart_program (name : Word) (entries : List Entry) :
    Apart (programLexemes name entries) := by
  have hrest : ∀ l : Lexeme, l.isWord = false →
      Apart (l :: (entries.flatMap Entry.lexemes ++ [.closeParen])) := by
    induction entries with
    | nil => exact fun l hl => .cons_cons (.inl hl) (.singleton _)
    | cons e entries ih =>
        intro l hl
        have htail := ih .semicolon rfl
        cases e with
        | hostnm h | portnm p =>
            exact .cons_cons (.inl hl) (.cons_cons (.inr rfl) (.cons_cons (.inl rfl)
              (.cons_cons (.inl rfl) (.cons_cons (.inr rfl) (.cons_cons (.inl rfl) htail)))))
        | number d =>
            exact .cons_cons (.inl hl) (.cons_cons (.inr rfl) (.cons_cons (.inl rfl)
              (.cons_cons (.inr rfl) htail)))
  exact .cons_cons (.inr rfl) (hrest .openParen rfl)

/-! ## Tokens of lexemes -/

section Tokens

variable {l l' : Lexeme}

theorem classify_ne (w : Word) (h : l.isWord = false) : classify w.bytes ≠ l.token := by
  intro heq
  unfold classify at heq
  cases l with
  | word w => cases h
  | eq | quote | openParen | closeParen | semicolon =>
      split at heq
      · cases heq
      split at heq
      · cases heq
      split at heq <;> cases heq

theorem Lexeme.eq_of_token (h : l.token = l'.token) (hl' : l'.isWord = false) : l = l' := by
  cases l with
  | word w => exact absurd h (classify_ne w hl')
  | eq | quote | openParen | closeParen | semicolon =>
      cases l' with
      | word w => cases hl'
      | eq | quote | openParen | closeParen | semicolon => first | rfl | cases h

theorem Lexeme.word_of_string {text : Bytes} (h : l.token = .string text) :
    ∃ w, l = .word w ∧ w.Plain ∧ text = w.bytes := by
  cases l with
  | word w => exact ⟨w, rfl, classify_string h⟩
  | eq | quote | openParen | closeParen | semicolon => cases h

theorem Lexeme.word_of_num {value : Int} (h : l.token = .num value) :
    ∃ w, l = .word w ∧ w.bytes.all isdigit = true ∧ value = atoi w.bytes := by
  cases l with
  | word w => exact ⟨w, rfl, classify_num h⟩
  | eq | quote | openParen | closeParen | semicolon => cases h

theorem Lexeme.word_of_hostnm (h : l.token = .hostnm) : l = .word .hostnm := by
  cases l with
  | word w => exact congrArg Lexeme.word (Word.ext (classify_hostnm h))
  | eq | quote | openParen | closeParen | semicolon => cases h

theorem Lexeme.word_of_portnm (h : l.token = .portnm) : l = .word .portnm := by
  cases l with
  | word w => exact congrArg Lexeme.word (Word.ext (classify_portnm h))
  | eq | quote | openParen | closeParen | semicolon => cases h

end Tokens

/-! ## Programs and their tokens -/

section Programs

variable {name : Word} {entries : List Entry}

theorem Entry.Ok.tokens {e : Entry} (h : e.Ok) :
    e.lexemes.map Lexeme.token = e.statement.tokens := by
  cases e with
  | hostnm w =>
      have hw : classify w.bytes = .string w.bytes := Word.Plain.classify h
      simp only [Entry.lexemes, List.map_cons, Lexeme.token, hw]
      rfl
  | number w =>
      have hw : classify w.bytes = .num (atoi w.bytes) := classify_digits h
      simp only [Entry.lexemes, List.map_cons, Lexeme.token, hw]
      rfl
  | portnm w =>
      have hw : classify w.bytes = .string w.bytes := Word.Plain.classify h
      simp only [Entry.lexemes, List.map_cons, Lexeme.token, hw]
      rfl

theorem program_tokens (hname : name.Plain) (hentries : ∀ e ∈ entries, e.Ok) :
    (programLexemes name entries).map Lexeme.token =
      programTokens name.bytes (entries.map Entry.statement) := by
  have hrest : (entries.flatMap Entry.lexemes).map Lexeme.token =
      (entries.map Entry.statement).flatMap Statement.tokens := by
    rw [List.map_flatMap, List.flatMap_map]
    exact List.flatMap_congr fun e he => (hentries e he).tokens
  rw [programLexemes, List.map_cons, List.map_cons, List.map_append, hrest, Lexeme.token,
    hname.classify]
  rfl

/-- A statement that the tokens of an entry begin with is the entry's own. -/
theorem Entry.statement_of_tokens {e : Entry} {s : Statement} {lexemes : List Lexeme}
    {ts : List Token} (h : (e.lexemes ++ lexemes).map Lexeme.token = s.tokens ++ ts) :
    e.Ok ∧ e.statement = s ∧ lexemes.map Lexeme.token = ts := by
  have hkey : classify Word.hostnm.bytes = .hostnm := rfl
  have hkey' : classify Word.portnm.bytes = .portnm := rfl
  cases e <;> cases s <;>
    simp only [Entry.lexemes, Statement.tokens, List.cons_append, List.nil_append, List.map_cons,
      Lexeme.token, hkey, hkey', List.cons.injEq, reduceCtorEq, false_and, and_false,
      true_and] at h
  case hostnm.hostnm =>
    obtain ⟨hplain, htext⟩ := classify_string h.1
    exact ⟨hplain, congrArg Statement.hostnm htext.symm, h.2⟩
  case number.number =>
    obtain ⟨hdigits, hvalue⟩ := classify_num h.1
    exact ⟨hdigits, congrArg Statement.number hvalue.symm, h.2⟩
  case portnm.portnm =>
    obtain ⟨hplain, htext⟩ := classify_string h.1
    exact ⟨hplain, congrArg Statement.portnm htext.symm, h.2⟩

theorem entries_statements {statements : List Statement}
    (h : (entries.flatMap Entry.lexemes ++ [Lexeme.closeParen]).map Lexeme.token =
      statements.flatMap Statement.tokens ++ [.closeParen]) :
    (∀ e ∈ entries, e.Ok) ∧ entries.map Entry.statement = statements := by
  induction entries generalizing statements with
  | nil =>
      cases statements with
      | nil => exact ⟨List.forall_mem_nil _, rfl⟩
      | cons s statements =>
          have hlen := congrArg List.length h
          have hs := s.tokens_length
          rw [List.flatMap_cons, List.append_assoc, List.length_append] at hlen
          simp at hlen
          omega
  | cons e entries ih =>
      cases statements with
      | nil =>
          have hlen := congrArg List.length h
          cases e <;> simp [Entry.lexemes] at hlen
      | cons s statements =>
          rw [List.flatMap_cons, List.flatMap_cons, List.append_assoc, List.append_assoc] at h
          obtain ⟨hok, hstatement, hrest⟩ := Entry.statement_of_tokens h
          obtain ⟨hall, hstatements⟩ := ih hrest
          refine ⟨List.forall_mem_cons.mpr ⟨hok, hall⟩, ?_⟩
          rw [List.map_cons, hstatement, hstatements]

/-- A reading of a program as one has its name and its statements. -/
theorem reading_statements {text : Bytes} {s : Bytes} {statements : List Statement}
    (hspaced : Spaced isGap (programLexemes name entries) text)
    (htokens : tokens text = programTokens s statements) :
    name.Plain ∧ s = name.bytes ∧ (∀ e ∈ entries, e.Ok) ∧
      entries.map Entry.statement = statements := by
  rw [tokens_spaced hspaced (apart_program name entries), programLexemes, programTokens,
    List.map_cons, List.map_cons] at htokens
  obtain ⟨hname, hrest⟩ := List.cons.inj htokens
  obtain ⟨hplain, hs⟩ := classify_string hname
  exact ⟨hplain, hs, entries_statements (List.cons.inj hrest).2⟩

/-! ## Every program can be read -/

theorem exists_entry {s : Statement} {lexemes : List Lexeme} {ts : List Token}
    (h : lexemes.map Lexeme.token = s.tokens ++ ts) :
    ∃ (e : Entry) (rest : List Lexeme), lexemes = e.lexemes ++ rest ∧
      rest.map Lexeme.token = ts := by
  cases s with
  | hostnm text =>
      simp only [Statement.tokens, List.cons_append, List.nil_append, List.map_eq_cons_iff] at h
      obtain ⟨l₁, _, rfl, h₁, l₂, _, rfl, h₂, l₃, _, rfl, h₃, l₄, _, rfl, h₄, l₅, _, rfl, h₅,
        l₆, rest, rfl, h₆, hrest⟩ := h
      obtain rfl := Lexeme.word_of_hostnm h₁
      obtain rfl : l₂ = .eq := Lexeme.eq_of_token h₂ rfl
      obtain rfl : l₃ = .quote := Lexeme.eq_of_token h₃ rfl
      obtain ⟨w, rfl, -⟩ := Lexeme.word_of_string h₄
      obtain rfl : l₅ = .quote := Lexeme.eq_of_token h₅ rfl
      obtain rfl : l₆ = .semicolon := Lexeme.eq_of_token h₆ rfl
      exact ⟨.hostnm w, rest, rfl, hrest⟩
  | number value =>
      simp only [Statement.tokens, List.cons_append, List.nil_append, List.map_eq_cons_iff] at h
      obtain ⟨l₁, _, rfl, h₁, l₂, _, rfl, h₂, l₃, _, rfl, h₃, l₄, rest, rfl, h₄, hrest⟩ := h
      obtain rfl := Lexeme.word_of_portnm h₁
      obtain rfl : l₂ = .eq := Lexeme.eq_of_token h₂ rfl
      obtain ⟨w, rfl, -⟩ := Lexeme.word_of_num h₃
      obtain rfl : l₄ = .semicolon := Lexeme.eq_of_token h₄ rfl
      exact ⟨.number w, rest, rfl, hrest⟩
  | portnm text =>
      simp only [Statement.tokens, List.cons_append, List.nil_append, List.map_eq_cons_iff] at h
      obtain ⟨l₁, _, rfl, h₁, l₂, _, rfl, h₂, l₃, _, rfl, h₃, l₄, _, rfl, h₄, l₅, _, rfl, h₅,
        l₆, rest, rfl, h₆, hrest⟩ := h
      obtain rfl := Lexeme.word_of_portnm h₁
      obtain rfl : l₂ = .eq := Lexeme.eq_of_token h₂ rfl
      obtain rfl : l₃ = .quote := Lexeme.eq_of_token h₃ rfl
      obtain ⟨w, rfl, -⟩ := Lexeme.word_of_string h₄
      obtain rfl : l₅ = .quote := Lexeme.eq_of_token h₅ rfl
      obtain rfl : l₆ = .semicolon := Lexeme.eq_of_token h₆ rfl
      exact ⟨.portnm w, rest, rfl, hrest⟩

theorem exists_entries {statements : List Statement} {lexemes : List Lexeme}
    (h : lexemes.map Lexeme.token = statements.flatMap Statement.tokens ++ [.closeParen]) :
    ∃ entries : List Entry, lexemes = entries.flatMap Entry.lexemes ++ [.closeParen] := by
  induction statements generalizing lexemes with
  | nil =>
      simp only [List.flatMap_nil, List.nil_append, List.map_eq_cons_iff,
        List.map_eq_nil_iff] at h
      obtain ⟨l, _, rfl, hl, rfl⟩ := h
      obtain rfl : l = .closeParen := Lexeme.eq_of_token hl rfl
      exact ⟨[], rfl⟩
  | cons s statements ih =>
      rw [List.flatMap_cons, List.append_assoc] at h
      obtain ⟨e, rest, rfl, hrest⟩ := exists_entry h
      obtain ⟨entries, rfl⟩ := ih hrest
      exact ⟨e :: entries, by rw [List.flatMap_cons, List.append_assoc]⟩

/-- A text with the tokens of a program is one, with gaps. -/
theorem exists_program {text : Bytes} {s : Bytes} {statements : List Statement}
    (h : tokens text = programTokens s statements) :
    ∃ (name : Word) (entries : List Entry), Spaced isGap (programLexemes name entries) text := by
  obtain ⟨lexemes, hspaced, htokens⟩ := exists_spaced text
  rw [htokens, programTokens] at h
  simp only [List.map_eq_cons_iff] at h
  obtain ⟨l₁, _, rfl, h₁, l₂, rest, rfl, h₂, hrest⟩ := h
  obtain ⟨name, rfl, -⟩ := Lexeme.word_of_string h₁
  obtain rfl : l₂ = .openParen := Lexeme.eq_of_token h₂ rfl
  obtain ⟨entries, rfl⟩ := exists_entries hrest
  exact ⟨name, entries, hspaced⟩

end Programs

end NetworkProgram.Config
