import NetworkProgram.Config.Lexer

set_option autoImplicit false

/-!
# Config: texts and their tokens

Every text is a row of words and single bytes with gaps between them, and its tokens are
those of the row (`exists_spaced`).  Where no two words stand side by side, the row may be
written with any gaps (`tokens_spaced`).
-/

namespace NetworkProgram.Config

open NetworkProgram.Foundation
open NetworkProgram.Libc

/-- A string over the alphabet of `T_STRING`. -/
@[ext] structure Word where
  bytes : Bytes
  nonempty : bytes ≠ []
  word : ∀ c ∈ bytes, isWord c = true
  deriving DecidableEq

/-- The scanner returns it as `T_STRING`. -/
def Word.Plain (w : Word) : Prop :=
  w.bytes ≠ hostnm ∧ w.bytes ≠ portnm ∧ w.bytes.all isdigit = false

instance (w : Word) : Decidable w.Plain := inferInstanceAs (Decidable (_ ∧ _ ∧ _))

/-- What the scanner takes at once. -/
inductive Lexeme
  | word (w : Word)
  | eq
  | quote
  | openParen
  | closeParen
  | semicolon
  deriving DecidableEq

namespace Lexeme

def text : Lexeme → Bytes
  | word w => w.bytes
  | eq => [61]
  | quote => [34]
  | openParen => [123]
  | closeParen => [125]
  | semicolon => [59]

def token : Lexeme → Token
  | word w => classify w.bytes
  | eq => .eq
  | quote => .quote
  | openParen => .openParen
  | closeParen => .closeParen
  | semicolon => .semicolon

def isWord : Lexeme → Bool
  | word _ => true
  | _ => false

/-- A lexeme that is no word is a single byte with a token of its own. -/
theorem mark_of_not_isWord {l : Lexeme} (h : l.isWord = false) :
    ∃ c, l.text = [c] ∧ (c, some l.token) ∈ marks := by
  cases l with
  | word w => cases h
  | eq | quote | openParen | closeParen | semicolon =>
      exact ⟨_, rfl, by decide⟩

theorem exists_of_mark {c : UInt8} {token : Token} (h : (c, some token) ∈ marks) :
    ∃ l : Lexeme, l.isWord = false ∧ l.text = [c] ∧ l.token = token := by
  simp only [marks, List.mem_cons, Prod.mk.injEq, Option.some.injEq, reduceCtorEq, and_false,
    List.not_mem_nil, or_false] at h
  obtain ⟨rfl, rfl⟩ | ⟨rfl, rfl⟩ | ⟨rfl, rfl⟩ | ⟨rfl, rfl⟩ | ⟨rfl, rfl⟩ := h
  · exact ⟨eq, rfl, rfl, rfl⟩
  · exact ⟨quote, rfl, rfl, rfl⟩
  · exact ⟨openParen, rfl, rfl, rfl⟩
  · exact ⟨closeParen, rfl, rfl, rfl⟩
  · exact ⟨semicolon, rfl, rfl, rfl⟩

end Lexeme

/-! ## Words and their tokens -/

section Words

variable {w : Word} {text : Bytes}

theorem Word.Plain.classify (h : w.Plain) : classify w.bytes = .string w.bytes := by
  simp [Config.classify, h.1, h.2.1, h.2.2]

/-- The four kinds of words, with their tokens. -/
theorem classify_cases (w : Word) :
    w.bytes = hostnm ∧ classify w.bytes = .hostnm ∨
      w.bytes = portnm ∧ classify w.bytes = .portnm ∨
      w.bytes.all isdigit = true ∧ classify w.bytes = .num (atoi w.bytes) ∨
      w.Plain ∧ classify w.bytes = .string w.bytes := by
  by_cases hplain : w.Plain
  · exact .inr (.inr (.inr ⟨hplain, hplain.classify⟩))
  unfold classify
  split
  · rename_i hhost
    exact .inl ⟨hhost, rfl⟩
  split
  · rename_i hport
    exact .inr (.inl ⟨hport, rfl⟩)
  split
  · rename_i hdigits
    exact .inr (.inr (.inl ⟨hdigits, rfl⟩))
  · rename_i hhost hport hdigits
    exact absurd ⟨hhost, hport, Bool.eq_false_iff.mpr hdigits⟩ hplain

theorem classify_string (h : classify w.bytes = .string text) : w.Plain ∧ text = w.bytes := by
  rcases classify_cases w with ⟨-, hw⟩ | ⟨-, hw⟩ | ⟨-, hw⟩ | ⟨hplain, hw⟩
  · cases hw.symm.trans h
  · cases hw.symm.trans h
  · cases hw.symm.trans h
  · exact ⟨hplain, (Token.string.inj (hw.symm.trans h)).symm⟩

theorem classify_hostnm (h : classify w.bytes = .hostnm) : w.bytes = hostnm := by
  rcases classify_cases w with ⟨hhost, -⟩ | ⟨-, hw⟩ | ⟨-, hw⟩ | ⟨-, hw⟩
  · exact hhost
  · cases hw.symm.trans h
  · cases hw.symm.trans h
  · cases hw.symm.trans h

theorem classify_portnm (h : classify w.bytes = .portnm) : w.bytes = portnm := by
  rcases classify_cases w with ⟨-, hw⟩ | ⟨hport, -⟩ | ⟨-, hw⟩ | ⟨-, hw⟩
  · cases hw.symm.trans h
  · exact hport
  · cases hw.symm.trans h
  · cases hw.symm.trans h

theorem classify_num {n : Int} (h : classify w.bytes = .num n) :
    w.bytes.all isdigit = true ∧ n = atoi w.bytes := by
  rcases classify_cases w with ⟨-, hw⟩ | ⟨-, hw⟩ | ⟨hdigits, hw⟩ | ⟨-, hw⟩
  · cases hw.symm.trans h
  · cases hw.symm.trans h
  · exact ⟨hdigits, (Token.num.inj (hw.symm.trans h)).symm⟩
  · cases hw.symm.trans h

theorem classify_digits (h : w.bytes.all isdigit = true) :
    classify w.bytes = .num (atoi w.bytes) := by
  have hhost : w.bytes ≠ hostnm := fun heq => by rw [heq] at h; cases h
  have hport : w.bytes ≠ portnm := fun heq => by rw [heq] at h; cases h
  simp [classify, hhost, hport, h]

end Words

/-! ## Gaps -/

/-- `text` is the row of lexemes with bytes of `P` before, between and behind them. -/
inductive Spaced (P : UInt8 → Bool) : List Lexeme → Bytes → Prop
  | last {gap : Bytes} (hgap : ∀ c ∈ gap, P c = true) : Spaced P [] gap
  | next {gap : Bytes} {l : Lexeme} {lexemes : List Lexeme} {text : Bytes}
      (hgap : ∀ c ∈ gap, P c = true) (h : Spaced P lexemes text) :
      Spaced P (l :: lexemes) (gap ++ (l.text ++ text))

/-- No two words stand side by side. -/
def Apart (lexemes : List Lexeme) : Prop :=
  lexemes.IsChain fun l l' => l.isWord = false ∨ l'.isWord = false

theorem Spaced.mono {P Q : UInt8 → Bool} (hPQ : ∀ c, P c = true → Q c = true)
    {lexemes : List Lexeme} {text : Bytes} (h : Spaced P lexemes text) :
    Spaced Q lexemes text := by
  induction h with
  | last hgap => exact .last fun c hc => hPQ c (hgap c hc)
  | next hgap _ ih => exact .next (fun c hc => hPQ c (hgap c hc)) ih

theorem Spaced.cons {P : UInt8 → Bool} {c : UInt8} (hc : P c = true) {lexemes : List Lexeme}
    {text : Bytes} (h : Spaced P lexemes text) : Spaced P lexemes (c :: text) := by
  cases h with
  | last hgap => exact .last (List.forall_mem_cons.mpr ⟨hc, hgap⟩)
  | @next gap l lexemes text hgap h =>
      exact @Spaced.next P (c :: gap) l lexemes text (List.forall_mem_cons.mpr ⟨hc, hgap⟩) h

/-- Without any gaps. -/
theorem spaced_flatMap (P : UInt8 → Bool) (lexemes : List Lexeme) :
    Spaced P lexemes (lexemes.flatMap Lexeme.text) := by
  induction lexemes with
  | nil => exact .last (List.forall_mem_nil _)
  | cons l lexemes ih => exact @Spaced.next P [] l lexemes _ (List.forall_mem_nil _) ih

theorem tokens_gaps {gap : Bytes} (h : ∀ c ∈ gap, isGap c = true) (text : Bytes) :
    tokens (gap ++ text) = tokens text := by
  induction gap with
  | nil => rfl
  | cons c gap ih =>
      rw [List.forall_mem_cons] at h
      rw [List.cons_append, tokens_gap h.1, ih h.2]

theorem isWord_of_isGap {c : UInt8} (h : isGap c = true) : isWord c = false := by
  simp only [isGap, Bool.and_eq_true, Bool.not_eq_true'] at h
  exact h.1

/-- What does not begin with a word does not go on with one. -/
theorem Spaced.head {l : Lexeme} {lexemes : List Lexeme} {text : Bytes}
    (hl : l.isWord = true) (hapart : Apart (l :: lexemes)) (h : Spaced isGap lexemes text) :
    ∀ c ∈ text.head?, isWord c = false := by
  cases h with
  | last hgap =>
      intro c hc
      exact isWord_of_isGap (hgap c (List.mem_of_mem_head? hc))
  | @next gap l' lexemes text hgap h =>
      cases gap with
      | cons d gap =>
          rintro c ⟨⟩
          exact isWord_of_isGap (hgap d List.mem_cons_self)
      | nil =>
          have hl' : l'.isWord = false := by
            rw [Apart, List.isChain_cons_cons, hl] at hapart
            exact hapart.1.resolve_left (by simp)
          obtain ⟨d, htext, hmark⟩ := Lexeme.mark_of_not_isWord hl'
          rw [htext]
          rintro c ⟨⟩
          exact (marks_not_word _ hmark).1

theorem tokens_spaced {lexemes : List Lexeme} {text : Bytes} (h : Spaced isGap lexemes text)
    (hapart : Apart lexemes) : tokens text = lexemes.map Lexeme.token := by
  induction h with
  | last hgap =>
      have hnil := tokens_gaps hgap []
      rw [List.append_nil] at hnil
      exact hnil
  | @next gap l lexemes text hgap h ih =>
      have hrest := ih (List.IsChain.of_cons hapart)
      rw [tokens_gaps hgap, List.map_cons, ← hrest]
      cases hl : l.isWord with
      | false =>
          obtain ⟨c, htext, hmark⟩ := Lexeme.mark_of_not_isWord hl
          rw [htext]
          exact tokens_mark hmark text
      | true =>
          cases l with
          | word w => exact tokens_word ⟨w.nonempty, w.word, h.head hl hapart⟩
          | _ => cases hl

/-- A byte is a gap, or begins a word, or has a token of its own. -/
theorem gap_word_mark (c : UInt8) :
    isGap c = true ∨ isWord c = true ∨ ∃ token, (c, some token) ∈ marks := by
  cases hword : isWord c with
  | true => exact .inr (.inl rfl)
  | false =>
      cases hmark : marks.any fun mark => mark.1 == c && mark.2.isSome with
      | false => exact .inl (by simp [isGap, hword, hmark])
      | true =>
          obtain ⟨⟨d, token⟩, hmem, heq⟩ := List.any_eq_true.mp hmark
          simp only [Bool.and_eq_true, beq_iff_eq] at heq
          obtain ⟨rfl, hsome⟩ := heq
          obtain ⟨token, rfl⟩ := Option.isSome_iff_exists.mp hsome
          exact .inr (.inr ⟨token, hmem⟩)

/-- The longest word at the start of a text. -/
theorem exists_word {c : UInt8} (h : isWord c = true) (rest : Bytes) :
    ∃ (w : Word) (tail : Bytes), c :: rest = w.bytes ++ tail ∧
      (∀ d ∈ tail.head?, isWord d = false) := by
  have hhead : (c :: rest).takeWhile isWord ≠ [] := by
    rw [List.takeWhile_cons_of_pos h]
    exact List.cons_ne_nil _ _
  refine ⟨⟨(c :: rest).takeWhile isWord, hhead, fun d hd => ?_⟩, (c :: rest).dropWhile isWord,
    List.takeWhile_append_dropWhile.symm, fun d hd => ?_⟩
  · exact List.all_eq_true.mp List.all_takeWhile d hd
  · have hdrop := List.head?_dropWhile_not isWord (c :: rest)
    rw [hd] at hdrop
    exact hdrop

/-- Every text is a row of lexemes with gaps. -/
theorem exists_spaced (text : Bytes) :
    ∃ lexemes, Spaced isGap lexemes text ∧ tokens text = lexemes.map Lexeme.token := by
  induction hn : text.length using Nat.strongRecOn generalizing text with
  | ind n ih =>
      cases text with
      | nil => exact ⟨[], .last (List.forall_mem_nil _), rfl⟩
      | cons c rest =>
          have ihrest := ih rest.length (hn ▸ Nat.lt_succ_self _) rest rfl
          obtain hgap | hword | ⟨token, hmark⟩ := gap_word_mark c
          · obtain ⟨lexemes, hspaced, htokens⟩ := ihrest
            exact ⟨lexemes, hspaced.cons hgap, (tokens_gap hgap rest).trans htokens⟩
          · obtain ⟨w, tail, heq, hends⟩ := exists_word hword rest
            have hlt : tail.length < n := by
              rw [← hn, heq, List.length_append]
              exact Nat.lt_add_of_pos_left (List.length_pos_of_ne_nil w.nonempty)
            obtain ⟨lexemes, hspaced, htokens⟩ := ih tail.length hlt tail rfl
            refine ⟨.word w :: lexemes, ?_, ?_⟩
            · rw [heq]
              exact @Spaced.next isGap [] (.word w) _ _ (List.forall_mem_nil _) hspaced
            · rw [heq, tokens_word ⟨w.nonempty, w.word, hends⟩, htokens]
              rfl
          · obtain ⟨lexemes, hspaced, htokens⟩ := ihrest
            obtain ⟨l, -, htext, htoken⟩ := Lexeme.exists_of_mark hmark
            refine ⟨l :: lexemes, ?_, ?_⟩
            · have hnext := @Spaced.next isGap [] l _ _ (List.forall_mem_nil _) hspaced
              rw [htext] at hnext
              exact hnext
            · rw [tokens_mark hmark, List.map_cons, htoken, htokens]
              rfl

end NetworkProgram.Config
