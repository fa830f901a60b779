import NetworkProgram.Config.Lexer
import NetworkProgram.Flex.Rules

set_option autoImplicit false

/-!
# Config: the scanner of `chpater12/lex.yy.c`

The tables that flex made of `lexer.l`, and the actions.  They read the rules of the file
(`reads`), so that the calls of `yylex` return what the rules say of the whole text,
whether it comes from a file in blocks or from a terminal in lines.  The program ends within a
call only where there is no memory for the buffer or a read fails.
-/

namespace NetworkProgram.Config

open NetworkProgram.Foundation
open NetworkProgram.Libc
open NetworkProgram.Flex

def scanTables : ScanTables where
  accept := [
    0, 0, 0, 13, 12, 11, 10, 6, 4, 3, 9, 5, 4, 4, 7, 8, 11, 4, 3, 4, 4, 4, 4, 4, 4, 4, 4, 1, 2, 0]
  ec := [
    0, 1, 1, 1, 1, 1, 1, 1, 1, 2, 3, 1, 1, 1, 1, 1, 1, 1, 1, 1, 1, 1, 1, 1, 1, 1, 1, 1, 1, 1, 1,
    1, 2, 1, 4, 1, 1, 1, 1, 1, 1, 1, 1, 1, 1, 5, 5, 5, 6, 6, 6, 6, 6, 6, 6, 6, 6, 6, 1, 7, 1, 8,
    1, 1, 1, 5, 5, 5, 5, 5, 5, 5, 5, 5, 5, 5, 5, 5, 5, 5, 5, 5, 5, 5, 5, 5, 5, 5, 5, 5, 5, 1, 1,
    1, 1, 1, 1, 5, 5, 5, 5, 5, 5, 5, 9, 5, 5, 5, 5, 10, 11, 12, 13, 5, 14, 15, 16, 5, 5, 5, 5, 5,
    5, 17, 1, 18, 1, 1, 1, 1, 1, 1, 1, 1, 1, 1, 1, 1, 1, 1, 1, 1, 1, 1, 1, 1, 1, 1, 1, 1, 1, 1, 1,
    1, 1, 1, 1, 1, 1, 1, 1, 1, 1, 1, 1, 1, 1, 1, 1, 1, 1, 1, 1, 1, 1, 1, 1, 1, 1, 1, 1, 1, 1, 1,
    1, 1, 1, 1, 1, 1, 1, 1, 1, 1, 1, 1, 1, 1, 1, 1, 1, 1, 1, 1, 1, 1, 1, 1, 1, 1, 1, 1, 1, 1, 1,
    1, 1, 1, 1, 1, 1, 1, 1, 1, 1, 1, 1, 1, 1, 1, 1, 1, 1, 1, 1, 1, 1, 1, 1, 1, 1, 1, 1, 1, 1, 1,
    1, 1, 1, 1, 1, 1, 1, 1, 1, 1]
  metas := [
    0, 1, 1, 1, 1, 2, 2, 1, 1, 2, 2, 2, 2, 2, 2, 2, 2, 1, 1]
  base := [
    0, 0, 0, 34, 35, 31, 35, 35, 0, 26, 35, 35, 19, 18, 35, 35, 27, 0, 22, 12, 12, 9, 8, 12, 11,
    11, 10, 0, 0, 35, 17]
  defaults := [
    0, 29, 1, 29, 29, 29, 29, 29, 30, 30, 29, 29, 30, 30, 29, 29, 29, 30, 30, 30, 30, 30, 30, 30,
    30, 30, 30, 30, 30, 0, 29]
  nxt := [
    0, 4, 5, 6, 7, 8, 9, 10, 11, 12, 8, 8, 8, 13, 8, 8, 8, 14, 15, 17, 28, 27, 26, 25, 24, 23, 22,
    21, 18, 16, 20, 19, 18, 16, 29, 3, 29, 29, 29, 29, 29, 29, 29, 29, 29, 29, 29, 29, 29, 29, 29,
    29, 29, 29]
  chk := [
    0, 1, 1, 1, 1, 1, 1, 1, 1, 1, 1, 1, 1, 1, 1, 1, 1, 1, 1, 30, 26, 25, 24, 23, 22, 21, 20, 19,
    18, 16, 13, 12, 9, 5, 3, 29, 29, 29, 29, 29, 29, 29, 29, 29, 29, 29, 29, 29, 29, 29, 29, 29,
    29, 29]
  jamBase := 35
  jam := 29
  templates := 30
  endOfBuffer := 13

/-- The `switch` over the rules; the last is the default rule. -/
def scanner : Scanner Token where
  tables := scanTables
  actions := [.token fun _ => .hostnm, .token fun _ => .portnm, .token fun text => .num (atoi text),
    .token .string, .token fun _ => .eq, .token fun _ => .quote, .token fun _ => .openParen,
    .token fun _ => .closeParen, .token fun _ => .semicolon, .skip, .skip, .echo]
  initialSize := 16384
  readBufSize := 8192

/-! ## The rules in the tables -/

/-- What the rules match; the two words are `hostnm` and `portnm`. -/
def patterns : List (Pattern UInt8) :=
  [.word [104, 111, 115, 116, 110, 109], .word [112, 111, 114, 116, 110, 109], .many isdigit,
    .many isWord, .word [61], .word [34], .word [123], .word [125], .word [59], .word [10],
    .many isBlank, .one]

theorem patterns_describe : List.Forall₂ Pattern.Describes patterns (eventRules lexerRules) :=
  .cons (Pattern.describes_word _ _) <| .cons (Pattern.describes_word _ _) <|
    .cons (Pattern.describes_many _ _) <| .cons (Pattern.describes_many _ _) <|
    .cons (Pattern.describes_word _ _) <| .cons (Pattern.describes_word _ _) <|
    .cons (Pattern.describes_word _ _) <| .cons (Pattern.describes_word _ _) <|
    .cons (Pattern.describes_word _ _) <| .cons (Pattern.describes_word _ _) <|
    .cons (Pattern.describes_many _ _) <| .cons (Pattern.describes_one _) .nil

/-- A text that leads to each state, from the state 4 on. -/
def samples : List Bytes :=
  [[33], [32], [10], [34], [45], [48], [59], [61], [104], [112], [123], [125], [32, 32], [45, 45],
    [48, 48], [104, 111], [112, 111], [104, 111, 115], [112, 111, 114], [104, 111, 115, 116],
    [112, 111, 114, 116], [104, 111, 115, 116, 110], [112, 111, 114, 116, 110],
    [104, 111, 115, 116, 110, 109], [112, 111, 114, 116, 110, 109]]

def sample (state : Nat) : Bytes := if state = 1 then [] else samples.getD (state - 4) []

def states : List Nat := 1 :: List.range' 4 25

/-- A symbol of each class, from the class 1 on. -/
def reps : Bytes :=
  [33, 32, 10, 34, 45, 48, 59, 61, 104, 109, 110, 111, 112, 114, 115, 116, 123, 125]

def rep (c : UInt8) : UInt8 := reps.getD ((scanTables.symbol c).getD 1 - 1) 33

theorem forall_byte {P : UInt8 → Prop} (h : ∀ n < 256, P (UInt8.ofNat n)) (c : UInt8) : P c := by
  have hc := h c.toNat (UInt8.toNat_lt c)
  rwa [UInt8.ofNat_toNat] at hc

theorem rep_mem (c : UInt8) : rep c ∈ reps := by
  unfold rep
  rw [List.getD_eq_getElem?_getD]
  cases h : reps[(scanTables.symbol c).getD 1 - 1]? with
  | none => exact List.mem_cons_self
  | some d => exact List.mem_of_getElem? h

/-- The tables take for one what the rules cannot tell apart. -/
theorem rep_alike (c : UInt8) :
    scanTables.symbol c = scanTables.symbol (rep c) ∧ ∀ p ∈ patterns, p.Alike c (rep c) :=
  forall_byte (P := fun c =>
    scanTables.symbol c = scanTables.symbol (rep c) ∧ ∀ p ∈ patterns, p.Alike c (rep c))
    (by decide +kernel) c

theorem rep_next : ∀ s ∈ states, ∀ c ∈ reps, scanTables.automaton.Comes patterns states sample
    (sample s ++ [c]) (scanTables.automaton.next s c) := by
  decide +kernel

def simulation : Simulation scanTables.automaton patterns :=
  .ofSamples scanTables.automaton patterns states sample rep (by decide) rfl
    (fun c => ⟨fun s => congrArg (fun k => (k.bind fun k => scanTables.goto s k).filter
      fun t => t != scanTables.jam) (rep_alike c).1, (rep_alike c).2⟩)
    (fun s hs c => rep_next s hs (rep c) (rep_mem c))
    (by decide +kernel)

def reads : Reads scanner lexerRules where
  states := states
  classes := List.range' 1 18
  eob := 3
  start_mem := by decide
  start_accept := rfl
  accept_mem := by decide +kernel
  symbol_mem := forall_byte (by decide +kernel)
  next_eq := by decide +kernel
  stops := by decide +kernel
  ends := by decide +kernel
  nul_eq := rfl
  eob_next := by decide +kernel
  eob_accept := rfl
  eob_mem := by decide +kernel
  endOfBuffer_ne := by decide
  nul_next := by decide +kernel
  jam_accept := rfl
  jam_base := rfl
  size_le := by decide
  read_pos := by decide
  patterns := patterns
  simulation := simulation
  describes := patterns_describe
  actions_eq := rfl

/-- What the tables read the longest and what the rules match the longest is the same, and
the state says by which rule. -/
theorem scanTables_longest (c : UInt8) (rest : Bytes) :
    ∃ i r, scanTables.automaton.accept (scanTables.automaton.munch 1 (c :: rest)).2 = some i ∧
      (eventRules lexerRules)[i]? = some r ∧
      longest (c :: rest) (eventRules lexerRules) =
        some (r, (scanTables.automaton.munch 1 (c :: rest)).1) :=
  simulation.longest_some patterns_describe (reads.munch_pos (List.cons_ne_nil c rest))

/-! ## Bytes that are echoed -/

/-- A byte that no rule of the file matches. -/
def isStray (c : UInt8) : Bool := isGap c && !isBlank c && c != 10

theorem isStray_of_isWord {c : UInt8} (h : isWord c = true) : isStray c = false := by
  simp [isStray, isGap, h]

theorem isStray_of_isBlank {c : UInt8} (h : isBlank c = true) : isStray c = false := by
  simp [isStray, h]

theorem isStray_of_mark : ∀ mark ∈ marks, isStray mark.1 = false := by decide

/-- No rule matches such a byte. -/
theorem lexerRules_match : ∀ r ∈ lexerRules, ∀ text : Bytes, ∀ c ∈ text.take (r.length text),
    isStray c = false := by
  have hword : ∀ (k : Bytes) (token : Option Token), (∀ c ∈ k, isStray c = false) →
      ∀ text : Bytes, ∀ c ∈ text.take ((Rule.word k token).length text), isStray c = false := by
    intro k token hk text c hc
    dsimp only [Rule.word] at hc
    split at hc
    · rename_i hlead
      rw [← List.prefix_iff_eq_take.mp (List.isPrefixOf_iff_prefix.mp hlead)] at hc
      exact hk c hc
    · cases hc
  have hmany : ∀ (P : UInt8 → Bool) (make : Bytes → Option Token),
      (∀ c, P c = true → isStray c = false) →
      ∀ text : Bytes, ∀ c ∈ text.take ((Rule.many P make).length text), isStray c = false := by
    intro P make hP text c hc
    change c ∈ text.take (text.takeWhile P).length at hc
    rw [← List.prefix_iff_eq_take.mp (List.takeWhile_prefix P)] at hc
    exact hP c (List.all_eq_true.mp List.all_takeWhile c hc)
  have hwords : ∀ r ∈ wordRules, ∀ text : Bytes, ∀ c ∈ text.take (r.length text),
      isStray c = false := by
    simp only [wordRules, List.forall_mem_cons]
    exact ⟨hword _ _ fun c hc => isStray_of_isWord (hostnm_isWord c hc),
      hword _ _ fun c hc => isStray_of_isWord (portnm_isWord c hc),
      hmany _ _ fun c hc => isStray_of_isWord (isWord_of_isdigit hc),
      hmany _ _ fun c hc => isStray_of_isWord hc, List.forall_mem_nil _⟩
  intro r hr
  obtain hr | hr := List.mem_append.mp hr
  · obtain hr | hr := List.mem_append.mp hr
    · exact hwords r hr
    · obtain ⟨mark, hmark, rfl⟩ := List.mem_map.mp hr
      refine hword _ _ fun c hc => ?_
      obtain rfl := List.mem_singleton.mp hc
      exact isStray_of_mark mark hmark
  · obtain rfl := List.mem_singleton.mp hr
    exact hmany _ _ fun c hc => isStray_of_isBlank hc

/-- Every other byte begins a match. -/
theorem exists_rule {c : UInt8} (h : isStray c = false) (rest : Bytes) :
    ∃ r ∈ lexerRules, 0 < r.length (c :: rest) := by
  have hmany : ∀ {P : UInt8 → Bool} {make : Bytes → Option Token}, P c = true →
      0 < (Rule.many P make).length (c :: rest) := by
    intro P make hP
    change 0 < ((c :: rest).takeWhile P).length
    rw [List.takeWhile_cons_of_pos hP, List.length_cons]
    exact Nat.zero_lt_succ _
  by_cases hword : isWord c = true
  · exact ⟨_, List.mem_append_left _ (List.mem_append_left _
      (List.mem_of_getElem? (i := 3) rfl)), hmany hword⟩
  by_cases hblank : isBlank c = true
  · exact ⟨blankRule, List.mem_append_right _ List.mem_cons_self, hmany hblank⟩
  have hmark : ∃ mark ∈ marks, mark.1 = c := by
    by_cases hlf : c = 10
    · exact ⟨(10, none), by decide, hlf.symm⟩
    · simp only [isStray, isGap, Bool.not_eq_true] at h hword hblank
      rw [hword, hblank] at h
      simp only [Bool.not_false, Bool.true_and, Bool.and_true, Bool.and_eq_false_imp,
        Bool.not_eq_true', bne_eq_false_iff_eq] at h
      by_contra hnone
      refine hlf (h (List.any_eq_false.mpr fun mark hmark heq => hnone ⟨mark, hmark, ?_⟩))
      exact beq_iff_eq.mp (Bool.and_eq_true _ _ ▸ heq).1
  obtain ⟨mark, hmem, rfl⟩ := hmark
  refine ⟨.word [mark.1] mark.2, List.mem_append_left _ (List.mem_append_right _
    (List.mem_map_of_mem hmem)), ?_⟩
  simp [Rule.word]

theorem echoed_lexerRules (text : Bytes) : echoed lexerRules text = text.filter isStray :=
  echoed_eq_filter lexerRules_match (fun _ rest h => exists_rule h rest) text

/-! ## Calls of `yylex` -/

section Calls

variable (source : Source) (heap : Heap) (text : Bytes)

/-- `yylex` on what is left of a text; no call takes more turns (`yylex_safe`). -/
def yylex (s : Scan) : Option (Turn Token × Scan) :=
  scanner.yylexFrom source heap (4 * text.length + 2) .top s

/-- The states of the scanner that calls of `yylex` lead to. -/
inductive Reached : Scan → Prop
  | create {s : Scan} (h : scanner.create heap text = some (some s)) : Reached s
  | call {s s' : Scan} {t : Option Token} (before : Reached s)
      (h : yylex source heap text s = some (.ret t, s')) : Reached s'

variable {source heap text}

theorem exists_contents {o : Option Scan} (h : scanner.create heap text = some o) :
    ∃ contents, heap (scanner.initialSize + 2) = some contents := by
  obtain ⟨buf, hbuf, -⟩ := Option.map_eq_some_iff.mp h
  obtain ⟨contents, hcontents, -⟩ := Option.map_eq_some_iff.mp hbuf
  exact ⟨contents, hcontents⟩

/-- Where the calls have come to: some of the text is left, and the buffer is no larger than
the text asks for. -/
theorem Reached.place {s : Scan} (h : Reached source heap text s) :
    ∃ p, scanner.At .top s p ∧ Scanner.weight .top s p ≤ 4 * text.length + 1 ∧ p <:+ text ∧
      s.bufSize ≤ max scanner.initialSize (2 * (text.length + 1)) := by
  induction h with
  | @create s h =>
      obtain ⟨contents, hcontents⟩ := exists_contents h
      obtain ⟨s', hcreate, hplace, -, hweight, hsize⟩ := reads.create_eq heap hcontents text
      rw [h] at hcreate
      obtain rfl := Option.some.inj (Option.some.inj hcreate)
      exact ⟨text, hplace, hweight.le, List.suffix_refl _, hsize.le.trans (Nat.le_max_left _ _)⟩
  | @call s s' t before h ih =>
      obtain ⟨p, hplace, hweight, hsuffix, hsize⟩ := ih
      obtain ⟨next, s₁, hrun, hgrown⟩ :=
        reads.yylexFrom_grown source heap (4 * text.length + 2) hplace
      obtain ⟨t', s₂, out, rest, hcall, hlexes, hplace₂, -, hweight₂⟩ | ⟨⟨s₂, hfatal⟩, -⟩ :=
        reads.yylexFrom_eq source heap hplace (Nat.lt_succ_of_le hweight)
      · cases h.symm.trans hcall
        cases h.symm.trans hrun
        obtain ⟨-, -, -, hleft⟩ := reads.lexes_eq hlexes
        have hgrown' := hgrown.mono hsuffix.length_le
        refine ⟨rest, hplace₂, hweight₂.trans hweight, hleft.trans hsuffix, ?_⟩
        unfold Scan.Grown at hgrown'
        omega
      · cases h.symm.trans hfatal

/-- After any calls on a text of fewer than `2 ^ 30 - 1` bytes, whatever memory there is and
whether or not the reads fail, one more call stays inside of the buffer and of the tables and
ends; it fails only where there is no memory or a read failed.  `yy_buf_size`, which bounds the
counts of the scanner, stays in the range of an `int`, so that none of them wraps around. -/
theorem yylex_safe {s : Scan} (hsize : 2 * (text.length + 1) < 2 ^ 31)
    (h : Reached source heap text s) :
    (∀ turns, ∃ next s', scanner.yylexFrom source heap turns .top s = some (next, s') ∧
      s'.bufSize < 2 ^ 31) ∧
    ((∃ t s', yylex source heap text s = some (.ret t, s')) ∨
      (∃ s', yylex source heap text s = some (.fatal, s')) ∧
        ((∃ n, heap n = none) ∨ source.broken = true)) := by
  obtain ⟨p, hplace, hweight, hsuffix, hbuf⟩ := h.place
  refine ⟨fun turns => ?_, ?_⟩
  · obtain ⟨next, s', hrun, hgrown⟩ := reads.yylexFrom_grown source heap turns hplace
    refine ⟨next, s', hrun, ?_⟩
    have hgrown' := hgrown.mono hsuffix.length_le
    have hinitial : scanner.initialSize < 2 ^ 31 := by decide
    unfold Scan.Grown at hgrown'
    omega
  · obtain ⟨t, s', out, rest, hcall, -⟩ | hfatal :=
      reads.yylexFrom_eq source heap hplace (Nat.lt_succ_of_le hweight)
    · exact .inl ⟨t, s', hcall⟩
    · exact .inr hfatal

end Calls

/-- The first call on a directory, which can be opened but not read, with a buffer that was made
from a heap with other contents than zeros. -/
theorem yylex_safe_create :
    ∃ s, scanner.create (Heap.ample fun _ _ => 255) [] = some (some s) ∧
      ((∀ turns, ∃ next s', scanner.yylexFrom { interactive := false, broken := true }
          (Heap.ample fun _ _ => 255) turns .top s = some (next, s') ∧ s'.bufSize < 2 ^ 31) ∧
        ((∃ t s', yylex { interactive := false, broken := true } (Heap.ample fun _ _ => 255) [] s =
            some (.ret t, s')) ∨
          (∃ s', yylex { interactive := false, broken := true } (Heap.ample fun _ _ => 255) [] s =
            some (.fatal, s')) ∧
            ((∃ n, Heap.ample (fun _ _ => 255) n = none) ∨
              Source.broken { interactive := false, broken := true } = true))) := by
  obtain ⟨s, hcreate, -⟩ :=
    reads.create_eq (Heap.ample fun _ _ => 255) rfl []
  exact ⟨s, hcreate, yylex_safe (by decide) (.create hcreate)⟩

/-- With memory for every size, and reads that do not fail, there is no fatal error. -/
theorem not_fails_sound (interactive : Bool) (contents : Nat → Nat → UInt8) :
    ¬ Fails (.sound interactive) (.ample contents) := by
  rintro (⟨n, hn⟩ | hbroken)
  · cases hn
  · cases hbroken

/-- From a file or from a terminal, the calls of `yylex` return the tokens of the text one by
one, and behind the last the bytes that no rule matches were written to `yyout`. -/
theorem yylexCalls_tokens (interactive : Bool) (contents : Nat → Nat → UInt8) (text : Bytes)
    (k : Nat) :
    ∃ s s', scanner.create (Heap.ample contents) text = some (some s) ∧
      scanner.yylexCalls (.sound interactive) (Heap.ample contents) (4 * text.length + 2) k s =
        some ((List.range k).map fun i => (tokens text)[i]?, s') ∧
      ((tokens text).length < k → s'.yyout = text.filter isStray) := by
  obtain ⟨s, hcreate, hplace, hout, hweight, -⟩ :=
    reads.create_eq (Heap.ample contents) rfl text
  obtain ⟨s', rest, hcalls, -, -, -, hecho, hend⟩ :=
    reads.yylexCalls_eq (.sound interactive) (Heap.ample contents)
      (not_fails_sound interactive contents) k hplace (Nat.lt_succ_of_le hweight.le)
  refine ⟨s, s', hcreate, hcalls, fun hk => ?_⟩
  rw [hend hk, hout, echoed_lexerRules, List.nil_append] at hecho
  exact (hecho.trans (List.append_nil _)).symm

end NetworkProgram.Config
