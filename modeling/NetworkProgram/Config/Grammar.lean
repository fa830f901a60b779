import NetworkProgram.Config.Yyparse

set_option autoImplicit false

/-!
# Config: what `yyparse` accepts

The table machine accepts the programs of the grammar in `parser.y` and nothing else, and
it always ends.  What it leaves in the globals is what the statements do one after the
other.
-/

namespace NetworkProgram.Config

open NetworkProgram.Foundation
open NetworkProgram.Libc

/-! ## The grammar -/

/-- `statement`, in its three forms. -/
inductive Statement
  | hostnm (text : Bytes)
  | number (value : Int)
  | portnm (text : Bytes)

namespace Statement

def tokens : Statement → List Token
  | hostnm text => [.hostnm, .eq, .quote, .string text, .quote, .semicolon]
  | number value => [.portnm, .eq, .num value, .semicolon]
  | portnm text => [.portnm, .eq, .quote, .string text, .quote, .semicolon]

def run (g : Globals) : Statement → Globals
  | hostnm text => { g with g_hostnm := g.g_hostnm.print text }
  | number value => { g with g_portnm := g.g_portnm.print (decimal (value.bmod (2 ^ 32))) }
  | portnm text => { g with g_portnm := g.g_portnm.print text }

/-- The last value that the scanner left. -/
def yylval : Statement → Value
  | hostnm text => .text text
  | number value => .number value
  | portnm text => .text text

theorem tokens_length (s : Statement) : 4 ≤ s.tokens.length := by
  cases s <;> exact Nat.le_of_ble_eq_true rfl

end Statement

/-- `program_name` -/
def programTokens (name : Bytes) (statements : List Statement) : List Token :=
  .string name :: .openParen :: (statements.flatMap Statement.tokens ++ [.closeParen])

def runProgram (name : Bytes) (statements : List Statement) (g : Globals) : Globals :=
  let g := statements.foldl Statement.run g
  { g with g_program_name := g.g_program_name.print name }

/-! ## Rows of the tables -/

section Rows

theorem shifts_start : tables.Shifts 0 [(5, 1)] := by decide

theorem shifts_name : tables.Shifts 1 [(9, 3)] := by decide

theorem shifts_first : tables.Shifts 3 [(3, 5), (4, 6)] := by decide

theorem shifts_later : tables.Shifts 8 [(3, 5), (4, 6), (10, 13)] := by decide

theorem follows_hostnm : tables.Follows 5 [(7, 11), (8, 15), (5, 18), (8, 21), (11, 23)] :=
  ⟨by decide, by decide, by decide, by decide, by decide, trivial⟩

theorem follows_portnm : tables.Follows 6 [(7, 12)] := ⟨by decide, trivial⟩

theorem shifts_portnm : tables.Shifts 12 [(6, 16), (8, 17)] := by decide

theorem follows_number : tables.Follows 16 [(11, 19)] := ⟨by decide, trivial⟩

theorem follows_quoted : tables.Follows 17 [(5, 20), (8, 22), (11, 24)] :=
  ⟨by decide, by decide, by decide, trivial⟩

end Rows

/-! ## Programs are accepted -/

/-- The stack behind `name {`. -/
def opened (name : Bytes) (a c : Value) : List (Nat × Value) := [(3, a), (1, .text name), (0, c)]

section Accepted

variable {name text : Bytes} {a c v y : Value} {ts : List Token} {g : Globals} {k : Nat}
  {o : Outcome Token Value Globals} {st : List (Nat × Value)}

/-- A statement begins in state 3 or in state 8. -/
def Begins (st : List (Nat × Value)) : Prop :=
  (Parser.top st = 3 ∨ Parser.top st = 8) ∧ st.length ≤ 4

theorem Begins.goto {rule next : Nat} (hst : Begins st) (h3 : tables.goto rule 3 = next)
    (h8 : tables.goto rule 8 = next) : tables.goto rule (Parser.top st) = next := by
  obtain ⟨h | h, -⟩ := hst
  · rw [h, h3]
  · rw [h, h8]

theorem Begins.shift {t : Token} {state : Nat} (hst : Begins st)
    (hrow : [(3, 5), (4, 6)].lookup t.code = some state)
    (h : parser.Ends k (parser.took ⟨st, none, t :: ts, y, g⟩ t state) o) :
    parser.Ends (k + 1) ⟨st, none, t :: ts, y, g⟩ o := by
  have hdepth : st.length < 10000 := by have := hst.2; omega
  obtain ⟨htop | htop, -⟩ := hst
  · exact .next (Parser.step_took shifts_first htop rfl hdepth rfl hrow) h
  · refine .next (Parser.step_took shifts_later htop rfl hdepth rfl ?_) h
    exact (List.lookup_append.trans (congrArg (Option.or · _) hrow))

theorem ends_hostnm (hst : Begins st)
    (h : parser.Ends k ⟨(9, y) :: st, none, ts, .text text,
      { g with g_hostnm := g.g_hostnm.print text }⟩ o) :
    parser.Ends (k + 7) ⟨st, none, (Statement.hostnm text).tokens ++ ts, y, g⟩ o := by
  have hlen := hst.2
  have hrule : tables.Reduces 23 7 := by decide
  let taken : List (Nat × Value) :=
    [(23, .text text), (21, .text text), (18, .text text), (15, y), (11, y), (5, y)]
  have hreduce : parser.Ends (k + 1) ⟨taken ++ st, none, ts, .text text, g⟩ o := by
    refine Parser.ends_reduce 7 9 taken st hrule ?_ rfl rfl (hst.goto (by decide) (by decide)) h
    change st.length + 6 < 10000
    omega
  refine hst.shift rfl (Parser.ends_takes [(7, 11), (8, 15), (5, 18), (8, 21), (11, 23)]
    (Statement.hostnm text).tokens.tail ts follows_hostnm rfl rfl ?_ rfl rfl hreduce)
  change st.length + 1 + 5 ≤ 10000
  omega

theorem ends_number {value : Int} (hst : Begins st)
    (h : parser.Ends k ⟨(10, y) :: st, none, ts, .number value,
      { g with g_portnm := g.g_portnm.print (decimal (value.bmod (2 ^ 32))) }⟩ o) :
    parser.Ends (k + 5) ⟨st, none, (Statement.number value).tokens ++ ts, y, g⟩ o := by
  have hlen := hst.2
  have hrule : tables.Reduces 19 8 := by decide
  let taken : List (Nat × Value) := [(19, .number value), (16, .number value), (12, y), (6, y)]
  have hreduce : parser.Ends (k + 1) ⟨taken ++ st, none, ts, .number value, g⟩ o := by
    refine Parser.ends_reduce 8 10 taken st hrule ?_ rfl rfl (hst.goto (by decide) (by decide)) h
    change st.length + 4 < 10000
    omega
  have hvalue : parser.Ends (k + 3)
      ⟨(12, y) :: (6, y) :: st, none, .num value :: .semicolon :: ts, y, g⟩ o := by
    refine .next (Parser.step_took shifts_portnm rfl rfl ?_ rfl rfl)
      (Parser.ends_takes [(11, 19)] [Token.semicolon] ts follows_number rfl rfl ?_ rfl rfl hreduce)
    · change st.length + 2 < 10000
      omega
    · change st.length + 3 + 1 ≤ 10000
      omega
  refine hst.shift rfl (Parser.ends_takes [(7, 12)] [Token.eq] (.num value :: .semicolon :: ts)
    follows_portnm rfl rfl ?_ rfl rfl hvalue)
  change st.length + 1 + 1 ≤ 10000
  omega

theorem ends_portnm (hst : Begins st)
    (h : parser.Ends k ⟨(10, y) :: st, none, ts, .text text,
      { g with g_portnm := g.g_portnm.print text }⟩ o) :
    parser.Ends (k + 7) ⟨st, none, (Statement.portnm text).tokens ++ ts, y, g⟩ o := by
  have hlen := hst.2
  have hrule : tables.Reduces 24 9 := by decide
  let taken : List (Nat × Value) :=
    [(24, .text text), (22, .text text), (20, .text text), (17, y), (12, y), (6, y)]
  have hreduce : parser.Ends (k + 1) ⟨taken ++ st, none, ts, .text text, g⟩ o := by
    refine Parser.ends_reduce 9 10 taken st hrule ?_ rfl rfl (hst.goto (by decide) (by decide)) h
    change st.length + 6 < 10000
    omega
  let quoted : List Token := [.string text, .quote, .semicolon]
  have hquoted : parser.Ends (k + 5)
      ⟨(12, y) :: (6, y) :: st, none, .quote :: (quoted ++ ts), y, g⟩ o := by
    refine .next (Parser.step_took shifts_portnm rfl rfl ?_ rfl rfl)
      (Parser.ends_takes [(5, 20), (8, 22), (11, 24)] quoted ts follows_quoted rfl rfl ?_ rfl rfl
        hreduce)
    · change st.length + 2 < 10000
      omega
    · change st.length + 3 + 3 ≤ 10000
      omega
  refine hst.shift rfl (Parser.ends_takes [(7, 12)] [Token.eq] (.quote :: (quoted ++ ts))
    follows_portnm rfl rfl ?_ rfl rfl hquoted)
  change st.length + 1 + 1 ≤ 10000
  omega

/-- `statement`, which is in state `next` over the stack. -/
theorem ends_statement {next : Nat} (hst : Begins st)
    (hhost : tables.goto 3 (Parser.top st) = next) (hport : tables.goto 4 (Parser.top st) = next)
    (s : Statement)
    (h : parser.Ends k ⟨(next, y) :: st, none, ts, s.yylval, s.run g⟩ o) :
    parser.Ends (k + 8) ⟨st, none, s.tokens ++ ts, y, g⟩ o := by
  have hlen := hst.2
  have hrule3 : tables.Reduces 9 3 := by decide
  have hrule4 : tables.Reduces 10 4 := by decide
  have hdepth : st.length + 1 < 10000 := by omega
  cases s with
  | hostnm text =>
      refine ends_hostnm hst
        (Parser.ends_reduce 3 next [(9, y)] st hrule3 ?_ rfl rfl hhost h)
      exact hdepth
  | number value =>
      refine (ends_number hst
        (Parser.ends_reduce 4 next [(10, y)] st hrule4 ?_ rfl rfl hport h)).mono
          (Nat.le_add_right _ 2)
      exact hdepth
  | portnm text =>
      refine ends_portnm hst
        (Parser.ends_reduce 4 next [(10, y)] st hrule4 ?_ rfl rfl hport h)
      exact hdepth

theorem begins_first (name : Bytes) (a c : Value) : Begins (opened name a c) :=
  ⟨.inl rfl, Nat.le_of_ble_eq_true rfl⟩

theorem begins_later (name : Bytes) (a c v : Value) : Begins ((8, v) :: opened name a c) :=
  ⟨.inr rfl, Nat.le_of_ble_eq_true rfl⟩

/-- The first of the `statements`. -/
theorem ends_first (s : Statement)
    (h : parser.Ends k ⟨(8, y) :: opened name a c, none, ts, s.yylval, s.run g⟩ o) :
    parser.Ends (k + 9) ⟨opened name a c, none, s.tokens ++ ts, y, g⟩ o := by
  have hrule : tables.Reduces 7 5 := by decide
  have hgoto : tables.goto 5 3 = 8 := by decide
  have hhost : tables.goto 3 3 = 7 := by decide
  have hport : tables.goto 4 3 = 7 := by decide
  exact ends_statement (begins_first name a c) hhost hport s
    (Parser.ends_reduce 5 8 [(7, y)] (opened name a c) hrule (Nat.le_of_ble_eq_true rfl) rfl rfl
      hgoto h)

/-- One more of them. -/
theorem ends_later (s : Statement)
    (h : parser.Ends k ⟨(8, v) :: opened name a c, none, ts, s.yylval, s.run g⟩ o) :
    parser.Ends (k + 9) ⟨(8, v) :: opened name a c, none, s.tokens ++ ts, y, g⟩ o := by
  have hrule : tables.Reduces 14 6 := by decide
  have hgoto : tables.goto 6 3 = 8 := by decide
  have hhost : tables.goto 3 8 = 14 := by decide
  have hport : tables.goto 4 8 = 14 := by decide
  exact ends_statement (begins_later name a c v) hhost hport s
    (Parser.ends_reduce 6 8 [(14, y), (8, v)] (opened name a c) hrule (Nat.le_of_ble_eq_true rfl)
      rfl rfl hgoto h)

/-- The end of the program, behind which the text has to end. -/
theorem ends_close : parser.Ends 3 ⟨(8, v) :: opened name a c, none, [.closeParen], y, g⟩
    (.accept { g with g_program_name := g.g_program_name.print name }) := by
  have hrule : tables.Reduces 13 2 := by decide
  have hgoto : tables.goto 2 0 = 2 := by decide
  have haccept : parser.step ⟨[(2, .text name), (0, c)], none, [], y,
      { g with g_program_name := g.g_program_name.print name }⟩ =
        .accept { g with g_program_name := g.g_program_name.print name } := rfl
  refine .next (Parser.step_took shifts_later rfl rfl (Nat.le_of_ble_eq_true rfl) rfl rfl) ?_
  exact Parser.ends_reduce 2 2 [(13, y), (8, v), (3, a), (1, .text name)] [(0, c)] hrule
    (Nat.le_of_ble_eq_true rfl) rfl rfl hgoto (.accept haccept)

theorem ends_statements (statements : List Statement) :
    parser.Ends (9 * statements.length + 3)
      ⟨(8, v) :: opened name a c, none, statements.flatMap Statement.tokens ++ [.closeParen], y, g⟩
      (.accept (runProgram name statements g)) := by
  induction statements generalizing y g with
  | nil => exact ends_close
  | cons s statements ih =>
      rw [List.flatMap_cons, List.append_assoc]
      exact ends_later s ih

theorem ends_program {statements : List Statement} (hne : statements ≠ []) :
    parser.Ends (9 * statements.length + 5) (start (programTokens name statements) g)
      (.accept (runProgram name statements g)) := by
  obtain ⟨s, statements, rfl⟩ := List.exists_cons_of_ne_nil hne
  refine .next (Parser.step_took shifts_start rfl rfl (Nat.le_of_ble_eq_true rfl) rfl rfl) ?_
  refine .next (Parser.step_took shifts_name rfl rfl (Nat.le_of_ble_eq_true rfl) rfl rfl) ?_
  have hstatements : parser.Ends (9 * statements.length + 3 + 9)
      ⟨opened name (.text name) (.number 0), none,
        s.tokens ++ (statements.flatMap Statement.tokens ++ [.closeParen]), .text name, g⟩
      (.accept (runProgram name statements (s.run g))) :=
    ends_first s (ends_statements statements)
  rw [← List.append_assoc] at hstatements
  exact hstatements

end Accepted

/-! ## Nothing else is accepted -/

section Rejected

theorem Token.eq_of_code {t t' : Token} (h : t.code = t'.code) (hvalue : t'.value = none) :
    t = t' := by
  cases t <;> cases t' <;> simp_all [Token.code, Token.value]

theorem Token.string_of_code {t : Token} (h : t.code = 5) : ∃ text, t = .string text := by
  cases t <;> first | exact ⟨_, rfl⟩ | cases h

theorem Token.num_of_code {t : Token} (h : t.code = 6) : ∃ value, t = .num value := by
  cases t <;> first | exact ⟨_, rfl⟩ | cases h

variable {p : Parse Token Value Globals}

/-- Behind the keyword `hostnm`. -/
theorem hostnm_or_abort (htop : Parser.top p.stack = 5) (hlook : p.look = none)
    (hlen : p.stack.length ≤ 5) :
    (∃ text rest, p.input = .eq :: .quote :: .string text :: .quote :: .semicolon :: rest) ∨
      parser.Ends 5 p (.abort p.globals) := by
  have hdepth : p.stack.length + 5 ≤ parser.maxDepth := by
    change _ ≤ 10000
    omega
  obtain ⟨ts, rest, hinput, hts⟩ | habort :=
    Parser.takes_or_abort (P := parser) follows_hostnm htop hlook hdepth
  · left
    simp only [List.map_cons, List.map_nil, List.map_eq_cons_iff, List.map_eq_nil_iff] at hts
    obtain ⟨t₁, _, rfl, h₁, t₂, _, rfl, h₂, t₃, _, rfl, h₃, t₄, _, rfl, h₄, t₅, _, rfl, h₅, rfl⟩ :=
      hts
    obtain rfl : t₁ = .eq := Token.eq_of_code h₁ rfl
    obtain rfl : t₂ = .quote := Token.eq_of_code h₂ rfl
    obtain ⟨text, rfl⟩ := Token.string_of_code h₃
    obtain rfl : t₄ = .quote := Token.eq_of_code h₄ rfl
    obtain rfl : t₅ = .semicolon := Token.eq_of_code h₅ rfl
    exact ⟨text, rest, hinput⟩
  · exact .inr habort

/-- Behind the keyword `portnm`. -/
theorem portnm_or_abort (htop : Parser.top p.stack = 6) (hlook : p.look = none)
    (hlen : p.stack.length ≤ 5) :
    (∃ value rest, p.input = .eq :: .num value :: .semicolon :: rest) ∨
      (∃ text rest, p.input = .eq :: .quote :: .string text :: .quote :: .semicolon :: rest) ∨
      parser.Ends 5 p (.abort p.globals) := by
  have hdepth : p.stack.length + 5 ≤ parser.maxDepth := by
    change _ ≤ 10000
    omega
  obtain ⟨ts, rest, hinput, hts⟩ | hend :=
    Parser.takes_or_abort (P := parser) follows_portnm htop hlook (by simp; omega)
  swap
  · exact .inr (.inr (hend.mono (by decide)))
  simp only [List.map_cons, List.map_nil, List.map_eq_cons_iff, List.map_eq_nil_iff] at hts
  obtain ⟨t, _, rfl, ht, rfl⟩ := hts
  obtain rfl : t = .eq := Token.eq_of_code ht rfl
  let p₁ := parser.took p .eq 12
  have hrest : p₁.input = rest := congrArg List.tail hinput
  have hlead : ∀ {k o}, parser.Ends k p₁ o → parser.Ends (k + 1) p o :=
    fun h => Parser.ends_takes [(7, 12)] [Token.eq] rest follows_portnm htop hlook
      (by simp; omega) hinput rfl h
  obtain ⟨t, rest, next, hinput₁, hnext, hstep⟩ | hend :=
    Parser.step_shifts (P := parser) (p := p₁) shifts_portnm rfl hlook
      (by change p.stack.length + 1 < 10000; omega)
  swap
  · exact .inr (.inr ((hlead hend).mono (by decide)))
  simp only [List.mem_cons, Prod.mk.injEq, List.not_mem_nil, or_false] at hnext
  have hinput : p.input = .eq :: t :: rest := by rw [hinput, ← hrest, hinput₁]; rfl
  have hrest : (parser.took p₁ t next).input = rest := congrArg List.tail hinput₁
  have hlook₂ : (parser.took p₁ t next).look = none := hlook
  obtain ⟨ht, rfl⟩ | ⟨ht, rfl⟩ := hnext
  · obtain ⟨ts, tail, htail, hts⟩ | hend := Parser.takes_or_abort (P := parser) follows_number
      rfl hlook₂ (by change p.stack.length + 2 + 1 ≤ 10000; omega)
    · simp only [List.map_cons, List.map_nil, List.map_eq_cons_iff, List.map_eq_nil_iff] at hts
      obtain ⟨t₂, _, rfl, h₂, rfl⟩ := hts
      obtain ⟨value, rfl⟩ := Token.num_of_code ht
      obtain rfl : t₂ = .semicolon := Token.eq_of_code h₂ rfl
      exact .inl ⟨value, tail, by rw [hinput, ← hrest, htail]; rfl⟩
    · exact .inr (.inr ((hlead (.next hstep hend)).mono (by decide)))
  · obtain ⟨ts, tail, htail, hts⟩ | hend := Parser.takes_or_abort (P := parser) follows_quoted
      rfl hlook₂ (by change p.stack.length + 2 + 3 ≤ 10000; omega)
    · simp only [List.map_cons, List.map_nil, List.map_eq_cons_iff, List.map_eq_nil_iff] at hts
      obtain ⟨t₂, _, rfl, h₂, t₃, _, rfl, h₃, t₄, _, rfl, h₄, rfl⟩ := hts
      obtain rfl : t = .quote := Token.eq_of_code ht rfl
      obtain ⟨text, rfl⟩ := Token.string_of_code h₂
      obtain rfl : t₃ = .quote := Token.eq_of_code h₃ rfl
      obtain rfl : t₄ = .semicolon := Token.eq_of_code h₄ rfl
      exact .inr (.inl ⟨text, tail, by rw [hinput, ← hrest, htail]; rfl⟩)
    · exact .inr (.inr ((hlead (.next hstep hend)).mono (by decide)))

/-- A statement is there, or what may stand in its place, or the parse ends. -/
theorem statement_or_abort {row : List (Nat × Nat)} {state : Nat}
    (hrow : tables.Shifts state row) (htop : Parser.top p.stack = state) (hlook : p.look = none)
    (hlen : p.stack.length ≤ 4) (hsub : row ⊆ [(3, 5), (4, 6), (10, 13)]) :
    (∃ (s : Statement) (rest : List Token), p.input = s.tokens ++ rest) ∨
      ((10, 13) ∈ row ∧ ∃ rest, p.input = .closeParen :: rest) ∨
      parser.Ends 6 p (.abort p.globals) := by
  obtain ⟨t, rest, next, hinput, hnext, hstep⟩ | hend :=
    Parser.step_shifts (P := parser) hrow htop hlook (by change _ < 10000; omega)
  swap
  · exact .inr (.inr (hend.mono (by decide)))
  have hrest : (parser.took p t next).input = rest := congrArg List.tail hinput
  have hlen' : (parser.took p t next).stack.length ≤ 5 := by
    change p.stack.length + 1 ≤ 5
    omega
  have hcode := hsub hnext
  simp only [List.mem_cons, Prod.mk.injEq, List.not_mem_nil, or_false] at hcode
  obtain ⟨ht, rfl⟩ | ⟨ht, rfl⟩ | ⟨ht, rfl⟩ := hcode
  · obtain rfl : t = .hostnm := Token.eq_of_code ht rfl
    obtain ⟨text, tail, htail⟩ | hend :=
      hostnm_or_abort (p := parser.took p .hostnm 5) rfl hlook hlen'
    · exact .inl ⟨.hostnm text, tail, by rw [hinput, ← hrest, htail]; rfl⟩
    · exact .inr (.inr (.next hstep hend))
  · obtain rfl : t = .portnm := Token.eq_of_code ht rfl
    obtain ⟨value, tail, htail⟩ | ⟨text, tail, htail⟩ | hend :=
      portnm_or_abort (p := parser.took p .portnm 6) rfl hlook hlen'
    · exact .inl ⟨.number value, tail, by rw [hinput, ← hrest, htail]; rfl⟩
    · exact .inl ⟨.portnm text, tail, by rw [hinput, ← hrest, htail]; rfl⟩
    · exact .inr (.inr (.next hstep hend))
  · obtain rfl : t = .closeParen := Token.eq_of_code ht rfl
    exact .inr (.inl ⟨ht ▸ hnext, rest, hinput⟩)

variable {name : Bytes} {a c v y : Value} {ts : List Token} {g : Globals}

theorem close_or_abort (rest : List Token) :
    rest = [] ∨ ∃ g', parser.Ends 3 ⟨(8, v) :: opened name a c, none, .closeParen :: rest, y, g⟩
      (.abort g') := by
  cases rest with
  | nil => exact .inl rfl
  | cons t rest =>
      right
      have hrule : tables.Reduces 13 2 := by decide
      have hgoto : tables.goto 2 0 = 2 := by decide
      let g' : Globals := { g with g_program_name := g.g_program_name.print name }
      have hstep : ∃ g'', parser.step ⟨[(2, .text name), (0, c)], none, t :: rest, y, g'⟩ =
          .abort g'' := by
        cases t <;> exact ⟨g', rfl⟩
      obtain ⟨g'', hstep⟩ := hstep
      refine ⟨g'', .next (Parser.step_took shifts_later rfl rfl (Nat.le_of_ble_eq_true rfl) rfl
        rfl) ?_⟩
      exact Parser.ends_reduce 2 2 [(13, y), (8, v), (3, a), (1, .text name)] [(0, c)] hrule
        (Nat.le_of_ble_eq_true rfl) rfl rfl hgoto (.abort hstep)

/-- The rest of a program, or no program. -/
theorem statements_or_abort (name : Bytes) (a c v y : Value) (g : Globals) (ts : List Token) :
    (∃ statements : List Statement,
      ts = statements.flatMap Statement.tokens ++ [.closeParen]) ∨
      ∃ g', parser.Ends (9 * ts.length + 6) ⟨(8, v) :: opened name a c, none, ts, y, g⟩
        (.abort g') := by
  induction hn : ts.length using Nat.strongRecOn generalizing ts y g with
  | ind n ih =>
      obtain ⟨s, rest, hinput⟩ | ⟨-, rest, hinput⟩ | hend :=
        statement_or_abort (p := ⟨(8, v) :: opened name a c, none, ts, y, g⟩) shifts_later rfl rfl
          (Nat.le_of_ble_eq_true rfl) (List.Subset.refl _)
      · obtain rfl : ts = s.tokens ++ rest := hinput
        have hlen := s.tokens_length
        rw [List.length_append] at hn
        obtain ⟨statements, rfl⟩ | ⟨g', hend⟩ :=
          ih rest.length (by omega) s.yylval (s.run g) rest rfl
        · refine .inl ⟨s :: statements, ?_⟩
          rw [List.flatMap_cons, List.append_assoc]
        · exact .inr ⟨g', (ends_later s hend).mono (by omega)⟩
      · obtain rfl : ts = .closeParen :: rest := hinput
        obtain rfl | ⟨g', hend⟩ := close_or_abort rest
        · exact .inl ⟨[], rfl⟩
        · exact .inr ⟨g', hend.mono (by omega)⟩
      · exact .inr ⟨g, hend.mono (Nat.le_add_left 6 _)⟩

/-- A program, or none. -/
theorem program_or_abort (ts : List Token) (g : Globals) :
    (∃ (name : Bytes) (statements : List Statement), statements ≠ [] ∧
      ts = programTokens name statements) ∨
      ∃ g', parser.Ends (9 * ts.length + 9) (start ts g) (.abort g') := by
  obtain ⟨t, rest, next, hinput, hnext, hstep⟩ | hend :=
    Parser.step_shifts (P := parser) (p := start ts g) shifts_start rfl rfl
      (Nat.le_of_ble_eq_true rfl)
  swap
  · exact .inr ⟨g, hend.mono (by omega)⟩
  obtain rfl : ts = t :: rest := hinput
  obtain ⟨ht, rfl⟩ := Prod.mk.inj (List.mem_singleton.mp hnext)
  obtain ⟨name, rfl⟩ := Token.string_of_code ht
  obtain ⟨t₂, rest₂, next₂, hinput₂, hnext₂, hstep₂⟩ | hend :=
    Parser.step_shifts (P := parser) (p := parser.took (start _ g) (.string name) 1) shifts_name
      rfl rfl (Nat.le_of_ble_eq_true rfl)
  swap
  · exact .inr ⟨g, (Parser.Ends.next hstep hend).mono (by omega)⟩
  obtain rfl : rest = t₂ :: rest₂ := hinput₂
  obtain ⟨ht₂, rfl⟩ := Prod.mk.inj (List.mem_singleton.mp hnext₂)
  obtain rfl : t₂ = .openParen := Token.eq_of_code ht₂ rfl
  let p : Parse Token Value Globals :=
    ⟨opened name (.text name) (.number 0), none, rest₂, .text name, g⟩
  have hlead : ∀ {k o}, parser.Ends k p o →
      parser.Ends (k + 2) (start (.string name :: .openParen :: rest₂) g) o :=
    fun h => .next hstep (.next hstep₂ h)
  obtain ⟨s, rest, hinput⟩ | ⟨hmem, -⟩ | hend :=
    statement_or_abort (p := p) shifts_first rfl rfl (Nat.le_of_ble_eq_true rfl) (by decide)
  · obtain rfl : rest₂ = s.tokens ++ rest := hinput
    have hlen := s.tokens_length
    obtain ⟨statements, rfl⟩ | ⟨g', hend⟩ :=
      statements_or_abort name (.text name) (.number 0) (.text name) s.yylval (s.run g) rest
    · refine .inl ⟨name, s :: statements, List.cons_ne_nil _ _, ?_⟩
      rw [programTokens, List.flatMap_cons, List.append_assoc]
    · refine .inr ⟨g', (hlead (ends_first s hend)).mono ?_⟩
      rw [List.length_cons, List.length_cons, List.length_append]
      omega
  · exact absurd hmem (by decide)
  · refine .inr ⟨g, (hlead hend).mono ?_⟩
    rw [List.length_cons, List.length_cons]
    omega

end Rejected

/-! ## `yyparse` -/

theorem length_programTokens (name : Bytes) (statements : List Statement) :
    statements.length ≤ (programTokens name statements).length := by
  have hlen : statements.length ≤ (statements.flatMap Statement.tokens).length := by
    induction statements with
    | nil => exact Nat.le_refl 0
    | cons s statements ih =>
        have hs := s.tokens_length
        rw [List.flatMap_cons, List.length_append, List.length_cons]
        omega
  rw [programTokens, List.length_cons, List.length_cons, List.length_append]
  omega

theorem yyparse_program {text name : Bytes} {statements : List Statement} (hne : statements ≠ [])
    (htokens : tokens text = programTokens name statements) (g : Globals) :
    yyparse text g = .accept (runProgram name statements g) := by
  have hlen := length_programTokens name statements
  rw [yyparse, htokens]
  exact ends_program hne _ (by omega)

/-- What is accepted, and what it leaves. -/
theorem yyparse_accept {text : Bytes} {g g' : Globals} (h : yyparse text g = .accept g') :
    ∃ (name : Bytes) (statements : List Statement), statements ≠ [] ∧
      tokens text = programTokens name statements ∧ g' = runProgram name statements g := by
  obtain ⟨name, statements, hne, htokens⟩ | ⟨g'', hend⟩ := program_or_abort (tokens text) g
  · refine ⟨name, statements, hne, htokens, ?_⟩
    rw [yyparse_program hne htokens] at h
    exact (Outcome.accept.inj h).symm
  · rw [yyparse, hend _ (Nat.le_refl _)] at h
    cases h

/-- The parse always ends. -/
theorem yyparse_ends (text : Bytes) (g : Globals) :
    (∃ g', yyparse text g = .accept g') ∨ ∃ g', yyparse text g = .abort g' := by
  obtain ⟨name, statements, hne, htokens⟩ | ⟨g', hend⟩ := program_or_abort (tokens text) g
  · exact .inl ⟨_, yyparse_program hne htokens g⟩
  · exact .inr ⟨g', hend _ (Nat.le_refl _)⟩

end NetworkProgram.Config
