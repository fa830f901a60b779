import Mathlib.Data.List.Basic

set_option autoImplicit false

/-!
# Foundation: table-driven parsers

The skeleton that bison puts around the tables of a grammar, for grammars that do not use
the token `error`: a syntax error ends the parse.  The tables keep bison's names.
-/

namespace NetworkProgram.Foundation

/-- `yypact`, `yydefact`, `yytable` and so on. -/
structure Tables where
  pact : List Int
  pactNinf : Int
  defact : List Nat
  table : List Int
  tableNinf : Int
  check : List Int
  last : Int
  r1 : List Nat
  r2 : List Nat
  pgoto : List Int
  defgoto : List Int
  ntokens : Nat
  final : Int

namespace Tables

inductive Action
  | shift (state : Nat)
  | reduce (rule : Nat)
  | accept
  | error
  deriving DecidableEq

variable (T : Tables)

/-- Whether the state looks at the next token at all. -/
def reads (state : Nat) : Bool := T.pact.getD state 0 != T.pactNinf

/-- `yydefault` -/
def default (state : Nat) : Action :=
  if T.defact.getD state 0 = 0 then .error else .reduce (T.defact.getD state 0)

/-- `yybackup`, once the token is there. -/
def action (state token : Nat) : Action :=
  let n := T.pact.getD state 0 + token
  if n < 0 ∨ T.last < n ∨ T.check.getD n.toNat 0 ≠ token then T.default state
  else
    let n := T.table.getD n.toNat 0
    if n ≤ 0 then
      if n = 0 ∨ n = T.tableNinf then .error else .reduce (-n).toNat
    else if n = T.final then .accept
    else .shift n.toNat

/-- Where a reduction leads, over the state below what it took. -/
def goto (rule state : Nat) : Nat :=
  let symbol := T.r1.getD rule 0 - T.ntokens
  let n := T.pgoto.getD symbol 0 + state
  if 0 ≤ n ∧ n ≤ T.last ∧ T.check.getD n.toNat 0 = state then (T.table.getD n.toNat 0).toNat
  else (T.defgoto.getD symbol 0).toNat

/-- `yyerrlab1` stops at such a state, with a shift of the token `error`. -/
def catchesError (state : Nat) : Bool :=
  let n := T.pact.getD state 0 + 1
  T.reads state && 0 ≤ n && n ≤ T.last && T.check.getD n.toNat 0 == 1 && 0 < T.table.getD n.toNat 0

end Tables

/-- Tokens `τ`, values `ν` of symbols and a state `γ` that the actions of the rules change. -/
structure Parser (τ ν γ : Type) where
  tables : Tables
  /-- `YYMAXDEPTH` -/
  maxDepth : Nat
  /-- The token number; 0 is the end of the input. -/
  code : τ → Nat
  code_pos : ∀ t, 0 < code t
  code_lt : ∀ t, code t < tables.ntokens
  /-- What the scanner puts into `yylval`, if anything. -/
  value : τ → Option ν
  /-- The action of a rule, on `$1`, `$2`, … -/
  run : Nat → List ν → γ → γ
  noRecovery : ∀ state < tables.pact.length, tables.catchesError state = false

variable {τ ν γ : Type}

/-- A parse under way; the stacks have their top first. -/
structure Parse (τ ν γ : Type) where
  stack : List (Nat × ν)
  /-- `yychar`: `none` is `YYEMPTY` and `some none` is the end of the input. -/
  look : Option (Option τ)
  input : List τ
  yylval : ν
  globals : γ

inductive Outcome (τ ν γ : Type)
  | next (p : Parse τ ν γ)
  | accept (globals : γ)
  | abort (globals : γ)

namespace Parser

variable (P : Parser τ ν γ)

def lookCode (look : Option (Option τ)) : Nat := (look.bind id).elim 0 P.code

/-- Read a token unless there is one. -/
def read (p : Parse τ ν γ) : Parse τ ν γ :=
  match p.look, p.input with
  | some _, _ => p
  | none, [] => { p with look := some none }
  | none, t :: input =>
      { p with look := some (some t), input := input, yylval := (P.value t).getD p.yylval }

/-- The end of the input is not taken away. -/
def shift (p : Parse τ ν γ) (state : Nat) : Parse τ ν γ :=
  { p with stack := (state, p.yylval) :: p.stack
           look := match p.look with
             | some none => some none
             | _ => none }

def top (stack : List (Nat × ν)) : Nat := (stack.head?.map Prod.fst).getD 0

/-- The value of the left side is `$1`. -/
def reduce (p : Parse τ ν γ) (rule : Nat) : Parse τ ν γ :=
  let args := ((p.stack.take (P.tables.r2.getD rule 0)).map Prod.snd).reverse
  let below := p.stack.drop (P.tables.r2.getD rule 0)
  { p with stack := (P.tables.goto rule (top below), args.headD p.yylval) :: below
           globals := P.run rule args p.globals }

def act (p : Parse τ ν γ) : Tables.Action → Outcome τ ν γ
  | .shift state => .next (shift p state)
  | .reduce rule => .next (P.reduce p rule)
  | .accept => .accept p.globals
  | .error => .abort p.globals

/-- One round of the skeleton, from `yysetstate` on. -/
def step (p : Parse τ ν γ) : Outcome τ ν γ :=
  let state := top p.stack
  if P.maxDepth ≤ p.stack.length then .abort p.globals
  else if P.tables.reads state then
    P.act (P.read p) (P.tables.action state (P.lookCode (P.read p).look))
  else P.act p (P.tables.default state)

def runs : Nat → Parse τ ν γ → Outcome τ ν γ
  | 0, p => .next p
  | n + 1, p =>
      match P.step p with
      | .next p => runs n p
      | outcome => outcome

/-- The parse ends, after `k` rounds or fewer. -/
def Ends (k : Nat) (p : Parse τ ν γ) (outcome : Outcome τ ν γ) : Prop :=
  ∀ n, k ≤ n → P.runs n p = outcome

end Parser

/-! ## Runs -/

namespace Parser.Ends

variable {P : Parser τ ν γ} {p p' : Parse τ ν γ} {o o' : Outcome τ ν γ} {k k' : Nat}

theorem mono (h : P.Ends k p o) (hk : k ≤ k') : P.Ends k' p o := fun n hn =>
  h n (Nat.le_trans hk hn)

theorem unique (h : P.Ends k p o) (h' : P.Ends k' p o') : o = o' :=
  (h (max k k') (Nat.le_max_left k k')).symm.trans (h' (max k k') (Nat.le_max_right k k'))

theorem next (hstep : P.step p = .next p') (h : P.Ends k p' o) : P.Ends (k + 1) p o := by
  intro n hn
  obtain ⟨n, rfl⟩ := Nat.exists_eq_add_of_le' (Nat.le_trans (Nat.le_add_left 1 k) hn)
  rw [runs, hstep]
  exact h n (Nat.le_of_succ_le_succ hn)

theorem abort {g : γ} (hstep : P.step p = .abort g) : P.Ends 1 p (.abort g) := by
  intro n hn
  obtain ⟨n, rfl⟩ := Nat.exists_eq_add_of_le' hn
  rw [runs, hstep]

theorem accept {g : γ} (hstep : P.step p = .accept g) : P.Ends 1 p (.accept g) := by
  intro n hn
  obtain ⟨n, rfl⟩ := Nat.exists_eq_add_of_le' hn
  rw [runs, hstep]

end Parser.Ends

/-! ## States that only shift -/

/-- The state goes on with one of the listed tokens, each with the state it leads to. -/
def Tables.Shifts (T : Tables) (state : Nat) (row : List (Nat × Nat)) : Prop :=
  T.reads state = true ∧ T.action state 0 = .error ∧
    ∀ c < T.ntokens, 0 < c → T.action state c = (row.lookup c).elim .error .shift

instance (T : Tables) (state : Nat) (row : List (Nat × Nat)) : Decidable (T.Shifts state row) :=
  inferInstanceAs (Decidable (_ ∧ _ ∧ _))

/-- A row of states, each with only one token to go on with. -/
def Tables.Follows (T : Tables) : Nat → List (Nat × Nat) → Prop
  | _, [] => True
  | state, (c, next) :: path => T.Shifts state [(c, next)] ∧ T.Follows next path

/-- The state reduces by the rule and looks at no token. -/
def Tables.Reduces (T : Tables) (state rule : Nat) : Prop :=
  T.reads state = false ∧ T.default state = .reduce rule

instance (T : Tables) (state rule : Nat) : Decidable (T.Reduces state rule) :=
  inferInstanceAs (Decidable (_ ∧ _))

namespace Parser

variable (P : Parser τ ν γ)

/-- A token is read and shifted. -/
def took (p : Parse τ ν γ) (t : τ) (state : Nat) : Parse τ ν γ :=
  { p with stack := (state, (P.value t).getD p.yylval) :: p.stack
           input := p.input.tail
           yylval := (P.value t).getD p.yylval }

def takes (p : Parse τ ν γ) : List τ → List (Nat × Nat) → Parse τ ν γ
  | t :: ts, (_, next) :: path => takes (P.took p t next) ts path
  | _, _ => p

variable {P} {p : Parse τ ν γ} {state : Nat}

section Shifts

variable {row : List (Nat × Nat)} (hrow : P.tables.Shifts state row) (htop : top p.stack = state)
  (hlook : p.look = none) (hdepth : p.stack.length < P.maxDepth)
include hrow htop hlook hdepth

theorem step_took {t : τ} {rest : List τ} {next : Nat} (hinput : p.input = t :: rest)
    (hnext : row.lookup (P.code t) = some next) : P.step p = .next (P.took p t next) := by
  obtain ⟨stack, look, input, yylval, globals⟩ := p
  subst hinput hlook
  obtain ⟨hreads, -, hact⟩ := hrow
  have hact' := hact (P.code t) (P.code_lt t) (P.code_pos t)
  rw [hnext] at hact'
  dsimp only at htop hdepth
  rw [step, if_neg (Nat.not_le.mpr hdepth), htop, if_pos hreads]
  change P.act _ (P.tables.action state (P.code t)) = _
  rw [hact']
  rfl

theorem step_error (h : ∀ t rest, p.input = t :: rest → row.lookup (P.code t) = none) :
    P.step p = .abort p.globals := by
  obtain ⟨stack, look, input, yylval, globals⟩ := p
  subst hlook
  obtain ⟨hreads, hzero, hact⟩ := hrow
  dsimp only at htop hdepth h
  rw [step, if_neg (Nat.not_le.mpr hdepth), htop, if_pos hreads]
  cases input with
  | nil =>
      change P.act _ (P.tables.action state 0) = _
      rw [hzero]
      rfl
  | cons t rest =>
      change P.act _ (P.tables.action state (P.code t)) = _
      rw [hact _ (P.code_lt t) (P.code_pos t), h t rest rfl]
      rfl

/-- Either one of the tokens is there, or the parse ends. -/
theorem step_shifts :
    (∃ t rest next, p.input = t :: rest ∧ (P.code t, next) ∈ row ∧
      P.step p = .next (P.took p t next)) ∨ P.Ends 1 p (.abort p.globals) := by
  by_cases h : ∃ t rest next, p.input = t :: rest ∧ row.lookup (P.code t) = some next
  · obtain ⟨t, rest, next, hinput, hnext⟩ := h
    obtain ⟨before, after, rfl, -⟩ := List.lookup_eq_some_iff.mp hnext
    exact .inl ⟨t, rest, next, hinput, List.mem_append_right _ List.mem_cons_self,
      step_took hrow htop hlook hdepth hinput hnext⟩
  · refine .inr (.abort (step_error hrow htop hlook hdepth fun t rest hinput => ?_))
    exact Option.eq_none_iff_forall_ne_some.mpr fun next hnext => h ⟨t, rest, next, hinput, hnext⟩

end Shifts

/-- A reduction takes `taken` off the stack. -/
theorem ends_reduce (rule next : Nat) (taken below : List (Nat × ν))
    (hrule : P.tables.Reduces (top (taken ++ below)) rule)
    (hdepth : p.stack.length < P.maxDepth) (hstack : p.stack = taken ++ below)
    (htaken : P.tables.r2.getD rule 0 = taken.length)
    (hgoto : P.tables.goto rule (top below) = next) {k : Nat} {o : Outcome τ ν γ}
    (h : P.Ends k { p with
      stack := (next, (taken.map Prod.snd).reverse.headD p.yylval) :: below
      globals := P.run rule (taken.map Prod.snd).reverse p.globals } o) : P.Ends (k + 1) p o := by
  refine .next ?_ h
  rw [← hstack] at hrule
  rw [step, if_neg (Nat.not_le.mpr hdepth), if_neg (by simp [hrule.1]), hrule.2, act, reduce,
    htaken, hstack, List.take_left, List.drop_left, hgoto]

/-- The tokens that a row of states asks for are shifted. -/
theorem ends_takes (path : List (Nat × Nat)) (ts rest : List τ)
    (hpath : P.tables.Follows state path) (htop : top p.stack = state) (hlook : p.look = none)
    (hdepth : p.stack.length + path.length ≤ P.maxDepth) (hinput : p.input = ts ++ rest)
    (hts : ts.map P.code = path.map Prod.fst)
    {k : Nat} {o : Outcome τ ν γ} (h : P.Ends k (P.takes p ts path) o) :
    P.Ends (k + path.length) p o := by
  induction path generalizing p state ts with
  | nil => 
      obtain rfl := List.map_eq_nil_iff.mp hts
      exact h
  | cons edge path ih =>
      obtain ⟨c, next⟩ := edge
      rw [List.length_cons] at hdepth
      cases ts with
      | nil => cases hts
      | cons t ts =>
          obtain ⟨hc, hts⟩ := List.cons.inj hts
          have hnext : List.lookup (P.code t) [(c, next)] = some next := by
            rw [hc, List.lookup_cons_self]
          refine .next (step_took hpath.1 htop hlook (by omega) hinput hnext) ?_
          refine ih ts hpath.2 rfl hlook ?_ ?_ hts h
          · change p.stack.length + 1 + path.length ≤ P.maxDepth
            omega
          · change p.input.tail = _
            rw [hinput]
            rfl

/-- Either all of them are there, or the parse ends. -/
theorem takes_or_abort {path : List (Nat × Nat)} (hpath : P.tables.Follows state path)
    (htop : top p.stack = state) (hlook : p.look = none)
    (hdepth : p.stack.length + path.length ≤ P.maxDepth) :
    (∃ ts rest, p.input = ts ++ rest ∧ ts.map P.code = path.map Prod.fst) ∨
      P.Ends path.length p (.abort p.globals) := by
  induction path generalizing p state with
  | nil => exact .inl ⟨[], p.input, rfl, rfl⟩
  | cons edge path ih =>
      obtain ⟨c, next⟩ := edge
      rw [List.length_cons] at hdepth
      obtain ⟨t, rest, next', hinput, hnext, hstep⟩ | habort :=
        step_shifts hpath.1 htop hlook (by omega)
      · obtain ⟨hc, rfl⟩ := Prod.mk.inj (List.mem_singleton.mp hnext)
        have hdepth' : (P.took p t next').stack.length + path.length ≤ P.maxDepth := by
          change p.stack.length + 1 + path.length ≤ P.maxDepth
          omega
        obtain ⟨ts, rest', hrest, hts⟩ | habort :=
          @ih (P.took p t next') next' hpath.2 rfl hlook hdepth'
        · refine .inl ⟨t :: ts, rest', ?_, ?_⟩
          · have htail : p.input.tail = ts ++ rest' := hrest
            rw [hinput] at htail ⊢
            exact congrArg (t :: ·) htail
          · rw [List.map_cons, List.map_cons, hc, hts]
        · exact .inr (.next hstep habort)
      · exact .inr (habort.mono (Nat.le_add_left 1 _))

end Parser

end NetworkProgram.Foundation
