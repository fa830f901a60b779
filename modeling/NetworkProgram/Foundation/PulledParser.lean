import NetworkProgram.Foundation.TableParser

set_option autoImplicit false

/-!
# Foundation: parsers that pull their tokens

A parser calls its scanner for the next token where it needs one.  A scanner that supplies
the tokens of a list one by one and then the end of the input (`Supplies`) makes the parser
do what it does on the list (`pullRuns_eq`).
-/

namespace NetworkProgram.Foundation

variable {τ ν γ σ : Type}

/-- Calls of `next` return the tokens that `left` has for a state of the scanner. -/
structure Supplies (next : σ → Option (Option τ × σ)) (left : σ → List τ → Prop) : Prop where
  eof : ∀ {s}, left s [] → ∃ s', next s = some (none, s') ∧ left s' []
  token : ∀ {s t ts}, left s (t :: ts) → ∃ s', next s = some (some t, s') ∧ left s' ts

/-- What the scanner has not yet returned is not in the parse. -/
def Parse.pulled (p : Parse τ ν γ) : Parse τ ν γ := { p with input := [] }

def Outcome.pulled : Outcome τ ν γ → Outcome τ ν γ
  | next p => next p.pulled
  | accept g => accept g
  | abort g => abort g

namespace Parser

variable (P : Parser τ ν γ) (next : σ → Option (Option τ × σ))

/-- `yychar = YYLEX`, where the state has to look at a token and there is none. -/
def pull (p : Parse τ ν γ) (s : σ) : Option (Parse τ ν γ × σ) :=
  if p.stack.length < P.maxDepth ∧ P.tables.reads (top p.stack) = true ∧ p.look = none then
    (next s).map fun r =>
      ({ p with look := some r.1, yylval := (r.1.bind P.value).getD p.yylval }, r.2)
  else some (p, s)

/-- The rounds of the skeleton; `none` where the scanner ends the program. -/
def pullRuns : Nat → Parse τ ν γ → σ → Option (Outcome τ ν γ × σ)
  | 0, p, s => some (.next p, s)
  | n + 1, p, s => do
      let (p, s) ← P.pull next p s
      match P.step p with
      | .next p => pullRuns n p s
      | outcome => some (outcome, s)

variable {P next} {left : σ → List τ → Prop} {p : Parse τ ν γ} {s : σ}

/-- Where a token is there, the input is not looked at. -/
theorem act_pulled (p : Parse τ ν γ) (action : Tables.Action) :
    P.act p.pulled action = (P.act p action).pulled := by
  cases action <;> rfl

theorem read_of_look {t : Option τ} (h : p.look = some t) : P.read p = p := by
  rw [read, h]

theorem exists_look (p : Parse τ ν γ) : ∃ t, (P.read p).look = some t := by
  unfold read
  split
  · exact ⟨_, ‹_›⟩
  · exact ⟨none, rfl⟩
  · exact ⟨_, rfl⟩

theorem stack_read (p : Parse τ ν γ) : (P.read p).stack = p.stack := by
  unfold read
  split <;> rfl

/-- A token that is there already is not read once more. -/
theorem step_read (hreads : P.tables.reads (top p.stack) = true) :
    P.step (P.read p) = P.step p := by
  obtain ⟨t, ht⟩ := exists_look (P := P) p
  have hread : P.read (P.read p) = P.read p := read_of_look ht
  have hglobals : (P.read p).globals = p.globals := by
    unfold read
    split <;> rfl
  rw [step, step, stack_read, if_pos hreads, if_pos hreads, hread, hglobals]

theorem input_act {q : Parse τ ν γ} {action : Tables.Action} (h : P.act p action = .next q) :
    q.input = p.input := by
  cases action with
  | shift state | reduce rule =>
      cases h
      rfl
  | accept | error => cases h

/-- Where there is a token or none is looked at, the input does not matter. -/
theorem step_pulled (h : ¬ (p.stack.length < P.maxDepth ∧ P.tables.reads (top p.stack) = true ∧
    p.look = none)) :
    P.step p.pulled = (P.step p).pulled ∧ ∀ q, P.step p = .next q → q.input = p.input := by
  have hstack : p.pulled.stack = p.stack := rfl
  rw [step, step, hstack]
  by_cases hdepth : P.maxDepth ≤ p.stack.length
  · rw [if_pos hdepth, if_pos hdepth]
    exact ⟨rfl, fun q hq => by cases hq⟩
  rw [if_neg hdepth, if_neg hdepth]
  by_cases hreads : P.tables.reads (top p.stack) = true
  · rw [if_pos hreads, if_pos hreads]
    cases hlook : p.look with
    | none => exact absurd ⟨Nat.not_le.mp hdepth, hreads, hlook⟩ h
    | some t =>
        have hlook' : p.pulled.look = some t := hlook
        rw [read_of_look hlook, read_of_look hlook']
        exact ⟨act_pulled p _, fun q => input_act⟩
  · rw [if_neg hreads, if_neg hreads]
    exact ⟨act_pulled p _, fun q => input_act⟩

/-- A token is pulled where the parser on the list reads one. -/
theorem pull_eq (h : Supplies next left) (hleft : left s p.input) (hnone : p.look = none) :
    ∃ s', (next s).map (fun r => ({ p.pulled with
        look := some r.1, yylval := (r.1.bind P.value).getD p.yylval }, r.2)) =
      some ((P.read p).pulled, s') ∧ left s' (P.read p).input := by
  cases hinput : p.input with
  | nil =>
      rw [hinput] at hleft
      obtain ⟨s', hnext, hleft'⟩ := h.eof hleft
      have hread : P.read p = { p with look := some none } := by rw [read, hnone, hinput]
      rw [hnext, hread]
      exact ⟨s', rfl, hinput ▸ hleft'⟩
  | cons t ts =>
      rw [hinput] at hleft
      obtain ⟨s', hnext, hleft'⟩ := h.token hleft
      have hread : P.read p = { p with
          look := some (some t), input := ts, yylval := (P.value t).getD p.yylval } := by
        rw [read, hnone, hinput]
      rw [hnext, hread]
      exact ⟨s', rfl, hleft'⟩

theorem pullRuns_eq (h : Supplies next left) (n : Nat) (hleft : left s p.input) :
    ∃ s', P.pullRuns next n p.pulled s = some ((P.runs n p).pulled, s') := by
  induction n generalizing p s with
  | zero => exact ⟨s, rfl⟩
  | succ n ih =>
      -- One round, on what was pulled and on the list.
      have hround : ∃ (p' : Parse τ ν γ) (s' : σ),
          P.pull next p.pulled s = some (p'.pulled, s') ∧ left s' p'.input ∧
          P.step p'.pulled = (P.step p).pulled ∧ ∀ q, P.step p = .next q → q.input = p'.input := by
        by_cases hcall : p.stack.length < P.maxDepth ∧ P.tables.reads (top p.stack) = true ∧
            p.look = none
        · obtain ⟨s', hpull, hleft'⟩ := pull_eq h hleft hcall.2.2
          obtain ⟨t, ht⟩ := exists_look (P := P) p
          have hstep := step_pulled (P := P) (p := P.read p) fun hc => by
            rw [ht] at hc
            cases hc.2.2
          rw [step_read hcall.2.1] at hstep
          exact ⟨P.read p, s', (if_pos hcall).trans hpull, hleft', hstep⟩
        · exact ⟨p, s, if_neg hcall, hleft, step_pulled hcall⟩
      obtain ⟨p', s', hpull, hleft', hstep, hinput⟩ := hround
      rw [pullRuns, runs, hpull, Option.bind_eq_bind, Option.bind_some]
      dsimp only
      rw [hstep]
      cases hnext : P.step p with
      | next q => exact ih (hinput q hnext ▸ hleft')
      | accept g | abort g => exact ⟨s', rfl⟩

end Parser

end NetworkProgram.Foundation
