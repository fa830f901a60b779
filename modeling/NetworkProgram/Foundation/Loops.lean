import Mathlib.Logic.Basic

set_option autoImplicit false

/-!
# Foundation: `do`-`while` loops

A loop is its body, a partial function on the state, and the test that ends it,
made on the state after each round.  A loop ends in at most one state; the variant
rule shows that it does end, and in which states.
-/

namespace NetworkProgram.Foundation

variable {σ : Type}

/-- The loop that starts in a state ends in another one. -/
inductive DoWhile (body : σ → Option σ) (done : σ → Bool) : σ → σ → Prop
  /-- The last round. -/
  | last {s t : σ} (round : body s = some t) (ends : done t = true) : DoWhile body done s t
  /-- One more round. -/
  | again {s t u : σ} (round : body s = some t) (goesOn : done t = false)
      (rest : DoWhile body done t u) : DoWhile body done s u

theorem DoWhile.unique {body : σ → Option σ} {done : σ → Bool} {s t u : σ}
    (first : DoWhile body done s t) (second : DoWhile body done s u) : t = u := by
  induction first with
  | last round ends =>
      cases second with
      | last round' => exact Option.some.inj (round.symm.trans round')
      | again round' goesOn =>
          obtain rfl := Option.some.inj (round.symm.trans round')
          exact absurd (ends.symm.trans goesOn) Bool.noConfusion
  | again round goesOn _ ih =>
      cases second with
      | last round' ends =>
          obtain rfl := Option.some.inj (round.symm.trans round')
          exact absurd (ends.symm.trans goesOn) Bool.noConfusion
      | again round' _ rest =>
          obtain rfl := Option.some.inj (round.symm.trans round')
          exact ih rest

/-- The variant rule: a round either ends the loop as wanted, or keeps the invariant
and decreases the variant. -/
theorem DoWhile.total {body : σ → Option σ} {done : σ → Bool} {I Q : σ → Prop}
    (variant : σ → Nat)
    (round : ∀ s, I s → ∃ t, body s = some t ∧
      ((done t = true ∧ Q t) ∨ (done t = false ∧ I t ∧ variant t < variant s)))
    {s : σ} (start : I s) : ∃ t, DoWhile body done s t ∧ Q t := by
  induction hn : variant s using Nat.strongRecOn generalizing s with
  | _ n ih =>
      obtain ⟨t, hbody, ⟨ends, hQ⟩ | ⟨goesOn, hI, hlt⟩⟩ := round s start
      · exact ⟨t, .last hbody ends, hQ⟩
      · obtain ⟨u, rest, hQ⟩ := ih (variant t) (hn ▸ hlt) hI rfl
        exact ⟨u, .again hbody goesOn rest, hQ⟩

end NetworkProgram.Foundation
