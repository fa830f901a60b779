import Mathlib.Data.List.TakeWhile

set_option autoImplicit false

/-!
# Foundation: scanners

A scanner takes the longest match that one of its rules has at the start of the text,
by the first rule if there are several, and goes on behind it.  A symbol at which no rule
matches is passed over.
-/

namespace NetworkProgram.Foundation

variable {α τ : Type}

/-- A rule of a scanner. -/
structure Rule (α τ : Type) where
  /-- The length of the longest match at the start of a text; 0 if there is none. -/
  length : List α → Nat
  /-- What is made of the match: a token, or nothing. -/
  token : List α → Option τ

/-- The first of the rules with the longest match, and its length. -/
def longest (text : List α) : List (Rule α τ) → Option (Rule α τ × Nat)
  | [] => none
  | r :: rules =>
      match longest text rules with
      | none => if 0 < r.length text then some (r, r.length text) else none
      | some best =>
          if 0 < r.length text ∧ best.2 ≤ r.length text then some (r, r.length text)
          else some best

/-- The tokens of a text; every round takes at least one symbol of `fuel`. -/
def scanFrom (rules : List (Rule α τ)) : Nat → List α → List τ
  | 0, _ => []
  | _ + 1, [] => []
  | fuel + 1, c :: rest =>
      match longest (c :: rest) rules with
      | none => scanFrom rules fuel rest
      | some (r, n) =>
          (r.token ((c :: rest).take n)).toList ++ scanFrom rules fuel ((c :: rest).drop n)

def scan (rules : List (Rule α τ)) (text : List α) : List τ := scanFrom rules text.length text

/-! ## Longest matches -/

section Longest

variable {text : List α} {rules before after : List (Rule α τ)} {r : Rule α τ}

theorem longest_eq_none (h : ∀ r ∈ rules, r.length text = 0) : longest text rules = none := by
  induction rules with
  | nil => rfl
  | cons r rules ih =>
      rw [longest, ih fun r' hr' => h r' (List.mem_cons_of_mem _ hr')]
      exact if_neg (by rw [h r List.mem_cons_self]; exact Nat.lt_irrefl 0)

/-- No rule in the list has a longer match than `n`. -/
theorem longest_le {n : Nat} (h : ∀ r ∈ rules, r.length text ≤ n) :
    ∀ best ∈ longest text rules, best.2 ≤ n := by
  induction rules with
  | nil => exact fun _ h => by cases h
  | cons r rules ih =>
      have hr := h r List.mem_cons_self
      have hrest := ih fun r' hr' => h r' (List.mem_cons_of_mem _ hr')
      rw [longest]
      cases hbest : longest text rules with
      | none =>
          intro best
          dsimp only
          split
          · rintro ⟨⟩
            exact hr
          · rintro ⟨⟩
      | some best' =>
          rw [hbest] at hrest
          intro best
          dsimp only
          split
          · rintro ⟨⟩
            exact hr
          · rintro ⟨⟩
            exact hrest _ rfl

/-- The rule that wins: longer than all before it, and as long as all behind it. -/
theorem longest_eq (hpos : 0 < r.length text)
    (hbefore : ∀ r' ∈ before, r'.length text < r.length text)
    (hafter : ∀ r' ∈ after, r'.length text ≤ r.length text) :
    longest text (before ++ r :: after) = some (r, r.length text) := by
  induction before with
  | nil =>
      have hle := longest_le hafter
      rw [List.nil_append, longest]
      cases hbest : longest text after with
      | none => exact if_pos hpos
      | some best => exact if_pos ⟨hpos, hle best hbest⟩
  | cons r' before ih =>
      have hlt := hbefore r' List.mem_cons_self
      rw [List.cons_append, longest, ih fun r'' hr'' => hbefore r'' (List.mem_cons_of_mem _ hr'')]
      exact if_neg fun h => Nat.not_le.mpr hlt h.2

theorem longest_pos (text : List α) (rules : List (Rule α τ)) :
    ∀ best ∈ longest text rules, 0 < best.2 := by
  induction rules with
  | nil => exact fun _ h => by cases h
  | cons r rules ih =>
      rw [longest]
      cases hbest : longest text rules with
      | none =>
          intro best
          dsimp only
          split
          · rintro ⟨⟩
            assumption
          · rintro ⟨⟩
      | some best' =>
          rw [hbest] at ih
          intro best
          dsimp only
          split
          · rintro ⟨⟩
            exact And.left ‹_›
          · rintro ⟨⟩
            exact ih _ rfl

end Longest

/-! ## Tokens -/

section Scan

variable (rules : List (Rule α τ))

/-- More fuel than there are symbols changes nothing. -/
theorem scanFrom_eq {fuel : Nat} {text : List α} (h : text.length ≤ fuel) :
    scanFrom rules fuel text = scan rules text := by
  have key : ∀ m n text, text.length ≤ m → text.length ≤ n →
      scanFrom rules m text = scanFrom rules n text := by
    intro m
    induction m with
    | zero =>
        intro n text hm _
        obtain rfl := List.eq_nil_of_length_eq_zero (Nat.le_zero.mp hm)
        cases n <;> rfl
    | succ m ih =>
        intro n text hm hn
        cases text with
        | nil => cases n <;> rfl
        | cons c rest =>
            rw [List.length_cons] at hm hn
            obtain ⟨n, rfl⟩ := Nat.exists_eq_add_of_le' (Nat.le_trans (Nat.le_add_left 1 _) hn)
            rw [scanFrom, scanFrom]
            cases hbest : longest (c :: rest) rules with
            | none => exact ih n rest (by omega) (by omega)
            | some best =>
                have hpos := longest_pos (c :: rest) rules best hbest
                dsimp only
                rw [ih n ((c :: rest).drop best.2)] <;>
                  rw [List.length_drop, List.length_cons] <;> omega
  exact key _ _ _ h (Nat.le_refl _)

theorem scan_skip {c : α} {rest : List α} (h : ∀ r ∈ rules, r.length (c :: rest) = 0) :
    scan rules (c :: rest) = scan rules rest := by
  rw [scan, List.length_cons, scanFrom, longest_eq_none h]
  rfl

/-- The rule that wins makes the token. -/
theorem scan_match {before after : List (Rule α τ)} {r : Rule α τ} {text : List α}
    (hpos : 0 < r.length text) (hbefore : ∀ r' ∈ before, r'.length text < r.length text)
    (hafter : ∀ r' ∈ after, r'.length text ≤ r.length text) (htext : text ≠ []) :
    scan (before ++ r :: after) text =
      (r.token (text.take (r.length text))).toList ++
        scan (before ++ r :: after) (text.drop (r.length text)) := by
  obtain ⟨c, rest, rfl⟩ := List.exists_cons_of_ne_nil htext
  rw [scan, List.length_cons, scanFrom, longest_eq hpos hbefore hafter]
  dsimp only
  rw [scanFrom_eq]
  rw [List.length_drop, List.length_cons]
  omega

end Scan

/-! ## Rules -/

/-- A word that has to stand there letter by letter. -/
def Rule.word [DecidableEq α] (word : List α) (token : Option τ) : Rule α τ where
  length := fun text => if word.isPrefixOf text then word.length else 0
  token := fun _ => token

/-- One symbol or more of a class. -/
def Rule.many (P : α → Bool) (token : List α → Option τ) : Rule α τ where
  length := fun text => (text.takeWhile P).length
  token := token

section Rules

variable {c : α} {rest : List α}

/-- A word matches no text with another first letter. -/
theorem Rule.word_length_of_ne [DecidableEq α] {k : List α} {token : Option τ} (hk : k ≠ [])
    (h : k.head? ≠ some c) : (Rule.word k token).length (c :: rest) = 0 := by
  obtain ⟨d, k, rfl⟩ := List.exists_cons_of_ne_nil hk
  have hne : d ≠ c := fun heq => h (congrArg some heq)
  simp [Rule.word, hne]

theorem Rule.many_length_of_not {P : α → Bool} {make : List α → Option τ} (h : P c = false) :
    (Rule.many P make).length (c :: rest) = 0 := by
  simp [Rule.many, h]

/-- A run of a class, up to where it ends. -/
theorem takeWhile_run {P : α → Bool} {w : List α} (hw : ∀ c ∈ w, P c = true)
    (hends : ∀ c ∈ rest.head?, P c = false) : (w ++ rest).takeWhile P = w := by
  rw [List.takeWhile_append_of_pos hw]
  cases rest with
  | nil => simp
  | cons c rest => rw [List.takeWhile_cons_of_neg (by simp [hends c rfl]), List.append_nil]

end Rules

end NetworkProgram.Foundation
