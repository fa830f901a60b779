import Mathlib.Data.List.Forall2
import Mathlib.Data.List.Induction
import NetworkProgram.Foundation.Scanning

set_option autoImplicit false

/-!
# Foundation: scanners as automata

A scanner generator turns the rules into one automaton that reads the text once.  A
`Simulation` names, for every state, what is left of each pattern; its conditions are about
single steps, so that a table can be checked.  Where there is one, the longest run of the
automaton is the longest match of the rules (`Simulation.longest_eq`).
-/

namespace NetworkProgram.Foundation

variable {σ α τ : Type}

/-- An automaton that jams (`none`) where no pattern goes on. -/
structure Automaton (σ α : Type) where
  start : σ
  next : σ → α → Option σ
  /-- The place of the first rule that matches what was read. -/
  accept : σ → Option Nat

namespace Automaton

variable (A : Automaton σ α)

def run : σ → List α → Option σ
  | s, [] => some s
  | s, c :: text => (A.next s c).bind fun t => run t text

/-- How far the automaton comes before it jams, and where it then is. -/
def munch : σ → List α → Nat × σ
  | s, [] => (0, s)
  | s, c :: text =>
      match A.next s c with
      | none => (0, s)
      | some t => ((munch t text).1 + 1, (munch t text).2)

variable {A} {s t : σ} {text : List α}

theorem run_append (left right : List α) :
    A.run s (left ++ right) = (A.run s left).bind fun t => A.run t right := by
  induction left generalizing s with
  | nil => rfl
  | cons c left ih =>
      rw [List.cons_append, run, run]
      cases A.next s c with
      | none => rfl
      | some t => exact ih

theorem munch_le : (A.munch s text).1 ≤ text.length := by
  induction text generalizing s with
  | nil => exact Nat.le_refl 0
  | cons c text ih =>
      rw [munch]
      split
      · exact Nat.zero_le _
      · exact Nat.succ_le_succ ih

theorem run_munch : A.run s (text.take (A.munch s text).1) = some (A.munch s text).2 := by
  induction text generalizing s with
  | nil => rfl
  | cons c text ih =>
      rw [munch]
      cases h : A.next s c with
      | none => rfl
      | some t =>
          dsimp only
          rw [List.take_succ_cons, run, h]
          exact ih

/-- No run goes on behind it. -/
theorem run_of_munch_lt {n : Nat} (hlt : (A.munch s text).1 < n) (hn : n ≤ text.length) :
    A.run s (text.take n) = none := by
  induction text generalizing s n with
  | nil => exact absurd (Nat.lt_of_lt_of_le hlt hn) (Nat.not_lt_zero _)
  | cons c text ih =>
      obtain ⟨n, rfl⟩ := Nat.exists_eq_add_of_le' (Nat.one_le_of_lt hlt)
      rw [munch] at hlt
      rw [List.take_succ_cons, run]
      cases h : A.next s c with
      | none => rfl
      | some t =>
          rw [h] at hlt
          exact ih (Nat.lt_of_succ_lt_succ hlt) (Nat.le_of_succ_le_succ hn)

/-- What stands behind the text decides only where the whole text was read. -/
theorem munch_append (h : A.run s text = some t) (rest : List α) :
    A.munch s (text ++ rest) = (text.length + (A.munch t rest).1, (A.munch t rest).2) := by
  induction text generalizing s with
  | nil =>
      obtain rfl := Option.some.inj h
      rw [List.nil_append, List.length_nil, Nat.zero_add]
  | cons c text ih =>
      rw [run] at h
      obtain ⟨u, hu, hrest⟩ := Option.bind_eq_some_iff.mp h
      rw [List.cons_append, munch, hu]
      dsimp only
      rw [ih hrest, List.length_cons, Nat.add_right_comm]

theorem munch_of_jam {c : α} (h : A.next s c = none) : A.munch s (c :: text) = (0, s) := by
  rw [munch, h]

end Automaton

/-! ## Patterns -/

/-- What the rules of a scanner match. -/
inductive Pattern (α : Type)
  /-- A word, symbol by symbol. -/
  | word (word : List α)
  /-- One symbol or more of a class. -/
  | many (P : α → Bool)
  /-- Any single symbol. -/
  | one

/-- What is left of a pattern when a part of the match was read. -/
inductive Residual (α : Type)
  | dead
  | rest (word : List α)
  | run (begun : Bool)
  deriving DecidableEq

namespace Pattern

variable [DecidableEq α]

def init : Pattern α → Residual α
  | word w => .rest w
  | many _ => .run false
  | one => .run false

/-- One more symbol is read. -/
def read : Pattern α → Residual α → α → Residual α
  | word _, .rest (d :: w), c => if c = d then .rest w else .dead
  | many P, .run _, c => if P c then .run true else .dead
  | one, .run false, _ => .run true
  | _, _, _ => .dead

def reads (p : Pattern α) : Residual α → List α → Residual α := List.foldl p.read

end Pattern

/-- Nothing is missing for a match. -/
def Residual.done : Residual α → Bool
  | dead => false
  | rest w => w.isEmpty
  | run begun => begun

namespace Pattern

variable [DecidableEq α] {p : Pattern α} {text : List α} {r : Residual α}

def Matches (p : Pattern α) (text : List α) : Prop := (p.reads p.init text).done = true

@[simp] theorem read_dead (p : Pattern α) (c : α) : p.read .dead c = .dead := by
  cases p <;> rfl

@[simp] theorem reads_dead (p : Pattern α) (text : List α) : p.reads .dead text = .dead := by
  induction text with
  | nil => rfl
  | cons c text ih => rw [reads, List.foldl_cons, read_dead]; exact ih

theorem reads_append (left right : List α) :
    p.reads r (left ++ right) = p.reads (p.reads r left) right := List.foldl_append

/-- `n` is the length of the longest match, or 0. -/
structure Longest (p : Pattern α) (text : List α) (n : Nat) : Prop where
  le : n ≤ text.length
  found : 0 < n → p.Matches (text.take n)
  most : ∀ m ≤ text.length, 0 < m → p.Matches (text.take m) → m ≤ n

/-- The rule matches what the pattern does. -/
def Describes (p : Pattern α) (r : Rule α τ) : Prop := ∀ text, p.Longest text (r.length text)

theorem word_reads (w w' text : List α) :
    ((word w).reads (.rest w') text).done = true ↔ text = w' := by
  induction text generalizing w' with
  | nil =>
      change w'.isEmpty = true ↔ [] = w'
      rw [List.isEmpty_iff, eq_comm]
  | cons c text ih =>
      change ((word w).reads ((word w).read (.rest w') c) text).done = true ↔ _
      cases w' with
      | nil =>
          rw [show (word w).read (.rest []) c = .dead from rfl, reads_dead]
          simp [Residual.done]
      | cons d w' =>
          dsimp only [read]
          split
          · rename_i heq
            rw [ih, heq, List.cons.injEq, eq_self, true_and]
          · rename_i hne
            rw [reads_dead]
            simp [Residual.done, hne]

theorem many_reads (P : α → Bool) (begun : Bool) (text : List α) :
    ((many P).reads (.run begun) text).done = true ↔
      text.all P = true ∧ (begun = true ∨ text ≠ []) := by
  induction text generalizing begun with
  | nil =>
      change begun = true ↔ _
      simp
  | cons c text ih =>
      change ((many P).reads (if P c then .run true else .dead) text).done = true ↔ _
      cases h : P c with
      | true => simp [ih, h]
      | false => simp [h, Residual.done]

theorem one_reads (text : List α) :
    ((one : Pattern α).reads (.run false) text).done = true ↔ text.length = 1 := by
  match text with
  | [] => simp [reads, Residual.done]
  | [c] => simp [reads, read, Residual.done]
  | c :: d :: text =>
      have hdead : (one : Pattern α).reads (.run false) (c :: d :: text) = .dead :=
        reads_dead one text
      rw [hdead]
      simp [Residual.done]

/-! ### Rules of patterns -/

theorem describes_word (k : List α) (token : Option τ) :
    (word k).Describes (Rule.word k token) := by
  intro text
  have hmatches : ∀ w, (word k).Matches w ↔ w = k := word_reads k k
  dsimp only [Rule.word]
  split
  · rename_i hlead
    have hbegins := List.isPrefixOf_iff_prefix.mp hlead
    have htake := List.prefix_iff_eq_take.mp hbegins
    refine ⟨hbegins.length_le, fun _ => (hmatches _).mpr htake.symm, ?_⟩
    intro m hm _ hmatch
    rw [← (hmatches _).mp hmatch, List.length_take_of_le hm]
  · rename_i hlead
    refine ⟨Nat.zero_le _, fun h => absurd h (Nat.lt_irrefl 0), ?_⟩
    intro m _ _ hmatch
    have hbegins := List.take_prefix m text
    rw [(hmatches _).mp hmatch] at hbegins
    exact absurd (List.isPrefixOf_iff_prefix.mpr hbegins) hlead

theorem describes_many (P : α → Bool) (make : List α → Option τ) :
    (many P).Describes (Rule.many P make) := by
  intro text
  have hmatches : ∀ w, (many P).Matches w ↔ w.all P = true ∧ w ≠ [] := fun w =>
    (many_reads P false w).trans (by simp)
  have hbegins := List.takeWhile_prefix P (l := text)
  refine ⟨hbegins.length_le, fun hpos => ?_, fun m hm _ hmatch => ?_⟩
  · change (many P).Matches (text.take (text.takeWhile P).length)
    rw [← List.prefix_iff_eq_take.mp hbegins, hmatches]
    exact ⟨List.all_takeWhile, List.ne_nil_of_length_pos hpos⟩
  · have hall := List.all_eq_true.mp ((hmatches _).mp hmatch).1
    have htake : text.take m <+: text.takeWhile P :=
      calc
        text.take m <+: text.take m ++ (text.drop m).takeWhile P := List.prefix_append _ _
        _ = (text.take m ++ text.drop m).takeWhile P := (List.takeWhile_append_of_pos hall).symm
        _ = text.takeWhile P := by rw [List.take_append_drop]
    have hle := htake.length_le
    rwa [List.length_take_of_le hm] at hle

end Pattern

/-- Any single symbol. -/
def Rule.one (token : List α → Option τ) : Rule α τ where
  length := fun text => min 1 text.length
  token := token

theorem Pattern.describes_one [DecidableEq α] (make : List α → Option τ) :
    (one : Pattern α).Describes (Rule.one make) := by
  intro text
  have hmatches : ∀ w : List α, (one : Pattern α).Matches w ↔ w.length = 1 := one_reads
  refine ⟨Nat.min_le_right _ _, fun hpos => ?_, fun m hm hpos hmatch => ?_⟩
  · have hpos : 0 < min 1 text.length := hpos
    rw [hmatches, List.length_take]
    change min (min 1 text.length) text.length = 1
    omega
  · have hlen := (hmatches _).mp hmatch
    rw [List.length_take_of_le hm] at hlen
    exact Nat.le_min.mpr ⟨hlen.le, hlen ▸ hm⟩

/-! ## Simulations -/

/-- The automaton reads all the patterns at once, and never has to go back behind what it
read last but one: every state that it comes to accepts. -/
structure Simulation [DecidableEq α] (A : Automaton σ α) (ps : List (Pattern α)) where
  states : List σ
  residuals : σ → List (Residual α)
  start_mem : A.start ∈ states
  start_eq : residuals A.start = ps.map Pattern.init
  next_eq : ∀ s ∈ states, ∀ c, match A.next s c with
    | none => ∀ r ∈ List.zipWith (fun p r => p.read r c) ps (residuals s), r = .dead
    | some t => t ∈ states ∧ (A.accept t).isSome = true ∧
        residuals t = List.zipWith (fun p r => p.read r c) ps (residuals s)
  accept_eq : ∀ s ∈ states, A.accept s = (residuals s).findIdx? Residual.done

namespace Simulation

variable [DecidableEq α] {A : Automaton σ α} {ps : List (Pattern α)} (S : Simulation A ps)
  {t : σ} {text : List α}

omit S in
theorem zipWith_read (text : List α) (c : α) :
    List.zipWith (fun p r => p.read r c) ps (ps.map fun p => p.reads p.init text) =
      ps.map fun p => p.reads p.init (text ++ [c]) := by
  rw [List.zipWith_map_right, List.zipWith_self]
  exact List.map_congr_left fun p _ => (Pattern.reads_append text [c]).symm

include S

/-- Where the automaton is, and what is left of every pattern; where it jammed, nothing. -/
theorem run_reads (text : List α) :
    (∃ t, A.run A.start text = some t ∧ t ∈ S.states ∧
      S.residuals t = ps.map fun p => p.reads p.init text) ∨
    A.run A.start text = none ∧ ∀ p ∈ ps, p.reads p.init text = .dead := by
  induction text using List.reverseRecOn with
  | nil => exact .inl ⟨A.start, rfl, S.start_mem, S.start_eq⟩
  | append_singleton text c ih =>
      rw [Automaton.run_append]
      obtain ⟨s, hrun, hs, hres⟩ | ⟨hrun, hdead⟩ := ih
      · have hnext := S.next_eq s hs c
        rw [hres, zipWith_read] at hnext
        rw [hrun, Option.bind_some, Automaton.run]
        cases h : A.next s c with
        | none =>
            rw [h] at hnext
            exact .inr ⟨rfl, fun p hp => hnext _ (List.mem_map_of_mem hp)⟩
        | some t =>
            rw [h] at hnext
            exact .inl ⟨t, rfl, hnext.1, hnext.2.2⟩
      · rw [hrun]
        refine .inr ⟨rfl, fun p hp => ?_⟩
        rw [Pattern.reads_append, hdead p hp, Pattern.reads_dead]

theorem accept_of_run (h : A.run A.start text = some t) (htext : text ≠ []) :
    (A.accept t).isSome = true := by
  obtain rfl | ⟨before, c, rfl⟩ := List.eq_nil_or_concat' text
  · exact absurd rfl htext
  rw [Automaton.run_append] at h
  obtain ⟨s, hrun, hlast⟩ := Option.bind_eq_some_iff.mp h
  obtain ⟨s', hrun', hs, -⟩ | ⟨hnone, -⟩ := S.run_reads before
  · obtain rfl := Option.some.inj (hrun.symm.trans hrun')
    have hnext := S.next_eq s hs c
    rw [Automaton.run] at hlast
    obtain ⟨u, hu, hlast⟩ := Option.bind_eq_some_iff.mp hlast
    obtain rfl := Option.some.inj hlast
    rw [hu] at hnext
    exact hnext.2.1
  · rw [hnone] at hrun
    cases hrun

/-- The rule of the first pattern that matches. -/
theorem accept_eq_findIdx? (h : A.run A.start text = some t) :
    A.accept t = ps.findIdx? fun p => (p.reads p.init text).done := by
  obtain ⟨t', hrun, ht, hres⟩ | ⟨hnone, -⟩ := S.run_reads text
  · obtain rfl := Option.some.inj (h.symm.trans hrun)
    rw [S.accept_eq t ht, hres, List.findIdx?_map]
    rfl
  · rw [hnone] at h
    cases h

omit S in
/-- Where the first of the patterns with a property stands, its rule stands. -/
theorem exists_split {rules : List (Rule α τ)} {q : Pattern α → Bool} {i : Nat}
    (h : List.Forall₂ Pattern.Describes ps rules) (hi : ps.findIdx? q = some i) :
    ∃ before r after, rules = before ++ r :: after ∧ before.length = i ∧
      (∃ p ∈ ps, q p = true ∧ p.Describes r) ∧
      ∀ r' ∈ before, ∃ p ∈ ps, q p = false ∧ p.Describes r' := by
  induction h generalizing i with
  | nil => cases hi
  | @cons p r ps rules hpr hrest ih =>
      rw [List.findIdx?_cons] at hi
      split at hi
      · rename_i hq
        obtain rfl := Option.some.inj hi
        exact ⟨[], r, rules, rfl, rfl, ⟨p, List.mem_cons_self, hq, hpr⟩, List.forall_mem_nil _⟩
      · rename_i hq
        obtain ⟨j, hj, rfl⟩ := Option.map_eq_some_iff.mp hi
        obtain ⟨before, r', after, rfl, hlen, ⟨p', hp', hmatch⟩, hbefore⟩ := ih hj
        refine ⟨r :: before, r', after, rfl, congrArg (· + 1) hlen,
          ⟨p', List.mem_cons_of_mem _ hp', hmatch⟩, ?_⟩
        rw [List.forall_mem_cons]
        refine ⟨⟨p, List.mem_cons_self, Bool.eq_false_iff.mpr hq, hpr⟩, fun r'' hr'' => ?_⟩
        obtain ⟨p'', hp'', hnot⟩ := hbefore r'' hr''
        exact ⟨p'', List.mem_cons_of_mem _ hp'', hnot⟩

/-! ### Longest matches -/

section Longest

variable {rules : List (Rule α τ)} (hrules : List.Forall₂ Pattern.Describes ps rules)
include hrules

/-- No rule matches more than the automaton reads. -/
theorem length_le (text : List α) :
    ∀ r ∈ rules, r.length text ≤ (A.munch A.start text).1 := by
  intro r hr
  obtain ⟨i, hi, rfl⟩ := List.getElem_of_mem hr
  have hp : ps.get ⟨i, hrules.length_eq ▸ hi⟩ ∈ ps := List.get_mem _ _
  have hlong := hrules.get (hrules.length_eq ▸ hi) hi text
  by_contra hlt
  have hlt := Nat.not_le.mp hlt
  have hjam := Automaton.run_of_munch_lt hlt hlong.le
  have hfound := hlong.found (Nat.zero_lt_of_lt hlt)
  obtain ⟨t, hrun, -⟩ | ⟨-, hdead⟩ := S.run_reads (text.take (rules[i].length text))
  · rw [hrun] at hjam
    cases hjam
  · unfold Pattern.Matches at hfound
    rw [show (rules.get ⟨i, hi⟩) = rules[i] from rfl, hdead _ hp] at hfound
    cases hfound

theorem longest_none (h : (A.munch A.start text).1 = 0) : longest text rules = none :=
  longest_eq_none fun r hr => Nat.le_zero.mp (h ▸ S.length_le hrules text r hr)

/-- The longest run of the automaton is the longest match, by the rule it accepts. -/
theorem longest_some (h : 0 < (A.munch A.start text).1) :
    ∃ i r, A.accept (A.munch A.start text).2 = some i ∧ rules[i]? = some r ∧
      longest text rules = some (r, (A.munch A.start text).1) := by
  have hrun : A.run A.start (text.take (A.munch A.start text).1) =
      some (A.munch A.start text).2 := Automaton.run_munch
  have hle : (A.munch A.start text).1 ≤ text.length := Automaton.munch_le
  have hne : text.take (A.munch A.start text).1 ≠ [] := by
    intro hnil
    have hlen := congrArg List.length hnil
    rw [List.length_take_of_le hle, List.length_nil] at hlen
    omega
  obtain ⟨i, hi⟩ := Option.isSome_iff_exists.mp (S.accept_of_run hrun hne)
  have hfind := S.accept_eq_findIdx? hrun
  rw [hi] at hfind
  obtain ⟨before, r, after, rfl, hlen, ⟨p, -, hmatch, hpr⟩, hbefore⟩ :=
    exists_split hrules hfind.symm
  have hlength : r.length text = (A.munch A.start text).1 :=
    Nat.le_antisymm
      (S.length_le hrules text r (List.mem_append_right _ List.mem_cons_self))
      ((hpr text).most _ hle h hmatch)
  refine ⟨i, r, hi, ?_, ?_⟩
  · rw [← hlen, List.getElem?_append_right (Nat.le_refl _), Nat.sub_self]
    rfl
  · rw [← hlength]
    refine longest_eq (hlength ▸ h) (fun r' hr' => ?_) (fun r' hr' => ?_)
    · obtain ⟨p', -, hnot, hpr'⟩ := hbefore r' hr'
      have hle' := S.length_le hrules text r' (List.mem_append_left _ hr')
      refine Nat.lt_of_le_of_ne (hlength ▸ hle') fun heq => ?_
      have hfound := (hpr' text).found (by rw [heq, hlength]; exact h)
      rw [heq, hlength] at hfound
      exact absurd hfound (by rw [Pattern.Matches, hnot]; exact Bool.false_ne_true)
    · exact hlength ▸ S.length_le hrules text r'
        (List.mem_append_right _ (List.mem_cons_of_mem _ hr'))

end Longest

end Simulation

/-! ## Checking a table -/

/-- The pattern does not tell the two symbols apart. -/
def Pattern.Alike [DecidableEq α] (c d : α) : Pattern α → Prop
  | word w => ∀ e ∈ w, c = e ↔ d = e
  | many P => P c = P d
  | one => True

instance [DecidableEq α] (c d : α) (p : Pattern α) : Decidable (p.Alike c d) :=
  match p with
  | .word w => inferInstanceAs (Decidable (∀ e ∈ w, c = e ↔ d = e))
  | .many P => inferInstanceAs (Decidable (P c = P d))
  | .one => inferInstanceAs (Decidable True)

namespace Pattern

variable [DecidableEq α] {p : Pattern α} {c d : α}

/-- What is left of a word is an end of it. -/
theorem word_reads_suffix (w w' text : List α) :
    (word w).reads (.rest w') text = .dead ∨
      ∃ w'', (word w).reads (.rest w') text = .rest w'' ∧ w'' <:+ w' := by
  induction text generalizing w' with
  | nil => exact .inr ⟨w', rfl, List.suffix_rfl⟩
  | cons c text ih =>
      change (word w).reads ((word w).read (.rest w') c) text = .dead ∨ _
      cases w' with
      | nil => exact .inl (reads_dead _ text)
      | cons e w' =>
          by_cases hc : c = e
          · have hread : (word w).read (.rest (e :: w')) c = .rest w' := if_pos hc
            rw [hread]
            refine (ih w').imp_right fun ⟨w'', hreads, hsuffix⟩ => ⟨w'', ?_, ?_⟩
            · change (word w).reads ((word w).read (.rest (e :: w')) c) text = _
              rw [hread, hreads]
            · exact hsuffix.trans (List.suffix_cons e w')
          · have hread : (word w).read (.rest (e :: w')) c = .dead := if_neg hc
            rw [hread]
            exact .inl (reads_dead _ text)

theorem read_alike (h : p.Alike c d) (text : List α) :
    p.read (p.reads p.init text) c = p.read (p.reads p.init text) d := by
  cases p with
  | word w =>
      obtain hdead | ⟨w'', hrest, hsuffix⟩ := word_reads_suffix w w text
      · rw [init, hdead, read_dead, read_dead]
      · rw [init, hrest]
        cases w'' with
        | nil => rfl
        | cons e w'' =>
            have hiff := h e (hsuffix.subset List.mem_cons_self)
            by_cases hc : c = e
            · rw [hiff.mp hc, hc]
            · have hd : ¬ d = e := fun hd => hc (hiff.mpr hd)
              exact (if_neg hc).trans (if_neg hd).symm
  | many P =>
      have hP : P c = P d := h
      cases (many P).reads (init (many P)) text with
      | dead | rest => rfl
      | run begun =>
          change (if P c then _ else _) = if P d then _ else _
          rw [hP]
  | one =>
      cases (one : Pattern α).reads (init one) text with
      | dead | rest => rfl
      | run begun => cases begun <;> rfl

end Pattern

section Samples

variable [DecidableEq σ] [DecidableEq α] (A : Automaton σ α) (ps : List (Pattern α))
  (states : List σ) (sample : σ → List α)

/-- The automaton comes to where the patterns come to behind `text`. -/
def Automaton.Comes (text : List α) : Option σ → Prop
  | none => ∀ p ∈ ps, p.reads p.init text = .dead
  | some t => t ∈ states ∧ (A.accept t).isSome = true ∧
      ∀ p ∈ ps, p.reads p.init (sample t) = p.reads p.init text

instance (text : List α) : ∀ next, Decidable (A.Comes ps states sample text next)
  | none => inferInstanceAs (Decidable (∀ p ∈ ps, p.reads p.init text = .dead))
  | some t => inferInstanceAs (Decidable (t ∈ states ∧ (A.accept t).isSome = true ∧
      ∀ p ∈ ps, p.reads p.init (sample t) = p.reads p.init text))

/-- A simulation from a sample text for each state and a representative of each symbol. -/
def Simulation.ofSamples (rep : α → α) (start_mem : A.start ∈ states)
    (start_eq : sample A.start = [])
    (alike : ∀ c, (∀ s, A.next s c = A.next s (rep c)) ∧ ∀ p ∈ ps, p.Alike c (rep c))
    (next_eq : ∀ s ∈ states, ∀ c,
      A.Comes ps states sample (sample s ++ [rep c]) (A.next s (rep c)))
    (accept_eq : ∀ s ∈ states,
      A.accept s = ps.findIdx? fun p => (p.reads p.init (sample s)).done) :
    Simulation A ps where
  states := states
  residuals := fun s => ps.map fun p => p.reads p.init (sample s)
  start_mem := start_mem
  start_eq := by rw [start_eq]; rfl
  next_eq := by
    intro s hs c
    have hnext := next_eq s hs c
    have hreads : ∀ p ∈ ps, p.reads p.init (sample s ++ [c]) =
        p.reads p.init (sample s ++ [rep c]) := fun p hp => by
      rw [Pattern.reads_append, Pattern.reads_append]
      exact Pattern.read_alike ((alike c).2 p hp) (sample s)
    rw [(alike c).1 s, zipWith_read]
    cases h : A.next s (rep c) with
    | none =>
        rw [h] at hnext
        intro r hr
        obtain ⟨p, hp, rfl⟩ := List.mem_map.mp hr
        exact (hreads p hp).trans (hnext p hp)
    | some t =>
        rw [h] at hnext
        refine ⟨hnext.1, hnext.2.1, List.map_congr_left fun p hp => ?_⟩
        rw [hreads p hp]
        exact hnext.2.2 p hp
  accept_eq := by
    intro s hs
    rw [List.findIdx?_map]
    exact accept_eq s hs

end Samples

/-! ## Default rules -/

/-- The rules of a scanner that says what it made of each match. -/
inductive Event (α τ : Type)
  | token (t : τ)
  | echo (text : List α)
  deriving DecidableEq, Repr

namespace Event

def token? : Event α τ → Option τ
  | token t => some t
  | echo _ => none

def echo? : Event α τ → Option (List α)
  | token _ => none
  | echo text => some text

end Event

def Rule.event (r : Rule α τ) : Rule α (Event α τ) where
  length := r.length
  token := fun text => (r.token text).map Event.token

/-- The rules with the default rule behind them. -/
def eventRules (rules : List (Rule α τ)) : List (Rule α (Event α τ)) :=
  rules.map Rule.event ++ [Rule.one fun text => some (.echo text)]

/-- What a scanner passes over. -/
def echoed (rules : List (Rule α τ)) (text : List α) : List α :=
  ((scan (eventRules rules) text).filterMap Event.echo?).flatten

theorem scan_cons (rules : List (Rule α τ)) (c : α) (rest : List α) :
    scan rules (c :: rest) =
      match longest (c :: rest) rules with
      | none => scan rules rest
      | some (r, n) =>
          (r.token ((c :: rest).take n)).toList ++ scan rules ((c :: rest).drop n) := by
  rw [scan, List.length_cons, scanFrom]
  cases h : longest (c :: rest) rules with
  | none => rfl
  | some best =>
      have hpos := longest_pos (c :: rest) rules best h
      dsimp only
      rw [scanFrom_eq]
      rw [List.length_drop, List.length_cons]
      omega

/-- The default rule wins where no other rule matches. -/
theorem longest_eventRules (rules : List (Rule α τ)) (c : α) (rest : List α) :
    longest (c :: rest) (eventRules rules) =
      some (match longest (c :: rest) rules with
        | none => (Rule.one fun text => some (.echo text), 1)
        | some best => (best.1.event, best.2)) := by
  have hone : ∀ make : List α → Option (Event α τ), (Rule.one make).length (c :: rest) = 1 :=
    fun make => Nat.min_eq_left (Nat.succ_le_succ (Nat.zero_le _))
  induction rules with
  | nil =>
      change longest (c :: rest) [_] = _
      rw [longest, longest]
      dsimp only
      rw [hone]
      rfl
  | cons r rules ih =>
      change longest (c :: rest) (r.event :: eventRules rules) = _
      have hlen : r.event.length (c :: rest) = r.length (c :: rest) := rfl
      rw [longest, ih, longest, hlen]
      cases h : longest (c :: rest) rules with
      | none =>
          by_cases hr : 0 < r.length (c :: rest)
          · simp [hr, Nat.one_le_iff_ne_zero, hr.ne']
          · simp [hr]
      | some best =>
          by_cases hr : 0 < r.length (c :: rest) ∧ best.2 ≤ r.length (c :: rest)
          · simp [hr]
          · simp [hr]

/-- The tokens are those of the rules alone. -/
theorem tokens_eventRules (rules : List (Rule α τ)) (text : List α) :
    (scan (eventRules rules) text).filterMap Event.token? = scan rules text := by
  induction h : text.length using Nat.strong_induction_on generalizing text with
  | _ n ih =>
      cases text with
      | nil => rfl
      | cons c rest =>
          subst h
          have hrest := ih rest.length (by rw [List.length_cons]; omega) rest rfl
          rw [scan_cons, scan_cons, longest_eventRules]
          cases hbest : longest (c :: rest) rules with
          | none =>
              dsimp only
              rw [List.filterMap_append, List.drop_succ_cons, List.drop_zero, hrest]
              rfl
          | some best =>
              have hpos := longest_pos (c :: rest) rules best hbest
              dsimp only
              rw [List.filterMap_append, ih _ _ ((c :: rest).drop best.2) rfl]
              · congr 1
                dsimp only [Rule.event]
                cases best.1.token ((c :: rest).take best.2) <;> rfl
              · rw [List.length_drop, List.length_cons]
                omega

/-! ### What is echoed -/

theorem longest_mem {text : List α} {rules : List (Rule α τ)} :
    ∀ best ∈ longest text rules, best.1 ∈ rules ∧ best.2 = best.1.length text := by
  induction rules with
  | nil => exact fun _ h => by cases h
  | cons r rules ih =>
      intro best hbest
      rw [longest] at hbest
      cases hrest : longest text rules with
      | none =>
          rw [hrest] at hbest
          dsimp only at hbest
          split at hbest
          · cases hbest
            exact ⟨List.mem_cons_self, rfl⟩
          · cases hbest
      | some best' =>
          rw [hrest] at hbest
          dsimp only at hbest
          split at hbest
          · cases hbest
            exact ⟨List.mem_cons_self, rfl⟩
          · cases hbest
            exact (ih _ hrest).imp_left (List.mem_cons_of_mem _)

theorem length_eq_zero_of_longest {text : List α} {rules : List (Rule α τ)}
    (h : longest text rules = none) : ∀ r ∈ rules, r.length text = 0 := by
  induction rules with
  | nil => exact List.forall_mem_nil _
  | cons r rules ih =>
      rw [longest] at h
      cases hrest : longest text rules with
      | none =>
          rw [hrest] at h
          dsimp only at h
          split at h
          · cases h
          · rename_i hzero
            exact List.forall_mem_cons.mpr ⟨Nat.eq_zero_of_not_pos hzero, ih hrest⟩
      | some best =>
          rw [hrest] at h
          dsimp only at h
          split at h <;> cases h

/-- Where the rules tell by the first symbol whether they match, the symbols that they match
nowhere are echoed. -/
theorem echoed_eq_filter {rules : List (Rule α τ)} {stray : α → Bool}
    (hmatch : ∀ r ∈ rules, ∀ text : List α, ∀ c ∈ text.take (r.length text),
      stray c = false)
    (hother : ∀ c rest, stray c = false → ∃ r ∈ rules, 0 < r.length (c :: rest))
    (text : List α) : echoed rules text = text.filter stray := by
  induction h : text.length using Nat.strong_induction_on generalizing text with
  | _ n ih =>
      cases text with
      | nil => rfl
      | cons c rest =>
          subst h
          rw [echoed, scan_cons, longest_eventRules]
          cases hbest : longest (c :: rest) rules with
          | none =>
              have hc : stray c = true := by
                by_contra hc
                obtain ⟨r, hr, hpos⟩ := hother c rest (Bool.eq_false_iff.mpr hc)
                rw [length_eq_zero_of_longest hbest r hr] at hpos
                exact absurd hpos (Nat.lt_irrefl 0)
              have hrest := ih rest.length (Nat.lt_succ_self _) rest rfl
              rw [List.filter_cons_of_pos hc, ← hrest]
              rfl
          | some best =>
              have hpos := longest_pos (c :: rest) rules best hbest
              obtain ⟨hr, hlen⟩ := longest_mem best hbest
              have hquiet : ((c :: rest).take best.2).filter stray = [] :=
                List.filter_eq_nil_iff.mpr fun d hd =>
                  Bool.eq_false_iff.mp (hmatch _ hr _ d (hlen ▸ hd))
              have hdrop := ih ((c :: rest).drop best.2).length
                (by rw [List.length_drop, List.length_cons]; omega) _ rfl
              have htext : (c :: rest).filter stray = ((c :: rest).drop best.2).filter stray :=
                calc
                  (c :: rest).filter stray =
                      ((c :: rest).take best.2 ++ (c :: rest).drop best.2).filter stray := by
                    rw [List.take_append_drop]
                  _ = ((c :: rest).drop best.2).filter stray := by
                    rw [List.filter_append, hquiet, List.nil_append]
              rw [htext, ← hdrop]
              dsimp only [Rule.event]
              rw [List.filterMap_append]
              cases best.1.token ((c :: rest).take best.2) <;> rfl

end NetworkProgram.Foundation
