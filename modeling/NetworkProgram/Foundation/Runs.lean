import Mathlib.Logic.Function.Basic
import Mathlib.Data.List.Basic

set_option autoImplicit false

/-!
# Foundation: runs of a partial step function

Every stateful program of this development is a partial function
`step : σ → α → Option σ`: the action says who moves and how the environment
answers, and `none` means that the action is not possible in that state.  This
module fixes, once, what a finite run, a reachable state and an infinite run of
such a function are, and the three rules by which results about runs are proved:
an invariant is preserved step by step, two related runs stay related, and a
measure that a fair party keeps decreasing reaches its goal.
-/

namespace NetworkProgram.Foundation

variable {σ α : Type}

/-- Run a list of actions; `none` as soon as one of them is not possible. -/
def exec (step : σ → α → Option σ) : σ → List α → Option σ
  | s, [] => some s
  | s, a :: rest =>
      match step s a with
      | none => none
      | some t => exec step t rest

/-- The states some finite run ends in. -/
inductive Reaches (step : σ → α → Option σ) (s : σ) : σ → Prop
  /-- The run without an action. -/
  | refl : Reaches step s s
  /-- One more action. -/
  | tail {t u : σ} {a : α} (run : Reaches step s t) (move : step t a = some u) :
      Reaches step s u

theorem exec_cons_eq_some {step : σ → α → Option σ} {s u : σ} {a : α} {rest : List α} :
    exec step s (a :: rest) = some u ↔ ∃ t, step s a = some t ∧ exec step t rest = some u := by
  cases h : step s a with
  | none => simp [exec, h]
  | some t => simp [exec, h]

theorem exec_append {step : σ → α → Option σ} {s t : σ} {left : List α} (right : List α)
    (h : exec step s left = some t) : exec step s (left ++ right) = exec step t right := by
  induction left generalizing s with
  | nil =>
      simp only [exec, Option.some.injEq] at h
      rw [List.nil_append, h]
  | cons a rest ih =>
      obtain ⟨u, move, tail⟩ := exec_cons_eq_some.mp h
      simpa [exec, move] using ih tail

theorem exec_append_eq_some {step : σ → α → Option σ} {s u : σ} {left right : List α} :
    exec step s (left ++ right) = some u ↔
      ∃ t, exec step s left = some t ∧ exec step t right = some u := by
  induction left generalizing s with
  | nil => simp [exec]
  | cons a left ih =>
      rw [List.cons_append, exec_cons_eq_some]
      constructor
      · rintro ⟨t, move, tail⟩
        obtain ⟨v, hleft, hright⟩ := ih.mp tail
        exact ⟨v, exec_cons_eq_some.mpr ⟨t, move, hleft⟩, hright⟩
      · rintro ⟨v, hleft, hright⟩
        obtain ⟨t, move, tail⟩ := exec_cons_eq_some.mp hleft
        exact ⟨t, move, ih.mpr ⟨v, tail, hright⟩⟩

theorem Reaches.trans {step : σ → α → Option σ} {s t u : σ}
    (first : Reaches step s t) (second : Reaches step t u) : Reaches step s u := by
  induction second with
  | refl => exact first
  | tail _ move ih => exact .tail ih move

/-- A list of actions that runs through reaches its last state. -/
theorem Reaches.of_exec {step : σ → α → Option σ} {s t : σ} {acts : List α}
    (h : exec step s acts = some t) : Reaches step s t := by
  induction acts generalizing s with
  | nil =>
      simp only [exec, Option.some.injEq] at h
      exact h ▸ .refl
  | cons a rest ih =>
      obtain ⟨u, move, tail⟩ := exec_cons_eq_some.mp h
      exact (Reaches.tail .refl move).trans (ih tail)

/-- The invariant rule: what holds at the start and survives every step holds in
every state reached. -/
theorem Reaches.invariant {step : σ → α → Option σ} {I : σ → Prop} {s t : σ}
    (run : Reaches step s t) (start : I s)
    (preserved : ∀ u a v, I u → step u a = some v → I v) : I t := by
  induction run with
  | refl => exact start
  | tail _ move ih => exact preserved _ _ _ ih move

/-- The measure rule: if every round that finds the measure above zero can be played
and lowers it, then so many rounds bring it to zero. -/
theorem exec_exhausts {β : Type} {step : σ → α → Option σ} (round : β → α) (I : σ → Prop)
    (measure : σ → Nat)
    (lowers : ∀ s b, I s → measure s ≠ 0 →
      ∃ t, step s (round b) = some t ∧ I t ∧ measure t < measure s)
    {rounds : List β} {s : σ} (start : I s) (h : measure s ≤ rounds.length) :
    ∃ used t, used <+: rounds ∧ exec step s (used.map round) = some t ∧ measure t = 0 := by
  induction rounds generalizing s with
  | nil => exact ⟨[], s, List.prefix_rfl, rfl, Nat.le_zero.mp h⟩
  | cons b rounds ih =>
      rcases eq_or_ne (measure s) 0 with done | more
      · exact ⟨[], s, List.nil_prefix, rfl, done⟩
      · obtain ⟨u, move, kept, lower⟩ := lowers s b start more
        rw [List.length_cons] at h
        obtain ⟨used, t, hused, tail, done⟩ := ih kept (by omega)
        exact ⟨b :: used, t, List.cons_prefix_cons.mpr ⟨rfl, hused⟩,
          exec_cons_eq_some.mpr ⟨u, move, tail⟩, done⟩

/-- The progress rule: if a step that keeps the invariant is possible wherever it holds, there
are runs of any length. -/
theorem exec_of_progress {step : σ → α → Option σ} {I : σ → Prop}
    (progress : ∀ s, I s → ∃ a t, step s a = some t ∧ I t) (n : Nat) {s : σ} (start : I s) :
    ∃ acts t, acts.length = n ∧ exec step s acts = some t ∧ I t := by
  induction n generalizing s with
  | zero => exact ⟨[], s, rfl, rfl, start⟩
  | succ n ih =>
      obtain ⟨a, u, move, kept⟩ := progress s start
      obtain ⟨acts, t, hlength, tail, last⟩ := ih kept
      exact ⟨a :: acts, t, congrArg Nat.succ hlength, exec_cons_eq_some.mpr ⟨u, move, tail⟩, last⟩

/-! ## Runs whose steps all meet a condition -/

/-- The steps of `step` taken in a state, and by an action, that meet `good`. -/
def guarded (good : σ → α → Prop) [∀ s a, Decidable (good s a)]
    (step : σ → α → Option σ) : σ → α → Option σ :=
  fun s a => if good s a then step s a else none

theorem guarded_eq_some {good : σ → α → Prop} [∀ s a, Decidable (good s a)]
    {step : σ → α → Option σ} {s t : σ} {a : α} :
    guarded good step s a = some t ↔ good s a ∧ step s a = some t := by
  by_cases h : good s a <;> simp [guarded, h]

/-- If good steps keep the invariant, and what a bad one leads to does not have the property,
the property holds all along a run exactly when all of its steps are good. -/
theorem exec_forall_iff {step : σ → α → Option σ} {I P : σ → Prop} {good : α → Prop}
    (has : ∀ s, I s → P s) (keeps : ∀ s a t, I s → step s a = some t → good a → I t)
    (shows : ∀ s a t, I s → step s a = some t → P t → good a)
    {acts : List α} {s u : σ} (start : I s) (run : exec step s acts = some u) :
    (∀ n t, exec step s (acts.take n) = some t → P t) ↔ ∀ a ∈ acts, good a := by
  induction acts generalizing s with
  | nil =>
      refine iff_of_true (fun n t h => ?_) (fun a h => absurd h List.not_mem_nil)
      rw [List.take_nil] at h
      exact Option.some.inj h ▸ has s start
  | cons a acts ih =>
      obtain ⟨v, move, tail⟩ := exec_cons_eq_some.mp run
      constructor
      · intro h
        have hgood := shows s a v start move (h 1 v (exec_cons_eq_some.mpr ⟨v, move, rfl⟩))
        have hrest := (ih (keeps s a v start move hgood) tail).mp fun n t hn => h (n + 1) t
          (exec_cons_eq_some.mpr ⟨v, move, hn⟩)
        exact List.forall_mem_cons.mpr ⟨hgood, hrest⟩
      · intro h n t hn
        obtain ⟨hgood, hrest⟩ := List.forall_mem_cons.mp h
        cases n with
        | zero => exact Option.some.inj hn ▸ has s start
        | succ n =>
            obtain ⟨w, hmove, htail⟩ := exec_cons_eq_some.mp hn
            obtain rfl := Option.some.inj (hmove.symm.trans move)
            exact (ih (keeps s a w start move hgood) tail).mpr hrest n t htail

/-- If a step keeps the invariant exactly when it is good, the invariant holds all along
a run exactly when all of its steps are good. -/
theorem exec_invariant_iff {step : σ → α → Option σ} {I : σ → Prop} {good : α → Prop}
    (exact_ : ∀ s a t, I s → step s a = some t → (I t ↔ good a))
    {acts : List α} {s u : σ} (start : I s) (run : exec step s acts = some u) :
    (∀ n t, exec step s (acts.take n) = some t → I t) ↔ ∀ a ∈ acts, good a :=
  exec_forall_iff (fun _ h => h) (fun s a t hs move => (exact_ s a t hs move).mpr)
    (fun s a t hs move => (exact_ s a t hs move).mp) start run

/-! ## Two runs side by side -/

/-- The relational rule: two programs that take the same actions end in related
states when every pair of steps keeps the relation. -/
theorem exec_related {first second : σ → α → Option σ} {R : σ → σ → Prop}
    (preserved : ∀ s t a s' t', R s t → first s a = some s' → second t a = some t' → R s' t')
    {acts : List α} {s t s' t' : σ} (start : R s t)
    (left : exec first s acts = some s') (right : exec second t acts = some t') : R s' t' := by
  induction acts generalizing s t with
  | nil =>
      simp only [exec, Option.some.injEq] at left right
      exact left ▸ right ▸ start
  | cons a acts ih =>
      obtain ⟨u, moveLeft, tailLeft⟩ := exec_cons_eq_some.mp left
      obtain ⟨v, moveRight, tailRight⟩ := exec_cons_eq_some.mp right
      exact ih (preserved _ _ _ _ _ start moveLeft moveRight) tailLeft tailRight

/-! ## Runs driven from outside -/

section Delivered

variable {ε ν : Type}

/-- A run that takes one action for each of the events, one that delivers it. -/
inductive Delivered (step : σ → α → Option σ) (delivers : σ → ε → α → Prop) :
    σ → List ε → σ → Prop
  | nil (s : σ) : Delivered step delivers s [] s
  | cons {s t u : σ} {e : ε} {a : α} {es : List ε} (event : delivers s e a)
      (move : step s a = some t) (rest : Delivered step delivers t es u) :
      Delivered step delivers s (e :: es) u

variable {step : σ → α → Option σ} {delivers : σ → ε → α → Prop} {spec : ν → ε → Option ν}
  {R : σ → ν → Prop}

/-- Every run over the events is matched by the specification. -/
theorem Delivered.sound
    (step_sound : ∀ s v e a t, R s v → delivers s e a → step s a = some t →
      ∃ w, spec v e = some w ∧ R t w)
    {s t : σ} {v : ν} {es : List ε} (start : R s v) (run : Delivered step delivers s es t) :
    ∃ w, exec spec v es = some w ∧ R t w := by
  induction run generalizing v with
  | nil s => exact ⟨v, rfl, start⟩
  | cons event move _ ih =>
      obtain ⟨w, hspec, hR⟩ := step_sound _ _ _ _ _ start event move
      obtain ⟨x, htail, hend⟩ := ih hR
      exact ⟨x, exec_cons_eq_some.mpr ⟨w, hspec, htail⟩, hend⟩

/-- What the specification does, some run over the events does. -/
theorem Delivered.complete
    (step_sound : ∀ s v e a t, R s v → delivers s e a → step s a = some t →
      ∃ w, spec v e = some w ∧ R t w)
    (enabled : ∀ s v e w, R s v → spec v e = some w → ∃ a t, delivers s e a ∧ step s a = some t)
    {s : σ} {v w : ν} {es : List ε} (start : R s v) (run : exec spec v es = some w) :
    ∃ t, Delivered step delivers s es t ∧ R t w := by
  induction es generalizing s v with
  | nil =>
      obtain rfl := Option.some.inj run
      exact ⟨s, .nil s, start⟩
  | cons e es ih =>
      obtain ⟨x, hspec, htail⟩ := exec_cons_eq_some.mp run
      obtain ⟨a, t, event, move⟩ := enabled _ _ _ _ start hspec
      obtain ⟨y, hy, hR⟩ := step_sound _ _ _ _ _ start event move
      obtain rfl := Option.some.inj (hy.symm.trans hspec)
      obtain ⟨u, hrest, hend⟩ := ih hR htail
      exact ⟨u, .cons event move hrest, hend⟩

end Delivered

/-! ## Infinite runs -/

/-- An infinite run from `s`; a moment without an action leaves the state alone. -/
structure Trace (step : σ → α → Option σ) (s : σ) where
  /-- The state at each moment. -/
  state : Nat → σ
  /-- The action taken at each moment, if any. -/
  act : Nat → Option α
  start : state 0 = s
  idle : ∀ n, act n = none → state (n + 1) = state n
  move : ∀ n a, act n = some a → step (state n) a = some (state (n + 1))

namespace Trace

variable {step : σ → α → Option σ} {s : σ}

theorem reaches (tr : Trace step s) (n : Nat) : Reaches step s (tr.state n) := by
  induction n with
  | zero => rw [tr.start]; exact .refl
  | succ n ih =>
      cases h : tr.act n with
      | none => rw [tr.idle n h]; exact ih
      | some a => exact .tail ih (tr.move n a h)

/-- What no step undoes, once true, stays true. -/
theorem stable {P : σ → Prop} (tr : Trace step s)
    (preserved : ∀ n a, tr.act n = some a → P (tr.state n) → P (tr.state (n + 1)))
    {n m : Nat} (h : n ≤ m) (now : P (tr.state n)) : P (tr.state m) := by
  induction h with
  | refl => exact now
  | @step m _ ih =>
      cases hact : tr.act m with
      | none => rw [tr.idle m hact]; exact ih
      | some a => exact preserved m a hact ih

/-- The measure rule.  While `P` holds no step increases `μ` and a helpful action
decreases it, unless the step ends `P`; and as long as `P` holds a helpful action
will come.  Then `P` does not hold for ever. -/
theorem eventually_not (tr : Trace step s) {P : σ → Prop} (μ : σ → Nat) (helpful : α → Prop)
    (stays : ∀ n a, tr.act n = some a → P (tr.state n) → P (tr.state (n + 1)) →
      μ (tr.state (n + 1)) ≤ μ (tr.state n) ∧
        (helpful a → μ (tr.state (n + 1)) < μ (tr.state n)))
    (fair : ∀ n, (∀ m, n ≤ m → P (tr.state m)) →
      ∃ m a, n ≤ m ∧ tr.act m = some a ∧ helpful a)
    (n : Nat) : ∃ m, n ≤ m ∧ ¬ P (tr.state m) := by
  by_contra hnever
  have always : ∀ m, n ≤ m → P (tr.state m) := by
    intro m hm
    by_contra hcon
    exact hnever ⟨m, hm, hcon⟩
  have antitone : ∀ m k, n ≤ m → μ (tr.state (m + k)) ≤ μ (tr.state m) := by
    intro m k hm
    induction k with
    | zero => exact Nat.le_refl _
    | succ k ih =>
        cases hact : tr.act (m + k) with
        | none => rw [← Nat.add_assoc, tr.idle (m + k) hact]; exact ih
        | some a =>
            have hstay := stays (m + k) a hact (always (m + k) (by omega))
              (always (m + k + 1) (by omega))
            exact Nat.le_trans hstay.1 ih
  -- The measure falls below every value it takes.
  have descend : ∀ b m, n ≤ m → b ≤ μ (tr.state m) := by
    intro b
    induction b with
    | zero => intro m _; exact Nat.zero_le _
    | succ b ih =>
        intro m hm
        obtain ⟨k, a, hk, hact, hhelp⟩ := fair m fun j hj => always j (by omega)
        have hfall := (stays k a hact (always k (by omega)) (always (k + 1) (by omega))).2 hhelp
        have hle := antitone m (k - m) hm
        rw [Nat.add_sub_cancel' hk] at hle
        have hbound := ih (k + 1) (by omega)
        omega
  have hself := descend (μ (tr.state n) + 1) n (Nat.le_refl n)
  omega

/-- A finite run, after which nothing happens any more. -/
def ofExec {t : σ} {acts : List α} (h : exec step s acts = some t) : Trace step s where
  state := fun n => (exec step s (acts.take n)).getD s
  act := fun n => acts[n]?
  start := rfl
  idle := by
    intro n hnone
    have hle : acts.length ≤ n := List.getElem?_eq_none_iff.mp hnone
    rw [List.take_of_length_le hle, List.take_of_length_le (Nat.le_succ_of_le hle)]
  move := by
    intro n a hact
    have hsplit : acts = acts.take n ++ a :: acts.drop (n + 1) := by
      obtain ⟨hlt, rfl⟩ := List.getElem?_eq_some_iff.mp hact
      rw [List.getElem_cons_drop, List.take_append_drop]
    have htake : acts.take (n + 1) = acts.take n ++ [a] := by
      rw [List.take_add_one, hact, Option.toList_some]
    obtain ⟨u, hu, htail⟩ := exec_append_eq_some.mp (hsplit ▸ h)
    obtain ⟨v, move, -⟩ := exec_cons_eq_some.mp htail
    have hv : exec step s (acts.take n ++ [a]) = some v := by
      rw [exec_append _ hu, exec_cons_eq_some]
      exact ⟨v, move, rfl⟩
    rw [htake, hu, hv]
    exact move

theorem ofExec_state {t : σ} {acts : List α} (h : exec step s acts = some t) {n : Nat}
    (hn : acts.length ≤ n) : (ofExec h).state n = t := by
  change (exec step s (acts.take n)).getD s = t
  rw [List.take_of_length_le hn, h]
  rfl

end Trace

end NetworkProgram.Foundation
