import NetworkProgram.Flex.Tokens

set_option autoImplicit false

/-!
# Flex: the rules that the tables stand for

`Reads` joins the checks of the tables with the rules of the scanner, the default rule
behind them.  The calls of `yylex` return the tokens of the text one by one, and then
`YY_NULL`; what is echoed is what no rule matches (`yylexCalls_eq`).
-/

namespace NetworkProgram.Flex

open NetworkProgram.Foundation
open NetworkProgram.Libc

variable {τ : Type}

/-- What the action does with a match, as an event. -/
def LexAction.event : LexAction τ → Bytes → Option (Event UInt8 τ)
  | token make, text => some (.token (make text))
  | skip, _ => none
  | echo, text => some (.echo text)

/-- The tables of the scanner read the rules, and its actions are those of the rules. -/
structure Reads (S : Scanner τ) (rules : List (Rule UInt8 τ)) extends Checked S where
  patterns : List (Pattern UInt8)
  simulation : Simulation S.tables.automaton patterns
  describes : List.Forall₂ Pattern.Describes patterns (eventRules rules)
  actions_eq : S.actions.map LexAction.event = (eventRules rules).map Rule.token

namespace Reads

variable {S : Scanner τ} {rules : List (Rule UInt8 τ)} (R : Reads S rules) {p : Bytes}
include R

theorem munch_pos (hp : p ≠ []) :
    0 < (S.tables.automaton.munch S.tables.automaton.start p).1 := by
  obtain ⟨c, rest, rfl⟩ := List.exists_cons_of_ne_nil hp
  refine Nat.pos_of_ne_zero fun hzero => ?_
  have hnone := R.simulation.longest_none R.describes hzero
  rw [longest_eventRules] at hnone
  cases hnone

/-- One match: the longest there is, with the action of the first of its rules. -/
theorem scan_eq (hp : p ≠ []) :
    ∃ action, S.action p = some action ∧
      scan (eventRules rules) p =
        (action.event (p.take (S.longest p))).toList ++
          scan (eventRules rules) (p.drop (S.longest p)) := by
  obtain ⟨c, rest, rfl⟩ := List.exists_cons_of_ne_nil hp
  obtain ⟨i, r, haccept, hr, hlongest⟩ := R.simulation.longest_some R.describes (R.munch_pos hp)
  obtain ⟨act, hact, hi⟩ := Option.map_eq_some_iff.mp haccept
  obtain ⟨hact, hne⟩ := Option.filter_eq_some_iff.mp hact
  have hactions : (S.actions[i]?).map LexAction.event = some r.token := by
    rw [← List.getElem?_map, R.actions_eq, List.getElem?_map, hr]
    rfl
  obtain ⟨action, haction, hevent⟩ := Option.map_eq_some_iff.mp hactions
  refine ⟨action, ?_, ?_⟩
  · rw [Scanner.action]
    change (S.tables.accept[(S.tables.automaton.munch S.tables.automaton.start _).2]?).bind _ = _
    rw [hact, Option.bind_some, hi]
    exact haction
  · rw [scan_cons, hlongest, hevent]
    rfl

/-- What a call takes from the tokens and from what is echoed. -/
theorem lexes_eq {out rest : Bytes} {t : Option τ} (h : Lexes S p out t rest) :
    scan rules p = t.toList ++ scan rules rest ∧
      echoed rules p = out ++ echoed rules rest ∧ (t = none → rest = []) ∧ rest <:+ p := by
  -- What the first match adds to the tokens and to what is echoed.
  have hstep : ∀ {p : Bytes} {action : LexAction τ}, p ≠ [] → S.action p = some action →
      scan rules p = ((action.event (p.take (S.longest p))).toList.filterMap Event.token?) ++
        scan rules (p.drop (S.longest p)) ∧
      echoed rules p =
        ((action.event (p.take (S.longest p))).toList.filterMap Event.echo?).flatten ++
          echoed rules (p.drop (S.longest p)) := by
    intro p action hp haction
    obtain ⟨action', haction', hscan⟩ := R.scan_eq hp
    obtain rfl := Option.some.inj (haction.symm.trans haction')
    constructor
    · rw [← tokens_eventRules, hscan, List.filterMap_append, tokens_eventRules]
    · rw [echoed, hscan, List.filterMap_append, List.flatten_append]
      rfl
  induction h with
  | eof => exact ⟨rfl, rfl, fun _ => rfl, List.suffix_rfl⟩
  | token text rule =>
      obtain ⟨htokens, hecho⟩ := hstep text rule
      exact ⟨htokens, hecho, fun hnone => (by cases hnone), List.drop_suffix _ _⟩
  | skip text rule later ih =>
      obtain ⟨htokens, hecho⟩ := hstep text rule
      exact ⟨htokens.trans ih.1, hecho.trans ih.2.1, ih.2.2.1,
        ih.2.2.2.trans (List.drop_suffix _ _)⟩
  | echo text rule later ih =>
      obtain ⟨htokens, hecho⟩ := hstep text rule
      refine ⟨htokens.trans ih.1, ?_, ih.2.2.1, ih.2.2.2.trans (List.drop_suffix _ _)⟩
      rw [hecho, ih.2.1, List.append_assoc]
      simp [LexAction.event, Event.echo?]

end Reads

/-! ## Calls -/

/-- A new scanner has the whole text before it. -/
theorem Checked.create_eq {S : Scanner τ} (C : Checked S) (heap : Heap) {contents : Nat → UInt8}
    (h : heap (S.initialSize + 2) = some contents) (text : Bytes) :
    ∃ s, S.create heap text = some (some s) ∧ S.At .top s text ∧ s.yyout = [] ∧
      Scanner.weight .top s text = 4 * text.length + 1 ∧ s.bufSize = S.initialSize := by
  have hsize := C.size_le
  have hlen := length_block contents (S.initialSize + 2)
  obtain ⟨c, tail, hcons⟩ := List.exists_cons_of_length_eq_add_one hlen
  rw [hcons, List.length_cons] at hlen
  obtain ⟨d, rest, rfl⟩ := List.exists_cons_of_length_eq_add_one (Nat.succ.inj hlen)
  have hrest : rest.length = S.initialSize := Nat.succ.inj (Nat.succ.inj hlen)
  obtain ⟨s, hs, hrestart⟩ : ∃ s : Scan, S.create heap text = some (some s) ∧
      s = ⟨0 :: 0 :: rest, S.initialSize, 0, .fresh, 0, 0, 0, 0, 0, 0, text, []⟩ := by
    refine ⟨_, ?_, rfl⟩
    rw [Scanner.create, malloc, h, Option.map_some, Option.map_some, hcons]
    exact congrArg some (Scan.restart_eq rfl)
  subst hrestart
  refine ⟨_, hs, ⟨0 :: 0 :: rest, [], rfl, ?_, Nat.zero_le _, rfl⟩, rfl, ?_, rfl⟩
  · exact ⟨⟨rest, rfl, (Nat.zero_add _).trans hrest⟩, rfl, fun _ => rfl, nofun, hsize⟩
  · change 3 * text.length + text.length + 1 = _
    omega

/-- The first `k` calls of `yylex`. -/
def Scanner.yylexCalls (S : Scanner τ) (source : Source) (heap : Heap) (fuel : Nat) :
    Nat → Scan → Option (List (Option τ) × Scan)
  | 0, s => some ([], s)
  | k + 1, s => do
      let (next, s) ← S.yylexFrom source heap fuel .top s
      match next with
      | .ret t => (S.yylexCalls source heap fuel k s).map fun r => (t :: r.1, r.2)
      | _ => none

namespace Reads

variable {S : Scanner τ} {rules : List (Rule UInt8 τ)} (R : Reads S rules) (source : Source)
  (heap : Heap) {fuel : Nat}
include R

/-- The calls return the tokens of the text in their order and then `YY_NULL` for ever, however
the text is cut by the reads; nothing of it is lost. -/
theorem yylexCalls_eq (hsound : ¬ Fails source heap) (k : Nat) {s : Scan} {p : Bytes}
    (hplace : S.At .top s p) (hfuel : Scanner.weight .top s p < fuel) :
    ∃ s' rest, S.yylexCalls source heap fuel k s =
        some ((List.range k).map fun i => (scan rules p)[i]?, s') ∧
      S.At .top s' rest ∧ rest <:+ p ∧ scan rules rest = (scan rules p).drop k ∧
      s.yyout ++ echoed rules p = s'.yyout ++ echoed rules rest ∧
      ((scan rules p).length < k → rest = []) := by
  induction k generalizing s p with
  | zero =>
      exact ⟨s, p, rfl, hplace, List.suffix_rfl, rfl, rfl, fun h => absurd h (Nat.not_lt_zero _)⟩
  | succ k ih =>
      obtain ⟨t, s₁, out, rest, hcall, hlexes, hplace₁, hout, hweight⟩ | ⟨-, hfails⟩ :=
        R.yylexFrom_eq source heap hplace hfuel
      · obtain ⟨s', rest', hcalls, hplace', hsuffix, htokens, hecho, hend⟩ :=
          ih hplace₁ (Nat.lt_of_le_of_lt hweight hfuel)
        obtain ⟨hscan, hechoed, hnone, hleft⟩ := R.lexes_eq hlexes
        have hkeep : s.yyout ++ echoed rules p = s'.yyout ++ echoed rules rest' := by
          rw [hechoed, ← List.append_assoc, ← hout, hecho]
        have hrun : S.yylexCalls source heap fuel (k + 1) s =
            some (t :: (List.range k).map fun i => (scan rules rest)[i]?, s') := by
          rw [Scanner.yylexCalls, hcall, Option.bind_eq_bind, Option.bind_some]
          dsimp only
          rw [hcalls, Option.map_some]
        rw [hrun, List.range_succ_eq_map, List.map_cons, List.map_map]
        cases t with
        | none =>
            obtain rfl := hnone rfl
            obtain rfl := List.suffix_nil.mp hsuffix
            have hempty : scan rules p = [] := hscan
            refine ⟨s', [], ?_, hplace', hleft, ?_, hkeep, fun _ => rfl⟩
            · rw [hempty]
              rfl
            · rw [hempty]
              rfl
        | some v =>
            have hcons : scan rules p = v :: scan rules rest := hscan
            refine ⟨s', rest', ?_, hplace', hsuffix.trans hleft, ?_, hkeep, fun hlt => hend ?_⟩
            · rw [hcons]
              rfl
            · rw [hcons, List.drop_succ_cons]
              exact htokens
            · rw [hcons, List.length_cons] at hlt
              exact Nat.lt_of_succ_lt_succ hlt
      · exact absurd hfails hsound

end Reads

end NetworkProgram.Flex
