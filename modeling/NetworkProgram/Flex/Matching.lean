import NetworkProgram.Flex.Skeleton

set_option autoImplicit false

/-!
# Flex: what `yy_match` finds

`Checked` is what is asked of the tables of a scanner, state by state and symbol by symbol.
The loop of `yy_match` then comes as far as the automaton in the tables does, or to the
first NUL in the buffer (`yyMatch_eq`), and `yy_get_previous_state` finds the state again
that it was in there (`previousFrom_eq`).
-/

namespace NetworkProgram.Flex

open NetworkProgram.Foundation
open NetworkProgram.Libc

variable {τ : Type}

def LexAction.isToken : LexAction τ → Bool
  | token _ => true
  | _ => false

/-- The states that texts lead to and the state behind the end of the buffer.  Every state
but the start accepts, so that the scanner never backs up over more than one symbol, and
from the start every symbol leads on: there is a default rule. -/
structure Checked (S : Scanner τ) where
  states : List Nat
  classes : List Nat
  eob : Nat
  start_mem : 1 ∈ states
  start_accept : S.tables.accept[1]? = some 0
  accept_mem : ∀ s ∈ states, s ≠ 1 → ∃ act ∈ S.tables.accept[s]?, act ≠ 0 ∧
    act ≠ S.tables.endOfBuffer ∧ act ≤ S.actions.length
  symbol_mem : ∀ c : UInt8, ∃ k ∈ S.tables.symbol c, k ∈ classes
  next_eq : ∀ s ∈ states, ∀ k ∈ classes, ∃ t ∈ S.tables.goto s k,
    t = S.tables.jam ∧ s ≠ 1 ∨ t ≠ S.tables.jam ∧ t ∈ states ∧ t ≠ 1
  stops : ∀ s ∈ states, ∃ base ∈ S.tables.base[s]?,
    base = S.tables.jamBase → ∀ k ∈ classes, S.tables.goto s k = some S.tables.jam
  ends : ∀ s ∈ states, S.tables.goto s 0 = some eob
  nul_eq : S.tables.ec[0]? = some 0
  eob_next : ∀ k ∈ 0 :: classes, S.tables.goto eob k = some S.tables.jam
  eob_accept : S.tables.accept[eob]? = some S.tables.endOfBuffer
  eob_mem : ∃ base ∈ S.tables.base[eob]?, base ≠ S.tables.jamBase
  endOfBuffer_ne : S.tables.endOfBuffer ≠ 0
  /-- A NUL makes no token: what it leads to is read alone. -/
  nul_next : ∀ s ∈ states, ∀ t ∈ S.tables.goto s 1, t ≠ S.tables.jam →
    (∀ k ∈ classes, S.tables.goto t k = some S.tables.jam) ∧
      ∀ act ∈ S.tables.accept[t]?, ∀ action ∈ S.actions[act - 1]?, action.isToken = false
  jam_accept : S.tables.accept[S.tables.jam]? = some 0
  jam_base : S.tables.base[S.tables.jam]? = some S.tables.jamBase
  size_le : 16 ≤ S.initialSize
  read_pos : 0 < S.readBufSize

/-- Other values of the two variables that remember the last match. -/
def Scan.noted (s : Scan) (state cp : Nat) : Scan :=
  { s with lastAcceptingState := state, lastAcceptingCpos := cp }

@[simp] theorem Scan.noted_noted (s : Scan) (a b a' b' : Nat) :
    (s.noted a b).noted a' b' = s.noted a' b' := rfl

namespace Checked

variable {S : Scanner τ} (C : Checked S) {state : Nat}

theorem accepts (hstate : state ∈ C.states) (hne : state ≠ 1) :
    ∃ act, S.tables.accept[state]? = some act ∧ act ≠ 0 ∧ act ≠ S.tables.endOfBuffer ∧
      act ≤ S.actions.length := C.accept_mem state hstate hne

theorem eob_base : ∃ base, S.tables.base[C.eob]? = some base ∧ base ≠ S.tables.jamBase :=
  C.eob_mem

omit C in
theorem next_of_goto {c : UInt8} {k t : Nat} (hk : S.tables.symbol c = some k)
    (ht : S.tables.goto state k = some t) :
    S.tables.automaton.next state c = if t = S.tables.jam then none else some t := by
  change ((S.tables.symbol c).bind fun k => S.tables.goto state k).filter _ = _
  rw [hk, Option.bind_some, ht]
  by_cases hjam : t = S.tables.jam <;> simp [Option.filter, hjam]

/-- A symbol leads on, or the automaton jams. -/
theorem next_cases (hstate : state ∈ C.states) (c : UInt8) :
    ∃ k, S.tables.symbol c = some k ∧
      ((S.tables.goto state k = some S.tables.jam ∧ S.tables.automaton.next state c = none ∧
          state ≠ 1) ∨
        ∃ t, S.tables.goto state k = some t ∧ S.tables.automaton.next state c = some t ∧
          t ∈ C.states ∧ t ≠ 1) := by
  obtain ⟨k, hk, hmem⟩ := C.symbol_mem c
  obtain ⟨t, ht, hcases⟩ := C.next_eq state hstate k hmem
  have hnext := next_of_goto hk ht
  refine ⟨k, hk, ?_⟩
  obtain ⟨rfl, hne⟩ | ⟨hjam, hmem, hne⟩ := hcases
  · exact .inl ⟨ht, by rw [hnext, if_pos rfl], hne⟩
  · exact .inr ⟨t, ht, by rw [hnext, if_neg hjam], hmem, hne⟩

theorem next_none_of_stop (h : S.tables.base[state]? = some S.tables.jamBase)
    (hstate : state ∈ C.states) (c : UInt8) : S.tables.automaton.next state c = none := by
  obtain ⟨base, hbase, hstop⟩ := C.stops state hstate
  obtain ⟨k, hk, hmem⟩ := C.symbol_mem c
  have hjam := hstop (Option.some.inj (hbase.symm.trans h)) k hmem
  rw [next_of_goto hk hjam, if_pos rfl]

theorem eob_jam (c : UInt8) :
    ∃ k, S.tables.ec[c.toNat]? = some k ∧ S.tables.goto C.eob k = some S.tables.jam := by
  by_cases hc : c = 0
  · subst hc
    exact ⟨0, C.nul_eq, C.eob_next 0 List.mem_cons_self⟩
  · obtain ⟨k, hk, hmem⟩ := C.symbol_mem c
    rw [ScanTables.symbol, if_neg hc] at hk
    exact ⟨k, hk, C.eob_next k (List.mem_cons_of_mem _ hmem)⟩

theorem note_eq (hstate : state ∈ C.states) (cp : Nat) (s : Scan) :
    ∃ a b, S.note state cp s = some (s.noted a b) ∧ (state ≠ 1 → a = state ∧ b = cp) := by
  by_cases hone : state = 1
  · subst hone
    exact ⟨s.lastAcceptingState, s.lastAcceptingCpos, by rw [Scanner.note, C.start_accept]; rfl,
      fun h => absurd rfl h⟩
  · obtain ⟨act, hact, hne, -⟩ := C.accepts hstate hone
    exact ⟨state, cp, by rw [Scanner.note, hact]; simp [hne, Scan.noted], fun _ => ⟨rfl, rfl⟩⟩

theorem run_mem {text : Bytes} {t : Nat} (hstate : state ∈ C.states)
    (h : S.tables.automaton.run state text = some t) : t ∈ C.states := by
  induction text generalizing state with
  | nil =>
      obtain rfl := Option.some.inj h
      exact hstate
  | cons c text ih =>
      obtain ⟨u, hu, hrest⟩ := Option.bind_eq_some_iff.mp h
      obtain ⟨k, -, ⟨-, hnone, -⟩ | ⟨t', -, ht', hmem, -⟩⟩ := C.next_cases hstate c
      · rw [hnone] at hu
        cases hu
      · rw [ht'] at hu
        obtain rfl := Option.some.inj hu
        exact ih hmem hrest

/-- Nothing leads back to the start. -/
theorem run_ne_start {text : Bytes} {t : Nat} (hstate : state ∈ C.states)
    (h : S.tables.automaton.run state text = some t) (htext : text ≠ []) : t ≠ 1 := by
  obtain rfl | ⟨before, c, rfl⟩ := List.eq_nil_or_concat' text
  · exact absurd rfl htext
  rw [Automaton.run_append] at h
  obtain ⟨u, hu, hlast⟩ := Option.bind_eq_some_iff.mp h
  obtain ⟨t', ht', hlast⟩ := Option.bind_eq_some_iff.mp hlast
  obtain rfl := Option.some.inj hlast
  obtain ⟨k, -, ⟨-, hnone, -⟩ | ⟨t'', -, ht'', -, hne⟩⟩ := C.next_cases (C.run_mem hstate hu) c
  · rw [hnone] at ht'
    cases ht'
  · rw [ht''] at ht'
    exact Option.some.inj ht' ▸ hne

end Checked

/-! ## `yy_match` -/

/-- How far `yy_match` comes in a buffer with these data: the number of symbols, the state,
and whether it stopped at a NUL or at the end of the data. -/
def Scanner.seek (S : Scanner τ) : Nat → Bytes → Nat × Nat × Bool
  | state, [] => (0, state, true)
  | state, c :: data =>
      if c = 0 then (0, state, true)
      else
        match S.tables.automaton.next state c with
        | none => (0, state, false)
        | some t =>
            if S.tables.base[t]? = some S.tables.jamBase then (1, t, false)
            else
              let found := S.seek t data
              (found.1 + 1, found.2)

/-- `yy_act` and the place behind the match. -/
def Scanner.Found (S : Scanner τ) (cp : Nat) (found : Nat × Nat × Bool) (act pos : Nat) : Prop :=
  if found.2.2 then act = S.tables.endOfBuffer ∧ pos = cp + found.1 + 1
  else S.tables.accept[found.2.1]? = some act ∧ pos = cp + found.1

namespace Checked

variable {S : Scanner τ} (C : Checked S) {state : Nat}

omit C in
theorem yyMatch_cons {c : UInt8} {rest : Bytes} {k t base cp : Nat} {s s' : Scan}
    (hk : S.tables.ec[c.toNat]? = some k) (hnote : S.note state cp s = some s')
    (hgoto : S.tables.goto state k = some t) (hbase : S.tables.base[t]? = some base) :
    S.yyMatch (c :: rest) cp state s =
      if base = S.tables.jamBase then some (cp + 1, t, s') else S.yyMatch rest (cp + 1) t s' := by
  simp only [Scanner.yyMatch, hk, hnote, hgoto, hbase, Option.bind_eq_bind, Option.bind_some]

include C

/-- At a NUL the scanner takes one step more, which jams, whatever stands there. -/
theorem yyMatch_nul (hstate : state ∈ C.states) (c : UInt8) (rest : Bytes) (cp : Nat) (s : Scan) :
    S.yyMatch (0 :: c :: rest) cp state s =
        some (cp + 2, S.tables.jam, s.noted C.eob (cp + 1)) ∧
      S.backUp (cp + 2) S.tables.jam (s.noted C.eob (cp + 1)) =
        some (S.tables.endOfBuffer, cp + 1) := by
  obtain ⟨a, b, hnote, -⟩ := C.note_eq hstate cp s
  obtain ⟨base, hbase, hne⟩ := C.eob_base
  obtain ⟨k, hk, hjam⟩ := C.eob_jam c
  have heob : S.note C.eob (cp + 1) (s.noted a b) = some (s.noted C.eob (cp + 1)) := by
    rw [Scanner.note, C.eob_accept]
    simp [C.endOfBuffer_ne, Scan.noted]
  constructor
  · rw [yyMatch_cons C.nul_eq hnote (C.ends state hstate) hbase, if_neg hne,
      yyMatch_cons hk heob hjam C.jam_base, if_pos rfl]
  · simp [Scanner.backUp, C.jam_accept, Scan.noted, C.eob_accept]

/-- Behind the data stand two bytes that end the buffer. -/
theorem yyMatch_eq (hstate : state ∈ C.states) (data tail : Bytes) (cp : Nat) (s : Scan) :
    ∃ cp' state' a b act pos, S.yyMatch (data ++ 0 :: 0 :: tail) cp state s =
        some (cp', state', s.noted a b) ∧
      S.backUp cp' state' (s.noted a b) = some (act, pos) ∧
      S.Found cp (S.seek state data) act pos := by
  induction data generalizing state cp s with
  | nil =>
      obtain ⟨hmatch, hback⟩ := C.yyMatch_nul hstate 0 tail cp s
      exact ⟨_, _, _, _, _, _, hmatch, hback, rfl, rfl⟩
  | cons c data ih =>
      by_cases hc : c = 0
      · subst hc
        obtain ⟨d, rest, hrest⟩ : ∃ d rest, data ++ 0 :: 0 :: tail = d :: rest := by
          cases data with
          | nil => exact ⟨0, 0 :: tail, rfl⟩
          | cons d data => exact ⟨d, data ++ 0 :: 0 :: tail, rfl⟩
        obtain ⟨hmatch, hback⟩ := C.yyMatch_nul hstate d rest cp s
        rw [List.cons_append, hrest]
        exact ⟨_, _, _, _, _, _, hmatch, hback, rfl, rfl⟩
      obtain ⟨a, b, hnote, hlast⟩ := C.note_eq hstate cp s
      obtain ⟨k, hk, hcases⟩ := C.next_cases hstate c
      rw [ScanTables.symbol, if_neg hc] at hk
      rw [List.cons_append, Scanner.seek, if_neg hc]
      obtain ⟨hjam, hnone, hne⟩ | ⟨t, ht, hnext, hmem, hne⟩ := hcases
      · -- The automaton jams, and the scanner backs up over the symbol.
        obtain ⟨rfl, rfl⟩ := hlast hne
        obtain ⟨act, hact, -⟩ := C.accepts hstate hne
        rw [hnone, yyMatch_cons hk hnote hjam C.jam_base, if_pos rfl]
        refine ⟨_, _, _, _, act, b, rfl, ?_, hact, rfl⟩
        simp [Scanner.backUp, C.jam_accept, Scan.noted, hact]
      obtain ⟨base, hbase⟩ : ∃ base, S.tables.base[t]? = some base :=
        (C.stops t hmem).imp fun _ h => h.1
      obtain ⟨act, hact, hzero, -⟩ := C.accepts hmem hne
      rw [hnext, yyMatch_cons hk hnote ht hbase]
      dsimp only
      rw [hbase]
      by_cases hstop : base = S.tables.jamBase
      · rw [if_pos hstop, if_pos (congrArg some hstop)]
        refine ⟨_, _, _, _, act, cp + 1, rfl, ?_, hact, rfl⟩
        simp [Scanner.backUp, hact, hzero]
      · rw [if_neg hstop, if_neg fun heq => hstop (Option.some.inj heq)]
        obtain ⟨cp', state', a', b', act', pos, hmatch, hback, hfound⟩ :=
          ih hmem (cp + 1) (s.noted a b)
        refine ⟨cp', state', a', b', act', pos, hmatch, hback, ?_⟩
        simp only [Scanner.Found] at hfound ⊢
        split at hfound
        · rw [if_pos ‹_›]
          omega
        · rw [if_neg ‹_›]
          refine ⟨hfound.1, hfound.2.trans ?_⟩
          omega

/-! ## What was found -/

theorem seek_run (hstate : state ∈ C.states) (data : Bytes) :
    (S.seek state data).1 ≤ data.length ∧
      S.tables.automaton.run state (data.take (S.seek state data).1) =
        some (S.seek state data).2.1 := by
  induction data generalizing state with
  | nil => exact ⟨Nat.le_refl 0, rfl⟩
  | cons c data ih =>
      rw [Scanner.seek]
      split
      · exact ⟨Nat.zero_le _, rfl⟩
      cases hnext : S.tables.automaton.next state c with
      | none => exact ⟨Nat.zero_le _, rfl⟩
      | some t =>
          obtain ⟨k, -, ⟨-, hnone, -⟩ | ⟨t', -, hnext', hmem, -⟩⟩ := C.next_cases hstate c
          · rw [hnone] at hnext
            cases hnext
          obtain rfl := Option.some.inj (hnext.symm.trans hnext')
          dsimp only
          split
          · exact ⟨Nat.succ_le_succ (Nat.zero_le _), by
              rw [List.take_succ_cons, List.take_zero, Automaton.run, hnext]; rfl⟩
          · obtain ⟨hle, hrun⟩ := ih hmem
            refine ⟨Nat.succ_le_succ hle, ?_⟩
            rw [List.take_succ_cons, Automaton.run, hnext]
            exact hrun

omit C in
/-- It stopped where the data end, or at a NUL in them. -/
theorem seek_end {data : Bytes} (h : (S.seek state data).2.2 = true) :
    (S.seek state data).1 = data.length ∨ data[(S.seek state data).1]? = some 0 := by
  induction data generalizing state with
  | nil => exact .inl rfl
  | cons c data ih =>
      rw [Scanner.seek] at h ⊢
      split at h
      · rename_i hc
        rw [if_pos hc]
        exact .inr (congrArg some hc)
      · rename_i hc
        rw [if_neg hc]
        cases hnext : S.tables.automaton.next state c with
        | none => rw [hnext] at h; cases h
        | some t =>
            rw [hnext] at h
            dsimp only at h ⊢
            split at h
            · cases h
            · rename_i hstop
              rw [if_neg hstop]
              exact (ih h).imp (congrArg (· + 1)) fun hget => by
                rwa [List.getElem?_cons_succ]

/-- From the start the automaton does not jam at once. -/
theorem seek_pos {data : Bytes} (h : (S.seek 1 data).2.2 = false) : 0 < (S.seek 1 data).1 := by
  cases data with
  | nil => cases h
  | cons c data =>
      rw [Scanner.seek] at h ⊢
      split at h
      · cases h
      · rename_i hc
        rw [if_neg hc]
        obtain ⟨k, -, ⟨-, -, hne⟩ | ⟨t, -, hnext, -, -⟩⟩ := C.next_cases C.start_mem c
        · exact absurd rfl hne
        · rw [hnext]
          dsimp only
          split
          · exact Nat.one_pos
          · exact Nat.succ_pos _

/-- Otherwise the match is the longest there is, whatever comes behind the data. -/
theorem seek_munch (hstate : state ∈ C.states) {data : Bytes}
    (h : (S.seek state data).2.2 = false) (rest : Bytes) :
    S.tables.automaton.munch state (data ++ rest) =
      ((S.seek state data).1, (S.seek state data).2.1) := by
  induction data generalizing state with
  | nil => cases h
  | cons c data ih =>
      rw [Scanner.seek] at h ⊢
      split at h
      · cases h
      rename_i hc
      rw [if_neg hc, List.cons_append, Automaton.munch]
      cases hnext : S.tables.automaton.next state c with
      | none => rfl
      | some t =>
          obtain ⟨k, -, ⟨-, hnone, -⟩ | ⟨t', -, hnext', hmem, -⟩⟩ := C.next_cases hstate c
          · rw [hnone] at hnext
            cases hnext
          obtain rfl := Option.some.inj (hnext.symm.trans hnext')
          rw [hnext] at h
          dsimp only at h ⊢
          split at h
          · rename_i hstop
            rw [if_pos hstop]
            cases data ++ rest with
            | nil => rfl
            | cons d more => rw [Automaton.munch_of_jam (C.next_none_of_stop hstop hmem d)]
          · rename_i hstop
            rw [if_neg hstop, ih hmem h]

/-! ## `yy_get_previous_state` -/

theorem previousFrom_eq (hstate : state ∈ C.states) {text : Bytes} {t : Nat}
    (h : S.tables.automaton.run state text = some t) (rest : Bytes) (cp : Nat) (s : Scan) :
    ∃ a b, S.previousFrom text.length (text ++ rest) cp state s = some (t, s.noted a b) := by
  induction text generalizing state cp s with
  | nil =>
      obtain rfl := Option.some.inj h
      exact ⟨s.lastAcceptingState, s.lastAcceptingCpos, rfl⟩
  | cons c text ih =>
      obtain ⟨u, hu, hrest⟩ := Option.bind_eq_some_iff.mp h
      obtain ⟨a, b, hnote, -⟩ := C.note_eq hstate cp s
      obtain ⟨k, hk, ⟨-, hnone, -⟩ | ⟨t', hgoto, hnext, hmem, -⟩⟩ := C.next_cases hstate c
      · rw [hnone] at hu
        cases hu
      · obtain rfl := Option.some.inj (hu.symm.trans hnext)
        obtain ⟨a', b', hprev⟩ := ih hmem hrest (cp + 1) (s.noted a b)
        refine ⟨a', b', ?_⟩
        rw [List.cons_append, List.length_cons, Scanner.previousFrom]
        simp only [hk, hnote, hgoto, Option.bind_eq_bind, Option.bind_some]
        exact hprev

/-- `yy_try_NUL_trans` is the transition with a NUL. -/
theorem tryNulTrans_eq (hstate : state ∈ C.states) (s : Scan) :
    ∃ a b, S.tryNulTrans state s = some (S.tables.automaton.next state 0, s.noted a b) := by
  obtain ⟨a, b, hnote, -⟩ := C.note_eq hstate s.cBufP s
  obtain ⟨k, hk, hmem⟩ := C.symbol_mem 0
  obtain rfl : 1 = k := Option.some.inj hk
  obtain ⟨t, hgoto, -⟩ := C.next_eq state hstate 1 hmem
  have hgoto : S.tables.goto state 1 = some t := hgoto
  refine ⟨a, b, ?_⟩
  rw [Scanner.tryNulTrans, hnote, Option.bind_eq_bind, Option.bind_some, hgoto,
    Option.bind_eq_bind, Option.bind_some, next_of_goto hk hgoto]

end Checked

end NetworkProgram.Flex
