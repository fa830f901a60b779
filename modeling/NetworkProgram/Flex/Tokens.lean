import NetworkProgram.Flex.Buffers

set_option autoImplicit false

/-!
# Flex: from the text to the tokens

`At label s p` says that the scanner is at the label with the text `p` before it: what is
left of the buffer and what was not yet read.  A turn either makes a token of the longest
match in `p`, or goes on at a label with the same text (`turn_eq`).  So where the reads cut
the text does not matter (`yylexFrom_eq`).  The buffer grows by no more than the text asks for
(`yylexFrom_grown`).
-/

namespace NetworkProgram.Flex

open NetworkProgram.Foundation
open NetworkProgram.Libc

variable {τ : Type}

namespace Scanner

variable (S : Scanner τ)

/-- The length of the longest match at the start of a text, and the action of its rule. -/
def longest (p : Bytes) : Nat := (S.tables.automaton.munch 1 p).1

def action (p : Bytes) : Option (LexAction τ) :=
  (S.tables.accept[(S.tables.automaton.munch 1 p).2]?).bind fun act => S.actions[act - 1]?

/-- The scanner is at the label, with the text `p` before it. -/
def At : Label → Scan → Bytes → Prop
  | .top, s, p => ∃ buf data, store s.chBuf s.cBufP s.holdChar = some buf ∧ Inv s buf data ∧
      s.cBufP ≤ data.length ∧ p = s.rest data s.cBufP
  | .yyMatch bp cp state, s, p => ∃ data, Inv s s.chBuf data ∧ bp ≤ cp ∧ cp ≤ data.length ∧
      S.tables.automaton.run 1 ((data.drop bp).take (cp - bp)) = some state ∧ p = s.rest data bp
  | .findAction bp cp state, s, p => ∃ data, Inv s s.chBuf data ∧ bp < cp ∧ cp ≤ data.length ∧
      S.tables.automaton.munch 1 p = (cp - bp, state) ∧ p = s.rest data bp

/-- What every turn lowers: the text before the scanner counts three times, so that a token
of one byte does. -/
def weight (label : Label) (s : Scan) (p : Bytes) : Nat :=
  match label with
  | .top => 3 * p.length + s.yyin.length + 1
  | .yyMatch bp cp _ => 3 * p.length - (cp - bp) + s.yyin.length + 1
  | .findAction bp cp _ => 3 * p.length - (cp - bp) + s.yyin.length

/-- What a turn leads to, from a place with the text `p` and this weight. -/
inductive Turned (source : Source) (heap : Heap) (p : Bytes) (weight : Nat) (s : Scan) :
    Turn τ → Scan → Prop
  | again {label : Label} {s' : Scan} (place : S.At label s' p)
      (lower : Scanner.weight label s' p < weight) (out : s'.yyout = s.yyout)
      (grown : s.Grown p.length s') :
      Turned source heap p weight s (.goto label) s'
  | skip {s' : Scan} (text : p ≠ []) (rule : S.action p = some .skip)
      (place : S.At .top s' (p.drop (S.longest p)))
      (lower : Scanner.weight .top s' (p.drop (S.longest p)) < weight)
      (out : s'.yyout = s.yyout) (grown : s.Grown p.length s') :
      Turned source heap p weight s (.goto .top) s'
  | echo {s' : Scan} (text : p ≠ []) (rule : S.action p = some .echo)
      (place : S.At .top s' (p.drop (S.longest p)))
      (lower : Scanner.weight .top s' (p.drop (S.longest p)) < weight)
      (out : s'.yyout = s.yyout ++ p.take (S.longest p)) (grown : s.Grown p.length s') :
      Turned source heap p weight s (.goto .top) s'
  | token {make : Bytes → τ} {s' : Scan} (text : p ≠ []) (rule : S.action p = some (.token make))
      (place : S.At .top s' (p.drop (S.longest p)))
      (lower : Scanner.weight .top s' (p.drop (S.longest p)) < weight)
      (out : s'.yyout = s.yyout) (grown : s.Grown p.length s') :
      Turned source heap p weight s (.ret (some (make (p.take (S.longest p))))) s'
  | eof {s' : Scan} (text : p = []) (place : S.At .top s' [])
      (lower : Scanner.weight .top s' [] ≤ weight) (out : s'.yyout = s.yyout)
      (grown : s.Grown p.length s') :
      Turned source heap p weight s (.ret none) s'
  | fatal {s' : Scan} (failed : Fails source heap) (grown : s.Grown p.length s') :
      Turned source heap p weight s .fatal s'

theorem Turned.congr {S : Scanner τ} {source : Source} {heap : Heap} {p : Bytes} {weight : Nat}
    {s s₁ s' : Scan} {next : Turn τ} (h : S.Turned source heap p weight s₁ next s')
    (hout : s₁.yyout = s.yyout) (hsize : s₁.bufSize = s.bufSize) :
    S.Turned source heap p weight s next s' := by
  have hgrown : s₁.Grown p.length s' → s.Grown p.length s' := (Scan.Grown.of_eq hsize).trans
  cases h with
  | again place lower out grown => exact .again place lower (out.trans hout) (hgrown grown)
  | skip text rule place lower out grown =>
      exact .skip text rule place lower (out.trans hout) (hgrown grown)
  | echo text rule place lower out grown =>
      exact .echo text rule place lower (hout ▸ out) (hgrown grown)
  | token text rule place lower out grown =>
      exact .token text rule place lower (out.trans hout) (hgrown grown)
  | eof text place lower out grown => exact .eof text place lower (out.trans hout) (hgrown grown)
  | fatal failed grown => exact .fatal failed (hgrown grown)

end Scanner

/-- `YY_DO_BEFORE_ACTION` -/
def Scan.marked (s : Scan) (bp cp : Nat) : Scan :=
  { s with chBuf := s.chBuf.set cp 0, textPtr := bp, holdChar := s.chBuf.getD cp 0, cBufP := cp }

theorem Scan.store_marked {s : Scan} (bp : Nat) {cp : Nat} (h : cp < s.chBuf.length) :
    store (s.marked bp cp).chBuf cp (s.marked bp cp).holdChar = some s.chBuf := by
  dsimp only [marked]
  rw [store_eq (by rwa [List.length_set]), List.set_set, List.getD_eq_getElem?_getD,
    List.getElem?_eq_getElem h, Option.getD_some, List.set_getElem_self]

/-- What stands before `yy_cp` stays, with a NUL behind it. -/
theorem Scan.drop_marked {s : Scan} (bp : Nat) {n : Nat} (h : bp + n < s.chBuf.length) :
    ∃ rest, (s.marked bp (bp + n)).chBuf.drop bp = (s.chBuf.drop bp).take n ++ 0 :: rest := by
  dsimp only [marked]
  rw [List.set_eq_take_append_cons_drop, if_pos h,
    List.drop_append_of_le_length (by rw [List.length_take]; omega), List.drop_take,
    Nat.add_sub_cancel_left]
  exact ⟨_, rfl⟩

theorem Scanner.findAction_eq {S : Scanner τ} {source : Source} {heap : Heap} {s : Scan}
    {bp cp cp' state act : Nat} (hback : S.backUp cp state s = some (act, cp'))
    (h : cp' < s.chBuf.length) :
    S.findAction source heap bp cp state s =
      S.doAction source heap act cp' (s.marked bp cp') := by
  simp only [findAction, hback, Option.bind_eq_bind, Option.bind_some, store_eq h,
    List.getElem?_eq_getElem h, Scan.marked, List.getD_eq_getElem?_getD, Option.getD_some]

/-- The byte behind the match is put back first. -/
theorem Scanner.endOfBuffer_eq {S : Scanner τ} {source : Source} {heap : Heap} {s s₁ : Scan}
    {bp m : Nat} (h : bp + m + 1 < s.chBuf.length)
    (hs₁ : ({ s.marked bp (bp + m + 1) with chBuf := s.chBuf } : Scan).scanned = s₁) :
    S.endOfBuffer source heap (bp + m + 1) (s.marked bp (bp + m + 1)) =
      if s₁.cBufP ≤ s₁.nChars then S.realNul m s₁ else S.dataEnd source heap m s₁ := by
  have hamount : bp + m + 1 - bp - 1 = m := by omega
  rw [endOfBuffer, Scan.store_marked bp h, Option.bind_eq_bind, Option.bind_some]
  change (if (Scan.scanned _).cBufP ≤ (Scan.scanned _).nChars then
    S.realNul (bp + m + 1 - bp - 1) _ else S.dataEnd source heap (bp + m + 1 - bp - 1) _) = _
  rw [hamount, hs₁]

/-- The matched text is in the buffer. -/
theorem Inv.take_drop {s : Scan} {buf data : Bytes} (h : Inv s buf data) {bp n : Nat}
    (hfits : bp + n ≤ data.length) :
    (buf.drop bp).take n = (s.rest data bp).take n ∧
      (data.drop bp).take n = (s.rest data bp).take n := by
  obtain ⟨tail, rfl, -⟩ := h.contents
  have hle : n ≤ (data.drop bp).length := by
    rw [List.length_drop]
    omega
  rw [List.drop_append_of_le_length (by omega), List.take_append_of_le_length hle, Scan.rest,
    List.take_append_of_le_length hle]
  exact ⟨rfl, rfl⟩

theorem Scan.drop_rest {s : Scan} {data : Bytes} {bp n : Nat} (hfits : bp + n ≤ data.length) :
    (s.rest data bp).drop n = s.rest data (bp + n) := by
  rw [Scan.rest, Scan.rest, List.drop_append_of_le_length (by rw [List.length_drop]; omega),
    List.drop_drop]

namespace Checked

variable {S : Scanner τ} (C : Checked S) (source : Source) (heap : Heap) (weight : Nat)
  {s : Scan} {data p : Bytes} {bp cp state act : Nat}
include C

/-- A text that makes a token has no NUL. -/
theorem nul_notMem {make : Bytes → τ} {text : Bytes} {t : Nat}
    (hrun : S.tables.automaton.run 1 text = some t)
    (hact : S.tables.accept[t]? = some act) (hrule : S.actions[act - 1]? = some (.token make)) :
    (0 : UInt8) ∉ text := by
  intro hmem
  obtain ⟨before, after, rfl⟩ := List.append_of_mem hmem
  rw [Automaton.run_append] at hrun
  obtain ⟨u, hu, hrest⟩ := Option.bind_eq_some_iff.mp hrun
  obtain ⟨v, hv, hafter⟩ := Option.bind_eq_some_iff.mp hrest
  obtain ⟨k, hk, ⟨-, hnone, -⟩ | ⟨v', hgoto, hnext, -⟩⟩ := C.next_cases (C.run_mem C.start_mem hu) 0
  · rw [hnone] at hv
    cases hv
  obtain rfl : 1 = k := Option.some.inj hk
  obtain rfl := Option.some.inj (hv.symm.trans hnext)
  have hjam : v ≠ S.tables.jam := by
    rintro rfl
    rw [next_of_goto hk hgoto, if_pos rfl] at hv
    cases hv
  obtain ⟨hstop, hno⟩ := C.nul_next u (C.run_mem C.start_mem hu) v hgoto hjam
  cases after with
  | nil =>
      obtain rfl := Option.some.inj hafter
      cases hno act hact _ hrule
  | cons c after =>
      obtain ⟨k, hk, hmem⟩ := C.symbol_mem c
      rw [Automaton.run, next_of_goto hk (hstop k hmem), if_pos rfl] at hafter
      cases hafter

/-- The action of the rule that matched, on the text that it matched. -/
theorem findAction_rule (hinv : Inv s s.chBuf data) (hpos : 0 < S.longest p)
    (hfits : bp + S.longest p ≤ data.length) (hp : p = s.rest data bp)
    (hback : S.backUp cp state s = some (act, bp + S.longest p))
    (hact : S.tables.accept[(S.tables.automaton.munch 1 p).2]? = some act)
    (hweight : 3 * p.length + s.yyin.length ≤ weight + S.longest p) :
    ∃ next s', S.findAction source heap bp cp state s = some (next, s') ∧
      S.Turned source heap p weight s next s' := by
  have hdata := hinv.data_le
  have hlen := hinv.length_eq
  have hcp : bp + S.longest p < s.chBuf.length := by omega
  have hrun : S.tables.automaton.run 1 (p.take (S.longest p)) =
      some (S.tables.automaton.munch 1 p).2 := Automaton.run_munch
  have hle : S.longest p ≤ p.length := Automaton.munch_le
  have htext : p ≠ [] := List.ne_nil_of_length_pos (Nat.lt_of_lt_of_le hpos hle)
  have hne : p.take (S.longest p) ≠ [] := by
    intro hnil
    rw [List.take_eq_nil_iff] at hnil
    exact hnil.elim (fun hzero => absurd hzero hpos.ne') htext
  obtain ⟨act', hact', hzero, heob, hactions⟩ := C.accepts (C.run_mem C.start_mem hrun)
    (C.run_ne_start C.start_mem hrun hne)
  obtain rfl := Option.some.inj (hact.symm.trans hact')
  obtain ⟨rule, hrule⟩ : ∃ rule, S.actions[act - 1]? = some rule :=
    ⟨_, List.getElem?_eq_getElem (show act - 1 < S.actions.length by omega)⟩
  have haction : S.action p = some rule := by
    rw [Scanner.action, hact, Option.bind_some, hrule]
  have hplace : ∀ out, S.At .top { s.marked bp (bp + S.longest p) with yyout := out }
      (p.drop (S.longest p)) := fun out =>
    ⟨s.chBuf, data, Scan.store_marked bp hcp, hinv.congr rfl rfl rfl rfl rfl, hfits,
      (congrArg (List.drop (S.longest p)) hp).trans (Scan.drop_rest hfits)⟩
  have hlower : Scanner.weight .top (s.marked bp (bp + S.longest p)) (p.drop (S.longest p)) <
      weight := by
    dsimp only [Scanner.weight, Scan.marked]
    rw [List.length_drop]
    omega
  obtain ⟨rest, hdrop⟩ := Scan.drop_marked (s := s) bp hcp
  rw [(hinv.take_drop hfits).1, ← hp] at hdrop
  rw [Scanner.findAction_eq hback hcp, Scanner.doAction, if_neg heob, if_neg hzero, hrule]
  cases rule with
  | token make =>
      have hcstr :
          cstr ((s.marked bp (bp + S.longest p)).chBuf.drop bp) = p.take (S.longest p) := by
        rw [hdrop]
        exact cstr_append_nul (C.nul_notMem hrun hact hrule) rest
      refine ⟨_, _, rfl, ?_⟩
      change S.Turned source heap p weight s (.ret (some (make (cstr ((s.marked bp
        (bp + S.longest p)).chBuf.drop bp))))) _
      rw [hcstr]
      exact .token htext haction (hplace s.yyout) hlower rfl (.of_eq rfl)
  | skip => exact ⟨_, _, rfl, .skip htext haction (hplace s.yyout) hlower rfl (.of_eq rfl)⟩
  | echo =>
      refine ⟨_, _, rfl, .echo htext haction (hplace _) hlower ?_ (.of_eq rfl)⟩
      change s.yyout ++ ((s.marked bp (bp + S.longest p)).chBuf.drop bp).take
        (bp + S.longest p - bp) = _
      rw [hdrop, Nat.add_sub_cancel_left, List.take_left' (List.length_take_of_le hle)]

variable (bp) in
/-- The state before the end of the buffer is found again. -/
theorem getPreviousState_eq {t m : Nat} (hinv : Inv s s.chBuf data) (htext : s.textPtr = bp)
    (hcBufP : s.cBufP = bp + m) (hfits : bp + m ≤ data.length)
    (hrun : S.tables.automaton.run 1 ((data.drop bp).take m) = some t) :
    ∃ a b, S.getPreviousState s = some (t, s.noted a b) := by
  obtain ⟨tail, hbuf, -⟩ := hinv.contents
  have hsplit : s.chBuf.drop bp =
      (data.drop bp).take m ++ ((data.drop bp).drop m ++ 0 :: 0 :: tail) := by
    rw [hbuf, List.drop_append_of_le_length (by omega), ← List.append_assoc,
      List.take_append_drop]
  have hlen : ((data.drop bp).take m).length = m := by
    rw [List.length_take, List.length_drop]
    omega
  have hprev := C.previousFrom_eq C.start_mem hrun ((data.drop bp).drop m ++ 0 :: 0 :: tail) bp s
  rw [← hsplit, hlen] at hprev
  rw [Scanner.getPreviousState, htext, hcBufP, Nat.add_sub_cancel_left]
  exact hprev

theorem realNul_eq {t m : Nat} (hinv : Inv s s.chBuf data) (htext : s.textPtr = bp)
    (hfits : bp + m ≤ data.length) (hnul : data[bp + m]? = some 0)
    (hrun : S.tables.automaton.run 1 ((data.drop bp).take m) = some t) (hp : p = s.rest data bp)
    (hweight : 3 * p.length + s.yyin.length < weight + m) :
    ∃ next s', S.realNul m s = some (next, s') ∧ S.Turned source heap p weight s next s' := by
  subst htext
  obtain ⟨hlt, hget⟩ := List.getElem?_eq_some_iff.mp hnul
  have hcons : (data.drop s.textPtr).drop m = 0 :: data.drop (s.textPtr + m + 1) := by
    rw [List.drop_drop, List.drop_eq_getElem_cons hlt, hget]
  have hlen : ((data.drop s.textPtr).take m).length = m := by
    rw [List.length_take, List.length_drop]
    omega
  have hmem := C.run_mem C.start_mem hrun
  obtain ⟨a, b, hprev⟩ := C.getPreviousState_eq s.textPtr (s := { s with cBufP := s.textPtr + m })
    (hinv.congr rfl rfl rfl rfl rfl) rfl rfl hfits hrun
  obtain ⟨a', b', htry⟩ := C.tryNulTrans_eq hmem
    (({ s with cBufP := s.textPtr + m } : Scan).noted a b)
  have hple : m + 1 ≤ p.length := by
    rw [hp, Scan.rest, List.length_append, List.length_drop]
    omega
  cases hnext : S.tables.automaton.next t 0 with
  | none =>
      -- No rule goes on with the NUL, so that the match ends before it.
      have hm : 0 < m := by
        obtain ⟨-, -, ⟨-, -, hne⟩ | ⟨next, -, hsome, -⟩⟩ := C.next_cases hmem 0
        · refine Nat.pos_of_ne_zero fun hzero => hne ?_
          subst hzero
          exact (Option.some.inj hrun).symm
        · rw [hnext] at hsome
          cases hsome
      have hmunch : S.tables.automaton.munch 1 p = (m, t) := by
        rw [hp, Scan.rest, ← List.take_append_drop m (data.drop s.textPtr), hcons,
          List.append_assoc, Automaton.munch_append hrun, hlen, List.cons_append,
          Automaton.munch_of_jam hnext]
        rfl
      refine ⟨.goto (.findAction s.textPtr (s.textPtr + m) t),
        ({ s with cBufP := s.textPtr + m } : Scan).noted a' b', ?_, .again ?_ ?_ rfl (.of_eq rfl)⟩
      · simp only [Scanner.realNul, hprev, htry, hnext, Option.bind_eq_bind, Option.bind_some]
        rfl
      · exact ⟨data, hinv.congr rfl rfl rfl rfl rfl, Nat.lt_add_of_pos_right hm, hfits,
          by rw [hmunch, Nat.add_sub_cancel_left], hp⟩
      · change 3 * p.length - (s.textPtr + m - s.textPtr) + s.yyin.length < weight
        omega
  | some next =>
      refine ⟨.goto (.yyMatch s.textPtr (s.textPtr + m + 1) next),
        ({ s with cBufP := s.textPtr + m + 1 } : Scan).noted a' b', ?_,
        .again ?_ ?_ rfl (.of_eq rfl)⟩
      · simp only [Scanner.realNul, hprev, htry, hnext, Option.bind_eq_bind, Option.bind_some]
        rfl
      · refine ⟨data, hinv.congr rfl rfl rfl rfl rfl, by omega, hlt, ?_, hp⟩
        have htake : (data.drop s.textPtr).take (s.textPtr + m + 1 - s.textPtr) =
            (data.drop s.textPtr).take m ++ [0] := by
          rw [Nat.add_assoc, Nat.add_sub_cancel_left, List.take_add, hcons, List.take_succ_cons,
            List.take_zero]
        rw [htake, Automaton.run_append, hrun, Option.bind_some, Automaton.run, hnext]
        rfl
      · change 3 * p.length - (s.textPtr + m + 1 - s.textPtr) + s.yyin.length + 1 < weight
        omega

section Refills

variable {text : Bytes} {s' : Scan} {t : Nat} (hp : p = text ++ s.yyin)
  (hweight : 3 * p.length + s.yyin.length < weight + text.length)

omit C in
include hp in
theorem grown_of_refilled {ret : Refill} (h : Refilled s text ret s') : s.Grown p.length s' := by
  refine h.grown.mono ?_
  rw [hp, List.length_append]
  exact Nat.le_add_right _ _

omit C in
include hp in
/-- What was read goes behind the text that was begun, so that the text before the scanner
stays the same. -/
theorem rest_of_refilled {more : Bytes} (hyyin : s.yyin = more ++ s'.yyin) :
    p = s'.rest (text ++ more) 0 := by
  rw [hp, hyyin, ← List.append_assoc]
  rfl

omit C in
include hp hweight in
/-- There is nothing left. -/
theorem dataEnd_endOfFile (hnext : S.getNextBuffer source heap s = some (.endOfFile, s'))
    (h : Refilled s text .endOfFile s') :
    ∃ next s'', S.dataEnd source heap text.length s = some (next, s'') ∧
      S.Turned source heap p weight s next s'' := by
  have hgrown := grown_of_refilled hp h
  obtain ⟨more, hinv, hyyin, hcontinue, -⟩ := h.inv
  obtain ⟨rfl, hempty⟩ := h.endOfFile.mp rfl
  obtain rfl : more = [] := by
    by_contra hmore
    cases hcontinue.mpr hmore
  have hyyin' : s'.yyin = [] := hyyin.symm.trans hempty
  refine ⟨.ret none, { s' with cBufP := 0 }, ?_, .eof ?_ ?_ ?_ h.yyout_eq hgrown⟩
  · simp only [Scanner.dataEnd, hnext, Option.bind_eq_bind, Option.bind_some, h.textPtr_eq]
  · rw [hp, hempty]
    rfl
  · obtain ⟨tail, hbuf, -⟩ := hinv.contents
    refine ⟨s'.chBuf, [], ?_, hinv.congr rfl rfl rfl rfl rfl, Nat.zero_le _, ?_⟩
    · dsimp only
      rw [h.holdChar rfl, hbuf]
      rfl
    · change [] = [] ++ s'.yyin
      rw [hyyin', List.append_nil]
  · change 3 * 0 + s'.yyin.length + 1 ≤ weight
    rw [hyyin']
    change 1 ≤ weight
    simp only [List.length_nil] at hweight
    omega

include C hp hweight in
/-- The match goes on with what was read. -/
theorem dataEnd_continueScan (hnext : S.getNextBuffer source heap s = some (.continueScan, s'))
    (h : Refilled s text .continueScan s') (hrun : S.tables.automaton.run 1 text = some t) :
    ∃ next s'', S.dataEnd source heap text.length s = some (next, s'') ∧
      S.Turned source heap p weight s next s'' := by
  have hgrown := grown_of_refilled hp h
  obtain ⟨more, hinv, hyyin, hcontinue, -⟩ := h.inv
  have hmore := hcontinue.mp rfl
  have hzero := h.textPtr_eq
  have hfits : text.length ≤ (text ++ more).length := by
    rw [List.length_append]
    exact Nat.le_add_right _ _
  have hrun' :
      S.tables.automaton.run 1 (((text ++ more).drop 0).take text.length) = some t := by
    rw [List.drop_zero, List.take_left, hrun]
  obtain ⟨a, b, hprev⟩ := C.getPreviousState_eq 0 (m := text.length)
    (s := { s' with cBufP := s'.textPtr + text.length })
    (hinv.congr rfl rfl rfl rfl rfl) hzero (by rw [hzero]) (by omega) hrun'
  refine ⟨.goto (.yyMatch 0 text.length t),
    ({ s' with cBufP := s'.textPtr + text.length } : Scan).noted a b, ?_,
    .again ?_ ?_ h.yyout_eq hgrown⟩
  · simp only [Scanner.dataEnd, hnext, Option.bind_eq_bind, Option.bind_some, hprev]
    simp [Scan.noted, hzero]
  · exact ⟨text ++ more, hinv.congr rfl rfl rfl rfl rfl, Nat.zero_le _, hfits, hrun',
      rest_of_refilled hp hyyin⟩
  · change 3 * p.length - (text.length - 0) + s'.yyin.length + 1 < weight
    have hlen := congrArg List.length hyyin
    rw [List.length_append] at hlen
    have hpos := List.length_pos_iff.mpr hmore
    have hple := congrArg List.length hp
    rw [List.length_append] at hple
    omega

include C hp hweight in
/-- The text ends with the match. -/
theorem dataEnd_lastMatch (hnext : S.getNextBuffer source heap s = some (.lastMatch, s'))
    (h : Refilled s text .lastMatch s') (hrun : S.tables.automaton.run 1 text = some t) :
    ∃ next s'', S.dataEnd source heap text.length s = some (next, s'') ∧
      S.Turned source heap p weight s next s'' := by
  have hgrown := grown_of_refilled hp h
  obtain ⟨more, hinv, hyyin, hcontinue, hnil⟩ := h.inv
  obtain rfl : more = [] := by
    by_contra hmore
    cases hcontinue.mpr hmore
  have hempty := hnil rfl
  have hzero := h.textPtr_eq
  have hpos : 0 < text.length := List.length_pos_iff.mpr fun hnil' => by
    cases h.endOfFile.mpr ⟨hnil', hempty⟩
  have hcount : s'.nChars = 0 + text.length := by
    rw [hinv.nChars_eq, List.append_nil, Nat.zero_add]
  have hsame := rest_of_refilled hp hyyin
  rw [List.append_nil] at hinv hsame
  have hptext : p = text := by rw [hp, hempty, List.append_nil]
  obtain ⟨a, b, hprev⟩ := C.getPreviousState_eq 0 (m := text.length)
    (s := { s' with cBufP := s'.nChars }) (hinv.congr rfl rfl rfl rfl rfl) hzero hcount
    (Nat.zero_add _).le (by rw [List.drop_zero, List.take_length, hrun])
  have hmunch : S.tables.automaton.munch 1 p = (text.length - 0, t) := by
    have happend := Automaton.munch_append hrun []
    rw [List.append_nil] at happend
    rw [hptext, happend]
    rfl
  refine ⟨.goto (.findAction 0 text.length t),
    ({ s' with cBufP := s'.nChars } : Scan).noted a b, ?_,
    .again ?_ ?_ h.yyout_eq hgrown⟩
  · simp only [Scanner.dataEnd, hnext, Option.bind_eq_bind, Option.bind_some, hprev]
    simp [Scan.noted, hzero, hcount]
  · exact ⟨text, hinv.congr rfl rfl rfl rfl rfl, hpos, Nat.le_refl _, hmunch, hsame⟩
  · change 3 * p.length - (text.length - 0) + s'.yyin.length < weight
    have hlen := congrArg List.length hyyin
    have hple := congrArg List.length hptext
    rw [List.nil_append] at hlen
    omega

end Refills

/-- The data in the buffer ends with the match: the buffer is filled again. -/
theorem dataEnd_eq {t : Nat} (hinv : Inv s s.chBuf data) (hstatus : s.status ≠ .fresh)
    (htext : s.textPtr ≤ data.length) (hend : s.cBufP = data.length + 1)
    (hrun : S.tables.automaton.run 1 (data.drop s.textPtr) = some t)
    (hp : p = s.rest data s.textPtr)
    (hweight : 3 * p.length + s.yyin.length < weight + (data.drop s.textPtr).length) :
    ∃ next s', S.dataEnd source heap (data.drop s.textPtr).length s = some (next, s') ∧
      S.Turned source heap p weight s next s' := by
  obtain ⟨ret, s', hnext, ⟨rfl, rfl, hfails⟩ | hrefilled⟩ :=
    Scanner.getNextBuffer_eq C.read_pos source heap hinv hstatus
      htext hend
  · refine ⟨.fatal, s', ?_, .fatal hfails (.of_eq rfl)⟩
    simp only [Scanner.dataEnd, hnext, Option.bind_eq_bind, Option.bind_some]
  · cases ret with
    | fatal => exact absurd rfl hrefilled.ne_fatal
    | endOfFile => exact dataEnd_endOfFile source heap weight hp hweight hnext hrefilled
    | continueScan =>
        exact C.dataEnd_continueScan source heap weight hp hweight hnext hrefilled hrun
    | lastMatch => exact C.dataEnd_lastMatch source heap weight hp hweight hnext hrefilled hrun

omit C in
theorem scanned_eq (hinv : Inv s s.chBuf data) :
    Inv s.scanned s.scanned.chBuf data ∧ s.scanned.status ≠ .fresh ∧ s.scanned.cBufP = s.cBufP ∧
      s.scanned.textPtr = s.textPtr ∧ s.scanned.yyin = s.yyin ∧ s.scanned.yyout = s.yyout ∧
      s.scanned.bufSize = s.bufSize := by
  unfold Scan.scanned
  split
  · rename_i hfresh
    exact ⟨⟨hinv.contents, hinv.fresh hfresh, nofun, nofun, hinv.size_le⟩, nofun, rfl, rfl, rfl,
      rfl, rfl⟩
  · exact ⟨hinv, ‹_›, rfl, rfl, rfl, rfl, rfl⟩

/-- The scanner came to a NUL behind `m` symbols of a match that may go on. -/
theorem findAction_end {m t : Nat} (hinv : Inv s s.chBuf data) (hfits : bp + m ≤ data.length)
    (hend : m = (data.drop bp).length ∨ data[bp + m]? = some 0)
    (hrun : S.tables.automaton.run 1 ((data.drop bp).take m) = some t) (hp : p = s.rest data bp)
    (hback : S.backUp cp state s = some (S.tables.endOfBuffer, bp + m + 1))
    (hweight : 3 * p.length + s.yyin.length < weight + m) :
    ∃ next s', S.findAction source heap bp cp state s = some (next, s') ∧
      S.Turned source heap p weight s next s' := by
  have hdata := hinv.data_le
  have hlen := hinv.length_eq
  have hcp : bp + m + 1 < s.chBuf.length := by omega
  obtain ⟨hinv', hstatus, hcBufP, htext, hyyin, hyyout, hbufSize⟩ :=
    scanned_eq (s := { s.marked bp (bp + m + 1) with chBuf := s.chBuf })
      (hinv.congr rfl rfl rfl rfl rfl)
  rw [Scanner.findAction_eq hback hcp, Scanner.doAction, if_pos rfl,
    Scanner.endOfBuffer_eq hcp rfl]
  generalize ({ s.marked bp (bp + m + 1) with chBuf := s.chBuf } : Scan).scanned = s₁ at *
  have htext' : s₁.textPtr = bp := htext
  have hcBufP' : s₁.cBufP = bp + m + 1 := hcBufP
  have hp' : p = s₁.rest data bp := by
    rw [hp, Scan.rest, Scan.rest, hyyin]
    rfl
  have hweight' : 3 * p.length + s₁.yyin.length < weight + m := by
    rw [hyyin]
    exact hweight
  split
  · rename_i hle
    rw [hcBufP', hinv'.nChars_eq] at hle
    have hnul : data[bp + m]? = some 0 := by
      refine hend.resolve_left fun hm => ?_
      rw [List.length_drop] at hm
      omega
    obtain ⟨next, s', hnext, hturned⟩ :=
      C.realNul_eq source heap weight hinv' htext' hfits hnul hrun hp' hweight'
    exact ⟨next, s', hnext, hturned.congr hyyout hbufSize⟩
  · rename_i hlt
    rw [hcBufP', hinv'.nChars_eq] at hlt
    have hm : m = (data.drop bp).length := by
      rw [List.length_drop]
      omega
    subst htext' hm
    rw [List.take_length] at hrun
    obtain ⟨next, s', hnext, hturned⟩ :=
      C.dataEnd_eq source heap weight hinv' hstatus (by omega)
        (by rw [hcBufP', List.length_drop]; omega) hrun hp' hweight'
    exact ⟨next, s', hnext, hturned.congr hyyout hbufSize⟩

/-- `yy_match` and `yy_find_action`. -/
theorem match_eq (hinv : Inv s s.chBuf data) (hle : bp ≤ cp) (hcp : cp ≤ data.length)
    (hrun : S.tables.automaton.run 1 ((data.drop bp).take (cp - bp)) = some state)
    (hp : p = s.rest data bp) (hweight : 3 * p.length + s.yyin.length < weight + (cp - bp)) :
    ∃ next s', (do
        let (cp, state, s) ← S.yyMatch (s.chBuf.drop cp) cp state s
        S.findAction source heap bp cp state s) = some (next, s') ∧
      S.Turned source heap p weight s next s' := by
  obtain ⟨tail, hbuf, -⟩ := hinv.contents
  have hdrop : s.chBuf.drop cp = data.drop cp ++ 0 :: 0 :: tail := by
    rw [hbuf, List.drop_append_of_le_length hcp]
  have hbegun : ((data.drop bp).take (cp - bp)).length = cp - bp := by
    rw [List.length_take, List.length_drop]
    omega
  have hrest : (data.drop bp).drop (cp - bp) = data.drop cp := by
    rw [List.drop_drop, Nat.add_sub_cancel' hle]
  have hsplit : data.drop bp = (data.drop bp).take (cp - bp) ++ data.drop cp := by
    rw [← hrest, List.take_append_drop]
  have hmem := C.run_mem C.start_mem hrun
  obtain ⟨cp', state', a, b, act, pos, hmatch, hback, hfound⟩ :=
    C.yyMatch_eq hmem (data.drop cp) tail cp s
  obtain ⟨hfits, hrun'⟩ := C.seek_run hmem (data.drop cp)
  rw [List.length_drop] at hfits
  rw [hdrop, hmatch, Option.bind_eq_bind, Option.bind_some]
  have hinv' : Inv (s.noted a b) (s.noted a b).chBuf data := hinv.congr rfl rfl rfl rfl rfl
  cases hend : (S.seek state (data.drop cp)).2.2 with
  | false =>
      simp only [Scanner.Found, hend, Bool.false_eq_true, if_false] at hfound
      obtain ⟨hact, rfl⟩ := hfound
      have hmunch : S.tables.automaton.munch 1 p =
          (cp - bp + (S.seek state (data.drop cp)).1, (S.seek state (data.drop cp)).2.1) := by
        rw [hp, Scan.rest, hsplit, List.append_assoc, Automaton.munch_append hrun, hbegun,
          C.seek_munch hmem hend]
      have hlongest : bp + S.longest p = cp + (S.seek state (data.drop cp)).1 := by
        rw [Scanner.longest, hmunch]
        dsimp only
        omega
      have hpos : 0 < S.longest p := by
        rw [Scanner.longest, hmunch]
        rcases Nat.eq_zero_or_pos (cp - bp) with hzero | hpos
        · rw [hzero] at hrun
          obtain rfl := Option.some.inj hrun
          have := C.seek_pos hend
          dsimp only
          omega
        · exact Nat.add_pos_left hpos _
      obtain ⟨next, s', hnext, hturned⟩ :=
        C.findAction_rule source heap weight hinv' hpos
          (by omega) hp (by rw [hlongest]; exact hback) (by rw [hmunch]; exact hact)
          (by
            change 3 * p.length + s.yyin.length ≤ _
            omega)
      exact ⟨next, s', hnext, hturned.congr rfl rfl⟩
  | true =>
      simp only [Scanner.Found, hend, if_true] at hfound
      obtain ⟨rfl, rfl⟩ := hfound
      have hsum : bp + (cp - bp + (S.seek state (data.drop cp)).1) =
          cp + (S.seek state (data.drop cp)).1 := by omega
      have hstop : cp - bp + (S.seek state (data.drop cp)).1 = (data.drop bp).length ∨
          data[bp + (cp - bp + (S.seek state (data.drop cp)).1)]? = some 0 := by
        refine (seek_end hend).imp (fun hall => ?_) fun hnul => ?_
        · rw [List.length_drop] at hall ⊢
          omega
        · rwa [hsum, ← List.getElem?_drop]
      have htext : S.tables.automaton.run 1 ((data.drop bp).take
          (cp - bp + (S.seek state (data.drop cp)).1)) =
            some (S.seek state (data.drop cp)).2.1 := by
        rw [List.take_add, hrest, Automaton.run_append, hrun, Option.bind_some, hrun']
      obtain ⟨next, s', hnext, hturned⟩ :=
        C.findAction_end source heap weight hinv'
          (by omega) hstop htext hp (by rw [hsum]; exact hback)
          (by
            change 3 * p.length + s.yyin.length < _
            omega)
      exact ⟨next, s', hnext, hturned.congr rfl rfl⟩

/-- One turn of the scanner, wherever the reads cut the text. -/
theorem turn_eq {label : Label} (hplace : S.At label s p) :
    ∃ next s', S.turn source heap label s = some (next, s') ∧
      S.Turned source heap p (Scanner.weight label s p) s next s' := by
  cases label with
  | top =>
      obtain ⟨buf, data, hstore, hinv, hcp, hp⟩ := hplace
      obtain ⟨next, s', hnext, hturned⟩ :=
        C.match_eq source heap (Scanner.weight .top s p) (s := { s with chBuf := buf })
          (hinv.congr rfl rfl rfl rfl rfl) (Nat.le_refl s.cBufP)
          hcp (by rw [Nat.sub_self]; rfl) hp
          (by
            change 3 * p.length + s.yyin.length < 3 * p.length + s.yyin.length + 1 + _
            omega)
      refine ⟨next, s', ?_, hturned.congr rfl rfl⟩
      rw [Scanner.turn, hstore, Option.bind_eq_bind, Option.bind_some]
      exact hnext
  | yyMatch bp cp state =>
      obtain ⟨data, hinv, hle, hcp, hrun, hp⟩ := hplace
      have hshort : cp - bp ≤ p.length := by
        rw [hp, Scan.rest, List.length_append, List.length_drop]
        omega
      exact C.match_eq source heap _ hinv hle hcp hrun hp (by dsimp only [Scanner.weight]; omega)
  | findAction bp cp state =>
      obtain ⟨data, hinv, hlt, hcp, hmunch, hp⟩ := hplace
      have hlongest : S.longest p = cp - bp := congrArg Prod.fst hmunch
      have hshort : cp - bp ≤ p.length := by
        rw [hp, Scan.rest, List.length_append, List.length_drop]
        omega
      have hrun : S.tables.automaton.run 1 (p.take (cp - bp)) = some state := by
        have hrun : S.tables.automaton.run 1 (p.take (S.tables.automaton.munch 1 p).1) =
            some (S.tables.automaton.munch 1 p).2 := Automaton.run_munch
        rwa [hmunch] at hrun
      have hne : p.take (cp - bp) ≠ [] := by
        intro hnil
        have := congrArg List.length hnil
        rw [List.length_take, List.length_nil] at this
        omega
      obtain ⟨act, hact, hzero, -⟩ := C.accepts (C.run_mem C.start_mem hrun)
        (C.run_ne_start C.start_mem hrun hne)
      have hback : S.backUp cp state s = some (act, bp + S.longest p) := by
        rw [hlongest, Nat.add_sub_cancel' hlt.le, Scanner.backUp, hact, Option.bind_eq_bind,
          Option.bind_some, if_neg hzero]
      exact C.findAction_rule source heap _ hinv (by omega) (by omega) hp hback
        (by rw [hmunch]; exact hact)
        (by dsimp only [Scanner.weight]; omega)

end Checked

/-! ## Calls of `yylex` -/

/-- What a call makes of a text: what it echoes, the token, and the text that is left. -/
inductive Lexes (S : Scanner τ) : Bytes → Bytes → Option τ → Bytes → Prop
  | eof : Lexes S [] [] none []
  | token {p : Bytes} {make : Bytes → τ} (text : p ≠ []) (rule : S.action p = some (.token make)) :
      Lexes S p [] (some (make (p.take (S.longest p)))) (p.drop (S.longest p))
  | skip {p out rest : Bytes} {t : Option τ} (text : p ≠ []) (rule : S.action p = some .skip)
      (later : Lexes S (p.drop (S.longest p)) out t rest) : Lexes S p out t rest
  | echo {p out rest : Bytes} {t : Option τ} (text : p ≠ []) (rule : S.action p = some .echo)
      (later : Lexes S (p.drop (S.longest p)) out t rest) :
      Lexes S p (p.take (S.longest p) ++ out) t rest

namespace Checked

variable {S : Scanner τ} (C : Checked S) (source : Source) (heap : Heap) {label : Label}
  {s : Scan} {p : Bytes}
include C

/-- No access outside of the buffer, and a token of the text that is left, unless there is no
memory for a longer buffer or a read fails. -/
theorem yylexFrom_eq {fuel : Nat} (hplace : S.At label s p)
    (hfuel : Scanner.weight label s p < fuel) :
    (∃ t s' out rest, S.yylexFrom source heap fuel label s = some (.ret t, s') ∧
      Lexes S p out t rest ∧ S.At .top s' rest ∧ s'.yyout = s.yyout ++ out ∧
      Scanner.weight .top s' rest ≤ Scanner.weight label s p) ∨
    (∃ s', S.yylexFrom source heap fuel label s = some (.fatal, s')) ∧ Fails source heap := by
  induction fuel generalizing label s p with
  | zero => exact absurd hfuel (Nat.not_lt_zero _)
  | succ fuel ih =>
      obtain ⟨next, s₁, hnext, hturned⟩ := C.turn_eq source heap hplace
      rw [Scanner.yylexFrom, hnext, Option.bind_eq_bind, Option.bind_some]
      cases hturned with
      | again place lower out =>
          obtain ⟨t, s', out', rest, hrun, hlexes, hplace', hout, hweight⟩ | hfatal :=
            ih place (Nat.lt_of_lt_of_le lower (Nat.le_of_lt_succ hfuel))
          · exact .inl ⟨t, s', out', rest, hrun, hlexes, hplace', out ▸ hout,
              hweight.trans lower.le⟩
          · exact .inr hfatal
      | skip text rule place lower out =>
          obtain ⟨t, s', out', rest, hrun, hlexes, hplace', hout, hweight⟩ | hfatal :=
            ih place (Nat.lt_of_lt_of_le lower (Nat.le_of_lt_succ hfuel))
          · exact .inl ⟨t, s', out', rest, hrun, .skip text rule hlexes, hplace', out ▸ hout,
              hweight.trans lower.le⟩
          · exact .inr hfatal
      | echo text rule place lower out =>
          obtain ⟨t, s', out', rest, hrun, hlexes, hplace', hout, hweight⟩ | hfatal :=
            ih place (Nat.lt_of_lt_of_le lower (Nat.le_of_lt_succ hfuel))
          · refine .inl ⟨t, s', _, rest, hrun, .echo text rule hlexes, hplace', ?_,
              hweight.trans lower.le⟩
            rw [hout, out, List.append_assoc]
          · exact .inr hfatal
      | token text rule place lower out =>
          exact .inl ⟨_, s₁, [], _, rfl, .token text rule, place, by rw [out, List.append_nil],
            lower.le⟩
      | eof text place lower out =>
          subst text
          exact .inl ⟨none, s₁, [], [], rfl, .eof, place, by rw [out, List.append_nil], lower⟩
      | fatal failed => exact .inr ⟨⟨s₁, rfl⟩, failed⟩

/-- However many turns a call has made, no access was outside of the buffer, and the buffer has
grown by no more than the text asks for. -/
theorem yylexFrom_grown (turns : Nat) (hplace : S.At label s p) :
    ∃ next s', S.yylexFrom source heap turns label s = some (next, s') ∧
      s.Grown p.length s' := by
  induction turns generalizing label s p with
  | zero => exact ⟨_, _, rfl, .of_eq rfl⟩
  | succ turns ih =>
      obtain ⟨next, s₁, hnext, hturned⟩ := C.turn_eq source heap hplace
      have hgoes : ∀ {label' : Label} {rest : Bytes}, S.At label' s₁ rest →
          rest.length ≤ p.length → s.Grown p.length s₁ →
          ∃ next s', S.yylexFrom source heap turns label' s₁ = some (next, s') ∧
            s.Grown p.length s' := by
        intro label' rest place hle grown
        obtain ⟨next', s', hrun, hgrown⟩ := ih place
        exact ⟨next', s', hrun, grown.trans (hgrown.mono hle)⟩
      have hshorter : (p.drop (S.longest p)).length ≤ p.length := by
        rw [List.length_drop]
        exact Nat.sub_le _ _
      rw [Scanner.yylexFrom, hnext, Option.bind_eq_bind, Option.bind_some]
      cases hturned with
      | again place lower out grown => exact hgoes place (Nat.le_refl _) grown
      | skip text rule place lower out grown => exact hgoes place hshorter grown
      | echo text rule place lower out grown => exact hgoes place hshorter grown
      | token text rule place lower out grown => exact ⟨_, _, rfl, grown⟩
      | eof text place lower out grown => exact ⟨_, _, rfl, grown⟩
      | fatal failed grown => exact ⟨_, _, rfl, grown⟩

end Checked

end NetworkProgram.Flex
