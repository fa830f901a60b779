import NetworkProgram.Foundation.Automata
import NetworkProgram.Libc.Integers
import NetworkProgram.Libc.Memory

set_option autoImplicit false

/-!
# Flex: the skeleton of a scanner

The skeleton that flex puts around the tables of a scanner, for scanners with one start
condition and without `REJECT` and `yymore`.  The tables, the labels and the variables keep
flex's names.  A position is an index into `yy_ch_buf`; `none` is an access outside of the
buffer or of a table.  Sizes and counts are naturals; `yy_buf_size` bounds them, so that they
are the code's as long as it stays in the range of an `int`.
-/

namespace NetworkProgram.Flex

open NetworkProgram.Foundation
open NetworkProgram.Libc

/-- `yy_accept`, `yy_ec`, `yy_base` and so on. -/
structure ScanTables where
  accept : List Nat
  ec : List Nat
  metas : List Nat
  base : List Nat
  defaults : List Nat
  nxt : List Nat
  chk : List Nat
  /-- The `yy_base` of the states that nothing leads out of. -/
  jamBase : Nat
  jam : Nat
  /-- The states from here on are templates. -/
  templates : Nat
  /-- `YY_END_OF_BUFFER` -/
  endOfBuffer : Nat

namespace ScanTables

variable (T : ScanTables)

/-- The loop over `yy_chk` and `yy_def`, and the transition behind it. -/
def gotoFrom : Nat → Nat → Nat → Option Nat
  | 0, _, _ => none
  | fuel + 1, state, c => do
      let base ← T.base[state]?
      let chk ← T.chk[base + c]?
      if chk = state then T.nxt[base + c]?
      else
        let state ← T.defaults[state]?
        let c ← if T.templates ≤ state then T.metas[c]? else some c
        gotoFrom fuel state c

/-- `yy_current_state` after a symbol of the class `c`. -/
def goto (state c : Nat) : Option Nat := T.gotoFrom T.defaults.length state c

/-- The class of a symbol of the text; in the buffer the class 0 of NUL marks the end. -/
def symbol (c : UInt8) : Option Nat := if c = 0 then some 1 else T.ec[c.toNat]?

/-- The automaton in the tables. -/
def automaton : Automaton Nat UInt8 where
  start := 1
  next := fun state c =>
    ((T.symbol c).bind fun k => T.goto state k).filter fun t => t != T.jam
  accept := fun state => (T.accept[state]?.filter (· != 0)).map (· - 1)

end ScanTables

/-! ## The scanner -/

/-- `yy_buffer_status` -/
inductive Status
  | fresh
  | normal
  | eofPending
  deriving DecidableEq, Repr

/-- The variables of the scanner and of its buffer. -/
structure Scan where
  chBuf : Bytes
  bufSize : Nat
  /-- `yy_current_buffer->yy_n_chars`; `nChars` is `yy_n_chars`. -/
  bufNChars : Nat
  status : Status
  nChars : Nat
  cBufP : Nat
  textPtr : Nat
  holdChar : UInt8
  lastAcceptingState : Nat
  lastAcceptingCpos : Nat
  /-- What is still to be read from `yyin`, and what was written to `yyout`. -/
  yyin : Bytes
  yyout : Bytes
  deriving DecidableEq, Repr

/-- What the action of a rule does with `yytext`. -/
inductive LexAction (τ : Type)
  | token (make : Bytes → τ)
  | skip
  | echo

structure Scanner (τ : Type) where
  tables : ScanTables
  /-- The actions of the rules 1, 2, … -/
  actions : List (LexAction τ)
  /-- `YY_BUF_SIZE` and `YY_READ_BUF_SIZE` -/
  initialSize : Nat
  readBufSize : Nat

/-- Where the scanner goes on: at the top of the loop, at `yy_match` or at
`yy_find_action`, the last two with `yy_bp`, `yy_cp` and `yy_current_state`. -/
inductive Label
  | top
  | yyMatch (bp cp state : Nat)
  | findAction (bp cp state : Nat)
  deriving DecidableEq, Repr

inductive Turn (τ : Type)
  | goto (label : Label)
  /-- `return`; `none` is `YY_NULL`. -/
  | ret (token : Option τ)
  | fatal
  deriving DecidableEq, Repr

/-- What `yy_get_next_buffer` returns. -/
inductive Refill
  | endOfFile
  | lastMatch
  | continueScan
  | fatal
  deriving DecidableEq, Repr

def store (buf : Bytes) (i : Nat) (c : UInt8) : Option Bytes :=
  if i < buf.length then some (buf.set i c) else none

/-- `*(dest++) = *(source++)`, `n` times. -/
def copyDown : Nat → Nat → Nat → Bytes → Option Bytes
  | 0, _, _, buf => some buf
  | n + 1, dest, source, buf => do
      let c ← buf[source]?
      let buf ← store buf dest c
      copyDown n (dest + 1) (source + 1) buf

/-- How `yyin` is read. -/
structure Source where
  /-- `yy_is_interactive` -/
  interactive : Bool
  /-- Behind the last byte a read fails, so that `ferror(yyin)`, instead of finding the end. -/
  broken : Bool

/-- A file or a terminal that is read without an error. -/
def Source.sound (interactive : Bool) : Source := { interactive := interactive, broken := false }

/-- The loop of `getc` for an interactive buffer: what it puts there, and whether the last
`getc` returned `EOF`. -/
def getcLine : Nat → Bytes → Bytes × Bool
  | 0, _ => ([], false)
  | _ + 1, [] => ([], true)
  | n + 1, c :: input =>
      if c = lf then ([c], false) else (c :: (getcLine n input).1, (getcLine n input).2)

/-- `YY_INPUT`: a line or less from a terminal, a full block or the rest from a file; `none`
is the fatal error of a read that failed.  In a file it counts only where there is no data. -/
def yyInput (source : Source) (maxSize : Nat) (input : Bytes) : Option Bytes :=
  if source.interactive then
    let (data, eof) := getcLine maxSize input
    if eof && source.broken then none else some data
  else
    let data := input.take maxSize
    if data.isEmpty && source.broken then none else some data

namespace Scan

/-- `yy_flush_buffer` and `yy_load_buffer_state`, which are what `yyrestart` comes to. -/
def restart (s : Scan) : Option Scan := do
  let buf ← store s.chBuf 0 0
  let buf ← store buf 1 0
  let c ← buf[0]?
  some { s with chBuf := buf, bufNChars := 0, status := .fresh, nChars := 0, textPtr := 0
                cBufP := 0, holdChar := c }

/-- A buffer that is scanned for the first time. -/
def scanned (s : Scan) : Scan :=
  if s.status = .fresh then { s with nChars := s.bufNChars, status := .normal } else s

/-- The loop that doubles the buffer while there is no room behind the text that stays;
without memory that is a fatal error. -/
def enlarge (heap : Heap) (numberToMove : Nat) : Nat → Bytes → Nat → Option (Bytes × Nat)
  | 0, buf, size => some (buf, size)
  | fuel + 1, buf, size =>
      if size ≤ numberToMove + 1 then
        let newSize := if toInt (2 * size) ≤ 0 then size + size / 8 else 2 * size
        match realloc heap buf (newSize + 2) with
        | none => none
        | some buf => enlarge heap numberToMove fuel buf newSize
      else some (buf, size)

/-- The two bytes that end the buffer, behind the `yy_n_chars` and the text that stayed. -/
def close (numberToMove : Nat) (s : Scan) : Option Scan := do
  let nChars := s.nChars + numberToMove
  let buf ← store s.chBuf nChars 0
  let buf ← store buf (nChars + 1) 0
  some { s with nChars := nChars, chBuf := buf, textPtr := 0 }

/-- What `yy_get_next_buffer` does behind the read. -/
def refilled (numberToMove : Nat) (s : Scan) : Option (Refill × Scan) := do
  let (ret, s) ←
    if s.nChars = 0 then
      if numberToMove = 0 then s.restart.map fun s => (Refill.endOfFile, s)
      else some (Refill.lastMatch, { s with status := .eofPending })
    else some (Refill.continueScan, s)
  (s.close numberToMove).map fun s => (ret, s)

end Scan

namespace Scanner

variable {τ : Type} (S : Scanner τ)

/-- `yy_create_buffer`, before the first token; `none` is a fatal error. -/
def create (heap : Heap) (yyin : Bytes) : Option (Option Scan) :=
  (malloc heap (S.initialSize + 2)).map fun buf =>
    ({ chBuf := buf, bufSize := S.initialSize, bufNChars := 0, status := .fresh, nChars := 0
       cBufP := 0, textPtr := 0, holdChar := 0, lastAcceptingState := 0, lastAcceptingCpos := 0
       yyin := yyin, yyout := [] } : Scan).restart

/-! ### Transitions -/

/-- `if (yy_accept[yy_current_state])`, with what it notes. -/
def note (state cp : Nat) (s : Scan) : Option Scan := do
  let act ← S.tables.accept[state]?
  some (if act = 0 then s else { s with lastAcceptingState := state, lastAcceptingCpos := cp })

/-- `yy_match`, on what stands in the buffer from `yy_cp` on. -/
def yyMatch : Bytes → Nat → Nat → Scan → Option (Nat × Nat × Scan)
  | [], _, _, _ => none
  | c :: rest, cp, state, s => do
      let k ← S.tables.ec[c.toNat]?
      let s ← S.note state cp s
      let state ← S.tables.goto state k
      let base ← S.tables.base[state]?
      if base = S.tables.jamBase then some (cp + 1, state, s) else yyMatch rest (cp + 1) state s

/-- The loop of `yy_get_previous_state` over `n` symbols. -/
def previousFrom : Nat → Bytes → Nat → Nat → Scan → Option (Nat × Scan)
  | 0, _, _, state, s => some (state, s)
  | _ + 1, [], _, _, _ => none
  | n + 1, c :: rest, cp, state, s => do
      let k ← S.tables.symbol c
      let s ← S.note state cp s
      let state ← S.tables.goto state k
      previousFrom n rest (cp + 1) state s

/-- `yy_get_previous_state` -/
def getPreviousState (s : Scan) : Option (Nat × Scan) :=
  S.previousFrom (s.cBufP - s.textPtr) (s.chBuf.drop s.textPtr) s.textPtr 1 s

/-- `yy_try_NUL_trans`; `none` where the automaton jams. -/
def tryNulTrans (state : Nat) (s : Scan) : Option (Option Nat × Scan) := do
  let s ← S.note state s.cBufP s
  let state ← S.tables.goto state 1
  some (if state = S.tables.jam then none else some state, s)

/-! ### The end of the buffer -/

/-- The part of `yy_get_next_buffer` that reads; `none` is a fatal error. -/
def fill (source : Source) (heap : Heap) (numberToMove : Nat) (s : Scan) : Option Scan :=
  if s.status = .eofPending then some { s with nChars := 0, bufNChars := 0 }
  else
    (Scan.enlarge heap numberToMove (numberToMove + 1) s.chBuf s.bufSize).bind fun b =>
      (yyInput source (min (b.2 - numberToMove - 1) S.readBufSize) s.yyin).map fun data =>
        { s with chBuf := memcpy b.1 numberToMove data, bufSize := b.2, nChars := data.length
                 bufNChars := data.length, yyin := s.yyin.drop data.length }

/-- `yy_get_next_buffer` -/
def getNextBuffer (source : Source) (heap : Heap) (s : Scan) : Option (Refill × Scan) :=
  if s.nChars + 1 < s.cBufP then some (.fatal, s)
  else do
    let numberToMove := s.cBufP - s.textPtr - 1
    let buf ← copyDown numberToMove 0 s.textPtr s.chBuf
    match S.fill source heap numberToMove { s with chBuf := buf } with
    | none => some (.fatal, s)
    | some s => s.refilled numberToMove

/-- A NUL in the data, with the number of symbols before it that were matched. -/
def realNul (amount : Nat) (s : Scan) : Option (Turn τ × Scan) := do
  let (state, s) ← S.getPreviousState { s with cBufP := s.textPtr + amount }
  let (nextState, s) ← S.tryNulTrans state s
  match nextState with
  | some next =>
      some (.goto (.yyMatch s.textPtr (s.cBufP + 1) next), { s with cBufP := s.cBufP + 1 })
  | none => some (.goto (.findAction s.textPtr s.cBufP state), s)

/-- The end of the data; `yywrap` returns 1. -/
def dataEnd (source : Source) (heap : Heap) (amount : Nat) (s : Scan) :
    Option (Turn τ × Scan) := do
  let (ret, s) ← S.getNextBuffer source heap s
  match ret with
  | .endOfFile => some (.ret none, { s with cBufP := s.textPtr })
  | .continueScan =>
      let (state, s) ← S.getPreviousState { s with cBufP := s.textPtr + amount }
      some (.goto (.yyMatch s.textPtr s.cBufP state), s)
  | .lastMatch =>
      let (state, s) ← S.getPreviousState { s with cBufP := s.nChars }
      some (.goto (.findAction s.textPtr s.cBufP state), s)
  | .fatal => some (.fatal, s)

/-- The case `YY_END_OF_BUFFER`, with `yy_cp`. -/
def endOfBuffer (source : Source) (heap : Heap) (cp : Nat) (s : Scan) :
    Option (Turn τ × Scan) := do
  let amount := cp - s.textPtr - 1
  let buf ← store s.chBuf cp s.holdChar
  let s := ({ s with chBuf := buf } : Scan).scanned
  if s.cBufP ≤ s.nChars then S.realNul amount s else S.dataEnd source heap amount s

/-! ### Actions -/

/-- `yytext`, which is a string, and which has `yyleng` bytes. -/
def doAction (source : Source) (heap : Heap) (act cp : Nat) (s : Scan) :
    Option (Turn τ × Scan) :=
  if act = S.tables.endOfBuffer then S.endOfBuffer source heap cp s
  else if act = 0 then do
    -- YY_DO_BEFORE_ACTION is undone, and the last match is looked at once more.
    let buf ← store s.chBuf cp s.holdChar
    some (.goto (.findAction s.textPtr s.lastAcceptingCpos s.lastAcceptingState),
      { s with chBuf := buf })
  else
    match S.actions[act - 1]? with
    | none => some (.fatal, s)
    | some (.token make) => some (.ret (some (make (cstr (s.chBuf.drop s.textPtr)))), s)
    | some .skip => some (.goto .top, s)
    | some .echo =>
        let text := (s.chBuf.drop s.textPtr).take (cp - s.textPtr)
        some (.goto .top, { s with yyout := s.yyout ++ text })

/-- `yy_act` and `yy_cp` at `yy_find_action`, where the scanner may have to back up. -/
def backUp (cp state : Nat) (s : Scan) : Option (Nat × Nat) := do
  let act ← S.tables.accept[state]?
  if act = 0 then
    (S.tables.accept[s.lastAcceptingState]?).map fun act => (act, s.lastAcceptingCpos)
  else some (act, cp)

/-- `yy_find_action` and `YY_DO_BEFORE_ACTION`. -/
def findAction (source : Source) (heap : Heap) (bp cp state : Nat) (s : Scan) :
    Option (Turn τ × Scan) := do
  let (act, cp) ← S.backUp cp state s
  let c ← s.chBuf[cp]?
  let buf ← store s.chBuf cp 0
  S.doAction source heap act cp
    { s with chBuf := buf, textPtr := bp, holdChar := c, cBufP := cp }

/-- From a label to the next. -/
def turn (source : Source) (heap : Heap) (label : Label) (s : Scan) :
    Option (Turn τ × Scan) :=
  match label with
  | .top => do
      let bp := s.cBufP
      let buf ← store s.chBuf bp s.holdChar
      let (cp, state, s) ← S.yyMatch (buf.drop bp) bp 1 { s with chBuf := buf }
      S.findAction source heap bp cp state s
  | .yyMatch bp cp state => do
      let (cp, state, s) ← S.yyMatch (s.chBuf.drop cp) cp state s
      S.findAction source heap bp cp state s
  | .findAction bp cp state => S.findAction source heap bp cp state s

/-- `yylex`, label by label. -/
def yylexFrom (source : Source) (heap : Heap) : Nat → Label → Scan → Option (Turn τ × Scan)
  | 0, label, s => some (.goto label, s)
  | fuel + 1, label, s => do
      let (next, s) ← S.turn source heap label s
      match next with
      | .goto label => yylexFrom source heap fuel label s
      | _ => some (next, s)

end Scanner

end NetworkProgram.Flex
