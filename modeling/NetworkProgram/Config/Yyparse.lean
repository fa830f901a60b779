import NetworkProgram.Config.Lexer
import NetworkProgram.Foundation.TableParser
import NetworkProgram.Libc.Memory

set_option autoImplicit false

/-!
# Config: the parser of `chpater12/parser.y`

`yyparse` with the tables of `parser.tab.c` and the actions of the four rules that have
one.
-/

namespace NetworkProgram.Config

open NetworkProgram.Foundation
open NetworkProgram.Libc

/-! ## The configuration -/

/-- `char[80]` -/
def Buffer : Type := { buf : Bytes // buf.length = 80 }

namespace Buffer

/-- `snprintf(buf, sizeof(buf), …)` -/
def print (buf : Buffer) (text : Bytes) : Buffer :=
  ⟨(snprintf buf.1 text).1, (length_snprintf (by rw [buf.2]; decide) text).trans buf.2⟩

def text (buf : Buffer) : Bytes := cstr buf.1

def zero : Buffer := ⟨List.replicate 80 0, List.length_replicate⟩

theorem text_print {buf : Buffer} {text : Bytes} (h : (0 : UInt8) ∉ text) :
    (buf.print text).text = text.take 79 := by
  rw [Buffer.text, print, cstr_snprintf h, buf.2]

end Buffer

structure Globals where
  g_program_name : Buffer
  g_hostnm : Buffer
  g_portnm : Buffer

/-- Before `yyparse`. -/
def Globals.zero : Globals := ⟨.zero, .zero, .zero⟩

/-! ## The tables -/

/-- `YYSTYPE`: what `strdup` returned, or a number. -/
inductive Value
  | text (text : Bytes)
  | number (n : Int)
  deriving DecidableEq

/-- `(char *)`, where the value is one. -/
def Value.toText : Value → Bytes
  | .text s => s
  | .number _ => []

/-- `(int)`, where the value is a number. -/
def Value.toInt : Value → Int
  | .text _ => 0
  | .number n => n.bmod (2 ^ 32)

namespace Token

/-- `yytranslate` -/
def code : Token → Nat
  | hostnm => 3
  | portnm => 4
  | string _ => 5
  | num _ => 6
  | eq => 7
  | quote => 8
  | openParen => 9
  | closeParen => 10
  | semicolon => 11

def value : Token → Option Value
  | string text => some (.text text)
  | num n => some (.number n)
  | _ => none

end Token

def tables : Tables where
  pact := [-2, -1, 9, 2, -5, 3, 4, -5, -3, -5, -5, 5, -4, -5, -5, 7, 6, 10, 8, -5, 11, 12, 13, -5,
    -5]
  pactNinf := -5
  defact := [0, 0, 0, 0, 1, 0, 0, 5, 0, 3, 4, 0, 0, 2, 6, 0, 0, 0, 0, 8, 0, 0, 0, 7, 9]
  table := [5, 6, 16, 1, 17, 5, 6, 13, 3, 4, 11, 12, 18, 15, 0, 20, 21, 19, 0, 22, 0, 0, 14, 23, 24]
  tableNinf := -1
  check := [3, 4, 6, 5, 8, 3, 4, 10, 9, 0, 7, 7, 5, 8, -1, 5, 8, 11, -1, 8, -1, -1, 8, 11, 11]
  last := 24
  r1 := [0, 12, 13, 14, 14, 15, 15, 16, 17, 17]
  r2 := [0, 2, 4, 1, 1, 1, 2, 6, 4, 6]
  pgoto := [-5, -5, 14, -5, -5, -5]
  defgoto := [-1, 2, 7, 8, 9, 10]
  ntokens := 12
  final := 4

/-- The `switch` over the rules. -/
def runRule (rule : Nat) (args : List Value) (g : Globals) : Globals :=
  let arg := fun n => args.getD (n - 1) (.number 0)
  match rule with
  | 2 => { g with g_program_name := g.g_program_name.print (arg 1).toText }
  | 7 => { g with g_hostnm := g.g_hostnm.print (arg 4).toText }
  | 8 => { g with g_portnm := g.g_portnm.print (decimal (arg 3).toInt) }
  | 9 => { g with g_portnm := g.g_portnm.print (arg 4).toText }
  | _ => g

def parser : Parser Token Value Globals where
  tables := tables
  maxDepth := 10000
  code := Token.code
  code_pos := fun t => by cases t <;> exact Nat.le_of_ble_eq_true rfl
  code_lt := fun t => by cases t <;> exact Nat.le_of_ble_eq_true rfl
  value := Token.value
  run := runRule
  noRecovery := by decide

def start (ts : List Token) (g : Globals) : Parse Token Value Globals where
  stack := [(0, .number 0)]
  look := none
  input := ts
  yylval := .number 0
  globals := g

/-- `yyparse` on the tokens of a text; no parse needs more rounds (`yyparse_ends`). -/
def yyparse (text : Bytes) (g : Globals) : Outcome Token Value Globals :=
  parser.runs (9 * (tokens text).length + 9) (start (tokens text) g)

end NetworkProgram.Config
