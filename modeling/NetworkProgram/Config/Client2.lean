import NetworkProgram.Config.Settings
import NetworkProgram.Config.Yylex
import NetworkProgram.Foundation.PulledParser

set_option autoImplicit false

/-!
# Config: the start of `chpater12/client-2.c`

`main` looks for its configuration under the name it was started with, and goes on to the
server only if the file configures that name.  The parser calls `yylex` for each token, so
that nothing here depends on how the file is read (`parseFile_eq`).  Memory is never short
there and no read fails; otherwise the scanner ends the program before `client_socket`.
-/

namespace NetworkProgram.Config

open NetworkProgram.Foundation
open NetworkProgram.Libc
open NetworkProgram.Flex

/-! ## The parser and the scanner together -/

section File

variable (source : Source) (heap : Heap) (text : Bytes)

/-- A call of `yylex` by `yyparse`; the first of them makes the buffer. -/
def nextToken (s : Option Scan) : Option (Option Token × Option Scan) := do
  let s ← match s with
    | some s => some s
    | none => (scanner.create heap text).join
  let (next, s) ← yylex source heap text s
  match next with
  | .ret t => some (t, some s)
  | _ => none

/-- `yyparse` on a file; `none` where the scanner ends the program. -/
def parseFile (g : Globals) : Option (Outcome Token Value Globals) :=
  (parser.pullRuns (nextToken source heap text) (9 * text.length + 9) (start [] g) none).map
    Prod.fst

end File

theorem length_scan_le {α τ : Type} (rules : List (Rule α τ)) (text : List α) :
    (scan rules text).length ≤ text.length := by
  induction h : text.length using Nat.strong_induction_on generalizing text with
  | _ n ih =>
      cases text with
      | nil => exact Nat.zero_le _
      | cons c rest =>
          subst h
          rw [scan_cons]
          cases hbest : longest (c :: rest) rules with
          | none =>
              have hrest := ih rest.length (Nat.lt_succ_self _) rest rfl
              exact hrest.trans (Nat.le_succ _)
          | some best =>
              have hpos := longest_pos (c :: rest) rules best hbest
              have hlen : ((c :: rest).drop best.2).length < (c :: rest).length := by
                rw [List.length_drop, List.length_cons]
                omega
              have hrest := ih _ hlen _ rfl
              have htoken : (best.1.token ((c :: rest).take best.2)).toList.length ≤ 1 := by
                cases best.1.token ((c :: rest).take best.2) with
                | none => exact Nat.zero_le 1
                | some t => exact Nat.le_refl 1
              dsimp only
              rw [List.length_append]
              omega

/-- What the scanner has still to return. -/
def Left (text : Bytes) (s : Option Scan) (ts : List Token) : Prop :=
  match s with
  | none => ts = tokens text
  | some s => ∃ p, scanner.At .top s p ∧ Scanner.weight .top s p ≤ 4 * text.length + 1 ∧
      ts = tokens p

section Supplies

variable (interactive : Bool) (contents : Nat → Nat → UInt8) {text : Bytes}

theorem yylex_eq {s : Scan} {p : Bytes} (hplace : scanner.At .top s p)
    (hweight : Scanner.weight .top s p ≤ 4 * text.length + 1) :
    ∃ s',
      yylex (.sound interactive) (Heap.ample contents) text s = some (.ret (tokens p).head?, s') ∧
      Left text (some s') (tokens p).tail := by
  obtain ⟨t, s', out, rest, hcall, hlexes, hplace', -, hweight'⟩ | ⟨-, hfails⟩ :=
    reads.yylexFrom_eq (.sound interactive) (Heap.ample contents) hplace
      (Nat.lt_succ_of_le hweight)
  · obtain ⟨hscan, -, hnone, -⟩ := reads.lexes_eq hlexes
    have htokens : tokens p = t.toList ++ tokens rest := hscan
    have hleft : Left text (some s') (tokens rest) :=
      ⟨rest, hplace', hweight'.trans hweight, rfl⟩
    rw [htokens]
    cases t with
    | none =>
        obtain rfl := hnone rfl
        exact ⟨s', hcall, hleft⟩
    | some t => exact ⟨s', hcall, hleft⟩
  · exact absurd hfails (not_fails_sound interactive contents)

theorem nextToken_eq {s : Option Scan} {ts : List Token} (h : Left text s ts) :
    ∃ s', nextToken (.sound interactive) (Heap.ample contents) text s = some (ts.head?, s') ∧
      Left text s' ts.tail := by
  have hyylex : ∀ {s : Scan} {p : Bytes}, scanner.At .top s p →
      Scanner.weight .top s p ≤ 4 * text.length + 1 →
      ∃ s', nextToken (.sound interactive) (Heap.ample contents) text (some s) =
        some ((tokens p).head?, s') ∧ Left text s' (tokens p).tail := by
    intro s p hplace hweight
    obtain ⟨s', hcall, hleft⟩ :=
      yylex_eq interactive contents hplace hweight
    refine ⟨some s', ?_, hleft⟩
    simp only [nextToken, Option.bind_eq_bind, Option.bind_some, hcall]
  cases s with
  | some s =>
      obtain ⟨p, hplace, hweight, rfl⟩ := h
      exact hyylex hplace hweight
  | none =>
      obtain rfl : ts = tokens text := h
      obtain ⟨s, hcreate, hplace, -, hweight, -⟩ :=
        reads.create_eq (Heap.ample contents) rfl text
      obtain ⟨s', hcall, hleft⟩ := hyylex hplace hweight.le
      refine ⟨s', ?_, hleft⟩
      rw [nextToken, hcreate]
      exact hcall

theorem supplies_nextToken :
    Supplies (nextToken (.sound interactive) (Heap.ample contents) text) (Left text) where
  eof := fun h => nextToken_eq interactive contents h
  token := fun h => nextToken_eq interactive contents h

/-- More rounds than `yyparse` counts change nothing. -/
theorem runs_eq_yyparse {n : Nat} (hn : 9 * (tokens text).length + 9 ≤ n) (g : Globals) :
    parser.runs n (start (tokens text) g) = yyparse text g := by
  obtain ⟨name, statements, hne, htokens⟩ | ⟨g', hend⟩ := program_or_abort (tokens text) g
  · have hlen := length_programTokens name statements
    have hends : parser.Ends (9 * statements.length + 5) (start (programTokens name statements) g)
        (.accept (runProgram name statements g)) := ends_program hne
    rw [← htokens] at hends hlen
    rw [yyparse, hends n (by omega), hends _ (by omega)]
  · rw [yyparse, hend n hn, hend _ (Nat.le_refl _)]

/-- The parse of a file is the parse of its tokens. -/
theorem parseFile_eq (g : Globals) :
    parseFile (.sound interactive) (Heap.ample contents) text g = some (yyparse text g) := by
  have hlen : (tokens text).length ≤ text.length := length_scan_le lexerRules text
  obtain ⟨s', hrun⟩ := Parser.pullRuns_eq (P := parser) (p := start (tokens text) g)
    (supplies_nextToken interactive contents)
    (9 * text.length + 9) (s := none) rfl
  rw [runs_eq_yyparse (by omega)] at hrun
  rw [parseFile]
  change (parser.pullRuns _ _ (start (tokens text) g).pulled none).map Prod.fst = _
  rw [hrun, Option.map_some]
  obtain ⟨g', h⟩ | ⟨g', h⟩ := yyparse_ends text g <;> rw [h] <;> rfl

end Supplies

/-! ## What the entries say -/

/-- The value of the last `hostnm` statement, as far as it fits. -/
def hostOf (entries : List Entry) : Bytes :=
  match (entries.filter Entry.isHostnm).getLast? with
  | some (.hostnm h) => h.bytes.take 79
  | _ => []

/-- The value of the last `portnm` statement; a number is printed as the `int` that it is
cut down to. -/
def portOf (entries : List Entry) : Bytes :=
  match (entries.filter Entry.isPortnm).getLast? with
  | some (.number d) => (decimal ((atoi d.bytes).bmod (2 ^ 32))).take 79
  | some (.portnm p) => p.bytes.take 79
  | _ => []

theorem g_hostnm_run (entries : List Entry) :
    (runEntries entries .zero).g_hostnm.text = hostOf entries := by
  have hlast := hostnmSet_run entries .zero
  unfold HostnmSet at hlast
  unfold hostOf
  cases hl : (entries.filter Entry.isHostnm).getLast? with
  | none =>
      rw [hl] at hlast
      exact congrArg Buffer.text hlast
  | some e =>
      rw [hl] at hlast
      cases e with
      | hostnm h => exact hlast
      | number d | portnm p => exact congrArg Buffer.text hlast

theorem g_portnm_run (entries : List Entry) :
    (runEntries entries .zero).g_portnm.text = portOf entries := by
  have hlast := last_write Globals.g_portnm Entry.isPortnm
    (fun e g he => by cases e with | hostnm h => rfl | number d | portnm p => cases he)
    entries .zero
  unfold portOf
  cases hl : (entries.filter Entry.isPortnm).getLast? with
  | none =>
      rw [hl] at hlast
      exact congrArg Buffer.text hlast
  | some e =>
      rw [hl] at hlast
      obtain ⟨g₀, hg₀⟩ := hlast
      have hkind := (List.mem_filter.mp (List.mem_of_getLast? hl)).2
      cases e with
      | hostnm h => cases hkind
      | number d =>
          rw [hg₀]
          exact Buffer.text_print (nul_notMem_decimal _)
      | portnm p =>
          rw [hg₀]
          exact p.text_print g₀.g_portnm

/-! ## `main` -/

/-- `strrchr`: what stands behind the last `c`. -/
def strrchr (c : UInt8) (text : Bytes) : Option Bytes :=
  if c ∈ text then some (text.reverse.takeWhile (· ≠ c)).reverse else none

/-- `ptr`, for the C string `argv[0]`. -/
def programName (argv0 : Bytes) : Bytes := (strrchr 47 (cstr argv0)).getD (cstr argv0)

/-- `.conf` -/
def confSuffix : Bytes := ascii ['.', 'c', 'o', 'n', 'f']

/-- `main` up to the call of `client_socket`. -/
inductive Startup
  /-- `Cannot read %s`, before or after `yyparse` -/
  | cannotRead (fname : Bytes)
  /-- `Configuration not found for %s` -/
  | notFound (ptr : Bytes)
  | clientSocket (hostnm portnm : Bytes)
  deriving DecidableEq

/-- `fname` is not initialized; `fopen` finds the contents of a file. -/
def main (source : Source) (heap : Heap) (fname : Buffer) (fopen : Bytes → Option Bytes)
    (argv0 : Bytes) : Option Startup :=
  let ptr := programName argv0
  let fname := fname.print (ptr ++ confSuffix)
  match fopen fname.text with
  | none => some (.cannotRead fname.text)
  | some text =>
      (parseFile source heap text .zero).map fun outcome =>
        match outcome with
        | .accept g =>
            if ptr = g.g_program_name.text then .clientSocket g.g_hostnm.text g.g_portnm.text
            else .notFound ptr
        | _ => .cannotRead fname.text

theorem nul_notMem_programName (argv0 : Bytes) : (0 : UInt8) ∉ programName argv0 := by
  have hcstr : (0 : UInt8) ∉ cstr argv0 := fun hmem => by
    have hne := List.all_eq_true.mp List.all_takeWhile 0 hmem
    exact absurd hne (by decide)
  unfold programName strrchr
  split
  · intro hmem
    have hmem := List.mem_reverse.mp hmem
    exact hcstr (List.mem_reverse.mp ((List.takeWhile_prefix _).subset hmem))
  · exact hcstr

/-- However the program was started and whatever files there are, it goes on to the server if
and only if the file with its name, cut to 79 bytes, is a program of that name; host and
port are what the last statements of their kinds say. -/
theorem main_clientSocket_iff (interactive : Bool) (contents : Nat → Nat → UInt8) (fname : Buffer)
    (fopen : Bytes → Option Bytes) (argv0 hostnm portnm : Bytes) :
    main (.sound interactive) (Heap.ample contents) fname fopen argv0 =
        some (.clientSocket hostnm portnm) ↔
      ∃ (text : Bytes) (name : Word) (entries : List Entry),
        fopen ((programName argv0 ++ confSuffix).take 79) = some text ∧
          Spaced isGap (programLexemes name entries) text ∧ name.Plain ∧ entries ≠ [] ∧
          (∀ e ∈ entries, e.Ok) ∧ name.bytes.take 79 = programName argv0 ∧
          hostnm = hostOf entries ∧ portnm = portOf entries := by
  have hfname : (fname.print (programName argv0 ++ confSuffix)).text =
      (programName argv0 ++ confSuffix).take 79 := by
    refine Buffer.text_print fun hmem => ?_
    obtain hmem | hmem := List.mem_append.mp hmem
    · exact nul_notMem_programName argv0 hmem
    · exact absurd hmem (by decide)
  unfold main
  dsimp only
  rw [hfname]
  constructor
  · intro h
    split at h
    · cases h
    rename_i text htext
    rw [parseFile_eq, Option.map_some] at h
    obtain ⟨g', haccept⟩ | ⟨g', habort⟩ := yyparse_ends text .zero
    · rw [haccept] at h
      dsimp only at h
      split at h
      · rename_i hname
        obtain ⟨s, statements, -, htokens, -⟩ := yyparse_accept haccept
        obtain ⟨name, entries, hspaced⟩ := exists_program htokens
        obtain ⟨hplain, hne, hok, rfl⟩ := reading_of_accept haccept hspaced
        cases h
        refine ⟨text, name, entries, htext, hspaced, hplain, hne, hok, ?_, ?_, ?_⟩
        · rw [hname]
          exact (name.text_print _).symm
        · exact g_hostnm_run entries
        · exact g_portnm_run entries
      · cases h
    · rw [habort] at h
      cases h
  · rintro ⟨text, name, entries, htext, hspaced, hplain, hne, hok, hname, rfl, rfl⟩
    have htokens := (tokens_spaced hspaced (apart_program name entries)).trans
      (program_tokens hplain hok)
    have hstatements : entries.map Entry.statement ≠ [] := fun hnil =>
      hne (List.map_eq_nil_iff.mp hnil)
    have haccept := yyparse_program hstatements htokens .zero
    have hprogram :
        (runProgram name.bytes (entries.map Entry.statement) .zero).g_program_name.text =
          name.bytes.take 79 := name.text_print _
    rw [htext]
    dsimp only
    rw [parseFile_eq, Option.map_some, haccept]
    dsimp only
    rw [hprogram, if_pos hname.symm]
    exact congrArg some (congrArg₂ Startup.clientSocket (g_hostnm_run entries)
      (g_portnm_run entries))

end NetworkProgram.Config
