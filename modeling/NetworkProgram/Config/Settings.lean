import Mathlib.Data.List.Induction
import NetworkProgram.Config.Programs

set_option autoImplicit false

/-!
# Config: what an accepted text configures

Each of the globals holds what the last statement of its kind says.  A value between
quotes is scanned as any other word, so that an accepted text has a value there that the
scanner returns as `T_STRING`.
-/

namespace NetworkProgram.Config

open NetworkProgram.Foundation
open NetworkProgram.Libc

/-! ## Words and numbers in the buffers -/

section Buffers

theorem Word.nul_notMem (w : Word) : (0 : UInt8) ∉ w.bytes := by
  intro hmem
  have hzero := w.word 0 hmem
  revert hzero
  decide

theorem Word.text_print (w : Word) (buf : Buffer) :
    (buf.print w.bytes).text = w.bytes.take 79 := Buffer.text_print w.nul_notMem

theorem nul_notMem_decimal (n : Int) : (0 : UInt8) ∉ decimal n := fun hmem =>
  (mem_decimal hmem).elim (fun heq => absurd heq (by decide)) fun heq => absurd heq (by decide)

/-- An `int` fits into the buffer. -/
theorem text_print_decimal {n : Nat} (h : n < 2 ^ 31) (buf : Buffer) :
    (buf.print (decimal n)).text = decimal n := by
  have hlen : (Nat.toDigits 10 n).length ≤ 10 :=
    (Nat.length_toDigits_le_iff (by decide) (by decide)).mpr (Nat.lt_trans h (by decide))
  have hsign : ¬ (n : Int) < 0 := by omega
  rw [Buffer.text_print (nul_notMem_decimal n)]
  refine List.take_of_length_le ?_
  rw [decimal, if_neg hsign, List.nil_append, ascii, List.length_map, Int.natAbs_natCast]
  omega

theorem atoi_digits {w : Bytes} (hall : w.all isdigit = true) (hsmall : digits 0 w < 2 ^ 31) :
    (atoi w).bmod (2 ^ 32) = digits 0 w := by
  have hatoi := atoi_append hall [] (by simp) hsmall
  rw [List.append_nil] at hatoi
  rw [hatoi, Int.bmod_def]
  omega

end Buffers

/-! ## The last statement of a kind -/

namespace Entry

def isHostnm : Entry → Bool
  | hostnm _ => true
  | _ => false

def isPortnm : Entry → Bool
  | hostnm _ => false
  | _ => true

end Entry

def runEntries (entries : List Entry) (g : Globals) : Globals :=
  (entries.map Entry.statement).foldl Statement.run g

/-- A buffer that only statements of one kind write holds what the last of them wrote. -/
theorem last_write (buf : Globals → Buffer) (kind : Entry → Bool)
    (hother : ∀ e g, kind e = false → buf (Statement.run g e.statement) = buf g)
    (entries : List Entry) (g : Globals) :
    match (entries.filter kind).getLast? with
    | some e => ∃ g₀, buf (runEntries entries g) = buf (Statement.run g₀ e.statement)
    | none => buf (runEntries entries g) = buf g := by
  induction entries using List.reverseRecOn with
  | nil => rfl
  | append_singleton entries e ih =>
      have hrun : runEntries (entries ++ [e]) g =
          Statement.run (runEntries entries g) e.statement := by
        rw [runEntries, List.map_append, List.foldl_append]
        rfl
      rw [List.filter_append, hrun]
      cases hkind : kind e with
      | true =>
          rw [List.filter_cons_of_pos hkind, List.filter_nil, List.getLast?_concat]
          exact ⟨_, rfl⟩
      | false =>
          rw [List.filter_cons_of_neg (by simp [hkind]), List.filter_nil, List.append_nil,
            hother e _ hkind]
          exact ih

/-- `g_hostnm` holds the value of the last `hostnm` statement. -/
def HostnmSet (entries : List Entry) (g g' : Globals) : Prop :=
  match (entries.filter Entry.isHostnm).getLast? with
  | some (.hostnm h) => g'.g_hostnm.text = h.bytes.take 79
  | _ => g'.g_hostnm = g.g_hostnm

/-- `g_portnm` holds the value of the last `portnm` statement, if it is a string or a number
of an `int`. -/
def PortnmSet (entries : List Entry) (g g' : Globals) : Prop :=
  match (entries.filter Entry.isPortnm).getLast? with
  | some (.number d) => digits 0 d.bytes < 2 ^ 31 → g'.g_portnm.text = decimal (digits 0 d.bytes)
  | some (.portnm p) => g'.g_portnm.text = p.bytes.take 79
  | _ => g'.g_portnm = g.g_portnm

/-! ## Soundness -/

section Sound

variable {name : Word} {entries : List Entry} {text : Bytes} {g g' : Globals}

/-- Every reading of an accepted text has plain words and the effect it says. -/
theorem reading_of_accept (h : yyparse text g = .accept g')
    (hspaced : Spaced isGap (programLexemes name entries) text) :
    name.Plain ∧ entries ≠ [] ∧ (∀ e ∈ entries, e.Ok) ∧
      g' = { runEntries entries g with
        g_program_name := (runEntries entries g).g_program_name.print name.bytes } := by
  obtain ⟨s, statements, hne, htokens, rfl⟩ := yyparse_accept h
  obtain ⟨hplain, rfl, hok, rfl⟩ := reading_statements hspaced htokens
  exact ⟨hplain, fun hnil => hne (by rw [hnil]; rfl), hok, rfl⟩

theorem hostnmSet_run (entries : List Entry) (g : Globals) :
    HostnmSet entries g (runEntries entries g) := by
  have hlast := last_write Globals.g_hostnm Entry.isHostnm
    (fun e g he => by cases e with | hostnm h => cases he | number d | portnm p => rfl) entries g
  unfold HostnmSet
  cases hl : (entries.filter Entry.isHostnm).getLast? with
  | none =>
      rw [hl] at hlast
      exact hlast
  | some e =>
      rw [hl] at hlast
      obtain ⟨g₀, hg₀⟩ := hlast
      have hkind := (List.mem_filter.mp (List.mem_of_getLast? hl)).2
      cases e with
      | hostnm h =>
          dsimp only
          rw [hg₀]
          exact h.text_print g₀.g_hostnm
      | number d | portnm p => cases hkind

theorem portnmSet_run (hok : ∀ e ∈ entries, e.Ok) (g : Globals) :
    PortnmSet entries g (runEntries entries g) := by
  have hlast := last_write Globals.g_portnm Entry.isPortnm
    (fun e g he => by cases e with | hostnm h => rfl | number d | portnm p => cases he) entries g
  unfold PortnmSet
  cases hl : (entries.filter Entry.isPortnm).getLast? with
  | none =>
      rw [hl] at hlast
      exact hlast
  | some e =>
      rw [hl] at hlast
      obtain ⟨g₀, hg₀⟩ := hlast
      obtain ⟨hmem, hkind⟩ := List.mem_filter.mp (List.mem_of_getLast? hl)
      cases e with
      | hostnm h => cases hkind
      | number d =>
          intro hsmall
          rw [hg₀]
          change (g₀.g_portnm.print (decimal ((atoi d.bytes).bmod (2 ^ 32)))).text = _
          rw [atoi_digits (hok _ hmem) hsmall]
          exact text_print_decimal hsmall g₀.g_portnm
      | portnm p =>
          dsimp only
          rw [hg₀]
          exact p.text_print g₀.g_portnm

/-- An accepted text is a name and at least one statement, with gaps; however it is read so,
each buffer holds what the last statement of its kind says, or what it held before. -/
theorem yyparse_sound (h : yyparse text g = .accept g') :
    (∃ (name : Word) (entries : List Entry), Spaced isGap (programLexemes name entries) text) ∧
      ∀ (name : Word) (entries : List Entry), Spaced isGap (programLexemes name entries) text →
        entries ≠ [] ∧ HostnmSet entries g g' ∧ PortnmSet entries g g' := by
  obtain ⟨s, statements, -, htokens, -⟩ := yyparse_accept h
  refine ⟨exists_program htokens, fun name entries hspaced => ?_⟩
  obtain ⟨-, hne, hok, rfl⟩ := reading_of_accept h hspaced
  exact ⟨hne, hostnmSet_run entries g, portnmSet_run hok g⟩

end Sound

/-- `p{hostnm="ab_";}` -/
def hostOnly : Bytes :=
  ascii ['p', '{', 'h', 'o', 's', 't', 'n', 'm', '=', '"', 'a', 'b', '_', '"', ';', '}']

theorem yyparse_sound_hostOnly :
    (yyparse hostOnly .zero = .accept (runProgram [112] [.hostnm [97, 98]] .zero)) ∧
    ∀ (name : Word) (entries : List Entry), Spaced isGap (programLexemes name entries) hostOnly →
      entries ≠ [] ∧
        HostnmSet entries .zero (runProgram [112] [.hostnm [97, 98]] .zero) ∧
        PortnmSet entries .zero (runProgram [112] [.hostnm [97, 98]] .zero) := by
  have haccept : yyparse hostOnly .zero = .accept (runProgram [112] [.hostnm [97, 98]] .zero) :=
    yyparse_program (List.cons_ne_nil _ _) (by decide) .zero
  exact ⟨haccept, (yyparse_sound haccept).2⟩

/-- `p{portnm=4294967296;}` -/
def bigPort : Bytes :=
  ascii ['p', '{', 'p', 'o', 'r', 't', 'n', 'm', '=', '4', '2', '9', '4', '9', '6', '7', '2', '9',
    '6', ';', '}']

/-- The first text sets no port, and the byte that no rule knows is not in its host name;
the second sets no host, and its port is not an `int`. -/
theorem accepted_otherwise :
    (∃ g', yyparse hostOnly .zero = .accept g' ∧ g'.g_portnm = Globals.zero.g_portnm ∧
      g'.g_hostnm.text = ascii ['a', 'b']) ∧
    ∃ g', yyparse bigPort .zero = .accept g' ∧ g'.g_hostnm = Globals.zero.g_hostnm ∧
      g'.g_portnm.text = ascii ['0'] :=
  ⟨⟨runProgram [112] [.hostnm [97, 98]] .zero,
      yyparse_program (List.cons_ne_nil _ _) (by decide) .zero, rfl, by decide⟩,
    ⟨runProgram [112] [.number 0] .zero,
      yyparse_program (List.cons_ne_nil _ _) (by decide) .zero, rfl, by decide⟩⟩

/-! ## Round trip -/

/-- A blank or a newline. -/
def isWhite (c : UInt8) : Bool := isBlank c || c == 10

theorem isGap_of_isWhite {c : UInt8} (h : isWhite c = true) : isGap c = true := by
  simp only [isWhite, isBlank, Bool.or_eq_true, beq_iff_eq] at h
  obtain (rfl | rfl) | rfl := h <;> decide

section RoundTrip

variable {name h p : Word} {entries : List Entry} {text : Bytes}

/-- The three words come back if and only if the scanner returns none of them as a number or
a keyword. -/
theorem yyparse_roundTrip_iff (hname : name.bytes.length ≤ 79) (hh : h.bytes.length ≤ 79)
    (hp : p.bytes.length ≤ 79)
    (horder : entries = [.hostnm h, .portnm p] ∨ entries = [.portnm p, .hostnm h])
    (hspaced : Spaced isWhite (programLexemes name entries) text) (g : Globals) :
    (∃ g', yyparse text g = .accept g' ∧ g'.g_program_name.text = name.bytes ∧
      g'.g_hostnm.text = h.bytes ∧ g'.g_portnm.text = p.bytes) ↔
      name.Plain ∧ h.Plain ∧ p.Plain := by
  have hgaps := hspaced.mono (Q := isGap) fun c hc => isGap_of_isWhite hc
  have hwords : (∀ e ∈ entries, e.Ok) ↔ h.Plain ∧ p.Plain := by
    obtain rfl | rfl := horder
    · simp only [List.forall_mem_cons, List.not_mem_nil, false_imp_iff, implies_true, and_true]
      rfl
    · simp only [List.forall_mem_cons, List.not_mem_nil, false_imp_iff, implies_true, and_true]
      exact And.comm
  constructor
  · rintro ⟨g', haccept, -⟩
    obtain ⟨hplain, -, hok, -⟩ := reading_of_accept haccept hgaps
    exact ⟨hplain, hwords.mp hok⟩
  · rintro ⟨hplain, hvalues⟩
    have htokens := (tokens_spaced hgaps (apart_program name entries)).trans
      (program_tokens hplain (hwords.mpr hvalues))
    have hne : entries.map Entry.statement ≠ [] := by
      obtain rfl | rfl := horder <;> exact List.cons_ne_nil _ _
    refine ⟨_, yyparse_program hne htokens g, ?_, ?_, ?_⟩
    · exact (name.text_print _).trans (List.take_of_length_le hname)
    · refine Eq.trans ?_ ((h.text_print g.g_hostnm).trans (List.take_of_length_le hh))
      obtain rfl | rfl := horder <;> rfl
    · refine Eq.trans ?_ ((p.text_print g.g_portnm).trans (List.take_of_length_le hp))
      obtain rfl | rfl := horder <;> rfl

end RoundTrip

/-- `client-2` -/
def clientName : Word where
  bytes := ascii ['c', 'l', 'i', 'e', 'n', 't', '-', '2']
  nonempty := by decide
  word := List.all_eq_true.mp rfl

/-- `172.16.35.132` -/
def clientHost : Word where
  bytes := ascii ['1', '7', '2', '.', '1', '6', '.', '3', '5', '.', '1', '3', '2']
  nonempty := by decide
  word := List.all_eq_true.mp rfl

/-- `echo` -/
def echoService : Word := ⟨ascii ['e', 'c', 'h', 'o'], by decide,
  List.all_eq_true.mp rfl⟩

/-- `22222` -/
def clientPort : Word := ⟨ascii ['2', '2', '2', '2', '2'], by decide,
  List.all_eq_true.mp rfl⟩

/-- `client-2{hostnm="172.16.35.132";portnm="…";}` -/
def clientText (port : Word) : Bytes :=
  (programLexemes clientName [.hostnm clientHost, .portnm port]).flatMap Lexeme.text

theorem yyparse_roundTrip_iff_echo :
    (∃ g', yyparse (clientText echoService) .zero = .accept g' ∧
      g'.g_program_name.text = clientName.bytes ∧ g'.g_hostnm.text = clientHost.bytes ∧
      g'.g_portnm.text = echoService.bytes) ↔
      clientName.Plain ∧ clientHost.Plain ∧ echoService.Plain :=
  yyparse_roundTrip_iff (by decide) (by decide) (by decide) (.inl rfl)
    (spaced_flatMap isWhite _) .zero

/-- A port number between quotes is a number to the scanner, and no statement. -/
theorem quoted_port_rejected :
    clientName.bytes.length ≤ 79 ∧ clientHost.bytes.length ≤ 79 ∧ clientPort.bytes.length ≤ 79 ∧
      ¬ ∃ g', yyparse (clientText clientPort) .zero = .accept g' := by
  refine ⟨by decide, by decide, by decide, ?_⟩
  rintro ⟨g', haccept⟩
  obtain ⟨-, -, hok, -⟩ := reading_of_accept haccept (spaced_flatMap isGap _)
  exact absurd (hok (.portnm clientPort) (by simp)) (show ¬ clientPort.Plain by decide)

end NetworkProgram.Config
