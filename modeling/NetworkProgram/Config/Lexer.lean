import NetworkProgram.Foundation.Scanning
import NetworkProgram.Libc.Input

set_option autoImplicit false

/-!
# Config: the scanner of `chpater12/lexer.l`

The rules of the file in their order.  A byte at which none of them matches is echoed and
passed over, as a blank is.  There is no state for quoted text: what stands between two
quotes is scanned by the same rules, so that it may come out as a number or a keyword.
-/

namespace NetworkProgram.Config

open NetworkProgram.Foundation
open NetworkProgram.Libc

/-- What `yylex` returns, with `yylval` where the rule sets it. -/
inductive Token
  | hostnm
  | portnm
  | string (text : Bytes)
  | num (value : Int)
  | eq
  | quote
  | openParen
  | closeParen
  | semicolon
  deriving DecidableEq, Repr

def hostnm : Bytes := ascii ['h', 'o', 's', 't', 'n', 'm']
def portnm : Bytes := ascii ['p', 'o', 'r', 't', 'n', 'm']

/-- `[a-zA-Z0-9\/.-]` -/
def isWord (c : UInt8) : Bool :=
  (97 ≤ c && c ≤ 122) || (65 ≤ c && c ≤ 90) || isdigit c || c == 47 || c == 46 || c == 45

/-- `[ \t]` -/
def isBlank (c : UInt8) : Bool := c == 32 || c == 9

def wordRules : List (Rule UInt8 Token) :=
  [.word hostnm (some .hostnm), .word portnm (some .portnm),
    .many isdigit fun text => some (.num (atoi text)),
    .many isWord fun text => some (.string text)]

/-- The rules for single bytes: `=`, `"`, `{`, `}`, `;` and the newline. -/
def marks : List (UInt8 × Option Token) :=
  [(61, some .eq), (34, some .quote), (123, some .openParen), (125, some .closeParen),
    (59, some .semicolon), (10, none)]

def markRules : List (Rule UInt8 Token) := marks.map fun mark => .word [mark.1] mark.2

def blankRule : Rule UInt8 Token := .many isBlank fun _ => none

def lexerRules : List (Rule UInt8 Token) := wordRules ++ markRules ++ [blankRule]

/-- What `yylex` returns call by call, up to the end of the text. -/
def tokens (text : Bytes) : List Token := scan lexerRules text

/-! ## Where no rule matches -/

section Rules

variable {c : UInt8} {rest : Bytes}

theorem isWord_of_isdigit (h : isdigit c = true) : isWord c = true := by
  simp [isWord, h]

theorem isdigit_of_isWord_false (h : isWord c = false) : isdigit c = false := by
  cases hd : isdigit c with
  | false => rfl
  | true => rw [isWord_of_isdigit hd] at h; cases h

theorem hostnm_isWord : ∀ d ∈ hostnm, isWord d = true := List.all_eq_true.mp rfl

theorem portnm_isWord : ∀ d ∈ portnm, isWord d = true := List.all_eq_true.mp rfl

/-- Numbers and keywords begin with a word byte, as strings do. -/
theorem wordRules_length (h : isWord c = false) :
    ∀ r ∈ wordRules, r.length (c :: rest) = 0 := by
  have hhead : ∀ {k : Bytes}, (∀ d ∈ k, isWord d = true) → k.head? ≠ some c := by
    intro k hk heq
    rw [hk c (List.mem_of_mem_head? heq)] at h
    cases h
  simp only [wordRules, List.forall_mem_cons]
  exact ⟨Rule.word_length_of_ne (by decide) (hhead hostnm_isWord),
    Rule.word_length_of_ne (by decide) (hhead portnm_isWord),
    Rule.many_length_of_not (isdigit_of_isWord_false h), Rule.many_length_of_not h,
    List.forall_mem_nil _⟩

theorem markRules_length (h : ∀ mark ∈ marks, mark.1 ≠ c) :
    ∀ r ∈ markRules, r.length (c :: rest) = 0 := by
  intro r hr
  obtain ⟨mark, hmark, rfl⟩ := List.mem_map.mp hr
  exact Rule.word_length_of_ne (List.cons_ne_nil _ _) fun heq => h mark hmark (Option.some.inj heq)

theorem marks_not_word : ∀ mark ∈ marks, isWord mark.1 = false ∧ isBlank mark.1 = false := by
  decide

theorem marks_ne_of_isWord (h : isWord c = true) : ∀ mark ∈ marks, mark.1 ≠ c := by
  rintro mark hmark rfl
  rw [(marks_not_word mark hmark).1] at h
  cases h

theorem marks_ne_of_isBlank (h : isBlank c = true) : ∀ mark ∈ marks, mark.1 ≠ c := by
  rintro mark hmark rfl
  rw [(marks_not_word mark hmark).2] at h
  cases h

theorem isBlank_of_isWord (h : isWord c = true) : isBlank c = false := by
  cases hblank : isBlank c with
  | false => rfl
  | true =>
      simp only [isBlank, Bool.or_eq_true, beq_iff_eq] at hblank
      obtain rfl | rfl := hblank <;> cases h

end Rules

/-! ## Bytes that make no token -/

/-- A byte between tokens: a blank, a newline, or one that no rule knows. -/
def isGap (c : UInt8) : Bool := !isWord c && !(marks.any fun mark => mark.1 == c && mark.2.isSome)

theorem tokens_mark {c : UInt8} {token : Option Token} (h : (c, token) ∈ marks) (rest : Bytes) :
    tokens (c :: rest) = token.toList ++ tokens rest := by
  obtain ⟨before, after, heq⟩ := List.append_of_mem h
  have hword := (marks_not_word _ h).1
  have hnodup : (marks.map Prod.fst).Nodup := by decide
  rw [heq, List.map_append, List.map_cons, List.nodup_append] at hnodup
  have hlen : (Rule.word [c] token).length (c :: rest) = 1 := by simp [Rule.word]
  have hbefore : ∀ r ∈ wordRules ++ before.map fun mark => Rule.word [mark.1] mark.2,
      r.length (c :: rest) < (Rule.word [c] token).length (c :: rest) := by
    rw [hlen]
    intro r hr
    obtain hr | hr := List.mem_append.mp hr
    · rw [wordRules_length hword r hr]
      exact Nat.one_pos
    · obtain ⟨mark, hmark, rfl⟩ := List.mem_map.mp hr
      have hne : mark.1 ≠ c :=
        hnodup.2.2 _ (List.mem_map_of_mem hmark) _ List.mem_cons_self
      rw [Rule.word_length_of_ne (List.cons_ne_nil _ _) fun heq => hne (Option.some.inj heq)]
      exact Nat.one_pos
  have hafter : ∀ r ∈ (after.map fun mark => Rule.word [mark.1] mark.2) ++ [blankRule],
      r.length (c :: rest) ≤ (Rule.word [c] token).length (c :: rest) := by
    rw [hlen]
    intro r hr
    obtain hr | hr := List.mem_append.mp hr
    · obtain ⟨mark, -, rfl⟩ := List.mem_map.mp hr
      dsimp only [Rule.word]
      split
      · exact Nat.le_refl 1
      · exact Nat.zero_le 1
    · obtain rfl := List.mem_singleton.mp hr
      rw [blankRule, Rule.many_length_of_not (marks_not_word _ h).2]
      exact Nat.zero_le 1
  have hrules : lexerRules =
      (wordRules ++ before.map fun mark => Rule.word [mark.1] mark.2) ++ Rule.word [c] token ::
        ((after.map fun mark => Rule.word [mark.1] mark.2) ++ [blankRule]) := by
    simp [lexerRules, markRules, heq]
  have hscan := scan_match (by rw [hlen]; exact Nat.one_pos) hbefore hafter (List.cons_ne_nil _ _)
  rw [← hrules, hlen] at hscan
  exact hscan

/-- A run of blanks is one match. -/
theorem tokens_blank {c : UInt8} (h : isBlank c = true) (rest : Bytes) :
    tokens (c :: rest) = tokens (rest.dropWhile isBlank) := by
  have hword : isWord c = false := by
    cases hword : isWord c with
    | false => rfl
    | true => rw [isBlank_of_isWord hword] at h; cases h
  have hbefore : ∀ r ∈ wordRules ++ markRules, r.length (c :: rest) = 0 := by
    intro r hr
    obtain hr | hr := List.mem_append.mp hr
    · exact wordRules_length hword r hr
    · exact markRules_length (marks_ne_of_isBlank h) r hr
  have hlen : 0 < blankRule.length (c :: rest) := by simp [blankRule, Rule.many, h]
  have hscan := scan_match hlen (fun r hr => by rw [hbefore r hr]; exact hlen)
    (fun _ hr => absurd hr List.not_mem_nil) (List.cons_ne_nil _ _)
  have hdrop : (c :: rest).drop (blankRule.length (c :: rest)) = rest.dropWhile isBlank := by
    calc
      (c :: rest).drop (blankRule.length (c :: rest)) =
          ((c :: rest).takeWhile isBlank ++ (c :: rest).dropWhile isBlank).drop
            ((c :: rest).takeWhile isBlank).length := by
        rw [List.takeWhile_append_dropWhile]
        rfl
      _ = rest.dropWhile isBlank := by rw [List.drop_left, List.dropWhile_cons_of_pos h]
  rw [hdrop] at hscan
  exact hscan

theorem tokens_dropWhile (text : Bytes) : tokens (text.dropWhile isBlank) = tokens text := by
  cases text with
  | nil => rfl
  | cons c rest =>
      by_cases h : isBlank c = true
      · rw [List.dropWhile_cons_of_pos h, tokens_blank h]
      · rw [List.dropWhile_cons_of_neg h]

theorem tokens_gap {c : UInt8} (h : isGap c = true) (rest : Bytes) :
    tokens (c :: rest) = tokens rest := by
  simp only [isGap, Bool.and_eq_true, Bool.not_eq_true', List.any_eq_false] at h
  obtain ⟨hword, hmark⟩ := h
  by_cases hnone : (c, none) ∈ marks
  · exact tokens_mark hnone rest
  have hmarks : ∀ mark ∈ marks, mark.1 ≠ c := by
    rintro ⟨d, token⟩ hd rfl
    cases token with
    | none => exact hnone hd
    | some token => exact hmark _ hd (by simp)
  by_cases hblank : isBlank c = true
  · rw [tokens_blank hblank, tokens_dropWhile]
  refine scan_skip lexerRules fun r hr => ?_
  obtain hr | hr := List.mem_append.mp hr
  · obtain hr | hr := List.mem_append.mp hr
    · exact wordRules_length hword r hr
    · exact markRules_length hmarks r hr
  · obtain rfl := List.mem_singleton.mp hr
    exact Rule.many_length_of_not (Bool.eq_false_iff.mpr hblank)

/-! ## Words -/

section Words

variable {w rest : Bytes}

/-- `w` is a run of word bytes that `rest` does not go on with. -/
structure WordRun (w rest : Bytes) : Prop where
  nonempty : w ≠ []
  word : ∀ c ∈ w, isWord c = true
  ends : ∀ c ∈ rest.head?, isWord c = false

theorem WordRun.takeWhile (h : WordRun w rest) : (w ++ rest).takeWhile isWord = w :=
  takeWhile_run h.word h.ends

/-- The first byte is not one of the single bytes and no blank. -/
theorem WordRun.head (h : WordRun w rest) :
    ∃ c tail, w ++ rest = c :: tail ∧ isWord c = true := by
  obtain ⟨c, w, rfl⟩ := List.exists_cons_of_ne_nil h.nonempty
  exact ⟨c, w ++ rest, rfl, h.word c List.mem_cons_self⟩

theorem WordRun.string_length (h : WordRun w rest) (make : Bytes → Option Token) :
    (Rule.many isWord make).length (w ++ rest) = w.length := congrArg List.length h.takeWhile

/-- A keyword that matches is the whole run, or shorter. -/
theorem WordRun.keyword_length (h : WordRun w rest) {k : Bytes}
    (hword : ∀ d ∈ k, isWord d = true) (token : Option Token) :
    (Rule.word k token).length (w ++ rest) ≤ w.length ∧
      (k ≠ w → (Rule.word k token).length (w ++ rest) < w.length) := by
  have hpos := List.length_pos_of_ne_nil h.nonempty
  dsimp only [Rule.word]
  split
  · rename_i hlead
    have hsub : k <+: w := by
      obtain ⟨tail, htail⟩ := List.isPrefixOf_iff_prefix.mp hlead
      have hrun := h.takeWhile
      rw [← htail, List.takeWhile_append_of_pos hword] at hrun
      exact ⟨_, hrun⟩
    refine ⟨hsub.length_le, fun hne => Nat.lt_of_le_of_ne hsub.length_le fun heq => hne ?_⟩
    exact hsub.eq_of_length heq
  · exact ⟨Nat.zero_le _, fun _ => hpos⟩

/-- A number that matches is the whole run, or shorter. -/
theorem WordRun.number_length (h : WordRun w rest) (make : Bytes → Option Token) :
    (Rule.many isdigit make).length (w ++ rest) ≤ w.length ∧
      (w.all isdigit = false → (Rule.many isdigit make).length (w ++ rest) < w.length) := by
  have hsub : (w ++ rest).takeWhile isdigit <+: w := by
    have hdigits : (w ++ rest).takeWhile isdigit =
        ((w ++ rest).takeWhile isWord).takeWhile isdigit := by
      rw [List.takeWhile_takeWhile]
      congr 1
      funext c
      cases hd : isdigit c with
      | false => simp
      | true => simp [isWord_of_isdigit hd]
    rw [hdigits, h.takeWhile]
    exact List.takeWhile_prefix _
  refine ⟨hsub.length_le, fun hall => Nat.lt_of_le_of_ne hsub.length_le fun heq => ?_⟩
  have hw := hsub.eq_of_length heq
  rw [← hw, List.all_takeWhile] at hall
  cases hall

theorem WordRun.number_length_of_all (h : WordRun w rest) (hall : w.all isdigit = true)
    (make : Bytes → Option Token) : (Rule.many isdigit make).length (w ++ rest) = w.length := by
  refine congrArg List.length (takeWhile_run (List.all_eq_true.mp hall) fun c hc => ?_)
  exact isdigit_of_isWord_false (h.ends c hc)

/-- What a run of word bytes comes out as. -/
def classify (w : Bytes) : Token :=
  if w = hostnm then .hostnm
  else if w = portnm then .portnm
  else if w.all isdigit then .num (atoi w)
  else .string w

/-- Of the rules for words, the first that matches the whole run makes the token. -/
theorem WordRun.scan_wordRule (h : WordRun w rest) (before : List (Rule UInt8 Token))
    {after : List (Rule UInt8 Token)} {r : Rule UInt8 Token}
    (heq : wordRules = before ++ r :: after)
    (hlen : r.length (w ++ rest) = w.length)
    (hbefore : ∀ r' ∈ before, r'.length (w ++ rest) < w.length)
    (hafter : ∀ r' ∈ after, r'.length (w ++ rest) ≤ w.length) :
    tokens (w ++ rest) = (r.token w).toList ++ tokens rest := by
  have hpos := List.length_pos_of_ne_nil h.nonempty
  have hquiet : ∀ r' ∈ markRules ++ [blankRule], r'.length (w ++ rest) = 0 := by
    obtain ⟨c, tail, htext, hc⟩ := h.head
    rw [htext]
    intro r' hr'
    obtain hr' | hr' := List.mem_append.mp hr'
    · exact markRules_length (marks_ne_of_isWord hc) r' hr'
    · obtain rfl := List.mem_singleton.mp hr'
      exact Rule.many_length_of_not (isBlank_of_isWord hc)
  have hafter' : ∀ r' ∈ after ++ (markRules ++ [blankRule]),
      r'.length (w ++ rest) ≤ r.length (w ++ rest) := by
    rw [hlen]
    intro r' hr'
    obtain hr' | hr' := List.mem_append.mp hr'
    · exact hafter r' hr'
    · rw [hquiet r' hr']
      exact Nat.zero_le _
  have hrules : lexerRules = before ++ r :: (after ++ (markRules ++ [blankRule])) := by
    simp [lexerRules, heq]
  have hscan := scan_match (by rw [hlen]; exact hpos) (by rw [hlen]; exact hbefore) hafter'
    (List.append_ne_nil_of_left_ne_nil h.nonempty rest)
  rw [← hrules, hlen, List.take_left, List.drop_left] at hscan
  exact hscan

theorem tokens_word (h : WordRun w rest) : tokens (w ++ rest) = classify w :: tokens rest := by
  have hhost := h.keyword_length hostnm_isWord (some .hostnm)
  have hport := h.keyword_length portnm_isWord (some .portnm)
  have hnum := h.number_length fun text => some (.num (atoi text))
  have hstring := h.string_length fun text => some (.string text)
  have hself : ∀ k token, (Rule.word (τ := Token) k token).length (k ++ rest) = k.length :=
    fun k token => if_pos (List.isPrefixOf_iff_prefix.mpr (List.prefix_append k rest))
  unfold classify
  split
  · rename_i heq
    refine h.scan_wordRule [] rfl (heq ▸ hself hostnm _) (List.forall_mem_nil _) ?_
    simp only [List.forall_mem_cons]
    exact ⟨hport.1, hnum.1, hstring.le, List.forall_mem_nil _⟩
  rename_i hne
  have hhost := hhost.2 (Ne.symm hne)
  split
  · rename_i heq
    refine h.scan_wordRule [.word hostnm (some .hostnm)] rfl (heq ▸ hself portnm _) ?_ ?_
    · simp only [List.forall_mem_cons]
      exact ⟨hhost, List.forall_mem_nil _⟩
    · simp only [List.forall_mem_cons]
      exact ⟨hnum.1, hstring.le, List.forall_mem_nil _⟩
  rename_i hne
  have hport := hport.2 (Ne.symm hne)
  split
  · rename_i hdigits
    refine h.scan_wordRule [.word hostnm (some .hostnm), .word portnm (some .portnm)] rfl
      (h.number_length_of_all hdigits _) ?_ ?_
    · simp only [List.forall_mem_cons]
      exact ⟨hhost, hport, List.forall_mem_nil _⟩
    · simp only [List.forall_mem_cons]
      exact ⟨hstring.le, List.forall_mem_nil _⟩
  · rename_i hdigits
    refine h.scan_wordRule [.word hostnm (some .hostnm), .word portnm (some .portnm),
      .many isdigit fun text => some (.num (atoi text))] rfl hstring ?_ (List.forall_mem_nil _)
    simp only [List.forall_mem_cons]
    exact ⟨hhost, hport, hnum.2 (Bool.eq_false_iff.mpr hdigits), List.forall_mem_nil _⟩

end Words

end NetworkProgram.Config
