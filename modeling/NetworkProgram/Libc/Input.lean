import Mathlib.Algebra.Group.Int.Defs
import Mathlib.Algebra.Group.Nat.Defs
import NetworkProgram.Libc.Strings

set_option autoImplicit false

/-!
# Libc: numbers and lines from a stream

`atol` and `atoi`, and `fgets` with the lines it cuts a stream into.
-/

namespace NetworkProgram.Libc

/-! ## Numbers -/

def isdigit (c : UInt8) : Bool := 48 ≤ c && c ≤ 57

/-- `isspace` in the C locale. -/
def isspace (c : UInt8) : Bool := c == 32 || (9 ≤ c && c ≤ 13)

/-- The decimal number at the start of a string, behind `acc`. -/
def digits : Nat → Bytes → Nat
  | acc, [] => acc
  | acc, c :: text => if isdigit c then digits (10 * acc + (c.toNat - 48)) text else acc

/-- `long` saturates. -/
def clampLong (n : Int) : Int := max (-2 ^ 63) (min (2 ^ 63 - 1) n)

/-- `atol`, which is `strtol` in base 10. -/
def atol (text : Bytes) : Int :=
  match text.dropWhile isspace with
  | 45 :: text => clampLong (-(digits 0 text))
  | 43 :: text => clampLong (digits 0 text)
  | text => clampLong (digits 0 text)

/-- `atoi`: the low 32 bits of what `strtol` returns. -/
def atoi (text : Bytes) : Int := (atol text).bmod (2 ^ 32)

/-- What `"%d"` writes. -/
def decimal (n : Int) : Bytes :=
  (if n < 0 then [45] else []) ++ ascii (Nat.toDigits 10 n.natAbs)

theorem mem_decimal {n : Int} {c : UInt8} (h : c ∈ decimal n) : c = 45 ∨ isdigit c = true := by
  obtain hsign | hdigits := List.mem_append.mp h
  · split at hsign
    · exact .inl (List.mem_singleton.mp hsign)
    · exact absurd hsign List.not_mem_nil
  · obtain ⟨d, hd, rfl⟩ := List.mem_map.mp hdigits
    have hdigit := Nat.isDigit_of_mem_toDigits (by decide) (by decide) hd
    obtain ⟨hlow, hhigh⟩ := Char.isDigit_iff_toNat.mp hdigit
    have hlow : 48 ≤ d.toNat := hlow
    have hhigh : d.toNat ≤ 57 := hhigh
    have hval : (UInt8.ofNat d.toNat).toNat = d.toNat := by
      rw [UInt8.toNat_ofNat']
      exact Nat.mod_eq_of_lt (by omega)
    refine .inr ?_
    simp only [isdigit, Bool.and_eq_true, decide_eq_true_eq, UInt8.le_iff_toNat_le, hval]
    exact ⟨hlow, hhigh⟩

theorem isdigit_not_special {c : UInt8} (h : isdigit c = true) :
    isspace c = false ∧ c ≠ 45 ∧ c ≠ 43 := by
  simp only [isdigit, Bool.and_eq_true, decide_eq_true_eq, UInt8.le_iff_toNat_le] at h
  have hlow : 48 ≤ c.toNat := h.1
  refine ⟨?_, ?_, ?_⟩
  · have h32 : c ≠ 32 := by rintro rfl; exact absurd hlow (by decide)
    have h13 : ¬ c ≤ 13 := fun hle => by
      have hle : c.toNat ≤ 13 := hle
      omega
    simp [isspace, h32, h13]
  · rintro rfl
    exact absurd hlow (by decide)
  · rintro rfl
    exact absurd hlow (by decide)

theorem digits_append {w : Bytes} (hall : w.all isdigit = true) (tail : Bytes)
    (hends : ∀ c ∈ tail.head?, isdigit c = false) (acc : Nat) :
    digits acc (w ++ tail) = digits acc w := by
  induction w generalizing acc with
  | nil =>
      cases tail with
      | nil => rfl
      | cons c tail => exact if_neg (by simp [hends c rfl])
  | cons c w ih =>
      rw [List.all_cons, Bool.and_eq_true] at hall
      rw [List.cons_append, digits, digits, if_pos hall.1, if_pos hall.1, ih hall.2]

/-- A number that fits, in front of anything but a digit.  Without a digit there has to be
nothing. -/
theorem atoi_append {w : Bytes} (hall : w.all isdigit = true) (tail : Bytes)
    (hends : ∀ c ∈ tail.head?, isdigit c = false ∧ w ≠ []) (hsmall : digits 0 w < 2 ^ 31) :
    atoi (w ++ tail) = digits 0 w := by
  have hatol : atol (w ++ tail) = clampLong (digits 0 w) := by
    cases w with
    | nil =>
        cases tail with
        | nil => rfl
        | cons c tail => exact absurd rfl (hends c rfl).2
    | cons c w =>
        have hdigits := digits_append hall tail (fun d hd => (hends d hd).1) 0
        rw [List.all_cons, Bool.and_eq_true] at hall
        obtain ⟨hspace, hminus, hplus⟩ := isdigit_not_special hall.1
        rw [List.cons_append] at hdigits ⊢
        rw [atol, List.dropWhile_cons_of_neg (by simp [hspace])]
        split
        · rename_i heq
          exact absurd (List.cons.inj heq).1 hminus
        · rename_i heq
          exact absurd (List.cons.inj heq).1 hplus
        · rw [hdigits]
  rw [atoi, hatol, clampLong, Int.bmod_def]
  omega

/-! ## `fgets` -/

/-- The bytes up to and including the first newline, but at most `n`. -/
def takeLine : Nat → Bytes → Bytes × Bytes
  | 0, input => ([], input)
  | _ + 1, [] => ([], [])
  | n + 1, c :: input =>
      if c = lf then ([c], input)
      else (c :: (takeLine n input).1, (takeLine n input).2)

/-- `fgets(buf, size, in)`: the bytes put into `buf`, in front of a NUL, and the
input left; none at the end of the input. -/
def fgets (size : Nat) (input : Bytes) : Option (Bytes × Bytes) :=
  if input = [] then none else some (takeLine (size - 1) input)

/-- `piece` is what an `fgets` of up to `n` bytes reads in front of `rest`. -/
structure FgetsLine (n : Nat) (piece rest : Bytes) : Prop where
  nonempty : piece ≠ []
  newline : lf ∉ piece.dropLast
  length : piece.length ≤ n
  ends : piece.getLast? = some lf ∨ piece.length = n ∨ rest = []

@[simp] theorem takeLine_nil (n : Nat) : takeLine n [] = ([], []) := by
  cases n <;> rfl

theorem takeLine_append (n : Nat) (input : Bytes) :
    (takeLine n input).1 ++ (takeLine n input).2 = input := by
  induction n generalizing input with
  | zero => rfl
  | succ n ih =>
      cases input with
      | nil => rfl
      | cons c input =>
          rw [takeLine]
          split
          · rfl
          · exact congrArg (c :: ·) (ih input)

theorem takeLine_fgetsLine {n : Nat} (hn : 0 < n) {input : Bytes} (hinput : input ≠ []) :
    FgetsLine n (takeLine n input).1 (takeLine n input).2 := by
  induction n generalizing input with
  | zero => exact absurd hn (Nat.lt_irrefl 0)
  | succ n ih =>
      cases input with
      | nil => exact absurd rfl hinput
      | cons c input =>
          rw [takeLine]
          split
          · rename_i hc
            exact ⟨List.cons_ne_nil _ _, List.not_mem_nil, Nat.succ_le_succ (Nat.zero_le n),
              .inl (congrArg some hc)⟩
          · rename_i hc
            cases n with
            | zero => exact ⟨List.cons_ne_nil _ _, List.not_mem_nil, Nat.le_refl 1, .inr (.inl rfl)⟩
            | succ n =>
                cases input with
                | nil =>
                    exact ⟨List.cons_ne_nil _ _, List.not_mem_nil,
                      Nat.succ_le_succ (Nat.zero_le _), .inr (.inr rfl)⟩
                | cons d input =>
                    have hrest := ih (Nat.succ_pos n) (List.cons_ne_nil d input)
                    obtain ⟨e, tail, htail⟩ := List.exists_cons_of_ne_nil hrest.nonempty
                    refine ⟨List.cons_ne_nil _ _, ?_, Nat.succ_le_succ hrest.length, ?_⟩
                    · have hnewline := hrest.newline
                      dsimp only
                      rw [htail, List.dropLast_cons_cons, List.mem_cons]
                      rw [htail] at hnewline
                      exact fun hmem => hmem.elim (fun heq => hc heq.symm) hnewline
                    · refine hrest.ends.imp (fun hlast => ?_)
                        (Or.imp (congrArg Nat.succ) id)
                      dsimp only
                      rw [htail, List.getLast?_cons_cons, ← htail]
                      exact hlast

theorem FgetsLine.takeLine_eq {n : Nat} {piece rest : Bytes} (h : FgetsLine n piece rest) :
    takeLine n (piece ++ rest) = (piece, rest) := by
  induction n generalizing piece with
  | zero => exact absurd (List.length_eq_zero_iff.mp (Nat.le_zero.mp h.length)) h.nonempty
  | succ n ih =>
      cases piece with
      | nil => exact absurd rfl h.nonempty
      | cons c piece =>
          rw [List.cons_append, takeLine]
          cases piece with
          | nil =>
              split
              · rfl
              · rename_i hc
                rcases h.ends with hlast | hlen | hrest
                · exact absurd (Option.some.inj hlast) hc
                · have hn : n = 0 := (Nat.succ.inj hlen).symm
                  subst hn
                  rfl
                · subst hrest
                  cases n <;> rfl
          | cons d piece =>
              have hnewline := h.newline
              rw [List.dropLast_cons_cons, List.mem_cons, not_or] at hnewline
              have htail : FgetsLine n (d :: piece) rest := by
                refine ⟨List.cons_ne_nil _ _, hnewline.2, Nat.le_of_succ_le_succ h.length, ?_⟩
                refine h.ends.imp (fun hlast => ?_) (Or.imp Nat.succ.inj id)
                rwa [List.getLast?_cons_cons] at hlast
              rw [if_neg fun heq => hnewline.1 heq.symm, ih htail]

/-- Pieces that end wherever they stand can be told apart again. -/
theorem flatten_fgetsLine_inj {n : Nat} {as bs : List Bytes}
    (ha : ∀ a ∈ as, ∀ rest, FgetsLine n a rest) (hb : ∀ b ∈ bs, ∀ rest, FgetsLine n b rest) :
    as.flatten = bs.flatten ↔ as = bs := by
  refine ⟨fun h => ?_, congrArg List.flatten⟩
  induction as generalizing bs with
  | nil =>
      cases bs with
      | nil => rfl
      | cons b bs =>
          have hnil := List.append_eq_nil_iff.mp h.symm
          exact absurd hnil.1 (hb b List.mem_cons_self []).nonempty
  | cons a as ih =>
      cases bs with
      | nil =>
          have hnil := List.append_eq_nil_iff.mp h
          exact absurd hnil.1 (ha a List.mem_cons_self []).nonempty
      | cons b bs =>
          rw [List.forall_mem_cons] at ha hb
          have hsplit := (ha.1 as.flatten).takeLine_eq
          rw [List.flatten_cons, List.flatten_cons] at h
          rw [h, (hb.1 bs.flatten).takeLine_eq, Prod.mk.injEq] at hsplit
          rw [hsplit.1, ih ha.2 hb.2 hsplit.2.symm]

/-- What `fgets` reads is a line in this sense, and nothing else is. -/
theorem fgets_eq_some_iff {size : Nat} (hsize : 1 < size) {input piece rest : Bytes} :
    fgets size input = some (piece, rest) ↔
      input = piece ++ rest ∧ FgetsLine (size - 1) piece rest := by
  unfold fgets
  constructor
  · intro h
    split at h
    · cases h
    · rename_i hinput
      have happend := takeLine_append (size - 1) input
      have hline := takeLine_fgetsLine (n := size - 1) (by omega) hinput
      rw [Option.some.inj h] at happend hline
      exact ⟨happend.symm, hline⟩
  · rintro ⟨rfl, hline⟩
    rw [if_neg fun hnil => hline.nonempty (List.append_eq_nil_iff.mp hnil).1, hline.takeLine_eq]

/-! ## The lines of a stream -/

/-- The stream up to and including its first newline, or all of it. -/
def firstLine : Bytes → Bytes
  | [] => []
  | c :: input => if c = lf then [c] else c :: firstLine input

/-- Put a byte in front of the first of the lines. -/
def extend (c : UInt8) : List Bytes → List Bytes
  | [] => [[c]]
  | line :: lines => (c :: line) :: lines

/-- The lines of a stream, each with its newline. -/
def linesOf : Bytes → List Bytes
  | [] => []
  | c :: input => if c = lf then [c] :: linesOf input else extend c (linesOf input)

/-- The pieces of up to `n` bytes that successive calls of a bounded line reader
return, the first of up to `room` bytes. -/
def piecesFrom (n : Nat) : Nat → Bytes → List Bytes
  | _, [] => []
  | room, c :: input =>
      if c = lf ∨ room ≤ 1 then [c] :: piecesFrom n n input
      else extend c (piecesFrom n (room - 1) input)

def pieces (n : Nat) (input : Bytes) : List Bytes := piecesFrom n n input

@[simp] theorem pieces_nil (n : Nat) : pieces n [] = [] := rfl

theorem takeLine_eq (n : Nat) (input : Bytes) :
    takeLine n input =
      ((firstLine input).take n, input.drop ((firstLine input).take n).length) := by
  induction n generalizing input with
  | zero => rfl
  | succ n ih =>
      cases input with
      | nil => rfl
      | cons c input =>
          rw [takeLine, firstLine]
          split
          · cases n <;> rfl
          · rw [ih, List.take_succ_cons, List.length_cons, List.drop_succ_cons]

theorem isPrefix_firstLine (input : Bytes) : firstLine input <+: input := by
  induction input with
  | nil => exact List.prefix_refl _
  | cons c input ih =>
      rw [firstLine]
      split
      · exact ⟨input, rfl⟩
      · exact (List.prefix_cons_inj c).mpr ih

theorem firstLine_append {text : Bytes} (h : lf ∉ text) (rest : Bytes) :
    firstLine (text ++ rest) = text ++ firstLine rest := by
  induction text with
  | nil => rfl
  | cons c text ih =>
      rw [List.mem_cons, not_or] at h
      rw [List.cons_append, firstLine, if_neg fun heq => h.1 heq.symm, ih h.2, List.cons_append]

/-- A piece that ends in a newline ends the line; any other is in front of its rest. -/
theorem FgetsLine.firstLine_eq {n : Nat} {piece rest : Bytes} (h : FgetsLine n piece rest) :
    firstLine (piece ++ rest) =
      if piece.getLast? = some lf then piece else piece ++ firstLine rest := by
  have hsplit := List.dropLast_append_getLast h.nonempty
  have hlast := List.getLast?_eq_getLast_of_ne_nil h.nonempty
  split
  · rename_i hend
    rw [hlast, Option.some_inj] at hend
    rw [← hsplit, hend, List.append_assoc, firstLine_append h.newline]
    rfl
  · rename_i hend
    refine firstLine_append (fun hmem => ?_) rest
    rw [← hsplit, List.mem_append, List.mem_singleton] at hmem
    rcases hmem with hmem | hmem
    · exact h.newline hmem
    · exact hend (hlast.trans (congrArg some hmem.symm))

/-- Bytes dropped inside the first line leave the rest of that line. -/
theorem firstLine_drop {m : Nat} {input : Bytes} (h : m < (firstLine input).length) :
    firstLine (input.drop m) = (firstLine input).drop m := by
  induction m generalizing input with
  | zero => rfl
  | succ m ih =>
      cases input with
      | nil => exact absurd h (Nat.not_lt_zero _)
      | cons c input =>
          rw [firstLine] at h ⊢
          split at h
          · exact absurd (Nat.lt_of_succ_lt_succ h) (Nat.not_lt_zero m)
          · rename_i hc
            rw [if_neg hc]
            exact ih (Nat.lt_of_succ_lt_succ h)

theorem firstLine_ne_nil {input : Bytes} (h : input ≠ []) : firstLine input ≠ [] := by
  cases input with
  | nil => exact absurd rfl h
  | cons c input =>
      rw [firstLine]
      split <;> exact List.cons_ne_nil _ _

theorem linesOf_eq {input : Bytes} (h : input ≠ []) :
    linesOf input = firstLine input :: linesOf (input.drop (firstLine input).length) := by
  induction input with
  | nil => exact absurd rfl h
  | cons c input ih =>
      rw [linesOf, firstLine]
      split
      · rfl
      · cases input with
        | nil => rfl
        | cons d input =>
            rw [ih (List.cons_ne_nil _ _), extend, List.length_cons, List.drop_succ_cons]

theorem piecesFrom_eq {n room : Nat} (hroom : 0 < room) {input : Bytes} (h : input ≠ []) :
    piecesFrom n room input = (takeLine room input).1 :: pieces n (takeLine room input).2 := by
  induction input generalizing room with
  | nil => exact absurd rfl h
  | cons c input ih =>
      obtain ⟨room, rfl⟩ : ∃ m, room = m + 1 := ⟨room - 1, by omega⟩
      rw [piecesFrom, takeLine]
      rcases Decidable.em (c = lf) with hc | hc
      · rw [if_pos (.inl hc), if_pos hc]
        rfl
      · rw [if_neg hc]
        rcases Nat.eq_zero_or_pos room with rfl | hpos
        · rw [if_pos (.inr (Nat.le_refl 1))]
          rfl
        · rw [if_neg fun h => h.elim hc fun hle => by omega]
          cases input with
          | nil => cases room <;> rfl
          | cons d input =>
              rw [Nat.add_sub_cancel, ih hpos (List.cons_ne_nil _ _)]
              rfl

/-- The first piece, and the pieces of the rest. -/
theorem pieces_eq {n : Nat} (hn : 0 < n) {input : Bytes} (h : input ≠ []) :
    pieces n input = (takeLine n input).1 :: pieces n (takeLine n input).2 :=
  piecesFrom_eq hn h

theorem takeLine_shorter {n : Nat} (hn : 0 < n) {input : Bytes} (h : input ≠ []) :
    (takeLine n input).2.length < input.length := by
  have hpos := List.length_pos_iff.mpr (takeLine_fgetsLine hn h).nonempty
  have hlen := congrArg List.length (takeLine_append n input)
  rw [List.length_append] at hlen
  omega

/-- A line that fits is one piece. -/
theorem takeLine_eq_firstLine {n : Nat} {input : Bytes} (h : (firstLine input).length ≤ n) :
    takeLine n input = (firstLine input, input.drop (firstLine input).length) := by
  rw [takeLine_eq, List.take_of_length_le h]

/-- With all lines short enough the pieces are the lines. -/
theorem pieces_eq_linesOf {n : Nat} {input : Bytes}
    (h : ∀ line ∈ linesOf input, line.length ≤ n) : pieces n input = linesOf input := by
  induction hlen : input.length using Nat.strongRecOn generalizing input with
  | ind len ih =>
      rcases eq_or_ne input [] with rfl | hne
      · rfl
      · rw [linesOf_eq hne] at h ⊢
        have hfirst := h _ List.mem_cons_self
        have hpos := List.length_pos_iff.mpr (firstLine_ne_nil hne)
        have hle := (isPrefix_firstLine input).length_le
        rw [pieces_eq (by omega) hne, takeLine_eq_firstLine hfirst]
        congr 1
        refine ih _ ?_ (fun line hline => h line (List.mem_cons_of_mem _ hline)) rfl
        rw [List.length_drop]
        omega

/-- Dropping less than the first line keeps the number of lines. -/
theorem length_linesOf_drop {m : Nat} {input : Bytes} (h : m < (firstLine input).length) :
    (linesOf (input.drop m)).length = (linesOf input).length := by
  have hle := (isPrefix_firstLine input).length_le
  have hdrop : input.drop m ≠ [] := fun hnil =>
    absurd (List.drop_eq_nil_iff.mp hnil) (by omega)
  have hne : input ≠ [] := fun hnil => hdrop (by rw [hnil, List.drop_nil])
  rw [linesOf_eq hdrop, linesOf_eq hne, firstLine_drop h, List.length_drop, List.drop_drop,
    Nat.add_sub_cancel' h.le, List.length_cons, List.length_cons]

/-- There are at least as many pieces as lines, and more if a line is too long. -/
theorem length_linesOf_le {n : Nat} (hn : 0 < n) (input : Bytes) :
    (linesOf input).length ≤ (pieces n input).length ∧
      ((∃ line ∈ linesOf input, n < line.length) →
        (linesOf input).length < (pieces n input).length) := by
  induction hlen : input.length using Nat.strongRecOn generalizing input with
  | ind len ih =>
      rcases eq_or_ne input [] with rfl | hne
      · exact ⟨Nat.le_refl _, fun ⟨line, hmem, _⟩ => absurd hmem List.not_mem_nil⟩
      · have hshort := takeLine_shorter hn hne
        obtain ⟨hle, hlt⟩ := ih _ (hlen ▸ hshort) (takeLine n input).2 rfl
        rw [pieces_eq hn hne, List.length_cons]
        rcases Nat.lt_or_ge n (firstLine input).length with hlong | hfits
        · -- The line goes on behind its first piece.
          have hsame : (linesOf (takeLine n input).2).length = (linesOf input).length := by
            rw [takeLine_eq, List.length_take_of_le hlong.le]
            exact length_linesOf_drop hlong
          refine ⟨by omega, fun _ => by omega⟩
        · rw [takeLine_eq_firstLine hfits] at hle hlt
          rw [takeLine_eq_firstLine hfits, linesOf_eq hne, List.length_cons]
          refine ⟨Nat.succ_le_succ hle, ?_⟩
          rintro ⟨line, hmem, hlong⟩
          rcases List.mem_cons.mp hmem with rfl | hmem
          · exact absurd hlong (Nat.not_lt.mpr hfits)
          · exact Nat.succ_lt_succ (hlt ⟨line, hmem, hlong⟩)

end NetworkProgram.Libc
