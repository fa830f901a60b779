import Mathlib.Data.List.Basic
import Mathlib.Data.List.TakeWhile

set_option autoImplicit false

/-!
# Libc: byte buffers and C strings

A buffer is the list of its bytes; the C string in it is what stands before the
first NUL.  The line servers all make a reply in the same way: `strpbrk` cuts the
received text at its first carriage return or line feed, and `":OK\r\n"` is put
behind it.
-/

namespace NetworkProgram.Libc

abbrev Bytes : Type := List UInt8

abbrev cr : UInt8 := 13
abbrev lf : UInt8 := 10

/-- The bytes of an ASCII text. -/
def ascii (text : List Char) : Bytes := text.map fun c => UInt8.ofNat c.toNat

/-- `":OK\r\n"`. -/
def okTail : Bytes := ascii [':', 'O', 'K', '\r', '\n']

/-- The C string that starts at the first byte of a buffer. -/
def cstr (buf : Bytes) : Bytes := buf.takeWhile (· ≠ 0)

def strlen (buf : Bytes) : Nat := (cstr buf).length

/-- `toupper` in the C locale. -/
def toupper (c : UInt8) : UInt8 :=
  if 97 ≤ c ∧ c ≤ 122 then c - 32 else c

/-- `strcasecmp(a, b) == 0` -/
def strcasecmpEq (a b : Bytes) : Bool := (cstr a).map toupper == (cstr b).map toupper

/-- `strncasecmp(a, b, n) == 0` -/
def strncasecmpEq (a b : Bytes) (n : Nat) : Bool :=
  ((cstr a).take n).map toupper == ((cstr b).take n).map toupper

/-- `strncmp(a, b, n) == 0` -/
def strncmpEq (a b : Bytes) (n : Nat) : Bool := (cstr a).take n == (cstr b).take n

/-- `strchr`: what stands before and after the first `c`. -/
def splitChr (c : UInt8) : Bytes → Option (Bytes × Bytes)
  | [] => none
  | d :: text =>
      if d = c then some ([], text)
      else (splitChr c text).map fun parts => (d :: parts.1, parts.2)

/-- Index of the first byte of the C string that is one of `accept`. -/
def strpbrk (accept : Bytes) : Bytes → Option Nat
  | [] => none
  | c :: rest =>
      if c = 0 then none
      else if c ∈ accept then some 0
      else (strpbrk accept rest).map (· + 1)

/-- `if ((ptr = strpbrk(buf, accept)) != NULL) *ptr = '\0';` -/
def cutAt (accept buf : Bytes) : Bytes :=
  match strpbrk accept buf with
  | none => buf
  | some i => buf.set i 0

/-- The servers cut at the end of the line. -/
def cutLine (buf : Bytes) : Bytes := cutAt [cr, lf] buf

/-- What a client sees of a buffer: the bytes before the first NUL, CR or LF. -/
def visible (buf : Bytes) : Bytes := buf.takeWhile fun c => c ≠ 0 ∧ c ≠ cr ∧ c ≠ lf

/-- The reply to a line. -/
def okReply (text : Bytes) : Bytes := text ++ okTail

/-! ## Letters -/

/-- The same letter, upper or lower case, or the same byte. -/
def SameIgnoringCase (d c : UInt8) : Prop :=
  d = c ∨ (65 ≤ d ∧ d ≤ 90 ∧ c = d + 32) ∨ (65 ≤ c ∧ c ≤ 90 ∧ d = c + 32)

theorem toNat_toupper (c : UInt8) :
    (toupper c).toNat = if 97 ≤ c.toNat ∧ c.toNat ≤ 122 then c.toNat - 32 else c.toNat := by
  unfold toupper
  simp only [UInt8.le_iff_toNat_le, UInt8.reduceToNat]
  split
  · rename_i h
    rw [UInt8.toNat_sub_of_le]
    · rfl
    · rw [UInt8.le_iff_toNat_le]
      exact Nat.le_trans (by decide) h.1
  · rfl

theorem toupper_eq_iff {d c : UInt8} : toupper d = toupper c ↔ SameIgnoringCase d c := by
  have hd := d.toNat_lt
  have hc := c.toNat_lt
  unfold SameIgnoringCase
  simp only [← UInt8.toNat_inj, toNat_toupper, UInt8.le_iff_toNat_le, UInt8.toNat_add,
    UInt8.reduceToNat]
  split <;> split <;> omega

/-! ## C strings -/

/-- Behind a NUL nothing belongs to the string. -/
theorem cstr_append_zero (text rest : Bytes) : cstr (text ++ 0 :: rest) = cstr text := by
  induction text with
  | nil => rfl
  | cons c text ih =>
      simp only [cstr, List.cons_append, List.takeWhile_cons] at ih ⊢
      rw [ih]

@[simp] theorem cstr_concat_nul (buf : Bytes) : cstr (buf ++ [0]) = cstr buf :=
  cstr_append_zero buf []

theorem cstr_eq_self {text : Bytes} (h : (0 : UInt8) ∉ text) : cstr text = text := by
  rw [cstr, List.takeWhile_eq_self_iff]
  intro c hc
  simp only [ne_eq, decide_not, Bool.not_eq_eq_eq_not, Bool.not_true, decide_eq_false_iff_not]
  rintro rfl
  exact h hc

theorem cstr_append_nul {text : Bytes} (h : (0 : UInt8) ∉ text) (rest : Bytes) :
    cstr (text ++ 0 :: rest) = text :=
  (cstr_append_zero text rest).trans (cstr_eq_self h)

theorem take_strlen (buf : Bytes) : buf.take (strlen buf) = cstr buf :=
  (List.prefix_iff_eq_take.mp (List.takeWhile_prefix _)).symm

theorem nul_notMem_cstr (buf : Bytes) : (0 : UInt8) ∉ cstr buf := by
  intro h
  simpa using List.mem_takeWhile_imp h

/-- A buffer whose string ends inside it has a NUL there. -/
theorem eq_cstr_append (buf : Bytes) (h : strlen buf < buf.length) :
    ∃ rest, buf = cstr buf ++ 0 :: rest := by
  induction buf with
  | nil => simp [strlen, cstr] at h
  | cons c buf ih =>
      by_cases hc : c = 0
      · exact ⟨buf, by simp [cstr, hc]⟩
      · obtain ⟨rest, hrest⟩ := ih (by simpa [strlen, cstr, hc] using h)
        refine ⟨rest, ?_⟩
        have hcons : cstr (c :: buf) = c :: cstr buf := by simp [cstr, hc]
        rw [hcons, List.cons_append, ← hrest]

/-- The string ends at the first NUL at the latest. -/
theorem strlen_le_of_nul {buf : Bytes} {i : Nat} (h : buf[i]? = some 0) : strlen buf ≤ i := by
  obtain ⟨hlt, hget⟩ := List.getElem?_eq_some_iff.mp h
  have hsplit : buf = buf.take i ++ 0 :: buf.drop (i + 1) := by
    rw [← hget, List.getElem_cons_drop, List.take_append_drop]
  rw [hsplit, strlen, cstr_append_zero]
  exact (List.takeWhile_prefix _).length_le.trans (List.length_take_le _ _)

theorem cstr_cutAt (accept buf : Bytes) :
    cstr (cutAt accept buf) = buf.takeWhile fun c => c ≠ 0 ∧ c ∉ accept := by
  induction buf with
  | nil => rfl
  | cons c buf ih =>
      unfold cutAt at ih ⊢
      by_cases hc : c = 0
      · simp [strpbrk, cstr, hc]
      · by_cases hm : c ∈ accept
        · simp [strpbrk, cstr, hc, hm]
        · cases h : strpbrk accept buf with
          | none =>
              simp only [h, cstr] at ih
              simpa [strpbrk, cstr, hc, hm, h] using ih
          | some i =>
              simp only [h, cstr] at ih
              simpa [strpbrk, cstr, hc, hm, h] using ih

/-- The string left by the cut is what is visible of the buffer. -/
@[simp] theorem cstr_cutLine (buf : Bytes) : cstr (cutLine buf) = visible buf := by
  rw [cutLine, cstr_cutAt, visible]
  congr 1
  funext c
  simp

@[simp] theorem length_cutAt (accept buf : Bytes) : (cutAt accept buf).length = buf.length := by
  unfold cutAt
  split <;> simp

theorem getElem?_strpbrk {accept buf : Bytes} {i : Nat} (h : strpbrk accept buf = some i) :
    ∃ c ∈ accept, buf[i]? = some c := by
  induction buf generalizing i with
  | nil => cases h
  | cons c buf ih =>
      rw [strpbrk] at h
      split at h
      · cases h
      · split at h
        · rename_i hc
          cases h
          exact ⟨c, hc, rfl⟩
        · obtain ⟨j, hj, rfl⟩ := Option.map_eq_some_iff.mp h
          exact ih hj

/-- Cutting changes nothing but one end-of-line byte. -/
theorem getElem?_cutLine (buf : Bytes) (i : Nat) :
    (cutLine buf)[i]? = buf[i]? ∨
      ((cutLine buf)[i]? = some 0 ∧ (buf[i]? = some cr ∨ buf[i]? = some lf)) := by
  unfold cutLine cutAt
  split
  · exact Or.inl rfl
  · rename_i j hj
    obtain ⟨c, hc, hget⟩ := getElem?_strpbrk hj
    rcases eq_or_ne j i with rfl | hne
    · obtain ⟨hlt, -⟩ := List.getElem?_eq_some_iff.mp hget
      refine Or.inr ⟨List.getElem?_set_self hlt, ?_⟩
      rw [hget]
      simpa using hc
    · exact Or.inl (List.getElem?_set_ne hne)

theorem strpbrk_take (accept buf : Bytes) (n : Nat) :
    strpbrk accept (buf.take n) = (strpbrk accept buf).filter (· < n) := by
  induction buf generalizing n with
  | nil => rw [List.take_nil]; rfl
  | cons c buf ih =>
      cases n with
      | zero => rw [List.take_zero, strpbrk]; cases strpbrk accept (c :: buf) <;> rfl
      | succ n =>
          rw [List.take_succ_cons, strpbrk, strpbrk]
          split
          · rfl
          · split
            · rfl
            · rw [ih]
              cases strpbrk accept buf with
              | none => rfl
              | some i =>
                  rcases Nat.lt_or_ge i n with hlt | hge
                  · simp [Option.filter, hlt]
                  · simp [Option.filter, Nat.not_lt.mpr hge]

/-- The start of a buffer is cut by itself. -/
theorem take_cutLine (buf : Bytes) (n : Nat) : (cutLine buf).take n = cutLine (buf.take n) := by
  unfold cutLine cutAt
  rw [strpbrk_take]
  cases strpbrk [cr, lf] buf with
  | none => rfl
  | some i =>
      rcases Nat.lt_or_ge i n with hlt | hge
      · simp [Option.filter, hlt, List.take_set]
      · simp [Option.filter, Nat.not_lt.mpr hge, List.take_set_of_le hge]

/-! ## What is visible of a buffer -/

/-- Ends the visible text. -/
def Stops (c : UInt8) : Prop := c = 0 ∨ c = cr ∨ c = lf

instance (c : UInt8) : Decidable (Stops c) := inferInstanceAs (Decidable (_ ∨ _))

theorem visible_cons (c : UInt8) (buf : Bytes) :
    visible (c :: buf) = if Stops c then [] else c :: visible buf := by
  by_cases hc : Stops c
  · rw [if_pos hc]
    exact List.takeWhile_cons_of_neg (by simpa [Stops, or_iff_not_imp_left] using hc)
  · rw [if_neg hc]
    exact List.takeWhile_cons_of_pos (by simpa [Stops, not_or] using hc)

/-- Which byte ends the visible text does not matter. -/
theorem visible_congr {a b : Bytes} (hlen : a.length = b.length)
    (h : ∀ i, i < a.length → ∃ x y, a[i]? = some x ∧ b[i]? = some y ∧
      (x = y ∨ (Stops x ∧ Stops y))) : visible a = visible b := by
  induction a generalizing b with
  | nil => rw [List.eq_nil_of_length_eq_zero hlen.symm]
  | cons c a ih =>
      cases b with
      | nil => cases hlen
      | cons d b =>
          have htail := ih (Nat.succ.inj hlen) fun i hi => h (i + 1) (Nat.succ_lt_succ hi)
          obtain ⟨x, y, hx, hy, hxy⟩ := h 0 (Nat.succ_pos _)
          cases hx
          cases hy
          rw [visible_cons, visible_cons, htail]
          rcases hxy with rfl | ⟨hc, hd⟩
          · rfl
          · rw [if_pos hc, if_pos hd]

/-- Behind the first byte that ends the visible text, nothing is visible. -/
theorem visible_append_of_stop {text rest : Bytes} {c : UInt8} (hc : Stops c) :
    visible (text ++ c :: rest) = visible text := by
  induction text with
  | nil => rw [List.nil_append, visible_cons, if_pos hc]; rfl
  | cons d text ih => rw [List.cons_append, visible_cons, visible_cons, ih]

theorem length_visible_le (buf : Bytes) : (visible buf).length ≤ buf.length :=
  (List.takeWhile_prefix _).length_le

/-- Nothing is visible behind a byte that ends the text. -/
theorem length_visible_le_of_stop {buf : Bytes} {i : Nat} {c : UInt8} (hi : buf[i]? = some c)
    (hc : Stops c) : (visible buf).length ≤ i := by
  obtain ⟨hlt, hget⟩ := List.getElem?_eq_some_iff.mp hi
  have hsplit : buf = buf.take i ++ c :: buf.drop (i + 1) := by
    rw [← hget, List.getElem_cons_drop, List.take_append_drop]
  rw [hsplit, visible_append_of_stop hc]
  exact (length_visible_le _).trans (List.length_take_le _ _)

/-- A visible text that ends in the first `n` bytes can be read off them. -/
theorem visible_take {buf : Bytes} {n : Nat} (h : (visible buf).length ≤ n) :
    visible (buf.take n) = visible buf := by
  rw [visible, ← List.take_takeWhile]
  exact List.take_of_length_le h

theorem visible_eq_self {text : Bytes} (h : ∀ c ∈ text, c ≠ 0 ∧ c ≠ cr ∧ c ≠ lf) :
    visible text = text := by
  rw [visible, List.takeWhile_eq_self_iff]
  intro c hc
  simpa using h c hc

theorem visible_append (text rest : Bytes) :
    visible (text ++ rest) =
      if visible text = text then text ++ visible rest else visible text := by
  induction text with
  | nil => rfl
  | cons c text ih =>
      rw [List.cons_append, visible_cons, visible_cons, ih]
      by_cases hc : Stops c
      · rw [if_pos hc, if_pos hc, if_neg (List.cons_ne_nil c text).symm]
      · rw [if_neg hc, if_neg hc]
        by_cases htext : visible text = text
        · rw [if_pos htext, if_pos (by rw [htext]), List.cons_append]
        · rw [if_neg htext, if_neg fun h => htext (List.cons.inj h).2]

theorem cr_notMem_visible (buf : Bytes) : cr ∉ visible buf := by
  intro h
  simpa using List.mem_takeWhile_imp h

theorem lf_notMem_visible (buf : Bytes) : lf ∉ visible buf := by
  intro h
  simpa using List.mem_takeWhile_imp h

/-! ## Splitting -/

theorem splitChr_eq_some_iff {c : UInt8} {text before after : Bytes} :
    splitChr c text = some (before, after) ↔ text = before ++ c :: after ∧ c ∉ before := by
  induction text generalizing before with
  | nil => simp [splitChr]
  | cons d text ih =>
      rw [splitChr]
      split
      · rename_i hd
        subst hd
        constructor
        · rintro ⟨⟩
          exact ⟨rfl, List.not_mem_nil⟩
        · rintro ⟨heq, hnotin⟩
          cases before with
          | nil => cases heq; rfl
          | cons e before => cases heq; exact absurd List.mem_cons_self hnotin
      · rename_i hd
        rw [Option.map_eq_some_iff]
        constructor
        · rintro ⟨⟨before', after'⟩, hsplit, heq⟩
          cases heq
          obtain ⟨rfl, hnotin⟩ := ih.mp hsplit
          exact ⟨rfl, fun hmem =>
            (List.mem_cons.mp hmem).elim (fun heq => hd heq.symm) hnotin⟩
        · rintro ⟨heq, hnotin⟩
          cases before with
          | nil => cases heq; exact absurd rfl hd
          | cons e before =>
              cases heq
              exact ⟨(before, after),
                ih.mpr ⟨rfl, fun hmem => hnotin (List.mem_cons_of_mem _ hmem)⟩, rfl⟩

/-! ## Replies -/

/-- A reply ends at its first carriage return. -/
theorem splitChr_okReply {text : Bytes} (h : cr ∉ text) (rest : Bytes) :
    splitChr cr (okReply text ++ rest) = some (text ++ ascii [':', 'O', 'K'], lf :: rest) := by
  rw [splitChr_eq_some_iff, List.mem_append, not_or]
  refine ⟨?_, h, by decide⟩
  rw [okReply, List.append_assoc, List.append_assoc]
  rfl

theorem okReply_append_inj {a b r s : Bytes} (ha : cr ∉ a) (hb : cr ∉ b)
    (h : okReply a ++ r = okReply b ++ s) : a = b ∧ r = s := by
  have hsplit := splitChr_okReply ha r
  rw [h, splitChr_okReply hb s, Option.some_inj, Prod.mk.injEq] at hsplit
  exact ⟨(List.append_cancel_right hsplit.1).symm, (List.cons.inj hsplit.2).2.symm⟩

theorem map_okReply_visible (lines : List Bytes) :
    (lines.map fun line => okReply (visible line)) = (lines.map visible).map okReply := by
  rw [List.map_map]
  rfl

theorem cr_notMem_map_visible (lines : List Bytes) : ∀ text ∈ lines.map visible, cr ∉ text := by
  intro text hmem
  obtain ⟨line, -, rfl⟩ := List.mem_map.mp hmem
  exact cr_notMem_visible line

/-- The texts can be read off the bytes of their replies. -/
theorem flatten_okReply_inj {as bs : List Bytes} (ha : ∀ a ∈ as, cr ∉ a) (hb : ∀ b ∈ bs, cr ∉ b) :
    (as.map okReply).flatten = (bs.map okReply).flatten ↔ as = bs := by
  refine ⟨fun h => ?_, fun h => congrArg (fun texts => (List.map okReply texts).flatten) h⟩
  induction as generalizing bs with
  | nil =>
      cases bs with
      | nil => rfl
      | cons b bs => exact absurd h.symm (by simp [okReply, okTail, ascii])
  | cons a as ih =>
      cases bs with
      | nil => exact absurd h (by simp [okReply, okTail, ascii])
      | cons b bs =>
          rw [List.forall_mem_cons] at ha hb
          simp only [List.map_cons, List.flatten_cons] at h
          obtain ⟨rfl, hrest⟩ := okReply_append_inj ha.1 hb.1 h
          rw [ih ha.2 hb.2 hrest]

end NetworkProgram.Libc
