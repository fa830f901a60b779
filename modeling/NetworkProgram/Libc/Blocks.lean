import NetworkProgram.Libc.Strings

set_option autoImplicit false

/-!
# Libc: strings in blocks of `malloc`

The bytes of a block that nothing was written to have no value, and a function that reads one
has no result; neither has one that reads or writes behind the block.
-/

namespace NetworkProgram.Libc

/-- The bytes of a block; `none` is not written yet. -/
abbrev Cells : Type := List (Option UInt8)

namespace Cells

/-- `malloc(n)` -/
def fresh (n : Nat) : Cells := List.replicate n none

/-- The string at the start of the block. -/
def string : Cells → Option Bytes
  | [] => none
  | none :: _ => none
  | some c :: rest => if c = 0 then some [] else (string rest).map (c :: ·)

/-- `memcpy` and its like, to the start of the block. -/
def store (bytes : Bytes) (cells : Cells) : Option Cells :=
  if bytes.length ≤ cells.length then some (bytes.map some ++ cells.drop bytes.length) else none

/-- `strcpy` and `sprintf` -/
def strcpy (text : Bytes) (cells : Cells) : Option Cells := store (text ++ [0]) cells

/-- `for (p = str; *p; p++) *p = (char)toupper((int)*p);` -/
def upcase : Cells → Option Cells
  | [] => none
  | none :: _ => none
  | some c :: rest =>
      if c = 0 then some (some c :: rest)
      else (upcase rest).map (some (toupper c) :: ·)

theorem store_fresh {bytes : Bytes} {n : Nat} (h : bytes.length = n) :
    store bytes (fresh n) = some (bytes.map some) := by
  rw [store, fresh, List.length_replicate, if_pos (Nat.le_of_eq h), List.drop_replicate, h,
    Nat.sub_self, List.replicate_zero, List.append_nil]

/-- A block of the size that the text and its NUL have. -/
theorem strcpy_fresh (text : Bytes) :
    strcpy text (fresh (text.length + 1)) = some ((text ++ [0]).map some) :=
  store_fresh List.length_append

theorem string_text {text : Bytes} (h : (0 : UInt8) ∉ text) (rest : Cells) :
    string (text.map some ++ some 0 :: rest) = some text := by
  induction text with
  | nil => exact if_pos rfl
  | cons c text ih =>
      rw [List.mem_cons, not_or] at h
      rw [List.map_cons, List.cons_append, string, if_neg (Ne.symm h.1), ih h.2]
      rfl

theorem string_strcpy {text : Bytes} (h : (0 : UInt8) ∉ text) :
    string ((text ++ [0]).map some) = some text := by
  rw [List.map_append]
  exact string_text h []

theorem upcase_strcpy {text : Bytes} (h : (0 : UInt8) ∉ text) :
    upcase ((text ++ [0]).map some) = some ((text.map toupper ++ [0]).map some) := by
  induction text with
  | nil => exact if_pos rfl
  | cons c text ih =>
      rw [List.mem_cons, not_or] at h
      rw [List.cons_append, List.map_cons, upcase, if_neg (Ne.symm h.1), ih h.2]
      rfl

end Cells

theorem toupper_ne_zero {c : UInt8} (h : c ≠ 0) : toupper c ≠ 0 := by
  intro hzero
  have hsame : toupper c = toupper 0 := hzero
  rcases toupper_eq_iff.mp hsame with rfl | ⟨-, hle, hsum⟩ | ⟨hle, -⟩
  · exact h rfl
  · rw [UInt8.le_iff_toNat_le] at hle
    rw [← UInt8.toNat_inj, UInt8.toNat_add] at hsum
    simp only [UInt8.reduceToNat] at hsum hle
    omega
  · exact absurd hle (Nat.not_le_of_lt (Nat.le_of_ble_eq_true rfl))

theorem nul_notMem_toupper {text : Bytes} (h : (0 : UInt8) ∉ text) :
    (0 : UInt8) ∉ text.map toupper := by
  intro hmem
  obtain ⟨c, hc, hzero⟩ := List.mem_map.mp hmem
  exact toupper_ne_zero (fun heq => h (heq ▸ hc)) hzero

end NetworkProgram.Libc
