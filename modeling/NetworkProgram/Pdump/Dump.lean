import NetworkProgram.Foundation.Accesses
import NetworkProgram.Pdump.Model

set_option autoImplicit false

/-!
# Pdump: `print_data`

The rows of a dump.  The character loop advances both the index and the data pointer by up
to 16, and then the outer loop advances the index once more.  So from the second row on the
index is ahead of the pointer, and the dump ends before the data does.  The title line is
left out.
-/

namespace NetworkProgram.Pdump

open NetworkProgram.Foundation
open NetworkProgram.Libc

/-! ## The code -/

/-- `INT_MAX` -/
def intMax : Nat := 2147483647

/-- `a + b` at type `int`. -/
def addInt (a b : Nat) : Traced UInt8 Nat :=
  if a + b ≤ intMax then pure (a + b) else Traced.undefined

def hexDigit (n : Nat) : UInt8 := UInt8.ofNat (if n < 10 then 48 + n else 55 + n)

/-- What `"%02X"` writes. -/
def hexByte (c : UInt8) : Bytes := [hexDigit (c.toNat / 16), hexDigit (c.toNat % 16)]

/-- `isascii(c) && isprint(c)` in the C locale. -/
def printable (c : UInt8) : Bool := 32 ≤ c && c ≤ 126

/-- What the character column shows for a byte. -/
def charOf (c : UInt8) : UInt8 := if printable c then c else 46

/-- A cell of the hex column without a byte. -/
def blank : Bytes := [32, 32]

/-- The cells of a row's two columns. -/
structure Row where
  hex : List Bytes
  chars : Bytes
  deriving DecidableEq, Repr

/-- What is printed for a row. -/
def Row.text (r : Row) : Bytes :=
  [32].intercalate r.hex ++ List.replicate 4 32 ++ r.chars ++ [lf]

/-- The first inner loop from `j` on, with the number of rounds left. -/
def hexLoop (size i data : Nat) : Nat → Nat → Traced UInt8 (List Bytes)
  | _, 0 => pure []
  | j, left + 1 => do
      let k ← addInt i j
      if k < size then do
        let c ← Traced.read (data + j : Nat)
        let cells ← hexLoop size i data (j + 1) left
        pure (hexByte c :: cells)
      else do
        let cells ← hexLoop size i data (j + 1) left
        pure (blank :: cells)

/-- The second inner loop: the cells, and `i` and `data` behind it. -/
def charLoop (size : Nat) : Nat → Nat → Nat → Traced UInt8 (Bytes × Nat × Nat)
  | 0, i, data => pure ([], i, data)
  | left + 1, i, data =>
      if i < size then do
        let c ← Traced.read data
        let i ← addInt i 1
        let r ← charLoop size left i (data + 1)
        pure (charOf c :: r.1, r.2)
      else do
        let r ← charLoop size left i data
        pure (32 :: r.1, r.2)

/-- The outer loop.  Every round takes some of the fuel. -/
def rowLoop (size : Nat) : Nat → Nat → Nat → Traced UInt8 (List Row)
  | 0, _, _ => Traced.undefined
  | fuel + 1, i, data =>
      if i < size then do
        let hex ← hexLoop size i data 0 16
        let r ← charLoop size 16 i data
        let i ← addInt r.2.1 1
        let rows ← rowLoop size fuel i r.2.2
        pure ({ hex := hex, chars := r.1 } :: rows)
      else pure []

/-- `print_data(data, size)` -/
def printData (size : Nat) : Traced UInt8 (List Row) := rowLoop size (size + 1) 0 0

/-! ## What a dump is for -/

/-- The dump shows every byte once and in order, 16 in a row. -/
structure ShowsAll (data : Bytes) (rows : List Row) : Prop where
  count : rows.length = (data.length + 15) / 16
  width : ∀ r ∈ rows, r.hex.length = 16 ∧ r.chars.length = 16
  hex : ∃ n, rows.flatMap Row.hex = data.map hexByte ++ List.replicate n blank
  chars : ∃ n, rows.flatMap Row.chars = data.map charOf ++ List.replicate n 32

/-- `print_data` reads inside of the data only, and shows all of it. -/
def PrintsAll (data : Bytes) : Prop :=
  (printData data.length).Inside data.length data ∧
    ∃ rows, (printData data.length data).result.map Prod.fst = some rows ∧ ShowsAll data rows

def hexValue (d : UInt8) : Option Nat :=
  if 48 ≤ d ∧ d ≤ 57 then some (d.toNat - 48)
  else if 65 ≤ d ∧ d ≤ 70 then some (d.toNat - 55)
  else none

/-- The byte of a cell of the hex column. -/
def unhex : Bytes → Option UInt8
  | [high, low] => do
      let high ← hexValue high
      let low ← hexValue low
      some (UInt8.ofNat (16 * high + low))
  | _ => none

theorem hexValue_hexDigit {n : Nat} (h : n < 16) : hexValue (hexDigit n) = some n := by
  have hall : ∀ i : Fin 16, hexValue (hexDigit i) = some (i : Nat) := by decide
  exact hall ⟨n, h⟩

theorem unhex_hexByte (c : UInt8) : unhex (hexByte c) = some c := by
  have hlt : c.toNat < 256 := UInt8.toNat_lt c
  have hsum : 16 * (c.toNat / 16) + c.toNat % 16 = c.toNat := Nat.div_add_mod _ _
  rw [hexByte, unhex, hexValue_hexDigit (by omega), hexValue_hexDigit (by omega)]
  change some (UInt8.ofNat (16 * (c.toNat / 16) + c.toNat % 16)) = some c
  rw [hsum, UInt8.ofNat_toNat]

theorem unhex_blank : unhex blank = none := rfl

/-! ## One row -/

/-- `n` cells of a column; up to `room` of them show the bytes. -/
def column {β : Type} (cell : UInt8 → β) (pad : β) : Nat → Nat → Bytes → List β
  | 0, _, _ => []
  | n + 1, room + 1, c :: text => cell c :: column cell pad n room text
  | n + 1, _, _ => pad :: column cell pad n 0 []

section Column

variable {β : Type} (cell : UInt8 → β) (pad : β)

theorem column_nil (n : Nat) (text : Bytes) :
    column cell pad n 0 text = List.replicate n pad := by
  induction n generalizing text with
  | zero => rfl
  | succ n ih => rw [column, ih, List.replicate_succ]; simp

/-- With room for all bytes the column shows them. -/
theorem column_of_le {n : Nat} {text : Bytes} (h : text.length ≤ n) :
    column cell pad n text.length text =
      text.map cell ++ List.replicate (n - text.length) pad := by
  induction text generalizing n with
  | nil => exact column_nil cell pad n []
  | cons c text ih =>
      rw [List.length_cons] at h
      obtain ⟨m, rfl⟩ := Nat.exists_eq_succ_of_ne_zero (Nat.ne_zero_of_lt h)
      rw [List.length_cons, column, ih (Nat.le_of_succ_le_succ h), Nat.succ_sub_succ]
      rfl

end Column

section Loops

variable {size i data : Nat} {cells : Bytes}

theorem ends_addInt {P : Access → Prop} {a b : Nat} (h : a + b ≤ intMax) :
    Traced.Ends P (addInt a b) cells (a + b) cells := by
  rw [addInt, if_pos h]
  exact Traced.ends_pure _

theorem ends_hexLoop (hlen : cells.length = size) (hdata : data ≤ i) (j left : Nat)
    (hint : i + j + left ≤ intMax + 1) :
    Traced.Ends (Access.Below size) (hexLoop size i data j left) cells
      (column hexByte blank left (size - (i + j)) (cells.drop (data + j))) cells := by
  induction left generalizing j with
  | zero => exact Traced.ends_pure _
  | succ left ih =>
      have hrest := ih (j + 1) (by omega)
      refine (ends_addInt (by omega)).bind ?_
      by_cases hlt : i + j < size
      · have hin : data + j < cells.length := by omega
        have hroom : size - (i + j) = size - (i + (j + 1)) + 1 := by omega
        rw [if_pos hlt, List.drop_eq_getElem_cons hin, hroom, column]
        exact (Traced.ends_read (List.getElem?_eq_getElem hin)
          (Access.read_below (hlen ▸ hin))).bind (hrest.bind (Traced.ends_pure _))
      · have hroom : size - (i + j) = 0 := by omega
        have hroom' : size - (i + (j + 1)) = 0 := by omega
        rw [if_neg hlt, hroom, column_nil]
        rw [hroom', column_nil] at hrest
        exact hrest.bind (Traced.ends_pure _)

theorem ends_charLoop (hlen : cells.length = size) (left i data : Nat) (hdata : data ≤ i)
    (hint : i + left ≤ intMax) :
    Traced.Ends (Access.Below size) (charLoop size left i data) cells
      (column charOf 32 left (size - i) (cells.drop data), i + min left (size - i),
        data + min left (size - i)) cells := by
  induction left generalizing i data with
  | zero =>
      rw [Nat.zero_min]
      exact Traced.ends_pure _
  | succ left ih =>
      rw [charLoop]
      by_cases hlt : i < size
      · have hin : data < cells.length := by omega
        have hroom : size - i = size - (i + 1) + 1 := by omega
        have hrest := ih (i + 1) (data + 1) (by omega) (by omega)
        have hsum : ∀ n : Nat, n + (min left (size - (i + 1)) + 1) =
            n + 1 + min left (size - (i + 1)) := fun n => by omega
        rw [if_pos hlt, List.drop_eq_getElem_cons hin, hroom, column, Nat.add_min_add_right,
          hsum i, hsum data]
        exact (Traced.ends_read (List.getElem?_eq_getElem hin)
          (Access.read_below (hlen ▸ hin))).bind ((ends_addInt (by omega)).bind
            (hrest.bind (Traced.ends_pure _)))
      · have hroom : size - i = 0 := by omega
        have hrest := ih i data hdata (by omega)
        rw [hroom, column_nil, Nat.min_zero] at hrest ⊢
        rw [if_neg hlt]
        exact hrest.bind (Traced.ends_pure _)

theorem ends_rowLoop_end {P : Access → Prop} {fuel : Nat} (hpos : 0 < fuel) (h : size ≤ i)
    (data : Nat) : Traced.Ends P (rowLoop size fuel i data) cells [] cells := by
  obtain ⟨fuel, rfl⟩ := Nat.exists_eq_succ_of_ne_zero hpos.ne'
  rw [rowLoop, if_neg (Nat.not_lt.mpr h)]
  exact Traced.ends_pure _

/-- Up to the largest `int` the dump ends, and is read from the data only. -/
theorem ends_rowLoop (hlen : cells.length = size) (hsize : size + 16 ≤ intMax)
    (fuel i data : Nat) (hdata : data ≤ i) (hpos : 0 < fuel) (hfuel : size < i + fuel) :
    ∃ rows, Traced.Ends (Access.Below size) (rowLoop size fuel i data) cells rows cells := by
  induction fuel generalizing i data with
  | zero => exact absurd hpos (Nat.lt_irrefl 0)
  | succ fuel ih =>
      by_cases hlt : i < size
      · rw [rowLoop, if_pos hlt]
        obtain ⟨rows, hrest⟩ := ih (i + min 16 (size - i) + 1) (data + min 16 (size - i))
          (by omega) (by omega) (by omega)
        exact ⟨_, (ends_hexLoop hlen hdata 0 16 (by omega)).bind
          ((ends_charLoop hlen 16 i data hdata (by omega)).bind
            ((ends_addInt (show i + min 16 (size - i) + 1 ≤ intMax by omega)).bind
              (hrest.bind (Traced.ends_pure _))))⟩
      · exact ⟨[], ends_rowLoop_end hpos (Nat.le_of_not_lt hlt) data⟩

/-! ### What has ended -/

theorem addInt_result {cells' : Bytes} {a b n : Nat}
    (h : (addInt a b cells).result = some (n, cells')) : n = a + b ∧ cells' = cells := by
  rw [addInt] at h
  split at h
  · cases h
    exact ⟨rfl, rfl⟩
  · cases h

theorem charLoop_result {cells' : Bytes} {r : Bytes × Nat × Nat} (left i data : Nat)
    (h : (charLoop size left i data cells).result = some (r, cells')) :
    r.2.1 = i + min left (size - i) := by
  induction left generalizing i data cells r with
  | zero =>
      cases h
      rw [Nat.zero_min]
      rfl
  | succ left ih =>
      rw [charLoop] at h
      split at h
      · obtain ⟨_, _, -, h⟩ := Traced.exists_of_bind_result h
        obtain ⟨_, _, hadd, h⟩ := Traced.exists_of_bind_result h
        obtain ⟨_, _, hrest, h⟩ := Traced.exists_of_bind_result h
        cases h
        have hi := ih _ _ hrest
        rw [(addInt_result hadd).1] at hi
        dsimp only
        omega
      · obtain ⟨_, _, hrest, h⟩ := Traced.exists_of_bind_result h
        cases h
        have hi := ih _ _ hrest
        dsimp only
        omega

/-- The fuel that is not needed changes nothing. -/
theorem rowLoop_fuel (size fuel i data : Nat) (hpos : 0 < fuel) (h : size < i + fuel) :
    rowLoop size (fuel + 1) i data cells = rowLoop size fuel i data cells := by
  induction fuel generalizing i data cells with
  | zero => exact absurd hpos (Nat.lt_irrefl 0)
  | succ fuel ih =>
      rw [rowLoop, rowLoop]
      by_cases hlt : i < size
      · rw [if_pos hlt, if_pos hlt]
        refine Traced.bind_congr fun hex _ _ => Traced.bind_congr fun r _ hchars =>
          Traced.bind_congr fun i' _ hadd => ?_
        have hi := charLoop_result 16 i data hchars
        have hi' := (addInt_result hadd).1
        exact Traced.bind_congr_left (ih i' r.2.2 (by omega) (by omega))
      · rw [if_neg hlt, if_neg hlt]

/-- The cells of the hex column that show a byte. -/
def shown (rows : List Row) : Nat := (rows.flatMap Row.hex).countP fun cell => cell ≠ blank

theorem hexLoop_count {cells' : Bytes} {hex : List Bytes} (j left : Nat)
    (h : (hexLoop size i data j left cells).result = some (hex, cells')) :
    hex.countP (fun cell => cell ≠ blank) ≤ min left (size - (i + j)) := by
  induction left generalizing j cells hex with
  | zero =>
      cases h
      exact Nat.zero_le _
  | succ left ih =>
      obtain ⟨k, _, hadd, h⟩ := Traced.exists_of_bind_result h
      rw [(addInt_result hadd).1] at h
      split at h
      · obtain ⟨_, _, -, h⟩ := Traced.exists_of_bind_result h
        obtain ⟨_, _, hrest, h⟩ := Traced.exists_of_bind_result h
        cases h
        have hle := ih (j + 1) hrest
        rw [List.countP_cons]
        split <;> omega
      · obtain ⟨_, _, hrest, h⟩ := Traced.exists_of_bind_result h
        cases h
        have hle := ih (j + 1) hrest
        rw [List.countP_cons_of_neg (by simp)]
        omega

/-- From the second row on bytes are left out. -/
theorem rowLoop_shown {cells' : Bytes} {rows : List Row} (fuel i data : Nat)
    (h : (rowLoop size fuel i data cells).result = some (rows, cells')) :
    shown rows ≤ size - i ∧ (16 < size - i → shown rows < size - i) := by
  induction fuel generalizing i data cells rows with
  | zero => cases h
  | succ fuel ih =>
      rw [rowLoop] at h
      split at h
      · obtain ⟨hex, _, hhex, h⟩ := Traced.exists_of_bind_result h
        obtain ⟨r, _, hchars, h⟩ := Traced.exists_of_bind_result h
        obtain ⟨i', _, hadd, h⟩ := Traced.exists_of_bind_result h
        obtain ⟨rest, _, hrest, h⟩ := Traced.exists_of_bind_result h
        cases h
        have hle := hexLoop_count 0 16 hhex
        have hi := charLoop_result 16 i data hchars
        have hi' := (addInt_result hadd).1
        have hmore := (ih _ _ hrest).1
        have hcons : shown ({ hex := hex, chars := r.1 } :: rest) =
            hex.countP (fun cell => cell ≠ blank) + shown rest := by
          rw [shown, List.flatMap_cons, List.countP_append]
          rfl
        rw [hcons]
        omega
      · cases h
        exact ⟨Nat.zero_le _, fun hlt => by omega⟩

end Loops

/-! ## The dump -/

/-- Whatever its size up to almost the largest `int`, the data is not left, and the dump ends. -/
theorem printData_ends {data : Bytes} (h : data.length + 16 ≤ intMax) :
    ∃ rows, Traced.Ends (Access.Below data.length) (printData data.length) data rows data :=
  ends_rowLoop rfl h (data.length + 1) 0 0 (Nat.le_refl 0) (Nat.succ_pos _) (by omega)

/-- The fuel of `printData` is enough. -/
theorem printData_fuel (size more : Nat) (cells : Bytes) :
    rowLoop size (size + 1 + more) 0 0 cells = printData size cells := by
  induction more with
  | zero => rfl
  | succ more ih =>
      rw [← Nat.add_assoc, rowLoop_fuel size _ 0 0 (by omega) (by omega), ih]

/-- Short data is one row. -/
theorem ends_printData {data : Bytes} (h : data.length ≤ 16) :
    ∃ rows, Traced.Ends (Access.Below data.length) (printData data.length) data rows data ∧
      ShowsAll data rows := by
  rcases Nat.eq_zero_or_pos data.length with hzero | hpos
  · have hnil := List.length_eq_zero_iff.mp hzero
    subst hnil
    exact ⟨[], Traced.ends_pure _, ⟨rfl, List.forall_mem_nil _, ⟨0, rfl⟩, ⟨0, rfl⟩⟩⟩
  · have hmin : min 16 (data.length - 0) = data.length := by omega
    have hint : data.length + 17 ≤ intMax := by
      rw [intMax]
      omega
    have hlen : data.length = data.length := rfl
    have hhex := ends_hexLoop hlen (Nat.le_refl 0) 0 16 (by omega)
    have hchars := ends_charLoop hlen 16 0 0 (Nat.le_refl 0) (by omega)
    rw [Nat.add_zero, Nat.sub_zero, List.drop_zero, column_of_le hexByte blank h] at hhex
    rw [hmin, Nat.sub_zero, List.drop_zero, Nat.zero_add, column_of_le charOf 32 h] at hchars
    have hlast : Traced.Ends (Access.Below data.length)
        (rowLoop data.length data.length (data.length + 1) data.length) data [] data :=
      ends_rowLoop_end hpos (Nat.le_succ _) data.length
    refine ⟨[{ hex := data.map hexByte ++ List.replicate (16 - data.length) blank
               chars := data.map charOf ++ List.replicate (16 - data.length) 32 }], ?_, ?_⟩
    · rw [printData, rowLoop, if_pos hpos]
      exact hhex.bind (hchars.bind ((ends_addInt (show data.length + 1 ≤ intMax by omega)).bind
        (hlast.bind (Traced.ends_pure _))))
    · refine ⟨by rw [List.length_singleton]; omega, List.forall_mem_singleton.mpr ⟨?_, ?_⟩,
        ⟨16 - data.length, ?_⟩, ⟨16 - data.length, ?_⟩⟩
      · rw [List.length_append, List.length_map, List.length_replicate]
        omega
      · rw [List.length_append, List.length_map, List.length_replicate]
        omega
      · rw [List.flatMap_cons, List.flatMap_nil, List.append_nil]
      · rw [List.flatMap_cons, List.flatMap_nil, List.append_nil]

theorem hexByte_ne_blank (c : UInt8) : hexByte c ≠ blank := by
  intro h
  have hsome := unhex_hexByte c
  rw [h, unhex_blank] at hsome
  cases hsome

/-- A full dump shows as many bytes as there are. -/
theorem ShowsAll.shown_eq {data : Bytes} {rows : List Row} (h : ShowsAll data rows) :
    shown rows = data.length := by
  obtain ⟨n, hhex⟩ := h.hex
  have hdata : (data.map hexByte).countP (fun cell => cell ≠ blank) = data.length := by
    rw [List.countP_eq_length.mpr fun cell hcell => ?_, List.length_map]
    obtain ⟨c, -, rfl⟩ := List.mem_map.mp hcell
    exact decide_eq_true (hexByte_ne_blank c)
  have hblank : (List.replicate n blank).countP (fun cell => cell ≠ blank) = 0 :=
    List.countP_eq_zero.mpr fun cell hcell => by simp [List.eq_of_mem_replicate hcell]
  rw [shown, hhex, List.countP_append, hdata, hblank, Nat.add_zero]

theorem PrintsAll.length_le {data : Bytes} (h : PrintsAll data) : data.length ≤ 16 := by
  obtain ⟨-, rows, hresult, hshows⟩ := h
  obtain ⟨r, hrun, rfl⟩ := Option.map_eq_some_iff.mp hresult
  by_contra hlong
  have hless := (rowLoop_shown _ 0 0 hrun).2 (by omega)
  rw [hshows.shown_eq] at hless
  omega

/-- All of the data is shown exactly if there is no second row. -/
theorem printsAll_iff (data : Bytes) : PrintsAll data ↔ data.length ≤ 16 := by
  refine ⟨PrintsAll.length_le, fun h => ?_⟩
  obtain ⟨rows, hends, hshows⟩ := ends_printData h
  exact ⟨hends.inside, rows, by rw [hends.result]; rfl, hshows⟩

/-- The last of 17 bytes is not shown. -/
theorem not_printsAll : ¬ ∀ data : Bytes, PrintsAll data := by
  intro h
  have hle := (h (List.replicate 17 0)).length_le
  rw [List.length_replicate] at hle
  exact absurd hle (by decide)

end NetworkProgram.Pdump
