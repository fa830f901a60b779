import Mathlib.Data.Nat.ModEq
import Mathlib.Tactic.Ring

set_option autoImplicit false

/-!
# Foundation: one's complement sums

A sum of 16-bit words with the carries added back in is the sum modulo 65535, with
65535 for the multiples other than zero.  It does not matter when the carries are added
back, nor in which order the two bytes of each word are read, as long as that order is
always the same.
-/

namespace NetworkProgram.Foundation

/-! ## Carries -/

/-- The carries out of 16 bits, added back in once. -/
def fold (n : Nat) : Nat := n % 65536 + n / 65536

/-- Add the carries back in until there are none. -/
def carry (n : Nat) : Nat := if n / 65536 = 0 then n else carry (fold n)
  termination_by n
  decreasing_by unfold fold; omega

theorem fold_modEq (n : Nat) : fold n ≡ n [MOD 65535] := by
  unfold fold Nat.ModEq
  omega

theorem fold_eq_zero_iff {n : Nat} : fold n = 0 ↔ n = 0 := by
  unfold fold
  omega

/-- What the sum with its carries is. -/
theorem carry_eq (n : Nat) : carry n = if n = 0 then 0 else (n - 1) % 65535 + 1 := by
  induction n using carry.induct with
  | case1 n small =>
      rw [carry, if_pos small]
      split <;> omega
  | case2 n large ih =>
      have hmod := fold_modEq n
      have hzero := fold_eq_zero_iff (n := n)
      unfold Nat.ModEq at hmod
      rw [carry, if_neg large, ih]
      split <;> split <;> omega

theorem carry_congr {m n : Nat} (hmod : m ≡ n [MOD 65535]) (hzero : m = 0 ↔ n = 0) :
    carry m = carry n := by
  unfold Nat.ModEq at hmod
  rw [carry_eq, carry_eq]
  split <;> split <;> omega

theorem carry_le (n : Nat) : carry n ≤ 65535 := by
  rw [carry_eq]
  split <;> omega

theorem carry_modEq (n : Nat) : carry n ≡ n [MOD 65535] := by
  unfold Nat.ModEq
  rw [carry_eq]
  split <;> omega

/-- The carries of a part may be added back in at once. -/
theorem carry_fold_add (m n : Nat) : carry (fold m + n) = carry (m + n) := by
  have hzero := fold_eq_zero_iff (n := m)
  exact carry_congr ((fold_modEq m).add_right n) (by omega)

theorem carry_eq_zero_iff {n : Nat} : carry n = 0 ↔ n = 0 := by
  rw [carry_eq]
  split <;> omega

theorem carry_carry_add (m n : Nat) : carry (carry m + n) = carry (m + n) := by
  have hzero := carry_eq_zero_iff (n := m)
  exact carry_congr ((carry_modEq m).add_right n) (by omega)

theorem carry_eq_max_iff {n : Nat} : carry n = 65535 ↔ n ≠ 0 ∧ n % 65535 = 0 := by
  rw [carry_eq]
  split <;> omega

/-! ## Bytes -/

/-- How the bytes of a 16-bit word lie in memory. -/
inductive ByteOrder
  | little
  | big
  deriving DecidableEq, Repr

/-- The word of two bytes. -/
def ByteOrder.load (e : ByteOrder) (b0 b1 : UInt8) : Nat :=
  match e with
  | .little => b0.toNat + 256 * b1.toNat
  | .big => 256 * b0.toNat + b1.toNat

/-- The two bytes of a word. -/
def ByteOrder.store (e : ByteOrder) (w : Nat) : List UInt8 :=
  match e with
  | .little => [UInt8.ofNat (w % 256), UInt8.ofNat (w / 256)]
  | .big => [UInt8.ofNat (w / 256), UInt8.ofNat (w % 256)]

/-- The sum of the words of a text; an odd last byte is followed by a zero. -/
def wordSum (e : ByteOrder) : List UInt8 → Nat
  | b0 :: b1 :: rest => e.load b0 b1 + wordSum e rest
  | [b] => e.load b 0
  | [] => 0

/-- The one's complement sum of a text. -/
def onesSum (e : ByteOrder) (data : List UInt8) : Nat := carry (wordSum e data)

section Bytes

variable (e : ByteOrder)

@[simp] theorem length_store (w : Nat) : (e.store w).length = 2 := by cases e <;> rfl

theorem load_store {w : Nat} (h : w < 65536) (rest : List UInt8) :
    wordSum e (e.store w ++ rest) = w + wordSum e rest := by
  have hhigh : w / 256 % 256 = w / 256 := Nat.mod_eq_of_lt (by omega)
  cases e <;>
    simp only [ByteOrder.store, List.cons_append, List.nil_append, wordSum, ByteOrder.load,
      UInt8.toNat_ofNat', Nat.reducePow, Nat.mod_mod, hhigh] <;> omega

theorem load_lt (b0 b1 : UInt8) : e.load b0 b1 < 65536 := by
  have h0 := b0.toNat_lt
  have h1 := b1.toNat_lt
  cases e <;> simp only [ByteOrder.load] <;> omega

/-- The words of a text of even length do not mix with what follows. -/
theorem wordSum_append {left : List UInt8} (h : left.length % 2 = 0) (right : List UInt8) :
    wordSum e (left ++ right) = wordSum e left + wordSum e right := by
  induction left using wordSum.induct with
  | case1 b0 b1 rest ih =>
      rw [List.length_cons, List.length_cons] at h
      rw [List.cons_append, List.cons_append, wordSum, wordSum, ih (by omega), Nat.add_assoc]
  | case2 b => cases h
  | case3 => rw [List.nil_append, wordSum, Nat.zero_add]

/-- An odd last byte is followed by a zero. -/
theorem wordSum_pad {data : List UInt8} (h : data.length % 2 = 1) :
    wordSum e (data ++ [0]) = wordSum e data := by
  induction data using wordSum.induct with
  | case1 b0 b1 rest ih =>
      rw [List.length_cons, List.length_cons] at h
      rw [List.cons_append, List.cons_append, wordSum, wordSum, ih (by omega)]
  | case2 b => rw [List.singleton_append, wordSum, wordSum, wordSum, Nat.add_zero]
  | case3 => cases h

end Bytes

theorem load_swap (b0 b1 : UInt8) :
    256 * ByteOrder.little.load b0 b1 ≡ ByteOrder.big.load b0 b1 [MOD 65535] := by
  simp only [Nat.ModEq, ByteOrder.load]
  omega

theorem load_eq_zero_iff (b0 b1 : UInt8) :
    ByteOrder.little.load b0 b1 = 0 ↔ ByteOrder.big.load b0 b1 = 0 := by
  simp only [ByteOrder.load]
  omega

/-- Read in the other order, the sum is multiplied by 256 modulo 65535. -/
theorem wordSum_swap (data : List UInt8) :
    256 * wordSum .little data ≡ wordSum .big data [MOD 65535] := by
  induction data using wordSum.induct with
  | case1 b0 b1 rest ih =>
      rw [wordSum, wordSum, Nat.mul_add]
      exact (load_swap b0 b1).add ih
  | case2 b => exact load_swap b 0
  | case3 => rfl

theorem wordSum_eq_zero_iff (data : List UInt8) :
    wordSum .little data = 0 ↔ wordSum .big data = 0 := by
  induction data using wordSum.induct with
  | case1 b0 b1 rest ih =>
      have hload := load_eq_zero_iff b0 b1
      rw [wordSum, wordSum]
      omega
  | case2 b => exact load_eq_zero_iff b 0
  | case3 => rfl

/-- A text that sums up to 65535 in one byte order does so in both. -/
theorem onesSum_max_iff (e : ByteOrder) (data : List UInt8) :
    onesSum e data = 65535 ↔ onesSum .big data = 65535 := by
  cases e with
  | big => exact Iff.rfl
  | little =>
      have hswap := wordSum_swap data
      have hzero := wordSum_eq_zero_iff data
      unfold Nat.ModEq at hswap
      rw [onesSum, onesSum, carry_eq_max_iff, carry_eq_max_iff]
      omega

/-! ## The other byte order -/

/-- A word with its two bytes exchanged. -/
def swap (w : Nat) : Nat := w % 256 * 256 + w / 256

theorem swap_modEq (w : Nat) : swap w ≡ 256 * w [MOD 65535] := by
  simp only [Nat.ModEq, swap]
  omega

/-- The sum in the other byte order is the same sum with its bytes exchanged. -/
theorem onesSum_swap (data : List UInt8) :
    onesSum .big data = swap (onesSum .little data) := by
  have hle : onesSum .little data ≤ 65535 := carry_le _
  have hbig : onesSum .big data ≤ 65535 := carry_le _
  have hzero : onesSum .little data = 0 ↔ onesSum .big data = 0 := by
    rw [onesSum, onesSum, carry_eq_zero_iff, carry_eq_zero_iff, wordSum_eq_zero_iff]
  have hmod : onesSum .big data ≡ swap (onesSum .little data) [MOD 65535] :=
    calc onesSum .big data
      _ ≡ wordSum .big data [MOD 65535] := carry_modEq _
      _ ≡ 256 * wordSum .little data [MOD 65535] := (wordSum_swap data).symm
      _ ≡ 256 * onesSum .little data [MOD 65535] := (carry_modEq _).symm.mul_left 256
      _ ≡ swap (onesSum .little data) [MOD 65535] := (swap_modEq _).symm
  unfold Nat.ModEq swap at hmod
  unfold swap
  omega

theorem store_little {w : Nat} (h : w < 65536) :
    ByteOrder.little.store w = ByteOrder.big.store (swap w) := by
  have hhigh : swap w / 256 = w % 256 := by
    unfold swap
    omega
  have hlow : swap w % 256 = w / 256 := by
    unfold swap
    omega
  simp only [ByteOrder.store, hhigh, hlow]

/-! ## The Internet checksum -/

/-- Addition with the carry added back in. -/
def onesAdd (a b : Nat) : Nat := if a + b < 65536 then a + b else a + b - 65535

/-- The words of a text of even length, in network order. -/
def netWords : List UInt8 → List Nat
  | b0 :: b1 :: rest => ByteOrder.big.load b0 b1 :: netWords rest
  | [_] => []
  | [] => []

/-- A text of odd length gets a zero behind it. -/
def padded (data : List UInt8) : List UInt8 :=
  if data.length % 2 = 1 then data ++ [0] else data

/-- The complement of the one's complement sum of the words. -/
def internetChecksum (data : List UInt8) : Nat :=
  65535 - (netWords (padded data)).foldl onesAdd 0

theorem onesAdd_eq {a b : Nat} (ha : a ≤ 65535) (hb : b ≤ 65535) :
    onesAdd a b = carry (a + b) := by
  rw [carry_eq, onesAdd]
  split <;> split <;> omega

/-- Adding the carries back in after every word gives the same sum. -/
theorem foldl_onesAdd {data : List UInt8} (heven : data.length % 2 = 0) {sum : Nat}
    (hsum : sum ≤ 65535) :
    (netWords data).foldl onesAdd sum = carry (sum + wordSum .big data) := by
  induction data using netWords.induct generalizing sum with
  | case1 b0 b1 rest ih =>
      have hload := load_lt .big b0 b1
      rw [List.length_cons, List.length_cons] at heven
      rw [netWords, List.foldl_cons, onesAdd_eq hsum (by omega), ih (by omega) (carry_le _),
        wordSum, ← Nat.add_assoc]
      exact carry_carry_add _ _
  | case2 b => cases heven
  | case3 =>
      rw [netWords, List.foldl_nil, wordSum, Nat.add_zero, carry_eq]
      split <;> omega

theorem internetChecksum_eq (data : List UInt8) :
    internetChecksum data = 65535 - onesSum .big data := by
  unfold internetChecksum padded onesSum
  split
  · rename_i hodd
    rw [foldl_onesAdd (by rw [List.length_append, List.length_singleton]; omega) (Nat.zero_le _),
      wordSum_pad .big hodd, Nat.zero_add]
  · rw [foldl_onesAdd (by omega) (Nat.zero_le _), Nat.zero_add]

end NetworkProgram.Foundation
