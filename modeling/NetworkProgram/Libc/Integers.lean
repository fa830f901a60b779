import Mathlib.Data.Int.Init

set_option autoImplicit false

/-!
# Libc: `size_t` and `int`

The values of type `size_t` are the naturals below `sizeRange`, those of type `int`
the integers whose absolute value is at most half of `intRange`.  A difference of
sizes is taken modulo `sizeRange`; it is the difference of the numbers as long as
it does not wrap around.
-/

namespace NetworkProgram.Libc

/-- `SIZE_MAX + 1` -/
def sizeRange : Nat := 18446744073709551616

/-- `UINT_MAX + 1` -/
def intRange : Nat := 4294967296

/-- `a - b` at type `size_t`. -/
def subSize (a b : Nat) : Nat := (a + (sizeRange - b)) % sizeRange

/-- A size as an `int`. -/
def toInt (a : Nat) : Int := Int.bmod a intRange

/-- An `int` as a size. -/
def toSize (i : Int) : Nat := (i % sizeRange).toNat

theorem subSize_of_le {a b : Nat} (hle : b ≤ a) (ha : a < sizeRange) : subSize a b = a - b := by
  have hsum : a + (sizeRange - b) = (a - b) + sizeRange := by omega
  rw [subSize, hsum, Nat.add_mod_right, Nat.mod_eq_of_lt (by omega)]

theorem toInt_of_lt {a : Nat} (h : 2 * a < intRange) : toInt a = a := by
  refine Int.bmod_eq_of_le ?_ ?_ <;> unfold intRange at * <;> omega

theorem toSize_natCast {a : Nat} (h : a < sizeRange) : toSize a = a := by
  rw [toSize, Int.emod_eq_of_lt (Int.natCast_nonneg a) (by exact_mod_cast h), Int.toNat_natCast]

end NetworkProgram.Libc
