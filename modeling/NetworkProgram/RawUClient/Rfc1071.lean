import NetworkProgram.RawUClient.Checksum

set_option autoImplicit false

/-!
# RawUClient: `checksum` and the Internet checksum

The function reads the text in the machine's own byte order and stores its result in it,
and what then lies in memory is the Internet checksum of RFC 1071, which knows only the
network order.  To say that no addition leaves the 32 bits of the accumulator the
function is written once more, with every addition checked.
-/

namespace NetworkProgram.RawUClient

open NetworkProgram.Foundation
open NetworkProgram.Libc

/-! ## The accumulator -/

/-- A sum that fits into 32 bits. -/
def addChecked (a b : Nat) : Option Nat := if a + b < intRange then some (a + b) else none

def foldChecked (sum : Nat) : Option Nat := addChecked (sum % 65536) (sum / 65536)

/-- The `for` loop and the odd last byte. -/
def addWordsChecked (e : ByteOrder) : Bytes → Nat → Option Nat
  | b0 :: b1 :: rest, sum =>
      (addChecked sum (e.load b0 b1)).bind fun sum =>
        (if 0x80000000 ≤ sum then foldChecked sum else some sum).bind (addWordsChecked e rest)
  | [b], sum => addChecked sum (e.load b 0)
  | [], sum => some sum

/-- The `while` loop, if it ends within so many rounds. -/
def carryChecked : Nat → Nat → Option Nat
  | 0, sum => if sum / 65536 = 0 then some sum else none
  | rounds + 1, sum =>
      if sum / 65536 = 0 then some sum else (foldChecked sum).bind (carryChecked rounds)

/-- `checksum`, if no addition wraps and the `while` loop ends within two rounds. -/
def checksumChecked (e : ByteOrder) (data : Bytes) (len : Nat) : Option Nat :=
  (addWordsChecked e (data.take (len % intRange)) 0).bind fun sum =>
    (carryChecked 2 sum).map fun sum =>
      if sum = 0xFFFF then sum else (0xFFFFFFFF - sum) % 65536

theorem foldChecked_eq {sum : Nat} (h : sum < intRange) : foldChecked sum = some (fold sum) := by
  unfold intRange at h
  unfold foldChecked addChecked fold
  exact if_pos (by unfold intRange; omega)

theorem addChecked_word {sum w : Nat} (hsum : sum < 0x80000000) (hw : w < 65536) :
    addChecked sum w = some (sum + w) :=
  if_pos (by unfold intRange; omega)

/-- In front of every word the top bit is clear, so no addition wraps. -/
theorem addWordsChecked_eq (e : ByteOrder) (data : Bytes) {sum : Nat} (h : sum < 0x80000000) :
    addWordsChecked e data sum = some (addWords e data sum) ∧ addWords e data sum < intRange := by
  induction data using wordSum.induct generalizing sum with
  | case1 b0 b1 rest ih =>
      obtain ⟨hmod, hlt⟩ := addWords_step h (load_lt e b0 b1)
      have hrange : sum + e.load b0 b1 < intRange := by
        have hload := load_lt e b0 b1
        unfold intRange
        omega
      have hnext : (if 0x80000000 ≤ sum + e.load b0 b1 then foldChecked (sum + e.load b0 b1)
          else some (sum + e.load b0 b1)) =
          some (if 0x80000000 ≤ sum + e.load b0 b1 then fold (sum + e.load b0 b1)
            else sum + e.load b0 b1) := by
        split
        · exact foldChecked_eq hrange
        · rfl
      rw [addWordsChecked, addWords, addChecked_word h (load_lt e b0 b1), hmod, Option.bind_some,
        hnext, Option.bind_some]
      exact ih hlt
  | case2 b =>
      obtain ⟨hmod, -⟩ := addWords_step h (load_lt e b 0)
      have hload := load_lt e b 0
      rw [addWordsChecked, addWords, addChecked_word h hload, hmod]
      exact ⟨rfl, by unfold intRange; omega⟩
  | case3 => exact ⟨rfl, by rw [addWords]; unfold intRange; omega⟩

theorem carryChecked_eq {sum : Nat} (h : sum < intRange) :
    carryChecked 2 sum = some (carry sum) := by
  have hlt := h
  unfold intRange at hlt
  rw [carryChecked, carry]
  split
  · rfl
  · have hfold : fold sum < intRange := by
      unfold fold intRange
      omega
    rw [foldChecked_eq h, Option.bind_some, carryChecked, carry]
    split
    · rfl
    · have hsmall : fold (fold sum) / 65536 = 0 := by
        unfold fold
        omega
      rw [foldChecked_eq hfold, Option.bind_some, carryChecked, carry, if_pos hsmall, if_pos hsmall]

theorem checksumChecked_eq (e : ByteOrder) (data : Bytes) (len : Nat) :
    checksumChecked e data len = some (checksum e data len) := by
  obtain ⟨hwords, hrange⟩ := addWordsChecked_eq e (data.take (len % intRange))
    (show 0 < 0x80000000 by decide)
  rw [checksumChecked, hwords, Option.bind_some, carryChecked_eq hrange]
  rfl

/-! ## The result -/

/-- The Internet checksum, 0xFFFF instead of 0, as it lies in memory. -/
theorem store_checksum (e : ByteOrder) {data : Bytes} (h : data.length < intRange) :
    e.store (checksum e data data.length) =
      ByteOrder.big.store
        (if internetChecksum data = 0 then 0xFFFF else internetChecksum data) := by
  have hle : checksum e data data.length < 65536 := checksum_le e h
  have hbig : onesSum .big data ≤ 65535 := carry_le _
  have heq : checksum e data data.length = _ := checksum_eq e h
  rw [List.take_length] at heq
  rw [internetChecksum_eq]
  cases e with
  | big =>
      rw [heq]
      congr 1
      split <;> split <;> omega
  | little =>
      have hlittle : onesSum .little data ≤ 65535 := carry_le _
      rw [store_little hle, heq, onesSum_swap]
      congr 1
      unfold swap
      split <;> split <;> omega

/-- No addition wraps, the loops end, and the result in memory is the Internet checksum. -/
theorem checksum_rfc1071 (e : ByteOrder) {data : Bytes} (h : data.length < intRange) :
    checksumChecked e data data.length = some (checksum e data data.length) ∧
      e.store (checksum e data data.length) = ByteOrder.big.store
        (if internetChecksum data = 0 then 0xFFFF else internetChecksum data) ∧
      checksum e data data.length ≠ 0 :=
  ⟨checksumChecked_eq e data data.length, store_checksum e h, checksum_ne_zero e h⟩

theorem checksum_rfc1071_odd :
    checksumChecked .little [0x12, 0x34, 0x56] 3 = some (checksum .little [0x12, 0x34, 0x56] 3) ∧
      ByteOrder.little.store (checksum .little [0x12, 0x34, 0x56] 3) = ByteOrder.big.store
        (if internetChecksum [0x12, 0x34, 0x56] = 0 then 0xFFFF
          else internetChecksum [0x12, 0x34, 0x56]) ∧
      checksum .little [0x12, 0x34, 0x56] 3 ≠ 0 :=
  checksum_rfc1071 .little (show ([0x12, 0x34, 0x56] : Bytes).length < intRange by decide)

end NetworkProgram.RawUClient
