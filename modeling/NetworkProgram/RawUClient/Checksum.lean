import NetworkProgram.RawUClient.Model

set_option autoImplicit false

/-!
# RawUClient: what `checksum` computes

The accumulator never wraps, so it keeps the one's complement sum of the words; and with
the result stored in a field that was zero, the words sum up to 0xFFFF.
-/

namespace NetworkProgram.RawUClient

open NetworkProgram.Foundation
open NetworkProgram.Libc

/-- One word more, with the carries added back in when the top bit is set. -/
theorem addWords_step {sum w : Nat} (hsum : sum < 0x80000000) (hw : w < 65536) :
    (sum + w) % intRange = sum + w ∧
      (if 0x80000000 ≤ sum + w then fold (sum + w) else sum + w) < 0x80000000 := by
  refine ⟨Nat.mod_eq_of_lt (by unfold intRange; omega), ?_⟩
  split
  · unfold fold
    omega
  · omega

/-- The accumulator is the sum of the words, up to carries that are added back in early. -/
theorem carry_addWords (e : ByteOrder) (data : Bytes) {sum : Nat} (h : sum < 0x80000000) :
    carry (addWords e data sum) = carry (sum + wordSum e data) := by
  induction data using wordSum.induct generalizing sum with
  | case1 b0 b1 rest ih =>
      obtain ⟨hmod, hlt⟩ := addWords_step h (load_lt e b0 b1)
      rw [addWords, hmod, wordSum, ih hlt, ← Nat.add_assoc]
      split
      · exact carry_fold_add _ _
      · rfl
  | case2 b =>
      obtain ⟨hmod, -⟩ := addWords_step h (load_lt e b 0)
      rw [addWords, hmod, wordSum]
  | case3 => rfl

/-- The complement of the one's complement sum, but 0xFFFF instead of 0. -/
theorem checksum_eq (e : ByteOrder) {data : Bytes} {len : Nat} (h : len < intRange) :
    checksum e data len =
      if onesSum e (data.take len) = 65535 then 65535 else 65535 - onesSum e (data.take len) := by
  have hsum := carry_addWords e (data.take len) (show 0 < 0x80000000 by decide)
  rw [Nat.zero_add] at hsum
  have hle := carry_le (wordSum e (data.take len))
  rw [checksum, Nat.mod_eq_of_lt h, hsum, onesSum]
  split
  · assumption
  · omega

theorem checksum_le (e : ByteOrder) {data : Bytes} {len : Nat} (h : len < intRange) :
    checksum e data len < 65536 := by
  rw [checksum_eq e h]
  split <;> omega

theorem checksum_ne_zero (e : ByteOrder) {data : Bytes} {len : Nat} (h : len < intRange) :
    checksum e data len ≠ 0 := by
  have hle : onesSum e (data.take len) ≤ 65535 := carry_le _
  rw [checksum_eq e h]
  split <;> omega

/-- With its checksum in the place of a zero field, a text sums up to 0xFFFF, in whatever
byte order it is read. -/
theorem onesSum_checksum (e : ByteOrder) {before after data : Bytes} {len : Nat}
    (heven : before.length % 2 = 0) (hlen : len < intRange)
    (hdata : data.take len = before ++ e.store 0 ++ after) :
    onesSum .big (before ++ e.store (checksum e data len) ++ after) = 65535 := by
  have hsum : ∀ w, w < 65536 → wordSum e (before ++ e.store w ++ after) =
      wordSum e before + (w + wordSum e after) := by
    intro w hw
    rw [List.append_assoc, wordSum_append e heven, load_store e hw]
  refine (onesSum_max_iff e _).mp ?_
  have hc : checksum e data len = _ := checksum_eq e hlen
  have hmod := carry_modEq (wordSum e (data.take len))
  have hle := carry_le (wordSum e (data.take len))
  rw [onesSum, hdata, hsum 0 (by decide)] at hc
  rw [hdata, hsum 0 (by decide)] at hmod hle
  rw [onesSum, hsum _ (checksum_le e hlen), carry_eq_max_iff]
  unfold Nat.ModEq at hmod
  split at hc <;> omega

end NetworkProgram.RawUClient
