import Mathlib.Data.List.GetD
import NetworkProgram.Pdump.Model
import NetworkProgram.RawUClient.Checksum

set_option autoImplicit false

/-!
# RawUClient: the frame that is sent

A receiver reads the fields of a frame in network byte order, whatever the order of the
sender, and adds up the words of the headers and of the payload.
-/

namespace NetworkProgram.RawUClient

open NetworkProgram.Foundation
open NetworkProgram.Libc
open NetworkProgram.Pdump (copy ntohs byteAt)

/-- The headers of a frame, and the payload. -/
def etherOf (frame : Bytes) : Bytes := copy frame 0 14
def ipOf (frame : Bytes) : Bytes := copy frame 14 20
def udpOf (frame : Bytes) : Bytes := copy frame 34 8
def payloadOf (frame : Bytes) : Bytes := frame.drop 42

/-- The pseudo header that a receiver makes of the addresses in the IP header and the
length in the UDP header. -/
def pseudoOf (ip udp : Bytes) : Bytes := copy ip 12 8 ++ [0, 17] ++ copy udp 4 2

/-- Followed by a zero if that is needed for an even length. -/
def evenly (data : Bytes) : Bytes := if data.length % 2 = 1 then data ++ [0] else data

/-- A receiver accepts the frame as one with this payload. -/
structure ValidFrame (data frame : Bytes) : Prop where
  length : frame.length = 42 + data.length
  ipSum : onesSum .big (ipOf frame) = 0xFFFF
  udpSum : onesSum .big
    (pseudoOf (ipOf frame) (udpOf frame) ++ udpOf frame ++ evenly (payloadOf frame)) = 0xFFFF
  check : ntohs (udpOf frame) 6 ≠ 0
  protocol : Pdump.ipP (ipOf frame) = 17
  ipLen : Pdump.ipLen (ipOf frame) = 28 + data.length
  udpLen : ntohs (udpOf frame) 4 = 8 + data.length
  payload : payloadOf frame = data

/-! ## Fields in memory -/

/-- What `htons` is stored as does not depend on the machine. -/
theorem store_htons (e : ByteOrder) (w : Nat) :
    e.store (htons e w) = ByteOrder.big.store (w % 65536) := by
  cases e with
  | big => rfl
  | little =>
      have hlow : (w % 65536 % 256 * 256 + w % 65536 / 256) % 256 = w % 65536 / 256 := by omega
      have hhigh : (w % 65536 % 256 * 256 + w % 65536 / 256) / 256 = w % 65536 % 256 := by omega
      simp only [htons, ByteOrder.store, hlow, hhigh]

theorem store_zero (e : ByteOrder) : e.store 0 = [0, 0] := by cases e <;> rfl

/-- The part of a text behind `n` bytes. -/
theorem copy_mid {before mid after : Bytes} {n m : Nat} (hn : before.length = n)
    (hm : mid.length = m) : copy (before ++ (mid ++ after)) n m = mid := by
  subst hn hm
  rw [copy, List.drop_left, List.take_left]

/-- A field is read in network byte order. -/
theorem ntohs_store (e : ByteOrder) {before after : Bytes} {n w : Nat} (hn : before.length = n)
    (hw : w < 65536) : ntohs (before ++ (e.store w ++ after)) n = htons e w := by
  subst hn
  have hhigh : (UInt8.ofNat (w / 256)).toNat = w / 256 :=
    UInt8.toNat_ofNat_of_lt' (by unfold UInt8.size; omega)
  have hlow : (UInt8.ofNat (w % 256)).toNat = w % 256 :=
    UInt8.toNat_ofNat_of_lt' (by unfold UInt8.size; omega)
  rw [ntohs, byteAt, byteAt, List.getD_append_right _ _ _ _ (Nat.le_refl _),
    List.getD_append_right _ _ _ _ (Nat.le_add_right _ 1), Nat.sub_self, Nat.add_sub_cancel_left]
  cases e <;>
    simp only [ByteOrder.store, List.cons_append, List.nil_append, List.getD_cons_zero,
      List.getD_cons_succ, hhigh, hlow, htons] <;> omega

theorem htons_ne_zero (e : ByteOrder) {w : Nat} (hw : w < 65536) (h : w ≠ 0) : htons e w ≠ 0 := by
  cases e <;> simp only [htons] <;> omega

theorem onesSum_evenly (e : ByteOrder) {before : Bytes} (h : before.length % 2 = 0)
    (data : Bytes) : onesSum e (before ++ evenly data) = onesSum e (before ++ data) := by
  unfold evenly
  split
  · rename_i hodd
    rw [onesSum, onesSum, wordSum_append e h, wordSum_append e h, wordSum_pad e hodd]
  · rfl

/-! ## The parts of the frame -/

/-- `udp.ip`, up to its checksum. -/
def ipFront (size : Nat) : Bytes :=
  [0x45, 0] ++ ByteOrder.big.store (28 + size) ++ [0, 0, 0, 0, 64, 17]

theorem ip_bytes (e : ByteOrder) {size : Nat} (h : size ≤ dataSize) (sum : Nat) :
    Ip.bytes e { ipHeader e size with sum := sum } =
      ipFront size ++ e.store sum ++ (sourceAddr ++ destAddr) := by
  have hlen : (ipSize + udphdrSize + size) % 65536 = 28 + size :=
    Nat.mod_eq_of_lt (by unfold ipSize udphdrSize dataSize at *; omega)
  simp only [Ip.bytes, ipHeader, store_htons, store_zero, hlen, ipFront]
  simp [ByteOrder.store]

/-- `gudp.udp`, up to its checksum. -/
def udpFront (size : Nat) : Bytes :=
  ByteOrder.big.store sourcePort ++ ByteOrder.big.store destPort ++ ByteOrder.big.store (8 + size)

theorem udp_bytes (e : ByteOrder) {data : Bytes} (h : data.length ≤ dataSize) (check : Nat) :
    Udphdr.bytes e { (pseudoUdp e data).udp with check := check } =
      udpFront data.length ++ e.store check := by
  have hlen : (udphdrSize + data.length) % 65536 = 8 + data.length :=
    Nat.mod_eq_of_lt (by unfold udphdrSize dataSize at *; omega)
  simp only [Udphdr.bytes, pseudoUdp, store_htons, hlen, udpFront]
  rfl

/-- The pseudo header. -/
def pseudoFront (size : Nat) : Bytes :=
  sourceAddr ++ destAddr ++ [0, 17] ++ ByteOrder.big.store (8 + size)

theorem pseudo_bytes (e : ByteOrder) {data : Bytes} (h : data.length ≤ dataSize) :
    (pseudoUdp e data).ip.bytes e = pseudoFront data.length := by
  have hlen : (udphdrSize + data.length) % 65536 = 8 + data.length :=
    Nat.mod_eq_of_lt (by unfold udphdrSize dataSize at *; omega)
  simp only [PseudoHeader.bytes, pseudoUdp, store_htons, hlen, pseudoFront]

@[simp] theorem length_ipFront (size : Nat) : (ipFront size).length = 10 := rfl

@[simp] theorem length_udpFront (size : Nat) : (udpFront size).length = 6 := rfl

@[simp] theorem length_pseudoFront (size : Nat) : (pseudoFront size).length = 12 := rfl

/-- The payload in `gudp.data`. -/
theorem take_data (e : ByteOrder) (data : Bytes) :
    (pseudoUdp e data).data.take data.length = data := by
  simp [pseudoUdp, memcpy]

/-- `udp.ip.ip_sum` -/
def ipCheck (e : ByteOrder) (size : Nat) : Nat :=
  checksum e ((ipHeader e size).bytes e) ipSize

/-- `gudp.udp.check` -/
def udpCheck (e : ByteOrder) (data : Bytes) : Nat :=
  checksum e ((pseudoUdp e data).bytes e) (pseudoHeaderSize + udphdrSize + data.length)

theorem length_summed {data : Bytes} (h : data.length ≤ dataSize) :
    pseudoHeaderSize + udphdrSize + data.length < intRange := by
  unfold dataSize pseudoHeaderSize udphdrSize intRange at *
  omega

/-- The frame, part by part. -/
def frame (e : ByteOrder) (mac : Mac) (data : Bytes) : Bytes :=
  (List.replicate 6 0xFF ++ mac.bytes ++ [0x08, 0x00]) ++
    ((ipFront data.length ++ e.store (ipCheck e data.length) ++ (sourceAddr ++ destAddr)) ++
      ((udpFront data.length ++ e.store (udpCheck e data)) ++ data))

theorem sendUdpRaw_eq (e : ByteOrder) {data : Bytes} (h : data.length ≤ dataSize) (mac : Mac)
    (sent : Bool) :
    sendUdpRaw e data (some mac) sent = .ok
      { ret := if sent then data.length else -1, frame := some (frame e mac data) } := by
  have heth : (etherHeader e mac).bytes e = List.replicate 6 0xFF ++ mac.bytes ++ [0x08, 0x00] := by
    rw [EtherHeader.bytes, etherHeader, store_htons]
    rfl
  rw [sendUdpRaw, if_neg (Nat.not_lt.mpr h)]
  dsimp only
  rw [heth, ip_bytes e h, udp_bytes e h, take_data, List.append_assoc, List.append_assoc]
  rfl

section Parts

variable (e : ByteOrder) (mac : Mac) (data : Bytes)

theorem etherOf_frame :
    etherOf (frame e mac data) = List.replicate 6 0xFF ++ mac.bytes ++ [0x08, 0x00] :=
  List.take_left' (by simp [mac.size])

theorem ipOf_frame :
    ipOf (frame e mac data) =
      ipFront data.length ++ e.store (ipCheck e data.length) ++ (sourceAddr ++ destAddr) :=
  copy_mid (by simp [mac.size]) (by simp [sourceAddr, destAddr])

theorem udpOf_frame :
    udpOf (frame e mac data) = udpFront data.length ++ e.store (udpCheck e data) := by
  rw [udpOf, frame, ← List.append_assoc]
  exact copy_mid (by simp [mac.size, sourceAddr, destAddr]) (by simp)

theorem payloadOf_frame : payloadOf (frame e mac data) = data := by
  rw [payloadOf, frame, ← List.append_assoc, ← List.append_assoc]
  exact List.drop_left' (by simp [mac.size, sourceAddr, destAddr])

theorem length_frame : (frame e mac data).length = 42 + data.length := by
  simp [frame, mac.size, sourceAddr, destAddr]
  omega

/-- The receiver's pseudo header is the sender's. -/
theorem pseudoOf_frame :
    pseudoOf (ipOf (frame e mac data)) (udpOf (frame e mac data)) = pseudoFront data.length := by
  have haddr : copy (ipOf (frame e mac data)) 12 8 = sourceAddr ++ destAddr := by
    rw [ipOf_frame, ← List.append_nil (sourceAddr ++ destAddr)]
    exact copy_mid (by simp) rfl
  have hlen : copy (udpOf (frame e mac data)) 4 2 = ByteOrder.big.store (8 + data.length) := by
    rw [udpOf_frame, udpFront, List.append_assoc]
    exact copy_mid rfl rfl
  rw [pseudoOf, haddr, hlen]
  rfl

end Parts

/-! ## What the receiver finds -/

section Valid

variable (e : ByteOrder) (mac : Mac) {data : Bytes}

theorem ipSum_frame (h : data.length ≤ dataSize) :
    onesSum .big (ipOf (frame e mac data)) = 0xFFFF := by
  have hbytes : (ipHeader e data.length).bytes e =
      ipFront data.length ++ e.store 0 ++ (sourceAddr ++ destAddr) := ip_bytes e h 0
  rw [ipOf_frame]
  refine onesSum_checksum e (by simp) (by decide) ?_
  rw [hbytes]
  exact List.take_of_length_le (by simp [sourceAddr, destAddr, ipSize])

theorem udpSum_frame (h : data.length ≤ dataSize) :
    onesSum .big (pseudoFront data.length ++ (udpFront data.length ++ e.store (udpCheck e data)) ++
      data) = 0xFFFF := by
  have hudp : (pseudoUdp e data).udp.bytes e = udpFront data.length ++ e.store 0 :=
    udp_bytes e h 0
  have hpayload := take_data e data
  rw [← List.append_assoc (pseudoFront data.length)]
  refine onesSum_checksum e (by simp) (length_summed h) ?_
  rw [PseudoUdp.bytes, pseudo_bytes e h, hudp, List.take_append]
  congr 1
  · rw [List.take_of_length_le (by simp [pseudoHeaderSize, udphdrSize])]
    simp
  · simpa [pseudoHeaderSize, udphdrSize] using hpayload

theorem valid_frame (h : data.length ≤ dataSize) : ValidFrame data (frame e mac data) where
  length := length_frame e mac data
  ipSum := ipSum_frame e mac h
  udpSum := by
    rw [pseudoOf_frame, udpOf_frame, payloadOf_frame, onesSum_evenly .big (by simp)]
    exact udpSum_frame e h
  check := by
    have hlt : udpCheck e data < 65536 := checksum_le e (length_summed h)
    have hne : udpCheck e data ≠ 0 := checksum_ne_zero e (length_summed h)
    rw [udpOf_frame, ← List.append_nil (e.store _), ntohs_store e (length_udpFront _) hlt]
    exact htons_ne_zero e hlt hne
  protocol := by
    rw [ipOf_frame]
    rfl
  ipLen := by
    have hlt : 28 + data.length < 65536 := by unfold dataSize at h; omega
    rw [ipOf_frame, ipFront, Pdump.ipLen]
    simp only [List.append_assoc]
    exact (ntohs_store .big rfl hlt).trans (Nat.mod_eq_of_lt hlt)
  udpLen := by
    have hlt : 8 + data.length < 65536 := by unfold dataSize at h; omega
    rw [udpOf_frame, udpFront, List.append_assoc]
    exact (ntohs_store .big rfl hlt).trans (Nat.mod_eq_of_lt hlt)
  payload := payloadOf_frame e mac data

end Valid

/-- Every payload that `gudp` has room for is sent in a frame that a receiver accepts. -/
theorem send_udp_raw_valid (e : ByteOrder) (mac : Mac) (sent : Bool) {data : Bytes}
    (h : data.length ≤ dataSize) :
    ∃ ret frame, sendUdpRaw e data (some mac) sent = .ok { ret := ret, frame := some frame } ∧
      ValidFrame data frame :=
  ⟨_, _, sendUdpRaw_eq e h mac sent, valid_frame e mac h⟩

/-- An address that is locally administered. -/
def sampleMac : Mac := ⟨[0x02, 0, 0, 0, 0, 1], rfl⟩

/-- A payload of odd length. -/
theorem send_udp_raw_valid_one :
    ∃ ret frame, sendUdpRaw .little [0x61] (some sampleMac) true =
      .ok { ret := ret, frame := some frame } ∧ ValidFrame [0x61] frame :=
  send_udp_raw_valid .little sampleMac true (by decide)

end NetworkProgram.RawUClient
