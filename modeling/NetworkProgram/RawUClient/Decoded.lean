import NetworkProgram.RawUClient.Frame

set_option autoImplicit false

/-!
# RawUClient: what `pdump` makes of the frames

`analyze_packet` looks at a buffer that begins with the frame.  Whatever stands behind it,
padding that was received with it or bytes of earlier frames, the length in the IP header
excludes it.
-/

namespace NetworkProgram.RawUClient

open NetworkProgram.Foundation
open NetworkProgram.Libc
open NetworkProgram.Pdump (copy ntohs Param analyzePacket isTargetPort caption footer)

/-- `analyze_packet` takes the first `n` bytes of the buffer for a UDP datagram with this
payload, and shows exactly the payload if the filters let it pass. -/
structure Decodes (g : Param) (data buf : Bytes) (n : Nat) : Prop where
  source : Pdump.source (udpOf buf) = sourcePort
  dest : Pdump.dest (udpOf buf) = destPort
  udpLen : ntohs (udpOf buf) 4 = 8 + data.length
  payload : copy buf 42 data.length = data
  ops : analyzePacket g buf n =
    .sub n 14 :: .sub (28 + data.length) 20 ::
      if g.udp then
        .sub (8 + data.length) 8 ::
          if isTargetPort g sourcePort destPort then
            caption "[UDP]\n"
              [(.etherHeader, etherOf buf), (.ip, ipOf buf), (.udphdr, udpOf buf)] ++
              [.printData 42 data.length] ++ footer
          else []
      else []

/-- What lies inside the frame does not depend on what stands behind it. -/
theorem copy_append {frame behind : Bytes} {ptr size : Nat} (h : ptr + size ≤ frame.length) :
    copy (frame ++ behind) ptr size = copy frame ptr size := by
  rw [copy, copy, List.drop_append_of_le_length (by omega), List.take_append_of_le_length]
  rw [List.length_drop]
  omega

section Frame

variable (e : ByteOrder) (mac : Mac) {data : Bytes} (behind : Bytes)

theorem source_frame : Pdump.source (udpOf (frame e mac data)) = sourcePort := by
  rw [udpOf_frame, udpFront, List.append_assoc, List.append_assoc]
  exact (@ntohs_store .big [] _ 0 sourcePort rfl (by decide)).trans rfl

theorem dest_frame : Pdump.dest (udpOf (frame e mac data)) = destPort := by
  rw [udpOf_frame, udpFront, List.append_assoc, List.append_assoc]
  exact (ntohs_store .big rfl (by decide)).trans rfl

theorem etherType_frame : Pdump.etherType (etherOf (frame e mac data)) = Pdump.ethertypeIp := by
  have hlen : (List.replicate 6 0xFF ++ mac.bytes).length = 12 := by simp [mac.size]
  rw [etherOf_frame, ← List.append_nil [0x08, 0x00]]
  exact (ntohs_store .big hlen (show 0x800 < 65536 by decide)).trans rfl

end Frame

/-- The branch for UDP datagrams in IP packets. -/
theorem analyzePacket_udp {g : Param} {buf : Bytes} {n size : Nat} (hsize : size ≤ dataSize)
    (hpos : 0 < size) (htype : Pdump.etherType (etherOf buf) = Pdump.ethertypeIp)
    (hp : Pdump.ipP (ipOf buf) = 17) (hlen : Pdump.ipLen (ipOf buf) = 28 + size) :
    analyzePacket g buf n =
      .sub n 14 :: .sub (28 + size) 20 ::
        if g.udp then
          .sub (8 + size) 8 ::
            if isTargetPort g (Pdump.source (udpOf buf)) (Pdump.dest (udpOf buf)) then
              caption "[UDP]\n"
                [(.etherHeader, etherOf buf), (.ip, ipOf buf), (.udphdr, udpOf buf)] ++
                [.printData 42 size] ++ footer
            else []
        else [] := by
  have hip : subSize (28 + size) Pdump.ipSize = 8 + size := by
    rw [subSize_of_le (by unfold Pdump.ipSize; omega) (by unfold dataSize sizeRange at *; omega)]
    unfold Pdump.ipSize
    omega
  have hudp : subSize (8 + size) Pdump.udphdrSize = size := by
    rw [subSize_of_le (by unfold Pdump.udphdrSize; omega)
      (by unfold dataSize sizeRange at *; omega)]
    unfold Pdump.udphdrSize
    omega
  have hbranch : Pdump.udpBranch g "[UDP]\n" [(.etherHeader, etherOf buf), (.ip, ipOf buf)] buf 34
      (8 + size) = if g.udp then
        .sub (8 + size) 8 ::
          if isTargetPort g (Pdump.source (udpOf buf)) (Pdump.dest (udpOf buf)) then
            caption "[UDP]\n"
              [(.etherHeader, etherOf buf), (.ip, ipOf buf), (.udphdr, udpOf buf)] ++
              [.printData 42 size] ++ footer
          else []
      else [] := by
    unfold Pdump.udpBranch
    dsimp only
    rw [hudp, if_pos hpos]
    rfl
  unfold analyzePacket
  dsimp only
  rw [show copy buf 0 Pdump.etherHeaderSize = etherOf buf from rfl,
    show copy buf Pdump.etherHeaderSize Pdump.ipSize = ipOf buf from rfl, htype, hlen, hp, hip,
    if_neg (by decide), if_pos rfl, if_neg (by decide),
    if_pos (show 17 = Pdump.ipprotoUdp from rfl)]
  exact congrArg (fun ops => Pdump.Op.sub n 14 :: .sub (28 + size) 20 :: ops) hbranch

theorem decodes_frame (e : ByteOrder) (mac : Mac) {data : Bytes} (hpos : 0 < data.length)
    (h : data.length ≤ dataSize) (g : Param) (behind : Bytes) (n : Nat) :
    Decodes g data (frame e mac data ++ behind) n := by
  have hlength := length_frame e mac data
  have valid := valid_frame e mac h
  have heth : etherOf (frame e mac data ++ behind) = etherOf (frame e mac data) :=
    copy_append (by omega)
  have hip : ipOf (frame e mac data ++ behind) = ipOf (frame e mac data) := copy_append (by omega)
  have hudp : udpOf (frame e mac data ++ behind) = udpOf (frame e mac data) :=
    copy_append (by omega)
  have hsource : Pdump.source (udpOf (frame e mac data)) = sourcePort := source_frame e mac
  have hdest : Pdump.dest (udpOf (frame e mac data)) = destPort := dest_frame e mac
  refine ⟨by rw [hudp, hsource], by rw [hudp, hdest], by rw [hudp, valid.udpLen], ?_, ?_⟩
  · rw [copy_append hlength.ge, copy, ← payloadOf, valid.payload, List.take_length]
  · have hops := analyzePacket_udp (g := g) (n := n) h hpos
      (show Pdump.etherType (etherOf (frame e mac data ++ behind)) = _ by
        rw [heth, etherType_frame])
      (show Pdump.ipP (ipOf (frame e mac data ++ behind)) = _ by rw [hip, valid.protocol])
      (show Pdump.ipLen (ipOf (frame e mac data ++ behind)) = _ by rw [hip, valid.ipLen])
    rw [hops, hudp, hsource, hdest]

/-- `pdump` decodes what `raw-u-client` encodes. -/
theorem analyze_packet_decodes (e : ByteOrder) (mac : Mac) (sent : Bool) {data : Bytes}
    (hpos : 0 < data.length) (h : data.length ≤ dataSize) :
    ∃ ret frame, sendUdpRaw e data (some mac) sent = .ok { ret := ret, frame := some frame } ∧
      ∀ g behind n, Decodes g data (frame ++ behind) n :=
  ⟨_, _, sendUdpRaw_eq e h mac sent, decodes_frame e mac hpos h⟩

/-- A payload of one byte, in a frame that is padded to 60 bytes. -/
theorem analyze_packet_decodes_padded :
    ∃ ret frame, sendUdpRaw .little [0x61] (some sampleMac) true =
      .ok { ret := ret, frame := some frame } ∧
        Decodes .initial [0x61] (frame ++ List.replicate 17 0) 60 := by
  obtain ⟨ret, frame, hsend, decodes⟩ :=
    analyze_packet_decodes .little sampleMac true (show 0 < [(0x61 : UInt8)].length by decide)
      (show [(0x61 : UInt8)].length ≤ dataSize by decide)
  exact ⟨ret, frame, hsend, decodes .initial _ 60⟩

end NetworkProgram.RawUClient
