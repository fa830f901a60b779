import NetworkProgram.Pdump.Segments
import NetworkProgram.RawUClient.Copies

set_option autoImplicit false

/-!
# RawUClient: `check_packet`

A frame that `recv` put at the start of the buffer of `send_recv_loop` is taken apart; behind
it stands what the buffer held before.  `check_packet` subtracts the sizes of three headers
from the length of the frame without a look at it, and takes all that is left for the payload.
-/

namespace NetworkProgram.RawUClient

open NetworkProgram.Libc
open NetworkProgram.Pdump (copy received copy_received etherType ethertypeIp ipP ipLen ipHl
  ipprotoUdp source dest ntohs ntohs_copy IsUdp segmentLen portsAt)

/-- `sizeof(buf)` in `check_packet`. -/
def replyBufSize : Nat := 512

inductive Op
  /-- `memcpy(&header, data + ptr, size)` -/
  | read (ptr size : Nat)
  /-- `a - b` at type `size_t`. -/
  | sub (a b : Nat)
  /-- `printf("recvfrom:%s:%d:len = %d\n", ..)` -/
  | recvfrom (src : Bytes) (port : Nat) (len : Int)
  /-- `memcpy(buf, data + ptr, len)` -/
  | copy (ptr len : Nat)
  /-- `buf[i] = '\0'` -/
  | terminate (i : Nat)
  /-- `printf("> %s", buf)` -/
  | print (text : Bytes)
  deriving DecidableEq, Repr

/-- `check_packet(data, len)`: what it does, in order. -/
def checkPacket (data : Bytes) (len : Nat) : List Op :=
  let ptr := 0
  let eh := copy data ptr etherHeaderSize
  .read ptr etherHeaderSize :: .sub len etherHeaderSize ::
    let ptr := ptr + etherHeaderSize
    let len := subSize len etherHeaderSize
    if etherType eh = ethertypeIp then
      let ip := copy data ptr ipSize
      .read ptr ipSize :: .sub len ipSize ::
        let ptr := ptr + ipSize
        let len := subSize len ipSize
        if ipP ip = ipprotoUdp then
          let udphdr := copy data ptr udphdrSize
          .read ptr udphdrSize :: .sub len udphdrSize ::
            let ptr := ptr + udphdrSize
            let len := subSize len udphdrSize
            if dest udphdr = sourcePort then
              [.recvfrom (copy ip 12 4) (source udphdr) (toInt len), .copy ptr len,
                .terminate len, .print (cstr (copy data ptr len))]
            else []
        else []
    else []

/-! ## What it should do -/

/-- The first `n` bytes of the buffer were received.  Nothing else is read, no difference wraps
around, and what is stored fits. -/
def Op.Inside (n : Nat) : Op → Prop
  | .read ptr size => ptr + size ≤ n
  | .sub a b => b ≤ a
  | .copy ptr len => ptr + len ≤ n ∧ len ≤ replyBufSize
  | .terminate i => i < replyBufSize
  | .recvfrom _ _ _ => True
  | .print _ => True

/-- The lengths that are reported. -/
def reported (ops : List Op) : List Int :=
  ops.filterMap fun
    | .recvfrom _ _ len => some len
    | _ => none

/-- The bytes that are copied to `buf`. -/
def copied (data : Bytes) (ops : List Op) : List Bytes :=
  ops.filterMap fun
    | .copy ptr len => some (copy data ptr len)
    | _ => none

/-- The payload of a UDP datagram. -/
def datagram (frame : Bytes) : Bytes := copy frame (Pdump.segment frame + 8) (segmentLen frame - 8)

/-- A datagram for the client. -/
def IsReply (frame : Bytes) : Prop :=
  IsUdp frame ∧ (portsAt frame (Pdump.segment frame)).2 = sourcePort

/-- `check_packet` takes the frame as it should, with `stale` in the buffer before. -/
structure Checks (stale frame : Bytes) : Prop where
  inside : ∀ op ∈ checkPacket (received stale frame) frame.length, op.Inside frame.length
  payload : IsReply frame →
    reported (checkPacket (received stale frame) frame.length) = [((datagram frame).length : Int)] ∧
      copied (received stale frame) (checkPacket (received stale frame) frame.length) =
        [datagram frame]

/-- A frame that has room for the headers it announces. -/
structure Long (frame : Bytes) : Prop where
  ether : 14 ≤ frame.length
  ip : etherType (etherOf frame) = ethertypeIp → 34 ≤ frame.length
  udp : etherType (etherOf frame) = ethertypeIp → ipP (ipOf frame) = ipprotoUdp →
    42 ≤ frame.length

/-- Neither options in front of the datagram nor padding behind it. -/
def Bare (frame : Bytes) : Prop :=
  ipHl (ipOf frame) = 5 ∧ frame.length = 14 + ipLen (ipOf frame)

section Frame

variable {stale frame : Bytes}

/-! ## A frame that is long enough -/

/-- What `check_packet` does with the frame; no difference wraps around. -/
theorem checkPacket_eq (stale : Bytes) (long : Long frame) (fits : frame.length ≤ lineBufSize) :
    checkPacket (received stale frame) frame.length =
      .read 0 14 :: .sub frame.length 14 ::
        if etherType (etherOf frame) = ethertypeIp then
          .read 14 20 :: .sub (frame.length - 14) 20 ::
            if ipP (ipOf frame) = ipprotoUdp then
              .read 34 8 :: .sub (frame.length - 34) 8 ::
                if dest (udpOf frame) = sourcePort then
                  [.recvfrom (copy (ipOf frame) 12 4) (source (udpOf frame))
                      ((frame.length - 42 : Nat) : Int),
                    .copy 42 (frame.length - 42), .terminate (frame.length - 42),
                    .print (cstr (copy frame 42 (frame.length - 42)))]
                else []
            else []
        else [] := by
  have hsize : lineBufSize = 512 := rfl
  have hrange : lineBufSize < sizeRange := by decide
  have heh : copy (received stale frame) 0 etherHeaderSize = etherOf frame :=
    copy_received long.ether
  have h14 : subSize frame.length etherHeaderSize = frame.length - 14 :=
    subSize_of_le long.ether (by omega)
  unfold checkPacket
  dsimp only
  rw [heh, h14]
  by_cases htype : etherType (etherOf frame) = ethertypeIp
  · have hlong := long.ip htype
    have hip : copy (received stale frame) (0 + etherHeaderSize) ipSize = ipOf frame :=
      copy_received hlong
    have h34 : subSize (frame.length - 14) ipSize = frame.length - 34 :=
      subSize_of_le (show 20 ≤ frame.length - 14 by omega) (by omega)
    rw [if_pos htype, if_pos htype, hip, h34]
    by_cases hproto : ipP (ipOf frame) = ipprotoUdp
    · have hroom := long.udp htype hproto
      have hudp : copy (received stale frame) (0 + etherHeaderSize + ipSize) udphdrSize =
          udpOf frame := copy_received hroom
      have h42 : subSize (frame.length - 34) udphdrSize = frame.length - 42 :=
        subSize_of_le (show 8 ≤ frame.length - 34 by omega) (by omega)
      have hint : toInt (frame.length - 42) = ((frame.length - 42 : Nat) : Int) :=
        toInt_of_lt (by rw [intRange]; omega)
      have hptr : 0 + etherHeaderSize + ipSize + udphdrSize = 42 := rfl
      have hpayload : copy (received stale frame) 42 (frame.length - 42) =
          copy frame 42 (frame.length - 42) := copy_received (Nat.add_sub_of_le hroom).le
      rw [if_pos hproto, if_pos hproto, hudp, h42, hint, hptr, hpayload]
      rfl
    · rw [if_neg hproto, if_neg hproto]
      rfl
  · rw [if_neg htype, if_neg htype]
    rfl

theorem forall_mem_ite {α : Type} {p : Prop} [Decidable p] {P : α → Prop} {l : List α} :
    (∀ a ∈ (if p then l else []), P a) ↔ (p → ∀ a ∈ l, P a) := by
  by_cases hp : p <;> simp [hp]

theorem Long.inside (long : Long frame) (fits : frame.length ≤ lineBufSize) :
    ∀ op ∈ checkPacket (received stale frame) frame.length, op.Inside frame.length := by
  have hsize : lineBufSize = 512 := rfl
  have hreply : replyBufSize = 512 := rfl
  have hether := long.ether
  rw [checkPacket_eq stale long fits]
  simp only [List.forall_mem_cons, forall_mem_ite, Op.Inside]
  refine ⟨hether, hether, fun htype => ?_⟩
  have hip := long.ip htype
  refine ⟨hip, by omega, fun hproto => ?_⟩
  have hudp := long.udp htype hproto
  exact ⟨hudp, by omega, fun _ => ⟨trivial, ⟨by omega, by omega⟩, by omega, trivial, nofun⟩⟩

/-- Every header is read as soon as the one before announces it. -/
theorem long_of_inside
    (h : ∀ op ∈ checkPacket (received stale frame) frame.length, op.Inside frame.length) :
    Long frame := by
  unfold checkPacket at h
  simp only [List.forall_mem_cons, forall_mem_ite] at h
  obtain ⟨hether, -, hip⟩ := h
  have heh : copy (received stale frame) 0 etherHeaderSize = etherOf frame := copy_received hether
  rw [heh] at hip
  refine ⟨hether, fun htype => (hip htype).1, fun htype hproto => ?_⟩
  obtain ⟨hroom, -, hudp⟩ := hip htype
  have hcopy : copy (received stale frame) (0 + etherHeaderSize) ipSize = ipOf frame :=
    copy_received hroom
  rw [hcopy] at hudp
  exact (hudp hproto).1

/-! ## A datagram for the client -/

theorem IsReply.long (h : IsReply frame) : Long frame := by
  have hwhole := h.1.whole
  have hhl := h.1.hl
  have hroom := h.1.room
  exact ⟨by omega, fun _ => by omega, fun _ _ => by omega⟩

/-- What is reported and copied of it. -/
theorem taken_eq (stale : Bytes) (h : IsReply frame) (fits : frame.length ≤ lineBufSize) :
    reported (checkPacket (received stale frame) frame.length) =
        (if dest (udpOf frame) = sourcePort then [((frame.length - 42 : Nat) : Int)] else []) ∧
      copied (received stale frame) (checkPacket (received stale frame) frame.length) =
        if dest (udpOf frame) = sourcePort then [copy frame 42 (frame.length - 42)] else [] := by
  have htype : etherType (etherOf frame) = ethertypeIp := h.1.type
  have hproto : ipP (ipOf frame) = ipprotoUdp := h.1.proto
  have hroom := h.long.udp htype hproto
  have hpayload : copy (received stale frame) 42 (frame.length - 42) =
      copy frame 42 (frame.length - 42) := copy_received (by omega)
  rw [checkPacket_eq stale h.long fits, if_pos htype, if_pos hproto]
  by_cases hdest : dest (udpOf frame) = sourcePort
  · rw [if_pos hdest, if_pos hdest, if_pos hdest, ← hpayload]
    exact ⟨rfl, rfl⟩
  · rw [if_neg hdest, if_neg hdest, if_neg hdest]
    exact ⟨rfl, rfl⟩

theorem length_datagram (h : IsReply frame) :
    (datagram frame).length = ipLen (ipOf frame) - 4 * ipHl (ipOf frame) - 8 := by
  have hwhole := h.1.whole
  have hroom := h.1.room
  have hip : Pdump.ipOf frame = ipOf frame := rfl
  rw [hip] at hwhole hroom
  rw [datagram, copy, List.length_take, List.length_drop, Pdump.segment, segmentLen, hip]
  omega

/-- The payload of a bare frame is all behind its headers. -/
theorem taken_iff_bare (stale : Bytes) (h : IsReply frame) (fits : frame.length ≤ lineBufSize) :
    (reported (checkPacket (received stale frame) frame.length) =
          [((datagram frame).length : Int)] ∧
        copied (received stale frame) (checkPacket (received stale frame) frame.length) =
          [datagram frame]) ↔ Bare frame := by
  have hwhole : 14 + ipLen (ipOf frame) ≤ frame.length := h.1.whole
  have hhl : 5 ≤ ipHl (ipOf frame) := h.1.hl
  have hroom : 4 * ipHl (ipOf frame) + 8 ≤ ipLen (ipOf frame) := h.1.room
  have hlength := length_datagram h
  obtain ⟨hreported, hcopied⟩ := taken_eq stale h fits
  rw [hreported, hcopied]
  constructor
  · rintro ⟨hlen, -⟩
    split at hlen
    · injection hlen with hlen
      exact ⟨by omega, by omega⟩
    · cases hlen
  · rintro ⟨h5, hall⟩
    have hsegment : Pdump.segment frame = 34 := by
      rw [Pdump.segment]
      change 14 + 4 * ipHl (ipOf frame) = 34
      omega
    have hleft : segmentLen frame - 8 = frame.length - 42 := by
      rw [segmentLen]
      change ipLen (ipOf frame) - 4 * ipHl (ipOf frame) - 8 = frame.length - 42
      omega
    have hdest : dest (udpOf frame) = sourcePort := by
      have hport := h.2
      rw [hsegment] at hport
      exact (ntohs_copy (by decide)).trans hport
    have hdatagram : datagram frame = copy frame 42 (frame.length - 42) := by
      rw [datagram, hsegment, hleft]
    rw [if_pos hdest, if_pos hdest, hlength, hdatagram]
    refine ⟨?_, rfl⟩
    congr 1
    omega

/-- The frame is taken as it should be if it is long enough for the headers it announces and,
if it is a datagram for the client, has neither IP options nor padding. -/
theorem checks_iff (stale : Bytes) (fits : frame.length ≤ 512) :
    Checks stale frame ↔ Long frame ∧ (IsReply frame → Bare frame) := by
  constructor
  · rintro ⟨inside, payload⟩
    exact ⟨long_of_inside inside, fun reply => (taken_iff_bare stale reply fits).mp (payload reply)⟩
  · rintro ⟨long, bare⟩
    exact ⟨long.inside fits, fun reply => (taken_iff_bare stale reply fits).mpr (bare reply)⟩

end Frame

/-- A datagram of one byte for the client, with padding. -/
def replyFrame (padding : Bytes) : Bytes :=
  List.replicate 12 0 ++ [0x08, 0x00] ++
    [0x45, 0, 0, 29, 0, 0, 0, 0, 64, 17, 0, 0, 127, 0, 0, 1, 127, 0, 0, 1] ++
    [0x56, 0xCE, 0x56, 0xCF, 0, 9, 0, 0, 97] ++ padding

theorem checks_iff_bare : Checks [] (replyFrame []) :=
  (checks_iff [] (by decide)).mpr
    ⟨⟨by decide, fun _ => by decide, fun _ _ => by decide⟩, fun _ => ⟨by decide, by decide⟩⟩

/-- One byte of padding is taken for payload. -/
theorem not_checks_padded : ¬ ∀ stale frame : Bytes, frame.length ≤ 512 → Checks stale frame := by
  intro h
  have hudp : IsUdp (replyFrame [0]) :=
    { type := by decide, version := by decide, hl := by decide, unfragmented := by decide,
      proto := by decide, whole := by decide, len := by decide, room := by decide }
  have hbare := ((checks_iff [] (by decide)).mp (h [] (replyFrame [0]) (by decide))).2
    ⟨hudp, by decide⟩
  exact absurd hbare.2 (by decide)

end NetworkProgram.RawUClient
