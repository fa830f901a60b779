import NetworkProgram.Pdump.Lengths

set_option autoImplicit false

/-!
# Pdump: segments behind an IP header

The transport header of an IPv4 packet lies behind the options of the IP header, whose
length is `ip_hl`.  `analyze_packet` does not read `ip_hl`: it takes the transport header
from behind the first 20 bytes.  The offset of the data in a TCP segment it does take from
the segment.
-/

namespace NetworkProgram.Pdump

open NetworkProgram.Libc

/-! ## The ports that are looked at -/

def tcpPorts (g : Param) (buf : Bytes) (ptr : Nat) : List (Nat × Nat) :=
  if g.tcp then
    let tcphdr := copy buf ptr tcphdrSize
    [(source tcphdr, dest tcphdr)]
  else []

def udpPorts (g : Param) (buf : Bytes) (ptr : Nat) : List (Nat × Nat) :=
  if g.udp then
    let udphdr := copy buf ptr udphdrSize
    [(source udphdr, dest udphdr)]
  else []

/-- The arguments of the calls of `is_target_port` in `analyze_packet`. -/
def targetPortCalls (g : Param) (buf : Bytes) : List (Nat × Nat) :=
  let eh := copy buf 0 etherHeaderSize
  let ptr := etherHeaderSize
  if etherType eh = ethertypeArp ∨ etherType eh = ethertypeRevarp then []
  else if etherType eh = ethertypeIp then
    let ip := copy buf ptr ipSize
    if ipP ip = ipprotoTcp then tcpPorts g buf (ptr + ipSize)
    else if ipP ip = ipprotoUdp then udpPorts g buf (ptr + ipSize)
    else []
  else if etherType eh = ethertypeIpv6 then
    let ip6Hdr := copy buf ptr ip6HdrSize
    if ip6Nxt ip6Hdr = ipprotoTcp then tcpPorts g buf (ptr + ip6HdrSize)
    else if ip6Nxt ip6Hdr = ipprotoUdp then udpPorts g buf (ptr + ip6HdrSize)
    else []
  else []

section Calls

variable {g : Param} {label : String} {headers : List (Shown × Bytes)} {buf : Bytes}
  {ptr len : Nat}

@[simp] theorem separator_mem_sub {a b : Nat} {ops : List Op} :
    Op.printSeparator ∈ Op.sub a b :: ops ↔ Op.printSeparator ∈ ops := by
  rw [List.mem_cons]
  exact or_iff_right nofun

/-- The shape that the branches of TCP and UDP share: the ports are looked at behind the first
subtraction, and what is shown begins with the separator. -/
theorem separator_mem_branch {on : Bool} {p c : Nat × Nat} {a b : Nat} {rest : List Op}
    (hc : c ∈ if on then [p] else []) :
    Op.printSeparator ∈
        (if on then
          Op.sub a b :: (if isTargetPort g p.1 p.2 then caption label headers ++ rest else [])
        else []) ↔ isTargetPort g c.1 c.2 = true := by
  split at hc
  · rename_i hon
    obtain rfl := List.mem_singleton.mp hc
    rw [if_pos hon, separator_mem_sub]
    split
    · rename_i ht
      exact iff_of_true (List.mem_append_left _ List.mem_cons_self) ht
    · rename_i ht
      exact iff_of_false List.not_mem_nil ht
  · cases hc

theorem separator_mem_tcpBranch {c : Nat × Nat} (hc : c ∈ tcpPorts g buf ptr) :
    Op.printSeparator ∈ tcpBranch g label headers buf ptr len ↔ isTargetPort g c.1 c.2 = true := by
  unfold tcpPorts at hc
  unfold tcpBranch
  simp only [List.append_assoc]
  exact separator_mem_branch hc

theorem separator_mem_udpBranch {c : Nat × Nat} (hc : c ∈ udpPorts g buf ptr) :
    Op.printSeparator ∈ udpBranch g label headers buf ptr len ↔ isTargetPort g c.1 c.2 = true := by
  unfold udpPorts at hc
  unfold udpBranch
  simp only [List.append_assoc]
  exact separator_mem_branch hc

/-- Under either version of IP the protocol chooses between the two. -/
theorem separator_mem_transport {isTcp isUdp : Prop} [Decidable isTcp] [Decidable isUdp]
    {tcp udp : String} {others : List Op} {c : Nat × Nat}
    (hc : c ∈ if isTcp then tcpPorts g buf ptr else if isUdp then udpPorts g buf ptr else []) :
    Op.printSeparator ∈ (if isTcp then tcpBranch g tcp headers buf ptr len
        else if isUdp then udpBranch g udp headers buf ptr len else others) ↔
      isTargetPort g c.1 c.2 = true := by
  split at hc
  · rename_i htcp
    rw [if_pos htcp]
    exact separator_mem_tcpBranch hc
  · rename_i htcp
    rw [if_neg htcp]
    split at hc
    · rename_i hudp
      rw [if_pos hudp]
      exact separator_mem_udpBranch hc
    · cases hc

/-- A packet whose ports are looked at is shown exactly if the ports are wanted. -/
theorem separator_mem_analyzePacket (len : Nat) {c : Nat × Nat} (hc : c ∈ targetPortCalls g buf) :
    Op.printSeparator ∈ analyzePacket g buf len ↔ isTargetPort g c.1 c.2 = true := by
  unfold targetPortCalls at hc
  unfold analyzePacket
  dsimp only at hc ⊢
  rw [separator_mem_sub]
  split at hc
  · cases hc
  · rename_i harp
    rw [if_neg harp]
    split at hc
    · rename_i hip
      rw [if_pos hip, separator_mem_sub]
      exact separator_mem_transport hc
    · rename_i hip
      rw [if_neg hip]
      split at hc
      · rename_i hip6
        rw [if_pos hip6, separator_mem_sub]
        exact separator_mem_transport hc
      · cases hc

end Calls

/-! ## Frames -/

/-- `struct ip` -/
def ipHl (ip : Bytes) : Nat := byteAt ip 0 % 16
def ipV (ip : Bytes) : Nat := byteAt ip 0 / 16
def ipOff (ip : Bytes) : Nat := ntohs ip 6

/-- `len` of `struct udphdr` -/
def udpLen (udphdr : Bytes) : Nat := ntohs udphdr 4

section Frame

variable (frame : Bytes)

def ipOf : Bytes := copy frame etherHeaderSize ipSize

/-- Where the transport header is. -/
def segment : Nat := 14 + 4 * ipHl (ipOf frame)

def segmentLen : Nat := ipLen (ipOf frame) - 4 * ipHl (ipOf frame)

/-- The ports of a transport header. -/
def portsAt (ptr : Nat) : Nat × Nat := (ntohs frame ptr, ntohs frame (ptr + 2))

/-- An IPv4 packet that is no fragment, with options or without, and padding behind it. -/
structure IsIpv4 (proto : Nat) : Prop where
  type : etherType (copy frame 0 etherHeaderSize) = ethertypeIp
  version : ipV (ipOf frame) = 4
  hl : 5 ≤ ipHl (ipOf frame)
  unfragmented : ipOff (ipOf frame) % 16384 = 0
  proto : ipP (ipOf frame) = proto
  whole : 14 + ipLen (ipOf frame) ≤ frame.length

structure IsTcp : Prop extends IsIpv4 frame ipprotoTcp where
  doff : 5 ≤ doff (copy frame (segment frame) tcphdrSize)
  room : 4 * ipHl (ipOf frame) + 4 * Pdump.doff (copy frame (segment frame) tcphdrSize) ≤
    ipLen (ipOf frame)

structure IsUdp : Prop extends IsIpv4 frame ipprotoUdp where
  len : udpLen (copy frame (segment frame) udphdrSize) = segmentLen frame
  room : 4 * ipHl (ipOf frame) + 8 ≤ ipLen (ipOf frame)

end Frame

/-- The options and the data of a TCP segment of `len` bytes at `ptr`. -/
def tcpRanges (ptr len doff : Nat) : List Op :=
  (if 5 < doff then [.printTcpOptpad ((ptr : Int) + 20) (4 * doff - 20)] else []) ++
    if 4 * doff < len then [.printData ((ptr : Int) + 4 * doff) (len - 4 * doff)] else []

/-- The data of a UDP datagram of `len` bytes at `ptr`. -/
def udpRanges (ptr len : Nat) : List Op :=
  if 8 < len then [.printData ((ptr : Int) + 8) (len - 8)] else []

def Op.isRange : Op → Bool
  | .printTcpOptpad _ _ => true
  | .printData _ _ => true
  | _ => false

/-- The ranges that are printed. -/
def ranges (ops : List Op) : List Op := ops.filter Op.isRange

/-- The ports that are looked at are those of the transport header, and if the packet is shown
then with `expected` as its ranges. -/
def Dissected (g : Param) (buf frame : Bytes) (expected : List Op) : Prop :=
  (∀ c ∈ targetPortCalls g (received buf frame), c = portsAt frame (segment frame)) ∧
    (Op.printSeparator ∈ analyzePacket g (received buf frame) frame.length →
      ranges (analyzePacket g (received buf frame) frame.length) = expected)

/-! ## What is printed -/

section Ranges

@[simp] theorem ranges_nil : ranges [] = [] := rfl

@[simp] theorem ranges_append (ops ops' : List Op) :
    ranges (ops ++ ops') = ranges ops ++ ranges ops' := List.filter_append ops ops'

@[simp] theorem ranges_sub (a b : Nat) (ops : List Op) :
    ranges (.sub a b :: ops) = ranges ops := rfl

@[simp] theorem ranges_optpad (data size : Int) (ops : List Op) :
    ranges (.printTcpOptpad data size :: ops) = .printTcpOptpad data size :: ranges ops := rfl

@[simp] theorem ranges_data (data : Int) (size : Nat) (ops : List Op) :
    ranges (.printData data size :: ops) = .printData data size :: ranges ops := rfl

@[simp] theorem ranges_caption (label : String) (headers : List (Shown × Bytes)) :
    ranges (caption label headers) = [] := by
  refine List.filter_eq_nil_iff.mpr fun op hop => ?_
  rcases List.mem_cons.mp hop with rfl | hop
  · exact Bool.false_ne_true
  rcases List.mem_cons.mp hop with rfl | hop
  · exact Bool.false_ne_true
  obtain ⟨h, -, rfl⟩ := List.mem_map.mp hop
  exact Bool.false_ne_true

@[simp] theorem ranges_footer : ranges footer = [] := rfl

@[simp] theorem ranges_ite {c : Prop} [Decidable c] (ops : List Op) :
    ranges (if c then ops else []) = if c then ranges ops else [] := by
  split <;> rfl

variable {g : Param} {label : String} {headers : List (Shown × Bytes)} {buf : Bytes}
  {ptr len : Nat}

/-- `lest` is the length of the options; negative if the offset is too small. -/
theorem lest_eq {d : Nat} (h : d < 16) :
    toInt (subSize (d * 4) tcphdrSize) = 4 * (d : Int) - 20 := by
  have hall : ∀ i : Fin 16, toInt (subSize (i * 4) tcphdrSize) = 4 * ((i : Nat) : Int) - 20 := by
    decide
  exact hall ⟨d, h⟩

/-- What is left of a segment behind its header and `lest` more bytes. -/
theorem subSize_lest {d : Nat} (hlen : 20 ≤ len) (hd : 4 * d ≤ len) (hsmall : len < 65536) :
    subSize (subSize len tcphdrSize) (toSize (4 * (d : Int) - 20)) = len - 4 * d := by
  unfold subSize toSize tcphdrSize sizeRange
  omega

theorem ranges_tcpBranch (hg : g.tcp = true)
    (htarget : isTargetPort g (source (copy buf ptr tcphdrSize)) (dest (copy buf ptr tcphdrSize)) =
      true) {lest : Int} (hlest : toInt (subSize (doff (copy buf ptr tcphdrSize) * 4) tcphdrSize) =
      lest) {left : Nat} (hleft : subSize (subSize len tcphdrSize) (toSize lest) = left) :
    ranges (tcpBranch g label headers buf ptr len) =
      (if lest > 0 then [.printTcpOptpad ((ptr : Int) + 20) lest] else []) ++
        if left > 0 then [.printData ((ptr : Int) + 20 + lest) left] else [] := by
  unfold tcpBranch
  rw [if_pos hg]
  dsimp only
  rw [if_pos htarget, hlest, hleft]
  simp only [ranges_sub, ranges_append, ranges_caption, ranges_ite, ranges_optpad, ranges_data,
    ranges_nil, ranges_footer, List.nil_append, List.append_nil]
  rfl

/-- A segment that has room for its options is taken apart as it should be. -/
theorem ranges_tcpBranch_eq (hg : g.tcp = true)
    (htarget : isTargetPort g (source (copy buf ptr tcphdrSize)) (dest (copy buf ptr tcphdrSize)) =
      true) (hlen : 20 ≤ len) (hsmall : len < 65536)
    (hdoff : 4 * doff (copy buf ptr tcphdrSize) ≤ len) :
    ranges (tcpBranch g label headers buf ptr len) =
      tcpRanges ptr len (doff (copy buf ptr tcphdrSize)) := by
  rw [ranges_tcpBranch hg htarget (lest_eq (doff_lt _)) (subSize_lest hlen hdoff hsmall),
    tcpRanges]
  generalize doff (copy buf ptr tcphdrSize) = d at *
  refine congrArg₂ _ (if_congr (by omega) rfl rfl) (if_congr (by omega) ?_ rfl)
  have hdata : (ptr : Int) + 20 + (4 * (d : Int) - 20) = ptr + 4 * d := by omega
  rw [hdata]

theorem mem_tcpRanges {op : Op} {d : Nat} : op ∈ tcpRanges ptr len d ↔
    (5 < d ∧ op = .printTcpOptpad ((ptr : Int) + 20) (4 * d - 20)) ∨
      (4 * d < len ∧ op = .printData ((ptr : Int) + 4 * d) (len - 4 * d)) := by
  rw [tcpRanges, List.mem_append, List.mem_ite_nil_right, List.mem_ite_nil_right,
    List.mem_singleton, List.mem_singleton]

/-- The ranges of a TCP header that is taken from behind the first 20 bytes of the IP header are
those of no segment behind IP options. -/
theorem ranges_tcpBranch_ne (hg : g.tcp = true)
    (htarget : isTargetPort g (source (copy buf 34 tcphdrSize)) (dest (copy buf 34 tcphdrSize)) =
      true) (hlen : 24 ≤ len) (hsmall : len < 65536) {seg segLen d : Nat} (hseg : 38 ≤ seg)
    (hd : 5 ≤ d) :
    ranges (tcpBranch g label headers buf 34 len) ≠ tcpRanges seg segLen d := by
  intro heq
  rcases Nat.lt_or_ge 5 (doff (copy buf 34 tcphdrSize)) with hmore | hless
  · have hmem : Op.printTcpOptpad ((34 : Nat) + 20)
        (4 * (doff (copy buf 34 tcphdrSize) : Int) - 20) ∈ tcpRanges seg segLen d := by
      rw [← heq, ranges_tcpBranch hg htarget (lest_eq (doff_lt _)) rfl]
      refine List.mem_append_left _ ?_
      rw [if_pos (by omega)]
      exact List.mem_singleton_self _
    obtain ⟨-, hop⟩ | ⟨-, hop⟩ := mem_tcpRanges.mp hmem
    · injection hop with hdata
      omega
    · cases hop
  · have hmem : Op.printData ((34 : Nat) + 4 * (doff (copy buf 34 tcphdrSize) : Int))
        (len - 4 * doff (copy buf 34 tcphdrSize)) ∈ tcpRanges seg segLen d := by
      rw [← heq, ranges_tcpBranch_eq hg htarget (by omega) hsmall (by omega)]
      exact mem_tcpRanges.mpr (.inr ⟨by omega, rfl⟩)
    obtain ⟨-, hop⟩ | ⟨-, hop⟩ := mem_tcpRanges.mp hmem
    · cases hop
    · injection hop with hdata
      omega

theorem ranges_udpBranch (hg : g.udp = true)
    (htarget : isTargetPort g (source (copy buf ptr udphdrSize)) (dest (copy buf ptr udphdrSize)) =
      true) (hlen : 8 ≤ len) (hsmall : len < 65536) :
    ranges (udpBranch g label headers buf ptr len) = udpRanges ptr len := by
  have hleft : subSize len udphdrSize = len - 8 :=
    subSize_of_le hlen (hsmall.trans (by decide))
  unfold udpBranch
  rw [if_pos hg]
  dsimp only
  rw [if_pos htarget, hleft]
  simp only [ranges_sub, ranges_append, ranges_caption, ranges_ite, ranges_data, ranges_nil,
    ranges_footer, List.nil_append, List.append_nil]
  exact if_congr (by omega) rfl rfl

end Ranges

/-! ## Frames in the buffer -/

section Frame

variable {g : Param} {buf frame : Bytes}

theorem byteAt_copy {ptr size i : Nat} (h : i < size) :
    byteAt (copy buf ptr size) i = byteAt buf (ptr + i) := by
  rw [byteAt, byteAt, copy, List.getD_eq_getElem?_getD, List.getD_eq_getElem?_getD,
    List.getElem?_take_of_lt h, List.getElem?_drop]

theorem ntohs_copy {ptr size i : Nat} (h : i + 1 < size) :
    ntohs (copy buf ptr size) i = ntohs buf (ptr + i) := by
  rw [ntohs, ntohs, byteAt_copy (Nat.lt_of_succ_lt h), byteAt_copy h, Nat.add_assoc]

theorem copy_received {ptr size : Nat} (h : ptr + size ≤ frame.length) :
    copy (received buf frame) ptr size = copy frame ptr size := by
  rw [copy, copy, received, List.drop_append_of_le_length (by omega),
    List.take_append_of_le_length (by rw [List.length_drop]; omega)]

/-- The ports in a header at `ptr`. -/
theorem ports_copy (buf : Bytes) {ptr size : Nat} (hsize : 4 ≤ size)
    (h : ptr + size ≤ frame.length) :
    (source (copy (received buf frame) ptr size), dest (copy (received buf frame) ptr size)) =
      portsAt frame ptr := by
  rw [copy_received h, source, dest, ntohs_copy (by omega), ntohs_copy (by omega)]
  rfl

/-- The headers in front of the transport header, as they are shown. -/
def ipHeaders (frame : Bytes) : List (Shown × Bytes) :=
  [(.etherHeader, copy frame 0 etherHeaderSize), (.ip, ipOf frame)]

/-- The branches that an IPv4 packet is taken to. -/
theorem analyzePacket_ipv4 (g : Param) (buf : Bytes) {proto : Nat} (h : IsIpv4 frame proto)
    (hlen : 20 ≤ ipLen (ipOf frame)) :
    analyzePacket g (received buf frame) frame.length =
        .sub frame.length etherHeaderSize :: .sub (ipLen (ipOf frame)) ipSize ::
          (if proto = ipprotoTcp then tcpBranch g "[TCP]\n" (ipHeaders frame)
              (received buf frame) 34 (ipLen (ipOf frame) - 20)
            else if proto = ipprotoUdp then udpBranch g "[UDP]\n" (ipHeaders frame)
              (received buf frame) 34 (ipLen (ipOf frame) - 20)
            else if proto = ipprotoIcmp then icmpBranch g (ipHeaders frame)
              (received buf frame) 34 (ipLen (ipOf frame) - 20)
            else []) ∧
      targetPortCalls g (received buf frame) =
        if proto = ipprotoTcp then tcpPorts g (received buf frame) 34
        else if proto = ipprotoUdp then udpPorts g (received buf frame) 34
        else [] := by
  have hwhole := h.whole
  have heh : copy (received buf frame) 0 etherHeaderSize = copy frame 0 etherHeaderSize :=
    copy_received (show 0 + 14 ≤ frame.length by omega)
  have hip : copy (received buf frame) etherHeaderSize ipSize = ipOf frame :=
    copy_received (show 14 + 20 ≤ frame.length by omega)
  have harp : ¬ (ethertypeIp = ethertypeArp ∨ ethertypeIp = ethertypeRevarp) := by decide
  have hsmall : ipLen (ipOf frame) < 65536 := ntohs_lt _ 2
  have hleft : subSize (ipLen (ipOf frame)) ipSize = ipLen (ipOf frame) - 20 :=
    subSize_of_le hlen (hsmall.trans (by decide))
  constructor
  · unfold analyzePacket
    dsimp only
    rw [heh, hip, h.type, if_neg harp, if_pos rfl, h.proto, hleft]
    rfl
  · unfold targetPortCalls
    dsimp only
    rw [heh, hip, h.type, if_neg harp, if_pos rfl, h.proto]
    rfl

theorem isTargetPort_copy (g : Param) (buf : Bytes) {ptr size : Nat} (hsize : 4 ≤ size)
    (h : ptr + size ≤ frame.length) :
    isTargetPort g (source (copy (received buf frame) ptr size))
        (dest (copy (received buf frame) ptr size)) =
      isTargetPort g (portsAt frame ptr).1 (portsAt frame ptr).2 := by
  rw [← ports_copy buf hsize h]

theorem tcpPorts_received (h : 34 + tcphdrSize ≤ frame.length) :
    tcpPorts g (received buf frame) 34 = if g.tcp then [portsAt frame 34] else [] := by
  unfold tcpPorts
  dsimp only
  rw [ports_copy buf (by decide) h]

theorem udpPorts_received (h : 34 + udphdrSize ≤ frame.length) :
    udpPorts g (received buf frame) 34 = if g.udp then [portsAt frame 34] else [] := by
  unfold udpPorts
  dsimp only
  rw [ports_copy buf (by decide) h]

/-- The exact condition, once it is known what is printed for packets that are shown. -/
theorem dissected_iff_of_ranges {on : Bool} {expected : List Op}
    (hcalls : targetPortCalls g (received buf frame) = if on then [portsAt frame 34] else [])
    (hoff : on = false →
      Op.printSeparator ∉ analyzePacket g (received buf frame) frame.length)
    (hranges : on = true → isTargetPort g (portsAt frame 34).1 (portsAt frame 34).2 = true →
      (ranges (analyzePacket g (received buf frame) frame.length) = expected ↔
        ipHl (ipOf frame) = 5)) :
    Dissected g buf frame expected ↔ on = false ∨ ipHl (ipOf frame) = 5 ∨
      portsAt frame 34 = portsAt frame (segment frame) ∧
        isTargetPort g (portsAt frame 34).1 (portsAt frame 34).2 = false := by
  unfold Dissected
  rw [hcalls]
  cases on with
  | false => exact iff_of_true ⟨List.forall_mem_nil _, fun h => absurd h (hoff rfl)⟩ (.inl rfl)
  | true =>
      have hmem : portsAt frame 34 ∈ targetPortCalls g (received buf frame) := by
        rw [hcalls]
        exact List.mem_singleton_self _
      have hshown := separator_mem_analyzePacket frame.length hmem
      rw [if_pos rfl, List.forall_mem_singleton, hshown]
      have hranges := hranges rfl
      have hsame : ipHl (ipOf frame) = 5 → portsAt frame 34 = portsAt frame (segment frame) := by
        intro h5
        rw [segment, h5]
      cases htarget : isTargetPort g (portsAt frame 34).1 (portsAt frame 34).2 with
      | true =>
          constructor
          · rintro ⟨-, hshow⟩
            exact .inr (.inl ((hranges htarget).mp (hshow rfl)))
          · rintro (h | h5 | ⟨-, h⟩)
            · cases h
            · exact ⟨hsame h5, fun _ => (hranges htarget).mpr h5⟩
            · cases h
      | false =>
          constructor
          · rintro ⟨hports, -⟩
            exact .inr (.inr ⟨hports, rfl⟩)
          · rintro (h | h5 | ⟨hports, -⟩)
            · cases h
            · exact ⟨hsame h5, fun h => absurd h Bool.false_ne_true⟩
            · exact ⟨hports, fun h => absurd h Bool.false_ne_true⟩

theorem dissected_tcp_iff (h : IsTcp frame) :
    Dissected g buf frame (tcpRanges (segment frame) (segmentLen frame)
        (doff (copy frame (segment frame) tcphdrSize))) ↔
      g.tcp = false ∨ ipHl (ipOf frame) = 5 ∨
        portsAt frame 34 = portsAt frame (segment frame) ∧
          isTargetPort g (portsAt frame 34).1 (portsAt frame 34).2 = false := by
  have hwhole := h.whole
  have hhl := h.hl
  have hdoff := h.doff
  have hroom := h.room
  have hsmall : ipLen (ipOf frame) < 65536 := ntohs_lt _ 2
  have hin : 34 + tcphdrSize ≤ frame.length := by
    rw [tcphdrSize]
    omega
  obtain ⟨hops, hcalls⟩ := analyzePacket_ipv4 g buf h.toIsIpv4 (by omega)
  rw [if_pos rfl] at hops hcalls
  refine dissected_iff_of_ranges (hcalls.trans (tcpPorts_received hin)) (fun hoff => ?_)
    fun hon htarget => ?_
  · rw [hops]
    simp [tcpBranch, hoff]
  · rw [hops, ranges_sub, ranges_sub]
    have htarget' := (isTargetPort_copy g buf (by decide) hin).trans htarget
    constructor
    · intro heq
      by_contra hne
      refine ranges_tcpBranch_ne hon htarget' ?_ (by omega) ?_ hdoff heq
      · omega
      · rw [segment]
        omega
    · intro h5
      have hseg : segment frame = 34 := by rw [segment, h5]
      have hlen : segmentLen frame = ipLen (ipOf frame) - 20 := by rw [segmentLen, h5]
      rw [hseg] at hroom hdoff ⊢
      rw [hlen]
      have hdoff' : 4 * doff (copy (received buf frame) 34 tcphdrSize) ≤
          ipLen (ipOf frame) - 20 := by
        rw [copy_received hin]
        omega
      rw [ranges_tcpBranch_eq hon htarget' (by omega) (by omega) hdoff', copy_received hin]

theorem dissected_udp_iff (h : IsUdp frame) :
    Dissected g buf frame (udpRanges (segment frame) (segmentLen frame)) ↔
      g.udp = false ∨ ipHl (ipOf frame) = 5 ∨
        portsAt frame 34 = portsAt frame (segment frame) ∧
          isTargetPort g (portsAt frame 34).1 (portsAt frame 34).2 = false := by
  have hwhole := h.whole
  have hhl := h.hl
  have hroom := h.room
  have hsmall : ipLen (ipOf frame) < 65536 := ntohs_lt _ 2
  have hudp : ¬ ipprotoUdp = ipprotoTcp := by decide
  have hin : 34 + udphdrSize ≤ frame.length := by
    rw [udphdrSize]
    omega
  obtain ⟨hops, hcalls⟩ := analyzePacket_ipv4 g buf h.toIsIpv4 (by omega)
  rw [if_neg hudp, if_pos rfl] at hops hcalls
  refine dissected_iff_of_ranges (hcalls.trans (udpPorts_received hin)) (fun hoff => ?_)
    fun hon htarget => ?_
  · rw [hops]
    simp [udpBranch, hoff]
  · have htarget' := (isTargetPort_copy g buf (by decide) hin).trans htarget
    rw [hops, ranges_sub, ranges_sub, ranges_udpBranch hon htarget' (by omega) (by omega)]
    constructor
    · intro heq
      by_contra hne
      have hmem : Op.printData ((34 : Nat) + 8) (ipLen (ipOf frame) - 20 - 8) ∈
          udpRanges (segment frame) (segmentLen frame) := by
        rw [← heq, udpRanges, if_pos (by omega)]
        exact List.mem_singleton_self _
      rw [udpRanges, List.mem_ite_nil_right, List.mem_singleton] at hmem
      injection hmem.2 with hdata
      rw [segment] at hdata
      omega
    · intro h5
      rw [segment, segmentLen, h5]

end Frame

/-- A packet with IP options is taken apart as it should be only if it is not shown, which is
right where the bytes in the place of its ports are the same as the ports. -/
theorem dissected_iff (g : Param) (buf frame : Bytes) :
    (IsTcp frame →
      (Dissected g buf frame (tcpRanges (segment frame) (segmentLen frame)
          (doff (copy frame (segment frame) tcphdrSize))) ↔
        g.tcp = false ∨ ipHl (ipOf frame) = 5 ∨
          portsAt frame 34 = portsAt frame (segment frame) ∧
            isTargetPort g (portsAt frame 34).1 (portsAt frame 34).2 = false)) ∧
    (IsUdp frame →
      (Dissected g buf frame (udpRanges (segment frame) (segmentLen frame)) ↔
        g.udp = false ∨ ipHl (ipOf frame) = 5 ∨
          portsAt frame 34 = portsAt frame (segment frame) ∧
            isTargetPort g (portsAt frame 34).1 (portsAt frame 34).2 = false)) :=
  ⟨dissected_tcp_iff, dissected_udp_iff⟩

/-- A UDP datagram of one byte from port 7 to port 9, behind the words of IP options. -/
def datagramFrame (options : Bytes) : Bytes :=
  List.replicate 12 0 ++ [0x08, 0x00] ++
    [UInt8.ofNat (0x45 + options.length / 4), 0, 0, UInt8.ofNat (29 + options.length), 0, 0, 0, 0,
      64, 17, 0, 0, 127, 0, 0, 1, 127, 0, 0, 1] ++ options ++ [0, 7, 0, 9, 0, 9, 0, 0, 97]

theorem isUdp_datagramFrame_nil : IsUdp (datagramFrame []) where
  type := by decide
  version := by decide
  hl := by decide
  unfragmented := by decide
  proto := by decide
  whole := by decide
  len := by decide
  room := by decide

theorem dissected_iff_plain :
    Dissected .initial [] (datagramFrame []) (udpRanges (segment (datagramFrame []))
      (segmentLen (datagramFrame []))) :=
  ((dissected_iff .initial [] (datagramFrame [])).2 isUdp_datagramFrame_nil).mpr
    (.inr (.inl (by decide)))

/-- One word of options hides the ports. -/
theorem not_dissected_options : ¬ ∀ (g : Param) (buf frame : Bytes), IsUdp frame →
    Dissected g buf frame (udpRanges (segment frame) (segmentLen frame)) := by
  intro h
  have hframe : IsUdp (datagramFrame [1, 1, 1, 1]) :=
    { type := by decide, version := by decide, hl := by decide, unfragmented := by decide,
      proto := by decide, whole := by decide, len := by decide, room := by decide }
  have hdissected := (dissected_udp_iff hframe).mp (h .initial [] _ hframe)
  exact absurd hdissected (by decide)

end NetworkProgram.Pdump
