import NetworkProgram.Pdump.Model

set_option autoImplicit false

/-!
# Pdump: lengths and ranges

`analyze_packet` takes its lengths from the capture and from the headers, and tests
them with `len > 0` only, which every length that wrapped around passes.  This module
says exactly which frames are analysed without a wrap-around and without a range that
leaves the captured bytes.
-/

namespace NetworkProgram.Pdump

open NetworkProgram.Libc

/-- A subtraction does not wrap around, a range lies inside the `n` captured bytes. -/
def Op.Ok (n : Nat) : Op → Prop
  | .sub a b => b ≤ a
  | .subInt a b => -2147483648 ≤ a - b ∧ a - b ≤ 2147483647
  | .printData data size => 0 ≤ data ∧ data + size ≤ n
  | .printTcpOptpad data size => 0 ≤ data ∧ data + size ≤ n
  | .printSeparator => True
  | .printf _ => True
  | .print _ _ => True

def AllOk (n : Nat) (ops : List Op) : Prop := ∀ op ∈ ops, op.Ok n

section AllOk

variable {n : Nat}

@[simp] theorem allOk_nil : AllOk n [] := fun _ h => absurd h List.not_mem_nil

@[simp] theorem allOk_cons {op : Op} {ops : List Op} :
    AllOk n (op :: ops) ↔ op.Ok n ∧ AllOk n ops :=
  List.forall_mem_cons

@[simp] theorem allOk_append {ops ops' : List Op} :
    AllOk n (ops ++ ops') ↔ AllOk n ops ∧ AllOk n ops' :=
  List.forall_mem_append

@[simp] theorem allOk_ite {c : Prop} [Decidable c] {ops : List Op} :
    AllOk n (if c then ops else []) ↔ (c → AllOk n ops) := by
  by_cases h : c <;> simp [h]

@[simp] theorem ok_sub {a b : Nat} : (Op.sub a b).Ok n ↔ b ≤ a := Iff.rfl

@[simp] theorem ok_subInt {a b : Int} :
    (Op.subInt a b).Ok n ↔ -2147483648 ≤ a - b ∧ a - b ≤ 2147483647 := Iff.rfl

@[simp] theorem ok_printData {data : Int} {size : Nat} :
    (Op.printData data size).Ok n ↔ 0 ≤ data ∧ data + size ≤ n := Iff.rfl

@[simp] theorem ok_printTcpOptpad {data size : Int} :
    (Op.printTcpOptpad data size).Ok n ↔ 0 ≤ data ∧ data + size ≤ n := Iff.rfl

@[simp] theorem ok_print {fn : Shown} {header : Bytes} : (Op.print fn header).Ok n := trivial

@[simp] theorem allOk_caption {label : String} {headers : List (Shown × Bytes)} :
    AllOk n (caption label headers) := by
  intro op hop
  rcases List.mem_cons.mp hop with rfl | hop
  · trivial
  rcases List.mem_cons.mp hop with rfl | hop
  · trivial
  obtain ⟨h, -, rfl⟩ := List.mem_map.mp hop
  trivial

@[simp] theorem allOk_footer : AllOk n footer := by
  simp [footer, Op.Ok]

end AllOk

/-! ## The headers -/

theorem byteAt_lt (header : Bytes) (i : Nat) : byteAt header i < 256 := UInt8.toNat_lt _

theorem ntohs_lt (header : Bytes) (i : Nat) : ntohs header i < 65536 := by
  have hhigh := byteAt_lt header i
  have hlow := byteAt_lt header (i + 1)
  unfold ntohs
  omega

theorem doff_lt (tcphdr : Bytes) : doff tcphdr < 16 := by
  have hbyte := byteAt_lt tcphdr 12
  unfold doff
  omega

/-! ## When a frame fits -/

section Fits

variable (g : Param) (buf : Bytes) (n ptr len : Nat)

/-- A TCP segment of `len` bytes at `ptr`. -/
def TcpFits : Prop :=
  let tcphdr := copy buf ptr tcphdrSize
  g.tcp → 20 ≤ len ∧ (isTargetPort g (source tcphdr) (dest tcphdr) →
    5 ≤ doff tcphdr ∧ 4 * doff tcphdr ≤ len ∧
      (5 < doff tcphdr → ptr + 4 * doff tcphdr ≤ n) ∧
      (4 * doff tcphdr < len → ptr + len ≤ n))

/-- A UDP datagram of `len` bytes at `ptr`. -/
def UdpFits : Prop :=
  let udphdr := copy buf ptr udphdrSize
  g.udp → 8 ≤ len ∧ (isTargetPort g (source udphdr) (dest udphdr) → 8 < len → ptr + len ≤ n)

/-- An ICMP message of `len` bytes at `ptr`. -/
def IcmpFits : Prop :=
  let icmp := copy buf ptr icmpSize
  g.icmp → 28 ≤ len ∧
    (icmpType icmp = 0 ∨ icmpType icmp = 8 → ptr + len ≤ n) ∧
    (icmpType icmp = 3 ∨ icmpType icmp = 5 ∨ icmpType icmp = 11 →
      (ipP (icmpIp icmp) = ipprotoTcp → 48 ≤ len) ∧ (ipP (icmpIp icmp) = ipprotoUdp → 36 ≤ len))

/-- A frame of `n` bytes at the start of `buf`. -/
def FrameFits : Prop :=
  let type := etherType (copy buf 0 etherHeaderSize)
  let ip := copy buf 14 ipSize
  let ip6Hdr := copy buf 14 ip6HdrSize
  14 ≤ n ∧
    (type = ethertypeIp → 20 ≤ ipLen ip ∧
      (ipP ip = ipprotoTcp → TcpFits g buf n 34 (ipLen ip - 20)) ∧
      (ipP ip = ipprotoUdp → UdpFits g buf n 34 (ipLen ip - 20)) ∧
      (ipP ip = ipprotoIcmp → IcmpFits g buf n 34 (ipLen ip - 20))) ∧
    (type = ethertypeIpv6 → 54 ≤ n ∧
      (ip6Nxt ip6Hdr = ipprotoTcp → TcpFits g buf n 54 (n - 54)) ∧
      (ip6Nxt ip6Hdr = ipprotoUdp → UdpFits g buf n 54 (n - 54)))

instance : Decidable (TcpFits g buf n ptr len) := inferInstanceAs (Decidable (_ → _ ∧ (_ → _)))

instance : Decidable (UdpFits g buf n ptr len) := inferInstanceAs (Decidable (_ → _ ∧ (_ → _)))

instance : Decidable (IcmpFits g buf n ptr len) :=
  inferInstanceAs (Decidable (_ → _ ∧ (_ → _) ∧ (_ → _)))

instance : Decidable (FrameFits g buf n) :=
  inferInstanceAs (Decidable (_ ∧ (_ → _) ∧ (_ → _)))

end Fits

/-! ## The branches -/

section Branches

variable {g : Param} {label : String} {headers : List (Shown × Bytes)} {buf : Bytes}
  {n ptr len : Nat}

theorem tcpBranch_allOk (hlen : len < 65536) :
    AllOk n (tcpBranch g label headers buf ptr len) ↔ TcpFits g buf n ptr len := by
  unfold tcpBranch TcpFits
  generalize copy buf ptr tcphdrSize = tcphdr
  dsimp only
  have hdoff := doff_lt tcphdr
  generalize doff tcphdr = words at hdoff ⊢
  rw [allOk_ite, allOk_cons, ok_sub, allOk_ite]
  refine imp_congr_right fun _ => and_congr_right fun hle => imp_congr_right fun _ => ?_
  simp only [allOk_append, allOk_caption, allOk_footer, allOk_cons, allOk_nil, allOk_ite, ok_sub,
    ok_printTcpOptpad, ok_printData, true_and, and_true]
  have htcphdr : tcphdrSize = 20 := rfl
  have hsize : sizeRange = 18446744073709551616 := rfl
  have hint : intRange = 4294967296 := rfl
  rw [subSize_of_le hle (by omega)]
  by_cases hwords : 5 ≤ words
  · have hlest : toInt (subSize (words * 4) tcphdrSize) =
        ((words * 4 - tcphdrSize : Nat) : Int) := by
      rw [subSize_of_le (by omega) (by omega), toInt_of_lt (by omega)]
    rw [hlest, toSize_natCast (by omega)]
    by_cases hfit : 4 * words ≤ len
    · rw [subSize_of_le (by omega) (by omega)]
      omega
    · omega
  · omega

theorem udpBranch_allOk (hlen : len < 65536) :
    AllOk n (udpBranch g label headers buf ptr len) ↔ UdpFits g buf n ptr len := by
  unfold udpBranch UdpFits
  generalize copy buf ptr udphdrSize = udphdr
  dsimp only
  rw [allOk_ite, allOk_cons, ok_sub, allOk_ite]
  refine imp_congr_right fun _ => and_congr_right fun hle => imp_congr_right fun _ => ?_
  simp only [allOk_append, allOk_caption, allOk_footer, allOk_cons, allOk_nil, allOk_ite,
    ok_printData, true_and, and_true]
  have hudphdr : udphdrSize = 8 := rfl
  have hsize : sizeRange = 18446744073709551616 := rfl
  rw [subSize_of_le hle (by omega)]
  omega

theorem printIcmpInner_allOk {fn : Shown} {hdrSize hptr : Nat} {size : Nat} (hsize : size < 65536)
    (hle : 28 ≤ size) :
    AllOk n (printIcmpInner fn hdrSize buf hptr size) ↔ 28 + hdrSize ≤ size := by
  have hip : ipSize = 20 := rfl
  have hrange : sizeRange = 18446744073709551616 := rfl
  have hint : intRange = 4294967296 := rfl
  have height : (size : Int) - 8 = ((size - 8 : Nat) : Int) := by omega
  unfold printIcmpInner
  dsimp only
  rw [height, toSize_natCast (by omega), subSize_of_le (by omega) (by omega),
    toInt_of_lt (by omega), toSize_natCast (by omega)]
  simp only [allOk_cons, allOk_nil, ok_sub, ok_subInt, ok_print, and_true]
  omega

theorem icmpBranch_allOk (hlen : len < 65536) :
    AllOk n (icmpBranch g headers buf ptr len) ↔ IcmpFits g buf n ptr len := by
  unfold icmpBranch IcmpFits printIcmp
  generalize copy buf ptr icmpSize = icmp
  have hicmp : icmpSize = 28 := rfl
  have hsize : sizeRange = 18446744073709551616 := rfl
  have hint : intRange = 4294967296 := rfl
  dsimp only
  simp only [allOk_ite, allOk_append, allOk_caption, allOk_footer, allOk_cons, allOk_nil, ok_sub,
    ok_print, ok_subInt, ok_printData, true_and, and_true]
  rw [toInt_of_lt (by omega)]
  refine imp_congr_right fun _ => and_congr_right fun hle => and_congr ?_ ?_
  · refine imp_congr_right fun _ => ?_
    have height : (len : Int) - 8 = ((len - 8 : Nat) : Int) := by omega
    rw [height, toSize_natCast (by omega)]
    omega
  · refine imp_congr_right fun _ => ?_
    have hproto : ipprotoTcp ≠ ipprotoUdp := by decide
    split
    · rename_i htcp
      rw [printIcmpInner_allOk hlen (by omega)]
      simp [htcp, hproto, tcphdrSize]
    · rename_i htcp
      rw [allOk_ite, printIcmpInner_allOk hlen (by omega)]
      simp [htcp, udphdrSize]

end Branches

/-- What follows an IP header that says `len` bytes are left. -/
theorem ipBranch_allOk {g : Param} {headers : List (Shown × Bytes)} {buf : Bytes}
    {n ptr len proto : Nat} (hlen : len < 65536) :
    AllOk n (if proto = ipprotoTcp then tcpBranch g "[TCP]\n" headers buf ptr len
        else if proto = ipprotoUdp then udpBranch g "[UDP]\n" headers buf ptr len
        else if proto = ipprotoIcmp then icmpBranch g headers buf ptr len
        else []) ↔
      (proto = ipprotoTcp → TcpFits g buf n ptr len) ∧
        (proto = ipprotoUdp → UdpFits g buf n ptr len) ∧
        (proto = ipprotoIcmp → IcmpFits g buf n ptr len) := by
  unfold ipprotoTcp ipprotoUdp ipprotoIcmp
  split_ifs with htcp hudp hicmp
  · simp [htcp, tcpBranch_allOk hlen]
  · simp [hudp, udpBranch_allOk hlen]
  · simp [hicmp, icmpBranch_allOk hlen]
  · simp [htcp, hudp, hicmp]

/-- What follows an IPv6 header. -/
theorem ipv6Branch_allOk {g : Param} {headers : List (Shown × Bytes)} {buf : Bytes}
    {n ptr len proto : Nat} (hlen : len < 65536) :
    AllOk n (if proto = ipprotoTcp then tcpBranch g "[TCP6]\n" headers buf ptr len
        else if proto = ipprotoUdp then udpBranch g "[UDP6]\n" headers buf ptr len
        else []) ↔
      (proto = ipprotoTcp → TcpFits g buf n ptr len) ∧
        (proto = ipprotoUdp → UdpFits g buf n ptr len) := by
  unfold ipprotoTcp ipprotoUdp
  split_ifs with htcp hudp
  · simp [htcp, tcpBranch_allOk hlen]
  · simp [hudp, udpBranch_allOk hlen]
  · simp [htcp, hudp]

theorem analyzePacket_allOk {n : Nat} (g : Param) (buf : Bytes) (hn : n ≤ bufSize) :
    AllOk n (analyzePacket g buf n) ↔ FrameFits g buf n := by
  have hether : etherHeaderSize = 14 := rfl
  have hip : ipSize = 20 := rfl
  have hip6 : ip6HdrSize = 40 := rfl
  have hsize : sizeRange = 18446744073709551616 := rfl
  have hbuf : bufSize = 2048 := rfl
  unfold analyzePacket FrameFits
  dsimp only
  rw [allOk_cons, ok_sub, hether, hip]
  refine and_congr_right fun hle => ?_
  generalize etherType (copy buf 0 14) = type
  have hdistinct : ethertypeArp ≠ ethertypeIp ∧ ethertypeArp ≠ ethertypeIpv6 ∧
      ethertypeRevarp ≠ ethertypeIp ∧ ethertypeRevarp ≠ ethertypeIpv6 ∧
      ethertypeIp ≠ ethertypeIpv6 := by decide
  obtain ⟨harpIp, harpIpv6, hrarpIp, hrarpIpv6, hipIpv6⟩ := hdistinct
  by_cases harp : type = ethertypeArp ∨ type = ethertypeRevarp
  · rw [if_pos harp]
    rcases harp with rfl | rfl
    · simp [harpIp, harpIpv6]
    · simp [hrarpIp, hrarpIpv6]
  rw [if_neg harp]
  by_cases hipv4 : type = ethertypeIp
  · subst hipv4
    have hlen : ipLen (copy buf 14 20) < 65536 := ntohs_lt _ 2
    simp only [if_true, allOk_cons, ok_sub, true_imp_iff, hipIpv6, false_imp_iff, and_true]
    refine and_congr_right fun hfull => ?_
    rw [subSize_of_le hfull (by omega)]
    exact ipBranch_allOk (by omega)
  rw [if_neg hipv4]
  by_cases hipv6 : type = ethertypeIpv6
  · subst hipv6
    have hroom : 40 ≤ n - 14 ↔ 54 ≤ n := by omega
    rw [hip6, subSize_of_le hle (by omega)]
    simp only [if_true, allOk_cons, ok_sub, true_imp_iff, hipv4, false_imp_iff, true_and, hroom]
    refine and_congr_right fun hfull => ?_
    rw [subSize_of_le (by omega) (by omega), show n - 14 - 40 = n - 54 by omega]
    exact ipv6Branch_allOk (by omega)
  · rw [if_neg hipv6]
    simp [hipv4, hipv6]

/-- Every call of `analyze_packet` is about a frame that was just received. -/
theorem mem_captureLoop {buf : Bytes} {rounds : List Round} {call : Bytes × Nat}
    (h : call ∈ captureLoop buf rounds) :
    ∃ stale frame, frame.length ≤ bufSize ∧ call = (received stale frame, frame.length) := by
  induction rounds generalizing buf with
  | nil => cases h
  | cons round rounds ih =>
      cases round with
      | frame bytes fits =>
          rcases List.mem_cons.mp h with rfl | h
          · exact ⟨buf, bytes, fits, rfl⟩
          · exact ih h
      | selectError => exact ih h
      | timeout => exact ih h
      | recvError => exact ih h

/-- Over a whole run of the capture loop: all that is printed was captured if and only if every
frame fits. -/
theorem captureLoop_allOk_iff (g : Param) (buf : Bytes) (rounds : List Round) :
    (∀ call ∈ captureLoop buf rounds, AllOk call.2 (analyzePacket g call.1 call.2)) ↔
      ∀ call ∈ captureLoop buf rounds, FrameFits g call.1 call.2 := by
  refine forall₂_congr fun call hcall => ?_
  obtain ⟨stale, frame, fits, rfl⟩ := mem_captureLoop hcall
  exact analyzePacket_allOk g _ fits

/-- For a captured frame, every subtraction of `analyze_packet` and of `print_icmp` is
exact and every range they print was captured, if and only if the frame fits. -/
theorem captured_allOk_iff (g : Param) (buf frame : Bytes) (fits : frame.length ≤ bufSize) :
    AllOk frame.length (analyzePacket g (received buf frame) frame.length) ↔
      FrameFits g (received buf frame) frame.length :=
  analyzePacket_allOk g _ fits

/-- An Ethernet frame with an IPv4 header, the fields `ip_len` and `ip_p` as given. -/
def ipv4Frame (ipLen ipP : UInt8) (payload : Bytes) : Bytes :=
  List.replicate 12 0 ++ [0x08, 0x00] ++
    [0x45, 0, 0, ipLen, 0, 0, 0, 0, 64, ipP, 0, 0, 127, 0, 0, 1, 127, 0, 0, 1] ++ payload

/-- A UDP datagram of one byte. -/
theorem captured_allOk_datagram :
    AllOk 43 (analyzePacket .initial (received (List.replicate bufSize 0)
      (ipv4Frame 29 17 [0, 7, 0, 7, 0, 9, 0, 0, 97])) 43) := by
  refine (captured_allOk_iff .initial (List.replicate bufSize 0)
    (ipv4Frame 29 17 [0, 7, 0, 7, 0, 9, 0, 0, 97]) (by decide)).mpr ?_
  decide

/-- The UDP header is taken off a length that has no room for it. -/
theorem udp_length_wraps :
    ¬ ∀ (g : Param) (buf frame : Bytes), frame.length ≤ bufSize →
      AllOk frame.length (analyzePacket g (received buf frame) frame.length) := by
  intro h
  have hall := h .initial (List.replicate bufSize 0) (ipv4Frame 20 17 (List.replicate 26 0))
    (by decide)
  have hwrapped := hall (.printData 42 18446744073709551608) (by decide)
  exact absurd hwrapped.2 (by decide)

end NetworkProgram.Pdump
