import NetworkProgram.Libc.Strings
import NetworkProgram.Libc.Integers

set_option autoImplicit false

/-!
# Pdump: the model of `analyze_packet` of `chapter10/pdump.c`

A frame lies at the start of `capture_loop`'s buffer of 2048 bytes; behind it stands
what earlier frames left there.  `analyze_packet` copies one header after the other
out of the buffer, shows them, and hands what follows them to `print_data`.  Here it
returns what it does in order: the headers and ranges it shows and the subtractions
it makes on its lengths.  A pointer is the offset from the start of the buffer.
-/

namespace NetworkProgram.Pdump

open NetworkProgram.Libc

/-- `sizeof(buf)` in `capture_loop`. -/
def bufSize : Nat := 2048

/-- The fields of `g_param` that `analyze_packet` reads. -/
structure Param where
  arp : Bool
  icmp : Bool
  tcp : Bool
  udp : Bool
  port : Int

/-- The initial `g_param`. -/
def Param.initial : Param where
  arp := true
  icmp := true
  tcp := true
  udp := true
  port := 0

/-! ## Headers -/

def etherHeaderSize : Nat := 14
def etherArpSize : Nat := 28
def ipSize : Nat := 20
def ip6HdrSize : Nat := 40
def tcphdrSize : Nat := 20
def udphdrSize : Nat := 8
def icmpSize : Nat := 28

/-- `memcpy(&header, ptr, size)` -/
def copy (buf : Bytes) (ptr size : Nat) : Bytes := (buf.drop ptr).take size

def byteAt (header : Bytes) (i : Nat) : Nat := (header.getD i 0).toNat

/-- `ntohs` of a 16-bit field. -/
def ntohs (header : Bytes) (i : Nat) : Nat := 256 * byteAt header i + byteAt header (i + 1)

/-- `struct ether_header` -/
def etherType (eh : Bytes) : Nat := ntohs eh 12

/-- `struct ip` -/
def ipLen (ip : Bytes) : Nat := ntohs ip 2
def ipP (ip : Bytes) : Nat := byteAt ip 9

/-- `struct ip6_hdr` -/
def ip6Nxt (ip6Hdr : Bytes) : Nat := byteAt ip6Hdr 6

/-- `struct tcphdr` and `struct udphdr` -/
def source (hdr : Bytes) : Nat := ntohs hdr 0
def dest (hdr : Bytes) : Nat := ntohs hdr 2
def doff (tcphdr : Bytes) : Nat := byteAt tcphdr 12 / 16

/-- `struct icmp` -/
def icmpType (icmp : Bytes) : Nat := byteAt icmp 0
def icmpIp (icmp : Bytes) : Bytes := copy icmp 8 ipSize

def ethertypeIp : Nat := 0x0800
def ethertypeArp : Nat := 0x0806
def ethertypeRevarp : Nat := 0x8035
def ethertypeIpv6 : Nat := 0x86DD

def ipprotoIcmp : Nat := 1
def ipprotoTcp : Nat := 6
def ipprotoUdp : Nat := 17

/-! ## What the code does -/

/-- The functions that show a header. -/
inductive Shown
  | etherHeader
  | etherArp
  | ip
  | ipv6
  | tcphdr
  | udphdr
  /-- The part of `print_icmp` above its last `if`. -/
  | icmp
  deriving DecidableEq, Repr

inductive Op
  | printSeparator
  | printf (text : String)
  | print (fn : Shown) (header : Bytes)
  | printTcpOptpad (data : Int) (size : Int)
  | printData (data : Int) (size : Nat)
  /-- `a - b` at type `size_t`. -/
  | sub (a b : Nat)
  /-- `a - b` at type `int`. -/
  | subInt (a b : Int)
  deriving DecidableEq, Repr

/-- `is_target_port` -/
def isTargetPort (g : Param) (port1 port2 : Nat) : Bool :=
  if g.port = 0 then true
  else if g.port > 0 then g.port = port1 ∨ g.port = port2
  else ¬ (-g.port = port1 ∨ -g.port = port2)

/-- The start of what a branch shows: the label and the headers so far. -/
def caption (label : String) (headers : List (Shown × Bytes)) : List Op :=
  .printSeparator :: .printf label :: headers.map fun h => .print h.1 h.2

/-- The end of it. -/
def footer : List Op := [.printSeparator, .printf "\n"]

/-- The TCP branch, behind a network header. -/
def tcpBranch (g : Param) (label : String) (headers : List (Shown × Bytes)) (buf : Bytes)
    (ptr len : Nat) : List Op :=
  if g.tcp then
    let tcphdr := copy buf ptr tcphdrSize
    let ptr := ptr + tcphdrSize
    let lenPayload := subSize len tcphdrSize
    .sub len tcphdrSize ::
      if isTargetPort g (source tcphdr) (dest tcphdr) then
        let lest := toInt (subSize (doff tcphdr * 4) tcphdrSize)
        let lenData := subSize lenPayload (toSize lest)
        caption label (headers ++ [(.tcphdr, tcphdr)]) ++
          [.sub (doff tcphdr * 4) tcphdrSize] ++
          (if lest > 0 then [.printTcpOptpad ptr lest] else []) ++
          [.sub lenPayload (toSize lest)] ++
          (if lenData > 0 then [.printData (ptr + lest) lenData] else []) ++
          footer
      else []
  else []

/-- The UDP branch, behind a network header. -/
def udpBranch (g : Param) (label : String) (headers : List (Shown × Bytes)) (buf : Bytes)
    (ptr len : Nat) : List Op :=
  if g.udp then
    let udphdr := copy buf ptr udphdrSize
    let lenData := subSize len udphdrSize
    .sub len udphdrSize ::
      if isTargetPort g (source udphdr) (dest udphdr) then
        caption label (headers ++ [(.udphdr, udphdr)]) ++
          (if lenData > 0 then [.printData ((ptr : Int) + udphdrSize) lenData] else []) ++
          footer
      else []
  else []

/-- The last part of `print_icmp`: a header of size `hdrSize` behind the eight bytes of the
message and the IP header in it. -/
def printIcmpInner (fn : Shown) (hdrSize : Nat) (buf : Bytes) (hptr : Nat) (size : Int) :
    List Op :=
  let sizeIp := toInt (subSize (toSize (size - 8)) ipSize)
  [.subInt size 8, .sub (toSize (size - 8)) ipSize, .sub (toSize sizeIp) hdrSize,
    .print fn (copy buf (hptr + 8 + ipSize) hdrSize)]

def printIcmp (icmp buf : Bytes) (hptr : Nat) (size : Int) : List Op :=
  .print .icmp icmp ::
    ((if icmpType icmp = 0 ∨ icmpType icmp = 8 then
      [.subInt size 8, .printData ((hptr : Int) + 8) (toSize (size - 8))]
    else []) ++
    (if icmpType icmp = 3 ∨ icmpType icmp = 5 ∨ icmpType icmp = 11 then
      .print .ip (icmpIp icmp) ::
        if ipP (icmpIp icmp) = ipprotoTcp then printIcmpInner .tcphdr tcphdrSize buf hptr size
        else if ipP (icmpIp icmp) = ipprotoUdp then
          printIcmpInner .udphdr udphdrSize buf hptr size
        else []
    else []))

/-- The ICMP branch, behind an IP header. -/
def icmpBranch (g : Param) (headers : List (Shown × Bytes)) (buf : Bytes) (ptr len : Nat) :
    List Op :=
  if g.icmp then
    let icmp := copy buf ptr icmpSize
    [.sub len icmpSize] ++ caption "[ICMP]\n" headers ++ printIcmp icmp buf ptr (toInt len) ++
      footer
  else []

/-- `analyze_packet(buf, len)` -/
def analyzePacket (g : Param) (buf : Bytes) (len : Nat) : List Op :=
  let eh := copy buf 0 etherHeaderSize
  let ptr := etherHeaderSize
  .sub len etherHeaderSize ::
    if etherType eh = ethertypeArp ∨ etherType eh = ethertypeRevarp then
      if g.arp then
        caption "[ARP]\n" [(.etherHeader, eh), (.etherArp, copy buf ptr etherArpSize)] ++ footer
      else []
    else if etherType eh = ethertypeIp then
      let ip := copy buf ptr ipSize
      let headers := [(Shown.etherHeader, eh), (Shown.ip, ip)]
      let lenIp := subSize (ipLen ip) ipSize
      .sub (ipLen ip) ipSize ::
        if ipP ip = ipprotoTcp then tcpBranch g "[TCP]\n" headers buf (ptr + ipSize) lenIp
        else if ipP ip = ipprotoUdp then udpBranch g "[UDP]\n" headers buf (ptr + ipSize) lenIp
        else if ipP ip = ipprotoIcmp then icmpBranch g headers buf (ptr + ipSize) lenIp
        else []
    else if etherType eh = ethertypeIpv6 then
      let ip6Hdr := copy buf ptr ip6HdrSize
      let headers := [(Shown.etherHeader, eh), (Shown.ipv6, ip6Hdr)]
      let lenEther := subSize len etherHeaderSize
      let lenIp := subSize lenEther ip6HdrSize
      .sub lenEther ip6HdrSize ::
        if ip6Nxt ip6Hdr = ipprotoTcp then
          tcpBranch g "[TCP6]\n" headers buf (ptr + ip6HdrSize) lenIp
        else if ip6Nxt ip6Hdr = ipprotoUdp then
          udpBranch g "[UDP6]\n" headers buf (ptr + ip6HdrSize) lenIp
        else []
    else []

/-! ## `capture_loop` -/

/-- How `select` and `recv` answer in one round of the loop. -/
inductive Round
  | selectError
  | timeout
  | recvError
  /-- `recv` returns a frame of at most `sizeof(buf)` bytes. -/
  | frame (bytes : Bytes) (fits : bytes.length ≤ bufSize)

/-- `recv` writes the frame over the start of the buffer. -/
def received (buf bytes : Bytes) : Bytes := bytes ++ buf.drop bytes.length

/-- The calls of `analyze_packet` in the rounds, each with the buffer and the length. -/
def captureLoop (buf : Bytes) : List Round → List (Bytes × Nat)
  | [] => []
  | .frame bytes _ :: rounds =>
      (received buf bytes, bytes.length) :: captureLoop (received buf bytes) rounds
  | _ :: rounds => captureLoop buf rounds

end NetworkProgram.Pdump
