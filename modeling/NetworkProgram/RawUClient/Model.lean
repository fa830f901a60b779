import NetworkProgram.Foundation.OnesComplement
import NetworkProgram.Libc.Integers
import NetworkProgram.Libc.Memory

set_option autoImplicit false

/-!
# RawUClient: the model of `send_udp_raw` of `chapter10/raw-u-client.c`

A line of text is sent as a UDP datagram whose headers the program makes by itself, down
to the Ethernet header.  The checksums are computed on the machine's own 16-bit words, so
the byte order of the machine is a parameter; a structure becomes its bytes in memory
where the code takes its address.
-/

namespace NetworkProgram.RawUClient

open NetworkProgram.Foundation
open NetworkProgram.Libc

/-- `SOURCE_ADDR` and `DEST_ADDR`, as `inet_pton` puts them into memory. -/
def sourceAddr : Bytes := [0, 0, 0, 0]
def destAddr : Bytes := [255, 255, 255, 255]

/-- `SOURCE_PORT` and `DEST_PORT` -/
def sourcePort : Nat := 22223
def destPort : Nat := 22222

/-- `htons` of a number that is converted to `uint16_t`. -/
def htons (e : ByteOrder) (w : Nat) : Nat :=
  let w := w % 65536
  match e with
  | .little => w % 256 * 256 + w / 256
  | .big => w

/-! ## Headers -/

/-- `struct ether_header` -/
structure EtherHeader where
  dhost : Bytes
  shost : Bytes
  type : Nat

def EtherHeader.bytes (e : ByteOrder) (eh : EtherHeader) : Bytes :=
  eh.dhost ++ eh.shost ++ e.store eh.type

/-- `struct ip`.  The bit fields of the first byte lie so in memory on machines of both
byte orders. -/
structure Ip where
  v : Nat
  hl : Nat
  tos : UInt8
  len : Nat
  id : Nat
  off : Nat
  ttl : UInt8
  p : UInt8
  sum : Nat
  src : Bytes
  dst : Bytes

def Ip.bytes (e : ByteOrder) (ip : Ip) : Bytes :=
  [UInt8.ofNat (16 * ip.v + ip.hl), ip.tos] ++ e.store ip.len ++ e.store ip.id ++
    e.store ip.off ++ [ip.ttl, ip.p] ++ e.store ip.sum ++ ip.src ++ ip.dst

/-- `struct udphdr` -/
structure Udphdr where
  source : Nat
  dest : Nat
  len : Nat
  check : Nat

def Udphdr.bytes (e : ByteOrder) (udp : Udphdr) : Bytes :=
  e.store udp.source ++ e.store udp.dest ++ e.store udp.len ++ e.store udp.check

/-- `struct pseudo_header` -/
structure PseudoHeader where
  saddr : Bytes
  daddr : Bytes
  reserved : UInt8
  protocol : UInt8
  len : Nat

def PseudoHeader.bytes (e : ByteOrder) (ip : PseudoHeader) : Bytes :=
  ip.saddr ++ ip.daddr ++ [ip.reserved, ip.protocol] ++ e.store ip.len

/-- `struct pseudo_udp` -/
structure PseudoUdp where
  ip : PseudoHeader
  udp : Udphdr
  data : Bytes

def PseudoUdp.bytes (e : ByteOrder) (gudp : PseudoUdp) : Bytes :=
  gudp.ip.bytes e ++ gudp.udp.bytes e ++ gudp.data

def pseudoHeaderSize : Nat := 12
def udphdrSize : Nat := 8
def ipSize : Nat := 20

/-- `sizeof(gudp.data)` -/
def dataSize : Nat := 256

/-! ## `checksum` -/

/-- The `for` loop and the odd last byte. -/
def addWords (e : ByteOrder) : Bytes → Nat → Nat
  | b0 :: b1 :: rest, sum =>
      let sum := (sum + e.load b0 b1) % intRange
      addWords e rest (if 0x80000000 ≤ sum then fold sum else sum)
  | [b], sum => (sum + e.load b 0) % intRange
  | [], sum => sum

/-- `checksum(data, len)`; its counter has type `uint32_t`. -/
def checksum (e : ByteOrder) (data : Bytes) (len : Nat) : Nat :=
  let sum := carry (addWords e (data.take (len % intRange)) 0)
  if sum = 0xFFFF then sum else (0xFFFFFFFF - sum) % 65536

/-! ## `send_udp_raw` -/

/-- `gudp` before its checksum is computed. -/
def pseudoUdp (e : ByteOrder) (data : Bytes) : PseudoUdp where
  ip := {
    saddr := sourceAddr
    daddr := destAddr
    reserved := 0
    protocol := 17
    len := htons e (udphdrSize + data.length) }
  udp := {
    source := htons e sourcePort
    dest := htons e destPort
    len := htons e (udphdrSize + data.length)
    check := 0 }
  data := memcpy (List.replicate dataSize 0) 0 data

/-- `udp.ip` before its checksum is computed. -/
def ipHeader (e : ByteOrder) (size : Nat) : Ip where
  v := 4
  hl := 5
  tos := 0
  len := htons e (ipSize + udphdrSize + size)
  id := 0
  off := htons e 0
  ttl := 64
  p := 17
  sum := 0
  src := sourceAddr
  dst := destAddr

/-- What `ioctl` with SIOCGIFHWADDR finds. -/
structure Mac where
  bytes : Bytes
  size : bytes.length = 6

def etherHeader (e : ByteOrder) (hwaddr : Mac) : EtherHeader where
  dhost := List.replicate 6 0xFF
  shost := hwaddr.bytes
  type := htons e 0x800

inductive Fault
  /-- A store beyond the end of an array. -/
  | outOfRange
  deriving DecidableEq, Repr

/-- The return value, and the frame given to `send`, if any. -/
structure Result where
  ret : Int
  frame : Option Bytes

/-- `send_udp_raw(soc, data, data.length)`; `hwaddr` is the answer of `ioctl`, none for an
error, and `sent` says that `send` succeeds. -/
def sendUdpRaw (e : ByteOrder) (data : Bytes) (hwaddr : Option Mac) (sent : Bool) :
    Except Fault Result :=
  let size := data.length
  if dataSize < size then .error .outOfRange
  else
    let gudp := pseudoUdp e data
    let udp := { gudp.udp with
      check := checksum e (gudp.bytes e) (pseudoHeaderSize + udphdrSize + size) }
    let ip := ipHeader e size
    let ip := { ip with sum := checksum e (ip.bytes e) ipSize }
    match hwaddr with
    | none => .ok { ret := -1, frame := none }
    | some mac =>
        .ok {
          ret := if sent then size else -1
          frame := some ((etherHeader e mac).bytes e ++ ip.bytes e ++ udp.bytes e ++
            gudp.data.take size) }

end NetworkProgram.RawUClient
