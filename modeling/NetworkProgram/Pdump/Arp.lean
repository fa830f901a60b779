import NetworkProgram.Pdump.Dump
import NetworkProgram.Pdump.Lengths

set_option autoImplicit false

/-!
# Pdump: `print_ether_arp`

The addresses of an ARP packet are arrays of fixed size in `struct ether_arp`; how many of
their bytes are shown is said by two bytes of the packet.  An element behind the end of an
array is not read in C, even if the structure goes on there.
-/

namespace NetworkProgram.Pdump

open NetworkProgram.Foundation
open NetworkProgram.Libc

/-! ## `struct ether_arp` -/

def arpHrd (etherArp : Bytes) : Nat := ntohs etherArp 0
def arpPro (etherArp : Bytes) : Nat := ntohs etherArp 2
def arpHln (etherArp : Bytes) : Nat := byteAt etherArp 4
def arpPln (etherArp : Bytes) : Nat := byteAt etherArp 5
def arpOp (etherArp : Bytes) : Nat := ntohs etherArp 6

/-- `"%02X"` -/
def hexString (c : UInt8) : String := String.ofList ((hexByte c).map fun d => Char.ofNat d.toNat)

/-- `"%u"` -/
def unsigned (n : Nat) : String := toString n

/-- An array in the structure, with what the loop over it goes up to and prints. -/
structure AddressField where
  label : String
  offset : Nat
  size : Nat
  bound : Bytes → Nat
  separator : String
  cell : UInt8 → String

def arpSha : AddressField where
  label := "arp_sha = "
  offset := 8
  size := 6
  bound := arpHln
  separator := ":"
  cell := hexString

def arpSpa : AddressField where
  label := "arp_spa = "
  offset := 14
  size := 4
  bound := arpPln
  separator := "."
  cell := fun c => unsigned c.toNat

def arpTha : AddressField where
  label := "arp_tha = "
  offset := 18
  size := 6
  bound := arpHln
  separator := ":"
  cell := hexString

def arpTpa : AddressField where
  label := "arp_tpa = "
  offset := 24
  size := 4
  bound := arpPln
  separator := "."
  cell := fun c => unsigned c.toNat

/-! ## What is printed -/

def hrd : List String :=
  ["From KA9Q: NET/ROM pseudo.", "Ethernet 10/100Mbps.", "Experimental Ethernet.",
    "AX.25 Level 2.", "PROnet token ring.", "Chaosnet.", "IEEE 802.2 Ethernet/TR/TB.", "ARCnet.",
    "APPLEtalk.", "undefine", "undefine", "undefine", "undefine", "undefine", "undefine",
    "Frame Relay DLCI.", "undefine", "undefine", "undefine", "ATM.", "undefine", "undefine",
    "undefine", "Metricom STRIP (new IANA id)."]

def op : List String :=
  ["undefined", "ARP request.", "ARP reply.", "RARP request.", "RARP reply.", "undefined",
    "undefined", "undefined", "InARP request.", "InARP reply.", "(ATM)ARP NAK."]

def ethertypePup : Nat := 0x0200

def protocolName (pro : Nat) : String :=
  if pro = ethertypePup then "(Xerox POP)\n"
  else if pro = ethertypeIp then "(IP)\n"
  else if pro = ethertypeArp then "(Address resolution)\n"
  else if pro = ethertypeRevarp then "(Reverse ARP)\n"
  else "(unknown)\n"

/-- The part above the addresses. -/
def printEtherArpHead (etherArp : Bytes) : List String :=
  ["ether_arp---------------------------------------------------" ++ "--------------------\n",
    "arp_hrd = " ++ unsigned (arpHrd etherArp),
    if h : arpHrd etherArp < hrd.length then "(" ++ hrd[arpHrd etherArp] ++ "), "
    else "(undefined), ",
    "arp_pro = " ++ unsigned (arpPro etherArp),
    protocolName (arpPro etherArp),
    "arp_hln = " ++ unsigned (arpHln etherArp) ++ ", ",
    "arp_pln = " ++ unsigned (arpPln etherArp) ++ ", ",
    "arp_op = " ++ unsigned (arpOp etherArp),
    if h : arpOp etherArp < op.length then "(" ++ op[arpOp etherArp] ++ ")\n"
    else "(undefine)\n"]

/-- The loop over an array from index `i` on, with the number of rounds left. -/
def addressLoop (f : AddressField) : Nat → Nat → Traced UInt8 (List String)
  | _, 0 => pure []
  | i, left + 1 => do
      let c ← Traced.read i
      let texts ← addressLoop f (i + 1) left
      pure ((if i ≠ 0 then [f.separator] else []) ++ f.cell c :: texts)

def printAddress (f : AddressField) (bound : Nat) : Traced UInt8 (List String) := do
  let texts ← addressLoop f 0 bound
  pure (f.label :: texts ++ ["\n"])

/-- The addresses in their order.  Nothing is known behind an access that is undefined. -/
def printAddresses (etherArp : Bytes) :
    List AddressField → List (AddressField × Effect UInt8 (List String))
  | [] => []
  | f :: fields =>
      let e := printAddress f (f.bound etherArp) (copy etherArp f.offset f.size)
      (f, e) :: if e.result.isSome then printAddresses etherArp fields else []

/-- `print_ether_arp`: the texts above the addresses, and the loops over the four arrays. -/
def printEtherArp (etherArp : Bytes) :
    List String × List (AddressField × Effect UInt8 (List String)) :=
  (printEtherArpHead etherArp, printAddresses etherArp [arpSha, arpSpa, arpTha, arpTpa])

/-- Every loop reads inside of its array. -/
def ReadsFields (etherArp : Bytes) : Prop :=
  ∀ p ∈ (printEtherArp etherArp).2, ∀ a ∈ p.2.log, a.Below p.1.size

/-! ## The loops -/

section Loops

variable {etherArp : Bytes}

theorem ends_addressLoop (f : AddressField) (cells : Bytes) (i left : Nat)
    (h : i + left ≤ cells.length) :
    ∃ texts, Traced.Ends (Access.Below cells.length) (addressLoop f i left) cells texts cells := by
  induction left generalizing i with
  | zero => exact ⟨[], Traced.ends_pure _⟩
  | succ left ih =>
      obtain ⟨texts, hrest⟩ := ih (i + 1) (by omega)
      have hlt : i < cells.length := by omega
      exact ⟨_, (Traced.ends_read (List.getElem?_eq_getElem hlt) (Access.read_below hlt)).bind
        (hrest.bind (Traced.ends_pure _))⟩

theorem mem_log_addressLoop (f : AddressField) (cells : Bytes) (i left : Nat)
    (hi : i ≤ cells.length)
    (h : cells.length < i + left) :
    Access.read cells.length ∈ (addressLoop f i left cells).log := by
  induction left generalizing i with
  | zero => exact absurd h (Nat.not_lt.mpr hi)
  | succ left ih =>
      rcases Nat.eq_or_lt_of_le hi with rfl | hlt
      · exact Traced.mem_log_bind (List.mem_singleton_self _)
      · exact (Traced.ends_read (P := fun _ => True) (List.getElem?_eq_getElem hlt)
          trivial).mem_log (Traced.mem_log_bind (ih (i + 1) hlt (by omega)))

theorem ends_printAddress {f : AddressField} {cells : Bytes} (hlen : cells.length = f.size)
    {bound : Nat} (h : bound ≤ f.size) :
    ∃ texts, Traced.Ends (Access.Below f.size) (printAddress f bound) cells texts cells := by
  obtain ⟨texts, hloop⟩ := ends_addressLoop f cells 0 bound (by omega)
  rw [hlen] at hloop
  exact ⟨_, hloop.bind (Traced.ends_pure _)⟩

theorem mem_log_printAddress {f : AddressField} {cells : Bytes} (hlen : cells.length = f.size)
    {bound : Nat} (h : f.size < bound) :
    Access.read f.size ∈ (printAddress f bound cells).log := by
  have hmem := mem_log_addressLoop f cells 0 bound (Nat.zero_le _) (by omega)
  rw [hlen] at hmem
  exact Traced.mem_log_bind hmem

/-- The loops stay in their arrays exactly if the bounds are not larger than these. -/
theorem printAddresses_iff {fields : List AddressField}
    (hfields : ∀ f ∈ fields, f.offset + f.size ≤ etherArp.length) :
    (∀ p ∈ printAddresses etherArp fields, ∀ a ∈ p.2.log, a.Below p.1.size) ↔
      ∀ f ∈ fields, f.bound etherArp ≤ f.size := by
  induction fields with
  | nil => exact iff_of_true (List.forall_mem_nil _) (List.forall_mem_nil _)
  | cons f fields ih =>
      obtain ⟨hf, hfields⟩ := List.forall_mem_cons.mp hfields
      have hlen : (copy etherArp f.offset f.size).length = f.size := by
        rw [copy, List.length_take, List.length_drop]
        omega
      rw [printAddresses, List.forall_mem_cons, List.forall_mem_cons]
      rcases Nat.lt_or_ge f.size (f.bound etherArp) with hlong | hfits
      · refine iff_of_false (fun h => ?_) fun h => absurd h.1 (Nat.not_le.mpr hlong)
        have hbelow := h.1 _ (mem_log_printAddress hlen hlong)
        exact Nat.lt_irrefl _ (Int.ofNat_lt.mp hbelow.2)
      · obtain ⟨texts, hends⟩ := ends_printAddress hlen hfits
        have hsome : (printAddress f (f.bound etherArp)
            (copy etherArp f.offset f.size)).result.isSome := by
          rw [hends.result]
          rfl
        rw [if_pos hsome]
        exact and_congr (iff_of_true hends.log hfits) (ih hfields)

end Loops

theorem readsFields_iff {etherArp : Bytes} (hlen : etherArp.length = etherArpSize) :
    ReadsFields etherArp ↔ arpHln etherArp ≤ 6 ∧ arpPln etherArp ≤ 4 := by
  have hfields : ∀ f ∈ [arpSha, arpSpa, arpTha, arpTpa], f.offset + f.size ≤ etherArp.length := by
    rw [hlen]
    simp [arpSha, arpSpa, arpTha, arpTpa, etherArpSize]
  unfold ReadsFields printEtherArp
  rw [printAddresses_iff hfields]
  constructor
  · intro h
    exact ⟨h arpSha (by simp), h arpSpa (by simp)⟩
  · rintro ⟨hhln, hpln⟩ f hf
    simp only [List.mem_cons, List.not_mem_nil, or_false] at hf
    rcases hf with rfl | rfl | rfl | rfl
    · exact hhln
    · exact hpln
    · exact hhln
    · exact hpln

/-! ## Frames -/

/-- An ARP or RARP frame is shown with the 28 bytes behind its Ethernet header. -/
theorem print_etherArp_mem {g : Param} {buf h : Bytes} {len : Nat}
    (harp : etherType (copy buf 0 etherHeaderSize) = ethertypeArp ∨
      etherType (copy buf 0 etherHeaderSize) = ethertypeRevarp) :
    Op.print .etherArp h ∈ analyzePacket g buf len ↔
      g.arp = true ∧ h = copy buf etherHeaderSize etherArpSize := by
  unfold analyzePacket
  dsimp only
  rw [if_pos harp]
  cases g.arp with
  | false => simp
  | true => simp [caption, footer]

/-- The addresses that are printed are those in the packet exactly if it has the lengths of
Ethernet and IPv4 addresses, or shorter ones. -/
theorem arp_readsFields_iff (g : Param) (buf frame : Bytes) (size : buf.length = bufSize)
    (fits : frame.length ≤ bufSize)
    (harp : etherType (copy (received buf frame) 0 etherHeaderSize) = ethertypeArp ∨
      etherType (copy (received buf frame) 0 etherHeaderSize) = ethertypeRevarp) :
    (∀ h, Op.print .etherArp h ∈ analyzePacket g (received buf frame) frame.length →
      ReadsFields h) ↔
      (g.arp = true →
        arpHln (copy (received buf frame) etherHeaderSize etherArpSize) ≤ 6 ∧
          arpPln (copy (received buf frame) etherHeaderSize etherArpSize) ≤ 4) := by
  have hlen : (copy (received buf frame) etherHeaderSize etherArpSize).length = etherArpSize := by
    rw [copy, received, List.length_take, List.length_drop, List.length_append, List.length_drop,
      size, Nat.add_sub_cancel' fits]
    rfl
  rw [← readsFields_iff hlen]
  constructor
  · intro hall hg
    exact hall _ ((print_etherArp_mem harp).mpr ⟨hg, rfl⟩)
  · intro hreads h hmem
    obtain ⟨hg, rfl⟩ := (print_etherArp_mem harp).mp hmem
    exact hreads hg

/-- An ARP request with the address lengths as given. -/
def arpFrame (hln pln : UInt8) : Bytes :=
  List.replicate 12 0 ++ [0x08, 0x06] ++ [0, 1, 0x08, 0, hln, pln, 0, 1] ++ List.replicate 20 0

theorem arp_readsFields_ethernet :
    ReadsFields (copy (received (List.replicate bufSize 0) (arpFrame 6 4)) etherHeaderSize
      etherArpSize) :=
  (arp_readsFields_iff .initial (List.replicate bufSize 0) (arpFrame 6 4) List.length_replicate
    (by decide) (.inl (by decide))).mpr (fun _ => by decide) _
    ((print_etherArp_mem (.inl (by decide))).mpr ⟨rfl, rfl⟩)

/-- Seven bytes are more than the array has. -/
theorem arp_overread : ¬ ∀ (g : Param) (buf frame : Bytes), buf.length = bufSize →
    frame.length ≤ bufSize → ∀ h,
      Op.print .etherArp h ∈ analyzePacket g (received buf frame) frame.length →
        ReadsFields h := by
  intro hall
  have hreads := hall .initial (List.replicate bufSize 0) (arpFrame 7 4) List.length_replicate
    (by decide) _ ((print_etherArp_mem (.inl (by decide))).mpr ⟨rfl, rfl⟩)
  have hle := (readsFields_iff (by decide)).mp hreads
  exact absurd hle (by decide)

end NetworkProgram.Pdump
