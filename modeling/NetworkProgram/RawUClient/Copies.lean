import NetworkProgram.Libc.Input
import NetworkProgram.RawUClient.Frame

set_option autoImplicit false

/-!
# RawUClient: the copies of `send_udp_raw`

The payload is copied three times, into `gudp.data`, `udp.data` and `buf`, and read once for
the checksum.  Here every array is memory that may not have been written yet, and a copy or a
read that leaves one is a fault.  `send_recv_loop` passes lines of up to 511 bytes.
-/

namespace NetworkProgram.RawUClient

open NetworkProgram.Foundation
open NetworkProgram.Libc

/-! ## Memory -/

/-- The bytes of an array; none where nothing was written. -/
abbrev Cells : Type := List (Option UInt8)

inductive CopyFault
  /-- A read beyond the end of an array. -/
  | readOutOfRange
  /-- A store beyond the end of an array. -/
  | storeOutOfRange
  | uninitialised
  deriving DecidableEq, Repr

/-- An array on the stack. -/
def fresh (size : Nat) : Cells := List.replicate size none

/-- `memset(cells, 0, n)` -/
def memset (cells : Cells) (n : Nat) : Cells := List.replicate n (some 0) ++ cells.drop n

/-- `memcpy(&dst[pos], src, n)` -/
def copyCells (dst : Cells) (pos : Nat) (src : Cells) (n : Nat) : Except CopyFault Cells :=
  if src.length < n then .error .readOutOfRange
  else if dst.length < pos + n then .error .storeOutOfRange
  else .ok (dst.take pos ++ src.take n ++ dst.drop (pos + n))

/-- The first `n` bytes, all of which have to be initialised. -/
def readCells (cells : Cells) (n : Nat) : Except CopyFault Bytes :=
  if cells.length < n then .error .readOutOfRange
  else
    match (cells.take n).mapM id with
    | none => .error .uninitialised
    | some bytes => .ok bytes

/-- Bytes that were written. -/
def written (bytes : Bytes) : Cells := bytes.map some

theorem memset_fresh (size : Nat) : memset (fresh size) size = written (List.replicate size 0) := by
  rw [memset, fresh, written, List.drop_replicate, Nat.sub_self, List.map_replicate]
  exact List.append_nil _

theorem copyCells_written {dst src : Bytes} {pos n : Nat} (hread : n ≤ src.length)
    (hstore : pos + n ≤ dst.length) :
    copyCells (written dst) pos (written src) n = .ok (written (memcpy dst pos (src.take n))) := by
  have hlen : (src.take n).length = n := List.length_take_of_le hread
  rw [copyCells, written, written, List.length_map, List.length_map,
    if_neg (Nat.not_lt.mpr hread), if_neg (Nat.not_lt.mpr hstore), memcpy, hlen, written,
    List.map_append, List.map_append, List.map_take, List.map_take, List.map_drop]

theorem mapM_written (bytes : Bytes) : (written bytes).mapM id = some bytes := by
  induction bytes with
  | nil => rfl
  | cons c bytes ih =>
      rw [written, List.map_cons, List.mapM_cons, ← written, ih]
      rfl

theorem readCells_written {bytes : Bytes} {n : Nat} (h : n ≤ bytes.length) :
    readCells (written bytes) n = .ok (bytes.take n) := by
  have htake : (written bytes).take n = written (bytes.take n) := by
    rw [written, written, List.map_take]
  rw [readCells, htake, mapM_written, written, List.length_map, if_neg (Nat.not_lt.mpr h)]

/-! ## `send_udp_raw` -/

def etherHeaderSize : Nat := 14

/-- `sizeof(buf)` -/
def bufSize : Nat := etherHeaderSize + ipSize + udphdrSize + 256

/-- The parts one after the other in `buf`, and what `send` reads of it. -/
def assemble (eh ip udp : Bytes) (udpData : Cells) (size : Nat) : Except CopyFault Bytes := do
  let buf := memset (fresh bufSize) bufSize
  let p := 0
  let buf ← copyCells buf p (written eh) etherHeaderSize
  let p := p + etherHeaderSize
  let buf ← copyCells buf p (written ip) ipSize
  let p := p + ipSize
  let buf ← copyCells buf p (written udp) udphdrSize
  let p := p + udphdrSize
  let buf ← copyCells buf p udpData size
  let p := p + size
  readCells buf p

/-- `send_udp_raw(soc, data, data.length)` -/
def sendUdpRawCells (e : ByteOrder) (data : Bytes) (hwaddr : Option Mac) (sent : Bool) :
    Except CopyFault Result := do
  let size := data.length
  let gudp := pseudoUdp e data
  let gudpHead := gudp.ip.bytes e ++ gudp.udp.bytes e
  let gudpData ← copyCells (memset (fresh dataSize) dataSize) 0 (written data) size
  let summed ← readCells (written gudpHead ++ gudpData) (pseudoHeaderSize + udphdrSize + size)
  let udp := { gudp.udp with
    check := checksum e summed (pseudoHeaderSize + udphdrSize + size) }
  let udpData ← copyCells (memset (fresh dataSize) dataSize) 0 gudpData dataSize
  let ip := ipHeader e size
  let ip := { ip with sum := checksum e (ip.bytes e) ipSize }
  match hwaddr with
  | none => pure { ret := -1, frame := none }
  | some mac => do
      let frame ← assemble ((etherHeader e mac).bytes e) (ip.bytes e) (udp.bytes e) udpData size
      pure { ret := if sent then size else -1, frame := some frame }

section Spec

variable (e : ByteOrder) {data : Bytes}

/-- A line that is too long is refused nowhere: it is stored behind `gudp.data`. -/
theorem sendUdpRawCells_of_lt (h : dataSize < data.length) (hwaddr : Option Mac) (sent : Bool) :
    sendUdpRawCells e data hwaddr sent = .error .storeOutOfRange := by
  have hcopy : copyCells (memset (fresh dataSize) dataSize) 0 (written data) data.length =
      .error .storeOutOfRange := by
    rw [copyCells, memset_fresh, written, written, List.length_map, List.length_map,
      if_neg (Nat.lt_irrefl _), if_pos (by rw [List.length_replicate]; omega)]
  rw [sendUdpRawCells]
  dsimp only
  rw [hcopy]
  rfl

/-- A part of the frame, behind the parts that are in `buf` already. -/
theorem copyCells_append (text tail : Bytes) {src : Bytes} {pos n : Nat} (hpos : text.length = pos)
    (hn : n ≤ src.length) (hroom : n ≤ tail.length) :
    copyCells (written (text ++ tail)) pos (written src) n =
      .ok (written (text ++ src.take n ++ tail.drop n)) := by
  subst hpos
  rw [copyCells_written hn (by rw [List.length_append]; omega), memcpy_append,
    List.length_take_of_le hn]

/-- A whole part. -/
theorem copyCells_part (text tail : Bytes) {src : Bytes} {pos n : Nat}
    (hpos : text.length = pos)
    (hn : src.length = n) (hroom : n ≤ tail.length) :
    copyCells (written (text ++ tail)) pos (written src) n =
      .ok (written (text ++ src ++ tail.drop n)) := by
  rw [copyCells_append text tail hpos hn.ge hroom, List.take_of_length_le hn.le]

theorem length_data (h : data.length ≤ dataSize) : (pseudoUdp e data).data.length = dataSize := by
  have hroom : 0 + data.length ≤ (List.replicate dataSize (0 : UInt8)).length := by
    rw [List.length_replicate]
    omega
  exact (length_memcpy hroom).trans List.length_replicate

theorem length_gudpHead (h : data.length ≤ dataSize) :
    ((pseudoUdp e data).ip.bytes e ++ (pseudoUdp e data).udp.bytes e).length = 20 := by
  have hudp := udp_bytes e h (pseudoUdp e data).udp.check
  rw [pseudo_bytes e h, List.length_append, hudp, List.length_append]
  simp

theorem length_etherHeader (mac : Mac) : ((etherHeader e mac).bytes e).length = 14 := by
  simp [EtherHeader.bytes, etherHeader, mac.size]

theorem length_ip (h : data.length ≤ dataSize) (sum : Nat) :
    (Ip.bytes e { ipHeader e data.length with sum := sum }).length = 20 := by
  rw [ip_bytes e h]
  simp [sourceAddr, destAddr]

theorem length_udp (h : data.length ≤ dataSize) (check : Nat) :
    (Udphdr.bytes e { (pseudoUdp e data).udp with check := check }).length = 8 := by
  rw [udp_bytes e h]
  simp

/-- The three copies of the payload, and its sum. -/
theorem copies_eq (h : data.length ≤ dataSize) :
    copyCells (memset (fresh dataSize) dataSize) 0 (written data) data.length =
        .ok (written (pseudoUdp e data).data) ∧
      readCells (written ((pseudoUdp e data).ip.bytes e ++ (pseudoUdp e data).udp.bytes e) ++
        written (pseudoUdp e data).data) (pseudoHeaderSize + udphdrSize + data.length) =
          .ok (((pseudoUdp e data).bytes e).take (pseudoHeaderSize + udphdrSize + data.length)) ∧
      copyCells (memset (fresh dataSize) dataSize) 0 (written (pseudoUdp e data).data) dataSize =
        .ok (written (pseudoUdp e data).data) := by
  have hdata := length_data e h
  have hzero : (List.replicate dataSize (0 : UInt8)).length = dataSize := List.length_replicate
  rw [memset_fresh]
  refine ⟨?_, ?_, ?_⟩
  · rw [copyCells_written (Nat.le_refl _) (by omega), List.take_length]
    rfl
  · have hroom : pseudoHeaderSize + udphdrSize + data.length ≤
        ((pseudoUdp e data).bytes e).length := by
      rw [PseudoUdp.bytes, List.length_append, length_gudpHead e h, hdata, pseudoHeaderSize,
        udphdrSize]
      omega
    have hwritten : written ((pseudoUdp e data).ip.bytes e ++ (pseudoUdp e data).udp.bytes e) ++
        written (pseudoUdp e data).data = written ((pseudoUdp e data).bytes e) :=
      List.map_append.symm
    rw [hwritten, readCells_written hroom]
  · have hall : memcpy (List.replicate dataSize 0) 0 (pseudoUdp e data).data =
        (pseudoUdp e data).data := by
      rw [memcpy, List.take_zero, List.nil_append, List.drop_eq_nil_of_le (by omega),
        List.append_nil]
    rw [copyCells_written (by omega) (by omega), List.take_of_length_le hdata.le, hall]

theorem assemble_eq {eh ip udp : Bytes} {size : Nat} (heh : eh.length = 14)
    (hip : ip.length = 20) (hudp : udp.length = 8) (hsize : size ≤ data.length)
    (hroom : size ≤ 256) :
    assemble eh ip udp (written data) size = .ok (eh ++ ip ++ udp ++ data.take size) := by
  have hzero : (List.replicate bufSize (0 : UInt8)).length = 298 := List.length_replicate
  rw [assemble, memset_fresh]
  generalize List.replicate bufSize (0 : UInt8) = zero at hzero ⊢
  have hether : copyCells (written zero) 0 (written eh) etherHeaderSize =
      .ok (written (eh ++ zero.drop 14)) :=
    copyCells_part [] zero rfl heh (show 14 ≤ zero.length by omega)
  have hipHeader : copyCells (written (eh ++ zero.drop 14)) (0 + etherHeaderSize) (written ip)
      ipSize = .ok (written (eh ++ ip ++ (zero.drop 14).drop 20)) :=
    copyCells_part eh _ heh hip (show 20 ≤ (zero.drop 14).length by
      rw [List.length_drop]
      omega)
  have hudpHeader : copyCells (written (eh ++ ip ++ (zero.drop 14).drop 20))
      (0 + etherHeaderSize + ipSize) (written udp) udphdrSize =
        .ok (written (eh ++ ip ++ udp ++ ((zero.drop 14).drop 20).drop 8)) :=
    copyCells_part (eh ++ ip) _ (show (eh ++ ip).length = 34 by
      rw [List.length_append]
      omega) hudp (show 8 ≤ ((zero.drop 14).drop 20).length by
        rw [List.length_drop, List.length_drop]
        omega)
  have hheads : (eh ++ ip ++ udp).length = 42 := by
    rw [List.length_append, List.length_append]
    omega
  have hpayload : copyCells (written (eh ++ ip ++ udp ++ ((zero.drop 14).drop 20).drop 8))
      (0 + etherHeaderSize + ipSize + udphdrSize) (written data) size =
        .ok (written (eh ++ ip ++ udp ++ data.take size ++
          (((zero.drop 14).drop 20).drop 8).drop size)) :=
    copyCells_append (eh ++ ip ++ udp) _ hheads hsize (by
      rw [List.length_drop, List.length_drop, List.length_drop]
      omega)
  have hframe : (eh ++ ip ++ udp ++ data.take size).length =
      0 + etherHeaderSize + ipSize + udphdrSize + size := by
    rw [List.length_append, hheads, List.length_take_of_le hsize]
    rfl
  dsimp only [bind, Except.bind]
  rw [hether]
  dsimp only
  rw [hipHeader]
  dsimp only
  rw [hudpHeader]
  dsimp only
  rw [hpayload]
  dsimp only
  rw [readCells_written (by rw [List.length_append]; omega), List.take_left' hframe]

/-- Only the bytes that are summed matter. -/
theorem checksum_take (bytes : Bytes) (n : Nat) :
    checksum e (bytes.take n) n = checksum e bytes n := by
  have hle : n % intRange ≤ n := Nat.mod_le _ _
  rw [checksum, checksum, List.take_take, Nat.min_eq_left hle]

/-- A line that fits is sent as `sendUdpRaw` says, and nothing is a fault. -/
theorem sendUdpRawCells_of_le (h : data.length ≤ dataSize) (hwaddr : Option Mac) (sent : Bool) :
    ∃ r, sendUdpRawCells e data hwaddr sent = .ok r ∧ sendUdpRaw e data hwaddr sent = .ok r := by
  obtain ⟨hgudp, hsummed, hudp⟩ := copies_eq e h
  rw [sendUdpRawCells, sendUdpRaw]
  dsimp only
  rw [hgudp, if_neg (Nat.not_lt.mpr h)]
  dsimp only [bind, Except.bind]
  rw [hsummed]
  dsimp only
  rw [hudp]
  dsimp only
  cases hwaddr with
  | none => exact ⟨_, rfl, rfl⟩
  | some mac =>
      have hdata := length_data e h
      dsimp only
      rw [assemble_eq (length_etherHeader e mac) (length_ip e h _) (length_udp e h _)
        (by omega) h]
      rw [checksum_take]
      exact ⟨_, rfl, rfl⟩

end Spec

/-! ## `send_recv_loop` -/

/-- `sizeof(buf)` in `send_recv_loop`. -/
def lineBufSize : Nat := 512

/-- What is passed to `send_udp_raw` with `input` left on `stdin`, and what is left then; none if
`feof` ends the loop. -/
def lineRead (input : Bytes) : Option (Bytes × Bytes) :=
  match fgets lineBufSize input with
  | none => none
  | some (piece, rest) =>
      -- Neither a newline nor the size has stopped `fgets` in front of the end.
      if piece.getLast? = some lf ∨ piece.length = lineBufSize - 1 then some (cstr piece, rest)
      else none

/-- All copies and reads stay inside of their arrays, and the frame carries all of the data. -/
def CarriesLine (e : ByteOrder) (data : Bytes) (hwaddr : Option Mac) (sent : Bool) : Prop :=
  ∃ r, sendUdpRawCells e data hwaddr sent = .ok r ∧
    ∀ frame, r.frame = some frame → payloadOf frame = data

theorem carriesLine_iff_length (e : ByteOrder) (data : Bytes) (hwaddr : Option Mac)
    (sent : Bool) : CarriesLine e data hwaddr sent ↔ data.length ≤ dataSize := by
  constructor
  · rintro ⟨r, hok, -⟩
    by_contra hlong
    rw [sendUdpRawCells_of_lt e (Nat.lt_of_not_le hlong)] at hok
    cases hok
  · intro h
    obtain ⟨r, hcells, hok⟩ := sendUdpRawCells_of_le e h hwaddr sent
    refine ⟨r, hcells, fun payload hframe => ?_⟩
    cases hwaddr with
    | none =>
        rw [sendUdpRaw, if_neg (Nat.not_lt.mpr h)] at hok
        cases hok
        cases hframe
    | some mac =>
        rw [sendUdpRaw_eq e h] at hok
        cases hok
        cases hframe
        exact payloadOf_frame e mac data

theorem length_lineRead {input data rest : Bytes} (h : lineRead input = some (data, rest)) :
    data.length ≤ 511 := by
  unfold lineRead at h
  split at h
  · cases h
  · rename_i piece left hfgets
    split at h
    · cases h
      obtain ⟨-, hline⟩ := (fgets_eq_some_iff (by decide)).mp hfgets
      exact (List.takeWhile_prefix _).length_le.trans hline.length
    · cases h

/-- Of the lines of up to 511 bytes, those of up to 256 bytes are sent as they should be. -/
theorem carriesLine_iff (e : ByteOrder) {input data rest : Bytes}
    (h : lineRead input = some (data, rest)) (hwaddr : Option Mac) (sent : Bool) :
    data.length ≤ 511 ∧ (CarriesLine e data hwaddr sent ↔ data.length ≤ 256) :=
  ⟨length_lineRead h, carriesLine_iff_length e data hwaddr sent⟩

theorem carriesLine_iff_short : CarriesLine .little [97, 10]
    (some { bytes := List.replicate 6 2, size := List.length_replicate }) true :=
  (carriesLine_iff .little (show lineRead [97, 10] = some ([97, 10], []) by decide) _ true).2.mpr
    (by decide)

/-- A line of `n` letters and a newline. -/
theorem lineRead_letters {n : Nat} (h : n ≤ 510) :
    lineRead (List.replicate n 97 ++ [lf]) = some (List.replicate n 97 ++ [lf], []) := by
  have hline : FgetsLine (lineBufSize - 1) (List.replicate n 97 ++ [lf]) [] := by
    refine ⟨by simp, ?_, ?_, .inl List.getLast?_concat⟩
    · rw [List.dropLast_concat]
      intro hmem
      exact absurd (List.eq_of_mem_replicate hmem) (by decide)
    · rw [List.length_append, List.length_replicate, List.length_singleton, lineBufSize]
      omega
  have hfgets : fgets lineBufSize (List.replicate n 97 ++ [lf]) =
      some (List.replicate n 97 ++ [lf], []) :=
    (fgets_eq_some_iff (by decide)).mpr ⟨(List.append_nil _).symm, hline⟩
  have hstring : cstr (List.replicate n 97 ++ [lf]) = List.replicate n 97 ++ [lf] := by
    refine cstr_eq_self fun hmem => ?_
    rcases List.mem_append.mp hmem with hmem | hmem
    · exact absurd (List.eq_of_mem_replicate hmem) (by decide)
    · exact absurd (List.mem_singleton.mp hmem) (by decide)
  unfold lineRead
  rw [hfgets]
  dsimp only
  rw [if_pos (.inl List.getLast?_concat), hstring]

/-- 256 letters and a newline are too much. -/
theorem line_overruns : ¬ ∀ (e : ByteOrder) (input data rest : Bytes),
    lineRead input = some (data, rest) → ∀ (hwaddr : Option Mac) (sent : Bool),
      CarriesLine e data hwaddr sent := by
  intro h
  have hline := h .little _ _ _ (lineRead_letters (show 256 ≤ 510 by decide)) none true
  have hle := (carriesLine_iff_length .little _ none true).mp hline
  rw [List.length_append, List.length_replicate] at hle
  exact absurd hle (by decide)

end NetworkProgram.RawUClient
