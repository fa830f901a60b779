import NetworkProgram.Foundation.Runs
import NetworkProgram.Oneline.Dynamic

set_option autoImplicit false

/-!
# Oneline: the buffer of `recv_one_line_2`

The buffer grows by one unit when a chunk does not fit, without a second look whether it
fits then.  It does, because there is always a byte to spare: a chunk has at most 1023
bytes, and the line so far is shorter than the buffer.  The rounds of the loop are taken
one by one here, each with whatever the socket gives to it.
-/

namespace NetworkProgram.Oneline

open NetworkProgram.Foundation
open NetworkProgram.Libc

/-- What one round of the loop of `recv_one_line_2` leads to: the function returns, or
the next round starts with these variables. -/
def round (heap : Heap) (soc : Socket) (line : Line) : Received (Option Bytes) ⊕ Line :=
  let r := recvOneLine1 soc line.buf allocSize
  if r.rv = -1 then .inl { rv := -1, buf := none, rest := r.rest }
  else if r.rv = 0 then
    .inl { rv := if 0 < line.nowLen then line.nowLen else 0, buf := line.data, rest := r.rest }
  else
    let len := r.rv.toNat
    let line := line.makeRoom heap len
    match line.data with
    | none => .inl { rv := -1, buf := none, rest := r.rest }
    | some data =>
        let data := (memcpy data line.nowLen (r.buf.take len)).set (line.nowLen + len) 0
        if data[line.nowLen + len - 1]? = some lf then
          .inl { rv := line.nowLen + len, buf := some data, rest := r.rest }
        else .inr { line with buf := r.buf, data := some data, nowLen := line.nowLen + len }

/-- The loop is its rounds, each on what the one before has left. -/
theorem recvLoop2_eq_round (heap : Heap) (soc : Socket) (line : Line) :
    recvLoop2 heap soc line =
      match round heap soc line with
      | .inl result => result
      | .inr line' => recvLoop2 heap
          { soc with data := (recvOneLine1 soc line.buf allocSize).rest } line' := by
  rw [recvLoop2, round]
  dsimp only
  by_cases herror : (recvOneLine1 soc line.buf allocSize).rv = -1
  · rw [dif_pos herror, if_pos herror]
  · rw [dif_neg herror, if_neg herror]
    by_cases heof : (recvOneLine1 soc line.buf allocSize).rv = 0
    · rw [dif_pos heof, if_pos heof]
    · rw [dif_neg heof, if_neg heof]
      cases (line.makeRoom heap (recvOneLine1 soc line.buf allocSize).rv.toNat).data with
      | none => rfl
      | some data =>
          dsimp only
          split <;> rfl

/-- The variables at the start of the next round, if there is one. -/
def nextRound (heap : Heap) (line : Line) (soc : Socket) : Option Line :=
  (round heap soc line).getRight?

/-- The variables of `recv_one_line_2` before the first round. -/
def firstRound (stack : Nat → UInt8) : Line where
  buf := block stack allocSize
  data := none
  size := 0
  nowLen := 0

/-! ## Chunks -/

theorem recvLoop1_rv_le {bufsize pos : Nat} (broken : Bool) (data buf : Bytes)
    (h : pos + 1 < bufsize) : (recvLoop1 bufsize broken data buf pos).rv < bufsize := by
  induction data generalizing buf pos with
  | nil =>
      rw [recvLoop1]
      dsimp only
      split
      · omega
      · split <;> omega
  | cons c data ih =>
      rw [recvLoop1]
      split
      · dsimp only
        omega
      · rename_i hmore
        exact ih _ (by omega)

theorem recvOneLine1_bounds (soc : Socket) {buf : Bytes} (h : buf.length = allocSize) :
    (recvOneLine1 soc buf allocSize).rv.toNat < allocSize ∧
      (recvOneLine1 soc buf allocSize).buf.length = allocSize := by
  have hrv := recvLoop1_rv_le soc.broken soc.data (buf.set 0 0) (show 0 + 1 < allocSize by decide)
  refine ⟨?_, ?_⟩
  · rw [recvOneLine1]
    have hpos : 0 < allocSize := by decide
    omega
  · rw [recvOneLine1, length_recvLoop1_buf, List.length_set, h]

theorem length_memcpy_take {data buf : Bytes} {pos len : Nat} (hfits : pos + len ≤ data.length)
    (hlen : len ≤ buf.length) : (memcpy data pos (buf.take len)).length = data.length := by
  have htake : (buf.take len).length = len := List.length_take_of_le hlen
  exact length_memcpy (htake.symm ▸ hfits)

/-! ## The buffer -/

/-- At the start of a round: no buffer yet, or a string shorter than the buffer. -/
structure RoundHead (line : Line) : Prop where
  buf : line.buf.length = allocSize
  data : line.data = none ∧ line.nowLen = 0 ∧ line.size = 0 ∨
    ∃ data, line.data = some data ∧ data.length = line.size ∧ allocSize ∣ line.size ∧
      line.size ≤ allocLimit ∧ line.nowLen < line.size ∧ data[line.nowLen]? = some 0

/-- The chunk of a round and the NUL behind it lie in the buffer they are stored in. -/
def StoresInside (heap : Heap) (soc : Socket) (line : Line) : Prop :=
  let len := (recvOneLine1 soc line.buf allocSize).rv.toNat
  ∀ data, (line.makeRoom heap len).data = some data → line.nowLen + len < data.length

theorem allocate_of_le (contents : Nat → Nat → UInt8) {data : Option Bytes} {size : Nat}
    (hlimit : size ≤ allocLimit) (hdata : ∀ old, data = some old → old.length ≤ size) :
    ∃ new, allocate (.ample contents) data size = some new ∧ new.length = size := by
  unfold allocate
  rw [if_neg (Nat.not_lt.mpr hlimit)]
  cases data with
  | none => exact ⟨block (contents size) size, malloc_ample _ _, length_block _ _⟩
  | some old =>
      obtain ⟨more, hgrown, hmore⟩ := realloc_ample contents (hdata old rfl)
      exact ⟨_, hgrown, hmore⟩

/-- There is room for any chunk, after growth by one unit if need be, or no buffer. -/
theorem RoundHead.makeRoom (contents : Nat → Nat → UInt8) {line : Line} (h : RoundHead line)
    {len : Nat} (hlen : len < allocSize) {data : Bytes}
    (hdata : (line.makeRoom (.ample contents) len).data = some data) :
    data.length = (line.makeRoom (.ample contents) len).size ∧
      allocSize ∣ (line.makeRoom (.ample contents) len).size ∧
      (line.makeRoom (.ample contents) len).size ≤ allocLimit ∧
      line.nowLen + len < (line.makeRoom (.ample contents) len).size := by
  have hdvd : allocSize ∣ line.size := by
    rcases h.data with ⟨-, -, hsize⟩ | ⟨old, -, -, hdvd, -⟩
    · rw [hsize]
      exact Nat.dvd_zero _
    · exact hdvd
  unfold Line.makeRoom at hdata ⊢
  split at hdata
  · rename_i hfull
    rw [if_pos hfull]
    dsimp only at hdata ⊢
    have hlimit : line.size + allocSize ≤ allocLimit := by
      by_contra hover
      unfold allocate at hdata
      rw [if_pos (Nat.lt_of_not_le hover)] at hdata
      cases hdata
    have hold : ∀ old, line.data = some old → old.length ≤ line.size + allocSize := by
      intro old hold
      rcases h.data with ⟨hnone, -⟩ | ⟨data', hsome, hlength, -⟩
      · cases hnone.symm.trans hold
      · cases hsome.symm.trans hold
        omega
    obtain ⟨new, hnew, hlength⟩ := allocate_of_le contents hlimit hold
    cases hnew.symm.trans hdata
    refine ⟨hlength, Nat.dvd_add hdvd (Nat.dvd_refl _), hlimit, ?_⟩
    rcases h.data with ⟨-, hnow, -⟩ | ⟨-, -, -, -, -, hnow, -⟩ <;> omega
  · rename_i hfits
    rw [if_neg hfits]
    rcases h.data with ⟨hnone, -⟩ | ⟨old, hsome, hlength, -, hlimit, -, -⟩
    · cases hnone.symm.trans hdata
    · cases hsome.symm.trans hdata
      exact ⟨hlength, hdvd, hlimit, Nat.lt_of_not_le hfits⟩

theorem RoundHead.storesInside (contents : Nat → Nat → UInt8) {line : Line} (h : RoundHead line)
    (soc : Socket) : StoresInside (.ample contents) soc line := by
  intro data hdata
  obtain ⟨hlength, -, -, hfits⟩ := h.makeRoom contents (recvOneLine1_bounds soc h.buf).1 hdata
  exact hlength ▸ hfits

/-- A round that stores its chunk leaves a string that is shorter than the buffer. -/
theorem RoundHead.next (contents : Nat → Nat → UInt8) {line line' : Line} (h : RoundHead line)
    {soc : Socket} (hround : nextRound (.ample contents) line soc = some line') :
    RoundHead line' := by
  obtain ⟨hlen, hbuf⟩ := recvOneLine1_bounds soc h.buf
  unfold nextRound round at hround
  dsimp only at hround
  split at hround
  · cases hround
  · split at hround
    · cases hround
    · split at hround
      · cases hround
      · rename_i data hdata
        obtain ⟨hlength, hdvd, hlimit, hfits⟩ := h.makeRoom contents hlen hdata
        split at hround
        · cases hround
        · cases hround
          have hcopy := length_memcpy_take (Nat.le_of_lt (hlength ▸ hfits))
            (Nat.le_of_lt (hlen.trans_eq hbuf.symm))
          refine ⟨hbuf, .inr ⟨_, rfl, ?_, hdvd, hlimit, ?_, ?_⟩⟩
          all_goals dsimp only
          all_goals rw [makeRoom_nowLen]
          · rw [List.length_set, hcopy, hlength]
          · exact hfits
          · exact List.getElem?_set_self (by omega)

theorem firstRound_head (stack : Nat → UInt8) : RoundHead (firstRound stack) := by
  refine ⟨?_, .inl ⟨rfl, rfl, rfl⟩⟩
  rw [firstRound, length_block]

/-- With memory at hand, and whatever the socket gives in each round: every round starts
with no buffer or with a string shorter than the buffer, and stores inside the buffer. -/
theorem recv_one_line_2_rounds (contents : Nat → Nat → UInt8) (stack : Nat → UInt8) {line : Line}
    (run : Reaches (nextRound (.ample contents)) (firstRound stack) line) :
    RoundHead line ∧ ∀ soc, StoresInside (.ample contents) soc line := by
  have h := run.invariant (firstRound_head stack) fun _ _ _ hs hround => hs.next contents hround
  exact ⟨h, h.storesInside contents⟩

set_option maxRecDepth 8000 in
/-- The round behind a first chunk of one byte. -/
theorem recv_one_line_2_second_round : ∃ line, line.nowLen = 1 ∧ RoundHead line ∧
    ∀ soc, StoresInside (.ample fun _ _ => 0) soc line := by
  have hround : ∃ line, line.nowLen = 1 ∧ nextRound (.ample fun _ _ => 0) (firstRound fun _ => 0)
      { data := [65], broken := false } = some line := ⟨_, rfl, rfl⟩
  obtain ⟨line, hnow, hround⟩ := hround
  exact ⟨line, hnow, recv_one_line_2_rounds _ _ (.tail .refl hround)⟩

end NetworkProgram.Oneline
