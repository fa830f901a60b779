import NetworkProgram.Oneline.Lines
import NetworkProgram.Oneline1.Lines

set_option autoImplicit false

/-!
# Oneline1 and Oneline compared

The event loop against the blocking loop with the fixed buffer, on the stream of
one client.  The blocking loop answers the pieces of up to 19 bytes.  The event
loop does the same, except for a piece that begins with NUL bytes, which it skips,
and for the last piece when the stream ends inside it, where what earlier pieces
left in the row may follow.
-/

namespace NetworkProgram.Oneline1

open NetworkProgram.Libc

def dropNuls (piece : Bytes) : Bytes := piece.dropWhile (· = 0)

/-! ## The lines of the event loop and the pieces -/

theorem linesFrom_of_ne_nil {line : Bytes} (hne : line ≠ [])
    (hlen : line.length < fixedBufferSize - 1) (data : Bytes) :
    linesFrom line data =
      (line ++ (takeLine (fixedBufferSize - 1 - line.length) data).1) ::
        linesFrom [] (takeLine (fixedBufferSize - 1 - line.length) data).2 := by
  induction data generalizing line with
  | nil => rw [takeLine_nil, List.append_nil, linesFrom, if_neg hne, linesFrom, if_pos rfl]
  | cons c data ih =>
      obtain ⟨room, hroom⟩ := Nat.exists_eq_add_of_lt hlen
      have hsub : fixedBufferSize - 1 - line.length = room + 1 := by omega
      rw [linesFrom, if_neg fun h => hne h.1, hsub, takeLine]
      rcases Decidable.em (c = lf) with hc | hc
      · rw [if_pos (.inl hc), if_pos hc]
      · rw [if_neg hc]
        rcases Nat.eq_zero_or_pos room with rfl | hpos
        · rw [if_pos (.inr (by omega))]
          rfl
        · have hlen' : (line ++ [c]).length = line.length + 1 := List.length_append
          have hsub' : fixedBufferSize - 1 - (line ++ [c]).length = room := by omega
          rw [if_neg fun h => h.elim hc fun hfull => by omega,
            ih (List.append_ne_nil_of_right_ne_nil _ (List.cons_ne_nil c [])) (by omega), hsub',
            List.append_assoc, List.singleton_append]

theorem linesFrom_cons {c : UInt8} (hc : c ≠ 0) (data : Bytes) :
    linesFrom [] (c :: data) =
      (takeLine (fixedBufferSize - 1) (c :: data)).1 ::
        linesFrom [] (takeLine (fixedBufferSize - 1) (c :: data)).2 := by
  have htake : takeLine (fixedBufferSize - 1) (c :: data) =
      if c = lf then ([c], data) else (c :: (takeLine 18 data).1, (takeLine 18 data).2) := rfl
  rw [linesFrom, if_neg fun h => hc h.2, htake]
  rcases Decidable.em (c = lf) with hlf | hlf
  · rw [if_pos (.inl hlf), if_pos hlf]
    rfl
  · rw [if_neg fun h => h.elim hlf (by decide), if_neg hlf]
    exact linesFrom_of_ne_nil (List.cons_ne_nil c []) (show 1 < fixedBufferSize - 1 by decide) data

/-- A piece that begins with NUL bytes and ends the line is a line without them. -/
theorem linesFrom_append {piece rest : Bytes} (h : FgetsLine (fixedBufferSize - 1) piece rest)
    (hnul : piece.head? = some 0 → piece.getLast? = some lf ∨ rest = []) :
    linesFrom [] (piece ++ rest) =
      (if dropNuls piece = [] then [] else [dropNuls piece]) ++ linesFrom [] rest := by
  induction piece with
  | nil => exact absurd rfl h.nonempty
  | cons c piece ih =>
      rcases eq_or_ne c 0 with rfl | hc
      · have hskip : linesFrom [] (0 :: (piece ++ rest)) = linesFrom [] (piece ++ rest) :=
          if_pos ⟨rfl, rfl⟩
        have hdrop : dropNuls (0 :: piece) = dropNuls piece := rfl
        rw [List.cons_append, hskip, hdrop]
        rcases eq_or_ne piece [] with rfl | hne
        · rfl
        · have hlast : (0 :: piece).getLast? = piece.getLast? := by
            obtain ⟨d, piece, rfl⟩ := List.exists_cons_of_ne_nil hne
            exact List.getLast?_cons_cons
          have hends := hnul rfl
          rw [hlast] at hends
          refine ih ⟨hne, fun hmem => h.newline ?_, Nat.le_of_succ_le h.length,
            hends.imp id Or.inr⟩ fun _ => hends
          rw [List.dropLast_cons_of_ne_nil hne]
          exact List.mem_cons_of_mem _ hmem
      · have hdrop : dropNuls (c :: piece) = c :: piece :=
          List.dropWhile_cons_of_neg (by simpa using hc)
        rw [hdrop, if_neg (List.cons_ne_nil c piece), List.cons_append, linesFrom_cons hc,
          ← List.cons_append, h.takeLine_eq]
        rfl

/-! ## What shows behind a line -/

theorem rowText_eq (older : List Bytes) {line : Bytes} (hlen : line.length < fixedBufferSize) :
    ∃ rest, rowText older line = visible (line ++ leftover older line.length :: rest) := by
  obtain ⟨n, hn⟩ := Nat.exists_eq_add_of_lt hlen
  have hsub : fixedBufferSize - line.length = n + 1 := by omega
  exact ⟨_, by rw [rowText, hsub, List.range'_succ, List.map_cons]⟩

/-- A line that is visible as a whole ends where the row stops. -/
theorem rowText_eq_iff {older : List Bytes} {line : Bytes} (hlen : line.length < fixedBufferSize)
    (hline : visible line = line) :
    rowText older line = visible line ↔ Stops (leftover older line.length) := by
  obtain ⟨rest, hrest⟩ := rowText_eq older hlen
  rw [hrest, visible_append, if_pos hline, hline, List.append_right_eq_self, visible_cons]
  split
  · rename_i hstop
    exact iff_of_true rfl hstop
  · rename_i hstop
    exact iff_of_false (List.cons_ne_nil _ _) hstop

theorem rowText_of_stop {older : List Bytes} {line : Bytes} (hline : visible line ≠ line) :
    rowText older line = visible line := by
  rw [rowText, visible_append, if_neg hline]

theorem cr_notMem_texts (older lines : List Bytes) : ∀ text ∈ texts older lines, cr ∉ text := by
  induction lines generalizing older with
  | nil => exact nofun
  | cons line lines ih => exact List.forall_mem_cons.mpr ⟨cr_notMem_visible _, ih _⟩

/-- No line reaches the last byte of the row. -/
theorem leftover_last {older : List Bytes}
    (holder : ∀ line ∈ older, line.length ≤ fixedBufferSize - 1) :
    leftover older (fixedBufferSize - 1) = 0 := by
  induction older with
  | nil => rfl
  | cons line older ih =>
      rw [List.forall_mem_cons] at holder
      rw [leftover_of_le holder.1]
      exact ih holder.2

/-! ## Where the two agree -/

/-- Pieces that begin with NUL end their line. -/
def NulsEndLines : List Bytes → Prop
  | [] => True
  | piece :: rest =>
      (piece.head? = some 0 → piece.getLast? = some lf ∨ rest = []) ∧ NulsEndLines rest

/-- A piece that begins with NUL ends its line, and its first other byte is a carriage
return or a line feed.  When the stream ends inside a piece without such a byte,
nothing visible was left in the row behind it. -/
def Harmless : List Bytes → List Bytes → Prop
  | _, [] => True
  | older, piece :: rest =>
      (piece.head? = some 0 → (piece.getLast? = some lf ∨ rest = []) ∧
        ((dropNuls piece).head? = some cr ∨ (dropNuls piece).head? = some lf)) ∧
      (rest = [] → piece.length < fixedBufferSize - 1 → visible piece = piece →
        Stops (leftover older piece.length)) ∧
      Harmless (dropNuls piece :: older) rest

instance decidableHarmless : ∀ older lines, Decidable (Harmless older lines)
  | _, [] => .isTrue trivial
  | older, piece :: rest =>
      have := decidableHarmless (dropNuls piece :: older) rest
      inferInstanceAs (Decidable ((_ → _) ∧ (_ → _ → _ → _) ∧ _))

theorem Harmless.nulsEndLines {older lines : List Bytes} (h : Harmless older lines) :
    NulsEndLines lines := by
  induction lines generalizing older with
  | nil => trivial
  | cons piece rest ih => exact ⟨fun hnul => (h.1 hnul).1, ih h.2.2⟩

theorem head_dropNuls_ne {piece line : Bytes} {c : UInt8} (h : dropNuls piece = c :: line) :
    c ≠ 0 := by
  have hhead := List.head?_dropWhile_not (fun c : UInt8 => decide (c = 0)) piece
  rw [show piece.dropWhile (fun c => decide (c = 0)) = c :: line from h] at hhead
  simpa using hhead

theorem length_dropNuls_le (piece : Bytes) : (dropNuls piece).length ≤ piece.length :=
  (List.dropWhile_suffix _).length_le

/-- One reply agrees. -/
theorem rowText_eq_visible_iff {older : List Bytes} {piece rest : Bytes}
    (holder : ∀ line ∈ older, line.length ≤ fixedBufferSize - 1)
    (h : FgetsLine (fixedBufferSize - 1) piece rest) (hnuls : dropNuls piece ≠ [])
    (hends : piece.head? = some 0 → piece.getLast? = some lf ∨ rest = []) :
    rowText older (dropNuls piece) = visible piece ↔
      (piece.head? = some 0 → (piece.getLast? = some lf ∨ rest = []) ∧
        ((dropNuls piece).head? = some cr ∨ (dropNuls piece).head? = some lf)) ∧
      (rest = [] → piece.length < fixedBufferSize - 1 → visible piece = piece →
        Stops (leftover older piece.length)) := by
  obtain ⟨c, tail, rfl⟩ := List.exists_cons_of_ne_nil h.nonempty
  rcases eq_or_ne c 0 with rfl | hc
  · -- Nothing is visible of the piece, so the line must begin with an end of line.
    have hempty : visible (0 :: tail) = [] := by rw [visible_cons, if_pos (.inl rfl)]
    obtain ⟨d, line, hline⟩ := List.exists_cons_of_ne_nil hnuls
    have hd : d ≠ 0 := head_dropNuls_ne hline
    have hreply : rowText older (d :: line) = [] ↔ Stops d := by
      rw [rowText, List.cons_append, visible_cons]
      split
      · exact iff_of_true rfl ‹_›
      · exact iff_of_false (List.cons_ne_nil _ _) ‹_›
    have hstops : Stops d ↔ d = cr ∨ d = lf := or_iff_right hd
    rw [hempty, hline, hreply, hstops]
    constructor
    · intro hend
      refine ⟨fun hnul => ⟨hends hnul, hend.imp ?_ ?_⟩, fun _ _ habs => absurd habs.symm nofun⟩
      · exact congrArg some
      · exact congrArg some
    · rintro ⟨hhead, -⟩
      exact (hhead rfl).2.imp Option.some.inj Option.some.inj
  · have hdrop : dropNuls (c :: tail) = c :: tail :=
      List.dropWhile_cons_of_neg (by simpa using hc)
    have hlen : (c :: tail).length < fixedBufferSize := by
      have hle := h.length
      have hsize : fixedBufferSize = 20 := rfl
      omega
    have hnohead : (c :: tail).head? ≠ some 0 := fun hnul => hc (Option.some.inj hnul)
    rw [hdrop]
    by_cases hwhole : visible (c :: tail) = c :: tail
    · rw [rowText_eq_iff hlen hwhole]
      constructor
      · exact fun hstop => ⟨fun hnul => absurd hnul hnohead, fun _ _ _ => hstop⟩
      · rintro ⟨-, hshort⟩
        rcases h.length.lt_or_eq with hlt | hfull
        · rcases h.ends with hlast | hfull | hrest
          · have hmem := List.mem_of_getLast? hlast
            rw [← hwhole] at hmem
            exact absurd hmem (lf_notMem_visible _)
          · exact absurd hfull hlt.ne
          · exact hshort hrest hlt hwhole
        · rw [hfull, leftover_last holder]
          exact .inl rfl
    · rw [rowText_of_stop hwhole]
      exact iff_of_true rfl ⟨fun hnul => absurd hnul hnohead, fun _ _ habs => absurd habs hwhole⟩

theorem pieces_eq_nil_iff {n : Nat} (hn : 0 < n) {data : Bytes} :
    pieces n data = [] ↔ data = [] := by
  refine ⟨fun h => ?_, fun h => h ▸ pieces_nil n⟩
  by_contra hne
  rw [pieces_eq hn hne] at h
  cases h

/-- A piece of NUL bytes. -/
theorem nul_piece {piece : Bytes} (hne : piece ≠ []) (h : dropNuls piece = []) :
    piece.head? = some 0 ∧ piece.getLast? ≠ some lf := by
  have hall : ∀ c ∈ piece, c = 0 := by simpa [dropNuls] using h
  obtain ⟨c, tail, rfl⟩ := List.exists_cons_of_ne_nil hne
  refine ⟨congrArg some (hall c List.mem_cons_self), fun hlast => ?_⟩
  exact absurd (hall lf (List.mem_of_getLast? hlast)) (by decide)

/-- The replies agree, piece by piece, where the pieces are harmless. -/
theorem texts_eq_iff {older : List Bytes}
    (holder : ∀ line ∈ older, line.length ≤ fixedBufferSize - 1) {data : Bytes}
    (hnuls : NulsEndLines (pieces (fixedBufferSize - 1) data)) :
    texts older (linesFrom [] data) = (pieces (fixedBufferSize - 1) data).map visible ↔
      Harmless older (pieces (fixedBufferSize - 1) data) := by
  induction hlen : data.length using Nat.strongRecOn generalizing older data with
  | ind len ih =>
      rcases eq_or_ne data [] with rfl | hne
      · exact iff_of_true rfl trivial
      · have hline := takeLine_fgetsLine (n := fixedBufferSize - 1) (by decide) hne
        have happend := takeLine_append (fixedBufferSize - 1) data
        have hshort := takeLine_shorter (n := fixedBufferSize - 1) (by decide) hne
        rw [pieces_eq (by decide) hne] at hnuls ⊢
        generalize (takeLine (fixedBufferSize - 1) data).1 = piece at *
        generalize (takeLine (fixedBufferSize - 1) data).2 = rest at *
        subst happend
        obtain ⟨hends, hrest⟩ := hnuls
        rw [pieces_eq_nil_iff (by decide)] at hends
        rw [linesFrom_append hline hends, Harmless, pieces_eq_nil_iff (by decide)]
        by_cases hempty : dropNuls piece = []
        · -- Only NUL bytes up to the end of the stream: the event loop does not answer.
          obtain ⟨hhead, hnolf⟩ := nul_piece hline.nonempty hempty
          have hnil : rest = [] := (hends hhead).resolve_left hnolf
          refine iff_of_false ?_ ?_
          · rw [if_pos hempty, hnil]
            exact fun habs => by cases habs
          · rintro ⟨hnul, -⟩
            have hcr := (hnul hhead).2
            rw [hempty] at hcr
            exact hcr.elim nofun nofun
        · have holder' : ∀ line ∈ dropNuls piece :: older, line.length ≤ fixedBufferSize - 1 :=
            List.forall_mem_cons.mpr ⟨(length_dropNuls_le piece).trans hline.length, holder⟩
          rw [if_neg hempty, List.singleton_append, texts, List.map_cons, List.cons.injEq,
            rowText_eq_visible_iff holder hline hempty hends,
            ih _ (hlen ▸ hshort) holder' hrest rfl, and_assoc]

/-! ## The two servers -/

/-- The event loop, called for every byte of a client's stream and for its end, sends the
same bytes as the blocking loop where the pieces of the stream are harmless; and
nowhere else, as long as pieces that begin with NUL end their line. -/
theorem event_loop_agrees (buf buf2 : Nat → UInt8) (data : Bytes) :
    let agrees := (serve .zero (events data)).flatten =
      (Oneline.sendRecvLoop1 { data := data, broken := false } (fun _ => true)
        (block buf Oneline.fixedBufferSize) (block buf2 512)).flatten
    let split := pieces (fixedBufferSize - 1) data
    (Harmless [] split → agrees) ∧ (NulsEndLines split → (agrees ↔ Harmless [] split)) := by
  intro agrees split
  have hiff : NulsEndLines split → (agrees ↔ Harmless [] split) := by
    intro hnuls
    have hloop := Oneline.sendRecvLoop1_eq (length_block buf Oneline.fixedBufferSize)
      (length_block buf2 512) data
    have holder : ∀ line ∈ ([] : List Bytes), line.length ≤ fixedBufferSize - 1 := nofun
    have hsent : agrees ↔ (serve .zero (events data)).flatten =
        ((split.map visible).map okReply).flatten := by
      rw [← map_okReply_visible]
      exact Eq.congr rfl (congrArg List.flatten hloop)
    rw [hsent, serve_eq rowHolds_zero,
      flatten_okReply_inj (cr_notMem_texts _ _) (cr_notMem_map_visible _)]
    exact texts_eq_iff holder hnuls
  exact ⟨fun h => (hiff h.nulsEndLines).mpr h, hiff⟩

/-- A line that begins with NUL, and a last line with nothing visible behind it. -/
theorem event_loop_agrees_nul :
    (serve .zero (events [97, 98, lf, 0, cr, lf, 99])).flatten =
      (Oneline.sendRecvLoop1 { data := [97, 98, lf, 0, cr, lf, 99], broken := false }
        (fun _ => true) (block (fun _ => 7) Oneline.fixedBufferSize)
        (block (fun _ => 7) 512)).flatten :=
  (event_loop_agrees (fun _ => 7) (fun _ => 7) [97, 98, lf, 0, cr, lf, 99]).1 (by decide)

/-- For `"abc\n"` and a `"z"` without its newline the blocking loop sends `"z:OK"` last and
the event loop `"zbc:OK"`. -/
theorem leftover_sent :
    serve .zero (events [97, 98, 99, lf, 122]) = [okReply [97, 98, 99], okReply [122, 98, 99]] ∧
      Oneline.sendRecvLoop1 { data := [97, 98, 99, lf, 122], broken := false } (fun _ => true)
          (block (fun _ => 7) Oneline.fixedBufferSize) (block (fun _ => 7) 512) =
        [okReply [97, 98, 99], okReply [122]] ∧
      (serve .zero (events [97, 98, 99, lf, 122])).flatten ≠
        (Oneline.sendRecvLoop1 { data := [97, 98, 99, lf, 122], broken := false } (fun _ => true)
          (block (fun _ => 7) Oneline.fixedBufferSize) (block (fun _ => 7) 512)).flatten := by
  refine ⟨?_, ?_, ?_⟩ <;> decide +kernel

end NetworkProgram.Oneline1
