import Mathlib.Data.List.Forall2
import Mathlib.Tactic.IntervalCases
import NetworkProgram.Libc.Input
import NetworkProgram.Echo.SendRecv

set_option autoImplicit false

/-!
# Echo: replies and segments

`send_recv` makes one reply for what one `recv` returns, so the replies depend on
how TCP cuts the stream of the client.  This module says exactly when two ways of
cutting it give the same replies.
-/

namespace NetworkProgram.Echo

open NetworkProgram.Libc

/-- One `recv` of 1 to 511 bytes. -/
structure Segment where
  stack : Stack
  chunk : Chunk
  short : chunk.bytes.length < bufSize

/-- A segment over a zeroed stack. -/
def Segment.plain (bytes : Bytes) (nonempty : bytes ≠ []) (short : bytes.length < bufSize) :
    Segment where
  stack := (Answer.plain .eof true).stack
  chunk := { bytes := bytes, nonempty := nonempty, fits := short.le }
  short := short

/-- The call of `send_recv` that receives the segment and sends its reply. -/
def Segment.answer (g : Segment) : Answer where
  stack := g.stack
  received := .data g.chunk
  delivered := true

/-- The bytes the client sent. -/
def stream (gs : List Segment) : Bytes := gs.flatMap fun g => g.chunk.bytes

/-- The bytes the server sends back. -/
def replies (gs : List Segment) : Bytes := (gs.flatMap fun g => (sendRecv g.answer).sent).flatten

/-- What a segment shows before its first NUL, CR or LF. -/
def Segment.text (g : Segment) : Bytes := visible g.chunk.bytes

/-- `v` fills the buffer, and behind `u` is what of `":OK"` fits there. -/
def Fills (u v : Bytes) : Prop :=
  508 ≤ u.length ∧ v = u ++ (ascii [':', 'O', 'K']).take (511 - u.length)

/-- The two texts get the same reply. -/
def SameText (u v : Bytes) : Prop := u = v ∨ Fills u v ∨ Fills v u

theorem replies_eq (gs : List Segment) :
    replies gs = (gs.map fun g => echo g.chunk.bytes).flatten := by
  unfold replies
  induction gs with
  | nil => rfl
  | cons g gs ih =>
      rw [List.flatMap_cons, List.flatten_append, List.map_cons, List.flatten_cons, ih,
        Segment.answer, sendRecv_data g.stack g.short]
      simp

theorem Segment.length_text_le (g : Segment) : g.text.length ≤ bufSize - 1 :=
  (length_visible_le _).trans (Nat.le_sub_one_of_lt g.short)

/-! ## Where a reply ends -/

theorem okReply_eq (text : Bytes) :
    okReply text = (text ++ ascii [':', 'O', 'K', '\r']) ++ [lf] := by
  rw [okReply, okTail, List.append_assoc]
  rfl

/-- A reply ends at its newline, or where the buffer ends. -/
theorem echo_fgetsLine {m : Bytes} (rest : Bytes) :
    FgetsLine (bufSize - 1) (echo m) rest := by
  have hlf : lf ∉ visible m ++ ascii [':', 'O', 'K', '\r'] := by
    rw [List.mem_append, not_or]
    exact ⟨lf_notMem_visible m, by decide⟩
  have hsplit := okReply_eq (visible m)
  unfold echo
  generalize hline : visible m ++ ascii [':', 'O', 'K', '\r'] = line at hlf hsplit
  have hpos : 0 < line.length := by
    rw [← hline, List.length_append]
    exact Nat.lt_of_lt_of_le (by decide) (Nat.le_add_left _ _)
  rw [hsplit]
  rcases Nat.lt_or_ge line.length (bufSize - 1) with hlt | hge
  · rw [List.take_of_length_le (by rw [List.length_append, List.length_singleton]; omega)]
    refine ⟨by simp, by simpa using hlf, ?_, .inl (by simp)⟩
    rw [List.length_append, List.length_singleton]
    omega
  · rw [List.take_append_of_le_length hge]
    have hlen : (line.take (bufSize - 1)).length = bufSize - 1 := List.length_take_of_le hge
    refine ⟨?_, ?_, hlen.le, .inr (.inl hlen)⟩
    · intro hnil
      rw [hnil] at hlen
      cases hlen
    · intro hmem
      exact hlf (List.mem_of_mem_take (List.dropLast_subset _ hmem))

/-! ## When two texts get the same reply -/

/-- Text without a carriage return that a reply puts behind a shorter text. -/
theorem okTail_take_eq {w : Bytes} {room : Nat} (hcr : cr ∉ w) (hw : w.length ≤ room)
    (h : okTail.take room = (w ++ okTail).take room) :
    w = [] ∨ (room ≤ 3 ∧ w = (ascii [':', 'O', 'K']).take room) := by
  have hstart : w = okTail.take w.length := by
    have hcut := congrArg (List.take w.length) h
    rw [List.take_take, List.take_take, Nat.min_eq_left hw, List.take_left] at hcut
    exact hcut.symm
  have hshort : w.length ≤ 3 := by
    by_contra hlong
    refine hcr ?_
    rw [hstart]
    have hget : okTail[3]? = some cr := by decide
    have hin : (okTail.take w.length)[3]? = some cr := by
      rw [List.getElem?_take_of_lt (by omega), hget]
    exact List.mem_of_getElem? hin
  have hok : okTail.take w.length = (ascii [':', 'O', 'K']).take w.length := by
    change (ascii [':', 'O', 'K'] ++ [cr, lf]).take w.length = _
    exact List.take_append_of_le_length hshort
  rcases Nat.eq_zero_or_pos w.length with hzero | hpos
  · exact .inl (List.length_eq_zero_iff.mp hzero)
  rcases Nat.eq_or_lt_of_le hw with heq | hlt
  · right
    rw [← heq]
    exact ⟨hshort, hstart.trans hok⟩
  · -- Behind `w` the one reply goes on with a colon, the other does not.
    exfalso
    have hget : (okTail.take room)[w.length]? = ((w ++ okTail).take room)[w.length]? := by rw [h]
    rw [List.getElem?_take_of_lt hlt, List.getElem?_take_of_lt hlt,
      List.getElem?_append_right (Nat.le_refl _), Nat.sub_self] at hget
    generalize w.length = n at hshort hpos hget
    interval_cases n <;> revert hget <;> decide

/-- One direction, for a text and a longer one. -/
theorem sameText_of_le {u v : Bytes} (hv : cr ∉ v) (hle : u.length ≤ v.length)
    (hroom : v.length ≤ bufSize - 1)
    (h : (okReply u).take (bufSize - 1) = (okReply v).take (bufSize - 1)) :
    u = v ∨ Fills u v := by
  have hu : u = v.take u.length := by
    have hcut := congrArg (List.take u.length) h
    rw [List.take_take, List.take_take, Nat.min_eq_left (hle.trans hroom), okReply, okReply,
      List.take_left, List.take_append_of_le_length hle] at hcut
    exact hcut
  obtain ⟨w, rfl⟩ : ∃ w, v = u ++ w := ⟨v.drop u.length, by
    conv_lhs => rw [← List.take_append_drop u.length v, ← hu]⟩
  rw [List.length_append] at hroom
  have htails : okTail.take (bufSize - 1 - u.length) =
      (w ++ okTail).take (bufSize - 1 - u.length) := by
    rw [okReply, okReply, List.append_assoc, List.take_append, List.take_append] at h
    exact List.append_cancel_left h
  have hcr : cr ∉ w := fun hmem => hv (List.mem_append_right u hmem)
  rcases okTail_take_eq hcr (by omega) htails with rfl | ⟨hfew, hw⟩
  · exact .inl (List.append_nil u).symm
  · refine .inr ⟨?_, congrArg (u ++ ·) hw⟩
    have hbuf : bufSize = 512 := rfl
    omega

/-- The other direction. -/
theorem Fills.reply_eq {u v : Bytes} (h : Fills u v) (hroom : u.length ≤ bufSize - 1) :
    (okReply u).take (bufSize - 1) = (okReply v).take (bufSize - 1) := by
  obtain ⟨hlong, rfl⟩ := h
  have hbuf : bufSize = 512 := rfl
  have hfew : 511 - u.length ≤ (ascii [':', 'O', 'K']).length := by
    change 511 - u.length ≤ 3
    omega
  have htail : okTail.take (511 - u.length) = (ascii [':', 'O', 'K']).take (511 - u.length) := by
    change (ascii [':', 'O', 'K'] ++ [cr, lf]).take _ = _
    exact List.take_append_of_le_length hfew
  have hlen : (u ++ (ascii [':', 'O', 'K']).take (511 - u.length)).length = bufSize - 1 := by
    rw [List.length_append, List.length_take_of_le hfew]
    omega
  rw [okReply, okReply, List.take_append_of_le_length hlen.ge, List.take_of_length_le hlen.le,
    List.take_append, List.take_of_length_le hroom]
  exact congrArg (u ++ ·) htail

theorem echo_eq_iff {m n : Bytes} (hu : (visible m).length ≤ bufSize - 1)
    (hv : (visible n).length ≤ bufSize - 1) :
    echo m = echo n ↔ SameText (visible m) (visible n) := by
  constructor
  · intro h
    rcases Nat.le_total (visible m).length (visible n).length with hle | hle
    · exact (sameText_of_le (cr_notMem_visible n) hle hv h).imp id .inl
    · exact (sameText_of_le (cr_notMem_visible m) hle hu h.symm).imp Eq.symm .inr
  · rintro (heq | hfills | hfills)
    · rw [echo, echo, heq]
    · exact hfills.reply_eq hu
    · exact (hfills.reply_eq hv).symm

/-! ## When two segmentations get the same replies -/

theorem fgetsLine_of_mem_map {ms : List Bytes} :
    ∀ a ∈ ms.map echo, ∀ rest, FgetsLine (bufSize - 1) a rest := by
  intro a ha rest
  obtain ⟨m, -, rfl⟩ := List.mem_map.mp ha
  exact echo_fgetsLine rest

/-- The replies can be read off their bytes. -/
theorem replies_eq_flatten_iff (gs : List Segment) (ms : List Bytes) :
    replies gs = (ms.map echo).flatten ↔ (gs.map fun g => echo g.chunk.bytes) = ms.map echo := by
  have hmap : (gs.map fun g => echo g.chunk.bytes) = (gs.map fun g => g.chunk.bytes).map echo := by
    rw [List.map_map]
    rfl
  rw [replies_eq, hmap]
  exact flatten_fgetsLine_inj fgetsLine_of_mem_map fgetsLine_of_mem_map

theorem map_eq_map_iff_forall₂ {α β γ : Type} {f : α → γ} {g : β → γ} {as : List α}
    {bs : List β} : as.map f = bs.map g ↔ List.Forall₂ (fun a b => f a = g b) as bs := by
  rw [← List.forall₂_eq_eq_eq, List.forall₂_map_left_iff, List.forall₂_map_right_iff]

theorem forall₂_sameText_iff (gs gs' : List Segment) :
    replies gs = replies gs' ↔ List.Forall₂ (fun g g' => SameText g.text g'.text) gs gs' := by
  have hmap : replies gs' = ((gs'.map fun g => g.chunk.bytes).map echo).flatten := by
    rw [replies_eq, List.map_map]
    rfl
  rw [hmap, replies_eq_flatten_iff, List.map_map, map_eq_map_iff_forall₂]
  constructor
  · exact List.Forall₂.imp fun g g' h => (echo_eq_iff g.length_text_le g'.length_text_le).mp h
  · exact List.Forall₂.imp fun g g' h => (echo_eq_iff g.length_text_le g'.length_text_le).mpr h

/-! ## One reply for each line -/

/-- The replies when each line is received by itself and has room for all of its reply. -/
def lineReplies (input : Bytes) : Bytes :=
  ((linesOf input).map fun line => okReply (visible line)).flatten

theorem echo_eq_okReply {m : Bytes} (h : (visible m).length ≤ 506) :
    echo m = okReply (visible m) := by
  refine List.take_of_length_le ?_
  rw [okReply, List.length_append]
  exact Nat.add_le_add_right h 5

theorem sameText_iff_eq {u v : Bytes} (hu : u.length ≤ 511) (hv : v.length ≤ 506) :
    SameText u v ↔ u = v := by
  refine ⟨?_, .inl⟩
  rintro (heq | ⟨hlong, rfl⟩ | ⟨hlong, -⟩)
  · exact heq
  · rw [List.length_append] at hv
    omega
  · omega

theorem forall₂_congr_of_mem {α β : Type} {R S : α → β → Prop} {as : List α} {bs : List β}
    (h : ∀ b ∈ bs, ∀ a, R a b ↔ S a b) : List.Forall₂ R as bs ↔ List.Forall₂ S as bs := by
  induction bs generalizing as with
  | nil => rw [List.forall₂_nil_right_iff, List.forall₂_nil_right_iff]
  | cons b bs ih =>
      rw [List.forall_mem_cons] at h
      cases as with
      | nil => rw [List.forall₂_nil_left_iff, List.forall₂_nil_left_iff]
      | cons a as => rw [List.forall₂_cons, List.forall₂_cons, h.1 a, ih h.2]

theorem lineReplies_iff (gs : List Segment)
    (hroom : ∀ line ∈ linesOf (stream gs), (visible line).length ≤ 506) :
    replies gs = lineReplies (stream gs) ↔
      gs.map Segment.text = (linesOf (stream gs)).map visible := by
  have hlines : lineReplies (stream gs) = ((linesOf (stream gs)).map echo).flatten := by
    unfold lineReplies
    congr 1
    exact List.map_congr_left fun line hline => (echo_eq_okReply (hroom line hline)).symm
  rw [hlines, replies_eq_flatten_iff, map_eq_map_iff_forall₂, map_eq_map_iff_forall₂]
  refine forall₂_congr_of_mem fun line hline g => ?_
  have hfits := hroom line hline
  rw [echo_eq_iff g.length_text_le (hfits.trans (by decide))]
  exact sameText_iff_eq g.length_text_le hfits

/-! ## Lines of any length -/

/-- A text cut into blocks that fill the buffer, and what is left behind them. -/
def blocks (text : Bytes) : List Bytes :=
  if text.length < bufSize - 1 then [text]
  else text.take (bufSize - 1) :: blocks (text.drop (bufSize - 1))
termination_by text.length
decreasing_by
  have hbuf : bufSize = 512 := rfl
  rw [List.length_drop]
  omega

/-- What is left behind the blocks has room for all of its reply. -/
def RestFits (text : Bytes) : Prop := text.length % (bufSize - 1) ≤ 506

theorem restFits_of_lt {text : Bytes} (h : text.length < bufSize - 1) :
    RestFits text ↔ text.length ≤ 506 := by
  rw [RestFits, Nat.mod_eq_of_lt h]

theorem restFits_drop {text : Bytes} (h : ¬ text.length < bufSize - 1) :
    RestFits (text.drop (bufSize - 1)) ↔ RestFits text := by
  rw [RestFits, RestFits, List.length_drop, ← Nat.mod_eq_sub_mod (Nat.le_of_not_lt h)]

theorem mem_blocks {text u : Bytes} (hu : u ∈ blocks text) :
    u.length ≤ bufSize - 1 ∧ ∀ c ∈ u, c ∈ text := by
  induction text using blocks.induct with
  | case1 text hlt =>
      rw [blocks, if_pos hlt, List.mem_singleton] at hu
      subst hu
      exact ⟨hlt.le, fun c hc => hc⟩
  | case2 text hge ih =>
      rw [blocks, if_neg hge] at hu
      rcases List.mem_cons.mp hu with rfl | hu
      · exact ⟨List.length_take_le _ _, fun c hc => List.mem_of_mem_take hc⟩
      · obtain ⟨hlen, hmem⟩ := ih hu
        exact ⟨hlen, fun c hc => List.mem_of_mem_drop (hmem c hc)⟩

theorem okReply_take {text : Bytes} (h : ¬ text.length < bufSize - 1) :
    (okReply text).take (bufSize - 1) = text.take (bufSize - 1) :=
  List.take_append_of_le_length (Nat.le_of_not_lt h)

theorem okReply_drop {text : Bytes} (h : ¬ text.length < bufSize - 1) :
    (okReply text).drop (bufSize - 1) = okReply (text.drop (bufSize - 1)) :=
  List.drop_append_of_le_length (Nat.le_of_not_lt h)

/-- The replies to the blocks make the reply to the line. -/
theorem okReply_blocks {text : Bytes} (h : RestFits text) :
    ((blocks text).map fun u => (okReply u).take (bufSize - 1)).flatten = okReply text := by
  induction text using blocks.induct with
  | case1 text hlt =>
      rw [restFits_of_lt hlt] at h
      rw [blocks, if_pos hlt, List.map_singleton, List.flatten_singleton]
      refine List.take_of_length_le ?_
      rw [okReply, List.length_append]
      exact Nat.add_le_add_right h 5
  | case2 text hge ih =>
      have hfull : ¬ (text.take (bufSize - 1)).length < bufSize - 1 := by
        rw [List.length_take_of_le (Nat.le_of_not_lt hge)]
        exact Nat.lt_irrefl _
      rw [blocks, if_neg hge, List.map_cons, List.flatten_cons, ih ((restFits_drop hge).mpr h),
        okReply_take hfull, List.take_take, Nat.min_self, ← okReply_take hge, ← okReply_drop hge,
        List.take_append_drop]

/-- No reply begins with what is cut off at the end of another. -/
theorem flatten_echo_ne {k : Nat} (hpos : 1 ≤ k) (hk : k ≤ 4) (ms : List Bytes) (rest : Bytes) :
    (ms.map echo).flatten ≠ okTail.drop k ++ rest := by
  intro h
  cases ms with
  | nil =>
      have hnil := (List.append_eq_nil_iff.mp h.symm).1
      interval_cases k <;> cases hnil
  | cons m ms =>
      rw [List.map_cons, List.flatten_cons, echo, okReply] at h
      have hcr := cr_notMem_visible m
      have hlf := lf_notMem_visible m
      -- The reply has a colon behind its text, and no line end in front of it.
      generalize visible m = text at h hcr hlf
      have htake : ∀ (c : UInt8) (l : Bytes) (n : Nat), (c :: l).take (n + 1) = c :: l.take n :=
        fun _ _ _ => rfl
      rcases text with _ | ⟨a, _ | ⟨b, _ | ⟨c, text⟩⟩⟩ <;> interval_cases k <;>
        simp [okTail, ascii, bufSize, htake, cr, lf] at h hcr hlf <;> grind

theorem visible_visible (buf : Bytes) : visible (visible buf) = visible buf :=
  List.takeWhile_idem

/-- If replies make a line's reply and what follows it, the first one is as much of it as fits
in the buffer. -/
theorem flatten_echo_drop {ms : List Bytes} {text rest : Bytes} (htext : visible text = text)
    (h : (ms.map echo).flatten = okReply text ++ rest) :
    ∃ ms' : List Bytes, (ms'.map echo).flatten = (okReply text).drop (bufSize - 1) ++ rest := by
  cases ms with
  | nil =>
      have hnil := (List.append_eq_nil_iff.mp (List.append_eq_nil_iff.mp h.symm).1).2
      cases hnil
  | cons m ms =>
      have hfirst : okReply text = echo text ++ (okReply text).drop (bufSize - 1) := by
        rw [echo, htext, List.take_append_drop]
      rw [List.map_cons, List.flatten_cons, hfirst, List.append_assoc] at h
      have hsplit := (echo_fgetsLine (m := m) (ms.map echo).flatten).takeLine_eq
      rw [h, (echo_fgetsLine _).takeLine_eq, Prod.mk.injEq] at hsplit
      exact ⟨ms, hsplit.2.symm⟩

/-- If replies make a line's reply and what follows it, the rest of the line fits. -/
theorem restFits_of_flatten {ms : List Bytes} {text rest : Bytes} (htext : visible text = text)
    (h : (ms.map echo).flatten = okReply text ++ rest) :
    RestFits text ∧ ∃ ms' : List Bytes, (ms'.map echo).flatten = rest := by
  induction text using blocks.induct generalizing ms with
  | case1 text hlt =>
      obtain ⟨ms', hrest⟩ := flatten_echo_drop htext h
      rw [okReply, List.drop_append, List.drop_of_length_le hlt.le, List.nil_append] at hrest
      rw [restFits_of_lt hlt]
      rcases Nat.lt_or_ge 506 text.length with hlong | hshort
      · have hbuf : bufSize = 512 := rfl
        exact absurd hrest (flatten_echo_ne (by omega) (by omega) ms' rest)
      · refine ⟨hshort, ms', ?_⟩
        have htail : okTail.drop (bufSize - 1 - text.length) = [] := by
          refine List.drop_of_length_le ?_
          have hbuf : bufSize = 512 := rfl
          change 5 ≤ _
          omega
        rw [hrest, htail, List.nil_append]
  | case2 text hge ih =>
      obtain ⟨ms', hrest⟩ := flatten_echo_drop htext h
      rw [okReply_drop hge] at hrest
      rw [← restFits_drop hge]
      refine ih (visible_eq_self fun c hc => ?_) hrest
      rw [← htext] at hc
      simpa using List.mem_takeWhile_imp (List.mem_of_mem_drop hc)

theorem restFits_of_replies {ms lines : List Bytes}
    (h : (ms.map echo).flatten = (lines.map fun line => okReply (visible line)).flatten) :
    ∀ line ∈ lines, RestFits (visible line) := by
  induction lines generalizing ms with
  | nil => exact List.forall_mem_nil _
  | cons line lines ih =>
      rw [List.map_cons, List.flatten_cons] at h
      obtain ⟨hfits, ms', hrest⟩ := restFits_of_flatten (visible_visible line) h
      exact List.forall_mem_cons.mpr ⟨hfits, ih hrest⟩

theorem flatten_okReply_blocks {lines : List Bytes}
    (h : ∀ line ∈ lines, RestFits (visible line)) :
    (lines.map fun line => okReply (visible line)).flatten =
      (((lines.map visible).flatMap blocks).map fun u =>
        (okReply u).take (bufSize - 1)).flatten := by
  induction lines with
  | nil => rfl
  | cons line lines ih =>
      rw [List.forall_mem_cons] at h
      rw [List.map_cons, List.flatten_cons, ih h.2, List.map_cons, List.flatMap_cons,
        List.map_append, List.flatten_append, okReply_blocks h.1]

/-- Lines of any length: each gets all of its reply if and only if its rest has room for it and
the texts of the segments are the blocks of the lines. -/
theorem lineReplies_iff_blocks (gs : List Segment) :
    replies gs = lineReplies (stream gs) ↔
      (∀ line ∈ linesOf (stream gs), RestFits (visible line)) ∧
        List.Forall₂ (fun g u => SameText g.text u) gs
          (((linesOf (stream gs)).map visible).flatMap blocks) := by
  rw [← and_iff_right_of_imp (a := ∀ line ∈ linesOf (stream gs), RestFits (visible line))
    (b := replies gs = lineReplies (stream gs))]
  · refine and_congr_right fun hfits => ?_
    have hblocks : ∀ u ∈ ((linesOf (stream gs)).map visible).flatMap blocks,
        u.length ≤ bufSize - 1 ∧ visible u = u := by
      intro u hu
      obtain ⟨text, htext, hu⟩ := List.mem_flatMap.mp hu
      obtain ⟨line, -, rfl⟩ := List.mem_map.mp htext
      obtain ⟨hlen, hmem⟩ := mem_blocks hu
      refine ⟨hlen, visible_eq_self fun c hc => ?_⟩
      simpa using List.mem_takeWhile_imp (hmem c hc)
    have hecho : (((linesOf (stream gs)).map visible).flatMap blocks).map
        (fun u => (okReply u).take (bufSize - 1)) =
          (((linesOf (stream gs)).map visible).flatMap blocks).map echo :=
      List.map_congr_left fun u hu => by rw [echo, (hblocks u hu).2]
    rw [lineReplies, flatten_okReply_blocks hfits, hecho, replies_eq_flatten_iff,
      map_eq_map_iff_forall₂]
    refine forall₂_congr_of_mem fun u hu g => ?_
    obtain ⟨hlen, hself⟩ := hblocks u hu
    rw [echo_eq_iff g.length_text_le (by rw [hself]; exact hlen), hself]
    exact Iff.rfl
  · intro h
    have hmap : replies gs = ((gs.map fun g => g.chunk.bytes).map echo).flatten := by
      rw [replies_eq, List.map_map]
      rfl
    exact restFits_of_replies (hmap.symm.trans h)

/-- The replies of two segmentations are the same if and only if they have as many
segments with the same texts; and there is one reply for each line if and only if
the texts of the segments are those of the lines.  Where lines are too long for that, they are
answered block by block or not at all. -/
theorem replies_segmentation (as bs : List Segment) :
    (replies as = replies bs ↔ List.Forall₂ (fun g g' => SameText g.text g'.text) as bs) ∧
    ((∀ line ∈ linesOf (stream as), (visible line).length ≤ 506) →
      (replies as = lineReplies (stream as) ↔
        as.map Segment.text = (linesOf (stream as)).map visible)) ∧
    (replies as = lineReplies (stream as) ↔
      (∀ line ∈ linesOf (stream as), RestFits (visible line)) ∧
        List.Forall₂ (fun g u => SameText g.text u) as
          (((linesOf (stream as)).map visible).flatMap blocks)) :=
  ⟨forall₂_sameText_iff as bs, lineReplies_iff as, lineReplies_iff_blocks as⟩

/-- Two lines received one by one. -/
theorem replies_segmentation_lines :
    replies [.plain [97, lf] (by decide) (by decide), .plain [98, lf] (by decide) (by decide)] =
      lineReplies [97, lf, 98, lf] := by
  refine ((replies_segmentation _ []).2.1 ?_).mpr (by decide)
  decide

/-- Two lines in one segment get one reply. -/
theorem replies_two_lines :
    ¬ ∀ as bs : List Segment, stream as = stream bs → replies as = replies bs := by
  intro h
  have hsame := h [.plain [97, lf, 98, lf] (by decide) (by decide)]
    [.plain [97, lf] (by decide) (by decide), .plain [98, lf] (by decide) (by decide)] rfl
  rw [replies_eq, replies_eq] at hsame
  revert hsame
  decide

end NetworkProgram.Echo
