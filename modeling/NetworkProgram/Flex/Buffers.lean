import NetworkProgram.Flex.Matching

set_option autoImplicit false

/-!
# Flex: the buffer

The parts of `yy_get_next_buffer`: the text that was begun is moved to the front, the
buffer grows if the text fills it, and what is read is put behind the text with two bytes
that end it.
-/

namespace NetworkProgram.Flex

open NetworkProgram.Foundation
open NetworkProgram.Libc

theorem store_eq {buf : Bytes} {i : Nat} (h : i < buf.length) (c : UInt8) :
    store buf i c = some (buf.set i c) := if_pos h

/-- The copy goes upwards, so that no byte is overwritten before it is read. -/
theorem copyDown_eq {n dest source : Nat} {buf : Bytes} (hle : dest ≤ source)
    (hlen : source + n ≤ buf.length) :
    ∃ buf', copyDown n dest source buf = some buf' ∧ buf'.length = buf.length ∧
      buf'.take (dest + n) = buf.take dest ++ (buf.drop source).take n := by
  induction n generalizing dest source buf with
  | zero => exact ⟨buf, rfl, rfl, by rw [Nat.add_zero, List.take_zero, List.append_nil]⟩
  | succ n ih =>
      have hsource : source < buf.length := by omega
      obtain ⟨buf', hcopy, hlen', htake⟩ :=
        @ih (dest + 1) (source + 1) (buf.set dest buf[source]) (by omega)
          (by rw [List.length_set]; omega)
      refine ⟨buf', ?_, hlen'.trans (List.length_set ..), ?_⟩
      · simp only [copyDown, List.getElem?_eq_getElem hsource, Option.bind_eq_bind,
          Option.bind_some, store_eq (show dest < buf.length by omega)]
        exact hcopy
      · have hset :
            (buf.set dest buf[source]).take (dest + 1) = buf.take dest ++ [buf[source]] := by
          rw [List.take_add_one, List.take_set_of_le (Nat.le_refl _)]
          simp [show dest < buf.length by omega]
        rw [← Nat.add_assoc, Nat.add_right_comm, htake, hset,
          List.drop_set_of_lt (by omega), List.append_assoc, List.drop_eq_getElem_cons hsource]
        rfl

/-! ## What is read -/

theorem getcLine_rest (n : Nat) (input : Bytes) :
    (getcLine n input).1.length ≤ n ∧ (getcLine n input).1 <+: input := by
  induction n generalizing input with
  | zero => exact ⟨Nat.le_refl 0, List.nil_prefix⟩
  | succ n ih =>
      cases input with
      | nil => exact ⟨Nat.zero_le _, List.nil_prefix⟩
      | cons c input =>
          rw [getcLine]
          split
          · exact ⟨Nat.succ_le_succ (Nat.zero_le n), ⟨input, rfl⟩⟩
          · exact ⟨Nat.succ_le_succ (ih input).1, List.cons_prefix_cons.mpr ⟨rfl, (ih input).2⟩⟩

theorem getcLine_ne_nil (n : Nat) (c : UInt8) (input : Bytes) :
    (getcLine (n + 1) (c :: input)).1 ≠ [] := by
  rw [getcLine]
  split <;> exact List.cons_ne_nil _ _

/-- What a read gives is the next bytes, no more than there is room for, and some if there are
any. -/
structure Given (maxSize : Nat) (input data : Bytes) : Prop where
  length_le : data.length ≤ maxSize
  pre : data <+: input
  nil : data = [] → 0 < maxSize → input = []

theorem given_yyInput {source : Source} {maxSize : Nat} {input data : Bytes}
    (h : yyInput source maxSize input = some data) : Given maxSize input data := by
  unfold yyInput at h
  split at h
  · dsimp only at h
    split at h
    · cases h
    · obtain rfl := Option.some.inj h
      refine ⟨(getcLine_rest _ _).1, (getcLine_rest _ _).2, fun hnil hmax => ?_⟩
      obtain ⟨n, rfl⟩ := Nat.exists_eq_add_of_le' hmax
      cases input with
      | nil => rfl
      | cons c input => exact absurd hnil (getcLine_ne_nil n c input)
  · dsimp only at h
    split at h
    · cases h
    · obtain rfl := Option.some.inj h
      refine ⟨List.length_take_le _ _, List.take_prefix _ _, fun hnil hmax => ?_⟩
      exact (List.take_eq_nil_iff.mp hnil).resolve_left hmax.ne'

/-- A read is fatal only if it failed. -/
theorem broken_of_yyInput {source : Source} {maxSize : Nat} {input : Bytes}
    (h : yyInput source maxSize input = none) : source.broken = true := by
  unfold yyInput at h
  split at h <;> dsimp only at h <;> split at h
  · exact (Bool.and_eq_true _ _ ▸ ‹_ = true›).2
  · cases h
  · exact (Bool.and_eq_true _ _ ▸ ‹_ = true›).2
  · cases h

/-! ## Room -/

section Enlarge

variable {heap : Heap} {numberToMove fuel size : Nat} {buf : Bytes}

theorem enlarge_of_room (h : numberToMove + 1 < size) :
    Scan.enlarge heap numberToMove fuel buf size = some (buf, size) := by
  cases fuel with
  | zero => rfl
  | succ fuel => exact if_neg (Nat.not_le.mpr h)

theorem length_realloc {buf' : Bytes} (h : realloc heap buf size = some buf')
    (hle : buf.length ≤ size) : buf'.length = size ∧ buf <+: buf' := by
  obtain ⟨contents, -, rfl⟩ := Option.map_eq_some_iff.mp h
  rw [List.take_of_length_le hle]
  refine ⟨?_, List.prefix_append _ _⟩
  rw [List.length_append, List.length_drop, length_block]
  omega

/-- Doubling the buffer once is enough, as is adding an eighth where the double is no `int`. -/
theorem enlarge_eq (hlen : buf.length = size + 2) (hmove : numberToMove ≤ size)
    (hsize : 16 ≤ size) {b : Bytes × Nat}
    (h : Scan.enlarge heap numberToMove (fuel + 1) buf size = some b) :
    b.1.length = b.2 + 2 ∧ numberToMove + 2 ≤ b.2 ∧ size ≤ b.2 ∧
      b.2 ≤ max size (2 * (numberToMove + 1)) ∧ buf <+: b.1 := by
  rw [Scan.enlarge] at h
  split at h
  · have hnew : size + 2 ≤ (if toInt (2 * size) ≤ 0 then size + size / 8 else 2 * size) ∧
        (if toInt (2 * size) ≤ 0 then size + size / 8 else 2 * size) ≤ 2 * size := by
      split <;> omega
    dsimp only at h
    generalize (if toInt (2 * size) ≤ 0 then size + size / 8 else 2 * size) = newSize at h hnew
    cases hrealloc : realloc heap buf (newSize + 2) with
    | none => rw [hrealloc] at h; cases h
    | some buf' =>
        rw [hrealloc] at h
        dsimp only at h
        obtain ⟨hlen', hprefix⟩ := length_realloc hrealloc (by omega)
        rw [enlarge_of_room (by omega)] at h
        obtain rfl := Option.some.inj h
        exact ⟨hlen', by omega, by omega, by omega, hprefix⟩
  · obtain rfl := Option.some.inj h
    exact ⟨hlen, by omega, Nat.le_refl _, Nat.le_max_left _ _, List.prefix_rfl⟩

/-- With memory for every size there is no fatal error. -/
theorem enlarge_isSome (hheap : ∀ n, (heap n).isSome = true) :
    ∃ b, Scan.enlarge heap numberToMove fuel buf size = some b := by
  induction fuel generalizing buf size with
  | zero => exact ⟨_, rfl⟩
  | succ fuel ih =>
      rw [Scan.enlarge]
      split
      · obtain ⟨contents, hcontents⟩ :=
          Option.isSome_iff_exists.mp (hheap ((if toInt (2 * size) ≤ 0 then size + size / 8
            else 2 * size) + 2))
        simp only [realloc, hcontents, Option.map_some]
        exact ih
      · exact ⟨_, rfl⟩

end Enlarge

/-! ## The state of the buffer -/

/-- The data stand at the front of the buffer, with the two bytes behind them that end it.
What `yy_ch_buf` holds while a token is out differs from `buf` in the byte behind it. -/
structure Inv (s : Scan) (buf data : Bytes) : Prop where
  contents : ∃ tail, buf = data ++ 0 :: 0 :: tail ∧ data.length + tail.length = s.bufSize
  nChars_eq : s.nChars = data.length
  fresh : s.status = .fresh → s.bufNChars = data.length
  pending : s.status = .eofPending → s.yyin = []
  size_le : 16 ≤ s.bufSize

theorem Inv.length_eq {s : Scan} {buf data : Bytes} (h : Inv s buf data) :
    buf.length = s.bufSize + 2 := by
  obtain ⟨tail, rfl, hlen⟩ := h.contents
  rw [List.length_append, List.length_cons, List.length_cons]
  omega

theorem Inv.data_le {s : Scan} {buf data : Bytes} (h : Inv s buf data) :
    data.length ≤ s.bufSize := by
  obtain ⟨tail, rfl, hlen⟩ := h.contents
  omega

theorem Inv.congr {s s' : Scan} {buf data : Bytes} (h : Inv s buf data)
    (hbufSize : s'.bufSize = s.bufSize) (hbufNChars : s'.bufNChars = s.bufNChars)
    (hstatus : s'.status = s.status) (hnChars : s'.nChars = s.nChars) (hyyin : s'.yyin = s.yyin) :
    Inv s' buf data where
  contents := hbufSize ▸ h.contents
  nChars_eq := hnChars ▸ h.nChars_eq
  fresh := fun hfresh => hbufNChars ▸ h.fresh (hstatus ▸ hfresh)
  pending := fun hpending => hyyin ▸ h.pending (hstatus ▸ hpending)
  size_le := hbufSize ▸ h.size_le

/-- The buffer has grown by no more than a text of `n` bytes asks for. -/
def Scan.Grown (n : Nat) (s s' : Scan) : Prop := s'.bufSize ≤ max s.bufSize (2 * (n + 1))

theorem Scan.Grown.of_eq {n : Nat} {s s' : Scan} (h : s'.bufSize = s.bufSize) : Grown n s s' :=
  h.le.trans (Nat.le_max_left _ _)

theorem Scan.Grown.mono {n m : Nat} {s s' : Scan} (h : Grown n s s') (hle : n ≤ m) :
    Grown m s s' := by
  unfold Grown at h ⊢
  omega

theorem Scan.Grown.trans {n : Nat} {s s' s'' : Scan} (h : Grown n s s') (h' : Grown n s' s'') :
    Grown n s s'' := by
  unfold Grown at h h' ⊢
  omega

/-- The data and the text that is still to be read. -/
def Scan.rest (s : Scan) (data : Bytes) (bp : Nat) : Bytes := data.drop bp ++ s.yyin

/-- The two bytes that end the buffer are put behind the data. -/
theorem Scan.close_eq {s : Scan} {numberToMove : Nat} {data rest : Bytes}
    (hbuf : s.chBuf = data ++ rest) (hrest : 2 ≤ rest.length)
    (hcount : s.nChars + numberToMove = data.length) :
    s.close numberToMove =
      some { s with
        nChars := data.length, chBuf := data ++ 0 :: 0 :: rest.drop 2, textPtr := 0 } := by
  match rest, hrest with
  | c :: d :: rest, _ =>
      have hfirst : store (data ++ c :: d :: rest) data.length 0 =
          some (data ++ 0 :: d :: rest) := by
        rw [store_eq (by simp), List.set_append_right _ _ (Nat.le_refl _), Nat.sub_self]
        rfl
      have hsecond : store (data ++ 0 :: d :: rest) (data.length + 1) 0 =
          some (data ++ 0 :: 0 :: rest) := by
        rw [store_eq (by simp), List.set_append_right _ _ (Nat.le_add_right _ 1)]
        simp
      simp only [close, hbuf, hcount, hfirst, hsecond, Option.bind_eq_bind, Option.bind_some]
      rfl

theorem Scan.restart_eq {s : Scan} {c d : UInt8} {rest : Bytes} (hbuf : s.chBuf = c :: d :: rest) :
    s.restart = some { s with
      chBuf := 0 :: 0 :: rest, bufNChars := 0, status := .fresh, nChars := 0, textPtr := 0
      cBufP := 0, holdChar := 0 } := by
  simp [restart, hbuf, store]

/-- What `yy_get_next_buffer` has read behind the text that it moved. -/
structure Read (s : Scan) (text data : Bytes) (s' : Scan) : Prop where
  contents : ∃ rest, s'.chBuf = text ++ data ++ rest ∧ 2 ≤ rest.length
  length_eq : s'.chBuf.length = s'.bufSize + 2
  nChars_eq : s'.nChars = data.length
  bufNChars_eq : s'.bufNChars = data.length
  yyin_eq : s.yyin = data ++ s'.yyin
  nil : data = [] → s.yyin = []
  status_eq : s'.status = s.status
  yyout_eq : s'.yyout = s.yyout
  size_le : 16 ≤ s'.bufSize
  grown : s.Grown text.length s'

theorem Scanner.fill_eq {τ : Type} {S : Scanner τ} (hread : 0 < S.readBufSize)
    {source : Source} {heap : Heap} {s s' : Scan} {text : Bytes}
    (hlen : s.chBuf.length = s.bufSize + 2) (hmove : text.length ≤ s.bufSize)
    (htext : text <+: s.chBuf) (hpending : s.status = .eofPending → s.yyin = [])
    (hsize : 16 ≤ s.bufSize) (h : S.fill source heap text.length s = some s') :
    ∃ data, Read s text data s' := by
  unfold Scanner.fill at h
  split at h
  · obtain rfl := Option.some.inj h
    obtain ⟨rest, hrest⟩ := htext
    refine ⟨[], ⟨⟨rest, ?_, ?_⟩, hlen, rfl, rfl, rfl, fun _ => hpending ‹_›, rfl, rfl, hsize,
      .of_eq rfl⟩⟩
    · rw [List.append_nil]
      exact hrest.symm
    · rw [← hrest, List.length_append] at hlen
      omega
  · obtain ⟨⟨buf, size⟩, henlarge, hread'⟩ := Option.bind_eq_some_iff.mp h
    obtain ⟨data, hdata, rfl⟩ := Option.map_eq_some_iff.mp hread'
    obtain ⟨hlen', hroom, hle, hgrown, hprefix⟩ := enlarge_eq hlen hmove hsize henlarge
    dsimp only at hlen' hroom hle hgrown hprefix ⊢
    have hgiven := given_yyInput hdata
    have hmax := hgiven.length_le
    dsimp only at hmax
    have hfits : text.length + data.length ≤ buf.length := by omega
    refine ⟨data, ⟨⟨buf.drop (text.length + data.length), ?_, ?_⟩, ?_, rfl, rfl, ?_, fun hnil =>
      hgiven.nil hnil (by dsimp only; omega), rfl, rfl, Nat.le_trans hsize hle, hgrown⟩⟩
    · dsimp only [memcpy]
      rw [← List.prefix_iff_eq_take.mp (htext.trans hprefix)]
    · rw [List.length_drop]
      omega
    · rw [length_memcpy hfits]
      exact hlen'
    · obtain ⟨later, hlater⟩ := hgiven.pre
      dsimp only
      rw [← hlater, List.drop_left]

/-- What can end the program with a fatal error: no memory, or a read that failed. -/
def Fails (source : Source) (heap : Heap) : Prop := (∃ n, heap n = none) ∨ source.broken = true

theorem Scanner.fails_of_fill {τ : Type} {S : Scanner τ} {source : Source} {heap : Heap}
    {numberToMove : Nat} {s : Scan} (h : S.fill source heap numberToMove s = none) :
    Fails source heap := by
  unfold Scanner.fill at h
  split at h
  · cases h
  · by_cases hheap : ∃ n, heap n = none
    · exact .inl hheap
    · have hall : ∀ n, (heap n).isSome = true := fun n =>
        Option.isSome_iff_ne_none.mpr fun hn => hheap ⟨n, hn⟩
      obtain ⟨b, hb⟩ := @enlarge_isSome heap numberToMove (numberToMove + 1) s.bufSize s.chBuf hall
      rw [hb, Option.bind_some, Option.map_eq_none_iff] at h
      exact .inr (broken_of_yyInput h)

/-! ## `yy_get_next_buffer` -/

/-- What the three results say, with the text that was begun. -/
structure Refilled (s : Scan) (text : Bytes) (ret : Refill) (s' : Scan) : Prop where
  inv : ∃ data, Inv s' s'.chBuf (text ++ data) ∧ s.yyin = data ++ s'.yyin ∧
    (ret = .continueScan ↔ data ≠ []) ∧ (data = [] → s.yyin = [])
  endOfFile : ret = .endOfFile ↔ text = [] ∧ s.yyin = []
  holdChar : ret = .endOfFile → s'.holdChar = 0
  ne_fatal : ret ≠ .fatal
  textPtr_eq : s'.textPtr = 0
  yyout_eq : s'.yyout = s.yyout
  grown : s.Grown text.length s'

theorem Read.refilled_eq {s s₁ : Scan} {text data : Bytes} (h : Read s text data s₁)
    (hstatus : s.status ≠ .fresh) (hpending : s.status = .eofPending → s.yyin = []) :
    ∃ ret s', s₁.refilled text.length = some (ret, s') ∧ Refilled s text ret s' := by
  obtain ⟨rest, hbuf, hrest⟩ := h.contents
  have hlen := h.length_eq
  rw [hbuf, List.length_append] at hlen
  have hcount : s₁.nChars + text.length = (text ++ data).length := by
    rw [h.nChars_eq, List.length_append, Nat.add_comm]
  have hcontents : ∃ tail, text ++ data ++ 0 :: 0 :: rest.drop 2 = text ++ data ++ 0 :: 0 :: tail ∧
      (text ++ data).length + tail.length = s₁.bufSize :=
    ⟨rest.drop 2, rfl, by rw [List.length_drop]; omega⟩
  unfold Scan.refilled
  by_cases hdata : data = []
  · subst hdata
    have hyyin := h.nil rfl
    have hyyin' : s₁.yyin = [] := h.yyin_eq.symm.trans hyyin
    have hzero : s₁.nChars = 0 := h.nChars_eq
    rw [if_pos hzero]
    by_cases htext : text = []
    · subst htext
      match rest, hrest with
      | c :: d :: rest, _ =>
          have hclose := @Scan.close_eq
            { s₁ with
              chBuf := 0 :: 0 :: rest, bufNChars := 0, status := .fresh, nChars := 0, textPtr := 0
              cBufP := 0, holdChar := 0 } 0 [] (0 :: 0 :: rest) rfl (Nat.le_add_left 2 _) rfl
          rw [if_pos List.length_nil, Scan.restart_eq hbuf]
          simp only [Option.bind_eq_bind, Option.bind_some, Option.map_some, List.length_nil,
            hclose]
          refine ⟨_, _, rfl, ⟨⟨[], ⟨hcontents, rfl, fun _ => rfl, nofun, h.size_le⟩, ?_, ?_,
            fun _ => hyyin⟩, ?_, fun _ => rfl, nofun, rfl, h.yyout_eq, h.grown⟩⟩
          · exact hyyin.trans hyyin'.symm
          · simp
          · simp [hyyin]
    · have hclose := Scan.close_eq (s := { s₁ with status := .eofPending }) hbuf hrest hcount
      rw [if_neg fun hnil => htext (List.eq_nil_of_length_eq_zero hnil)]
      simp only [Option.bind_eq_bind, Option.bind_some, hclose, Option.map_some]
      refine ⟨_, _, rfl, ⟨⟨[], ⟨hcontents, rfl, nofun, fun _ => hyyin', h.size_le⟩, ?_, ?_,
        fun _ => hyyin⟩, ?_, nofun, nofun, rfl, h.yyout_eq, h.grown⟩⟩
      · exact hyyin.trans hyyin'.symm
      · simp
      · simp [htext]
  · have hclose := Scan.close_eq hbuf hrest hcount
    rw [if_neg fun hnil => hdata (List.eq_nil_of_length_eq_zero (h.nChars_eq.symm.trans hnil))]
    simp only [Option.bind_eq_bind, Option.bind_some, hclose, Option.map_some]
    refine ⟨_, _, rfl, ⟨⟨data, ⟨hcontents, rfl, fun hfresh => ?_, fun hpending' => ?_,
      h.size_le⟩,
      h.yyin_eq, ?_, h.nil⟩, ?_, nofun, nofun, rfl, h.yyout_eq, h.grown⟩⟩
    · exact absurd (h.status_eq.symm.trans hfresh) hstatus
    · have hyyin := h.yyin_eq
      rw [hpending (h.status_eq.symm.trans hpending')] at hyyin
      exact (List.append_eq_nil_iff.mp hyyin.symm).2
    · simp [hdata]
    · rw [h.yyin_eq]
      simp [hdata]

theorem Scanner.getNextBuffer_eq {τ : Type} {S : Scanner τ} (hread : 0 < S.readBufSize)
    (source : Source) (heap : Heap) {s : Scan} {data : Bytes} (hinv : Inv s s.chBuf data)
    (hstatus : s.status ≠ .fresh) (hbp : s.textPtr ≤ data.length)
    (hend : s.cBufP = data.length + 1) :
    ∃ ret s', S.getNextBuffer source heap s = some (ret, s') ∧
      ((ret = .fatal ∧ s' = s ∧ Fails source heap) ∨
        Refilled s (data.drop s.textPtr) ret s') := by
  have hmove : s.cBufP - s.textPtr - 1 = (data.drop s.textPtr).length := by
    rw [List.length_drop]
    omega
  have hlen := hinv.length_eq
  have hdata := hinv.data_le
  obtain ⟨buf, hcopy, hlen', htake⟩ :=
    @copyDown_eq (data.drop s.textPtr).length 0 s.textPtr s.chBuf (Nat.zero_le _)
      (by rw [List.length_drop]; omega)
  have htext : data.drop s.textPtr <+: buf := by
    obtain ⟨tail, hbuf, -⟩ := hinv.contents
    rw [List.prefix_iff_eq_take]
    rw [Nat.zero_add, List.take_zero, List.nil_append, hbuf, List.drop_append_of_le_length hbp,
      List.take_left] at htake
    exact htake.symm
  rw [Scanner.getNextBuffer, if_neg (by rw [hinv.nChars_eq]; omega), hmove]
  simp only [hcopy, Option.bind_eq_bind, Option.bind_some]
  cases hfill : S.fill source heap (data.drop s.textPtr).length { s with chBuf := buf } with
  | none => exact ⟨_, _, rfl, .inl ⟨rfl, rfl, Scanner.fails_of_fill hfill⟩⟩
  | some s₁ =>
      have hfits : (data.drop s.textPtr).length ≤ s.bufSize := by
        rw [List.length_drop]
        omega
      obtain ⟨more, hmore⟩ := fill_eq (s := { s with chBuf := buf }) hread (hlen'.trans hlen) hfits
        htext hinv.pending hinv.size_le hfill
      obtain ⟨ret, s', hret, hrefilled⟩ := hmore.refilled_eq hstatus hinv.pending
      exact ⟨ret, s', hret, .inr ⟨hrefilled.inv, hrefilled.endOfFile, hrefilled.holdChar,
        hrefilled.ne_fatal, hrefilled.textPtr_eq, hrefilled.yyout_eq, hrefilled.grown⟩⟩

end NetworkProgram.Flex
