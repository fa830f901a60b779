import NetworkProgram.Foundation.Accesses
import NetworkProgram.Libc.Mystrlcat

set_option autoImplicit false

/-!
# Libc: string functions with their accesses

The functions of the C library and `mystrlcat` once more, cell by cell, and each of them
equal to the function on lists as long as it stays inside of the buffer.  A string that is
only read is given as its bytes in front of the NUL.
-/

namespace NetworkProgram.Libc

open NetworkProgram.Foundation

/-- `strlen(buf)` -/
def strlenTraced : Traced UInt8 Nat := Traced.seek (fun c => c = 0) 0

/-- `strpbrk(buf, accept)` -/
def strpbrkTraced (accept : Bytes) : Traced UInt8 (Option Nat) := do
  let i ← Traced.seek (fun c => c = 0 ∨ c ∈ accept) 0
  let c ← Traced.read i
  pure (if c = 0 then none else some i)

/-- `if ((ptr = strpbrk(buf, accept)) != NULL) *ptr = '\0';` -/
def cutAtTraced (accept : Bytes) : Traced UInt8 Unit := do
  let i ← strpbrkTraced accept
  match i with
  | none => pure ()
  | some i => Traced.write i 0

/-- `strcat(buf, src)` -/
def strcatTraced (src : Bytes) : Traced UInt8 Unit := do
  let i ← strlenTraced
  Traced.store i (src ++ [0])

/-! ## `mystrlcat` -/

/-- `for (pd = dst, lest = size; *pd != '\0' && lest != 0; pd++, lest--);` -/
def mystrlcatScanTraced (pd : Nat) : Nat → Traced UInt8 Nat
  | 0 => do
      let _ ← Traced.read pd
      pure pd
  | lest + 1 => do
      let c ← Traced.read pd
      if c ≠ 0 then mystrlcatScanTraced (pd + 1) lest else pure pd

/-- `for (ps = src; *ps != '\0' && pd < pde; pd++, ps++) *pd = *ps;`, with the bytes from
`ps` on.  The result is `pd` and `ps` as the loop leaves them. -/
def mystrlcatCopyTraced (pde : Nat) : Nat → Nat → Bytes → Traced UInt8 (Nat × Nat)
  | pd, ps, [] => pure (pd, ps)
  | pd, ps, c :: rest =>
      if pd < pde then do
        Traced.write pd c
        mystrlcatCopyTraced pde (pd + 1) (ps + 1) rest
      else pure (pd, ps)

/-- `for (; pd <= pde; pd++) *pd = '\0';`, with the number of rounds left. -/
def mystrlcatFillTraced (pd : Nat) : Nat → Traced UInt8 Unit
  | 0 => pure ()
  | rounds + 1 => do
      Traced.write pd 0
      mystrlcatFillTraced (pd + 1) rounds

/-- The last loop, `while (*ps++);`, reads `src` alone. -/
def mystrlcatTraced (src : Bytes) (size : Nat) : Traced UInt8 Nat := do
  let dlen ← mystrlcatScanTraced 0 size
  if size - dlen = 0 then pure (dlen + src.length)
  else
    let pde := size - 1
    let copied ← mystrlcatCopyTraced pde dlen 0 src
    mystrlcatFillTraced copied.1 (pde + 1 - copied.1)
    let ps := mystrlcatEnd copied.2 (src.drop copied.2)
    pure (dlen + (ps - 1))

section Specs

variable {P : Access → Prop} {buf : Bytes}

theorem ends_strlen (h : strlen buf < buf.length)
    (hread : ∀ j : Nat, j < buf.length → P (.read j)) :
    Traced.Ends P strlenTraced buf (strlen buf) buf := by
  obtain ⟨rest, hbuf⟩ := eq_cstr_append buf h
  have hends := Traced.ends_seek (P := P) (fun c : UInt8 => decide (c = 0)) [] (cstr buf) rest
    (fun d hd => decide_eq_false fun hzero => nul_notMem_cstr buf (hzero ▸ hd))
    (decide_eq_true rfl) fun j hj => hread j (by
      rw [List.length_nil, Nat.zero_add] at hj
      exact Nat.lt_of_le_of_lt hj h)
  rw [List.nil_append, ← hbuf, List.length_nil, Nat.zero_add] at hends
  exact hends

/-- A buffer with a NUL, up to the first byte that ends a search. -/
theorem exists_first_stop (accept : Bytes) (h : strlen buf < buf.length) :
    ∃ text c rest, buf = text ++ c :: rest ∧ (∀ d ∈ text, ¬ (d = 0 ∨ d ∈ accept)) ∧
      (c = 0 ∨ c ∈ accept) := by
  obtain ⟨rest, hbuf⟩ := eq_cstr_append buf h
  have hnul : (0 : UInt8) ∈ buf := by
    rw [hbuf]
    exact List.mem_append_right _ List.mem_cons_self
  have hsome : (buf.find? fun c => c = 0 ∨ c ∈ accept).isSome :=
    List.find?_isSome.mpr ⟨0, hnul, by simp⟩
  obtain ⟨c, hc⟩ := Option.isSome_iff_exists.mp hsome
  obtain ⟨hstop, text, rest, heq, htext⟩ := List.find?_eq_some_iff_append.mp hc
  exact ⟨text, c, rest, heq, fun d hd => by simpa using htext d hd, of_decide_eq_true hstop⟩

theorem strpbrk_append {accept text : Bytes} (htext : ∀ d ∈ text, ¬ (d = 0 ∨ d ∈ accept))
    {c : UInt8} (hc : c = 0 ∨ c ∈ accept) (rest : Bytes) :
    strpbrk accept (text ++ c :: rest) = if c = 0 then none else some text.length := by
  induction text with
  | nil =>
      rw [List.nil_append, strpbrk]
      split
      · rfl
      · rename_i hzero
        rw [if_pos (hc.resolve_left hzero), List.length_nil]
  | cons d text ih =>
      obtain ⟨hd, htext⟩ := List.forall_mem_cons.mp htext
      rw [not_or] at hd
      rw [List.cons_append, strpbrk, if_neg hd.1, if_neg hd.2, ih htext]
      split
      · rfl
      · rw [Option.map_some, List.length_cons]

/-- The cut, with the index of its write if there is one. -/
theorem ends_cutAt (accept : Bytes) (h : strlen buf < buf.length)
    (hread : ∀ j : Nat, j < buf.length → P (.read j))
    (hwrite : ∀ (i : Nat) (c : UInt8), buf[i]? = some c → c ∈ accept → P (.write i)) :
    Traced.Ends P (cutAtTraced accept) buf () (cutAt accept buf) := by
  obtain ⟨text, c, rest, rfl, htext, hc⟩ := exists_first_stop accept h
  have hlt : text.length < (text ++ c :: rest).length := by simp
  have hget : (text ++ c :: rest)[text.length]? = some c := by simp
  have hseek := Traced.ends_seek (P := P) (fun c : UInt8 => decide (c = 0 ∨ c ∈ accept)) [] text
    rest (fun d hd => decide_eq_false (htext d hd)) (decide_eq_true hc)
    (fun j hj => hread j (by rw [List.length_nil, Nat.zero_add] at hj; omega))
  rw [List.nil_append, List.length_nil, Nat.zero_add] at hseek
  have hpbrk : Traced.Ends P (strpbrkTraced accept) (text ++ c :: rest)
      (strpbrk accept (text ++ c :: rest)) (text ++ c :: rest) := by
    rw [strpbrk_append htext hc]
    exact hseek.bind ((Traced.ends_read hget (hread _ hlt)).bind (Traced.ends_pure _))
  refine hpbrk.bind ?_
  unfold cutAt
  rw [strpbrk_append htext hc]
  by_cases hzero : c = 0
  · rw [if_pos hzero]
    exact Traced.ends_pure ()
  · rw [if_neg hzero]
    exact Traced.ends_write 0 hlt (hwrite _ _ hget (hc.resolve_left hzero))

/-- The string in the buffer gets longer by `src`, where there is room for it. -/
theorem ends_strcat (src : Bytes) (h : strlen buf + src.length < buf.length)
    (hread : ∀ j : Nat, j < buf.length → P (.read j))
    (hwrite : ∀ j : Nat, j ≤ strlen buf + src.length → P (.write j)) :
    ∃ rest, Traced.Ends P (strcatTraced src) buf () (cstr buf ++ src ++ 0 :: rest) ∧
      (cstr buf ++ src ++ 0 :: rest).length = buf.length := by
  obtain ⟨rest, hbuf⟩ := eq_cstr_append buf (by omega)
  have hlen : buf.length = strlen buf + (0 :: rest).length := by
    conv_lhs => rw [hbuf]
    exact List.length_append
  have hfit : src.length + 1 ≤ (0 :: rest).length := by omega
  have hold : ((0 :: rest).take (src ++ [0]).length).length = (src ++ [0]).length := by
    rw [List.length_take, List.length_append, List.length_singleton]
    omega
  have hstore := Traced.ends_store (P := P) (cstr buf) (src ++ [0])
    ((0 :: rest).drop (src ++ [0]).length) hold fun j hj => by
      rw [List.length_append, List.length_singleton] at hj
      exact hwrite j (by unfold strlen; omega)
  rw [List.append_assoc, List.take_append_drop, ← hbuf] at hstore
  refine ⟨(0 :: rest).drop (src ++ [0]).length, ?_, ?_⟩
  · have hcells : cstr buf ++ src ++ 0 :: (0 :: rest).drop (src ++ [0]).length =
        cstr buf ++ (src ++ [0]) ++ (0 :: rest).drop (src ++ [0]).length := by simp
    rw [hcells]
    exact (ends_strlen (by omega) hread).bind hstore
  · rw [List.length_append, List.length_append, List.length_cons, List.length_drop,
      List.length_append, List.length_singleton, hlen]
    unfold strlen
    omega

/-! ### `mystrlcat` -/

theorem ends_mystrlcatScan {text : Bytes} (h : (0 : UInt8) ∉ text) (pre rest : Bytes) (lest : Nat)
    (room : text.length < lest)
    (hread : ∀ j : Nat, j ≤ pre.length + text.length → P (.read j)) :
    Traced.Ends P (mystrlcatScanTraced pre.length lest) (pre ++ text ++ 0 :: rest)
      (pre.length + text.length) (pre ++ text ++ 0 :: rest) := by
  induction text generalizing pre lest with
  | nil =>
      obtain ⟨lest, rfl⟩ := Nat.exists_eq_succ_of_ne_zero (Nat.pos_iff_ne_zero.mp room)
      have hget : (pre ++ [] ++ 0 :: rest)[pre.length]? = some 0 := by simp
      exact (Traced.ends_read hget (hread _ (Nat.le_refl _))).bind (Traced.ends_pure _)
  | cons c text ih =>
      obtain ⟨hc, htext⟩ := not_or.mp (List.mem_cons.not.mp h)
      obtain ⟨lest, rfl⟩ := Nat.exists_eq_succ_of_ne_zero (Nat.ne_zero_of_lt room)
      rw [List.length_cons] at room hread
      have hget : (pre ++ c :: text ++ 0 :: rest)[pre.length]? = some c := by simp
      have hstep := ih htext (pre ++ [c]) lest (by omega) fun j hj => by
        refine hread j ?_
        rw [List.length_append, List.length_singleton] at hj
        omega
      have hcells : pre ++ [c] ++ text ++ 0 :: rest = pre ++ c :: text ++ 0 :: rest := by simp
      have hend : (pre ++ [c]).length + text.length = pre.length + (c :: text).length := by
        simp
        omega
      rw [hcells, hend, List.length_append, List.length_singleton] at hstep
      refine (Traced.ends_read hget (hread _ (Nat.le_add_right _ _))).bind ?_
      rw [if_pos (Ne.symm hc)]
      exact hstep

theorem ends_mystrlcatCopy (src dst : Bytes) {pde : Nat} (pd ps : Nat)
    (room : pde ≤ dst.length) (hwrite : ∀ j : Nat, j < pde → P (.write j)) :
    Traced.Ends P (mystrlcatCopyTraced pde pd ps src) dst (mystrlcatCopy pde dst pd ps src).2
      (mystrlcatCopy pde dst pd ps src).1 := by
  induction src generalizing dst pd ps with
  | nil => exact Traced.ends_pure (pd, ps)
  | cons c src ih =>
      rw [mystrlcatCopyTraced, mystrlcatCopy]
      split
      · rename_i hlt
        have hset : (dst.set pd c).length = dst.length := List.length_set
        exact (Traced.ends_write c (hlt.trans_le room) (hwrite _ hlt)).bind
          (ih _ (pd + 1) (ps + 1) (room.trans_eq hset.symm))
      · exact Traced.ends_pure (pd, ps)

theorem ends_mystrlcatFill (dst : Bytes) (pd n : Nat) (room : pd + n ≤ dst.length)
    (hwrite : ∀ j : Nat, j < pd + n → P (.write j)) :
    Traced.Ends P (mystrlcatFillTraced pd n) dst () (mystrlcatFill dst pd n) := by
  induction n generalizing dst pd with
  | zero => exact Traced.ends_pure ()
  | succ n ih =>
      have hset : (dst.set pd 0).length = dst.length := List.length_set
      refine (Traced.ends_write 0 (by omega) (hwrite _ (by omega))).bind ?_
      exact ih _ (pd + 1) (by omega) fun j hj => hwrite j (by omega)

theorem mystrlcatCopy_le (src dst : Bytes) {pde pd : Nat} (ps : Nat) (h : pd ≤ pde) :
    (mystrlcatCopy pde dst pd ps src).2.1 ≤ pde := by
  induction src generalizing dst pd ps with
  | nil => exact h
  | cons c src ih =>
      rw [mystrlcatCopy]
      split
      · exact ih _ (ps + 1) ‹_›
      · exact h

/-- With a string in the first `size` bytes, `mystrlcat` stays in them. -/
theorem ends_mystrlcat (src : Bytes) {size : Nat} (room : strlen buf < size)
    (hsize : size ≤ buf.length) :
    Traced.Ends (Access.Below size) (mystrlcatTraced src size) buf (strlen buf + src.length)
      (mystrlcat buf src size).1 := by
  obtain ⟨rest, hbuf⟩ := eq_cstr_append buf (by omega)
  have hscan := ends_mystrlcatScan (P := Access.Below size) (nul_notMem_cstr buf) [] rest size
    room fun j hj => Access.read_below (by
      rw [List.length_nil, Nat.zero_add] at hj
      exact Nat.lt_of_le_of_lt hj room)
  have hscan' := mystrlcatScan_append (nul_notMem_cstr buf) [] rest size room
  rw [List.nil_append, List.length_nil, Nat.zero_add, ← hbuf] at hscan hscan'
  have hne : ¬ size - (cstr buf).length = 0 := by
    unfold strlen at room
    omega
  refine hscan.bind ?_
  unfold mystrlcat
  rw [hscan']
  dsimp only
  rw [if_neg hne, if_neg hne]
  have hle := mystrlcatCopy_le src buf 0 (show (cstr buf).length ≤ size - 1 by
    unfold strlen at room
    omega)
  have hlen := length_mystrlcatCopy (size - 1) src buf (cstr buf).length 0
  have hend := mystrlcatEnd_copy (size - 1) src buf (cstr buf).length
  generalize hcopied : mystrlcatCopy (size - 1) buf (cstr buf).length 0 src = copied
    at hle hlen hend ⊢
  have hcopy := ends_mystrlcatCopy (P := Access.Below size) src buf (cstr buf).length 0
    (show size - 1 ≤ buf.length by omega) fun j hj => Access.write_below (by omega)
  rw [hcopied] at hcopy
  have hfill := ends_mystrlcatFill (P := Access.Below size) copied.1 copied.2.1
    (size - 1 + 1 - copied.2.1) (by omega) fun j hj => Access.write_below (by omega)
  -- The result is what the two loops over `src` leave in `ps`.
  have hresult : strlen buf + src.length =
      (cstr buf).length + (mystrlcatEnd copied.2.2 (src.drop copied.2.2) - 1) := by
    rw [hend, strlen]
  rw [hresult]
  exact hcopy.bind (hfill.bind (Traced.ends_pure _))

end Specs

/-- `mystrlcat` on a buffer of `size` bytes with the string `text` in it, and what lies
behind it: the string, as much of `src` as leaves room for a NUL, and NULs.  Nothing
outside of the buffer is read or written, and the result tells whether `src` was cut. -/
theorem mystrlcat_accesses {text : Bytes} (h : (0 : UInt8) ∉ text) (rest src : Bytes) {size : Nat}
    (room : text.length < size) (hsize : size ≤ (text ++ 0 :: rest).length) :
    Traced.Ends (Access.Below size) (mystrlcatTraced src size) (text ++ 0 :: rest)
      (text.length + src.length)
      (text ++ src.take (min src.length (size - 1 - text.length)) ++
        List.replicate (size - (text.length + min src.length (size - 1 - text.length))) 0 ++
        (text ++ 0 :: rest).drop size) ∧
      (size ≤ text.length + src.length ↔ min src.length (size - 1 - text.length) < src.length) := by
  have hstring : cstr (text ++ 0 :: rest) = text := cstr_append_nul h rest
  have hlen : strlen (text ++ 0 :: rest) = text.length := congrArg List.length hstring
  have hends := ends_mystrlcat src (hlen.trans_lt room) hsize
  have htake : src.take (size - 1 - text.length) =
      src.take (min src.length (size - 1 - text.length)) := by
    rw [Nat.min_comm, ← List.take_take, List.take_length]
  have hsub : size - text.length - (src.take (size - 1 - text.length)).length =
      size - (text.length + min src.length (size - 1 - text.length)) := by
    rw [List.length_take, Nat.min_comm]
    omega
  rw [hlen, mystrlcat_eq src h room (by
    rw [List.length_append, List.length_cons] at hsize
    omega), hsub, htake] at hends
  exact ⟨hends, by omega⟩

theorem mystrlcat_accesses_cut : Traced.Ends (Access.Below 4) (mystrlcatTraced [98, 99, 100] 4)
    [97, 0, 0, 0] 4 [97, 98, 99, 0] :=
  (mystrlcat_accesses (show (0 : UInt8) ∉ [97] by decide) [0, 0] [98, 99, 100]
    (show 1 < 4 by decide) (by decide)).1

/-! ## Replies -/

/-- What the servers do with `len` received bytes in a buffer of `size` bytes: the bytes
become a string that is cut at the end of its line and printed, and the reply is made of it
in place and sent. -/
def replyTraced (size : Nat) (len : Int) : Traced UInt8 Bytes := do
  Traced.write len 0
  cutAtTraced [cr, lf]
  let _ ← strlenTraced
  let _ ← mystrlcatTraced okTail size
  let len ← strlenTraced
  Traced.load 0 len

/-- What was received becomes a string, and is cut and printed, in a buffer with room for the
NUL. -/
structure Cut (buf : Bytes) (size len : Nat) : Prop where
  terminate : Traced.Ends (Access.Below size) (Traced.write len 0) buf () (buf.set len 0)
  cut : Traced.Ends (Access.Below size) (cutAtTraced [cr, lf]) (buf.set len 0) ()
    (cutLine (buf.set len 0))
  print : Traced.Ends (Access.Below size) strlenTraced (cutLine (buf.set len 0))
    (strlen (cutLine (buf.set len 0))) (cutLine (buf.set len 0))
  length : (cutLine (buf.set len 0)).length = size
  string : cstr (cutLine (buf.set len 0)) = visible (buf.take len)
  short : strlen (cutLine (buf.set len 0)) < size

theorem cut_received {buf : Bytes} {size len : Nat} (hbuf : buf.length = size) (h : len < size) :
    Cut buf size len := by
  have hread : ∀ j : Nat, j < size → (Access.read j).Below size := fun j => Access.read_below
  have hset : (buf.set len 0).length = size := List.length_set.trans hbuf
  have hcut : (cutLine (buf.set len 0)).length = size := (length_cutAt _ _).trans hset
  have hget : (buf.set len 0)[len]? = some 0 := List.getElem?_set_self (by omega)
  have hvisible : visible (buf.set len 0) = visible (buf.take len) := by
    have hle := length_visible_le_of_stop hget (.inl rfl)
    rw [← visible_take hle, List.take_set_of_le (Nat.le_refl _)]
  have hstring : cstr (cutLine (buf.set len 0)) = visible (buf.take len) := by
    rw [cstr_cutLine, hvisible]
  have hshort : strlen (cutLine (buf.set len 0)) < size := by
    rw [strlen, hstring]
    exact (length_visible_le _).trans_lt ((List.length_take_le _ _).trans_lt h)
  have hterminated := (strlen_le_of_nul hget).trans_lt (h.trans_eq hset.symm)
  refine ⟨Traced.ends_write 0 (by omega) (Access.write_below h), ?_,
    ends_strlen (by rwa [hcut]) (by rwa [hcut]), hcut, hstring, hshort⟩
  refine ends_cutAt [cr, lf] hterminated (by rwa [hset]) fun i c hi _ => ?_
  obtain ⟨hlt, -⟩ := List.getElem?_eq_some_iff.mp hi
  exact Access.write_below (hset ▸ hlt)

/-- The string in the buffer is what is sent. -/
theorem ends_loadString {buf : Bytes} {size : Nat} (hbuf : buf.length = size)
    (h : strlen buf < size) :
    Traced.Ends (Access.Below size) (strlenTraced >>= Traced.load 0) buf (cstr buf) buf := by
  have hread : ∀ j : Nat, j < size → (Access.read j).Below size := fun j => Access.read_below
  refine (ends_strlen (by rwa [hbuf]) (by rwa [hbuf])).bind ?_
  have hload : Traced.Ends (Access.Below size) (Traced.load 0 (strlen buf)) buf
      ((buf.drop 0).take (strlen buf)) buf :=
    Traced.ends_load (by omega) fun j _ hj => hread j (by omega)
  rwa [List.drop_zero, take_strlen] at hload

/-- With room for the NUL everything happens in the buffer. -/
theorem ends_reply {buf : Bytes} {size len : Nat} (hbuf : buf.length = size) (h : len < size) :
    Traced.Ends (Access.Below size) (replyTraced size len) buf
      ((okReply (visible (buf.take len))).take (size - 1))
      (mystrlcat (cutLine (buf.set len 0)) okTail size).1 := by
  have hcut := cut_received hbuf h
  have hreply : cstr (mystrlcat (cutLine (buf.set len 0)) okTail size).1 =
      (okReply (visible (buf.take len))).take (size - 1) := by
    rw [cstr_mystrlcat_take (by decide) hcut.short hcut.length.ge, hcut.string, okReply]
  have happended := (length_mystrlcat (cutLine (buf.set len 0)) okTail size).trans hcut.length
  have hload := ends_loadString happended (by
    rw [strlen, hreply, List.length_take]
    omega)
  rw [hreply] at hload
  exact hcut.terminate.bind (hcut.cut.bind (hcut.print.bind
    ((ends_mystrlcat okTail hcut.short hcut.length.ge).bind hload)))

end NetworkProgram.Libc
