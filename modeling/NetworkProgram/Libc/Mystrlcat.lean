import NetworkProgram.Libc.Strings

set_option autoImplicit false

/-!
# Libc: `mystrlcat`

The bounded concatenation that several of the programs carry, loop by loop.  `dst` is the
whole buffer, `src` the bytes of the second string in front of its NUL.  `pd` and `ps` are
indices into the two; the copy loop leaves both where the next loops take them up.
-/

namespace NetworkProgram.Libc

/-- `for (pd = dst, lest = size; *pd != '\0' && lest != 0; pd++, lest--);`
The byte behind the buffer, read when the buffer holds no NUL, counts as NUL. -/
def mystrlcatScan (dst : Bytes) : Nat → Nat → Nat
  | pd, 0 => pd
  | pd, lest + 1 => if dst.getD pd 0 ≠ 0 then mystrlcatScan dst (pd + 1) lest else pd

/-- `for (ps = src; *ps != '\0' && pd < pde; pd++, ps++) *pd = *ps;`, with the bytes from
`ps` on.  The result is the buffer with `pd` and `ps` as the loop leaves them. -/
def mystrlcatCopy (pde : Nat) : Bytes → Nat → Nat → Bytes → Bytes × Nat × Nat
  | dst, pd, ps, [] => (dst, pd, ps)
  | dst, pd, ps, c :: rest =>
      if pd < pde then mystrlcatCopy pde (dst.set pd c) (pd + 1) (ps + 1) rest
      else (dst, pd, ps)

/-- `for (; pd <= pde; pd++) *pd = '\0';`, with the number of rounds left. -/
def mystrlcatFill : Bytes → Nat → Nat → Bytes
  | dst, _, 0 => dst
  | dst, pd, rounds + 1 => mystrlcatFill (dst.set pd 0) (pd + 1) rounds

/-- `while (*ps++);`, with the bytes from `ps` on: `ps` is left one behind the NUL. -/
def mystrlcatEnd : Nat → Bytes → Nat
  | ps, [] => ps + 1
  | ps, _ :: rest => mystrlcatEnd (ps + 1) rest

/-- Append `src` to the string in `dst`, as far as `size` bytes allow.  The
result is the length the string would have without the limit. -/
def mystrlcat (dst src : Bytes) (size : Nat) : Bytes × Nat :=
  let dlen := mystrlcatScan dst 0 size
  if size - dlen = 0 then (dst, dlen + src.length)
  else
    let pde := size - 1
    let copied := mystrlcatCopy pde dst dlen 0 src
    let ps := mystrlcatEnd copied.2.2 (src.drop copied.2.2)
    (mystrlcatFill copied.1 copied.2.1 (pde + 1 - copied.2.1), dlen + (ps - 1))

theorem mystrlcatScan_append {text : Bytes} (h : (0 : UInt8) ∉ text) (pre rest : Bytes)
    (lest : Nat) (room : text.length < lest) :
    mystrlcatScan (pre ++ text ++ 0 :: rest) pre.length lest = pre.length + text.length := by
  induction text generalizing pre lest with
  | nil =>
      obtain ⟨lest, rfl⟩ : ∃ n, lest = n + 1 := ⟨lest - 1, by simp at room; omega⟩
      simp [mystrlcatScan]
  | cons c text ih =>
      simp only [List.mem_cons, not_or] at h
      obtain ⟨lest, rfl⟩ : ∃ n, lest = n + 1 := ⟨lest - 1, by simp at room; omega⟩
      have hc : c ≠ 0 := fun heq => h.1 heq.symm
      have hrest := ih h.2 (pre ++ [c]) lest (by simp at room; omega)
      simp only [List.length_append, List.length_cons, List.length_nil,
        List.append_assoc, List.cons_append, List.nil_append] at hrest
      simp [mystrlcatScan, hc, hrest]
      omega

theorem mystrlcatCopy_append (pde : Nat) (src pre rest : Bytes) (ps : Nat)
    (room : pde ≤ pre.length + rest.length) :
    mystrlcatCopy pde (pre ++ rest) pre.length ps src =
      (pre ++ src.take (pde - pre.length) ++ rest.drop (src.take (pde - pre.length)).length,
        pre.length + (src.take (pde - pre.length)).length,
        ps + (src.take (pde - pre.length)).length) := by
  induction src generalizing pre rest ps with
  | nil => simp [mystrlcatCopy]
  | cons c src ih =>
      by_cases hlt : pre.length < pde
      · obtain ⟨d, rest, rfl⟩ : ∃ d tail, rest = d :: tail := by
          cases rest with
          | nil => simp at room; omega
          | cons d tail => exact ⟨d, tail, rfl⟩
        have hstep := ih (pre ++ [c]) rest (ps + 1) (by simp at room ⊢; omega)
        have hset : (pre ++ d :: rest).set pre.length c = pre ++ [c] ++ rest := by simp
        obtain ⟨n, hn⟩ : ∃ n, pde - pre.length = n + 1 := ⟨pde - pre.length - 1, by omega⟩
        have hn' : pde - (pre ++ [c]).length = n := by simp; omega
        rw [mystrlcatCopy, if_pos hlt, hset]
        rw [List.length_append, List.length_singleton] at hstep
        rw [hstep, hn]
        rw [show pde - (pre.length + 1) = n by omega]
        simp
        omega
      · have hzero : pde - pre.length = 0 := by omega
        rw [mystrlcatCopy, if_neg hlt, hzero]
        simp

theorem mystrlcatFill_append (n : Nat) (pre rest : Bytes) (room : n ≤ rest.length) :
    mystrlcatFill (pre ++ rest) pre.length n = pre ++ List.replicate n 0 ++ rest.drop n := by
  induction n generalizing pre rest with
  | zero => simp [mystrlcatFill]
  | succ n ih =>
      obtain ⟨d, rest, rfl⟩ : ∃ d tail, rest = d :: tail := by
        cases rest with
        | nil => simp at room
        | cons d tail => exact ⟨d, tail, rfl⟩
      have hset : (pre ++ d :: rest).set pre.length 0 = pre ++ [0] ++ rest := by simp
      have hstep := ih (pre ++ [0]) rest (by simpa using room)
      rw [List.length_append, List.length_singleton] at hstep
      rw [mystrlcatFill, hset, hstep]
      simp [List.replicate_succ]

@[simp] theorem mystrlcatEnd_eq (ps : Nat) (rest : Bytes) :
    mystrlcatEnd ps rest = ps + rest.length + 1 := by
  induction rest generalizing ps with
  | nil => rfl
  | cons c rest ih =>
      rw [mystrlcatEnd, ih, List.length_cons]
      omega

/-- From a place inside of `src` the last loop ends one behind its NUL. -/
theorem mystrlcatEnd_drop {src : Bytes} {ps : Nat} (h : ps ≤ src.length) :
    mystrlcatEnd ps (src.drop ps) - 1 = src.length := by
  rw [mystrlcatEnd_eq, List.length_drop]
  omega

/-- The copy loop does not take `ps` behind the NUL. -/
theorem mystrlcatCopy_ps_le (pde : Nat) (src dst : Bytes) (pd ps : Nat) :
    (mystrlcatCopy pde dst pd ps src).2.2 ≤ ps + src.length := by
  induction src generalizing dst pd ps with
  | nil => exact Nat.le_refl _
  | cons c src ih =>
      rw [mystrlcatCopy]
      split
      · have hstep := ih (dst.set pd c) (pd + 1) (ps + 1)
        rw [List.length_cons]
        omega
      · exact Nat.le_add_right _ _

/-- With both loops over it, `ps` comes to the end of `src` wherever the copy ended. -/
theorem mystrlcatEnd_copy (pde : Nat) (src dst : Bytes) (pd : Nat) :
    mystrlcatEnd (mystrlcatCopy pde dst pd 0 src).2.2
      (src.drop (mystrlcatCopy pde dst pd 0 src).2.2) - 1 = src.length := by
  have hle := mystrlcatCopy_ps_le pde src dst pd 0
  rw [Nat.zero_add] at hle
  exact mystrlcatEnd_drop hle

/-- What `mystrlcat` does to a buffer of `size` bytes and what lies behind it:
the string, as much of `src` as leaves room for a NUL, and NULs up to `size`. -/
theorem mystrlcat_eq {text rest : Bytes} (src : Bytes) {size : Nat} (h : (0 : UInt8) ∉ text)
    (room : text.length < size) (hsize : size ≤ text.length + 1 + rest.length) :
    mystrlcat (text ++ 0 :: rest) src size =
      (text ++ src.take (size - 1 - text.length) ++
          List.replicate (size - text.length - (src.take (size - 1 - text.length)).length) 0 ++
          (text ++ 0 :: rest).drop size,
        text.length + src.length) := by
  have hscan : mystrlcatScan (text ++ 0 :: rest) 0 size = text.length := by
    simpa using mystrlcatScan_append h [] rest size room
  have hcopy := mystrlcatCopy_append (size - 1) src text (0 :: rest) 0 (by simp; omega)
  have hend := mystrlcatEnd_copy (size - 1) src (text ++ 0 :: rest) text.length
  generalize hcopied : src.take (size - 1 - text.length) = copied at hcopy ⊢
  have hlen : copied.length ≤ size - 1 - text.length := by
    rw [← hcopied]; exact List.length_take_le _ _
  have hfill := mystrlcatFill_append (size - 1 + 1 - (text.length + copied.length))
    (text ++ copied) ((0 :: rest).drop copied.length) (by simp; omega)
  rw [List.length_append] at hfill
  have hne : ¬ size - text.length = 0 := by omega
  simp only [mystrlcat, hscan, if_neg hne, hend]
  simp only [hcopy, hfill]
  have htext : text.drop size = [] := List.drop_eq_nil_of_le (by omega)
  rw [List.drop_drop, List.drop_append, htext]
  rw [show size - 1 + 1 - (text.length + copied.length) =
    size - text.length - copied.length by omega]
  rw [show copied.length + (size - text.length - copied.length) = size - text.length by omega]
  simp

/-- The string is longer by as much of `src` as leaves room for a NUL. -/
theorem cstr_mystrlcat_take {buf src : Bytes} {size : Nat} (hsrc : (0 : UInt8) ∉ src)
    (room : strlen buf < size) (hsize : size ≤ buf.length) :
    cstr (mystrlcat buf src size).1 = (cstr buf ++ src).take (size - 1) := by
  obtain ⟨rest, hbuf⟩ := eq_cstr_append buf (by omega)
  have hnul := nul_notMem_cstr buf
  have hlen : buf.length = (cstr buf).length + 1 + rest.length := by
    conv_lhs => rw [hbuf]
    simp
    omega
  unfold strlen at room
  generalize cstr buf = text at *
  have heq := mystrlcat_eq src hnul room (show size ≤ text.length + 1 + rest.length by omega)
  have htake : (text ++ src).take (size - 1) = text ++ src.take (size - 1 - text.length) := by
    rw [List.take_append, List.take_of_length_le (by omega : text.length ≤ size - 1)]
  have hcopied := List.length_take_le (size - 1 - text.length) src
  have hboth : (0 : UInt8) ∉ text ++ src.take (size - 1 - text.length) := by
    rw [List.mem_append, not_or]
    exact ⟨hnul, fun h => hsrc (List.mem_of_mem_take h)⟩
  obtain ⟨n, hn⟩ : ∃ n,
      size - text.length - (src.take (size - 1 - text.length)).length = n + 1 :=
    ⟨size - text.length - (src.take (size - 1 - text.length)).length - 1, by omega⟩
  rw [← hbuf, hn, List.replicate_succ] at heq
  rw [heq, htake]
  simpa using cstr_append_nul hboth (List.replicate n 0 ++ buf.drop size)

/-- With room for all of `src` the string is simply longer. -/
theorem cstr_mystrlcat {buf src : Bytes} {size : Nat} (hsrc : (0 : UInt8) ∉ src)
    (room : strlen buf + src.length < size) (hsize : size ≤ buf.length) :
    cstr (mystrlcat buf src size).1 = cstr buf ++ src := by
  rw [cstr_mystrlcat_take hsrc (by omega) hsize]
  refine List.take_of_length_le ?_
  rw [List.length_append]
  unfold strlen at room
  omega

theorem length_mystrlcatCopy (pde : Nat) (src dst : Bytes) (pd ps : Nat) :
    (mystrlcatCopy pde dst pd ps src).1.length = dst.length := by
  induction src generalizing dst pd ps with
  | nil => rfl
  | cons c src ih =>
      rw [mystrlcatCopy]
      split
      · rw [ih, List.length_set]
      · rfl

theorem length_mystrlcatFill (n : Nat) (dst : Bytes) (pd : Nat) :
    (mystrlcatFill dst pd n).length = dst.length := by
  induction n generalizing dst pd with
  | zero => rfl
  | succ n ih => rw [mystrlcatFill, ih, List.length_set]

@[simp] theorem length_mystrlcat (dst src : Bytes) (size : Nat) :
    (mystrlcat dst src size).1.length = dst.length := by
  unfold mystrlcat
  dsimp only
  split
  · rfl
  · rw [length_mystrlcatFill, length_mystrlcatCopy]

end NetworkProgram.Libc
