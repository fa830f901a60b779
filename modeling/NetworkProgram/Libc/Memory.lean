import NetworkProgram.Libc.Strings

set_option autoImplicit false

/-!
# Libc: blocks of memory

`malloc`, `realloc`, `memcpy` and `snprintf` on buffers.  What stands in memory
that nobody wrote yet is a parameter.
-/

namespace NetworkProgram.Libc

/-- Memory of `size` bytes with whatever contents it has. -/
def block (contents : Nat → UInt8) (size : Nat) : Bytes := (List.range size).map contents

/-- What the allocator gives for each size: no memory, or memory with any contents. -/
abbrev Heap : Type := Nat → Option (Nat → UInt8)

/-- An allocator that always has memory. -/
def Heap.ample (contents : Nat → Nat → UInt8) : Heap := fun size => some (contents size)

def malloc (heap : Heap) (size : Nat) : Option Bytes := (heap size).map (block · size)

/-- The old contents up to the new size, and new memory behind them. -/
def realloc (heap : Heap) (data : Bytes) (size : Nat) : Option Bytes :=
  (heap size).map fun contents => data.take size ++ (block contents size).drop data.length

/-- `memcpy(&data[pos], src, n)`, with the `n` bytes `src`. -/
def memcpy (data : Bytes) (pos : Nat) (src : Bytes) : Bytes :=
  data.take pos ++ src ++ data.drop (pos + src.length)

/-- `snprintf(buf, sizeof(buf), "%s", text)`: the buffer, and the length the whole
text has. -/
def snprintf (buf text : Bytes) : Bytes × Nat :=
  (memcpy buf 0 (text.take (buf.length - 1) ++ [0]), text.length)

@[simp] theorem length_block (contents : Nat → UInt8) (size : Nat) :
    (block contents size).length = size := by
  rw [block, List.length_map, List.length_range]

/-- `memcpy` behind a text that fills the buffer up to there. -/
theorem memcpy_append (text src tail : Bytes) :
    memcpy (text ++ tail) text.length src = text ++ src ++ tail.drop src.length := by
  rw [memcpy, List.take_left, List.drop_append, List.drop_eq_nil_of_le (Nat.le_add_right _ _),
    List.nil_append, Nat.add_sub_cancel_left]

theorem length_memcpy {data src : Bytes} {pos : Nat} (h : pos + src.length ≤ data.length) :
    (memcpy data pos src).length = data.length := by
  rw [memcpy, List.length_append, List.length_append, List.length_take, List.length_drop]
  omega

theorem length_snprintf {buf : Bytes} (h : 0 < buf.length) (text : Bytes) :
    (snprintf buf text).1.length = buf.length := by
  refine length_memcpy ?_
  rw [List.length_append, List.length_take, List.length_singleton]
  omega

/-- A text that fits is what `send` finds in the buffer. -/
theorem snprintf_fits {buf text : Bytes} (h : text.length < buf.length) :
    (snprintf buf text).1.take (snprintf buf text).2 = text := by
  have hfits : text.length ≤ buf.length - 1 := by omega
  dsimp only [snprintf]
  rw [List.take_of_length_le hfits, memcpy, List.take_zero, List.nil_append, List.append_assoc,
    List.take_left]

/-- The string in the buffer is as much of the text as fits. -/
theorem cstr_snprintf {buf text : Bytes} (h : (0 : UInt8) ∉ text) :
    cstr (snprintf buf text).1 = text.take (buf.length - 1) := by
  dsimp only [snprintf, memcpy]
  rw [List.take_zero, List.nil_append, List.append_assoc]
  exact cstr_append_nul (fun hmem => h (List.mem_of_mem_take hmem)) _

theorem malloc_ample (contents : Nat → Nat → UInt8) (size : Nat) :
    malloc (.ample contents) size = some (block (contents size) size) := rfl

/-- More memory, and the old contents at its start. -/
theorem realloc_ample (contents : Nat → Nat → UInt8) {data : Bytes} {size : Nat}
    (h : data.length ≤ size) :
    ∃ tail, realloc (.ample contents) data size = some (data ++ tail) ∧
      (data ++ tail).length = size := by
  refine ⟨(block (contents size) size).drop data.length, ?_, ?_⟩
  · rw [realloc, Heap.ample, Option.map_some, List.take_of_length_le h]
  · rw [List.length_append, List.length_drop, length_block, Nat.add_sub_cancel' h]

end NetworkProgram.Libc
