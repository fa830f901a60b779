import Mathlib.Logic.Function.Basic
import Mathlib.Data.List.Basic

set_option autoImplicit false

/-!
# Foundation: ring buffers

A ring of `N` cells with a front index, from which a consumer takes, and a last
index, into which a producer writes.  `front = last` means empty, so a ring of
`N` cells is full when it holds `N - 1` elements.  The list `contents` is what
the ring stands for; the lemmas say how the index operations act on it, also in
the case where the producer overruns the ring.
-/

namespace NetworkProgram.Foundation.Ring

variable {α : Type}

/-- The index after `i`. -/
def next (N i : Nat) : Nat := (i + 1) % N

/-- How many cells lie from `front` up to `last`. -/
def depth (N front last : Nat) : Nat := (last + N - front) % N

/-- The index of the `k`-th cell from `front`. -/
def index (N front k : Nat) : Nat := (front + k) % N

/-- The cells from `front` up to `last`, in order. -/
def contents (N front last : Nat) (data : Nat → α) : List α :=
  (List.range (depth N front last)).map fun k => data (index N front k)

/-! ## Index arithmetic

The three functions as case distinctions, which linear arithmetic can use. -/

theorem next_eq {N i : Nat} (h : i < N) : next N i = if i + 1 = N then 0 else i + 1 := by
  unfold next
  split
  · rename_i heq
    rw [heq, Nat.mod_self]
  · exact Nat.mod_eq_of_lt (by omega)

theorem depth_eq {N front last : Nat} (hf : front < N) (hl : last < N) :
    depth N front last = if front ≤ last then last - front else last + N - front := by
  unfold depth
  split
  · have hsplit : last + N - front = (last - front) + N := by omega
    rw [hsplit, Nat.add_mod_right]
    exact Nat.mod_eq_of_lt (by omega)
  · exact Nat.mod_eq_of_lt (by omega)

theorem index_eq {N front k : Nat} (hf : front < N) (hk : k < N) :
    index N front k = if front + k < N then front + k else front + k - N := by
  unfold index
  split
  · rename_i hlt
    exact Nat.mod_eq_of_lt hlt
  · rw [Nat.mod_eq_sub_mod (by omega)]
    exact Nat.mod_eq_of_lt (by omega)

theorem next_lt {N i : Nat} (h : 0 < N) : next N i < N := Nat.mod_lt _ h

theorem depth_lt {N : Nat} (front last : Nat) (h : 0 < N) : depth N front last < N :=
  Nat.mod_lt _ h

section Indices

variable {N front last : Nat} (hf : front < N) (hl : last < N)
include hf hl

theorem depth_eq_zero_iff : depth N front last = 0 ↔ last = front := by
  rw [depth_eq hf hl]
  split <;> omega

/-- With a cell to spare the producer's advance lengthens the ring by one. -/
theorem depth_next_last (room : depth N front last + 1 < N) :
    depth N front (next N last) = depth N front last + 1 := by
  have hn : next N last < N := next_lt (by omega)
  rw [depth_eq hf hl] at room ⊢
  rw [depth_eq hf hn, next_eq hl]
  split_ifs at * <;> omega

/-- Without one it empties the ring. -/
theorem next_last_eq_front (full : depth N front last + 1 = N) : next N last = front := by
  rw [depth_eq hf hl] at full
  rw [next_eq hl]
  split_ifs at * <;> omega

theorem next_last_ne_front (room : depth N front last + 1 < N) : next N last ≠ front := by
  rw [depth_eq hf hl] at room
  rw [next_eq hl]
  split_ifs at * <;> omega

theorem depth_next_front (nonempty : last ≠ front) :
    depth N (next N front) last + 1 = depth N front last := by
  have hn : next N front < N := next_lt (by omega)
  rw [depth_eq hn hl, depth_eq hf hl, next_eq hf]
  split_ifs <;> omega

theorem index_ne_last {k : Nat} (hk : k < depth N front last) : index N front k ≠ last := by
  have hN : depth N front last < N := depth_lt front last (by omega)
  rw [depth_eq hf hl] at hk hN
  rw [index_eq hf (by omega)]
  split_ifs at * <;> omega

theorem index_depth : index N front (depth N front last) = last := by
  have hN : depth N front last < N := depth_lt front last (by omega)
  rw [index_eq hf hN, depth_eq hf hl]
  split_ifs <;> omega

/-- The cell just before the front is none of the ring's cells. -/
theorem index_ne_of_next_eq_front {i k : Nat} (hi : i < N) (before : next N i = front)
    (hk : k < depth N front last) : index N front k ≠ i := by
  have hN : depth N front last < N := depth_lt front last (by omega)
  rw [next_eq hi] at before
  rw [depth_eq hf hl] at hk hN
  rw [index_eq hf (by omega)]
  split_ifs at * <;> omega

/-- The cell just before the front is the one at `last` only in a full ring. -/
theorem ne_last_of_next_eq_front {i : Nat} (hi : i < N) (before : next N i = front)
    (room : depth N front last + 1 < N) : last ≠ i := by
  rw [next_eq hi] at before
  rw [depth_eq hf hl] at room
  split_ifs at * <;> omega

end Indices

/-- Different offsets are different cells. -/
theorem index_injective {N front j k : Nat} (hf : front < N) (hj : j < N) (hk : k < N)
    (h : index N front j = index N front k) : j = k := by
  rw [index_eq hf hj, index_eq hf hk] at h
  split_ifs at h <;> omega

theorem index_zero {N front : Nat} (hf : front < N) : index N front 0 = front := by
  rw [index, Nat.add_zero, Nat.mod_eq_of_lt hf]

theorem index_next_front {N front k : Nat} : index N (next N front) k = index N front (k + 1) := by
  rw [index, index, next, Nat.mod_add_mod, Nat.add_right_comm, Nat.add_assoc]

/-! ## Contents -/

theorem length_contents {N front last : Nat} (data : Nat → α) :
    (contents N front last data).length = depth N front last := by
  simp [contents]

/-- Only the cells from front to last count. -/
theorem contents_congr {N front last : Nat} {data data' : Nat → α}
    (h : ∀ k, k < depth N front last → data' (index N front k) = data (index N front k)) :
    contents N front last data' = contents N front last data := by
  unfold contents
  exact List.map_congr_left fun k hk => h k (List.mem_range.mp hk)

section Contents

variable {N front last : Nat} (hf : front < N) (hl : last < N)
include hf hl

theorem contents_eq_nil_iff {data : Nat → α} :
    contents N front last data = [] ↔ last = front := by
  rw [← depth_eq_zero_iff hf hl, ← length_contents data, List.length_eq_zero_iff]

/-- The producer owns the cell at `last`: writing there changes no contents. -/
theorem contents_update_last (data : Nat → α) (x : α) :
    contents N front last (Function.update data last x) = contents N front last data :=
  contents_congr fun _ hk => Function.update_of_ne (index_ne_last hf hl hk) _ _

/-- The consumer owns the cell it has just taken. -/
theorem contents_update_taken {i : Nat} (hi : i < N) (before : next N i = front)
    (data : Nat → α) (x : α) :
    contents N front last (Function.update data i x) = contents N front last data :=
  contents_congr fun _ hk =>
    Function.update_of_ne (index_ne_of_next_eq_front hf hl hi before hk) _ _

theorem contents_push (room : depth N front last + 1 < N) (data : Nat → α) :
    contents N front (next N last) data = contents N front last data ++ [data last] := by
  rw [contents, contents, depth_next_last hf hl room, List.range_succ, List.map_append,
    List.map_singleton, index_depth hf hl]

/-- The overrun: a full ring becomes an empty one. -/
theorem contents_overrun (full : depth N front last + 1 = N) (data : Nat → α) :
    contents N front (next N last) data = [] := by
  have hn : next N last < N := next_lt (by omega)
  exact (contents_eq_nil_iff hf hn).mpr (next_last_eq_front hf hl full)

theorem contents_pop (nonempty : last ≠ front) (data : Nat → α) :
    contents N front last data = data front :: contents N (next N front) last data := by
  rw [contents, contents, ← depth_next_front hf hl nonempty, List.range_succ_eq_map,
    List.map_cons, index_zero hf, List.map_map]
  refine congrArg _ (List.map_congr_left fun k _ => ?_)
  rw [Function.comp_apply, index_next_front]

end Contents

end NetworkProgram.Foundation.Ring
