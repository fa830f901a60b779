import Mathlib.Data.List.Perm.Basic
import Mathlib.Data.List.ReduceOption

set_option autoImplicit false

/-!
# Foundation: tables of places with holes

A table is a list of places, each free or holding an item.  Items are put into
holes and taken out again in any order, and a high-water mark bounds the places
ever used.  What such a table holds is `List.reduceOption` of it.
-/

namespace NetworkProgram.Foundation.Slots

variable {α : Type}

/-- From `top` on every place is free. -/
structure Marked (places : List (Option α)) (top : Nat) : Prop where
  le : top ≤ places.length
  lt_of_held : ∀ i a, places[i]? = some (some a) → i < top

theorem Marked.getElem?_eq_none {places : List (Option α)} {top i : Nat} (h : Marked places top)
    (hi : top ≤ i) (hlt : i < places.length) : places[i]? = some none := by
  rw [List.getElem?_eq_getElem hlt]
  cases hget : places[i] with
  | none => rfl
  | some a =>
      have := h.lt_of_held i a (by rw [List.getElem?_eq_getElem hlt, hget])
      omega

/-! ## What a table holds -/

/-- Writing one place exchanges what it held for what it holds now. -/
theorem perm_reduceOption_set {places : List (Option α)} {i : Nat} {old : Option α}
    (h : places[i]? = some old) (new : Option α) :
    (old.toList ++ (places.set i new).reduceOption).Perm
      (new.toList ++ places.reduceOption) := by
  induction places generalizing i with
  | nil => cases h
  | cons x places ih =>
      cases i with
      | zero =>
          obtain rfl : x = old := Option.some.inj h
          cases x <;> cases new <;>
            simp [List.reduceOption_cons_of_some, List.reduceOption_cons_of_none, List.Perm.swap]
      | succ i =>
          have hrest := ih (i := i) h
          cases x with
          | none => simpa [List.reduceOption_cons_of_none] using hrest
          | some a =>
              simp only [List.set_cons_succ, List.reduceOption_cons_of_some]
              exact List.perm_middle.trans ((hrest.cons a).trans List.perm_middle.symm)

/-- A new item in a free place. -/
theorem perm_reduceOption_put {places : List (Option α)} {i : Nat} (h : places[i]? = some none)
    (a : α) : ((places.set i (some a)).reduceOption).Perm (a :: places.reduceOption) :=
  perm_reduceOption_set h (some a)

/-- An item is taken out. -/
theorem perm_reduceOption_take {places : List (Option α)} {i : Nat} {a : α}
    (h : places[i]? = some (some a)) :
    (a :: (places.set i none).reduceOption).Perm places.reduceOption :=
  perm_reduceOption_set h none

theorem mem_reduceOption {places : List (Option α)} {a : α} :
    a ∈ places.reduceOption ↔ ∃ i : Nat, places[i]? = some (some a) := by
  rw [List.reduceOption_mem_iff, List.mem_iff_getElem?]

/-- Taking an item out of a table without duplicates leaves the others. -/
theorem mem_reduceOption_take {places : List (Option α)} {i : Nat} {a b : α}
    (hnodup : places.reduceOption.Nodup) (h : places[i]? = some (some a)) :
    b ∈ (places.set i none).reduceOption ↔ b ∈ places.reduceOption ∧ b ≠ a := by
  have hperm := perm_reduceOption_take h
  have hcons := hperm.nodup_iff.mpr hnodup
  rw [← hperm.mem_iff, List.mem_cons]
  constructor
  · intro hb
    refine ⟨.inr hb, ?_⟩
    rintro rfl
    exact (List.nodup_cons.mp hcons).1 hb
  · intro hb
    exact hb.1.resolve_left hb.2

/-- Without duplicates an item has one place. -/
theorem index_unique {places : List (Option α)} {i j : Nat} {a : α}
    (hnodup : places.reduceOption.Nodup) (hi : places[i]? = some (some a))
    (hj : places[j]? = some (some a)) : i = j := by
  by_contra hne
  have hkept : a ∈ (places.set i none).reduceOption :=
    mem_reduceOption.mpr ⟨j, by rw [List.getElem?_set_ne hne, hj]⟩
  exact ((mem_reduceOption_take hnodup hi).mp hkept).2 rfl

/-! ## The high-water mark -/

/-- The places below the mark hold all that the table holds. -/
theorem Marked.reduceOption_take {places : List (Option α)} {top : Nat} (h : Marked places top) :
    (places.take top).reduceOption = places.reduceOption := by
  have htail : (places.drop top).reduceOption = [] := by
    rw [List.eq_nil_iff_forall_not_mem]
    intro a ha
    obtain ⟨i, hi⟩ := mem_reduceOption.mp ha
    rw [List.getElem?_drop] at hi
    have := h.lt_of_held _ _ hi
    omega
  conv_rhs => rw [← List.take_append_drop top places, List.reduceOption_append, htail]
  exact (List.append_nil _).symm

theorem Marked.replicate_none (n : Nat) : Marked (List.replicate n (none : Option α)) 0 where
  le := Nat.zero_le _
  lt_of_held := by
    intro i a h
    rw [List.getElem?_replicate] at h
    split at h <;> simp at h

/-- Freeing a place, or using a hole below the mark, keeps the mark. -/
theorem Marked.set {places : List (Option α)} {top i : Nat} (h : Marked places top)
    {new : Option α} (hi : new = none ∨ i < top) : Marked (places.set i new) top where
  le := by
    rw [List.length_set]
    exact h.le
  lt_of_held := by
    intro j a hj
    rw [List.getElem?_set] at hj
    split at hj
    · rename_i heq
      subst heq
      split at hj
      · rcases hi with rfl | hi
        · simp at hj
        · exact hi
      · cases hj
    · exact h.lt_of_held j a hj

/-- Using the place at the mark raises it. -/
theorem Marked.push {places : List (Option α)} {top : Nat} (h : Marked places top)
    (hroom : top < places.length) (a : α) : Marked (places.set top (some a)) (top + 1) where
  le := by
    rw [List.length_set]
    exact hroom
  lt_of_held := by
    intro j b hj
    rcases Nat.lt_or_ge j (top + 1) with hlt | hge
    · exact hlt
    · rw [List.getElem?_set_ne (by omega)] at hj
      exact Nat.lt_succ_of_lt (h.lt_of_held j b hj)

theorem Marked.length_le {places : List (Option α)} {top : Nat} (h : Marked places top) :
    places.reduceOption.length ≤ top := by
  rw [← h.reduceOption_take]
  exact Nat.le_trans (List.reduceOption_length_le _) (List.length_take_le _ _)

/-- Without a hole below the mark the table holds `top` items. -/
theorem Marked.length_eq {places : List (Option α)} {top : Nat} (h : Marked places top)
    (hfull : ∀ i, i < top → places[i]? ≠ some none) : places.reduceOption.length = top := by
  have hall : ∀ x ∈ places.take top, x.isSome := by
    intro x hx
    obtain ⟨i, hi⟩ := List.mem_iff_getElem?.mp hx
    rw [List.getElem?_take] at hi
    split at hi
    · rename_i hlt
      cases x with
      | none => exact absurd hi (hfull i hlt)
      | some a => rfl
    · cases hi
  rw [← h.reduceOption_take, List.reduceOption_length_eq_iff.mpr hall, List.length_take_of_le h.le]

/-- With a hole below the mark it holds fewer. -/
theorem Marked.length_lt {places : List (Option α)} {top i : Nat} (h : Marked places top)
    (hi : i < top) (hole : places[i]? = some none) : places.reduceOption.length < top := by
  have hmem : none ∈ places.take top := by
    rw [List.mem_iff_getElem?]
    exact ⟨i, by rw [List.getElem?_take, if_pos hi, hole]⟩
  rw [← h.reduceOption_take]
  calc (places.take top).reduceOption.length
      < (places.take top).length := List.reduceOption_length_lt_iff.mpr hmem
    _ ≤ top := List.length_take_le _ _

end NetworkProgram.Foundation.Slots
