import Mathlib.Data.List.Basic
import Mathlib.Data.List.Induction
import Mathlib.Data.List.Pairwise
import Mathlib.Logic.Function.Basic

set_option autoImplicit false

/-!
# Foundation: resources with numbers

A resource is opened under a number that is free, and closed by its number.  Who chooses
the number is left open (`Allocation`); a program that keeps some of what it opened and
closes the rest leaves the table it found, with what it kept besides.
-/

namespace NetworkProgram.Foundation

/-- The open resources by their numbers. -/
abbrev Handles (κ : Type) : Type := Nat → Option κ

/-- How the number for a new resource is chosen. -/
structure Allocation (κ : Type) where
  gives : Handles κ → Nat → Prop
  decides : ∀ t d, Decidable (gives t d)
  free : ∀ {t d}, gives t d → t d = none

namespace Allocation

variable {κ : Type}

instance (alloc : Allocation κ) (t : Handles κ) (d : Nat) : Decidable (alloc.gives t d) :=
  alloc.decides t d

/-- Any number that is free. -/
def any (κ : Type) : Allocation κ where
  gives t d := t d = none
  decides _ _ := inferInstance
  free h := h

/-- The lowest number that is free. -/
def lowest (κ : Type) : Allocation κ where
  gives t d := t d = none ∧ ∀ e, e < d → t e ≠ none
  decides _ d := inferInstanceAs (Decidable (_ ∧ ∀ e, e < d → _))
  free h := h.1

end Allocation

namespace Handles

variable {κ : Type} {t : Handles κ} {d e : Nat} {x y : κ}

/-- Number `d` is now of `x`. -/
def hold (t : Handles κ) (d : Nat) (x : κ) : Handles κ := Function.update t d (some x)

def close (t : Handles κ) (d : Nat) : Handles κ := Function.update t d none

@[simp] theorem hold_self : t.hold d x d = some x := Function.update_self ..

@[simp] theorem hold_hold : (t.hold d x).hold d y = t.hold d y := Function.update_idem ..

theorem hold_of_ne (h : e ≠ d) : t.hold d x e = t e := Function.update_of_ne h ..

theorem close_hold (h : t d = none) : (t.hold d x).close d = t := by
  rw [close, hold, Function.update_idem, ← h, Function.update_eq_self]

/-! ## What is kept -/

/-- The resources of `kept` besides those of `t`. -/
def besides (t : Handles κ) (kept : List (Nat × κ)) : Handles κ :=
  kept.foldl (fun t p => t.hold p.1 p.2) t

theorem besides_concat (kept : List (Nat × κ)) (d : Nat) (x : κ) :
    t.besides (kept ++ [(d, x)]) = (t.besides kept).hold d x := by
  rw [besides, List.foldl_append]
  rfl

theorem besides_of_notMem {kept : List (Nat × κ)} (h : d ∉ kept.map Prod.fst) :
    t.besides kept d = t d := by
  induction kept using List.reverseRecOn with
  | nil => rfl
  | append_singleton kept p ih =>
      rw [List.map_append, List.mem_append, not_or] at h
      have hne : d ≠ p.1 := fun heq => h.2 (List.mem_singleton.mpr heq)
      rw [besides_concat, hold_of_ne hne, ih h.1]

theorem besides_of_mem {kept : List (Nat × κ)} (nodup : (kept.map Prod.fst).Nodup)
    (h : (d, x) ∈ kept) : t.besides kept d = some x := by
  induction kept using List.reverseRecOn with
  | nil => cases h
  | append_singleton kept p ih =>
      rw [List.map_append, List.nodup_append] at nodup
      rcases List.mem_append.mp h with hmem | hmem
      · have hne : d ≠ p.1 := nodup.2.2 d (List.mem_map_of_mem hmem) p.1 (List.mem_singleton_self _)
        rw [besides_concat, hold_of_ne hne, ih nodup.1 hmem]
      · obtain rfl := List.mem_singleton.mp hmem
        rw [besides_concat, hold_self]

/-- Only if nothing was kept the table is the one that was found. -/
theorem eq_nil_of_besides {kept : List (Nat × κ)} (nodup : (kept.map Prod.fst).Nodup)
    (free : ∀ d ∈ kept.map Prod.fst, t d = none) (h : t.besides kept = t) : kept = [] := by
  rcases kept with _ | ⟨⟨d, x⟩, kept⟩
  · rfl
  · have hheld := besides_of_mem (t := t) nodup List.mem_cons_self
    rw [h, free d List.mem_cons_self] at hheld
    cases hheld

/-! ## The lowest number -/

/-- No number up to `d` is free. -/
def FullTo (t : Handles κ) (d : Nat) : Prop := ∀ e, e ≤ d → t e ≠ none

theorem FullTo.lt (full : t.FullTo d) (free : t e = none) : d < e := by
  by_contra hle
  exact full e (Nat.le_of_not_lt hle) free

theorem FullTo.hold (full : t.FullTo d) (e : Nat) (x : κ) : (t.hold e x).FullTo d := by
  intro f hf
  rcases eq_or_ne f e with rfl | hne
  · rw [hold_self]
    exact Option.some_ne_none x
  · rw [hold_of_ne hne]
    exact full f hf

theorem fullTo_hold (h : (Allocation.lowest κ).gives t d) (x : κ) : (t.hold d x).FullTo d := by
  intro f hf
  rcases eq_or_ne f d with rfl | hne
  · rw [hold_self]
    exact Option.some_ne_none x
  · rw [hold_of_ne hne]
    exact h.2 f (Nat.lt_of_le_of_ne hf hne)

end Handles

end NetworkProgram.Foundation
