import Mathlib.Data.List.Nodup
import Mathlib.Data.Finset.Card
import NetworkProgram.Foundation.Handles

set_option autoImplicit false

/-!
# Foundation: programs with a heap

The blocks of a heap have numbers, and a number comes once only, so that a pointer to a block
that was freed points to nothing.  A program that reads, writes or frees where there is no
block has no meaning; it may end early, with an exit.  What a program has changed and taken
(`Grows`) and given back (`Releases`) is told by the numbers of the blocks; if it gives back
what it took and changed nothing else, the blocks are those that were there.
-/

namespace NetworkProgram.Foundation

/-- `none` is NULL. -/
abbrev Pointer : Type := Option Nat

/-- The blocks, and how many have been asked for. -/
structure Heap (B : Type) where
  blocks : Handles B
  next : Nat
  unused : ∀ d, next ≤ d → blocks d = none

namespace Heap

variable {B : Type}

def empty : Heap B where
  blocks := fun _ => none
  next := 0
  unused := fun _ _ => rfl

/-- The next block. -/
def add (h : Heap B) (b : B) : Heap B where
  blocks := h.blocks.hold h.next b
  next := h.next + 1
  unused := fun d hd => by
    rw [Handles.hold_of_ne (Nat.ne_of_gt hd)]
    exact h.unused d (Nat.le_of_succ_le hd)

/-- A block was asked for, and there was no room. -/
def refuse (h : Heap B) : Heap B where
  blocks := h.blocks
  next := h.next + 1
  unused := fun d hd => h.unused d (Nat.le_of_succ_le hd)

theorem lt_of_block {h : Heap B} {d : Nat} {b : B} (hd : h.blocks d = some b) : d < h.next := by
  by_contra hle
  rw [h.unused d (Nat.le_of_not_lt hle)] at hd
  cases hd

/-- Another content for a block. -/
def set (h : Heap B) (d : Nat) (b : B) (hd : h.blocks d ≠ none) : Heap B where
  blocks := h.blocks.hold d b
  next := h.next
  unused := fun e he => by
    obtain ⟨a, ha⟩ := Option.ne_none_iff_exists'.mp hd
    rw [Handles.hold_of_ne (Nat.ne_of_gt (Nat.lt_of_lt_of_le (lt_of_block ha) he))]
    exact h.unused e he

def drop (h : Heap B) (d : Nat) : Heap B where
  blocks := h.blocks.close d
  next := h.next
  unused := fun e he => by
    rcases eq_or_ne e d with rfl | hne
    · exact Function.update_self ..
    · rw [Handles.close, Function.update_of_ne hne]
      exact h.unused e he

/-- There are no more blocks than were asked for. -/
theorem length_le_next {h : Heap B} {ds : List Nat} (nodup : ds.Nodup)
    (live : ∀ d ∈ ds, h.blocks d ≠ none) : ds.length ≤ h.next := by
  have hsub : ds ⊆ List.range h.next := fun d hd => by
    obtain ⟨b, hb⟩ := Option.ne_none_iff_exists'.mp (live d hd)
    exact List.mem_range.mpr (lt_of_block hb)
  have hle := (List.subperm_of_subset nodup hsub).length_le
  rwa [List.length_range] at hle

end Heap

/-! ## Programs -/

variable {B E α β : Type}

/-- What a program makes of a heap; `none` where the behaviour is undefined. -/
def HeapProgram (B E α : Type) : Type := Heap B → Option (Except E α × Heap B)

namespace HeapProgram

instance : Monad (HeapProgram B E) where
  pure a := fun h => some (.ok a, h)
  bind m f := fun h =>
    match m h with
    | none => none
    | some (.error e, h') => some (.error e, h')
    | some (.ok a, h') => f a h'

/-- The end of the program. -/
def exit (e : E) : HeapProgram B E α := fun h => some (.error e, h)

def undefined : HeapProgram B E α := fun _ => none

/-- `malloc`: NULL where `grants` says so of the number of the call and the size. -/
def malloc (grants : Nat → Nat → Bool) (size : Nat) (b : B) : HeapProgram B E Pointer := fun h =>
  if grants h.next size then some (.ok (some h.next), h.add b) else some (.ok none, h.refuse)

/-- What the view shows of the block. -/
def read (p : Pointer) (view : B → Option α) : HeapProgram B E α := fun h =>
  match (p.bind h.blocks).bind view with
  | none => none
  | some a => some (.ok a, h)

def write (p : Pointer) (change : B → Option B) : HeapProgram B E Unit := fun h =>
  match p with
  | none => none
  | some d =>
      if live : h.blocks d ≠ none then
        ((h.blocks d).bind change).map fun b => (.ok (), h.set d b live)
      else none

/-- Of NULL nothing is freed. -/
def free (p : Pointer) : HeapProgram B E Unit := fun h =>
  match p with
  | none => some (.ok (), h)
  | some d => if (h.blocks d).isSome then some (.ok (), h.drop d) else none

/-- How many blocks have been asked for. -/
def asked : HeapProgram B E Nat := fun h => some (.ok h.next, h)

/-- The program is defined; it exits as `exits` says, or ends as `Q` says. -/
def Ensures (m : HeapProgram B E α) (h : Heap B) (exits : E → Prop) (Q : α → Heap B → Prop) :
    Prop :=
  match m h with
  | none => False
  | some (.error e, _) => exits e
  | some (.ok a, h') => Q a h'

end HeapProgram

/-! ## What a program has taken and given back -/

namespace Heap

variable {h h' h'' : Heap B} {cs cs' ds es : List Nat} {d : Nat} {b : B}

/-- Nothing but the blocks `cs` has changed, and the blocks `ds` have come. -/
structure Grows (h h' : Heap B) (cs ds : List Nat) : Prop where
  same : ∀ d, d ∉ cs → d ∉ ds → h'.blocks d = h.blocks d
  live : ∀ d, h.blocks d ≠ none → h'.blocks d ≠ none
  fresh : ∀ d ∈ ds, h.blocks d = none

/-- Blocks `ds` are gone. -/
structure Releases (h h' : Heap B) (ds : List Nat) : Prop where
  same : ∀ d, d ∉ ds → h'.blocks d = h.blocks d
  gone : ∀ d ∈ ds, h'.blocks d = none

namespace Grows

theorem refl (h : Heap B) : h.Grows h [] [] where
  same := fun _ _ _ => rfl
  live := fun _ hd => hd
  fresh := fun _ hd => absurd hd List.not_mem_nil

theorem add (h : Heap B) (b : B) : h.Grows (h.add b) [] [h.next] where
  same := fun _ _ hd => Handles.hold_of_ne fun heq => hd (List.mem_singleton.mpr heq)
  live := fun d hd => by
    obtain ⟨a, ha⟩ := Option.ne_none_iff_exists'.mp hd
    exact ne_of_eq_of_ne (Handles.hold_of_ne (Nat.ne_of_lt (lt_of_block ha))) hd
  fresh := fun d hd => by
    rw [List.mem_singleton.mp hd]
    exact h.unused _ (Nat.le_refl _)

theorem set (live : h.blocks d ≠ none) : h.Grows (h.set d b live) [d] [] where
  same := fun _ he _ => Handles.hold_of_ne fun heq => he (List.mem_singleton.mpr heq)
  live := fun e he => by
    rcases eq_or_ne e d with rfl | hne
    · exact ne_of_eq_of_ne Handles.hold_self (Option.some_ne_none b)
    · exact ne_of_eq_of_ne (Handles.hold_of_ne hne) he
  fresh := fun _ he => absurd he List.not_mem_nil

/-- What the second has changed of the first's new blocks is new. -/
theorem trans {as : List Nat} (first : h.Grows h' cs ds) (second : h'.Grows h'' cs' es)
    (hsub : cs ++ cs' ⊆ as ++ ds) : h.Grows h'' as (ds ++ es) where
  same := fun d ha hd => by
    rw [List.mem_append, not_or] at hd
    have hmem : d ∉ cs ++ cs' := fun hmem => (List.mem_append.mp (hsub hmem)).elim ha hd.1
    rw [List.mem_append, not_or] at hmem
    rw [second.same d hmem.2 hd.2, first.same d hmem.1 hd.1]
  live := fun d hd => second.live d (first.live d hd)
  fresh := fun d hd => by
    rcases List.mem_append.mp hd with hmem | hmem
    · exact first.fresh d hmem
    · by_contra hlive
      exact first.live d hlive (second.fresh d hmem)

theorem mono (first : h.Grows h' cs ds) (as : List Nat) : h.Grows h' (as ++ cs) ds where
  same := fun d hc hd => first.same d (fun hmem => hc (List.mem_append_right _ hmem)) hd
  live := first.live
  fresh := first.fresh

theorem of_mem_iff (first : h.Grows h' cs ds) (hmem : ∀ d, d ∈ ds ↔ d ∈ es) :
    h.Grows h' cs es where
  same := fun d hc hd => first.same d hc fun hds => hd ((hmem d).mp hds)
  live := first.live
  fresh := fun d hd => first.fresh d ((hmem d).mpr hd)

/-- What was there is there. -/
theorem blocks_eq (first : h.Grows h' cs ds) (hd : h.blocks d ≠ none) (hc : d ∉ cs) :
    h'.blocks d = h.blocks d :=
  first.same d hc fun hmem => hd (first.fresh d hmem)

theorem held (first : h.Grows h' cs ds) (hd : h.blocks d = some b) (hc : d ∉ cs) :
    h'.blocks d = some b :=
  (first.blocks_eq (by rw [hd]; exact Option.some_ne_none b) hc).trans hd

/-- New blocks are others than those that were there. -/
theorem notMem (first : h.Grows h' cs ds) (hd : h.blocks d ≠ none) : d ∉ ds :=
  fun hmem => hd (first.fresh d hmem)

/-- What was taken is given back. -/
theorem restored (first : h.Grows h' [] ds) (second : h'.Releases h'' es)
    (hmem : ∀ d, d ∈ ds ↔ d ∈ es) : h''.blocks = h.blocks := by
  funext d
  by_cases hd : d ∈ ds
  · rw [second.gone d ((hmem d).mp hd), first.fresh d hd]
  · rw [second.same d (fun he => hd ((hmem d).mpr he)), first.same d List.not_mem_nil hd]

end Grows

namespace Releases

theorem refl (h : Heap B) : h.Releases h [] where
  same := fun _ _ => rfl
  gone := fun _ hd => absurd hd List.not_mem_nil

theorem drop (h : Heap B) (d : Nat) : h.Releases (h.drop d) [d] where
  same := fun _ he => Function.update_of_ne (fun heq => he (List.mem_singleton.mpr heq)) _ _
  gone := fun e he => by
    rw [List.mem_singleton.mp he]
    exact Function.update_self ..

/-- A block that stays. -/
theorem held (first : h.Releases h' ds) (hd : h.blocks d = some b) (hds : d ∉ ds) :
    h'.blocks d = some b :=
  (first.same d hds).trans hd

theorem trans (first : h.Releases h' ds) (second : h'.Releases h'' es) :
    h.Releases h'' (ds ++ es) where
  same := fun d hd => by
    rw [List.mem_append, not_or] at hd
    rw [second.same d hd.2, first.same d hd.1]
  gone := fun d hd => by
    by_cases hmem : d ∈ es
    · exact second.gone d hmem
    · rw [second.same d hmem]
      exact first.gone d ((List.mem_append.mp hd).resolve_right hmem)

/-- From a heap with the same blocks. -/
theorem of_blocks (first : h'.Releases h'' ds) (same : h'.blocks = h.blocks) :
    h.Releases h'' ds where
  same := fun d hd => (first.same d hd).trans (congrFun same d)
  gone := first.gone

theorem of_mem_iff (first : h.Releases h' ds) (hmem : ∀ d, d ∈ ds ↔ d ∈ es) :
    h.Releases h' es where
  same := fun d hd => first.same d fun hds => hd ((hmem d).mp hds)
  gone := fun d hd => first.gone d ((hmem d).mpr hd)

end Releases

end Heap

/-! ## Rules -/

namespace HeapProgram

variable {m : HeapProgram B E α} {f : α → HeapProgram B E β} {h : Heap B} {exits : E → Prop}
  {Q : α → Heap B → Prop} {R : β → Heap B → Prop} {d : Nat} {b : B}

theorem ensures_pure {a : α} (ha : Q a h) : Ensures (pure a) h exits Q := ha

theorem ensures_exit {e : E} (he : exits e) : Ensures (exit e) h exits Q := he

theorem Ensures.bind (hm : Ensures m h exits Q)
    (hf : ∀ a h', Q a h' → Ensures (f a) h' exits R) : Ensures (m >>= f) h exits R := by
  have hbind : (m >>= f) h = match m h with
      | none => none
      | some (.error e, h') => some (.error e, h')
      | some (.ok a, h') => f a h' := rfl
  unfold Ensures at hm ⊢
  rw [hbind]
  cases hmh : m h with
  | none => rw [hmh] at hm; exact hm
  | some r =>
      obtain ⟨r, h'⟩ := r
      rw [hmh] at hm
      cases r with
      | error e => exact hm
      | ok a => exact hf a h' hm

theorem Ensures.mono {exits' : E → Prop} {Q' : α → Heap B → Prop} (hm : Ensures m h exits Q)
    (he : ∀ e, exits e → exits' e) (hQ : ∀ a h', Q a h' → Q' a h') : Ensures m h exits' Q' := by
  unfold Ensures at hm ⊢
  split at hm
  · exact hm
  · exact he _ hm
  · exact hQ _ _ hm

theorem Ensures.imp {Q' : α → Heap B → Prop} (hm : Ensures m h exits Q)
    (hQ : ∀ a h', Q a h' → Q' a h') : Ensures m h exits Q' :=
  hm.mono (fun _ he => he) hQ

theorem Ensures.exits_imp {exits' : E → Prop} (hm : Ensures m h exits Q)
    (he : ∀ e, exits e → exits' e) : Ensures m h exits' Q :=
  hm.mono he fun _ _ hQ => hQ

/-- A step whose value is known and that leaves the heap as it is. -/
theorem Ensures.bind_read {a : α} (hm : Ensures m h exits fun a' h' => a' = a ∧ h' = h)
    (hf : Ensures (f a) h exits R) : Ensures (m >>= f) h exits R := by
  refine hm.bind ?_
  rintro a' h' ⟨ha, hsame⟩
  subst ha hsame
  exact hf

/-- A program that cannot exit ends. -/
theorem Ensures.exists_of_not (hm : Ensures m h exits Q) (hnot : ∀ e, ¬ exits e) :
    ∃ a h', m h = some (.ok a, h') ∧ Q a h' := by
  unfold Ensures at hm
  split at hm
  · exact hm.elim
  · exact absurd hm (hnot _)
  · next a h' hrun => exact ⟨a, h', hrun, hm⟩

/-- Without room the blocks are as before. -/
theorem ensures_malloc {grants : Nat → Nat → Bool} {size : Nat} :
    Ensures (malloc grants size b) h exits fun p h' =>
      (p = none ∧ grants h.next size = false ∧ h'.blocks = h.blocks) ∨
        ∃ d, p = some d ∧ h.Grows h' [] [d] ∧ h'.blocks d = some b := by
  unfold Ensures malloc
  cases hgrants : grants h.next size with
  | true => exact .inr ⟨h.next, rfl, .add h b, Handles.hold_self⟩
  | false => exact .inl ⟨rfl, rfl, rfl⟩

theorem ensures_read {view : B → Option α} {a : α} (hd : h.blocks d = some b)
    (hview : view b = some a) :
    Ensures (read (some d) view) h exits fun a' h' => a' = a ∧ h' = h := by
  have hread : read (some d) view h = some ((.ok a : Except E α), h) := by
    rw [read, Option.bind_some, hd, Option.bind_some, hview]
  unfold Ensures
  rw [hread]
  exact ⟨rfl, rfl⟩

theorem ensures_write {change : B → Option B} {b' : B} (hd : h.blocks d = some b)
    (hchange : change b = some b') :
    Ensures (write (some d) change) h exits fun _ h' =>
      h.Grows h' [d] [] ∧ h'.blocks d = some b' := by
  have live : h.blocks d ≠ none := by
    rw [hd]
    exact Option.some_ne_none b
  have hnew : (h.blocks d).bind change = some b' := by rw [hd, Option.bind_some, hchange]
  have hwrite : write (some d) change h =
      some ((.ok () : Except E Unit), h.set d b' live) := by
    refine (dif_pos live).trans ?_
    rw [hnew]
    rfl
  unfold Ensures
  rw [hwrite]
  exact ⟨.set live, Handles.hold_self⟩

theorem ensures_free_null :
    Ensures (free none) h exits fun _ h' => h' = h := rfl

theorem ensures_free (hd : h.blocks d = some b) :
    Ensures (free (some d)) h exits fun _ h' => h.Releases h' [d] := by
  have hfree : free (some d) h = some ((.ok () : Except E Unit), h.drop d) :=
    if_pos (Option.isSome_iff_exists.mpr ⟨b, hd⟩)
  unfold Ensures
  rw [hfree]
  exact .drop h d

theorem ensures_asked : Ensures asked h exits fun n h' => n = h.next ∧ h' = h := ⟨rfl, rfl⟩

end HeapProgram

end NetworkProgram.Foundation
