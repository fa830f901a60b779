import Mathlib.Data.List.Nodup
import NetworkProgram.Restart.Model

set_option autoImplicit false

/-!
# Restart: the descriptors of `re-exec.c`

`execve` keeps all descriptors open, so the handler closes those from 3 to 63 before.  Then
however often the server starts anew, and whenever the signals come, it holds what it was
started with and at most its socket and one connection.  An `execve` that fails leaves it
without its socket.

This takes a server that was started with the standard streams open, without a socket that
listens, and with two free numbers below 64 (`Launch`): otherwise its own descriptors get
numbers that the handler does not close.
-/

namespace NetworkProgram.Restart

open NetworkProgram.Foundation
open NetworkProgram.Kernel

/-- What the handler closes. -/
def Swept (d : Nat) : Prop := 3 ≤ d ∧ d < 64

instance (d : Nat) : Decidable (Swept d) := inferInstanceAs (Decidable (_ ∧ _))

/-- The descriptors that a server is started with: the standard streams, no sockets, and two
free numbers among those that the handler closes. -/
structure Launch where
  table : Table
  std : ∀ d, d < 3 → table d ≠ none
  noSocket : ∀ d, table d ≠ some .listening
  roomy : ∃ x y, x < y ∧ y < 64 ∧ table x = none ∧ table y = none

/-- The descriptors that an image should begin with, if the first one began with `table`. -/
def imageBase (table : Table) (image : Nat) : Table :=
  if image = 0 then table else fun d => if Swept d then none else table d

def Launch.base (k : Launch) (image : Nat) : Table := imageBase k.table image

/-- The descriptors that `main` has in its variables. -/
def Pc.owns : Pc → List Nat
  | .configure soc _ => [soc]
  | .abandon soc => [soc]
  | .accept soc => [soc]
  | .serve soc acc => [soc, acc]
  | .close soc acc => [soc, acc]
  | _ => []

def Pc.soc (pc : Pc) : Option Nat := pc.owns.head?

structure Inv (k : Launch) (s : Process) : Prop where
  kept : ∀ d, ¬ Swept d → s.table d = k.table d
  owned : ∀ d, s.table d ≠ none → k.base s.image d ≠ none ∨ d ∈ s.pc.owns
  inside : ∀ d ∈ s.pc.owns, Swept d
  nodup : s.pc.owns.Nodup
  sweeping : ∀ i ∈ s.handlers, 3 ≤ i ∧ i ≤ 64 ∧ ∀ d, 3 ≤ d → d < i → s.table d = none
  unique : ∀ d, s.table d = some .listening → s.pc.soc = some d
  deaf : ∀ soc ∈ s.pc.soc, s.failed = true → s.table soc = none
  hears : ∀ soc ∈ s.pc.soc, s.status = .running → s.handlers = [] → s.failed = false →
    s.table soc = some .listening

namespace Launch

variable {k : Launch} {image : Nat} {table : Table}

theorem base_of_kept {d : Nat} (h : ¬ Swept d) : k.base image d = k.table d := by
  rw [base, imageBase]
  split
  · rfl
  · exact if_neg h

/-- Every image begins with two free numbers that the handler closes. -/
theorem base_roomy (k : Launch) (image : Nat) :
    ∃ x y, x < y ∧ Swept x ∧ Swept y ∧ k.base image x = none ∧ k.base image y = none := by
  by_cases himage : image = 0
  · obtain ⟨x, y, hlt, hy, hfreeX, hfreeY⟩ := k.roomy
    have hx : 3 ≤ x := Nat.le_of_not_lt fun hlt => k.std x hlt hfreeX
    refine ⟨x, y, hlt, ⟨hx, by omega⟩, ⟨by omega, hy⟩, ?_, ?_⟩
    · rw [base, imageBase, if_pos himage, hfreeX]
    · rw [base, imageBase, if_pos himage, hfreeY]
  · refine ⟨3, 4, by decide, by decide, by decide, ?_, ?_⟩
    · rw [base, imageBase, if_neg himage]
      exact if_pos (by decide)
    · rw [base, imageBase, if_neg himage]
      exact if_pos (by decide)

end Launch

namespace Inv

variable {k : Launch} {s : Process}

theorem start (k : Launch) : Inv k (.start k.table) where
  kept := fun _ _ => rfl
  owned := fun _ h => .inl h
  inside := fun _ h => absurd h List.not_mem_nil
  nodup := List.nodup_nil
  sweeping := fun _ h => absurd h List.not_mem_nil
  unique := fun d h => absurd h (k.noSocket d)
  deaf := fun _ h => absurd h (Option.not_mem_none _)
  hears := fun _ h => absurd h (Option.not_mem_none _)

/-- A number that nothing holds is free. -/
theorem free_of_base (h : Inv k s) {d : Nat} (hbase : k.base s.image d = none)
    (howns : d ∉ s.pc.owns) : s.table d = none := by
  by_contra hheld
  rcases h.owned d hheld with hne | hmem
  · exact hne hbase
  · exact howns hmem

/-- While `main` has one descriptor at most, the next free number is one that the handler
closes. -/
theorem lowest_swept (h : Inv k s) {d : Nat} (hd : LowestFree s.table d)
    (hone : s.pc.owns.length ≤ 1) : Swept d := by
  obtain ⟨x, y, hlt, hx, hy, hbaseX, hbaseY⟩ := k.base_roomy s.image
  obtain ⟨z, hz, hfree⟩ : ∃ z, Swept z ∧ s.table z = none := by
    by_cases hxOwned : x ∈ s.pc.owns
    · refine ⟨y, hy, h.free_of_base hbaseY fun hyOwned => ?_⟩
      obtain ⟨e, he⟩ := List.length_eq_one_iff.mp
        (Nat.le_antisymm hone (List.length_pos_of_mem hxOwned))
      rw [he, List.mem_singleton] at hxOwned hyOwned
      omega
    · exact ⟨x, hx, h.free_of_base hbaseX hxOwned⟩
  refine ⟨?_, ?_⟩
  · by_contra hlow
    have hstd := k.std d (by omega)
    rw [← h.kept d fun hswept => hlow hswept.1] at hstd
    exact hstd hd.1
  · have hle : d ≤ z := Nat.le_of_not_lt fun hzd => hd.2 z hzd hfree
    exact Nat.lt_of_le_of_lt hle hz.2

/-! ## Signals and the handler -/

/-- A signal changes no descriptor. -/
theorem react (h : Inv k s) (signal : Signal × Delivery) : Inv k (s.react signal) := by
  obtain ⟨signal, delivery⟩ := signal
  cases delivery with
  | nothing => exact { h with }
  | death => exact { h with hears := fun _ _ hrunning => by cases hrunning }
  | call =>
      refine { h with sweeping := List.forall_mem_cons.mpr ⟨⟨by decide, by decide, ?_⟩, h.sweeping⟩,
                      hears := fun _ _ _ hnil => by cases hnil }
      intro d hlow hhigh
      omega

/-- The handler closes the next descriptor. -/
theorem closeNext (h : Inv k s) {i : Nat} {rest : List Nat} (hhandlers : s.handlers = i :: rest)
    (hi : i < 64) :
    Inv k { s with table := Function.update s.table i none, handlers := (i + 1) :: rest } := by
  have hclosed : ∀ d, s.table d = none → Function.update s.table i none d = none := by
    intro d hd
    rcases eq_or_ne d i with rfl | hne
    · exact Function.update_self ..
    · rw [Function.update_of_ne hne, hd]
  have hopen : ∀ d desc, Function.update s.table i none d = some desc → s.table d = some desc := by
    intro d desc hd
    rcases eq_or_ne d i with rfl | hne
    · rw [Function.update_self] at hd
      cases hd
    · rwa [Function.update_of_ne hne] at hd
  have hsweeping := h.sweeping
  rw [hhandlers] at hsweeping
  obtain ⟨⟨hlow, -, hfirst⟩, hrest⟩ := List.forall_mem_cons.mp hsweeping
  refine ⟨?_, ?_, h.inside, h.nodup, ?_, ?_, ?_, ?_⟩
  · intro d hd
    have hne : d ≠ i := by
      rintro rfl
      exact hd ⟨hlow, hi⟩
    exact (Function.update_of_ne hne _ _).trans (h.kept d hd)
  · intro d hd
    exact h.owned d fun hnone => hd (hclosed d hnone)
  · refine List.forall_mem_cons.mpr ⟨⟨by omega, hi, fun d hd hlt => ?_⟩, fun j hj => ?_⟩
    · rcases Nat.lt_succ_iff_lt_or_eq.mp hlt with hbelow | rfl
      · exact hclosed d (hfirst d hd hbelow)
      · exact Function.update_self ..
    · obtain ⟨hge, hle, hnone⟩ := hrest j hj
      exact ⟨hge, hle, fun d hd hlt => hclosed d (hnone d hd hlt)⟩
  · exact fun d hd => h.unique d (hopen d _ hd)
  · exact fun soc hsoc hfailed => hclosed soc (h.deaf soc hsoc hfailed)
  · exact fun _ _ _ hnil => by cases hnil

/-- All of the numbers are closed when the handler comes to `execve`. -/
theorem swept_closed (h : Inv k s) {i : Nat} {rest : List Nat} (hhandlers : s.handlers = i :: rest)
    (hi : ¬ i < 64) {d : Nat} (hd : Swept d) : s.table d = none := by
  obtain ⟨-, -, hclosed⟩ := h.sweeping i (by rw [hhandlers]; exact List.mem_cons_self)
  exact hclosed d hd.1 (Nat.lt_of_lt_of_le hd.2 (Nat.le_of_not_lt hi))

/-- `execve` succeeds. -/
theorem overlay (h : Inv k s) {i : Nat} {rest : List Nat} (hhandlers : s.handlers = i :: rest)
    (hi : ¬ i < 64) :
    Inv k { s with
      signal := s.signal.exec
      pc := .sigaction
      handlers := []
      image := s.image + 1
      failed := false } where
  kept := h.kept
  owned := fun d hd => by
    have hkept : ¬ Swept d := fun hswept => hd (h.swept_closed hhandlers hi hswept)
    refine .inl ?_
    rw [Launch.base_of_kept hkept, ← h.kept d hkept]
    exact hd
  inside := fun _ hmem => absurd hmem List.not_mem_nil
  nodup := List.nodup_nil
  sweeping := fun _ hmem => absurd hmem List.not_mem_nil
  unique := fun d hd => by
    dsimp only at hd
    have hkept : ¬ Swept d := fun hswept => by
      rw [h.swept_closed hhandlers hi hswept] at hd
      cases hd
    rw [h.kept d hkept] at hd
    exact absurd hd (k.noSocket d)
  deaf := fun _ hmem => absurd hmem (Option.not_mem_none _)
  hears := fun _ hmem => absurd hmem (Option.not_mem_none _)

/-- `execve` fails, and the handler returns. -/
theorem fail (h : Inv k s) {i : Nat} {rest : List Nat} (hhandlers : s.handlers = i :: rest)
    (hi : ¬ i < 64) : Inv k { s with handlers := rest, failed := true } :=
  { h with
    sweeping := fun j hj => h.sweeping j (by rw [hhandlers]; exact List.mem_cons_of_mem i hj)
    deaf := fun soc hsoc _ =>
      h.swept_closed hhandlers hi (h.inside soc (List.mem_of_mem_head? hsoc))
    hears := fun _ _ _ _ hfailed => by cases hfailed }

/-- The handler takes its next step. -/
theorem hangupHandler (h : Inv k s) {i : Nat} {rest : List Nat} (hhandlers : s.handlers = i :: rest)
    (ok : Bool) : Inv k (s.hangupHandler reExec i rest ok) := by
  unfold Process.hangupHandler
  split
  · rename_i hi
    exact h.closeNext hhandlers hi
  · rename_i hi
    cases ok with
    | true => exact h.overlay hhandlers hi
    | false => exact (h.fail hhandlers hi).react s.signal.leave

/-! ## `main` -/

/-- `main` goes on with the descriptors it has. -/
theorem goto (h : Inv k s) {pc : Pc} (hpc : pc.owns = s.pc.owns) : Inv k { s with pc := pc } :=
  { h with
    owned := by
      dsimp only
      rw [hpc]
      exact h.owned
    inside := by
      dsimp only
      rw [hpc]
      exact h.inside
    nodup := by
      dsimp only
      rw [hpc]
      exact h.nodup
    unique := by
      dsimp only [Pc.soc]
      rw [hpc]
      exact h.unique
    deaf := by
      dsimp only [Pc.soc]
      rw [hpc]
      exact h.deaf
    hears := by
      dsimp only [Pc.soc]
      rw [hpc]
      exact h.hears }

theorem exit (h : Inv k s) : Inv k { s with status := .exited } :=
  { h with hears := fun _ _ hrunning => by cases hrunning }

/-- Only numbers that the handler closes are opened and closed. -/
theorem update_kept (h : Inv k s) {d : Nat} (hswept : Swept d) (value : Option Desc) :
    ∀ e, ¬ Swept e → Function.update s.table d value e = k.table e := by
  intro e he
  have hne : e ≠ d := by
    rintro rfl
    exact he hswept
  exact (Function.update_of_ne hne _ _).trans (h.kept e he)

theorem socket (h : Inv k s) {soc : Nat} (hpc : s.pc = .socket) (hhandlers : s.handlers = [])
    (hfree : LowestFree s.table soc) :
    Inv k { s with
      table := Function.update s.table soc (some .listening)
      pc := .configure soc 3
      failed := false } := by
  have howns : s.pc.owns = [] := by rw [hpc]; rfl
  have hswept := h.lowest_swept hfree (by rw [howns]; exact Nat.zero_le 1)
  refine ⟨h.update_kept hswept _, ?_, ?_, List.nodup_singleton soc, ?_, ?_, ?_, ?_⟩
  · intro d hd
    rcases eq_or_ne d soc with rfl | hne
    · exact .inr List.mem_cons_self
    · dsimp only at hd
      rw [Function.update_of_ne hne] at hd
      have hbase := h.owned d hd
      rw [howns] at hbase
      exact .inl (hbase.resolve_right List.not_mem_nil)
  · exact List.forall_mem_singleton.mpr hswept
  · intro i hi
    dsimp only at hi
    rw [hhandlers] at hi
    cases hi
  · intro d hd
    dsimp only at hd
    rcases eq_or_ne d soc with rfl | hne
    · rfl
    · rw [Function.update_of_ne hne] at hd
      have hsoc := h.unique d hd
      rw [Pc.soc, howns] at hsoc
      cases hsoc
  · exact fun _ _ hfailed => by cases hfailed
  · intro d hd _ _ _
    obtain rfl : soc = d := Option.some.inj hd
    exact Function.update_self ..

theorem accept (h : Inv k s) {soc acc : Nat} (hpc : s.pc = .accept soc)
    (hhandlers : s.handlers = []) (hsoc : s.table soc = some .listening)
    (hfree : LowestFree s.table acc) :
    Inv k { s with
      table := Function.update s.table acc (some (.conn s.next))
      pc := .serve soc acc
      next := s.next + 1 } := by
  have howns : s.pc.owns = [soc] := by rw [hpc]; rfl
  have hswept := h.lowest_swept hfree (by rw [howns]; exact Nat.le_refl 1)
  have hne : soc ≠ acc := by
    rintro rfl
    rw [hfree.1] at hsoc
    cases hsoc
  have hpcSoc : s.pc.soc = some soc := by rw [Pc.soc, howns]; rfl
  have hheld : Function.update s.table acc (some (.conn s.next)) soc = some .listening := by
    rw [Function.update_of_ne hne, hsoc]
  refine ⟨h.update_kept hswept _, ?_, ?_, ?_, ?_, ?_, ?_, ?_⟩
  · intro d hd
    rcases eq_or_ne d acc with rfl | hneAcc
    · exact .inr (List.mem_cons_of_mem soc List.mem_cons_self)
    · dsimp only at hd
      rw [Function.update_of_ne hneAcc] at hd
      refine (h.owned d hd).imp_right fun hmem => ?_
      rw [howns] at hmem
      exact List.mem_cons.mpr (.inl (List.mem_singleton.mp hmem))
  · have hinside := h.inside
    rw [howns] at hinside
    exact List.forall_mem_cons.mpr
      ⟨hinside soc List.mem_cons_self, List.forall_mem_singleton.mpr hswept⟩
  · exact List.nodup_cons.mpr ⟨fun hmem => hne (List.mem_singleton.mp hmem),
      List.nodup_singleton acc⟩
  · intro i hi
    dsimp only at hi
    rw [hhandlers] at hi
    cases hi
  · intro d hd
    dsimp only at hd
    rcases eq_or_ne d acc with rfl | hneAcc
    · rw [Function.update_self] at hd
      cases hd
    · rw [Function.update_of_ne hneAcc] at hd
      exact hpcSoc.symm.trans (h.unique d hd)
  · intro d hd hfailed
    obtain rfl : soc = d := Option.some.inj hd
    have hdeaf := h.deaf soc hpcSoc hfailed
    rw [hsoc] at hdeaf
    cases hdeaf
  · intro d hd _ _ _
    obtain rfl : soc = d := Option.some.inj hd
    exact hheld

theorem close (h : Inv k s) {soc acc : Nat} (hpc : s.pc = .close soc acc) :
    Inv k { s with table := Function.update s.table acc none, pc := .accept soc } := by
  have howns : s.pc.owns = [soc, acc] := by rw [hpc]; rfl
  have hnodup := h.nodup
  have hinside := h.inside
  rw [howns] at hnodup hinside
  have hne : soc ≠ acc := fun heq =>
    (List.nodup_cons.mp hnodup).1 (List.mem_singleton.mpr heq)
  have hpcSoc : s.pc.soc = some soc := by rw [Pc.soc, howns]; rfl
  have hacc : Swept acc := hinside acc (List.mem_cons_of_mem soc List.mem_cons_self)
  refine ⟨h.update_kept hacc _, ?_, ?_, List.nodup_singleton soc, ?_, ?_, ?_, ?_⟩
  · intro d hd
    have hneAcc : d ≠ acc := by
      rintro rfl
      exact hd (Function.update_self ..)
    dsimp only at hd
    rw [Function.update_of_ne hneAcc] at hd
    refine (h.owned d hd).imp_right fun hmem => ?_
    rw [howns] at hmem
    rcases List.mem_cons.mp hmem with rfl | hmem
    · exact List.mem_cons_self
    · exact absurd (List.mem_singleton.mp hmem) hneAcc
  · exact List.forall_mem_singleton.mpr (hinside soc List.mem_cons_self)
  · intro i hi
    obtain ⟨hge, hle, hclosed⟩ := h.sweeping i hi
    refine ⟨hge, hle, fun d hd hlt => ?_⟩
    rcases eq_or_ne d acc with rfl | hneAcc
    · exact Function.update_self ..
    · exact (Function.update_of_ne hneAcc _ _).trans (hclosed d hd hlt)
  · intro d hd
    dsimp only at hd
    have hneAcc : d ≠ acc := by
      rintro rfl
      rw [Function.update_self] at hd
      cases hd
    rw [Function.update_of_ne hneAcc] at hd
    exact hpcSoc.symm.trans (h.unique d hd)
  · intro d hd hfailed
    obtain rfl : soc = d := Option.some.inj hd
    exact (Function.update_of_ne hne _ _).trans (h.deaf soc hpcSoc hfailed)
  · intro d hd hrunning hnil hfailed
    obtain rfl : soc = d := Option.some.inj hd
    exact (Function.update_of_ne hne _ _).trans (h.hears soc hpcSoc hrunning hnil hfailed)

theorem abandon (h : Inv k s) {soc : Nat} (hpc : s.pc = .abandon soc) :
    Inv k { s with table := Function.update s.table soc none, status := .exited } := by
  have howns : s.pc.owns = [soc] := by rw [hpc]; rfl
  have hswept : Swept soc := h.inside soc (by rw [howns]; exact List.mem_cons_self)
  have hopen : ∀ d desc, Function.update s.table soc none d = some desc →
      s.table d = some desc := by
    intro d desc hd
    rcases eq_or_ne d soc with rfl | hne
    · rw [Function.update_self] at hd
      cases hd
    · rwa [Function.update_of_ne hne] at hd
  have hclosed : ∀ d, s.table d = none → Function.update s.table soc none d = none := by
    intro d hd
    by_contra hsome
    obtain ⟨desc, hdesc⟩ := Option.ne_none_iff_exists'.mp hsome
    rw [hopen d desc hdesc] at hd
    cases hd
  exact
    { kept := h.update_kept hswept _
      owned := fun d hd => h.owned d fun hnone => hd (hclosed d hnone)
      inside := h.inside
      nodup := h.nodup
      sweeping := fun i hi =>
        let ⟨hge, hle, hnone⟩ := h.sweeping i hi
        ⟨hge, hle, fun d hd hlt => hclosed d (hnone d hd hlt)⟩
      unique := fun d hd => h.unique d (hopen d _ hd)
      deaf := fun d hd hfailed => hclosed d (h.deaf d hd hfailed)
      hears := fun _ _ hrunning => by cases hrunning }

/-- `main` takes its next step. -/
theorem mainMove (h : Inv k s) (hhandlers : s.handlers = []) {a : Act} {t : Process}
    (hmove : MainMove reExec s a t) : Inv k t := by
  cases hmove with
  | sigaction hpc =>
      have hgoto : Inv k { s with pc := .socket } := h.goto (by rw [hpc]; rfl)
      exact { hgoto with }
  | noSocket hpc => exact h.exit
  | socket hpc hfree => exact h.socket hpc hhandlers hfree
  | configure hpc hsoc =>
      refine h.goto ?_
      rw [hpc]
      split <;> rfl
  | refused hpc => exact h.goto (by rw [hpc]; rfl)
  | abandon hpc => exact h.abandon hpc
  | noConnection hpc => exact h
  | accept hpc hsoc hfree => exact h.accept hpc hhandlers hsoc hfree
  | served hpc => exact h.goto (by rw [hpc]; rfl)
  | close hpc => exact h.close hpc

theorem step (h : Inv k s) {a : Act} {t : Process} (hstep : s.step reExec a = some t) :
    Inv k t := by
  obtain ⟨-, ⟨-, rfl⟩ | ⟨i, rest, ok, -, hhandlers, rfl⟩ | ⟨hhandlers, hmove⟩⟩ :=
    move_of_step hstep
  · exact h.react s.signal.raise
  · exact h.hangupHandler hhandlers ok
  · exact h.mainMove hhandlers hmove

theorem of_reaches (run : Reaches (Process.step reExec) (.start k.table) s) : Inv k s :=
  run.invariant (start k) fun _ _ _ h hstep => h.step hstep

end Inv

variable {k : Launch} {s : Process}

/-- A server that was started with `table` holds nothing but that, its socket and one
connection; only its socket listens; and a new image begins with `table`, without the numbers
from 3 to 63. -/
structure Kept (table : Table) (s : Process) : Prop where
  owned : ∀ d, s.table d ≠ none → imageBase table s.image d ≠ none ∨ d ∈ s.pc.owns
  unique : ∀ d, s.table d = some .listening → s.pc.soc = some d
  overlaid : s.pc = .sigaction → s.image ≠ 0 → s.table = imageBase table s.image

/-- However often the server has started anew, it has kept its descriptors. -/
theorem kept_of_launch (run : Reaches (Process.step reExec) (.start k.table) s) :
    Kept k.table s := by
  have h := Inv.of_reaches run
  refine ⟨h.owned, h.unique, fun hpc himage => funext fun d => ?_⟩
  change s.table d = k.base s.image d
  by_cases hswept : Swept d
  · have hbase : k.base s.image d = none := by
      rw [Launch.base, imageBase, if_neg himage]
      exact if_pos hswept
    have howns : d ∉ s.pc.owns := by
      rw [hpc]
      exact List.not_mem_nil
    rw [hbase, h.free_of_base hbase howns]
  · rw [Launch.base_of_kept hswept, h.kept d hswept]

/-- A server started from a shell. -/
def Launch.plain : Launch where
  table := fun d => if d < 3 then some .other else none
  std := fun d hd => by
    rw [if_pos hd]
    exact Option.some_ne_none _
  noSocket := fun d => by
    split
    · intro heq
      cases heq
    · exact (Option.some_ne_none _).symm
  roomy := ⟨3, 4, by decide, by decide, rfl, rfl⟩

/-- It comes up and serves a first client when SIGHUP comes, and the handler closes all that it
closes. -/
def untilExecve : List Act :=
  [.sigaction, .socket (some 3), .configure true, .configure true, .configure true,
    .accept (some 4), .hangup] ++ List.replicate 61 (.handler true)

/-! ## After an `execve` that has failed -/

theorem image_step {p : Program} {t : Process} {a : Act} (h : s.step p a = some t) :
    s.image ≤ t.image := by
  obtain ⟨-, ⟨-, rfl⟩ | ⟨i, rest, ok, -, -, rfl⟩ | ⟨-, hmove⟩⟩ := move_of_step h
  · rw [Process.react_image]
  · unfold Process.hangupHandler
    split
    · exact Nat.le_refl _
    · cases ok with
      | true => exact Nat.le_succ _
      | false => rw [if_neg Bool.false_ne_true, Process.react_image]
  · cases hmove <;> exact Nat.le_refl _

/-- A server whose socket is closed. -/
structure Deaf (image : Nat) (next : ConnId) (s : Process) : Prop where
  soc : s.pc.soc.isSome = true
  failed : s.failed = true
  image : s.image = image
  next : s.next = next

/-- It stays so in its image. -/
theorem Deaf.step {image : Nat} {next : ConnId} (hinv : Inv k s) (h : Deaf image next s) {a : Act}
    {t : Process} (hstep : s.step reExec a = some t) (himage : t.image = image) :
    Deaf image next t := by
  obtain ⟨soc, hsoc⟩ := Option.isSome_iff_exists.mp h.soc
  obtain ⟨-, ⟨-, rfl⟩ | ⟨i, rest, ok, -, hhandlers, rfl⟩ | ⟨-, hmove⟩⟩ := move_of_step hstep
  · exact ⟨by rw [Process.react_pc]; exact h.soc, by rw [Process.react_failed]; exact h.failed,
      himage, by rw [Process.react_next]; exact h.next⟩
  · unfold Process.hangupHandler at himage ⊢
    split
    · exact { h with }
    · rename_i hi
      rw [if_neg hi] at himage
      cases ok with
      | true => exact absurd (himage.trans h.image.symm) (Nat.succ_ne_self _)
      | false =>
          exact ⟨by rw [if_neg (by decide), Process.react_pc]; exact h.soc,
            by rw [if_neg (by decide), Process.react_failed], himage,
            by rw [if_neg (by decide), Process.react_next]; exact h.next⟩
  · cases hmove with
    | sigaction hpc =>
        rw [hpc] at hsoc
        cases hsoc
    | noSocket hpc =>
        rw [hpc] at hsoc
        cases hsoc
    | socket hpc hfree =>
        rw [hpc] at hsoc
        cases hsoc
    | @configure _ left hpc hlistening =>
        refine ⟨?_, h.failed, himage, h.next⟩
        dsimp only
        split <;> rfl
    | refused hpc => exact ⟨rfl, h.failed, himage, h.next⟩
    | abandon hpc => exact { h with }
    | noConnection hpc => exact h
    | accept hpc hlistening hfree =>
        rw [hpc] at hsoc
        obtain rfl := Option.some.inj hsoc
        rw [hinv.deaf _ (by rw [hpc]; rfl) h.failed] at hlistening
        cases hlistening
    | served hpc => exact ⟨rfl, h.failed, himage, h.next⟩
    | close hpc => exact ⟨rfl, h.failed, himage, h.next⟩

theorem Deaf.of_reaches {image : Nat} {next : ConnId} (hinv : Inv k s) (h : Deaf image next s)
    {t : Process} (run : Reaches (Process.step reExec) s t) :
    image ≤ t.image ∧ Inv k t ∧ (t.image = image → Deaf image next t) := by
  induction run with
  | refl => exact ⟨Nat.le_of_eq h.image.symm, hinv, fun _ => h⟩
  | @tail u v a _ move ih =>
      obtain ⟨hle, hu, hdeaf⟩ := ih
      have hmono := image_step move
      refine ⟨Nat.le_trans hle hmono, hu.step move, fun himage => ?_⟩
      have hu_image : u.image = image := Nat.le_antisymm (himage ▸ hmono) hle
      exact (hdeaf hu_image).step hu move himage

/-- The server listens exactly as long as no `execve` has failed since it made its socket;
after one has, it accepts no connection until it starts anew. -/
theorem hears_iff (run : Reaches (Process.step reExec) (.start k.table) s)
    (hrunning : s.status = .running) (hhandlers : s.handlers = []) {soc : Nat}
    (hsoc : s.pc.soc = some soc) :
    (s.table soc = some .listening ↔ s.failed = false) ∧
      (s.failed = true → ∀ t, Reaches (Process.step reExec) s t → t.image = s.image →
        t.next = s.next) := by
  have h := Inv.of_reaches run
  refine ⟨⟨fun hlistening => ?_, h.hears soc hsoc hrunning hhandlers⟩, ?_⟩
  · rw [← Bool.not_eq_true]
    intro hfailed
    rw [h.deaf soc hsoc hfailed] at hlistening
    cases hlistening
  · intro hfailed t later himage
    have hdeaf : Deaf s.image s.next s := ⟨by rw [hsoc]; rfl, hfailed, rfl, rfl⟩
    exact ((hdeaf.of_reaches h later).2.2 himage).next

/-- `execve` fails while a client is served. -/
theorem exists_deaf : ∃ s, Reaches (Process.step reExec) (.start Launch.plain.table) s ∧
    s.pc = .serve 3 4 ∧ s.status = .running ∧ s.handlers = [] ∧ s.failed = true := by
  have hrun : (exec (Process.step reExec) (.start Launch.plain.table)
      (untilExecve ++ [.handler false])).map
        (fun s => (s.pc, s.status, s.handlers, s.failed)) =
      some (.serve 3 4, .running, [], true) := by
    decide +kernel
  obtain ⟨s, hexec, hs⟩ := Option.map_eq_some_iff.mp hrun
  obtain ⟨hpc, hs⟩ := Prod.mk.inj hs
  obtain ⟨hstatus, hs⟩ := Prod.mk.inj hs
  obtain ⟨hhandlers, hfailed⟩ := Prod.mk.inj hs
  exact ⟨s, .of_exec hexec, hpc, hstatus, hhandlers, hfailed⟩

theorem hears_iff_deaf : ∃ s, Reaches (Process.step reExec) (.start Launch.plain.table) s ∧
    s.failed = true ∧ (s.table 3 = some .listening ↔ s.failed = false) ∧
    (s.failed = true → ∀ t, Reaches (Process.step reExec) s t → t.image = s.image →
      t.next = s.next) := by
  obtain ⟨s, run, hpc, hrunning, hhandlers, hfailed⟩ := exists_deaf
  exact ⟨s, run, hfailed, hears_iff run hrunning hhandlers (by rw [hpc]; rfl)⟩

end NetworkProgram.Restart
