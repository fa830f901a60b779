import NetworkProgram.Echo.Children

set_option autoImplicit false

/-!
# Echo: `accept_loop` of `chapter05/server2.c`

The server that waits with `select`.  A step is one round of the loop: the mask is
made, `select` returns, and what is ready is served.
-/

namespace NetworkProgram.Echo.Select

open NetworkProgram.Foundation
open NetworkProgram.Foundation.Slots
open NetworkProgram.Kernel

/-- How `select` returns.  The rest of the round is answered in advance: what
`accept` returns, and how the call of `send_recv` goes for entry `i`, if there is
one. -/
inductive Wake
  | error
  | timeout
  | ready (mask : List Nat) (result : Option Nat) (answer : Nat → Answer)

/-- The descriptors `select` reports. -/
def Wake.reported : Wake → List Nat
  | .error => []
  | .timeout => []
  | .ready mask _ _ => mask

/-- `select` reports descriptors of its mask, and `accept` returns a free one. -/
def Wake.Possible (k : Listener) (s : State) : Wake → Prop
  | .error => True
  | .timeout => True
  | .ready mask result _ =>
      (∀ fd ∈ mask, fd = k.soc ∨ fd ∈ s.child.reduceOption) ∧
        (k.soc ∈ mask → ∀ d ∈ result, LowestFree s.host.fds d)

/-- An error or a timeout. -/
def Wake.Failed : Wake → Prop
  | .error => True
  | .timeout => True
  | .ready _ _ _ => False

/-- `FD_SET(child[i], &mask)` for the entries in use, with `width`.  The mask is a list and not
an array of `FD_SETSIZE` bits: descriptors are taken to be below 1024, where `FD_SET` stays
inside of it. -/
def fdSet (child : List (Option Nat)) : Nat → Nat → List Nat × Nat → Except Stop (List Nat × Nat)
  | _, 0, set => .ok set
  | i, rounds + 1, (mask, width) =>
      match child[i]? with
      | none => .error .outOfRange
      | some none => fdSet child (i + 1) rounds (mask, width)
      | some (some fd) =>
          fdSet child (i + 1) rounds (fd :: mask, if fd + 1 > width then fd + 1 else width)

/-- `send_recv(child[i], i)`, and what follows if it returns -1. -/
def serve (s : State) (i fd : Nat) (a : Answer) : Except Stop State :=
  let host := s.host.call fd a
  if (sendRecv a).ret = -1 then
    (store s.child i none).map fun child => { s with host := host.close fd, child := child }
  else .ok { s with host := host }

/-- The loop over the entries, from `i` on. -/
def scan (mask : List Nat) (answer : Nat → Answer) : Nat → Nat → State → Except Stop State
  | _, 0, s => .ok s
  | i, rounds + 1, s =>
      match s.child[i]? with
      | none => .error .outOfRange
      | some none => scan mask answer (i + 1) rounds s
      | some (some fd) =>
          if fd ∈ mask then do scan mask answer (i + 1) rounds (← serve s i fd (answer i))
          else scan mask answer (i + 1) rounds s

/-- What is ready is served, the listening socket first. -/
def serveReady (k : Listener) (s : State) (mask : List Nat) (result : Option Nat)
    (answer : Nat → Answer) : Except Stop State :=
  (if k.soc ∈ mask then acceptReady s result else .ok s).bind fun s =>
    scan mask answer 0 s.childNo s

/-- One round of the loop.  `select` reports descriptors of the mask below `width`. -/
def wakeUp (k : Listener) (s : State) (w : Wake) : Except Stop State := do
  let (asked, width) ← fdSet s.child 0 s.childNo ([k.soc], k.soc + 1)
  match w with
  | .error => return s
  | .timeout => return s
  | .ready mask result answer =>
      if ∀ fd ∈ mask, fd ∈ asked ∧ fd < width then serveReady k s mask result answer
      else .error .impossible

def step (k : Listener) (s : State) (w : Wake) : Option State := (wakeUp k s w).toOption

/-! ## What a round does -/

theorem fdSet_eq {child : List (Option Nat)} {i rounds : Nat} (h : i + rounds ≤ child.length)
    (set : List Nat × Nat) :
    ∃ mask width, fdSet child i rounds set = .ok (mask, width) ∧
      (∀ fd, fd ∈ mask ↔ fd ∈ set.1 ∨ fd ∈ ((child.drop i).take rounds).reduceOption) ∧
      set.2 ≤ width ∧ ∀ fd ∈ ((child.drop i).take rounds).reduceOption, fd < width := by
  induction rounds generalizing i set with
  | zero => exact ⟨set.1, set.2, rfl, by simp, Nat.le_refl _, by simp⟩
  | succ rounds ih =>
      have hget : child[i]? = some child[i] := List.getElem?_eq_getElem (by omega)
      rw [List.drop_eq_getElem_cons (by omega), List.take_succ_cons]
      cases hentry : child[i] with
      | none =>
          obtain ⟨mask, width, heq, hmask, hwidth, hlt⟩ := ih (i := i + 1) (by omega) set
          refine ⟨mask, width, ?_, by simpa [List.reduceOption_cons_of_none] using hmask, hwidth,
            by simpa [List.reduceOption_cons_of_none] using hlt⟩
          simp only [fdSet, hget, hentry, heq]
      | some fd =>
          obtain ⟨mask, width, heq, hmask, hwidth, hlt⟩ := ih (i := i + 1) (by omega)
            (fd :: set.1, if fd + 1 > set.2 then fd + 1 else set.2)
          refine ⟨mask, width, ?_, ?_, ?_, ?_⟩
          · simp only [fdSet, hget, hentry, heq]
          · intro e
            rw [hmask e, List.reduceOption_cons_of_some, List.mem_cons, List.mem_cons]
            tauto
          · dsimp only at hwidth
            split at hwidth <;> omega
          · rw [List.reduceOption_cons_of_some]
            intro e he
            rcases List.mem_cons.mp he with rfl | he
            · dsimp only at hwidth
              split at hwidth <;> omega
            · exact hlt e he

theorem serve_eq {s : State} {i fd : Nat} (hi : s.child[i]? = some (some fd)) (a : Answer) :
    serve s i fd a = .ok (s.served i fd a) := by
  obtain ⟨hlt, -⟩ := List.getElem?_eq_some_iff.mp hi
  unfold serve State.served Host.visit
  split
  · rw [store_eq hlt]
    rfl
  · rfl

section Round

variable {soc : Nat} {s : State}

/-- The loop over the entries calls `send_recv` on those that are ready, in order. -/
theorem scan_eq (mask : List Nat) (answer : Nat → Answer) {i rounds : Nat} (ok : s.Ok soc)
    (h : i + rounds ≤ s.child.length) :
    ∃ t moves, scan mask answer i rounds s = .ok t ∧ t.Ok soc ∧
      exec Host.step s.host moves = some t.host ∧
      calls moves = ((s.child.drop i).take rounds).reduceOption.filter (· ∈ mask) ∧
      ∀ m ∈ moves, ∃ fd j, m = .visit fd (answer j) := by
  induction rounds generalizing i s with
  | zero => exact ⟨s, [], rfl, ok, rfl, by simp, by simp⟩
  | succ rounds ih =>
      have hget : s.child[i]? = some s.child[i] := List.getElem?_eq_getElem (by omega)
      rw [List.drop_eq_getElem_cons (by omega), List.take_succ_cons]
      cases hentry : s.child[i] with
      | none =>
          rw [List.reduceOption_cons_of_none]
          simpa only [scan, hget, hentry] using ih ok (i := i + 1) (by omega)
      | some fd =>
          rw [hentry] at hget
          rw [List.reduceOption_cons_of_some]
          by_cases hmem : fd ∈ mask
          · have hwindow : (s.served i fd (answer i)).child.drop (i + 1) =
                s.child.drop (i + 1) := by
              unfold State.served
              dsimp only
              split
              · exact List.drop_set_of_lt (Nat.lt_succ_self i)
              · rfl
            have hlen : (s.served i fd (answer i)).child.length = s.child.length :=
              (ok.served hget (answer i)).size.trans ok.size.symm
            obtain ⟨t, moves, hscan, hok, run, hcalls, hall⟩ :=
              ih (ok.served hget (answer i)) (i := i + 1) (by omega)
            refine ⟨t, .visit fd (answer i) :: moves, ?_, hok,
              exec_cons_eq_some.mpr ⟨_, rfl, run⟩, ?_, ?_⟩
            · simp only [scan, hget, if_pos hmem, serve_eq hget]
              exact hscan
            · rw [hwindow] at hcalls
              rw [List.filter_cons_of_pos (by simpa using hmem), ← hcalls]
              rfl
            · rintro m (_ | ⟨_, hm⟩)
              · exact ⟨fd, i, rfl⟩
              · exact hall m hm
          · rw [List.filter_cons_of_neg (by simpa using hmem)]
            simpa only [scan, hget, if_neg hmem] using ih ok (i := i + 1) (by omega)

/-- The descriptors asked for are the listening socket and the connections. -/
theorem fdSet_children (ok : s.Ok soc) :
    ∃ mask width, fdSet s.child 0 s.childNo ([soc], soc + 1) = .ok (mask, width) ∧
      ∀ fd, fd ∈ mask ∧ fd < width ↔ fd = soc ∨ fd ∈ s.child.reduceOption := by
  obtain ⟨mask, width, heq, hmask, hwidth, hlt⟩ :=
    fdSet_eq ok.inside ([soc], soc + 1)
  rw [List.drop_zero, ok.marked.reduceOption_take] at hmask hlt
  refine ⟨mask, width, heq, fun fd => ?_⟩
  rw [hmask fd, List.mem_singleton]
  refine ⟨And.left, fun h => ⟨h, ?_⟩⟩
  rcases h with rfl | h
  · exact hwidth
  · exact hlt fd h

theorem serveReady_eq {k : Listener} (ok : s.Ok k.soc) {mask : List Nat} {result : Option Nat}
    (answer : Nat → Answer) (hmask : ∀ fd ∈ mask, fd = k.soc ∨ fd ∈ s.child.reduceOption)
    (free : k.soc ∈ mask → ∀ d ∈ result, LowestFree s.host.fds d) :
    ∃ t visits, serveReady k s mask result answer = .ok t ∧ t.Ok k.soc ∧
      exec Host.step s.host
        ((if k.soc ∈ mask then result.toList.map (admission s.child.reduceOption.length) else []) ++
          visits) = some t.host ∧
      (calls visits).Nodup ∧
      (∀ fd, fd ∈ calls visits ↔ fd ∈ s.child.reduceOption ∧ fd ∈ mask) ∧
      ∀ m ∈ visits, ∃ fd j, m = .visit fd (answer j) := by
  obtain ⟨u, hfirst, hok, hrun, hheld⟩ : ∃ u,
      (if k.soc ∈ mask then acceptReady s result else .ok s) = .ok u ∧ u.Ok k.soc ∧
        exec Host.step s.host (if k.soc ∈ mask then
          result.toList.map (admission s.child.reduceOption.length) else []) = some u.host ∧
        ∀ fd ∈ mask, fd ∈ u.child.reduceOption ↔ fd ∈ s.child.reduceOption := by
    split
    · rename_i hsoc
      obtain ⟨u, hready, hok, hrun⟩ := acceptReady_eq ok (free hsoc)
      exact ⟨u, hready, hok, hrun, fun fd hfd =>
        ok.mem_child_iff hok hrun (calls_admissions _ _) (hmask fd hfd)⟩
    · exact ⟨s, rfl, ok, rfl, fun _ _ => Iff.rfl⟩
  obtain ⟨t, visits, hscan, htok, hvisits, hcalls, hall⟩ := scan_eq mask answer hok hok.inside
  rw [List.drop_zero, hok.marked.reduceOption_take] at hcalls
  refine ⟨t, visits, ?_, htok, ?_, ?_, ?_, hall⟩
  · unfold serveReady
    rw [hfirst]
    exact hscan
  · rw [exec_append _ hrun, hvisits]
  · rw [hcalls]
    exact hok.nodup.filter _
  · intro fd
    rw [hcalls, List.mem_filter, decide_eq_true_iff]
    exact ⟨fun h => ⟨(hheld fd h.2).mp h.1, h.2⟩, fun h => ⟨(hheld fd h.2).mpr h.1, h.2⟩⟩

theorem wakeUp_ready {k : Listener} (ok : s.Ok k.soc) {mask : List Nat} (result : Option Nat)
    (answer : Nat → Answer) (hmask : ∀ fd ∈ mask, fd = k.soc ∨ fd ∈ s.child.reduceOption) :
    wakeUp k s (.ready mask result answer) = serveReady k s mask result answer := by
  obtain ⟨asked, width, heq, hasked⟩ := fdSet_children ok
  unfold wakeUp
  rw [heq]
  exact if_pos fun fd hfd => (hasked fd).mpr (hmask fd hfd)

/-- What the environment cannot do ends the round; nothing else does. -/
theorem wakeUp_impossible {k : Listener} (ok : s.Ok k.soc) {w : Wake} (h : ¬ w.Possible k s) :
    wakeUp k s w = .error .impossible := by
  cases w with
  | error => exact absurd trivial h
  | timeout => exact absurd trivial h
  | ready mask result answer =>
      by_cases hmask : ∀ fd ∈ mask, fd = k.soc ∨ fd ∈ s.child.reduceOption
      · have hresult : ¬ (k.soc ∈ mask → ∀ d ∈ result, LowestFree s.host.fds d) :=
          fun free => h ⟨hmask, free⟩
        rw [Classical.not_imp] at hresult
        rw [wakeUp_ready ok result answer hmask, serveReady, if_pos hresult.1,
          acceptReady_impossible hresult.2]
        rfl
      · obtain ⟨asked, width, heq, hasked⟩ := fdSet_children ok
        unfold wakeUp
        rw [heq]
        exact if_neg fun hall => hmask fun fd hfd => (hasked fd).mp (hall fd hfd)

/-- One round, from the top of the loop to the top of the loop. -/
theorem wakeUp_round {k : Listener} (ok : s.Ok k.soc) {w : Wake} (h : w.Possible k s) :
    ∃ t, wakeUp k s w = .ok t ∧ t.Ok k.soc ∧ Round s.host t.host (· ∈ w.reported) ∧
      (w.Failed → t = s) := by
  obtain ⟨asked, width, heq, -⟩ := fdSet_children ok
  cases w with
  | error => exact ⟨s, by rw [wakeUp, heq]; rfl, ok, .refl _ _, fun _ => rfl⟩
  | timeout => exact ⟨s, by rw [wakeUp, heq]; rfl, ok, .refl _ _, fun _ => rfl⟩
  | ready mask result answer =>
      obtain ⟨t, visits, hserve, hok, run, hnodup, hcalls, -⟩ := serveReady_eq ok answer h.1 h.2
      refine ⟨t, (wakeUp_ready ok result answer h.1).trans hserve, hok,
        ok.round run ?_ hnodup fun fd hfd => (hcalls fd).mp hfd, False.elim⟩
      split
      · exact calls_admissions _ _
      · rfl

end Round

end NetworkProgram.Echo.Select
