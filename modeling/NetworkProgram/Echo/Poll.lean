import NetworkProgram.Echo.Children

set_option autoImplicit false

/-!
# Echo: `accept_loop` of `chapter05/server3.c`

The server that waits with `poll`.  It serves the descriptors it asked for, not the
entries of the table, and finds the entry of a closed connection by its descriptor.
-/

namespace NetworkProgram.Echo.Poll

open NetworkProgram.Foundation
open NetworkProgram.Foundation.Slots
open NetworkProgram.Kernel

/-- What the loop looks at in `revents`. -/
structure Revents where
  pollin : Bool
  pollerr : Bool

/-- `revents & (POLLIN | POLLERR)` -/
def Revents.Readable (r : Revents) : Prop := r.pollin = true ∨ r.pollerr = true

instance (r : Revents) : Decidable r.Readable := inferInstanceAs (Decidable (_ ∨ _))

/-- How `poll` returns.  The rest of the round is answered in advance: what
`accept` returns, and how the call of `send_recv` goes for `targets[i]`, if there
is one. -/
inductive Wake
  | error
  | timeout
  | ready (revents : Nat → Revents) (result : Option Nat) (answer : Nat → Answer)

/-- An error or a timeout. -/
def Wake.Failed : Wake → Prop
  | .error => True
  | .timeout => True
  | .ready _ _ _ => False

/-- `targets[count].fd = child[i]; count++` for the entries in use.  The list is
`targets[0 .. count)`. -/
def setTargets (child : List (Option Nat)) : Nat → Nat → List Nat → Except Stop (List Nat)
  | _, 0, targets => .ok targets
  | i, rounds + 1, targets =>
      match child[i]? with
      | none => .error .outOfRange
      | some none => setTargets child (i + 1) rounds targets
      | some (some fd) =>
          if targets.length < maxChild + 1 then
            setTargets child (i + 1) rounds (targets ++ [fd])
          else .error .outOfRange

/-- `send_recv(targets[i].fd, i - 1)`, and what follows if it returns -1. -/
def serve (s : State) (fd : Nat) (a : Answer) : Except Stop State :=
  let host := s.host.call fd a
  if (sendRecv a).ret = -1 then do
    match ← search s.child (some fd) 0 s.childNo with
    | none => return { s with host := host.close fd }
    | some j =>
        (store s.child j none).map fun child => { s with host := host.close fd, child := child }
  else .ok { s with host := host }

/-- The loop over the targets, from `i` on. -/
def scan (targets : List Nat) (revents : Nat → Revents) (answer : Nat → Answer) :
    Nat → Nat → State → Except Stop State
  | _, 0, s => .ok s
  | i, rounds + 1, s =>
      match targets[i]? with
      | none => .error .outOfRange
      | some fd =>
          if (revents i).Readable then do
            scan targets revents answer (i + 1) rounds (← serve s fd (answer i))
          else scan targets revents answer (i + 1) rounds s

/-- What is ready is served, the listening socket first. -/
def serveReady (s : State) (targets : List Nat) (revents : Nat → Revents) (result : Option Nat)
    (answer : Nat → Answer) : Except Stop State :=
  (if (revents 0).pollin then acceptReady s result else .ok s).bind fun s =>
    scan targets revents answer 1 (targets.length - 1) s

/-- One round of the loop. -/
def wakeUp (k : Listener) (s : State) (w : Wake) : Except Stop State := do
  let targets ← setTargets s.child 0 s.childNo [k.soc]
  match w with
  | .error => return s
  | .timeout => return s
  | .ready revents result answer => serveReady s targets revents result answer

def step (k : Listener) (s : State) (w : Wake) : Option State := (wakeUp k s w).toOption

/-! ## What a round does -/

/-- `poll` is asked for the listening socket and the connections. -/
def asked (k : Listener) (s : State) : List Nat := k.soc :: s.child.reduceOption

/-- `accept` returns a free descriptor. -/
def Wake.Possible (s : State) : Wake → Prop
  | .error => True
  | .timeout => True
  | .ready revents result _ =>
      (revents 0).pollin = true → ∀ d ∈ result, LowestFree s.host.fds d

/-- `poll` reports the descriptor `fd` of a connection. -/
def Wake.Reported (k : Listener) (s : State) : Wake → Nat → Prop
  | .error, _ => False
  | .timeout, _ => False
  | .ready revents _ _, fd =>
      ∃ i, 1 ≤ i ∧ (asked k s)[i]? = some fd ∧ (revents i).Readable

theorem setTargets_eq {child : List (Option Nat)} {i rounds : Nat} (targets : List Nat)
    (h : i + rounds ≤ child.length) (room : targets.length + rounds ≤ maxChild + 1) :
    setTargets child i rounds targets =
      .ok (targets ++ ((child.drop i).take rounds).reduceOption) := by
  induction rounds generalizing i targets with
  | zero => rw [List.take_zero, List.reduceOption_nil, List.append_nil]; rfl
  | succ rounds ih =>
      have hget : child[i]? = some child[i] := List.getElem?_eq_getElem (by omega)
      rw [List.drop_eq_getElem_cons (by omega), List.take_succ_cons]
      cases hentry : child[i] with
      | none =>
          rw [List.reduceOption_cons_of_none]
          simpa only [setTargets, hget, hentry] using
            ih (i := i + 1) targets (by omega) (by omega)
      | some fd =>
          have hroom : targets.length < maxChild + 1 := by omega
          rw [List.reduceOption_cons_of_some, List.append_cons]
          simpa only [setTargets, hget, hentry, if_pos hroom] using
            ih (i := i + 1) (targets ++ [fd]) (by omega)
              (by rw [List.length_append, List.length_singleton]; omega)

section Round

variable {soc : Nat} {s : State}

theorem setTargets_children {k : Listener} (ok : s.Ok k.soc) :
    setTargets s.child 0 s.childNo [k.soc] = .ok (asked k s) := by
  have hroom := ok.room
  rw [setTargets_eq _ ok.inside (by rw [List.length_singleton]; omega), List.drop_zero,
    ok.marked.reduceOption_take]
  rfl

theorem serve_eq (ok : s.Ok soc) {i fd : Nat} (hi : s.child[i]? = some (some fd)) (a : Answer) :
    serve s fd a = .ok (s.served i fd a) := by
  unfold serve State.served Host.visit
  split
  · rcases search_eq (some fd) ok.inside with
      ⟨j, hsearch, hlt, hj⟩ | ⟨hsearch, hnone⟩
    · obtain rfl := index_unique ok.nodup hi hj
      rw [hsearch]
      have hstore := store_eq (List.getElem?_eq_some_iff.mp hi).1 none
      simp only [bind, Except.bind, hstore]
      rfl
    · have hlt := ok.marked.lt_of_held i fd hi
      exact absurd hi (hnone i (Nat.zero_le i) (by omega))
  · rfl

/-- A window of indices is its first index and the rest. -/
theorem exists_window_succ {P : Nat → Prop} {i rounds : Nat} :
    (∃ j, i ≤ j ∧ j < i + (rounds + 1) ∧ P j) ↔
      P i ∨ ∃ j, i + 1 ≤ j ∧ j < i + 1 + rounds ∧ P j := by
  constructor
  · rintro ⟨j, hij, hlt, hj⟩
    rcases Nat.eq_or_lt_of_le hij with rfl | hij
    · exact .inl hj
    · exact .inr ⟨j, hij, by omega, hj⟩
  · rintro (hi | ⟨j, hij, hlt, hj⟩)
    · exact ⟨i, Nat.le_refl i, by omega, hi⟩
    · exact ⟨j, by omega, by omega, hj⟩

/-- The loop over the targets calls `send_recv` on those that are ready, in order. -/
theorem scan_eq (targets : List Nat) (revents : Nat → Revents) (answer : Nat → Answer)
    {i rounds : Nat} (ok : s.Ok soc) (h : i + rounds ≤ targets.length)
    (nodup : ((targets.drop i).take rounds).Nodup)
    (held : ∀ fd ∈ (targets.drop i).take rounds, fd ∈ s.child.reduceOption) :
    ∃ t moves, scan targets revents answer i rounds s = .ok t ∧ t.Ok soc ∧
      exec Host.step s.host moves = some t.host ∧
      (calls moves).Sublist ((targets.drop i).take rounds) ∧
      (∀ fd, fd ∈ calls moves ↔
        ∃ j, i ≤ j ∧ j < i + rounds ∧ targets[j]? = some fd ∧ (revents j).Readable) ∧
      ∀ m ∈ moves, ∃ fd j, m = .visit fd (answer j) := by
  induction rounds generalizing i s with
  | zero =>
      refine ⟨s, [], rfl, ok, rfl, List.nil_sublist _, fun fd => ?_, by simp⟩
      simp only [calls_nil, List.not_mem_nil, false_iff]
      rintro ⟨j, hij, hlt, -⟩
      omega
  | succ rounds ih =>
      have hget : targets[i]? = some targets[i] := List.getElem?_eq_getElem (by omega)
      rw [List.drop_eq_getElem_cons (by omega), List.take_succ_cons] at nodup held ⊢
      generalize targets[i] = fd at *
      obtain ⟨hnotin, hnodup⟩ := List.nodup_cons.mp nodup
      by_cases hready : (revents i).Readable
      · obtain ⟨p, hp⟩ := mem_reduceOption.mp (held fd List.mem_cons_self)
        have hserved := ok.served hp (answer i)
        have hkept : ∀ e ∈ (targets.drop (i + 1)).take rounds,
            e ∈ (s.served p fd (answer i)).child.reduceOption := by
          intro e he
          obtain ⟨c, hc⟩ := (ok.held e).mp (held e (List.mem_cons_of_mem _ he))
          have hne : e ∉ calls [.visit fd (answer i)] := by
            intro hmem
            obtain rfl := List.mem_singleton.mp hmem
            exact hnotin he
          exact (hserved.held e).mpr ⟨c, Host.step_fds (m := .visit fd (answer i)) rfl hc hne⟩
        obtain ⟨t, moves, hscan, hok, run, hsub, hcalls, hall⟩ :=
          ih hserved (i := i + 1) (by omega) hnodup hkept
        refine ⟨t, .visit fd (answer i) :: moves, ?_, hok, exec_cons_eq_some.mpr ⟨_, rfl, run⟩,
          hsub.cons_cons fd, fun e => ?_, ?_⟩
        · simp only [scan, hget, if_pos hready, serve_eq ok hp]
          exact hscan
        · change e ∈ fd :: calls moves ↔ _
          rw [List.mem_cons, hcalls e, exists_window_succ, hget, Option.some.injEq]
          exact or_congr_left ⟨fun heq => ⟨heq.symm, hready⟩, fun h => h.1.symm⟩
        · rintro m (_ | ⟨_, hm⟩)
          · exact ⟨fd, i, rfl⟩
          · exact hall m hm
      · obtain ⟨t, moves, hscan, hok, run, hsub, hcalls, hall⟩ :=
          ih ok (i := i + 1) (by omega) hnodup fun e he => held e (List.mem_cons_of_mem _ he)
        refine ⟨t, moves, ?_, hok, run, hsub.cons fd, fun e => ?_, hall⟩
        · simp only [scan, hget, if_neg hready]
          exact hscan
        · rw [hcalls e, exists_window_succ]
          exact (or_iff_right fun h => hready h.2).symm

theorem serveReady_eq {k : Listener} (ok : s.Ok k.soc) (revents : Nat → Revents)
    {result : Option Nat} (answer : Nat → Answer)
    (free : (revents 0).pollin = true → ∀ d ∈ result, LowestFree s.host.fds d) :
    ∃ t visits, serveReady s (asked k s) revents result answer = .ok t ∧ t.Ok k.soc ∧
      exec Host.step s.host
        ((if (revents 0).pollin then
          result.toList.map (admission s.child.reduceOption.length) else []) ++ visits) =
          some t.host ∧
      (calls visits).Nodup ∧
      (∀ fd, fd ∈ calls visits ↔
        ∃ i, 1 ≤ i ∧ (asked k s)[i]? = some fd ∧ (revents i).Readable) ∧
      ∀ m ∈ visits, ∃ fd j, m = .visit fd (answer j) := by
  obtain ⟨u, hfirst, hok, hrun, hheld⟩ : ∃ u,
      (if (revents 0).pollin then acceptReady s result else .ok s) = .ok u ∧ u.Ok k.soc ∧
        exec Host.step s.host (if (revents 0).pollin then
          result.toList.map (admission s.child.reduceOption.length) else []) = some u.host ∧
        ∀ fd ∈ s.child.reduceOption, fd ∈ u.child.reduceOption := by
    split
    · rename_i hsoc
      obtain ⟨u, hready, hok, hrun⟩ := acceptReady_eq ok (free hsoc)
      exact ⟨u, hready, hok, hrun, fun fd hfd =>
        (ok.mem_child_iff hok hrun (calls_admissions _ _) (.inr hfd)).mpr hfd⟩
    · exact ⟨s, rfl, ok, rfl, fun _ hfd => hfd⟩
  have hwindow : ((asked k s).drop 1).take ((asked k s).length - 1) = s.child.reduceOption := by
    simp [asked]
  have hlen : 1 + ((asked k s).length - 1) = (asked k s).length := by
    rw [asked, List.length_cons]
    omega
  obtain ⟨t, visits, hscan, htok, hvisits, hsub, hcalls, hall⟩ :=
    scan_eq (asked k s) revents answer hok hlen.le
      (by rw [hwindow]; exact ok.nodup) (by rw [hwindow]; exact hheld)
  refine ⟨t, visits, ?_, htok, ?_, ?_, fun fd => ?_, hall⟩
  · unfold serveReady
    rw [hfirst]
    exact hscan
  · rw [exec_append _ hrun, hvisits]
  · rw [hwindow] at hsub
    exact ok.nodup.sublist hsub
  · rw [hcalls fd]
    constructor
    · rintro ⟨i, hi, -, hrest⟩
      exact ⟨i, hi, hrest⟩
    · rintro ⟨i, hi, hget, hread⟩
      have hlt := (List.getElem?_eq_some_iff.mp hget).1
      exact ⟨i, hi, by omega, hget, hread⟩

theorem wakeUp_ready {k : Listener} (ok : s.Ok k.soc) (revents : Nat → Revents)
    (result : Option Nat) (answer : Nat → Answer) :
    wakeUp k s (.ready revents result answer) =
      serveReady s (asked k s) revents result answer := by
  unfold wakeUp
  rw [setTargets_children ok]
  rfl

/-- What the environment cannot do ends the round; nothing else does. -/
theorem wakeUp_impossible {k : Listener} (ok : s.Ok k.soc) {w : Wake} (h : ¬ w.Possible s) :
    wakeUp k s w = .error .impossible := by
  cases w with
  | error => exact absurd trivial h
  | timeout => exact absurd trivial h
  | ready revents result answer =>
      have hresult := (Classical.not_imp (a := (revents 0).pollin = true)).mp h
      rw [wakeUp_ready ok, serveReady, if_pos hresult.1, acceptReady_impossible hresult.2]
      rfl

/-- One round, from the top of the loop to the top of the loop. -/
theorem wakeUp_round {k : Listener} (ok : s.Ok k.soc) {w : Wake} (h : w.Possible s) :
    ∃ t, wakeUp k s w = .ok t ∧ t.Ok k.soc ∧ Round s.host t.host (w.Reported k s) ∧
      (w.Failed → t = s) := by
  have heq := setTargets_children ok
  cases w with
  | error => exact ⟨s, by rw [wakeUp, heq]; rfl, ok, .refl _ _, fun _ => rfl⟩
  | timeout => exact ⟨s, by rw [wakeUp, heq]; rfl, ok, .refl _ _, fun _ => rfl⟩
  | ready revents result answer =>
      obtain ⟨t, visits, hserve, hok, run, hnodup, hcalls, -⟩ := serveReady_eq ok revents answer h
      refine ⟨t, (wakeUp_ready ok revents result answer).trans hserve, hok,
        ok.round run ?_ hnodup fun fd hfd => ⟨?_, (hcalls fd).mp hfd⟩, False.elim⟩
      · split
        · exact calls_admissions _ _
        · rfl
      · obtain ⟨i, hi, hget, -⟩ := (hcalls fd).mp hfd
        obtain ⟨i, rfl⟩ := Nat.exists_eq_add_of_le' hi
        exact List.mem_of_getElem? hget

end Round

end NetworkProgram.Echo.Poll
