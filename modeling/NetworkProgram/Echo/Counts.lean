import Mathlib.Data.Nat.Nth
import NetworkProgram.Echo.Readiness

set_option autoImplicit false

/-!
# Echo: the counts of the connections

At the top of its loop `server2` makes the mask and counts its connections.  It counts one only
if that raises `width`, which is right for a table whose descriptors ascend.  They do: place `i`
can only hold the descriptor that has `i` of those free at the start below it, since `accept`
takes the lowest of them and the table its first hole.
-/

namespace NetworkProgram.Echo

open NetworkProgram.Foundation
open NetworkProgram.Foundation.Slots
open NetworkProgram.Kernel

/-- What the process has open before `server_socket`, and the number that `socket` returns. -/
structure Inherited where
  table : Table
  noConn : ∀ d c, table d ≠ some (.conn c)
  finite : ∃ n, ∀ d, n ≤ d → table d = none
  soc : Nat
  lowest : LowestFree table soc

/-- The descriptors when the accept loop starts. -/
def Inherited.listener (start : Inherited) : Listener where
  table := Function.update start.table start.soc (some .listening)
  soc := start.soc
  soc_listening := Function.update_self ..
  noConn := by
    intro d c
    rcases eq_or_ne d start.soc with rfl | hne
    · rw [Function.update_self]
      simp
    · rw [Function.update_of_ne hne]
      exact start.noConn d c
  finite := by
    obtain ⟨n, hn⟩ := start.finite
    refine ⟨max n (start.soc + 1), fun d hd => ?_⟩
    rw [Function.update_of_ne (by omega)]
    exact hn d (by omega)

/-- The number of open connections. -/
noncomputable def Host.opened (h : Host) : Nat := Set.ncard {fd | ∃ c, h.fds fd = some (.conn c)}

namespace Select

/-! ## The top of the loop -/

/-- `FD_SET(child[i], &mask)` for the entries in use, with `width` and `count`. -/
def countChildren (child : List (Option Nat)) :
    Nat → Nat → List Nat × Nat × Nat → Except Stop (List Nat × Nat × Nat)
  | _, 0, set => .ok set
  | i, rounds + 1, (mask, width, count) =>
      match child[i]? with
      | none => .error .outOfRange
      | some none => countChildren child (i + 1) rounds (mask, width, count)
      | some (some fd) =>
          countChildren child (i + 1) rounds
            (if fd + 1 > width then (fd :: mask, fd + 1, count + 1) else (fd :: mask, width, count))

/-- The mask, the width and the count at the top of the loop. -/
def top (k : Listener) (s : State) : Except Stop (List Nat × Nat × Nat) :=
  countChildren s.child 0 s.childNo ([k.soc], k.soc + 1, 0)

/-- How many of the descriptors raise the width. -/
def raises : Nat → List Nat → Nat
  | _, [] => 0
  | width, fd :: fds => if fd + 1 > width then raises (fd + 1) fds + 1 else raises width fds

/-- Of descriptors that ascend every one does. -/
theorem raises_eq_length {width : Nat} {fds : List Nat} (ascends : fds.Pairwise (· < ·))
    (above : ∀ fd ∈ fds, width ≤ fd) : raises width fds = fds.length := by
  induction fds generalizing width with
  | nil => rfl
  | cons fd fds ih =>
      obtain ⟨hfirst, hrest⟩ := List.pairwise_cons.mp ascends
      rw [raises, if_pos (Nat.lt_succ_of_le (above fd List.mem_cons_self)), ih hrest hfirst,
        List.length_cons]

/-- The loop makes the set that `select` gets, and counts what raises the width. -/
theorem countChildren_eq {child : List (Option Nat)} {i rounds : Nat}
    (h : i + rounds ≤ child.length) (mask : List Nat) (width count : Nat) :
    ∃ mask' width', fdSet child i rounds (mask, width) = .ok (mask', width') ∧
      countChildren child i rounds (mask, width, count) = .ok (mask', width',
        count + raises width ((child.drop i).take rounds).reduceOption) := by
  induction rounds generalizing i mask width count with
  | zero => exact ⟨mask, width, rfl, rfl⟩
  | succ rounds ih =>
      have hget : child[i]? = some child[i] := List.getElem?_eq_getElem (by omega)
      rw [List.drop_eq_getElem_cons (by omega), List.take_succ_cons]
      cases hentry : child[i] with
      | none =>
          rw [List.reduceOption_cons_of_none]
          simpa only [fdSet, countChildren, hget, hentry] using
            ih (i := i + 1) (by omega) mask width count
      | some fd =>
          rw [List.reduceOption_cons_of_some, raises]
          simp only [fdSet, countChildren, hget, hentry]
          split
          · obtain ⟨mask', width', hset, hcount⟩ :=
              ih (i := i + 1) (by omega) (fd :: mask) (fd + 1) (count + 1)
            refine ⟨mask', width', hset, ?_⟩
            rw [hcount, Nat.add_assoc, Nat.add_comm 1]
          · exact ih (i := i + 1) (by omega) (fd :: mask) width count

/-- What is made at the top of the loop. -/
theorem top_eq {k : Listener} {s : State} (ok : s.Ok k.soc) :
    ∃ mask width, top k s = .ok (mask, width, raises (k.soc + 1) s.child.reduceOption) ∧
      fdSet s.child 0 s.childNo ([k.soc], k.soc + 1) = .ok (mask, width) ∧
      (∀ fd, fd ∈ mask ↔ fd = k.soc ∨ fd ∈ s.child.reduceOption) ∧ ∀ fd ∈ mask, fd < width := by
  obtain ⟨mask, width, hset, hcount⟩ := countChildren_eq ok.inside [k.soc] (k.soc + 1) 0
  obtain ⟨mask', width', hset', hmask, hsoc, hlt⟩ := fdSet_eq ok.inside ([k.soc], k.soc + 1)
  obtain ⟨rfl, rfl⟩ := Prod.mk.inj (Except.ok.inj (hset.symm.trans hset'))
  rw [List.drop_zero, ok.marked.reduceOption_take] at hcount hmask hlt
  rw [Nat.zero_add] at hcount
  have hasked : ∀ fd, fd ∈ mask ↔ fd = k.soc ∨ fd ∈ s.child.reduceOption := fun fd => by
    rw [hmask, List.mem_singleton]
  refine ⟨mask, width, hcount, hset, hasked, fun fd hfd => ?_⟩
  rcases (hasked fd).mp hfd with rfl | hchild
  · exact hsoc
  · exact hlt fd hchild

end Select

/-! ## Places and descriptors -/

/-- How many descriptors below `fd` are free at the start. -/
def rank (k : Listener) (fd : Nat) : Nat := Nat.count (fun d => k.table d = none) fd

/-- Each place holds the descriptor of its rank, and what is free at the start is free or in the
table. -/
structure Synced (k : Listener) (s : State) : Prop where
  place : ∀ i fd, s.child[i]? = some (some fd) → k.table fd = none ∧ rank k fd = i
  free : ∀ d, s.host.fds d = none ↔ k.table d = none ∧ d ∉ s.child.reduceOption

section Synced

variable {k : Listener} {s t : State} {d : Nat}

theorem Synced.start (k : Listener) : Synced k (.start k) where
  place := by
    intro i fd h
    rw [State.start, List.getElem?_replicate] at h
    split at h <;> simp at h
  free := by
    intro d
    rw [State.start, List.reduceOption_replicate_none]
    exact ⟨fun h => ⟨h, List.not_mem_nil⟩, And.left⟩

theorem exists_rank_eq {i : Nat} (h : i < rank k d) :
    ∃ e, e < d ∧ k.table e = none ∧ rank k e = i := by
  have hcard : ∀ hf : (Set.ofPred fun d => k.table d = none).Finite, i < hf.toFinset.card :=
    fun hf => Nat.lt_of_lt_of_le h (Nat.count_le_card hf d)
  exact ⟨_, Nat.nth_lt_of_lt_count h, Nat.nth_mem i hcard, Nat.count_nth hcard⟩

/-- The descriptor that `accept` returns belongs to the first hole. -/
theorem Synced.full_below (sync : Synced k s) (lowest : LowestFree s.host.fds d) :
    ∀ i, i < rank k d → ∃ fd, s.child[i]? = some (some fd) := by
  intro i hi
  obtain ⟨e, hlt, hfree, hrank⟩ := exists_rank_eq hi
  have hheld : e ∈ s.child.reduceOption := by
    by_contra hnot
    exact lowest.2 e hlt ((sync.free e).mpr ⟨hfree, hnot⟩)
  obtain ⟨j, hj⟩ := mem_reduceOption.mp hheld
  obtain rfl : j = i := (sync.place j e hj).2.symm.trans hrank
  exact ⟨e, hj⟩

theorem Synced.hole (sync : Synced k s) (lowest : LowestFree s.host.fds d)
    (h : rank k d < s.child.length) : s.child[rank k d]? = some none := by
  have hget := List.getElem?_eq_getElem h
  cases hentry : s.child[rank k d] with
  | none => rw [hget, hentry]
  | some fd =>
      rw [hentry] at hget
      obtain ⟨hfree, hnot⟩ := (sync.free d).mp lowest.1
      obtain ⟨hfree', hrank⟩ := sync.place _ fd hget
      obtain rfl := Nat.count_injective hfree' hfree hrank
      exact absurd (mem_reduceOption.mpr ⟨_, hget⟩) hnot

/-- A hole below which there is none. -/
theorem Synced.rank_eq (sync : Synced k s) (lowest : LowestFree s.host.fds d) {i : Nat}
    (hole : s.child[i]? = some none) (first : ∀ m, m < i → s.child[m]? ≠ some none) :
    rank k d = i := by
  obtain ⟨hlt, -⟩ := List.getElem?_eq_some_iff.mp hole
  rcases Nat.lt_trichotomy (rank k d) i with hbelow | heq | habove
  · exact absurd (sync.hole lowest (by omega)) (first _ hbelow)
  · exact heq
  · obtain ⟨fd, hfd⟩ := sync.full_below lowest i habove
    rw [hole] at hfd
    cases hfd

/-- The first hole is filled with the lowest descriptor. -/
theorem Synced.put (sync : Synced k s) (lowest : LowestFree s.host.fds d) {i top : Nat}
    (hole : s.child[i]? = some none) (first : rank k d = i) :
    Synced k { host := s.host.accept d, child := s.child.set i (some d), childNo := top } where
  place := by
    intro j fd hj
    rcases eq_or_ne i j with rfl | hne
    · obtain ⟨hlt, -⟩ := List.getElem?_eq_some_iff.mp hole
      rw [List.getElem?_set_self hlt] at hj
      obtain rfl := Option.some.inj (Option.some.inj hj)
      exact ⟨((sync.free d).mp lowest.1).1, first⟩
    · rw [List.getElem?_set_ne hne] at hj
      exact sync.place j fd hj
  free := by
    intro e
    rw [(perm_reduceOption_put hole d).mem_iff, List.mem_cons, not_or]
    dsimp only [Host.accept]
    rcases eq_or_ne e d with rfl | hne
    · rw [Function.update_self]
      simp
    · rw [Function.update_of_ne hne, sync.free e]
      exact ⟨fun h => ⟨h.1, hne, h.2⟩, fun h => ⟨h.1, h.2.2⟩⟩

/-! ## What a round keeps -/

/-- The connection is put into the first hole, or closed again. -/
theorem Synced.placed (sync : Synced k s) (ok : s.Ok k.soc) (lowest : LowestFree s.host.fds d)
    (run : Echo.place { s with host := s.host.accept d } d = .ok t) : Synced k t := by
  rcases place_cases ok d with ⟨i, top, hole, first, -, -, -, hplace⟩ | ⟨-, hplace⟩
  · obtain rfl := Except.ok.inj (hplace.symm.trans run)
    exact sync.put lowest hole (sync.rank_eq lowest hole first)
  · obtain rfl := Except.ok.inj (hplace.symm.trans run)
    exact ⟨sync.place, fun e => by rw [Host.fds_refuse lowest]; exact sync.free e⟩

theorem Synced.acceptReady (sync : Synced k s) (ok : s.Ok k.soc) {result : Option Nat}
    (run : Echo.acceptReady s result = .ok t) : Synced k t := by
  cases result with
  | none =>
      obtain rfl := Except.ok.inj run
      exact sync
  | some d =>
      rw [Echo.acceptReady] at run
      split at run
      · rename_i lowest
        exact sync.placed ok lowest run
      · cases run

theorem Synced.served (sync : Synced k s) (ok : s.Ok k.soc) {i fd : Nat}
    (hi : s.child[i]? = some (some fd)) (a : Answer) : Synced k (s.served i fd a) := by
  unfold State.served Host.visit
  split
  · refine ⟨fun j e hj => ?_, fun e => ?_⟩
    · rw [List.getElem?_set] at hj
      split at hj
      · split at hj <;> cases hj
      · exact sync.place j e hj
    · rw [mem_reduceOption_take ok.nodup hi]
      dsimp only [Host.close, Host.call]
      rcases eq_or_ne e fd with rfl | hne
      · rw [Function.update_self]
        simpa using (sync.place i e hi).1
      · rw [Function.update_of_ne hne, sync.free e]
        simp [hne]
  · exact ⟨sync.place, sync.free⟩

namespace Select

theorem synced_scan {mask : List Nat} {answer : Nat → Answer} {i rounds : Nat}
    (sync : Synced k s) (ok : s.Ok k.soc) (run : scan mask answer i rounds s = .ok t) :
    Synced k t := by
  induction rounds generalizing i s with
  | zero =>
      obtain rfl := Except.ok.inj run
      exact sync
  | succ rounds ih =>
      rw [scan] at run
      split at run
      · cases run
      · exact ih sync ok run
      · rename_i fd hget
        split at run
        · rw [serve_eq hget] at run
          exact ih (sync.served ok hget _) (ok.served hget _) run
        · exact ih sync ok run

theorem synced_serveReady {mask : List Nat} {result : Option Nat} {answer : Nat → Answer}
    (sync : Synced k s) (ok : s.Ok k.soc)
    (free : k.soc ∈ mask → ∀ d ∈ result, LowestFree s.host.fds d)
    (run : serveReady k s mask result answer = .ok t) : Synced k t := by
  unfold serveReady at run
  split at run
  · rename_i hsoc
    obtain ⟨u, hready, hok, -⟩ := acceptReady_eq ok (free hsoc)
    rw [hready] at run
    exact synced_scan (sync.acceptReady ok hready) hok run
  · exact synced_scan sync ok run

theorem synced_wakeUp {w : Wake} (sync : Synced k s) (ok : s.Ok k.soc)
    (run : wakeUp k s w = .ok t) : Synced k t := by
  by_cases hpossible : w.Possible k s
  · cases w with
    | ready mask result answer =>
        rw [wakeUp_ready ok result answer hpossible.1] at run
        exact synced_serveReady sync ok hpossible.2 run
    | error =>
        obtain ⟨u, hu, -, -, hsame⟩ := wakeUp_round ok hpossible
        obtain rfl := Except.ok.inj (hu.symm.trans run)
        exact hsame trivial ▸ sync
    | timeout =>
        obtain ⟨u, hu, -, -, hsame⟩ := wakeUp_round ok hpossible
        obtain rfl := Except.ok.inj (hu.symm.trans run)
        exact hsame trivial ▸ sync
  · rw [wakeUp_impossible ok hpossible] at run
    cases run

theorem reaches_synced (run : Reaches (step k) (State.start k) s) : Synced k s := by
  induction run with
  | refl => exact Synced.start k
  | @tail u v w run move ih =>
      cases hwake : wakeUp k u w with
      | error e =>
          rw [step, hwake] at move
          cases move
      | ok t =>
          rw [step, hwake] at move
          obtain rfl := Option.some.inj move
          exact synced_wakeUp ih (reaches_ok run) hwake

end Select

/-- The descriptors ascend over the places. -/
theorem Synced.ascends (sync : Synced k s) : s.child.reduceOption.Pairwise (· < ·) := by
  rw [List.reduceOption, List.pairwise_filterMap, List.pairwise_iff_getElem]
  intro i j hi hj hij d hd e he
  have hplace : ∀ m (hm : m < s.child.length) fd, s.child[m] = some fd → rank k fd = m :=
    fun m hm fd h => (sync.place m fd (by rw [List.getElem?_eq_getElem hm, h])).2
  have hd := hplace i hi d hd
  have he := hplace j hj e he
  exact Nat.lt_of_count_lt_count (by change rank k d < rank k e; omega)

end Synced

/-- All numbers below the listening socket are in use. -/
theorem Inherited.soc_lt (start : Inherited) {d : Nat} (free : start.listener.table d = none) :
    start.soc < d := by
  have hne : d ≠ start.soc := by
    rintro rfl
    cases start.listener.soc_listening.symm.trans free
  rw [show start.listener.table d = start.table d from Function.update_of_ne hne ..] at free
  by_contra hle
  exact start.lowest.2 d (by omega) free

/-! ## The three servers -/

/-- At the top of its loop `server2` asks for the listening socket and all connections, below
the width, and for nothing else; and like `server3` and `server4` it counts the connections. -/
theorem counts_exact (start : Inherited) :
    (∀ s, Reaches (Select.step start.listener) (State.start start.listener) s →
      ∃ mask width count, Select.top start.listener s = .ok (mask, width, count) ∧
        Select.fdSet s.child 0 s.childNo ([start.soc], start.soc + 1) = .ok (mask, width) ∧
        (∀ fd, fd ∈ mask ↔ fd = start.soc ∨ ∃ c, s.host.fds fd = some (.conn c)) ∧
        (∀ fd ∈ mask, fd < width) ∧ count = s.host.opened) ∧
    (∀ s, Reaches (Poll.step start.listener) (State.start start.listener) s →
      ∃ targets, Poll.setTargets s.child 0 s.childNo [start.soc] = .ok targets ∧
        targets.length - 1 = s.host.opened) ∧
    (∀ (k : Epoll.Startup) s, Reaches (Epoll.step k) (Epoll.State.start k) s →
      s.returned = false → s.count = s.host.opened) := by
  refine ⟨fun s run => ?_, fun s run => ?_, fun k s run running => ?_⟩
  · have ok := Select.reaches_ok run
    have sync := Select.reaches_synced run
    obtain ⟨mask, width, htop, hset, hmask, hlt⟩ := Select.top_eq ok
    have habove : ∀ fd ∈ s.child.reduceOption, start.soc + 1 ≤ fd := by
      intro fd hfd
      obtain ⟨i, hi⟩ := mem_reduceOption.mp hfd
      exact start.soc_lt (sync.place i fd hi).1
    refine ⟨mask, width, _, htop, hset, fun fd => ?_, hlt, ?_⟩
    · rw [hmask, ok.held]
      rfl
    · rw [Host.opened, ncard_eq_length ok.nodup ok.held]
      exact Select.raises_eq_length sync.ascends habove
  · have ok := Poll.reaches_ok run
    refine ⟨_, Poll.setTargets_children ok, ?_⟩
    rw [Host.opened, ncard_eq_length ok.nodup ok.held]
    rfl
  · have ok := (Epoll.reaches_safe run).running running
    rw [ok.count, Host.opened, ncard_eq_length ok.nodup ok.held]

/-- A server started from a shell: 0 to 2 are the standard streams. -/
def Inherited.plain : Inherited where
  table := fun d => if d < 3 then some .other else none
  noConn := by
    intro d c
    split_ifs <;> simp
  finite := ⟨3, fun d hd => if_neg (by omega)⟩
  soc := 3
  lowest := by decide

/-- Two connections, the first of which is closed in the round in which a third one comes. -/
theorem counts_exact_hole :
    ∃ s, Reaches (Select.step Inherited.plain.listener) (.start Inherited.plain.listener) s ∧
      s.child.take s.childNo = [none, some 5, some 6] ∧
      ∃ mask width count, Select.top Inherited.plain.listener s = .ok (mask, width, count) ∧
        count = s.host.opened := by
  have run := Reaches.of_exec (show exec (Select.step Inherited.plain.listener)
    (.start Inherited.plain.listener)
    [.ready [3] (some 4) fun _ => .plain .eof true,
      .ready [3] (some 5) fun _ => .plain .eof true,
      .ready [3, 4] (some 6) fun _ => .plain .eof true] = some _ from rfl)
  obtain ⟨mask, width, count, htop, -, -, -, hcount⟩ := (counts_exact .plain).1 _ run
  exact ⟨_, run, rfl, mask, width, count, htop, hcount⟩

end NetworkProgram.Echo
