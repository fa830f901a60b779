import NetworkProgram.Foundation.Slots
import NetworkProgram.Echo.Host

set_option autoImplicit false

/-!
# Echo: the table of connections

`server2.c` and `server3.c` keep the descriptors of their connections in the same
array `child`, find a place for a new one in the same way, and call `send_recv`
for one that is ready.  An entry of -1 is `none` here.
-/

namespace NetworkProgram.Echo

open NetworkProgram.Foundation
open NetworkProgram.Foundation.Slots
open NetworkProgram.Kernel

/-- `MAX_CHILD` -/
def maxChild : Nat := 20

/-- Why a wake-up has no result. -/
inductive Stop
  /-- The environment does not answer so. -/
  | impossible
  /-- An access to an array beyond its end. -/
  | outOfRange
  deriving DecidableEq, Repr

/-- `accept_loop` at the top of its loop. -/
structure State where
  host : Host
  child : List (Option Nat)
  childNo : Nat

def State.start (k : Listener) : State where
  host := .start k
  child := List.replicate maxChild none
  childNo := 0

/-- `for (; rounds > 0; i++, rounds--) if (child[i] == wanted) break;` -/
def search (child : List (Option Nat)) (wanted : Option Nat) :
    Nat → Nat → Except Stop (Option Nat)
  | _, 0 => .ok none
  | i, rounds + 1 =>
      match child[i]? with
      | none => .error .outOfRange
      | some entry =>
          if entry = wanted then .ok (some i) else search child wanted (i + 1) rounds

/-- `child[i] = value` -/
def store (child : List (Option Nat)) (i : Nat) (value : Option Nat) :
    Except Stop (List (Option Nat)) :=
  if i < child.length then .ok (child.set i value) else .error .outOfRange

/-- `child[pos] = acc` -/
def put (s : State) (pos acc : Nat) : Except Stop State :=
  (store s.child pos (some acc)).map fun child => { s with child := child }

/-- Find a place for the new connection, or close it. -/
def place (s : State) (acc : Nat) : Except Stop State := do
  match ← search s.child none 0 s.childNo with
  | some pos => put s pos acc
  | none =>
      if s.childNo + 1 ≥ maxChild then
        return { s with host := s.host.close acc }
      else
        put { s with childNo := s.childNo + 1 } s.childNo acc

/-- The listening socket is ready; `accept` returns a descriptor, or none for an error. -/
def acceptReady (s : State) (result : Option Nat) : Except Stop State :=
  match result with
  | none => .ok s
  | some acc =>
      if LowestFree s.host.fds acc then place { s with host := s.host.accept acc } acc
      else .error .impossible

/-! ## The table and the descriptors -/

/-- The table holds the open connections, each once, and nothing from `child_no` on. -/
structure State.Ok (soc : Nat) (s : State) : Prop where
  host : s.host.Ok soc
  size : s.child.length = maxChild
  marked : Marked s.child s.childNo
  room : s.childNo ≤ maxChild - 1
  nodup : s.child.reduceOption.Nodup
  held : ∀ fd, fd ∈ s.child.reduceOption ↔ ∃ c, s.host.fds fd = some (.conn c)

theorem State.ok_start (k : Listener) : (State.start k).Ok k.soc where
  host := Host.ok_start k
  size := List.length_replicate
  marked := .replicate_none maxChild
  room := Nat.zero_le _
  nodup := by rw [State.start, List.reduceOption_replicate_none]; exact List.nodup_nil
  held := by
    intro fd
    rw [State.start, List.reduceOption_replicate_none]
    exact ⟨fun h => absurd h List.not_mem_nil, fun ⟨c, hc⟩ => absurd hc (k.noConn fd c)⟩

/-- A loop up to `child_no` stays inside the array. -/
theorem State.Ok.inside {soc : Nat} {s : State} (ok : s.Ok soc) :
    0 + s.childNo ≤ s.child.length := by
  rw [Nat.zero_add]
  exact ok.marked.le

theorem search_eq {child : List (Option Nat)} (wanted : Option Nat) {i rounds : Nat}
    (h : i + rounds ≤ child.length) :
    (∃ j, search child wanted i rounds = .ok (some j) ∧ j < i + rounds ∧
        child[j]? = some wanted) ∨
      (search child wanted i rounds = .ok none ∧
        ∀ j, i ≤ j → j < i + rounds → child[j]? ≠ some wanted) := by
  induction rounds generalizing i with
  | zero => exact .inr ⟨rfl, fun j hj hlt => absurd hlt (Nat.not_lt.mpr hj)⟩
  | succ rounds ih =>
      have hget : child[i]? = some child[i] := List.getElem?_eq_getElem (by omega)
      rw [search, hget]
      dsimp only
      split
      · rename_i hwanted
        exact .inl ⟨i, rfl, by omega, by rw [hget, hwanted]⟩
      · rename_i hwanted
        rcases ih (i := i + 1) (by omega) with ⟨j, hsearch, hlt, hj⟩ | ⟨hsearch, hnone⟩
        · exact .inl ⟨j, hsearch, by omega, hj⟩
        · refine .inr ⟨hsearch, fun j hij hlt => ?_⟩
          rcases Nat.eq_or_lt_of_le hij with rfl | hij
          · rw [hget]
            exact fun heq => hwanted (Option.some.inj heq)
          · exact hnone j hij (by omega)

/-- There is none in front of the one that is found. -/
theorem search_first {child : List (Option Nat)} {wanted : Option Nat} {i rounds j : Nat}
    (h : search child wanted i rounds = .ok (some j)) :
    ∀ m, i ≤ m → m < j → child[m]? ≠ some wanted := by
  induction rounds generalizing i with
  | zero => cases h
  | succ rounds ih =>
      intro m him hmj
      rw [search] at h
      split at h
      · cases h
      · rename_i entry hget
        split at h
        · obtain rfl := Option.some.inj (Except.ok.inj h)
          omega
        · rename_i hwanted
          rcases Nat.eq_or_lt_of_le him with rfl | hlt
          · rw [hget]
            exact fun heq => hwanted (Option.some.inj heq)
          · exact ih h m hlt hmj

theorem store_eq {child : List (Option Nat)} {i : Nat} (h : i < child.length)
    (value : Option Nat) : store child i value = .ok (child.set i value) :=
  if_pos h

/-- A connection is kept exactly when fewer than `MAX_CHILD - 1` are open. -/
def admission (opened d : Nat) : Move :=
  if opened + 1 ≥ maxChild then .refuse d else .keep d

@[simp] theorem calls_admission (opened d : Nat) : calls [admission opened d] = [] := by
  unfold admission
  split <;> rfl

section Step

variable {soc : Nat} {s : State}

/-- A free place is given to the connection that `accept` returned. -/
theorem State.Ok.put (ok : s.Ok soc) {d i top : Nat} (free : LowestFree s.host.fds d)
    (hole : s.child[i]? = some none) (htop : top ≤ maxChild - 1)
    (marked : Marked (s.child.set i (some d)) top) :
    State.Ok soc { host := s.host.accept d, child := s.child.set i (some d), childNo := top } where
  host := ok.host.accept free
  size := by rw [List.length_set, ok.size]
  marked := marked
  room := htop
  nodup := by
    rw [(perm_reduceOption_put hole d).nodup_iff, List.nodup_cons]
    refine ⟨fun hmem => ?_, ok.nodup⟩
    obtain ⟨c, hc⟩ := (ok.held d).mp hmem
    rw [free.1] at hc
    cases hc
  held := by
    intro fd
    rw [(perm_reduceOption_put hole d).mem_iff, List.mem_cons, ok.held fd]
    dsimp only [Host.accept]
    rcases eq_or_ne fd d with rfl | hne
    · rw [Function.update_self]
      simp
    · rw [Function.update_of_ne hne]
      exact ⟨fun h => h.resolve_left hne, .inr⟩

/-- A connection that is refused leaves the table as it is. -/
theorem State.Ok.refuse (ok : s.Ok soc) {d : Nat} (free : LowestFree s.host.fds d) :
    State.Ok soc { s with host := (s.host.accept d).close d } where
  host := ok.host.refuse free
  size := ok.size
  marked := ok.marked
  room := ok.room
  nodup := ok.nodup
  held := by
    intro fd
    rw [ok.held fd, Host.fds_refuse free]

/-- What `place` does: it fills the first hole, or, if all places are in use, it closes the
connection. -/
theorem place_cases (ok : s.Ok soc) (d : Nat) :
    (∃ i top, s.child[i]? = some none ∧ (∀ m, m < i → s.child[m]? ≠ some none) ∧
        top ≤ maxChild - 1 ∧ Marked (s.child.set i (some d)) top ∧
        s.child.reduceOption.length + 1 < maxChild ∧
        place { s with host := s.host.accept d } d =
          .ok { host := s.host.accept d, child := s.child.set i (some d), childNo := top }) ∨
      (maxChild ≤ s.child.reduceOption.length + 1 ∧
        place { s with host := s.host.accept d } d =
          .ok { s with host := (s.host.accept d).close d }) := by
  have hsize := ok.size
  have hle := ok.marked.le
  have hroom := ok.room
  unfold place
  rcases search_eq none ok.inside with ⟨j, hsearch, hlt, hj⟩ | ⟨hsearch, hnone⟩
  · -- a hole below the mark
    have hlength := ok.marked.length_lt (by omega) hj
    have hput : put { s with host := s.host.accept d } j d =
        .ok { s with host := s.host.accept d, child := s.child.set j (some d) } := by
      rw [put, store_eq (show j < s.child.length by omega)]
      rfl
    rw [hsearch]
    exact .inl ⟨j, s.childNo, hj, fun m => search_first hsearch m (Nat.zero_le m), hroom,
      ok.marked.set (.inr (by omega)), by omega, hput⟩
  · have hlength := ok.marked.length_eq fun i hi => hnone i (Nat.zero_le i) (by omega)
    rw [hsearch]
    rcases Nat.lt_or_ge (s.childNo + 1) maxChild with hlt | hge
    · -- the place at the mark
      have hhole : s.child[s.childNo]? = some none :=
        ok.marked.getElem?_eq_none (Nat.le_refl _) (by omega)
      have hput : put { s with host := s.host.accept d, childNo := s.childNo + 1 } s.childNo d =
          .ok { host := s.host.accept d, child := s.child.set s.childNo (some d),
                childNo := s.childNo + 1 } := by
        rw [put, store_eq (show s.childNo < s.child.length by omega)]
        rfl
      exact .inl ⟨s.childNo, s.childNo + 1, hhole,
        fun m hm => hnone m (Nat.zero_le m) (by omega), by omega,
        ok.marked.push (by omega) d, by omega, (if_neg (by simpa using hlt)).trans hput⟩
    · exact .inr ⟨by omega, if_pos hge⟩

theorem place_eq (ok : s.Ok soc) {d : Nat} (free : LowestFree s.host.fds d) :
    ∃ t, place { s with host := s.host.accept d } d = .ok t ∧ t.Ok soc ∧
      s.host.step (admission s.child.reduceOption.length d) = some t.host := by
  rcases place_cases ok d with ⟨i, top, hole, -, htop, marked, hroom, hplace⟩ | ⟨hfull, hplace⟩
  · refine ⟨_, hplace, ok.put free hole htop marked, ?_⟩
    rw [admission, if_neg (by omega), Host.step, if_pos free]
  · refine ⟨_, hplace, ok.refuse free, ?_⟩
    rw [admission, if_pos hfull, Host.step, if_pos free]

theorem acceptReady_eq (ok : s.Ok soc) {result : Option Nat}
    (free : ∀ d ∈ result, LowestFree s.host.fds d) :
    ∃ t, acceptReady s result = .ok t ∧ t.Ok soc ∧
      exec Host.step s.host (result.toList.map (admission s.child.reduceOption.length)) =
        some t.host := by
  cases result with
  | none => exact ⟨s, rfl, ok, rfl⟩
  | some d =>
      obtain ⟨t, hplace, hok, move⟩ := place_eq ok (free d rfl)
      exact ⟨t, (if_pos (free d rfl)).trans hplace, hok, exec_cons_eq_some.mpr ⟨_, move, rfl⟩⟩

@[simp] theorem calls_admissions (opened : Nat) (result : Option Nat) :
    calls (result.toList.map (admission opened)) = [] := by
  cases result with
  | none => rfl
  | some d => exact calls_admission opened d

/-- Of the descriptors that were asked for, the table holds the same as before. -/
theorem State.Ok.mem_child_iff {t : State} {moves : List Move} (ok : s.Ok soc) (okt : t.Ok soc)
    (run : exec Host.step s.host moves = some t.host) (quiet : calls moves = []) {fd : Nat}
    (asked : fd = soc ∨ fd ∈ s.child.reduceOption) :
    fd ∈ t.child.reduceOption ↔ fd ∈ s.child.reduceOption := by
  rw [okt.held, ok.held]
  constructor
  · rintro ⟨c, hc⟩
    exact (ok.held fd).mp (asked.resolve_left (okt.host.ne_soc hc))
  · rintro ⟨c, hc⟩
    exact ⟨c, Host.exec_fds run hc (by rw [quiet]; exact List.not_mem_nil)⟩

/-- A round: what is accepted first, and the calls for connections of the table. -/
theorem State.Ok.round {t : Host} {accepted visits : List Move} {ready : Nat → Prop}
    (ok : s.Ok soc) (run : exec Host.step s.host (accepted ++ visits) = some t)
    (quiet : calls accepted = []) (nodup : (calls visits).Nodup)
    (hcalls : ∀ fd ∈ calls visits, fd ∈ s.child.reduceOption ∧ ready fd) :
    Round s.host t ready := by
  refine ⟨accepted ++ visits, run, ?_, fun fd hfd => ?_⟩
  · rw [calls_append, quiet]
    exact nodup
  · rw [calls_append, quiet] at hfd
    exact ⟨(hcalls fd hfd).2, (ok.held fd).mp (hcalls fd hfd).1⟩

theorem acceptReady_impossible {result : Option Nat}
    (h : ¬ ∀ d ∈ result, LowestFree s.host.fds d) :
    acceptReady s result = .error .impossible := by
  cases result with
  | none => exact absurd (fun d hd => by cases hd) h
  | some d => exact if_neg fun free => h fun e he => Option.some.inj he ▸ free

/-- `send_recv` on entry `i`, and what follows if it returns -1. -/
def State.served (s : State) (i fd : Nat) (a : Answer) : State :=
  { s with
    host := s.host.visit fd a
    child := if (sendRecv a).ret = -1 then s.child.set i none else s.child }

theorem State.Ok.served (ok : s.Ok soc) {i fd : Nat} (hi : s.child[i]? = some (some fd))
    (a : Answer) : (s.served i fd a).Ok soc := by
  obtain ⟨c, hc⟩ := (ok.held fd).mp (mem_reduceOption.mpr ⟨i, hi⟩)
  have hhost := ok.host.visit hc a
  unfold State.served Host.visit at *
  split at hhost
  · rename_i hret
    simp only [if_pos hret]
    exact {
      host := hhost
      size := by rw [List.length_set, ok.size]
      marked := ok.marked.set (.inl rfl)
      room := ok.room
      nodup := ((perm_reduceOption_take hi).nodup_iff.mpr ok.nodup).of_cons
      held := by
        intro e
        rw [mem_reduceOption_take ok.nodup hi, ok.held e]
        dsimp only [Host.close, Host.call]
        rcases eq_or_ne e fd with rfl | hne
        · rw [Function.update_self]
          simp
        · rw [Function.update_of_ne hne]
          exact ⟨And.left, fun h => ⟨h, hne⟩⟩ }
  · rename_i hret
    simp only [if_neg hret]
    exact { ok with host := hhost }

end Step

end NetworkProgram.Echo
