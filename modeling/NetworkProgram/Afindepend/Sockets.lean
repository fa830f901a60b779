import Mathlib.Data.List.TakeWhile
import Mathlib.Tactic.SplitIfs
import NetworkProgram.Afindepend.Model

set_option autoImplicit false

/-!
# Afindepend: what `server_socket_afindepend` keeps and releases

The loop keeps the sockets of the entries for which every step went well, as far as the array
has room, and closes every other one at once.  The way out when `getnameinfo` fails closes none
of those kept, and the way out without a socket does not free the list.
-/

namespace NetworkProgram.Afindepend

open NetworkProgram.Foundation

variable {Address : Type}

/-- A socket that listens at the address. -/
def Socket.ready (addr : Address) : Socket Address where
  reuse := true
  bound := some addr
  listening := true

namespace Entry

def works (e : Entry Address) : Bool := e.setsockopt && e.bind && e.listen

/-- The socket that an entry is good for, and its number: every step for it goes well. -/
def passing (e : Entry Address) : Option (Nat × Socket Address) :=
  if e.named && e.works then e.socket.map fun d => (d, .ready e.addr) else none

end Entry

/-- What the entries in front of the first one without a name are good for. -/
def passings (es : List (Entry Address)) : List (Nat × Socket Address) :=
  (es.takeWhile (·.named)).filterMap Entry.passing

/-! ## One entry -/

section Prepare

variable {e : Entry Address} {d : Nat} {s : State Address}

theorem prepare_of_works (works : e.works = true) :
    e.prepare d s = { s with
      i := s.i + 1
      soc := Function.update s.soc s.i d
      fds := s.fds.hold d (.ready e.addr) } := by
  simp only [Entry.works, Bool.and_eq_true] at works
  obtain ⟨⟨hopt, hbind⟩, hlisten⟩ := works
  simp [Entry.prepare, hopt, hbind, hlisten, Socket.ready]

theorem prepare_of_fails (works : e.works = false) (free : s.fds d = none) :
    e.prepare d s = { s with soc := Function.update s.soc s.i d } := by
  unfold Entry.prepare
  split_ifs with hopt hbind hlisten
  · simp [State.close, Handles.close_hold free]
  · simp [State.close, Handles.close_hold free]
  · simp [State.close, Handles.close_hold free]
  · simp [Entry.works, hopt, hbind, hlisten] at works

end Prepare

/-! ## The loop -/

/-- At the head of the loop: the table is the one that was found, with what was kept besides. -/
structure Kept (fds : Handles (Socket Address)) (kept : List (Nat × Socket Address))
    (s : State Address) : Prop where
  i : s.i = kept.length
  soc : ∀ j (h : j < kept.length), s.soc j = kept[j].1
  table : s.fds = fds.besides kept
  nodup : (kept.map Prod.fst).Nodup
  free : ∀ d ∈ kept.map Prod.fst, fds d = none

section Loop

variable {alloc : Allocation (Socket Address)} {len : Int} {fds : Handles (Socket Address)}
  {kept : List (Nat × Socket Address)} {s t : State Address}

theorem Kept.start (soc : Nat → Int) : Kept fds [] { i := 0, soc := soc, fds := fds } where
  i := rfl
  soc := fun _ h => absurd h (Nat.not_lt_zero _)
  table := rfl
  nodup := List.nodup_nil
  free := fun _ h => absurd h List.not_mem_nil

/-- What is written to `soc[i]` before `i` is counted up is of no account. -/
theorem Kept.write (inv : Kept fds kept s) (x : Int) :
    Kept fds kept { s with soc := Function.update s.soc s.i x } where
  i := inv.i
  soc := by
    intro j h
    have hne : j ≠ s.i := inv.i ▸ Nat.ne_of_lt h
    exact (Function.update_of_ne hne ..).trans (inv.soc j h)
  table := inv.table
  nodup := inv.nodup
  free := inv.free

theorem Kept.concat (inv : Kept fds kept s) {d : Nat} (x : Socket Address)
    (free : s.fds d = none) :
    Kept fds (kept ++ [(d, x)])
      { s with i := s.i + 1, soc := Function.update s.soc s.i d, fds := s.fds.hold d x } := by
  have hnew : d ∉ kept.map Prod.fst := by
    intro hmem
    obtain ⟨⟨d, y⟩, hy, rfl⟩ := List.mem_map.mp hmem
    rw [inv.table, Handles.besides_of_mem inv.nodup hy] at free
    cases free
  have hfree : fds d = none := by
    rw [← free, inv.table, Handles.besides_of_notMem hnew]
  constructor
  · simp [inv.i]
  · intro j h
    rw [List.length_append, List.length_singleton] at h
    rcases Nat.lt_succ_iff_lt_or_eq.mp h with hlt | heq
    · rw [List.getElem_append_left hlt]
      exact (inv.write d).soc j hlt
    · rw [List.getElem_concat_length heq, heq, ← inv.i]
      exact Function.update_self ..
  · rw [Handles.besides_concat, inv.table]
  · rw [List.map_append]
    refine List.nodup_append.mpr ⟨inv.nodup, List.pairwise_singleton .., fun c hc b hb heq => ?_⟩
    obtain rfl : b = d := List.mem_singleton.mp hb
    exact hnew (heq ▸ hc)
  · intro c hc
    rw [List.map_append, List.mem_append] at hc
    rcases hc with hc | hc
    · exact inv.free c hc
    · exact List.mem_singleton.mp hc ▸ hfree

/-- With `n` sockets already kept the loop comes to an entry without a name. -/
def StopsIn (len : Int) (n : Nat) (es : List (Entry Address)) : Prop :=
  (∃ e ∈ es, e.named = false) ∧ ((n + (passings es).length : Nat) : Int) < len

theorem passings_cons {e : Entry Address} {es : List (Entry Address)} (named : e.named = true) :
    passings (e :: es) = e.passing.toList ++ passings es := by
  cases h : e.passing with
  | none => simp [passings, named, h]
  | some p => simp [passings, named, h]

theorem stopsIn_cons {n : Nat} {e : Entry Address} {es : List (Entry Address)}
    (named : e.named = true) :
    StopsIn len n (e :: es) ↔ StopsIn len (n + e.passing.toList.length) es := by
  rw [StopsIn, StopsIn, passings_cons named, List.length_append, Nat.add_assoc]
  simp only [List.mem_cons, exists_eq_or_imp, named, Bool.true_eq_false, false_or]

/-- What an entry does to an invariant: a number is written that is of no account yet, and a
socket that works is added to those kept. -/
structure Preserved (alloc : Allocation (Socket Address))
    (I : List (Nat × Socket Address) → State Address → Prop) : Prop where
  count : ∀ {kept s}, I kept s → s.i = kept.length
  write : ∀ {kept s}, I kept s → ∀ x, I kept { s with soc := Function.update s.soc s.i x }
  concat : ∀ {kept s}, I kept s → ∀ {d}, alloc.gives s.fds d → ∀ x, I (kept ++ [(d, x)])
    { s with i := s.i + 1, soc := Function.update s.soc s.i d, fds := s.fds.hold d x }

/-- The loop keeps what the entries are good for, in their order, as far as there is room. -/
theorem socketLoop_keeps {I : List (Nat × Socket Address) → State Address → Prop}
    (keeps : Preserved alloc I) {es : List (Entry Address)} {exit : Exit} (inv : I kept s)
    (run : socketLoop alloc len es s = some (exit, t)) :
    I (kept ++ (passings es).take (len.toNat - kept.length)) t ∧
      (exit = .unnamed ↔ StopsIn len kept.length es) := by
  induction es generalizing s kept with
  | nil =>
      obtain ⟨rfl, rfl⟩ : Exit.ends = exit ∧ s = t := by
        rw [socketLoop, Option.some.injEq, Prod.mk.injEq] at run
        exact run
      constructor
      · rw [show passings ([] : List (Entry Address)) = [] from rfl, List.take_nil, List.append_nil]
        exact inv
      · simp [StopsIn]
  | cons e es ih =>
      have hi := keeps.count inv
      rw [socketLoop] at run
      split_ifs at run with hroom hnamed
      · cases hsoc : e.socket with
        | none =>
            have hpass : e.passing = none := by simp [Entry.passing, hsoc]
            rw [hsoc] at run
            rw [stopsIn_cons hnamed, passings_cons hnamed, hpass]
            exact ih (keeps.write inv (-1)) run
        | some d =>
            rw [hsoc] at run
            obtain ⟨hgives, run⟩ := Option.ite_none_right_eq_some.mp run
            rw [stopsIn_cons hnamed, passings_cons hnamed]
            cases hworks : e.works with
            | true =>
                have hpass : e.passing = some (d, .ready e.addr) := by
                  simp [Entry.passing, hnamed, hworks, hsoc]
                rw [prepare_of_works hworks] at run
                have hrest := ih (keeps.concat inv hgives _) run
                have hlt : kept.length < len.toNat := by omega
                rw [List.length_append, List.length_singleton, List.append_assoc] at hrest
                rw [hpass, Option.toList_some, List.length_singleton, List.singleton_append,
                  ← Nat.succ_pred_eq_of_pos (Nat.sub_pos_of_lt hlt), List.take_succ_cons]
                exact hrest
            | false =>
                have hpass : e.passing = none := by simp [Entry.passing, hworks]
                rw [prepare_of_fails hworks (alloc.free hgives)] at run
                rw [hpass]
                exact ih (keeps.write inv d) run
      · obtain ⟨rfl, rfl⟩ : Exit.unnamed = exit ∧ s = t := by
          rw [Option.some.injEq, Prod.mk.injEq] at run
          exact run
        have hnone : passings (e :: es) = [] := by simp [passings, hnamed]
        rw [hnone, List.take_nil, List.append_nil]
        refine ⟨inv, iff_of_true rfl ⟨⟨e, List.mem_cons_self, by simpa using hnamed⟩, ?_⟩⟩
        rw [hnone]
        exact hi ▸ hroom
      · obtain ⟨rfl, rfl⟩ : Exit.ends = exit ∧ s = t := by
          rw [Option.some.injEq, Prod.mk.injEq] at run
          exact run
        have hfull : len.toNat - kept.length = 0 := by omega
        rw [hfull, List.take_zero, List.append_nil]
        refine ⟨inv, iff_of_false Exit.noConfusion fun stops => ?_⟩
        have hlt := stops.2
        omega

theorem Kept.preserved : Preserved alloc (Kept fds) where
  count := Kept.i
  write := Kept.write
  concat := fun inv _ gives x => inv.concat x (alloc.free gives)

end Loop

/-! ## The call -/

/-- The array holds the sockets `kept`, and these listen; every other descriptor is as it was
before the call. -/
structure Serves (fds : Handles (Socket Address)) (kept : List (Nat × Socket Address))
    (r : Result Address) : Prop where
  ret : r.ret = kept.length
  soc : ∀ j (h : j < kept.length), r.soc j = kept[j].1
  distinct : (kept.map Prod.fst).Nodup
  listening : ∀ p ∈ kept, r.fds p.1 = some p.2 ∧ p.2.listening = true
  others : ∀ d, d ∉ kept.map Prod.fst → r.fds d = fds d

/-- What a call for at most `len` sockets has to leave. -/
structure Meets (res0 : Option (List (Entry Address))) (len : Int)
    (fds : Handles (Socket Address)) (r : Result Address) : Prop where
  /-- The sockets are those of the first entries for which every step went well. -/
  served : 0 < r.ret → r.ret ≤ len ∧ ∃ es, res0 = some es ∧
    Serves fds ((es.filterMap Entry.passing).take len.toNat) r
  failed : r.ret = -1 → r.fds = fds
  freed : r.freed = if res0.isSome then 1 else 0

/-- The loop comes to an entry without a name while it has no socket yet; or to none, and it
has a socket to return. -/
def Clean (len : Int) : Option (List (Entry Address)) → Prop
  | none => True
  | some es => StopsIn len 0 es ∧ passings es = [] ∨
      ¬ StopsIn len 0 es ∧ 0 < len ∧ passings es ≠ []

section Call

variable {alloc : Allocation (Socket Address)} {len : Int} {fds : Handles (Socket Address)}
  {es : List (Entry Address)} {s : State Address}

theorem take_passings (goes : ¬ StopsIn len 0 es) :
    (passings es).take len.toNat = (es.filterMap Entry.passing).take len.toNat := by
  by_cases hnamed : ∀ e ∈ es, e.named = true
  · rw [passings, List.takeWhile_eq_self_iff.mpr hnamed]
  · have hfull : len.toNat ≤ (passings es).length := by
      rw [StopsIn, not_and, Nat.zero_add] at goes
      have hle := goes (by simpa using hnamed)
      omega
    obtain ⟨rest, hrest⟩ := (List.takeWhile_prefix (l := es) (·.named)).filterMap Entry.passing
    rw [← hrest]
    exact (List.take_append_of_le_length hfull).symm

theorem listening_of_mem {p : Nat × Socket Address} (h : p ∈ es.filterMap Entry.passing) :
    p.2.listening = true := by
  obtain ⟨e, -, he⟩ := List.mem_filterMap.mp h
  obtain ⟨-, he⟩ := Option.ite_none_right_eq_some.mp he
  obtain ⟨d, -, rfl⟩ := Option.map_eq_some_iff.mp he
  rfl

/-- The way out without a name: the table is as before if nothing was kept. -/
theorem meets_unnamed_iff {kept : List (Nat × Socket Address)} (inv : Kept fds kept s) :
    Meets (some es) len fds { ret := -1, soc := s.soc, fds := s.fds, freed := 1 } ↔ kept = [] := by
  constructor
  · intro h
    exact Handles.eq_nil_of_besides inv.nodup inv.free (inv.table.symm.trans (h.failed rfl))
  · rintro rfl
    exact ⟨fun hpos => by simp at hpos, fun _ => inv.table, rfl⟩

/-- The way out with sockets. -/
theorem meets_of_kept (inv : Kept fds ((es.filterMap Entry.passing).take len.toNat) s)
    (pos : s.i ≠ 0) :
    Meets (some es) len fds { ret := s.i, soc := s.soc, fds := s.fds, freed := 1 } := by
  have hi := inv.i
  refine ⟨fun _ => ⟨?_, es, rfl, ?_⟩, fun hret => ?_, rfl⟩
  · rw [List.length_take] at hi
    change (s.i : Int) ≤ len
    omega
  · constructor
    · exact congrArg Nat.cast hi
    · exact inv.soc
    · exact inv.nodup
    · intro p hp
      refine ⟨?_, listening_of_mem (List.mem_of_mem_take hp)⟩
      rw [inv.table]
      exact Handles.besides_of_mem inv.nodup hp
    · intro d hd
      rw [inv.table]
      exact Handles.besides_of_notMem hd
  · change (s.i : Int) = -1 at hret
    omega

/-- `server_socket_afindepend` keeps and releases what it should exactly if the loop comes to an
entry without a name or to a socket that works, and not to both. -/
theorem meets_iff {res0 : Option (List (Entry Address))} {soc : Nat → Int} {r : Result Address}
    (call : serverSocketAfindepend alloc res0 soc len fds = some r) :
    Meets res0 len fds r ↔ Clean len res0 := by
  cases res0 with
  | none =>
      obtain rfl := Option.some.inj call
      exact iff_of_true ⟨fun h => by simp at h, fun _ => rfl, rfl⟩ trivial
  | some es =>
      obtain ⟨⟨exit, s⟩, run, hr⟩ := Option.map_eq_some_iff.mp call
      obtain ⟨inv, hexit⟩ := socketLoop_keeps Kept.preserved (Kept.start soc) run
      rw [List.nil_append, List.length_nil, Nat.sub_zero] at inv
      rw [List.length_nil] at hexit
      have hi := inv.i
      cases exit with
      | unnamed =>
          have hstops : StopsIn len 0 es := hexit.mp rfl
          have hroom := hstops.2
          rw [List.take_of_length_le (by omega)] at inv
          rw [← hr, meets_unnamed_iff inv, Clean]
          simp only [hstops, true_and, not_true_eq_false, false_and, or_false]
      | ends =>
          have hgoes : ¬ StopsIn len 0 es := fun h => Exit.noConfusion (hexit.mpr h)
          have hclean : Clean len (some es) ↔ s.i ≠ 0 := by
            rw [Clean, hi, List.length_take, ← List.length_pos_iff]
            simp only [hgoes, false_and, not_false_eq_true, true_and, false_or]
            omega
          rw [take_passings hgoes] at inv
          rw [hclean]
          rcases eq_or_ne s.i 0 with hzero | hpos
          · obtain rfl := (if_pos hzero).symm.trans hr
            exact iff_of_false (fun h => Nat.zero_ne_one h.freed) (not_not_intro hzero)
          · obtain rfl := (if_neg hpos).symm.trans hr
            exact iff_of_true (meets_of_kept inv hpos) hpos

end Call

/-! ## Two lists of addresses -/

/-- An address for which everything goes well, in socket `d`. -/
def passes (addr d : Nat) : Entry Nat where
  addr := addr
  named := true
  socket := some d
  setsockopt := true
  bind := true
  listen := true

/-- The port is in use already: `bind` fails. -/
def inUse (addr d : Nat) : Entry Nat := { passes addr d with bind := false }

/-- IPv6 takes the port of IPv4 as well, so that `bind` fails for the latter. -/
theorem meets_iff_inUse :
    ∃ r, serverSocketAfindepend (.any _) (some [passes 6 3, inUse 4 4]) (fun _ => 0) 8
        (fun _ => none) = some r ∧
      Meets (some [passes 6 3, inUse 4 4]) 8 (fun _ => none) r := by
  have hgoes : ¬ StopsIn 8 0 [passes 6 3, inUse 4 4] := by
    simp [StopsIn, passes, inUse]
  have hpasses : passings [passes 6 3, inUse 4 4] ≠ [] := by decide
  obtain ⟨r, call⟩ : ∃ r, serverSocketAfindepend (.any _) (some [passes 6 3, inUse 4 4])
      (fun _ => 0) 8 (fun _ => none) = some r := ⟨_, rfl⟩
  exact ⟨r, call, (meets_iff call).mpr (.inr ⟨hgoes, by decide, hpasses⟩)⟩

/-- If `bind` fails for the only address the list is not freed. -/
theorem not_meets_inUse :
    ∃ r, serverSocketAfindepend (.any _) (some [inUse 4 3]) (fun _ => 0) 8
        (fun _ => none) = some r ∧
      ¬ Meets (some [inUse 4 3]) 8 (fun _ => none) r :=
  ⟨_, rfl, fun h => Nat.zero_ne_one h.freed⟩

end NetworkProgram.Afindepend
