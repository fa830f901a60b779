import NetworkProgram.Afindepend.Sockets

set_option autoImplicit false

/-!
# Afindepend: the waits of `accept_loop`

Where `socket` returns the lowest number that is free, the numbers in the array ascend, so that
the last one gives the width for all.  An `accept` is right if the `select` before it has reported
the socket; as long as `select` does not fail, every one is.
-/

namespace NetworkProgram.Afindepend

open NetworkProgram.Foundation

/-! ## The numbers in the array -/

section Ascending

variable {Address : Type} {fds : Handles (Socket Address)} {kept : List (Nat × Socket Address)}
  {s : State Address}

/-- The numbers kept ascend, and none below them is free. -/
structure Ascending (fds : Handles (Socket Address)) (kept : List (Nat × Socket Address))
    (s : State Address) : Prop extends Kept fds kept s where
  ascends : (kept.map Prod.fst).Pairwise (· < ·)
  full : ∀ d ∈ kept.map Prod.fst, s.fds.FullTo d

theorem Ascending.preserved : Preserved (.lowest _) (Ascending fds) where
  count := fun inv => inv.i
  write := fun inv x => ⟨inv.toKept.write x, inv.ascends, inv.full⟩
  concat := by
    intro kept s inv d gives x
    refine ⟨inv.toKept.concat x gives.1, ?_, ?_⟩
    · rw [List.map_append]
      refine List.pairwise_append.mpr ⟨inv.ascends, List.pairwise_singleton .., fun c hc e he => ?_⟩
      obtain rfl : e = d := List.mem_singleton.mp he
      exact (inv.full c hc).lt gives.1
    · rw [List.map_append]
      intro c hc
      rcases List.mem_append.mp hc with hc | hc
      · exact (inv.full c hc).hold d x
      · exact List.mem_singleton.mp hc ▸ Handles.fullTo_hold gives x

theorem Ascending.start (soc : Nat → Int) :
    Ascending fds [] { i := 0, soc := soc, fds := fds } where
  toKept := Kept.start soc
  ascends := .nil
  full := fun _ h => absurd h List.not_mem_nil

theorem Ascending.lt (inv : Ascending fds kept s) {i j : Nat} (hij : i < j)
    (hj : j < kept.length) : s.soc i < s.soc j := by
  rw [inv.soc i (hij.trans hj), inv.soc j hj]
  have hlt := List.pairwise_iff_getElem.mp inv.ascends i j
    (by simpa using hij.trans hj) (by simpa using hj) hij
  simpa using hlt

/-- The first `n` numbers of the array ascend. -/
def Ascends (soc : Nat → Int) (n : Nat) : Prop := ∀ i j, i < j → j < n → soc i < soc j

/-- The array that `server_socket_afindepend` leaves. -/
theorem ascends_of_call {res0 : Option (List (Entry Address))} {soc : Nat → Int} {len : Int}
    {r : Result Address} {n : Nat}
    (call : serverSocketAfindepend (.lowest _) res0 soc len fds = some r) (ret : r.ret = n) :
    0 < n ∧ Ascends r.soc n := by
  cases res0 with
  | none =>
      obtain rfl := Option.some.inj call
      cases ret
  | some es =>
      obtain ⟨⟨exit, s⟩, run, hr⟩ := Option.map_eq_some_iff.mp call
      obtain ⟨inv, -⟩ := socketLoop_keeps Ascending.preserved (Ascending.start soc) run
      cases exit with
      | unnamed =>
          obtain rfl := hr
          cases ret
      | ends =>
          rcases eq_or_ne s.i 0 with hzero | hpos
          · obtain rfl := (if_pos hzero).symm.trans hr
            cases ret
          · obtain rfl := (if_neg hpos).symm.trans hr
            obtain rfl : s.i = n := Int.ofNat.inj ret
            exact ⟨Nat.pos_of_ne_zero hpos, fun i j hij hj => inv.lt hij (inv.i ▸ hj)⟩

end Ascending

/-! ## The calls -/

/-- The answer to the last `select`. -/
def lastAnswer : List Call → Option Answer
  | [] => none
  | .select _ answer :: _ => some answer
  | .accept _ :: calls => lastAnswer calls

/-- Each `accept` is called on a socket that the `select` before it has reported. -/
def Reported : List Call → Prop
  | [] => True
  | .select _ _ :: calls => Reported calls
  | .accept d :: calls => (∃ fds, lastAnswer calls = some (.ready fds) ∧ d ∈ fds) ∧ Reported calls

/-- The server waits for all of its sockets in `select`, and never in `accept`. -/
structure Waits (soc : Nat → Int) (socLen : Nat) (s : Server) : Prop where
  width : ∀ w a, Call.select w a ∈ s.calls → ∀ j, j < socLen → soc j < w
  reported : Reported s.calls
  ready : ∀ mask i, s.pc = .accept mask i → 0 < s.pending (soc i)

section Loop

variable {soc : Nat → Int} {socLen : Nat} {s t : Server} {mask : Mask} {i : Nat}

/-- From `i` on, what is in the mask was reported, and can be accepted. -/
def Reads (soc : Nat → Int) (socLen : Nat) (s : Server) (mask : Mask) (i : Nat) : Prop :=
  ∃ fds, lastAnswer s.calls = some (.ready fds) ∧
    ∀ j, i ≤ j → j < socLen → mask (soc j) = true → soc j ∈ fds ∧ 0 < s.pending (soc j)

/-- What holds as long as no call of `select` has failed. -/
structure Inv (soc : Nat → Int) (socLen : Nat) (s : Server) : Prop extends Waits soc socLen s where
  accepting : ∀ mask i, s.pc = .accept mask i → i < socLen ∧ Reads soc socLen s mask (i + 1)
  serving : ∀ mask i acc, s.pc = .serve mask i acc → Reads soc socLen s mask (i + 1)

theorem next_of_some {j : Nat}
    (h : ((List.range' i (socLen - i)).find? fun j => mask (soc j)) = some j) :
    s.next soc socLen mask i =
      { s with pc := .accept mask j, calls := .accept (soc j) :: s.calls } := by
  rw [Server.next, h]

theorem next_of_none (h : ((List.range' i (socLen - i)).find? fun j => mask (soc j)) = none) :
    s.next soc socLen mask i = { s with pc := .select } := by
  rw [Server.next, h]

/-- The loop goes on to a socket that was reported. -/
theorem Inv.next (hwidth : ∀ w a, Call.select w a ∈ s.calls → ∀ j, j < socLen → soc j < w)
    (hreported : Reported s.calls) (reads : Reads soc socLen s mask i) :
    Inv soc socLen (s.next soc socLen mask i) := by
  cases h : (List.range' i (socLen - i)).find? fun j => mask (soc j) with
  | none =>
      rw [next_of_none h]
      exact ⟨⟨hwidth, hreported, by simp⟩, by simp, by simp⟩
  | some j =>
      obtain ⟨fds, hlast, hfds⟩ := reads
      have hmem := List.mem_of_find?_eq_some h
      have hmask := List.find?_some h
      rw [List.mem_range'_1] at hmem
      obtain ⟨hin, hpending⟩ := hfds j hmem.1 (by omega) hmask
      rw [next_of_some h]
      refine ⟨⟨?_, ⟨⟨fds, hlast, hin⟩, hreported⟩, ?_⟩, ?_, by simp⟩
      · intro w a hcall
        exact hwidth w a (by simpa using hcall)
      · rintro _ _ ⟨⟩
        exact hpending
      · rintro _ _ ⟨⟩
        exact ⟨by omega, fds, hlast, fun k hk => hfds k (by omega)⟩

/-! ## One step -/

theorem Ascends.ne (ascends : Ascends soc socLen) {j : Nat} (hij : i < j) (hj : j < socLen) :
    soc j ≠ soc i :=
  (Int.ne_of_lt (ascends i j hij hj)).symm

/-- The last number gives the width for all. -/
theorem Ascends.lt_width (ascends : Ascends soc socLen) {j : Nat} (hj : j < socLen) :
    soc j < width soc socLen := by
  rw [width]
  rcases eq_or_lt_of_le (Nat.le_sub_one_of_lt hj) with rfl | hlt
  · exact Int.lt_succ _
  · exact Int.lt_trans (ascends j _ hlt (by omega)) (Int.lt_succ _)

/-- A client more. -/
theorem Inv.arrive (inv : Inv soc socLen s) (d : Int) :
    Inv soc socLen { s with pending := Function.update s.pending d (s.pending d + 1) } := by
  have hmore : ∀ e, 0 < s.pending e → 0 < Function.update s.pending d (s.pending d + 1) e := by
    intro e he
    rcases eq_or_ne e d with rfl | hne
    · rw [Function.update_self]
      exact Nat.succ_pos _
    · rwa [Function.update_of_ne hne]
  have hreads {mask : Mask} {i : Nat} (h : Reads soc socLen s mask i) : Reads soc socLen
      { s with pending := Function.update s.pending d (s.pending d + 1) } mask i := by
    obtain ⟨fds, hlast, hfds⟩ := h
    refine ⟨fds, hlast, fun j hj hlt hmask => ?_⟩
    obtain ⟨hin, hpending⟩ := hfds j hj hlt hmask
    exact ⟨hin, hmore _ hpending⟩
  exact ⟨⟨inv.width, inv.reported, fun mask i hpc => hmore _ (inv.ready mask i hpc)⟩,
    fun mask i hpc => ⟨(inv.accepting mask i hpc).1, hreads (inv.accepting mask i hpc).2⟩,
    fun mask i acc hpc => hreads (inv.serving mask i acc hpc)⟩

/-- What is taken from the queue of one socket is not missing at those behind it. -/
theorem Reads.dequeue (ascends : Ascends soc socLen) (reads : Reads soc socLen s mask (i + 1)) :
    Reads soc socLen (s.dequeue (soc i)) mask (i + 1) := by
  obtain ⟨fds, hlast, hfds⟩ := reads
  refine ⟨fds, hlast, fun j hj hlt hmask => ?_⟩
  have hpending : (s.dequeue (soc i)).pending (soc j) = s.pending (soc j) :=
    Function.update_of_ne (ascends.ne hj hlt) ..
  exact hpending ▸ hfds j hj hlt hmask

theorem leaves_ready {fds : List Int} {d : Int} (h : d < Afindepend.width soc socLen) :
    (Answer.ready fds).leaves soc socLen d = true ↔ d ∈ fds := by
  simp only [Answer.leaves, if_pos h, decide_eq_true_iff]

/-- `select` returns, and not with an error. -/
theorem Inv.selected (ascends : Ascends soc socLen) (inv : Inv soc socLen s) (hpc : s.pc = .select)
    {answer : Answer} (possible : answer.Possible soc socLen s.pending) (ok : answer ≠ .error) :
    Inv soc socLen (s.selected soc socLen answer) := by
  have hwidth : ∀ w a,
      Call.select w a ∈ Call.select (Afindepend.width soc socLen) answer :: s.calls →
      ∀ j, j < socLen → soc j < w := by
    intro w a hcall j hj
    rcases List.mem_cons.mp hcall with heq | hcall
    · injection heq with hw _
      exact hw ▸ ascends.lt_width hj
    · exact inv.width w a hcall j hj
  cases answer with
  | error => exact absurd rfl ok
  | timeout => exact ⟨⟨hwidth, inv.reported, by simp [Server.selected, hpc]⟩,
      by simp [Server.selected, hpc], by simp [Server.selected, hpc]⟩
  | ready fds =>
      refine Inv.next hwidth inv.reported ⟨fds, rfl, fun j _ hj hmask => ?_⟩
      rw [leaves_ready (ascends.lt_width hj)] at hmask
      exact ⟨hmask, (possible.2 _ hmask).2.2⟩

/-- After an error the first socket is accepted from, which was not reported. -/
theorem not_reported_error (pos : 0 < socLen) (s : Server) :
    ¬ Reported (s.selected soc socLen .error).calls := by
  have hfirst : ((List.range' 0 (socLen - 0)).find? fun j => fdSet soc socLen (soc j)) ≠ none := by
    intro hnone
    have hoff := List.find?_eq_none.mp hnone 0 (List.mem_range'_1.mpr (by omega))
    exact hoff (decide_eq_true (List.mem_map_of_mem (List.mem_range.mpr pos)))
  obtain ⟨j, hj⟩ := Option.ne_none_iff_exists'.mp hfirst
  rw [show s.selected soc socLen .error = Server.next soc socLen _ (fdSet soc socLen) 0 from rfl,
    next_of_some hj]
  rintro ⟨⟨fds, hlast, -⟩, -⟩
  cases hlast

/-- `select` returns only to a server that waits in it. -/
theorem selected_of_step {answer : Answer} (move : step soc socLen s (.select answer) = some t) :
    s.pc = .select ∧ answer.Possible soc socLen s.pending ∧ s.selected soc socLen answer = t := by
  cases hpc : s.pc with
  | select =>
      simp only [Afindepend.step, hpc] at move
      obtain ⟨possible, move⟩ := Option.ite_none_right_eq_some.mp move
      exact ⟨rfl, possible, Option.some.inj move⟩
  | accept mask i => simp [Afindepend.step, hpc] at move
  | serve mask i acc => simp [Afindepend.step, hpc] at move

/-- What a step leads to waits as it should if `select` has not failed in it. -/
theorem Inv.step (ascends : Ascends soc socLen) (inv : Inv soc socLen s) {a : Action}
    (move : step soc socLen s a = some t) (ok : a ≠ .select .error) : Inv soc socLen t := by
  cases a with
  | arrive d =>
      obtain rfl := Option.some.inj move
      exact inv.arrive d
  | select answer =>
      obtain ⟨hpc, possible, rfl⟩ := selected_of_step move
      exact inv.selected ascends hpc possible fun heq => ok (congrArg Action.select heq)
  | accept result =>
      cases hpc : s.pc with
      | select => simp [Afindepend.step, hpc] at move
      | serve mask i acc => simp [Afindepend.step, hpc] at move
      | accept mask i =>
          have hreads := (inv.accepting mask i hpc).2
          cases result with
          | conn acc =>
              simp only [Afindepend.step, hpc] at move
              obtain ⟨-, move⟩ := Option.ite_none_right_eq_some.mp move
              obtain rfl := Option.some.inj move
              refine ⟨⟨inv.width, inv.reported, by simp⟩, by simp, ?_⟩
              rintro _ _ _ ⟨⟩
              exact hreads.dequeue ascends
          | interrupted =>
              simp only [Afindepend.step, hpc] at move
              obtain rfl := Option.some.inj move
              exact Inv.next inv.width inv.reported hreads
          | aborted =>
              simp only [Afindepend.step, hpc] at move
              obtain ⟨-, move⟩ := Option.ite_none_right_eq_some.mp move
              obtain rfl := Option.some.inj move
              exact Inv.next inv.width inv.reported (hreads.dequeue ascends)
  | close =>
      cases hpc : s.pc with
      | select => simp [Afindepend.step, hpc] at move
      | accept mask i => simp [Afindepend.step, hpc] at move
      | serve mask i acc =>
          simp only [Afindepend.step, hpc] at move
          obtain rfl := Option.some.inj move
          exact Inv.next inv.width inv.reported (inv.serving mask i acc hpc)

/-- After a step that leads to a state as it should be, `select` has not failed. -/
theorem ok_of_step (pos : 0 < socLen) {a : Action} (move : step soc socLen s a = some t)
    (waits : Waits soc socLen t) : a ≠ .select .error := by
  rintro rfl
  obtain ⟨-, -, rfl⟩ := selected_of_step move
  exact not_reported_error pos s waits.reported

theorem Inv.start (pending : Int → Nat) : Inv soc socLen (.start pending) where
  width := fun _ _ h => absurd h List.not_mem_nil
  reported := trivial
  ready := fun _ _ h => Pc.noConfusion h
  accepting := fun _ _ h => Pc.noConfusion h
  serving := fun _ _ _ h => Pc.noConfusion h

end Loop

/-! ## Whole runs -/

/-- With the sockets of `server_socket_afindepend`, `accept_loop` waits as it should all along a
run exactly if no `select` fails in it. -/
theorem waits_iff {Address : Type} {res0 : Option (List (Entry Address))} {array : Nat → Int}
    {len : Int} {fds : Handles (Socket Address)} {r : Result Address} {socLen : Nat}
    (call : serverSocketAfindepend (.lowest _) res0 array len fds = some r)
    (ret : r.ret = socLen) {pending : Int → Nat} {acts : List Action} {u : Server}
    (run : exec (step r.soc socLen) (.start pending) acts = some u) :
    (∀ n t, exec (step r.soc socLen) (.start pending) (acts.take n) = some t →
      Waits r.soc socLen t) ↔ ∀ a ∈ acts, a ≠ .select .error := by
  obtain ⟨pos, ascends⟩ := ascends_of_call call ret
  exact exec_forall_iff (fun _ inv => inv.toWaits)
    (fun s a t inv move ok => inv.step ascends move ok)
    (fun s a t _ move waits => ok_of_step pos move waits) (Inv.start pending) run

/-! ## Two sockets -/

/-- The descriptors that a program is started with. -/
def stdio : Handles (Socket Nat) := fun d => if d < 3 then some .fresh else none

/-- A client of the first address is served. -/
theorem waits_iff_served :
    ∃ r u, serverSocketAfindepend (.lowest _) (some [passes 6 3, passes 4 4]) (fun _ => 0) 8
        stdio = some r ∧
      exec (step r.soc 2) (.start fun _ => 0)
        [.arrive 3, .select (.ready [3]), .accept (.conn 5), .close] = some u ∧
      Waits r.soc 2 u := by
  obtain ⟨r, call, ret, u, run⟩ : ∃ r, serverSocketAfindepend (.lowest _)
      (some [passes 6 3, passes 4 4]) (fun _ => 0) 8 stdio = some r ∧ r.ret = (2 : Nat) ∧
      ∃ u, exec (step r.soc 2) (.start fun _ => 0)
        [.arrive 3, .select (.ready [3]), .accept (.conn 5), .close] = some u :=
    ⟨_, rfl, rfl, _, rfl⟩
  exact ⟨r, u, call, run, (waits_iff call ret run).mpr (by decide) 4 u run⟩

/-- A signal ends `select`: then the server sits in `accept` with no client there. -/
theorem not_waits_error :
    ∃ r t, serverSocketAfindepend (.lowest _) (some [passes 6 3, passes 4 4]) (fun _ => 0) 8
        stdio = some r ∧ r.ret = 2 ∧
      exec (step r.soc 2) (.start fun _ => 0) [.select .error] = some t ∧ ¬ Waits r.soc 2 t :=
  ⟨_, _, rfl, rfl, rfl, fun waits => Nat.lt_irrefl 0 (waits.ready _ 0 rfl)⟩

end NetworkProgram.Afindepend
