import NetworkProgram.Echo.Service
import NetworkProgram.Echo.Readiness

set_option autoImplicit false

/-!
# Echo: the three servers give the same service

When the events come one at a time, `server2`, `server3` and `server4` admit,
refuse and close the same connections and send the same bytes on each: each of
them gives the service of `Echo.Service`.
-/

namespace NetworkProgram.Echo

open NetworkProgram.Foundation
open NetworkProgram.Foundation.Slots
open NetworkProgram.Kernel

/-! ## One event in a round -/

/-- `select` reports this event alone. -/
def Select.Delivers (k : Listener) (s : State) : Single → Select.Wake → Prop
  | .connect, .ready mask result _ => mask = [k.soc] ∧ result.isSome
  | .call c o, .ready mask _ answer =>
      ∃ fd, s.host.fds fd = some (.conn c) ∧ mask = [fd] ∧ ∀ i, o.Matches (answer i)
  | _, _ => False

/-- `poll` reports this event alone. -/
def Poll.Delivers (k : Listener) (s : State) : Single → Poll.Wake → Prop
  | .connect, .ready revents result answer =>
      (revents 0).pollin = true ∧ result.isSome ∧
        ∀ fd, ¬ Poll.Wake.Reported k s (.ready revents result answer) fd
  | .call c o, .ready revents result answer =>
      (revents 0).pollin = false ∧ (∀ i, o.Matches (answer i)) ∧
        ∃ fd, s.host.fds fd = some (.conn c) ∧
          ∀ e, Poll.Wake.Reported k s (.ready revents result answer) e ↔ e = fd
  | _, _ => False

/-- `epoll_wait` reports this event alone, and a connection that is not refused gets
into the epoll set. -/
def Epoll.Delivers (k : Epoll.Startup) (s : Epoll.State) : Single → Epoll.Wake → Prop
  | .connect, .ready events result added _ =>
      events = [k.soc] ∧ (result 0).isSome ∧ added 0 = true
  | .call c o, .ready events _ _ answer =>
      ∃ fd, s.host.fds fd = some (.conn c) ∧ events = [fd] ∧ o.Matches (answer 0)
  | _, _ => False

/-- Serving these events, one a round, the server makes this log. -/
def Select.Yields (k : Listener) (events : List Single) (log : List Event) : Prop :=
  ∃ s, Delivered (Select.step k) (Select.Delivers k) (State.start k) events s ∧ s.host.log = log

def Poll.Yields (k : Listener) (events : List Single) (log : List Event) : Prop :=
  ∃ s, Delivered (Poll.step k) (Poll.Delivers k) (State.start k) events s ∧ s.host.log = log

def Epoll.Yields (k : Epoll.Startup) (events : List Single) (log : List Event) : Prop :=
  ∃ s, Delivered (Epoll.step k) (Epoll.Delivers k) (Epoll.State.start k) events s ∧
    s.host.log = log

/-! ## The servers with a table -/

section Table

variable {soc : Nat} {s t : State} {v : Service} {visits : List Move} {answer : Nat → Answer}

theorem visits_eq_nil (hall : ∀ m ∈ visits, ∃ fd j, m = .visit fd (answer j))
    (hnone : ∀ fd, fd ∉ calls visits) : visits = [] := by
  cases visits with
  | nil => rfl
  | cons m visits =>
      obtain ⟨fd, j, rfl⟩ := hall m List.mem_cons_self
      exact absurd List.mem_cons_self (hnone fd)

theorem visits_eq_singleton (hall : ∀ m ∈ visits, ∃ fd j, m = .visit fd (answer j))
    (nodup : (calls visits).Nodup) {fd : Nat} (hone : ∀ e, e ∈ calls visits ↔ e = fd) :
    ∃ j, visits = [.visit fd (answer j)] := by
  have hcalls : calls visits = [fd] := by
    have hperm := List.perm_ext_iff_of_nodup nodup (List.nodup_singleton fd)
    refine List.perm_singleton.mp (hperm.mpr fun e => ?_)
    rw [hone e, List.mem_singleton]
  cases visits with
  | nil => cases hcalls
  | cons m visits =>
      obtain ⟨e, j, rfl⟩ := hall m List.mem_cons_self
      obtain ⟨rfl, hrest⟩ := List.cons.inj hcalls
      refine ⟨j, congrArg _ (visits_eq_nil (fun m hm => hall m (List.mem_cons_of_mem _ hm)) ?_)⟩
      intro e he
      rw [show calls visits = [] from hrest] at he
      exact List.not_mem_nil he

theorem State.Ok.length_eq (ok : s.Ok soc) (rep : Represents soc s.host v) :
    s.child.reduceOption.length = v.conns.length :=
  rep.length_eq ok.nodup ok.held

/-- A round in which a connection was accepted and nothing else was ready. -/
theorem Represents.connectRound (rep : Represents soc s.host v) (ok : s.Ok soc) {h : Host}
    {result : Option Nat} (hsome : result.isSome)
    (run : exec Host.step s.host
      (result.toList.map (admission s.child.reduceOption.length) ++ visits) = some h)
    (hall : ∀ m ∈ visits, ∃ fd j, m = .visit fd (answer j)) (hnone : ∀ fd, fd ∉ calls visits) :
    Represents soc h v.connect := by
  obtain ⟨d, rfl⟩ := Option.isSome_iff_exists.mp hsome
  rw [visits_eq_nil hall hnone, List.append_nil, ok.length_eq rep] at run
  obtain ⟨u, move, hend⟩ := exec_cons_eq_some.mp run
  obtain rfl := Option.some.inj hend
  exact rep.connect move

/-- A round in which one connection was ready and nothing else. -/
theorem Represents.callRound (rep : Represents soc s.host v) {h : Host} {fd : Nat} {c : ConnId}
    {o : Outcome} (hfd : s.host.fds fd = some (.conn c)) (ha : ∀ i, o.Matches (answer i))
    (run : exec Host.step s.host visits = some h)
    (hall : ∀ m ∈ visits, ∃ fd j, m = .visit fd (answer j)) (nodup : (calls visits).Nodup)
    (hone : ∀ e, e ∈ calls visits ↔ e = fd) : Represents soc h (v.call c o) := by
  obtain ⟨j, rfl⟩ := visits_eq_singleton hall nodup hone
  obtain ⟨u, move, hend⟩ := exec_cons_eq_some.mp run
  obtain rfl := Option.some.inj hend
  obtain rfl := Option.some.inj move
  exact rep.call hfd (ha j)

/-- The listening socket is not in the table. -/
theorem State.Ok.soc_notMem (ok : s.Ok soc) : soc ∉ s.child.reduceOption := by
  intro hmem
  obtain ⟨c, hc⟩ := (ok.held soc).mp hmem
  exact ok.host.ne_soc hc rfl

theorem Represents.exists_free {h : Host} (rep : Represents soc h v) : ∃ d, LowestFree h.fds d := by
  obtain ⟨n, hn⟩ := rep.ok.finite
  exact exists_lowestFree ⟨n, hn n (Nat.le_refl n)⟩

end Table

/-! ## `server2` -/

theorem Select.step_sound {k : Listener} {s t : State} {v : Service} {e : Single}
    {w : Select.Wake} (hR : s.Ok k.soc ∧ Represents k.soc s.host v)
    (event : Select.Delivers k s e w) (move : Select.step k s w = some t) :
    ∃ v', Service.step v e = some v' ∧ t.Ok k.soc ∧ Represents k.soc t.host v' := by
  obtain ⟨ok, rep⟩ := hR
  have hpossible : w.Possible k s := by
    by_contra hnot
    rw [Select.step, Select.wakeUp_impossible ok hnot] at move
    cases move
  cases w with
  | error => cases e <;> cases event
  | timeout => cases e <;> cases event
  | ready mask result answer =>
      obtain ⟨u, visits, hserve, hok, run, nodup, hcalls, hall⟩ :=
        Select.serveReady_eq ok answer hpossible.1 hpossible.2
      rw [Select.step, Select.wakeUp_ready ok result answer hpossible.1, hserve] at move
      obtain rfl := Option.some.inj move
      cases e with
      | connect =>
          obtain ⟨rfl, hsome⟩ := event
          rw [if_pos (List.mem_singleton_self _)] at run
          refine ⟨_, rfl, hok, rep.connectRound ok hsome run hall fun fd hfd => ?_⟩
          obtain ⟨hchild, hsoc⟩ := (hcalls fd).mp hfd
          exact ok.soc_notMem (List.mem_singleton.mp hsoc ▸ hchild)
      | call c o =>
          obtain ⟨fd, hfd, rfl, ha⟩ := event
          have hne : k.soc ∉ [fd] := by
            rw [List.mem_singleton]
            exact (rep.ok.ne_soc hfd).symm
          rw [if_neg hne, List.nil_append] at run
          refine ⟨_, if_pos ((rep.opened c).mp ⟨fd, hfd⟩), hok,
            rep.callRound hfd ha run hall nodup fun e => ?_⟩
          rw [hcalls e, List.mem_singleton]
          refine ⟨And.right, ?_⟩
          rintro rfl
          exact ⟨(ok.held e).mpr ⟨c, hfd⟩, rfl⟩

theorem Select.enabled {k : Listener} {s : State} {v v' : Service} {e : Single}
    (hR : s.Ok k.soc ∧ Represents k.soc s.host v) (hspec : Service.step v e = some v') :
    ∃ w t, Select.Delivers k s e w ∧ Select.step k s w = some t := by
  obtain ⟨ok, rep⟩ := hR
  obtain ⟨w, event, hpossible⟩ : ∃ w, Select.Delivers k s e w ∧ w.Possible k s := by
    cases e with
    | connect =>
        obtain ⟨d, free⟩ := rep.exists_free
        refine ⟨.ready [k.soc] (some d) fun _ => .plain .eof true, ⟨rfl, rfl⟩,
          fun fd hfd => .inl (List.mem_singleton.mp hfd), ?_⟩
        rintro - _ ⟨⟩
        exact free
    | call c o =>
        simp only [Service.step, Option.ite_none_right_eq_some] at hspec
        obtain ⟨fd, hfd⟩ := (rep.opened c).mpr hspec.1
        refine ⟨.ready [fd] none fun _ => o.answer, ⟨fd, hfd, rfl, fun _ => o.matches_answer⟩,
          fun e he => .inr ?_, fun _ d hd => by cases hd⟩
        obtain rfl := List.mem_singleton.mp he
        exact (ok.held e).mpr ⟨c, hfd⟩
  obtain ⟨t, heq, -⟩ := Select.wakeUp_round ok hpossible
  exact ⟨w, t, event, by rw [Select.step, heq]; rfl⟩

/-! ## `server3` -/

theorem Poll.step_sound {k : Listener} {s t : State} {v : Service} {e : Single}
    {w : Poll.Wake} (hR : s.Ok k.soc ∧ Represents k.soc s.host v)
    (event : Poll.Delivers k s e w) (move : Poll.step k s w = some t) :
    ∃ v', Service.step v e = some v' ∧ t.Ok k.soc ∧ Represents k.soc t.host v' := by
  obtain ⟨ok, rep⟩ := hR
  have hpossible : w.Possible s := by
    by_contra hnot
    rw [Poll.step, Poll.wakeUp_impossible ok hnot] at move
    cases move
  cases w with
  | error => cases e <;> cases event
  | timeout => cases e <;> cases event
  | ready revents result answer =>
      obtain ⟨u, visits, hserve, hok, run, nodup, hcalls, hall⟩ :=
        Poll.serveReady_eq ok revents answer hpossible
      rw [Poll.step, Poll.wakeUp_ready ok revents result answer, hserve] at move
      obtain rfl := Option.some.inj move
      cases e with
      | connect =>
          obtain ⟨hpollin, hsome, hnone⟩ := event
          rw [if_pos hpollin] at run
          exact ⟨_, rfl, hok, rep.connectRound ok hsome run hall fun fd hfd =>
            hnone fd ((hcalls fd).mp hfd)⟩
      | call c o =>
          obtain ⟨hpollin, ha, fd, hfd, hone⟩ := event
          rw [hpollin, if_neg Bool.false_ne_true, List.nil_append] at run
          exact ⟨_, if_pos ((rep.opened c).mp ⟨fd, hfd⟩), hok,
            rep.callRound hfd ha run hall nodup fun e => (hcalls e).trans (hone e)⟩

theorem Poll.enabled {k : Listener} {s : State} {v v' : Service} {e : Single}
    (hR : s.Ok k.soc ∧ Represents k.soc s.host v) (hspec : Service.step v e = some v') :
    ∃ w t, Poll.Delivers k s e w ∧ Poll.step k s w = some t := by
  obtain ⟨ok, rep⟩ := hR
  obtain ⟨w, event, hpossible⟩ : ∃ w, Poll.Delivers k s e w ∧ w.Possible s := by
    cases e with
    | connect =>
        obtain ⟨d, free⟩ := rep.exists_free
        refine ⟨.ready (fun i => { pollin := i == 0, pollerr := false }) (some d)
          fun _ => .plain .eof true, ⟨rfl, rfl, ?_⟩, ?_⟩
        · rintro fd ⟨i, hi, -, hread⟩
          have hzero : i = 0 := by simpa [Poll.Revents.Readable] using hread
          omega
        · rintro - _ ⟨⟩
          exact free
    | call c o =>
        simp only [Service.step, Option.ite_none_right_eq_some] at hspec
        obtain ⟨fd, hfd⟩ := (rep.opened c).mpr hspec.1
        obtain ⟨i, hi⟩ := List.mem_iff_getElem?.mp ((ok.held fd).mpr ⟨c, hfd⟩)
        refine ⟨.ready
          (fun j => { pollin := decide ((Poll.asked k s)[j]? = some fd), pollerr := false })
          none fun _ => o.answer, ⟨?_, fun _ => o.matches_answer, fd, hfd, fun e => ?_⟩,
          fun _ d hd => by cases hd⟩
        · have hne := rep.ok.ne_soc hfd
          simpa [Poll.asked] using hne.symm
        · constructor
          · rintro ⟨j, -, hj, hread⟩
            have hsame : (Poll.asked k s)[j]? = some fd := by
              simpa [Poll.Revents.Readable] using hread
            exact Option.some.inj (hj.symm.trans hsame)
          · rintro rfl
            exact ⟨i + 1, Nat.succ_pos i, hi, .inl (decide_eq_true hi)⟩
  obtain ⟨t, heq, -⟩ := Poll.wakeUp_round ok hpossible
  exact ⟨w, t, event, by rw [Poll.step, heq]; rfl⟩

/-! ## `server4` -/

/-- The server stands at the top of its loop. -/
structure Epoll.Running (k : Epoll.Startup) (s : Epoll.State) (v : Service) : Prop where
  ok : s.Ok k
  running : s.returned = false
  rep : Represents k.soc s.host v

/-- A round with one event. -/
theorem Epoll.wakeUp_single {k : Epoll.Startup} {s : Epoll.State} {v : Service}
    (hR : Epoll.Running k s v) {fd : Nat} (hfd : fd = k.soc ∨ fd ∈ s.interest)
    (result : Nat → Option Nat) (added : Nat → Bool) (answer : Nat → Answer) :
    Epoll.wakeUp k s (.ready [fd] result added answer) =
      if fd = k.soc then Epoll.acceptReady k s (result 0) (added 0)
      else .ok (Epoll.serve k s fd (answer 0)) := by
  have hevents : [fd].Nodup ∧ [fd].length ≤ maxChild + 1 ∧
      ∀ e ∈ [fd], e = k.soc ∨ e ∈ s.interest := by
    refine ⟨List.nodup_singleton fd, Nat.le_add_left 1 maxChild, fun e he => ?_⟩
    rwa [List.mem_singleton.mp he]
  have hlast : ∀ r : Except Stop Epoll.State,
      (r.bind fun u => if u.returned then .ok u
        else Epoll.serveAll k result added answer 1 [] u) = r := by
    intro r
    cases r with
    | error stop => rfl
    | ok u => exact ite_self _
  unfold Epoll.wakeUp
  rw [hR.running, if_neg Bool.false_ne_true]
  dsimp only
  rw [if_pos hevents]
  exact (if_pos (by decide : 1 ≤ maxChild)).trans (hlast _)

theorem Epoll.step_sound {k : Epoll.Startup} {s t : Epoll.State} {v : Service} {e : Single}
    {w : Epoll.Wake} (hR : Epoll.Running k s v) (event : Epoll.Delivers k s e w)
    (move : Epoll.step k s w = some t) :
    ∃ v', Service.step v e = some v' ∧ Epoll.Running k t v' := by
  obtain ⟨ok, hrun, rep⟩ := hR
  cases w with
  | error => cases e <;> cases event
  | timeout => cases e <;> cases event
  | ready events result added answer =>
      cases e with
      | connect =>
          obtain ⟨rfl, hsome, hadded⟩ := event
          obtain ⟨d, hd⟩ := Option.isSome_iff_exists.mp hsome
          rw [Epoll.step, Epoll.wakeUp_single ⟨ok, hrun, rep⟩ (.inl rfl), if_pos rfl, hd,
            Epoll.acceptReady] at move
          split at move
          · rename_i free
            obtain ⟨moves, hsafe, run, -, -, hkeep⟩ := Epoll.register_eq ok hrun free (added 0) rfl
            obtain rfl := Option.some.inj move
            obtain ⟨hret, rfl⟩ := hkeep hadded
            rw [rep.length_eq ok.nodup ok.held] at run
            obtain ⟨u, first, hend⟩ := exec_cons_eq_some.mp run
            obtain rfl := Option.some.inj hend
            exact ⟨_, rfl, hsafe.running hret, hret, rep.connect first⟩
          · cases move
      | call c o =>
          obtain ⟨fd, hfd, rfl, ha⟩ := event
          have hmem := (ok.held fd).mpr ⟨c, hfd⟩
          rw [Epoll.step, Epoll.wakeUp_single ⟨ok, hrun, rep⟩ (.inr hmem),
            if_neg (rep.ok.ne_soc hfd)] at move
          obtain rfl := Option.some.inj move
          obtain ⟨hok, hhost, hret, -⟩ := Epoll.serve_eq ok hmem (answer 0)
          refine ⟨_, if_pos ((rep.opened c).mp ⟨fd, hfd⟩), hok, hret.trans hrun, ?_⟩
          rw [hhost]
          exact rep.call hfd ha

theorem Epoll.enabled {k : Epoll.Startup} {s : Epoll.State} {v v' : Service} {e : Single}
    (hR : Epoll.Running k s v) (hspec : Service.step v e = some v') :
    ∃ w t, Epoll.Delivers k s e w ∧ Epoll.step k s w = some t := by
  obtain ⟨ok, hrun, rep⟩ := hR
  cases e with
  | connect =>
      obtain ⟨d, free⟩ := rep.exists_free
      have hwake := Epoll.wakeUp_single ⟨ok, hrun, rep⟩ (.inl rfl) (fun _ => some d)
        (fun _ => true) fun _ => .plain .eof true
      rw [if_pos rfl, Epoll.acceptReady, if_pos free] at hwake
      refine ⟨_, _, ?_, congrArg Except.toOption hwake⟩
      exact ⟨rfl, rfl, rfl⟩
  | call c o =>
      simp only [Service.step, Option.ite_none_right_eq_some] at hspec
      obtain ⟨fd, hfd⟩ := (rep.opened c).mpr hspec.1
      have hwake := Epoll.wakeUp_single ⟨ok, hrun, rep⟩ (.inr ((ok.held fd).mpr ⟨c, hfd⟩))
        (fun _ => none) (fun _ => true) fun _ => o.answer
      rw [if_neg (rep.ok.ne_soc hfd)] at hwake
      refine ⟨_, _, ?_, congrArg Except.toOption hwake⟩
      exact ⟨fd, hfd, rfl, o.matches_answer⟩

/-! ## The service -/

/-- A server whose rounds do what the service does yields the log of the service. -/
theorem yields_iff {σ ω : Type} (step : σ → ω → Option σ) (delivers : σ → Single → ω → Prop)
    (log : σ → List Event) (R : σ → Service → Prop) {s : σ} (start : R s .start)
    (hlog : ∀ t v, R t v → log t = v.log)
    (sound : ∀ t v e w u, R t v → delivers t e w → step t w = some u →
      ∃ v', Service.step v e = some v' ∧ R u v')
    (enabled : ∀ t v e v', R t v → Service.step v e = some v' →
      ∃ w u, delivers t e w ∧ step t w = some u)
    (events : List Single) (l : List Event) :
    (∃ t, Delivered step delivers s events t ∧ log t = l) ↔ Service.expected events = some l := by
  rw [Service.expected, Option.map_eq_some_iff]
  constructor
  · rintro ⟨t, run, rfl⟩
    obtain ⟨v, hspec, hend⟩ := run.sound sound start
    exact ⟨v, hspec, (hlog t v hend).symm⟩
  · rintro ⟨v, hspec, rfl⟩
    obtain ⟨t, run, hend⟩ := Delivered.complete sound enabled start hspec
    exact ⟨t, run, hlog t v hend⟩

theorem Select.yields_iff (k : Listener) (events : List Single) (log : List Event) :
    Select.Yields k events log ↔ Service.expected events = some log :=
  Echo.yields_iff (Select.step k) (Select.Delivers k) (fun s => s.host.log)
    (fun s v => s.Ok k.soc ∧ Represents k.soc s.host v)
    ⟨State.ok_start k, represents_start k⟩ (fun _ _ hR => hR.2.log)
    (fun _ _ _ _ _ hR event move => Select.step_sound hR event move)
    (fun _ _ _ _ hR hspec => Select.enabled hR hspec) events log

theorem Poll.yields_iff (k : Listener) (events : List Single) (log : List Event) :
    Poll.Yields k events log ↔ Service.expected events = some log :=
  Echo.yields_iff (Poll.step k) (Poll.Delivers k) (fun s => s.host.log)
    (fun s v => s.Ok k.soc ∧ Represents k.soc s.host v)
    ⟨State.ok_start k, represents_start k⟩ (fun _ _ hR => hR.2.log)
    (fun _ _ _ _ _ hR event move => Poll.step_sound hR event move)
    (fun _ _ _ _ hR hspec => Poll.enabled hR hspec) events log

theorem Epoll.yields_iff (k : Epoll.Startup) (events : List Single) (log : List Event) :
    Epoll.Yields k events log ↔ Service.expected events = some log :=
  Echo.yields_iff (Epoll.step k) (Epoll.Delivers k) (fun s => s.host.log) (Epoll.Running k)
    ⟨Epoll.State.ok_start k, rfl, represents_start k.toListener⟩ (fun _ _ hR => hR.rep.log)
    (fun _ _ _ _ _ hR event move => Epoll.step_sound hR event move)
    (fun _ _ _ _ hR hspec => Epoll.enabled hR hspec) events log

/-- The servers are interchangeable: over the same events each makes the same log,
the one of the service, and none makes another. -/
theorem servers_agree (k2 k3 : Listener) (k4 : Epoll.Startup) (events : List Single)
    (log : List Event) :
    (Select.Yields k2 events log ↔ Poll.Yields k3 events log) ∧
    (Poll.Yields k3 events log ↔ Epoll.Yields k4 events log) ∧
    (Epoll.Yields k4 events log ↔ Service.expected events = some log) := by
  rw [Select.yields_iff, Poll.yields_iff, Epoll.yields_iff]
  exact ⟨Iff.rfl, Iff.rfl, Iff.rfl⟩

end NetworkProgram.Echo
