import NetworkProgram.Kernel.EpollSet
import NetworkProgram.Echo.Children

set_option autoImplicit false

/-!
# Echo: `accept_loop` of `chapter05/server4.c`

The server that waits with `epoll`.  It has no table: the kernel keeps the set of
its connections, and the loop a count of them.
-/

namespace NetworkProgram.Echo.Epoll

open NetworkProgram.Foundation
open NetworkProgram.Kernel

/-- The descriptors when the loop starts: `epoll_create` has returned. -/
structure Startup extends Listener where
  epollfd : Nat
  epollfd_epoll : table epollfd = some .epoll

theorem finite_plain : ∃ n, ∀ d, n ≤ d → Kernel.Startup.plain.table d = none := by
  refine ⟨5, fun d hd => ?_⟩
  unfold Kernel.Startup.plain
  dsimp only
  rw [if_neg (by omega), if_neg (by omega), if_neg (by omega)]

/-- A server started from a shell: 0 to 2 are the standard streams. -/
def Startup.plain : Startup where
  table := Kernel.Startup.plain.table
  soc := 3
  epollfd := 4
  soc_listening := rfl
  epollfd_epoll := rfl
  noConn := Kernel.Startup.plain.noConn
  finite := finite_plain

/-- How `epoll_wait` returns.  The rest of the round is answered in advance, for
event `i`: what `accept` returns, whether `EPOLL_CTL_ADD` succeeds, and how the call
of `send_recv` goes. -/
inductive Wake
  | error
  | timeout
  | ready (events : List Nat) (result : Nat → Option Nat) (added : Nat → Bool)
      (answer : Nat → Answer)

/-- The descriptors `epoll_wait` reports. -/
def Wake.reported : Wake → List Nat
  | .error => []
  | .timeout => []
  | .ready events _ _ _ => events

/-- An error or a timeout. -/
def Wake.Failed : Wake → Prop
  | .error => True
  | .timeout => True
  | .ready _ _ _ _ => False

/-- `accept_loop` at the top of its loop, or after its return. -/
structure State where
  host : Host
  /-- The local variable `acc`, if it holds a descriptor. -/
  acc : Option Nat
  count : Int
  /-- The connections' descriptors in the epoll set. -/
  interest : List Nat
  returned : Bool

def State.start (k : Startup) : State where
  host := .start k.toListener
  acc := none
  count := 0
  interest := []
  returned := false

/-- The new connection is refused, or put into the epoll set. -/
def register (k : Startup) (s : State) (acc : Nat) (added : Bool) : State :=
  if s.count + 1 ≥ maxChild then
    { s with host := s.host.close acc }
  else if added then
    { s with interest := acc :: s.interest, count := s.count + 1 }
  else
    { s with host := (s.host.close acc).close k.epollfd, returned := true }

/-- The listening socket is ready; `accept` returns a descriptor, or none for an error. -/
def acceptReady (k : Startup) (s : State) (result : Option Nat) (added : Bool) :
    Except Stop State :=
  match result with
  | none => .ok { s with acc := none }
  | some acc =>
      if LowestFree s.host.fds acc then
        .ok (register k { s with host := s.host.accept acc, acc := some acc } acc added)
      else .error .impossible

/-- `close(acc)` -/
def closeAcc (h : Host) : Option Nat → Host
  | none => h
  | some acc => h.close acc

/-- `send_recv(fd, fd)`, and what follows if it returns -1.  `EPOLL_CTL_DEL` fails
exactly when the descriptor is not in the set. -/
def serve (k : Startup) (s : State) (fd : Nat) (a : Answer) : State :=
  let host := s.host.call fd a
  if (sendRecv a).ret = -1 then
    if fd ∈ s.interest then
      { s with host := host.close fd, interest := s.interest.erase fd, count := s.count - 1 }
    else
      { s with host := (closeAcc host s.acc).close k.epollfd, returned := true }
  else { s with host := host }

/-- The loop over the events, from number `i` on. -/
def serveAll (k : Startup) (result : Nat → Option Nat) (added : Nat → Bool)
    (answer : Nat → Answer) : Nat → List Nat → State → Except Stop State
  | _, [], s => .ok s
  | i, fd :: events, s =>
      (if fd = k.soc then acceptReady k s (result i) (added i)
        else .ok (serve k s fd (answer i))).bind fun s =>
        if s.returned then .ok s else serveAll k result added answer (i + 1) events s

/-- One round of the loop.  `epoll_wait` reports descriptors of its set, each once
and at most `MAX_CHILD + 1` of them; the array `events` has `MAX_CHILD` entries. -/
def wakeUp (k : Startup) (s : State) (w : Wake) : Except Stop State :=
  if s.returned then .error .impossible
  else
    match w with
    | .error => .ok s
    | .timeout => .ok s
    | .ready events result added answer =>
        if events.Nodup ∧ events.length ≤ maxChild + 1 ∧
            ∀ fd ∈ events, fd = k.soc ∨ fd ∈ s.interest then
          if events.length ≤ maxChild then serveAll k result added answer 0 events s
          else .error .outOfRange
        else .error .impossible

def step (k : Startup) (s : State) (w : Wake) : Option State := (wakeUp k s w).toOption

/-! ## What a round does -/

/-- The epoll set holds the open connections, and `count` is how many they are. -/
structure State.Ok (k : Startup) (s : State) : Prop where
  host : s.host.Ok k.soc
  epollfd : s.host.fds k.epollfd = some .epoll
  nodup : s.interest.Nodup
  held : ∀ fd, fd ∈ s.interest ↔ ∃ c, s.host.fds fd = some (.conn c)
  count : s.count = s.interest.length
  room : s.interest.length ≤ maxChild - 1

/-- What holds also after the return. -/
structure State.Safe (k : Startup) (s : State) : Prop where
  host : s.host.Ok k.soc
  held : ∀ fd c, s.host.fds fd = some (.conn c) → fd ∈ s.interest
  room : s.interest.length ≤ maxChild - 1
  running : s.returned = false → s.Ok k

theorem State.Ok.safe {k : Startup} {s : State} (ok : s.Ok k) : s.Safe k where
  host := ok.host
  held := fun fd c h => (ok.held fd).mpr ⟨c, h⟩
  room := ok.room
  running := fun _ => ok

theorem State.ok_start (k : Startup) : (State.start k).Ok k where
  host := Host.ok_start k.toListener
  epollfd := k.epollfd_epoll
  nodup := List.nodup_nil
  held := fun fd =>
    ⟨fun h => absurd h List.not_mem_nil, fun ⟨c, hc⟩ => absurd hc (k.noConn fd c)⟩
  count := rfl
  room := Nat.zero_le _

section Round

variable {k : Startup} {s : State}

/-- A connection that is refused leaves the set as it is. -/
theorem State.Ok.refuse (ok : s.Ok k) {d : Nat} (free : LowestFree s.host.fds d)
    (acc : Option Nat) : State.Ok k { s with host := (s.host.accept d).close d, acc := acc } where
  host := ok.host.refuse free
  epollfd := (congrFun (Host.fds_refuse free) k.epollfd).trans ok.epollfd
  nodup := ok.nodup
  held := by
    intro fd
    rw [ok.held fd, Host.fds_refuse free]
  count := ok.count
  room := ok.room

theorem State.Ok.keeps (ok : s.Ok k) {d : Nat} (free : LowestFree s.host.fds d)
    (hroom : s.interest.length + 1 ≤ maxChild - 1) (acc : Option Nat) :
    State.Ok k { s with
      host := s.host.accept d, acc := acc, interest := d :: s.interest, count := s.count + 1 } where
  host := ok.host.accept free
  epollfd := Table.update_of_held ok.epollfd (by simp [free.1]) _
  nodup := by
    rw [List.nodup_cons, ok.held d, free.1]
    exact ⟨by simp, ok.nodup⟩
  held := by
    intro fd
    rw [List.mem_cons, ok.held fd]
    dsimp only [Host.accept]
    rcases eq_or_ne fd d with rfl | hne
    · rw [Function.update_self]
      exact ⟨fun _ => ⟨_, rfl⟩, fun _ => .inl rfl⟩
    · rw [Function.update_of_ne hne]
      exact ⟨fun h => h.resolve_left hne, .inr⟩
  count := by
    dsimp only
    rw [ok.count, List.length_cons]
    omega
  room := hroom

theorem register_eq (ok : s.Ok k) (hrun : s.returned = false) {d : Nat}
    (free : LowestFree s.host.fds d) (added : Bool) {t : State}
    (ht : t = register k { s with host := s.host.accept d, acc := some d } d added) :
    ∃ moves, t.Safe k ∧ exec Host.step s.host moves = some t.host ∧ calls moves = [] ∧
      (t.returned = false → ∀ fd ∈ s.interest, fd ∈ t.interest) ∧
      (added = true → t.returned = false ∧ moves = [admission s.interest.length d]) := by
  have hcount := ok.count
  unfold register at ht
  rcases Nat.lt_or_ge (s.interest.length + 1) maxChild with hlt | hge
  · rw [if_neg (by dsimp only; omega)] at ht
    cases added with
    | true =>
        rw [if_pos rfl] at ht
        subst ht
        have hkept := ok.keeps free (by omega) (some d)
        refine ⟨[admission s.interest.length d], hkept.safe, ?_,
          calls_admission _ _, fun _ fd hfd => List.mem_cons_of_mem _ hfd, fun _ => ⟨hrun, rfl⟩⟩
        rw [admission, if_neg (by omega)]
        exact exec_cons_eq_some.mpr ⟨_, if_pos free, rfl⟩
    | false =>
        rw [if_neg Bool.false_ne_true] at ht
        subst ht
        have hrefuse := ok.refuse free (some d)
        refine ⟨[.refuse d, .drop k.epollfd], ?_, ?_, rfl, by simp, by simp⟩
        · refine ⟨hrefuse.host.drop hrefuse.epollfd, fun fd c hfd => ?_, ok.room, by simp⟩
          exact (hrefuse.held fd).mpr ⟨c, (held_of_close hfd).2⟩
        exact exec_cons_eq_some.mpr ⟨_, if_pos free,
          exec_cons_eq_some.mpr ⟨_, if_pos hrefuse.epollfd, rfl⟩⟩
  · rw [if_pos (by dsimp only; omega)] at ht
    subst ht
    have hrefuse := ok.refuse free (some d)
    refine ⟨[admission s.interest.length d], hrefuse.safe, ?_,
      calls_admission _ _, fun _ fd hfd => hfd, fun _ => ⟨hrun, rfl⟩⟩
    rw [admission, if_pos hge]
    exact exec_cons_eq_some.mpr ⟨_, if_pos free, rfl⟩

theorem serve_eq (ok : s.Ok k) {fd : Nat} (hfd : fd ∈ s.interest) (a : Answer) :
    State.Ok k (serve k s fd a) ∧ (serve k s fd a).host = s.host.visit fd a ∧
      (serve k s fd a).returned = s.returned ∧
      ∀ e ∈ s.interest, e ≠ fd → e ∈ (serve k s fd a).interest := by
  obtain ⟨c, hc⟩ := (ok.held fd).mp hfd
  have hhost := ok.host.visit hc a
  unfold serve Host.visit at *
  dsimp only
  split at hhost
  · rename_i hret
    rw [if_pos hret, if_pos hfd, if_pos hret]
    have hlen := List.length_erase_of_mem hfd
    have hpos := List.length_pos_of_mem hfd
    have hcount := ok.count
    have hroom := ok.room
    refine ⟨?_, rfl, rfl, fun e he hne => (List.mem_erase_of_ne hne).mpr he⟩
    exact {
      host := hhost
      epollfd := Table.update_of_held ok.epollfd (by simp [hc]) _
      nodup := ok.nodup.erase fd
      held := by
        intro e
        rw [ok.nodup.mem_erase_iff, ok.held e]
        dsimp only [Host.close, Host.call]
        rcases eq_or_ne e fd with rfl | hne
        · rw [Function.update_self]
          simp
        · rw [Function.update_of_ne hne]
          exact ⟨And.right, fun h => ⟨hne, h⟩⟩
      count := by
        dsimp only
        omega
      room := by
        dsimp only
        omega }
  · rename_i hret
    rw [if_neg hret, if_neg hret]
    exact ⟨{ ok with host := hhost }, rfl, rfl, fun e he _ => he⟩

/-- How the loop over `events` ends that begins in `s`: its moves call `send_recv` on
some of the events, in their order, and not on the listening socket. -/
inductive Played (k : Startup) (s : State) (events : List Nat) : Except Stop State → Prop
  | impossible : Played k s events (.error .impossible)
  | ends {t : State} (moves : List Move) (safe : t.Safe k)
      (run : exec Host.step s.host moves = some t.host) (sub : (calls moves).Sublist events)
      (notSoc : k.soc ∉ calls moves) : Played k s events (.ok t)

/-- The first event is the listening socket. -/
theorem Played.after_quiet {u : State} {events : List Nat} {result : Except Stop State}
    (first : List Move) (run : exec Host.step s.host first = some u.host)
    (quiet : calls first = []) (played : Played k u events result) (fd : Nat) :
    Played k s (fd :: events) result := by
  cases played with
  | impossible => exact .impossible
  | ends moves safe tail sub notSoc =>
      have hcalls : calls (first ++ moves) = calls moves := by
        rw [calls_append, quiet, List.nil_append]
      rw [← exec_append _ run] at tail
      refine .ends (first ++ moves) safe tail ?_ ?_
      · rw [hcalls]
        exact sub.cons fd
      · rw [hcalls]
        exact notSoc

/-- The first event is a connection. -/
theorem Played.after_visit {u : State} {fd : Nat} {a : Answer} {events : List Nat}
    {result : Except Stop State} (host : u.host = s.host.visit fd a) (hsoc : fd ≠ k.soc)
    (played : Played k u events result) : Played k s (fd :: events) result := by
  cases played with
  | impossible => exact .impossible
  | ends moves safe tail sub notSoc =>
      rw [host] at tail
      exact .ends (.visit fd a :: moves) safe (exec_cons_eq_some.mpr ⟨_, rfl, tail⟩)
        (sub.cons_cons fd) fun hin => (List.mem_cons.mp hin).elim hsoc.symm notSoc

/-- The loop over the events calls `send_recv` on connections of the set, each once. -/
theorem serveAll_played (result : Nat → Option Nat) (added : Nat → Bool) (answer : Nat → Answer)
    {i : Nat} {events : List Nat} (ok : s.Ok k) (hrun : s.returned = false)
    (nodup : events.Nodup) (known : ∀ fd ∈ events, fd = k.soc ∨ fd ∈ s.interest) :
    Played k s events (serveAll k result added answer i events s) := by
  induction events generalizing i s with
  | nil =>
      exact .ends [] ok.safe rfl (List.nil_sublist _) List.not_mem_nil
  | cons fd events ih =>
      obtain ⟨hnotin, hnodup⟩ := List.nodup_cons.mp nodup
      have hlater : ∀ e ∈ events, e = k.soc ∨ e ∈ s.interest :=
        fun e he => known e (List.mem_cons_of_mem _ he)
      by_cases hsoc : fd = k.soc
      · cases hresult : result i with
        | none =>
            have hstep : serveAll k result added answer i (fd :: events) s =
                serveAll k result added answer (i + 1) events { s with acc := none } := by
              rw [serveAll, if_pos hsoc, hresult]
              exact if_neg (by simp [hrun])
            rw [hstep]
            refine .after_quiet (s := s) (u := { s with acc := none }) [] rfl rfl ?_ fd
            exact ih { ok with } hrun hnodup hlater
        | some d =>
            by_cases free : LowestFree s.host.fds d
            · obtain ⟨first, hsafe, hfirst, hquiet, hkept, -⟩ :=
                register_eq ok hrun free (added i) rfl
              generalize hu : register k { s with host := s.host.accept d, acc := some d } d
                (added i) = u at hsafe hfirst hkept
              have hstep : serveAll k result added answer i (fd :: events) s =
                  if u.returned then .ok u
                  else serveAll k result added answer (i + 1) events u := by
                rw [serveAll, if_pos hsoc, hresult, acceptReady, if_pos free, hu]
                rfl
              rw [hstep]
              cases hret : u.returned with
              | true =>
                  exact .ends first hsafe hfirst (by rw [hquiet]; exact List.nil_sublist _)
                    (by rw [hquiet]; exact List.not_mem_nil)
              | false =>
                  rw [if_neg Bool.false_ne_true]
                  have hleft := fun e he => (hlater e he).imp id (hkept hret e)
                  exact (ih (hsafe.running hret) hret hnodup hleft).after_quiet first hfirst hquiet
                    fd
            · have hstep : serveAll k result added answer i (fd :: events) s =
                  .error .impossible := by
                rw [serveAll, if_pos hsoc, hresult, acceptReady, if_neg free]
                rfl
              rw [hstep]
              exact .impossible
      · have hfd := (known fd List.mem_cons_self).resolve_left hsoc
        obtain ⟨hserved, hhost, hret, hkept⟩ := serve_eq ok hfd (answer i)
        have hstep : serveAll k result added answer i (fd :: events) s =
            serveAll k result added answer (i + 1) events (serve k s fd (answer i)) := by
          rw [serveAll, if_neg hsoc]
          exact if_neg (by rw [hret, hrun]; simp)
        have hne : ∀ e ∈ events, e ≠ fd := by
          rintro e he rfl
          exact hnotin he
        rw [hstep]
        exact (ih hserved (hret.trans hrun) hnodup fun e he =>
          (hlater e he).imp id fun hin => hkept e hin (hne e he)).after_visit hhost hsoc

/-- The array of events holds whatever `epoll_wait` reports: the set and the listening
socket are no more than `MAX_CHILD`. -/
theorem State.Ok.fits (ok : s.Ok k) {events : List Nat}
    (h : Reported k.soc s.interest events) : events.length ≤ maxChild := by
  have hlen := h.length_le
  have hroom := ok.room
  have hmax : maxChild = 20 := rfl
  omega

/-- One round, from the top of the loop to the top of the loop or to the return. -/
theorem wakeUp_round (safe : s.Safe k) (w : Wake) :
    wakeUp k s w = .error .impossible ∨
      ∃ t, wakeUp k s w = .ok t ∧ t.Safe k ∧ Round s.host t.host (· ∈ w.reported) ∧
        (w.Failed → t = s) := by
  unfold wakeUp
  cases hrun : s.returned with
  | true => exact .inl rfl
  | false =>
      have ok := safe.running hrun
      rw [if_neg Bool.false_ne_true]
      cases w with
      | error => exact .inr ⟨s, rfl, safe, .refl _ _, fun _ => rfl⟩
      | timeout => exact .inr ⟨s, rfl, safe, .refl _ _, fun _ => rfl⟩
      | ready events result added answer =>
          dsimp only
          split
          · rename_i hevents
            obtain ⟨hnodup, -, hknown⟩ := hevents
            have hfits := ok.fits ⟨hnodup, hknown⟩
            rw [if_pos hfits]
            have played := serveAll_played result added answer (i := 0) ok hrun hnodup hknown
            generalize serveAll k result added answer 0 events s = result at played ⊢
            cases played with
            | impossible => exact .inl rfl
            | ends moves safe run sub notSoc =>
                refine .inr ⟨_, rfl, safe, ⟨moves, run, hnodup.sublist sub, fun fd hfd => ?_⟩,
                  False.elim⟩
                have hin := sub.subset hfd
                have hne : fd ≠ k.soc := by
                  rintro rfl
                  exact notSoc hfd
                exact ⟨hin, (ok.held fd).mp ((hknown fd hin).resolve_left hne)⟩
          · exact .inl rfl

end Round

end NetworkProgram.Echo.Epoll
