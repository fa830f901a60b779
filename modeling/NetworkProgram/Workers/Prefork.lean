import NetworkProgram.Echo.Host
import NetworkProgram.Workers.Pool

set_option autoImplicit false

/-!
# Workers: `server7.c` and `server8.c`

Children (`server7`) or threads (`server8`) are made in advance, and each of them runs the
same `accept_loop`: only who has the lock calls `accept`, and it gives the lock back before
it serves the connection.  The children of `server7` lock a file and do not look at what
`lockf` returns; `server8` keeps the owner of its mutex in `g_lock_id`.

Limits of scope: the workers are those that were made at the start, and none of them ends,
also where a `send` fails (`Workers.Pool` says what that leaves out: `SIGPIPE`).  What `main`
prints every ten seconds is not modelled, but for `g_lock_id`, which it reads.  `server8`
stores `(int) pthread_self()` there; this is taken to be another number for each thread, and
never -1, so that the threads stand for their numbers.
-/

namespace NetworkProgram.Workers.Prefork

open NetworkProgram.Echo
open NetworkProgram.Foundation
open NetworkProgram.Kernel
open NetworkProgram.Libc
open NetworkProgram.Workers

/-- Where a worker stands in `accept_loop`. -/
inductive Pc
  | lock
  /-- `g_lock_id = (int) pthread_self()` -/
  | mark
  | accept
  /-- `g_lock_id = -1` -/
  | clear
  | unlock
  /-- `send_recv_loop` and `close` -/
  | loop
  deriving DecidableEq

/-- What the two servers differ in. -/
structure Server where
  /-- The process that a worker runs in. -/
  home : Nat → Nat
  /-- Locking may fail, and the worker goes on as if it had not. -/
  lockFails : Bool
  /-- `g_lock_id` is kept. -/
  marks : Bool

/-- Processes, with `lockf`. -/
def server7 : Server where
  home := id
  lockFails := true
  marks := false

/-- Threads, with `pthread_mutex_lock`. -/
def server8 : Server where
  home := fun _ => 0
  lockFails := false
  marks := true

structure State where
  pool : Pool
  pc : Nat → Pc
  /-- Who has the lock. -/
  holder : Option Nat
  /-- `g_lock_id`; `none` is -1, and thread `i` stands for `(int) pthread_self()`, which is
  taken to be one-to-one and never -1. -/
  lockId : Option Nat
  /-- How many connections wait to be accepted. -/
  pending : Nat

inductive Action
  /-- A client connects. -/
  | connect
  | lock (i : Nat) (ok : Bool)
  | mark (i : Nat)
  /-- `accept` returns a descriptor, or fails. -/
  | accept (i : Nat) (result : Option Nat)
  | clear (i : Nat)
  | unlock (i : Nat)
  | recv (i : Nat) (stack : Stack) (received : Received)
  | send (i : Nat) (delivered : Bool)
  | close (i : Nat)

variable (S : Server)

namespace State

/-- Worker `i` goes on at `pc`. -/
def goto (s : State) (i : Nat) (pc : Pc) : State := { s with pc := Function.update s.pc i pc }

def lock (s : State) (i : Nat) (ok : Bool) : Option State :=
  if s.pc i = .lock then
    let t := s.goto i (if S.marks then .mark else .accept)
    if ok then
      if s.holder = none then some { t with holder := some i } else none
    else if S.lockFails then some t
    else none
  else none

def mark (s : State) (i : Nat) : Option State :=
  if s.pc i = .mark then some { s.goto i .accept with lockId := some i } else none

def accept (s : State) (i : Nat) (result : Option Nat) : Option State :=
  if s.pc i = .accept then
    let t := s.goto i (if S.marks then .clear else .unlock)
    match result with
    | none => some t
    | some d =>
        if 0 < s.pending then
          (s.pool.accept S.home i d).map fun pool =>
            { t with pool := pool, pending := s.pending - 1 }
        else none
  else none

def clear (s : State) (i : Nat) : Option State :=
  if s.pc i = .clear then some { s.goto i .unlock with lockId := none } else none

/-- Only its own lock is given back; with a connection it is `send_recv_loop` that follows. -/
def unlock (s : State) (i : Nat) : Option State :=
  if s.pc i = .unlock then
    let holder := if s.holder = some i then none else s.holder
    match s.pool.work i with
    | .idle => some { s.goto i .lock with holder := holder }
    | _ =>
        (s.pool.start S.home i i).map fun pool =>
          { s.goto i .loop with pool := pool, holder := holder }
  else none

/-- A step of `send_recv_loop`. -/
def serve (s : State) (i : Nat) (pool : Option Pool) : Option State :=
  if s.pc i = .loop then pool.map fun pool => { s with pool := pool } else none

def close (s : State) (i : Nat) : Option State :=
  if s.pc i = .loop then
    (s.pool.close S.home i).map fun pool => { s.goto i .lock with pool := pool }
  else none

end State

/-- The worker whose step it is. -/
def Action.worker : Action → Option Nat
  | .connect => none
  | .lock i _ => some i
  | .mark i => some i
  | .accept i _ => some i
  | .clear i => some i
  | .unlock i => some i
  | .recv i _ _ => some i
  | .send i _ => some i
  | .close i => some i

/-- A step of the server with `n` workers. -/
def step (n : Nat) (s : State) (a : Action) : Option State :=
  if ∀ i ∈ a.worker, i < n then
    match a with
    | .connect => some { s with pending := s.pending + 1 }
    | .lock i ok => s.lock S i ok
    | .mark i => s.mark i
    | .accept i result => s.accept S i result
    | .clear i => s.clear i
    | .unlock i => s.unlock S i
    | .recv i stack received => s.serve i (s.pool.recv S.home i stack received)
    | .send i delivered => s.serve i (s.pool.send S.home i delivered)
    | .close i => s.close S i
  else none

/-- Every process has the descriptors of `main`. -/
def init (k : Listener) : State where
  pool := .init fun _ => k.table
  pc := fun _ => .lock
  holder := none
  lockId := none
  pending := 0

/-! ## What a step does -/

/-- The lock was asked for, and is not given back yet. -/
def Pc.inSection : Pc → Bool
  | lock => false
  | mark => true
  | accept => true
  | clear => true
  | unlock => true
  | loop => false

/-- What a worker may have in hand where it stands. -/
def Pc.Fits : Pc → Work → Prop
  | lock, w => w = .idle
  | mark, w => w = .idle
  | accept, w => w = .idle
  | clear, w => w = .idle ∨ ∃ d, w = .held d
  | unlock, w => w = .idle ∨ ∃ d, w = .held d
  | loop, w => w.serving = true

/-- Every step, with all that it asks for and all that it changes. -/
inductive Step (s : State) : Action → State → Prop
  | connect : Step s .connect { s with pending := s.pending + 1 }
  | lock {i : Nat} (pc : s.pc i = .lock) (free : s.holder = none) :
      Step s (.lock i true)
        { s.goto i (if S.marks then .mark else .accept) with holder := some i }
  | lockFailed {i : Nat} (pc : s.pc i = .lock) (fails : S.lockFails = true) :
      Step s (.lock i false) (s.goto i (if S.marks then .mark else .accept))
  | mark {i : Nat} (pc : s.pc i = .mark) :
      Step s (.mark i) { s.goto i .accept with lockId := some i }
  | refused {i : Nat} (pc : s.pc i = .accept) :
      Step s (.accept i none) (s.goto i (if S.marks then .clear else .unlock))
  | accepted {i d : Nat} {pool : Pool} (pc : s.pc i = .accept) (waits : 0 < s.pending)
      (takes : s.pool.accept S.home i d = some pool) :
      Step s (.accept i (some d)) { s.goto i (if S.marks then .clear else .unlock) with
        pool := pool, pending := s.pending - 1 }
  | clear {i : Nat} (pc : s.pc i = .clear) :
      Step s (.clear i) { s.goto i .unlock with lockId := none }
  | unlockIdle {i : Nat} (pc : s.pc i = .unlock) (idle : s.pool.work i = .idle) :
      Step s (.unlock i)
        { s.goto i .lock with holder := if s.holder = some i then none else s.holder }
  | unlockHeld {i : Nat} {pool : Pool} (pc : s.pc i = .unlock)
      (starts : s.pool.start S.home i i = some pool) :
      Step s (.unlock i) { s.goto i .loop with
        pool := pool, holder := if s.holder = some i then none else s.holder }
  | recv {i : Nat} {stack : Stack} {received : Received} {pool : Pool} (pc : s.pc i = .loop)
      (serves : s.pool.recv S.home i stack received = some pool) :
      Step s (.recv i stack received) { s with pool := pool }
  | send {i : Nat} {delivered : Bool} {pool : Pool} (pc : s.pc i = .loop)
      (serves : s.pool.send S.home i delivered = some pool) :
      Step s (.send i delivered) { s with pool := pool }
  | close {i : Nat} {pool : Pool} (pc : s.pc i = .loop)
      (closes : s.pool.close S.home i = some pool) :
      Step s (.close i) { s.goto i .lock with pool := pool }

variable {S} {n : Nat} {s t : State} {a : Action}

theorem step_cases (h : step S n s a = some t) : (∀ i ∈ a.worker, i < n) ∧ Step S s a t := by
  unfold step at h
  split at h
  swap
  · cases h
  rename_i hn
  refine ⟨hn, ?_⟩
  cases a with
  | connect =>
      cases h
      exact .connect
  | lock i ok =>
      dsimp only [State.lock] at h
      split at h
      swap
      · cases h
      rename_i hpc
      split at h
      · rename_i hok
        subst hok
        split at h
        · rename_i hfree
          cases h
          exact .lock hpc hfree
        · cases h
      · rename_i hok
        obtain rfl := Bool.eq_false_iff.mpr hok
        split at h
        · rename_i hfails
          cases h
          exact .lockFailed hpc hfails
        · cases h
  | mark i =>
      dsimp only [State.mark] at h
      split at h
      · rename_i hpc
        cases h
        exact .mark hpc
      · cases h
  | accept i result =>
      dsimp only [State.accept] at h
      split at h
      swap
      · cases h
      rename_i hpc
      cases result with
      | none =>
          cases h
          exact .refused hpc
      | some d =>
          dsimp only at h
          split at h
          · rename_i hwaits
            obtain ⟨pool, hpool, rfl⟩ := Option.map_eq_some_iff.mp h
            exact .accepted hpc hwaits hpool
          · cases h
  | clear i =>
      dsimp only [State.clear] at h
      split at h
      · rename_i hpc
        cases h
        exact .clear hpc
      · cases h
  | unlock i =>
      dsimp only [State.unlock] at h
      split at h
      swap
      · cases h
      rename_i hpc
      split at h
      · rename_i hidle
        cases h
        exact .unlockIdle hpc hidle
      · obtain ⟨pool, hpool, rfl⟩ := Option.map_eq_some_iff.mp h
        exact .unlockHeld hpc hpool
  | recv i stack received =>
      dsimp only [State.serve] at h
      split at h
      · rename_i hpc
        obtain ⟨pool, hpool, rfl⟩ := Option.map_eq_some_iff.mp h
        exact .recv hpc hpool
      · cases h
  | send i delivered =>
      dsimp only [State.serve] at h
      split at h
      · rename_i hpc
        obtain ⟨pool, hpool, rfl⟩ := Option.map_eq_some_iff.mp h
        exact .send hpc hpool
      · cases h
  | close i =>
      dsimp only [State.close] at h
      split at h
      · rename_i hpc
        obtain ⟨pool, hpool, rfl⟩ := Option.map_eq_some_iff.mp h
        exact .close hpc hpool
      · cases h

/-- The workers do nothing to the connections but what a pool does. -/
theorem Step.pool_step (h : Step S s a t) :
    t.pool = s.pool ∨ ∃ b, s.pool.step S.home b = some t.pool ∧
      (∀ i k, b = .start i k → i = k) ∧ ∀ i, b ≠ .drop i := by
  cases h with
  | connect | lock | lockFailed | mark | refused | clear | unlockIdle => exact .inl rfl
  | accepted pc waits takes => exact .inr ⟨.accept _ _, takes, nofun, nofun⟩
  | @unlockHeld i pool pc starts =>
      refine .inr ⟨.start i i, starts, fun j k h => ?_, nofun⟩
      cases h
      rfl
  | recv pc serves => exact .inr ⟨.recv _ _ _, serves, nofun, nofun⟩
  | send pc serves => exact .inr ⟨.send _ _, serves, nofun, nofun⟩
  | close pc closes => exact .inr ⟨.close _, closes, nofun, nofun⟩

/-! ## Connections -/

/-- What holds in every state that is reached. -/
structure Ok (S : Server) (n : Nat) (s : State) : Prop where
  pool : s.pool.Inv S.home Eq
  kept : ∀ e ∈ s.pool.log, e.kind ≠ .dropped
  finite : s.pool.Finite
  fits : ∀ i, (s.pc i).Fits (s.pool.work i)
  holds : ∀ i, s.holder = some i → i < n ∧ (s.pc i).inSection = true

theorem ok_init (S : Server) (n : Nat) (k : Listener) : Ok S n (init k) where
  pool := Pool.inv_init fun _ => k.noConn
  kept := List.forall_mem_nil _
  finite := fun _ => k.finite
  fits := fun _ => rfl
  holds := nofun

theorem inSection_next (m : Bool) (x y : Pc) (hx : x.inSection = true) (hy : y.inSection = true) :
    (if m then x else y).inSection = true := by
  cases m
  · exact hy
  · exact hx

/-- Where a worker goes on, what it has in hand has to fit; the others stay. -/
theorem fits_update {pc : Nat → Pc} {work : Nat → Work} (h : ∀ i, (pc i).Fits (work i)) {i : Nat}
    {x : Pc} {w : Work} (hx : x.Fits w) (j : Nat) :
    (Function.update pc i x j).Fits (Function.update work i w j) := by
  rcases eq_or_ne j i with rfl | hne
  · rw [Function.update_self, Function.update_self]
    exact hx
  · rw [Function.update_of_ne hne, Function.update_of_ne hne]
    exact h j

theorem Step.fits (h : Step S s a t) (hfits : ∀ i, (s.pc i).Fits (s.pool.work i)) :
    ∀ i, (t.pc i).Fits (t.pool.work i) := by
  have hstay : ∀ {i : Nat} {x : Pc}, x.Fits (s.pool.work i) → ∀ j,
      (Function.update s.pc i x j).Fits (s.pool.work j) := fun {i x} hx j => by
    have hupdate := fits_update hfits (i := i) hx j
    rwa [Function.update_eq_self] at hupdate
  cases h with
  | connect => exact hfits
  | @lock i pc free | @lockFailed i pc fails =>
      have hidle := hfits i
      rw [pc] at hidle
      refine hstay ?_
      split <;> exact hidle
  | @mark i pc =>
      have hidle := hfits i
      rw [pc] at hidle
      exact hstay hidle
  | @refused i pc =>
      have hidle := hfits i
      rw [pc] at hidle
      refine hstay ?_
      split <;> exact .inl hidle
  | @accepted i d pool pc waits takes =>
      obtain ⟨-, -, -, hwork, -⟩ := Pool.accept_eq takes
      dsimp only [State.goto]
      rw [hwork]
      refine fits_update hfits ?_
      split <;> exact .inr ⟨d, rfl⟩
  | @clear i pc =>
      have hheld := hfits i
      rw [pc] at hheld
      exact hstay hheld
  | @unlockIdle i pc idle => exact hstay idle
  | @unlockHeld i pool pc starts =>
      obtain ⟨d, -, hwork, -⟩ := Pool.start_self_eq starts
      dsimp only [State.goto]
      rw [hwork]
      exact fits_update hfits rfl
  | @recv i stack received pool pc serves =>
      obtain ⟨w, hserving, hwork, -⟩ := Pool.recv_eq serves
      dsimp only
      rw [hwork]
      have hupdate := fits_update hfits (i := i) (x := .loop) hserving
      rwa [← pc, Function.update_eq_self] at hupdate
  | @send i delivered pool pc serves =>
      obtain ⟨w, hserving, hwork, -⟩ := Pool.send_eq serves
      dsimp only
      rw [hwork]
      have hupdate := fits_update hfits (i := i) (x := .loop) hserving
      rwa [← pc, Function.update_eq_self] at hupdate
  | @close i pool pc closes =>
      obtain ⟨d, -, hwork, -⟩ := Pool.close_eq closes
      dsimp only [State.goto]
      rw [hwork]
      exact fits_update hfits rfl

theorem Step.finite (h : Step S s a t) (hfinite : s.pool.Finite) : t.pool.Finite := by
  cases h with
  | connect | lock | lockFailed | mark | refused | clear | unlockIdle => exact hfinite
  | accepted pc waits takes => exact hfinite.update (Pool.accept_eq takes).2.2.2.2
  | unlockHeld pc starts =>
      obtain ⟨d, -, -, hfds⟩ := Pool.start_self_eq starts
      exact fun p => hfds ▸ hfinite p
  | recv pc serves =>
      obtain ⟨w, -, -, hfds⟩ := Pool.recv_eq serves
      exact fun p => hfds ▸ hfinite p
  | send pc serves =>
      obtain ⟨w, -, -, hfds⟩ := Pool.send_eq serves
      exact fun p => hfds ▸ hfinite p
  | close pc closes =>
      obtain ⟨d, -, -, hfds⟩ := Pool.close_eq closes
      exact hfinite.update hfds

theorem Step.holds (h : Step S s a t) (hn : ∀ i ∈ a.worker, i < n)
    (hholds : ∀ i, s.holder = some i → i < n ∧ (s.pc i).inSection = true) :
    ∀ i, t.holder = some i → i < n ∧ (t.pc i).inSection = true := by
  have hmoves : ∀ {i : Nat} {x : Pc}, x.inSection = true → ∀ j, s.holder = some j →
      j < n ∧ (Function.update s.pc i x j).inSection = true := fun {i x} hx j hj => by
    refine ⟨(hholds j hj).1, ?_⟩
    rcases eq_or_ne j i with rfl | hne
    · rw [Function.update_self]
      exact hx
    · rw [Function.update_of_ne hne]
      exact (hholds j hj).2
  have hleaves : ∀ {i : Nat} {x : Pc} {j}, j ≠ i → s.holder = some j →
      j < n ∧ (Function.update s.pc i x j).inSection = true := fun {i x j} hne hj => by
    rw [Function.update_of_ne hne]
    exact hholds j hj
  cases h with
  | connect => exact hholds
  | @lock i pc free =>
      intro j hj
      obtain rfl : i = j := Option.some.inj hj
      refine ⟨hn i rfl, ?_⟩
      dsimp only [State.goto]
      rw [Function.update_self]
      exact inSection_next _ _ _ rfl rfl
  | lockFailed pc fails => exact hmoves (inSection_next _ _ _ rfl rfl)
  | mark pc => exact hmoves rfl
  | refused pc => exact hmoves (inSection_next _ _ _ rfl rfl)
  | accepted pc waits takes => exact hmoves (inSection_next _ _ _ rfl rfl)
  | clear pc => exact hmoves rfl
  | @unlockIdle i pc idle =>
      intro j hj
      dsimp only at hj
      split at hj
      · cases hj
      · rename_i hother
        exact hleaves (fun heq => hother (heq ▸ hj)) hj
  | @unlockHeld i pool pc starts =>
      intro j hj
      dsimp only at hj
      split at hj
      · cases hj
      · rename_i hother
        exact hleaves (fun heq => hother (heq ▸ hj)) hj
  | recv pc serves => exact hholds
  | send pc serves => exact hholds
  | @close i pool pc closes =>
      intro j hj
      refine hleaves (fun heq => ?_) hj
      have hsection := (hholds j hj).2
      rw [heq, pc] at hsection
      cases hsection

theorem Ok.step (ok : Ok S n s) (h : Prefork.step S n s a = some t) : Ok S n t := by
  obtain ⟨hn, h⟩ := step_cases h
  refine ⟨?_, ?_, h.finite ok.finite, h.fits ok.fits, h.holds hn ok.holds⟩
  · obtain heq | ⟨b, hb, hgiven, -⟩ := h.pool_step
    · exact heq ▸ ok.pool
    · exact ok.pool.step hgiven hb
  · obtain heq | ⟨b, hb, -, hkeeps⟩ := h.pool_step
    · exact heq ▸ ok.kept
    · obtain ⟨entry, hlog, hdropped, -⟩ := Pool.step_log hb
      rw [hlog]
      intro e he
      obtain he | he := List.mem_append.mp he
      · exact ok.kept e he
      · intro hkind
        obtain rfl := List.mem_singleton.mp he
        obtain ⟨i, hi⟩ := hdropped hkind
        exact hkeeps i hi

theorem Ok.of_reaches {k : Listener} (run : Reaches (Prefork.step S n) (init k) s) : Ok S n s :=
  run.invariant (ok_init S n k) fun _ _ _ ok h => ok.step h

/-- However many workers there are and however their steps are ordered, and even where locking
fails, the life of every connection is a session with one worker: it alone accepts, serves and
closes it, what it sends are the replies to what it received, and the descriptor is open from
`accept` to `close`.  Nothing else happens to any descriptor. -/
theorem prefork_sessions {k : Listener} (run : Reaches (Prefork.step S n) (init k) s) :
    (∀ e ∈ s.pool.log, ∃ c < s.pool.next, e.desc = some (.conn c)) ∧
      ∀ c, ∃ stage, Session Eq (ofConn c s.pool.log) stage ∧ s.pool.At S.home c stage ∧
        stage ≠ .lost := by
  have ok := Ok.of_reaches run
  refine ⟨ok.pool.named, fun c => ?_⟩
  obtain ⟨stage, hlife, hat⟩ := ok.pool.sessions c
  refine ⟨stage, hlife, hat, ?_⟩
  rintro rfl
  obtain ⟨i, hi⟩ := (Pool.lost_iff_dropped hlife).mp rfl
  exact ok.kept _ (Pool.mem_ofConn.mp hi) rfl

def hi : Chunk := ⟨ascii ['h', 'i'], List.cons_ne_nil _ _, Nat.le_of_ble_eq_true rfl⟩

/-- `hi` comes, and is answered; the other worker goes on to `accept`, and a second client
comes. -/
def answered (S : Server) : List Action :=
  [.connect, .lock 0 true] ++ (if S.marks then [.mark 0] else []) ++ [.accept 0 (some 4)] ++
    (if S.marks then [.clear 0] else []) ++
    [.unlock 0, .recv 0 (Answer.plain .eof true).stack (.data hi), .send 0 true, .lock 1 true] ++
    (if S.marks then [.mark 1] else []) ++ [.connect]

theorem prefork_sessions_answered :
    ∃ s, exec (step server7 2) (init .plain) (answered server7) = some s ∧
      (∀ e ∈ s.pool.log, ∃ c < s.pool.next, e.desc = some (.conn c)) ∧
        ∀ c, ∃ stage, Session Eq (ofConn c s.pool.log) stage ∧ s.pool.At server7.home c stage ∧
          stage ≠ .lost := by
  obtain ⟨s, hs⟩ : ∃ s, exec (step server7 2) (init .plain) (answered server7) = some s := ⟨_, rfl⟩
  exact ⟨s, hs, prefork_sessions (Reaches.of_exec hs)⟩

/-! ## The lock -/

/-- Locking fails. -/
def Action.lockFailure : Action → Bool
  | .lock _ false => true
  | _ => false

/-- The worker is between `g_lock_id = (int) pthread_self()` and `g_lock_id = -1`. -/
def Pc.shown : Pc → Bool
  | accept => true
  | clear => true
  | _ => false

/-- Who is in the section has the lock, and `g_lock_id` names who has come to `accept`. -/
structure Locked (S : Server) (s : State) : Prop where
  owns : ∀ i, (s.pc i).inSection = true → s.holder = some i
  named : S.marks = true → ∀ i, s.lockId = some i ↔ (s.pc i).shown = true

theorem locked_init (S : Server) (k : Listener) : Locked S (init k) where
  owns := fun _ h => nomatch h
  named := fun _ _ => ⟨nofun, nofun⟩

theorem Pc.inSection_of_shown {x : Pc} (h : x.shown = true) : x.inSection = true := by
  cases x with
  | accept | clear => rfl
  | lock | mark | unlock | loop => cases h

section Locked

variable (locked : Locked S s) {i : Nat} {x : Pc}
include locked

theorem Locked.unique {j : Nat} (hi : (s.pc i).inSection = true) (hj : (s.pc j).inSection = true) :
    i = j := Option.some.inj ((locked.owns i hi).symm.trans (locked.owns j hj))

/-- A worker goes on inside the section, or outside. -/
theorem Locked.owns_goto (hx : x.inSection = (s.pc i).inSection) :
    ∀ j, (Function.update s.pc i x j).inSection = true → s.holder = some j := by
  intro j hj
  rcases eq_or_ne j i with rfl | hne
  · rw [Function.update_self, hx] at hj
    exact locked.owns j hj
  · rw [Function.update_of_ne hne] at hj
    exact locked.owns j hj

theorem Locked.named_goto (hx : x.shown = (s.pc i).shown) (hmarks : S.marks = true) :
    ∀ j, s.lockId = some j ↔ (Function.update s.pc i x j).shown = true := by
  intro j
  rw [locked.named hmarks j]
  rcases eq_or_ne j i with rfl | hne
  · rw [Function.update_self, hx]
  · rw [Function.update_of_ne hne]

/-- Where one leaves the section nobody else is in it. -/
theorem Locked.owns_leave (hpc : (s.pc i).inSection = true) (hx : x.inSection = false)
    (holder : Option Nat) :
    ∀ j, (Function.update s.pc i x j).inSection = true → holder = some j := by
  intro j hj
  rcases eq_or_ne j i with rfl | hne
  · rw [Function.update_self, hx] at hj
    cases hj
  · rw [Function.update_of_ne hne] at hj
    exact absurd (locked.unique hj hpc) hne

end Locked

theorem Step.locked (h : Step S s a t) (ha : a.lockFailure = false) (locked : Locked S s) :
    Locked S t := by
  cases h with
  | connect => exact ⟨locked.owns, locked.named⟩
  | @lock i pc free =>
      refine ⟨fun j hj => ?_, fun hmarks => locked.named_goto ?_ hmarks⟩
      · dsimp only [State.goto] at hj
        rcases eq_or_ne j i with rfl | hne
        · rfl
        · rw [Function.update_of_ne hne] at hj
          have howns := locked.owns j hj
          rw [free] at howns
          cases howns
      · rw [if_pos hmarks, pc]
        rfl
  | lockFailed => cases ha
  | @mark i pc =>
      refine ⟨locked.owns_goto (by rw [pc]; rfl), fun _ j => ?_⟩
      have hi : (s.pc i).inSection = true := by rw [pc]; rfl
      dsimp only [State.goto]
      rcases eq_or_ne j i with rfl | hne
      · rw [Function.update_self]
        exact ⟨fun _ => rfl, fun _ => rfl⟩
      · rw [Function.update_of_ne hne]
        refine ⟨fun h => absurd (Option.some.inj h).symm hne, fun h => ?_⟩
        exact absurd (locked.unique (Pc.inSection_of_shown h) hi) hne
  | @refused i pc =>
      refine ⟨locked.owns_goto ?_, fun hmarks => locked.named_goto ?_ hmarks⟩
      · rw [pc]
        exact inSection_next _ _ _ rfl rfl
      · rw [if_pos hmarks, pc]
        rfl
  | @accepted i d pool pc waits takes =>
      refine ⟨locked.owns_goto ?_, fun hmarks => locked.named_goto ?_ hmarks⟩
      · rw [pc]
        exact inSection_next _ _ _ rfl rfl
      · rw [if_pos hmarks, pc]
        rfl
  | @clear i pc =>
      refine ⟨locked.owns_goto (by rw [pc]; rfl), fun _ j => ?_⟩
      have hi : (s.pc i).inSection = true := by rw [pc]; rfl
      dsimp only [State.goto]
      refine ⟨nofun, fun h => ?_⟩
      rcases eq_or_ne j i with rfl | hne
      · rw [Function.update_self] at h
        cases h
      · rw [Function.update_of_ne hne] at h
        exact absurd (locked.unique (Pc.inSection_of_shown h) hi) hne
  | @unlockIdle i pc idle =>
      exact ⟨locked.owns_leave (by rw [pc]; rfl) rfl _, locked.named_goto (by rw [pc]; rfl)⟩
  | @unlockHeld i pool pc starts =>
      exact ⟨locked.owns_leave (by rw [pc]; rfl) rfl _, locked.named_goto (by rw [pc]; rfl)⟩
  | recv pc serves => exact ⟨locked.owns, locked.named⟩
  | send pc serves => exact ⟨locked.owns, locked.named⟩
  | @close i pool pc closes =>
      exact ⟨locked.owns_goto (by rw [pc]; rfl), locked.named_goto (by rw [pc]; rfl)⟩

theorem Locked.of_reaches {k : Listener}
    (run : Reaches (guarded (fun _ a => a.lockFailure = false) (Prefork.step S n)) (init k) s) :
    Locked S s :=
  run.invariant (locked_init S k) fun _ _ _ locked h =>
    (step_cases (guarded_eq_some.mp h).2).2.locked (guarded_eq_some.mp h).1 locked

/-- As long as locking does not fail, at most one worker is between lock and unlock, where it
calls `accept`. -/
theorem prefork_exclusive {k : Listener}
    (run : Reaches (guarded (fun _ a => a.lockFailure = false) (Prefork.step S n)) (init k) s)
    {i j : Nat} (hi : (s.pc i).inSection = true) (hj : (s.pc j).inSection = true) : i = j :=
  (Locked.of_reaches run).unique hi hj

theorem prefork_exclusive_answered :
    ∃ s, exec (guarded (fun _ a => a.lockFailure = false) (step server7 2)) (init .plain)
        (answered server7) = some s ∧ (s.pc 1).inSection = true ∧
      ∀ i, (s.pc i).inSection = true → i = 1 := by
  obtain ⟨s, hs, hpc⟩ : ∃ s, exec (guarded (fun _ a => a.lockFailure = false) (step server7 2))
      (init .plain) (answered server7) = some s ∧ (s.pc 1).inSection = true := ⟨_, rfl, rfl⟩
  exact ⟨s, hs, hpc, fun i hi => prefork_exclusive (Reaches.of_exec hs) hi hpc⟩

/-- A mutex does not fail. -/
theorem reaches_server8 {k : Listener} (run : Reaches (Prefork.step server8 n) (init k) s) :
    Reaches (guarded (fun _ a => a.lockFailure = false) (Prefork.step server8 n)) (init k) s := by
  induction run with
  | refl => exact .refl
  | tail run move ih =>
      refine .tail ih (guarded_eq_some.mpr ⟨?_, move⟩)
      cases (step_cases move).2 with
      | lockFailed pc fails => cases fails
      | connect | lock | mark | refused | accepted | clear | unlockIdle | unlockHeld | recv | send
        | close => rfl

/-- In `server8` the `g_lock_id` that `main` prints is the thread that waits in `accept` or comes
from there with the lock, and -1 if there is none. -/
theorem g_lock_id_iff {k : Listener} (run : Reaches (Prefork.step server8 n) (init k) s) (i : Nat) :
    s.lockId = some i ↔ (s.pc i).shown = true ∧ s.holder = some i := by
  have locked := Locked.of_reaches (reaches_server8 run)
  rw [locked.named rfl i]
  exact ⟨fun h => ⟨h, locked.owns i (Pc.inSection_of_shown h)⟩, And.left⟩

theorem g_lock_id_answered :
    ∃ s, exec (step server8 2) (init .plain) (answered server8) = some s ∧
      ∀ i, s.lockId = some i ↔ (s.pc i).shown = true ∧ s.holder = some i := by
  obtain ⟨s, hs⟩ : ∃ s, exec (step server8 2) (init .plain) (answered server8) = some s := ⟨_, rfl⟩
  exact ⟨s, hs, g_lock_id_iff (Reaches.of_exec hs)⟩

/-! ## Progress -/

/-- A step of `accept_loop` that goes well; no client takes part in it, and no worker that
serves one. -/
def Action.own : Action → Bool
  | .connect => false
  | .lock _ ok => ok
  | .mark _ => true
  | .accept _ result => result.isSome
  | .clear _ => true
  | .unlock _ => true
  | .recv _ _ _ => false
  | .send _ _ => false
  | .close _ => false

/-- Steps of `accept_loop` alone lead to where one more connection is accepted. -/
def Accepts (S : Server) (n : Nat) (s : State) : Prop :=
  ∃ t, Reaches (guarded (fun _ a => a.own = true) (step S n)) s t ∧
    t.pool.next = s.pool.next + 1

section Progress

theorem Accepts.of_step (ha : a.own = true) (h : step S n s a = some t)
    (hnext : t.pool.next = s.pool.next) (haccepts : Accepts S n t) : Accepts S n s := by
  obtain ⟨u, run, hu⟩ := haccepts
  have first : Reaches (guarded (fun _ a => a.own = true) (step S n)) s t :=
    .tail .refl (guarded_eq_some.mpr ⟨ha, h⟩)
  exact ⟨u, first.trans run, hnext ▸ hu⟩

variable {i : Nat} (ok : Ok S n s) (hi : i < n) (hpending : 0 < s.pending)
include ok hi hpending

theorem accepts_accept (hpc : s.pc i = .accept) : Accepts S n s := by
  have hidle : s.pool.work i = .idle := by
    have hfits := ok.fits i
    rwa [hpc] at hfits
  obtain ⟨d, hd⟩ := ok.finite.exists_lowestFree (S.home i)
  have hmove : ∃ t, step S n s (.accept i (some d)) = some t ∧
      t.pool.next = s.pool.next + 1 := by
    simp [step, Action.worker, hi, State.accept, hpc, hpending, Pool.accept, hidle, hd]
  obtain ⟨t, ht, hnext⟩ := hmove
  exact ⟨t, .tail .refl (guarded_eq_some.mpr ⟨rfl, ht⟩), hnext⟩

theorem accepts_mark (hpc : s.pc i = .mark) : Accepts S n s := by
  have hmove : step S n s (.mark i) = some { s.goto i .accept with lockId := some i } := by
    simp [step, Action.worker, hi, State.mark, hpc]
  exact .of_step rfl hmove rfl
    (accepts_accept (ok.step hmove) hi hpending (Function.update_self ..))

/-- Behind the lock comes `accept`, marked or not. -/
theorem accepts_lock (hpc : s.pc i = .lock) (hfree : s.holder = none) : Accepts S n s := by
  obtain ⟨t, hmove, hnext, hpool, hwaits⟩ : ∃ t, step S n s (.lock i true) = some t ∧
      (t.pc i = .mark ∨ t.pc i = .accept) ∧ t.pool = s.pool ∧ t.pending = s.pending := by
    refine ⟨{ s.goto i (if S.marks then .mark else .accept) with holder := some i }, ?_, ?_,
      rfl, rfl⟩
    · simp [step, Action.worker, hi, State.lock, hpc, hfree]
    · dsimp only [State.goto]
      rw [Function.update_self]
      cases S.marks
      · exact .inr rfl
      · exact .inl rfl
  refine .of_step rfl hmove (congrArg Pool.next hpool) ?_
  obtain hmark | haccept := hnext
  · exact accepts_mark (ok.step hmove) hi (hwaits ▸ hpending) hmark
  · exact accepts_accept (ok.step hmove) hi (hwaits ▸ hpending) haccept

/-- A worker without a connection gets to the lock, if nobody else has it. -/
theorem accepts_unlock (hpc : s.pc i = .unlock) (hidle : s.pool.work i = .idle)
    (hfree : s.holder = none ∨ s.holder = some i) : Accepts S n s := by
  have hmove : step S n s (.unlock i) = some { s.goto i .lock with holder := none } := by
    have hholder : (if s.holder = some i then none else s.holder) = none := by
      obtain h | h := hfree <;> simp [h]
    simp [step, Action.worker, hi, State.unlock, hpc, hidle, hholder]
  exact .of_step rfl hmove rfl
    (accepts_lock (ok.step hmove) hi hpending (Function.update_self ..) rfl)

theorem accepts_clear (hpc : s.pc i = .clear) (hidle : s.pool.work i = .idle)
    (hfree : s.holder = none ∨ s.holder = some i) : Accepts S n s := by
  have hmove : step S n s (.clear i) = some { s.goto i .unlock with lockId := none } := by
    simp [step, Action.worker, hi, State.clear, hpc]
  exact .of_step rfl hmove rfl
    (accepts_unlock (ok.step hmove) hi hpending (Function.update_self ..) hidle hfree)

theorem accepts_idle (hidle : s.pool.work i = .idle) (hfree : s.holder = none) : Accepts S n s := by
  cases hpc : s.pc i with
  | lock => exact accepts_lock ok hi hpending hpc hfree
  | mark => exact accepts_mark ok hi hpending hpc
  | accept => exact accepts_accept ok hi hpending hpc
  | clear => exact accepts_clear ok hi hpending hpc hidle (.inl hfree)
  | unlock => exact accepts_unlock ok hi hpending hpc hidle (.inl hfree)
  | loop =>
      have hfits := ok.fits i
      rw [hpc, hidle] at hfits
      cases hfits

omit hi in
/-- Whoever is about to give the lock back does so without waiting. -/
theorem accepts_behind_unlock {j : Nat} (hj : j < n) (hpc : s.pc j = .unlock)
    (hholder : s.holder = some j) (hi : i < n) (hidle : s.pool.work i = .idle) :
    Accepts S n s := by
  have hfits := ok.fits j
  rw [hpc] at hfits
  obtain hnone | ⟨d, hheld⟩ := hfits
  · exact accepts_unlock ok hj hpending hpc hnone (.inr hholder)
  · have hne : i ≠ j := by
      rintro rfl
      rw [hidle] at hheld
      cases hheld
    obtain ⟨t, hmove, hpool, hnext, hwaits, hfree⟩ : ∃ t, step S n s (.unlock j) = some t ∧
        t.pool.work = Function.update s.pool.work j (.recv d) ∧ t.pool.next = s.pool.next ∧
        t.pending = s.pending ∧ t.holder = none := by
      simp [step, Action.worker, hj, State.unlock, hpc, hheld, Pool.start, hholder, Pool.turn,
        State.goto]
    refine .of_step rfl hmove hnext
      (accepts_idle (ok.step hmove) hi (hwaits ▸ hpending) ?_ hfree)
    rw [hpool, Function.update_of_ne hne]
    exact hidle

end Progress

/-- Wherever the workers are, a worker that has no connection and a connection that waits are
enough: the steps of `accept_loop` alone lead to where it is accepted.  So neither the lock nor
a client that sends nothing keeps the others out. -/
theorem prefork_accepts {k : Listener} (run : Reaches (step S n) (init k) s) {i : Nat} (hi : i < n)
    (hidle : s.pool.work i = .idle) (hpending : 0 < s.pending) : Accepts S n s := by
  have ok := Ok.of_reaches run
  cases hholder : s.holder with
  | none => exact accepts_idle ok hi hpending hidle hholder
  | some j =>
      obtain ⟨hj, hsection⟩ := ok.holds j hholder
      cases hpc : s.pc j with
      | lock | loop =>
          rw [hpc] at hsection
          cases hsection
      | mark => exact accepts_mark ok hj hpending hpc
      | accept => exact accepts_accept ok hj hpending hpc
      | unlock => exact accepts_behind_unlock ok hpending hj hpc hholder hi hidle
      | clear =>
          have hmove : step S n s (.clear j) = some { s.goto j .unlock with lockId := none } := by
            simp [step, Action.worker, hj, State.clear, hpc]
          exact .of_step rfl hmove rfl (accepts_behind_unlock (ok.step hmove) hpending hj
            (Function.update_self ..) hholder hi hidle)

theorem prefork_accepts_answered :
    ∃ s, exec (step server8 2) (init .plain) (answered server8) = some s ∧ Accepts server8 2 s := by
  obtain ⟨s, hs, hidle, hpending⟩ : ∃ s, exec (step server8 2) (init .plain) (answered server8) =
      some s ∧ s.pool.work 1 = .idle ∧ 0 < s.pending := ⟨_, rfl, rfl, Nat.one_pos⟩
  exact ⟨s, hs, prefork_accepts (Reaches.of_exec hs) (by decide) hidle hpending⟩

end NetworkProgram.Workers.Prefork
