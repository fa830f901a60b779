import NetworkProgram.Echo.Host
import NetworkProgram.Workers.Pool

set_option autoImplicit false

/-!
# Workers: `server6.c`

The main thread accepts, and makes a thread for each connection, to which it passes the
descriptor by value.  Where `pthread_create` fails it goes on to the next `accept`, and does
not close the descriptor.

Limits of scope: as in `Workers.Pool` a `send` that fails ends no process, although `server6.c`
leaves `SIGPIPE` as it is.  There is no bound on the threads, so that how often
`pthread_create` fails is left to the run.
-/

namespace NetworkProgram.Workers.Spawning

open NetworkProgram.Echo
open NetworkProgram.Foundation
open NetworkProgram.Kernel
open NetworkProgram.Workers

/-- Where the main thread stands in `accept_loop`. -/
inductive Pc
  | accept
  /-- `pthread_create` -/
  | create
  deriving DecidableEq

/-- Worker 0 is the main thread; the threads it makes are 1, 2, … -/
structure State where
  pool : Pool
  pc : Pc
  created : Nat

inductive Action
  /-- `accept` returns a descriptor, or fails. -/
  | accept (result : Option Nat)
  | create (ok : Bool)
  | recv (i : Nat) (stack : Stack) (received : Received)
  | send (i : Nat) (delivered : Bool)
  | close (i : Nat)

/-- All threads are in one process. -/
def home : Nat → Nat := fun _ => 0

/-- The main thread gives what it accepts to another. -/
def Hands (i k : Nat) : Prop := i = 0 ∧ k ≠ 0

namespace State

def accept (s : State) : Option Nat → Option State
  | none => if s.pc = .accept then some s else none
  | some d =>
      if s.pc = .accept then
        (s.pool.accept home 0 d).map fun pool => { s with pool := pool, pc := .create }
      else none

def create (s : State) (ok : Bool) : Option State :=
  if s.pc = .create then
    if ok then
      (s.pool.start home 0 (s.created + 1)).map fun pool =>
        { pool := pool, pc := .accept, created := s.created + 1 }
    else (s.pool.drop home 0).map fun pool => { s with pool := pool, pc := .accept }
  else none

/-- A step of a `send_recv_thread`. -/
def serve (s : State) (i : Nat) (pool : Option Pool) : Option State :=
  if i = 0 then none else pool.map fun pool => { s with pool := pool }

end State

def step (s : State) : Action → Option State
  | .accept result => s.accept result
  | .create ok => s.create ok
  | .recv i stack received => s.serve i (s.pool.recv home i stack received)
  | .send i delivered => s.serve i (s.pool.send home i delivered)
  | .close i => s.serve i (s.pool.close home i)

def init (k : Listener) : State where
  pool := .init fun _ => k.table
  pc := .accept
  created := 0

/-! ## Connections -/

variable {s t : State} {a : Action}

/-- What a step does to the connections.  Only the main thread starts threads, and each one
has a new number. -/
theorem pool_step (h : step s a = some t) :
    (a = .accept none ∧ t = s) ∨
      ∃ b, s.pool.step home b = some t.pool ∧ s.created ≤ t.created ∧
        (∀ i k, b = .start i k → i = 0 ∧ k = s.created + 1 ∧ k = t.created) ∧
        ((∃ i, b = .drop i) ↔ a = .create false) := by
  cases a with
  | accept result =>
      cases result with
      | none =>
          dsimp only [step, State.accept] at h
          split at h
          · cases h
            exact .inl ⟨rfl, rfl⟩
          · cases h
      | some d =>
          dsimp only [step, State.accept] at h
          split at h
          · obtain ⟨pool, hpool, rfl⟩ := Option.map_eq_some_iff.mp h
            exact .inr ⟨.accept 0 d, hpool, le_rfl, nofun, ⟨nofun, nofun⟩⟩
          · cases h
  | create ok =>
      dsimp only [step, State.create] at h
      split at h
      swap
      · cases h
      cases ok with
      | true =>
          obtain ⟨pool, hpool, rfl⟩ := Option.map_eq_some_iff.mp h
          refine .inr ⟨.start 0 (s.created + 1), hpool, Nat.le_succ _, fun i k heq => ?_,
            ⟨nofun, nofun⟩⟩
          cases heq
          exact ⟨rfl, rfl, rfl⟩
      | false =>
          obtain ⟨pool, hpool, rfl⟩ := Option.map_eq_some_iff.mp h
          exact .inr ⟨.drop 0, hpool, le_rfl, nofun, ⟨fun _ => rfl, fun _ => ⟨0, rfl⟩⟩⟩
  | recv i stack received =>
      dsimp only [step, State.serve] at h
      split at h
      · cases h
      · obtain ⟨pool, hpool, rfl⟩ := Option.map_eq_some_iff.mp h
        exact .inr ⟨.recv i stack received, hpool, le_rfl, nofun, ⟨nofun, nofun⟩⟩
  | send i delivered =>
      dsimp only [step, State.serve] at h
      split at h
      · cases h
      · obtain ⟨pool, hpool, rfl⟩ := Option.map_eq_some_iff.mp h
        exact .inr ⟨.send i delivered, hpool, le_rfl, nofun, ⟨nofun, nofun⟩⟩
  | close i =>
      dsimp only [step, State.serve] at h
      split at h
      · cases h
      · obtain ⟨pool, hpool, rfl⟩ := Option.map_eq_some_iff.mp h
        exact .inr ⟨.close i, hpool, le_rfl, nofun, ⟨nofun, nofun⟩⟩

theorem inv_init (k : Listener) : (init k).pool.Inv home Hands :=
  Pool.inv_init fun _ => k.noConn

theorem inv_step (inv : s.pool.Inv home Hands) (h : step s a = some t) :
    t.pool.Inv home Hands := by
  obtain ⟨-, rfl⟩ | ⟨b, hb, -, hstart, -⟩ := pool_step h
  · exact inv
  · refine inv.step (fun i k heq => ?_) hb
    obtain ⟨rfl, rfl, -⟩ := hstart i k heq
    exact ⟨rfl, Nat.succ_ne_zero _⟩

/-- No thread was started that is still to be made, and none was started twice. -/
structure Threads (s : State) : Prop where
  made : ∀ e ∈ s.pool.log, e.kind = .started → e.worker ≤ s.created
  once : ∀ e ∈ s.pool.log, ∀ e' ∈ s.pool.log, e.kind = .started → e'.kind = .started →
    e.worker = e'.worker → e = e'

theorem threads_init (k : Listener) : Threads (init k) where
  made := List.forall_mem_nil _
  once := List.forall_mem_nil _

theorem threads_step (threads : Threads s) (h : step s a = some t) : Threads t := by
  obtain ⟨-, rfl⟩ | ⟨b, hb, hle, hstart, -⟩ := pool_step h
  · exact threads
  obtain ⟨entry, hlog, -, hnew⟩ := Pool.step_log hb
  -- A thread that starts now has a number that none had before.
  have hlater : entry.kind = .started → entry.worker = t.created ∧
      ∀ e ∈ s.pool.log, e.kind = .started → e.worker ≠ entry.worker := by
    intro hkind
    obtain ⟨i, hi⟩ := hnew hkind
    obtain ⟨-, hsucc, hcreated⟩ := hstart i _ hi
    refine ⟨hcreated, fun e he hstarted heq => ?_⟩
    have hold := threads.made e he hstarted
    omega
  constructor
  case made =>
    intro e he hkind
    rw [hlog, List.mem_append, List.mem_singleton] at he
    obtain he | rfl := he
    · exact (threads.made e he hkind).trans hle
    · exact (hlater hkind).1.le
  case once =>
    intro e he e' he' hkind hkind' hsame
    rw [hlog, List.mem_append, List.mem_singleton] at he he'
    obtain he | rfl := he
    · obtain he' | rfl := he'
      · exact threads.once e he e' he' hkind hkind' hsame
      · exact absurd hsame ((hlater hkind').2 e he hkind)
    · obtain he' | rfl := he'
      · exact absurd hsame.symm ((hlater hkind).2 e' he' hkind')
      · rfl

/-- `pthread_create` fails. -/
def Action.createFailure : Action → Bool
  | .create false => true
  | _ => false

/-- `leaked` lists the forgotten connections, each once. -/
structure Leaked (s : State) (leaked : List ConnId) : Prop where
  nodup : leaked.Nodup
  mem : ∀ c, c ∈ leaked ↔ ∃ i, (i, Kind.dropped) ∈ ofConn c s.pool.log

theorem leaked_init (k : Listener) : Leaked (init k) [] where
  nodup := List.nodup_nil
  mem := fun _ => ⟨nofun, fun ⟨_, h⟩ => nomatch h⟩

/-- Every failure of `pthread_create` makes one more of them. -/
theorem leaked_step {leaked : List ConnId} (inv : s.pool.Inv home Hands) (h : step s a = some t)
    (hleaked : Leaked s leaked) :
    ∃ leaked', Leaked t leaked' ∧
      leaked'.length = leaked.length + if a.createFailure then 1 else 0 := by
  by_cases hfails : a = .create false
  · subst hfails
    dsimp only [step, State.create] at h
    split at h
    swap
    · cases h
    obtain ⟨pool, hpool, rfl⟩ := Option.map_eq_some_iff.mp h
    obtain ⟨d, hheld, hlog⟩ := Pool.drop_eq hpool
    have hacc : (s.pool.work 0).acc? = some d := by rw [hheld]; rfl
    obtain ⟨c, hc⟩ := inv.held hacc
    obtain ⟨b, hbusy, -⟩ := inv.session_busy hc hacc
    rw [hc] at hlog
    have hnew : c ∉ leaked := fun hmem => by
      have hlost := (Pool.lost_iff_dropped hbusy).mpr ((hleaked.mem c).mp hmem)
      cases hlost
    refine ⟨c :: leaked, ⟨List.nodup_cons.mpr ⟨hnew, hleaked.nodup⟩, fun c' => ?_⟩, rfl⟩
    dsimp only
    rw [hlog, List.mem_cons, ofConn_append]
    rcases eq_or_ne c' c with rfl | hne
    · rw [ofConn_self]
      exact iff_of_true (.inl rfl) ⟨0, List.mem_append_right _ List.mem_cons_self⟩
    · rw [ofConn_other 0 .dropped hne, List.append_nil, hleaked.mem c']
      exact or_iff_right hne
  · have hcount : a.createFailure = false := by
      cases a with
      | create ok =>
          cases ok with
          | true => rfl
          | false => exact absurd rfl hfails
      | accept result | recv i stack received | send i delivered | close i => rfl
    refine ⟨leaked, ⟨hleaked.nodup, fun c => (hleaked.mem c).trans ?_⟩, by rw [hcount]; rfl⟩
    obtain ⟨-, rfl⟩ | ⟨b, hb, -, -, hdrop⟩ := pool_step h
    · exact Iff.rfl
    · obtain ⟨entry, hlog, hkind, -⟩ := Pool.step_log hb
      refine exists_congr fun i => ?_
      rw [Pool.mem_ofConn, Pool.mem_ofConn, hlog, List.mem_append, List.mem_singleton]
      refine (or_iff_left fun heq => hfails (hdrop.mp (hkind ?_))).symm
      rw [← heq]

/-- However the threads run, each connection is served by a thread of its own, which sends on
it the replies to what it received there and closes it; those that stay open for ever are as
many as `pthread_create` failed times. -/
theorem server6_sessions {k : Listener} {acts : List Action}
    (run : exec step (init k) acts = some s) :
    (∀ c, ∃ stage, Session Hands (ofConn c s.pool.log) stage ∧ s.pool.At home c stage) ∧
      (∀ i c c', (i, .started) ∈ ofConn c s.pool.log → (i, .started) ∈ ofConn c' s.pool.log →
        c = c') ∧
      ∃ leaked : List ConnId, leaked.Nodup ∧ (∀ c, c ∈ leaked ↔ s.pool.At home c .lost) ∧
        leaked.length = acts.countP Action.createFailure := by
  -- From any state with its forgotten connections, over the rest of the run.
  have hrun : ∀ {acts : List Action} {s t : State} {leaked : List ConnId},
      s.pool.Inv home Hands → Leaked s leaked → exec step s acts = some t →
      t.pool.Inv home Hands ∧ ∃ leaked', Leaked t leaked' ∧
        leaked'.length = leaked.length + acts.countP Action.createFailure := by
    intro acts
    induction acts with
    | nil =>
        intro s t leaked inv hleaked run
        cases run
        exact ⟨inv, leaked, hleaked, rfl⟩
    | cons a acts ih =>
        intro s t leaked inv hleaked run
        obtain ⟨u, hstep, hrest⟩ := exec_cons_eq_some.mp run
        obtain ⟨leaked', hleaked', hlen⟩ := leaked_step inv hstep hleaked
        obtain ⟨inv', leaked'', hleaked'', hlen'⟩ := ih (inv_step inv hstep) hleaked' hrest
        refine ⟨inv', leaked'', hleaked'', ?_⟩
        rw [hlen', hlen, List.countP_cons]
        omega
  obtain ⟨inv, leaked, hleaked, hlen⟩ := hrun (inv_init k) (leaked_init k) run
  have threads : Threads s := (Reaches.of_exec run).invariant (threads_init k)
    fun _ _ _ ok h => threads_step ok h
  refine ⟨inv.sessions, fun i c c' hc hc' => ?_, leaked, hleaked.nodup, fun c => ?_, ?_⟩
  · have hsame := threads.once _ (Pool.mem_ofConn.mp hc) _ (Pool.mem_ofConn.mp hc') rfl rfl rfl
    exact Desc.conn.inj (Option.some.inj (congrArg Entry.desc hsame))
  · rw [hleaked.mem c, inv.lost_iff c]
  · rw [hlen, List.length_nil, Nat.zero_add]

/-- For the second of two connections there is no thread. -/
def leaking : List Action :=
  [.accept (some 4), .create true, .accept (some 5), .create false,
    .recv 1 (Answer.plain .eof true).stack .eof, .close 1]

theorem server6_sessions_leaking :
    ∃ s, exec step (init .plain) leaking = some s ∧
      (∀ c, ∃ stage, Session Hands (ofConn c s.pool.log) stage ∧ s.pool.At home c stage) ∧
      (∀ i c c', (i, .started) ∈ ofConn c s.pool.log → (i, .started) ∈ ofConn c' s.pool.log →
        c = c') ∧
      ∃ leaked : List ConnId, leaked.Nodup ∧ (∀ c, c ∈ leaked ↔ s.pool.At home c .lost) ∧
        leaked.length = leaking.countP Action.createFailure := by
  obtain ⟨s, hs⟩ : ∃ s, exec step (init .plain) leaking = some s := ⟨_, rfl⟩
  exact ⟨s, hs, server6_sessions hs⟩

end NetworkProgram.Workers.Spawning
