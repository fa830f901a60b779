import NetworkProgram.Echo.SendRecv
import NetworkProgram.Foundation.Runs
import NetworkProgram.Kernel.Descriptors

set_option autoImplicit false

/-!
# Workers: connections and the workers that serve them

`server6.c`, `server7.c` and `server8.c` of chapter 5 serve every connection in a thread or
in a child of its own, by one and the same `send_recv_loop`.  A pool is what they have in
common: workers in processes, and what each of them has in hand.  In any order of its steps
the life of a connection is a `Session`: one worker accepts it, one serves it alone, what it
is sent are the replies to what it sent itself, and it is closed once.

* `Pool.Step` lists what a step asks for and what it changes, and `Pool.step_cases` says that
  there are no other steps; everything below is derived from it.
* `Pool.Inv` is the invariant, and `Pool.Inv.step` that every step keeps it.

Limits of scope: the workers run for ever.  None of the three programs sets a handler for
`SIGPIPE`, so that a `send` to a client that has closed its end may end the process with all
its workers; here such a `send` fails, as it does where the signal is ignored, and no process
ends.  `recv`, `send` and `accept` answer as they like, and `close` does not fail.
-/

namespace NetworkProgram.Workers

open NetworkProgram.Echo
open NetworkProgram.Foundation
open NetworkProgram.Kernel
open NetworkProgram.Libc

/-- What a worker has in hand: a connection that was accepted, or one that it serves and
where `send_recv_loop` stands. -/
inductive Work
  | idle
  | held (acc : Nat)
  | recv (acc : Nat)
  | send (acc : Nat) (buf : Bytes)
  | close (acc : Nat)
  deriving DecidableEq

def Work.acc? : Work → Option Nat
  | idle => none
  | held acc => some acc
  | recv acc => some acc
  | send acc _ => some acc
  | close acc => some acc

/-- The descriptor is in `send_recv_loop`, or about to be closed behind it. -/
def Work.serving : Work → Bool
  | idle => false
  | held _ => false
  | recv _ => true
  | send _ _ => true
  | close _ => true

inductive Kind
  | accepted
  /-- `send_recv_loop` is entered. -/
  | started
  /-- `pthread_create` fails, and the descriptor is forgotten. -/
  | dropped
  | received (m : Bytes)
  | sent (m : Bytes)
  /-- `recv` fails or meets the end, or `send` fails. -/
  | failed
  | closed
  deriving DecidableEq

/-- What a worker did, and what its descriptor referred to at that moment. -/
structure Entry where
  worker : Nat
  desc : Option Desc
  kind : Kind
  deriving DecidableEq

structure Pool where
  /-- The descriptors, process by process. -/
  fds : Nat → Table
  /-- The number of connections accepted so far. -/
  next : ConnId
  work : Nat → Work
  log : List Entry

inductive Action
  /-- `accept` returns the descriptor `d`. -/
  | accept (i d : Nat)
  /-- Worker `k`, which may be `i`, takes over what `i` has accepted. -/
  | start (i k : Nat)
  | drop (i : Nat)
  | recv (i : Nat) (stack : Stack) (received : Received)
  | send (i : Nat) (delivered : Bool)
  | close (i : Nat)

namespace Pool

variable (home : Nat → Nat)

/-- Worker `i` goes on with `w`; `home i` is the process that it runs in. -/
def turn (s : Pool) (i acc : Nat) (w : Work) (kind : Kind) : Pool :=
  { s with
    work := Function.update s.work i w
    log := s.log ++ [⟨i, s.fds (home i) acc, kind⟩] }

def accept (s : Pool) (i d : Nat) : Option Pool :=
  match s.work i with
  | .idle =>
      if LowestFree (s.fds (home i)) d then
        some {
          fds := Function.update s.fds (home i)
            (Function.update (s.fds (home i)) d (some (.conn s.next)))
          next := s.next + 1
          work := Function.update s.work i (.held d)
          log := s.log ++ [⟨i, some (.conn s.next), .accepted⟩] }
      else none
  | _ => none

def start (s : Pool) (i k : Nat) : Option Pool :=
  match s.work i with
  | .held acc =>
      if k = i then some (s.turn home i acc (.recv acc) .started)
      else if home k = home i ∧ s.work k = .idle then
        some (({ s with work := Function.update s.work i .idle } : Pool).turn home k acc (.recv acc)
          .started)
      else none
  | _ => none

def drop (s : Pool) (i : Nat) : Option Pool :=
  match s.work i with
  | .held acc => some (s.turn home i acc .idle .dropped)
  | _ => none

/-- `recv`, and what comes before `send` if there is a chunk. -/
def recv (s : Pool) (i : Nat) (stack : Stack) (received : Received) : Option Pool :=
  match s.work i with
  | .recv acc =>
      match received with
      | .data chunk =>
          some (s.turn home i acc (.send acc (format stack chunk)) (.received chunk.bytes))
      | _ => some (s.turn home i acc (.close acc) .failed)
  | _ => none

def send (s : Pool) (i : Nat) (delivered : Bool) : Option Pool :=
  match s.work i with
  | .send acc buf =>
      if delivered then some (s.turn home i acc (.recv acc) (.sent (buf.take (strlen buf))))
      else some (s.turn home i acc (.close acc) .failed)
  | _ => none

def close (s : Pool) (i : Nat) : Option Pool :=
  match s.work i with
  | .close acc =>
      let s := s.turn home i acc .idle .closed
      some { s with
        fds := Function.update s.fds (home i) (Function.update (s.fds (home i)) acc none) }
  | _ => none

def step (s : Pool) : Action → Option Pool
  | .accept i d => accept home s i d
  | .start i k => start home s i k
  | .drop i => drop home s i
  | .recv i stack received => recv home s i stack received
  | .send i delivered => send home s i delivered
  | .close i => close home s i

/-- No connection was accepted yet. -/
def init (fds : Nat → Table) : Pool where
  fds := fds
  next := 0
  work := fun _ => .idle
  log := []

/-- Every step, with all that it asks for and all that it changes. -/
inductive Step (s : Pool) : Action → Pool → Prop
  | accept {i d : Nat} (idle : s.work i = .idle) (free : LowestFree (s.fds (home i)) d) :
      Step s (.accept i d) {
        fds := Function.update s.fds (home i)
          (Function.update (s.fds (home i)) d (some (.conn s.next)))
        next := s.next + 1
        work := Function.update s.work i (.held d)
        log := s.log ++ [⟨i, some (.conn s.next), .accepted⟩] }
  | start {i acc : Nat} (work : s.work i = .held acc) :
      Step s (.start i i) (s.turn home i acc (.recv acc) .started)
  | give {i k acc : Nat} (work : s.work i = .held acc) (same : home k = home i)
      (idle : s.work k = .idle) :
      Step s (.start i k)
        (({ s with work := Function.update s.work i .idle } : Pool).turn home k acc (.recv acc)
          .started)
  | drop {i acc : Nat} (work : s.work i = .held acc) :
      Step s (.drop i) (s.turn home i acc .idle .dropped)
  | recv {i acc : Nat} {stack : Stack} {chunk : Chunk} (work : s.work i = .recv acc) :
      Step s (.recv i stack (.data chunk))
        (s.turn home i acc (.send acc (format stack chunk)) (.received chunk.bytes))
  | recvFails {i acc : Nat} {stack : Stack} {received : Received} (work : s.work i = .recv acc) :
      Step s (.recv i stack received) (s.turn home i acc (.close acc) .failed)
  | send {i acc : Nat} {buf : Bytes} (work : s.work i = .send acc buf) :
      Step s (.send i true) (s.turn home i acc (.recv acc) (.sent (buf.take (strlen buf))))
  | sendFails {i acc : Nat} {buf : Bytes} (work : s.work i = .send acc buf) :
      Step s (.send i false) (s.turn home i acc (.close acc) .failed)
  | close {i acc : Nat} (work : s.work i = .close acc) :
      Step s (.close i) { s.turn home i acc .idle .closed with
        fds := Function.update s.fds (home i) (Function.update (s.fds (home i)) acc none) }

variable {home}

theorem step_cases {s s' : Pool} {a : Action} (h : s.step home a = some s') :
    Step home s a s' := by
  cases a with
  | accept i d =>
      dsimp only [step, accept] at h
      split at h
      swap
      · cases h
      rename_i idle
      split at h
      · rename_i free
        cases h
        exact .accept idle free
      · cases h
  | start i k =>
      dsimp only [step, start] at h
      split at h
      swap
      · cases h
      rename_i acc work
      split at h
      · rename_i heq
        subst heq
        cases h
        exact .start work
      · split at h
        · rename_i hk
          cases h
          exact .give work hk.1 hk.2
        · cases h
  | drop i =>
      dsimp only [step, drop] at h
      split at h
      · rename_i acc work
        cases h
        exact .drop work
      · cases h
  | recv i stack received =>
      dsimp only [step, recv] at h
      split at h
      swap
      · cases h
      rename_i acc work
      split at h
      · cases h
        exact .recv work
      · cases h
        exact .recvFails work
  | send i delivered =>
      dsimp only [step, send] at h
      split at h
      swap
      · cases h
      rename_i acc buf work
      cases delivered with
      | true =>
          cases h
          exact .send work
      | false =>
          cases h
          exact .sendFails work
  | close i =>
      dsimp only [step, close] at h
      split at h
      · rename_i acc work
        cases h
        exact .close work
      · cases h

end Pool

/-! ## Sessions -/

/-- How far the worker of a connection has come with it. -/
inductive Busy
  | accepted
  | serving
  | replying (m : Bytes)
  | ended
  deriving DecidableEq

inductive Stage
  | queued
  | busy (i : Nat) (b : Busy)
  | closed
  /-- Open, and nobody's. -/
  | lost
  deriving DecidableEq

/-- The life of a connection: who does what with it, and where that leads.  What `i` accepts
`k` may serve if `hands i k`. -/
inductive Session (hands : Nat → Nat → Prop) : List (Nat × Kind) → Stage → Prop
  | queued : Session hands [] .queued
  | accepted (i : Nat) : Session hands [(i, .accepted)] (.busy i .accepted)
  | started {l : List (Nat × Kind)} {i k : Nat} (h : Session hands l (.busy i .accepted))
      (given : hands i k) : Session hands (l ++ [(k, .started)]) (.busy k .serving)
  | dropped {l : List (Nat × Kind)} {i : Nat} (h : Session hands l (.busy i .accepted)) :
      Session hands (l ++ [(i, .dropped)]) .lost
  | received {l : List (Nat × Kind)} {i : Nat} (m : Bytes)
      (h : Session hands l (.busy i .serving)) :
      Session hands (l ++ [(i, .received m)]) (.busy i (.replying m))
  | sent {l : List (Nat × Kind)} {i : Nat} {m b : Bytes}
      (h : Session hands l (.busy i (.replying m)))
      (reply : m.length < bufSize → b = echo m) :
      Session hands (l ++ [(i, .sent b)]) (.busy i .serving)
  | recvFailed {l : List (Nat × Kind)} {i : Nat} (h : Session hands l (.busy i .serving)) :
      Session hands (l ++ [(i, .failed)]) (.busy i .ended)
  | sendFailed {l : List (Nat × Kind)} {i : Nat} {m : Bytes}
      (h : Session hands l (.busy i (.replying m))) :
      Session hands (l ++ [(i, .failed)]) (.busy i .ended)
  | closed {l : List (Nat × Kind)} {i : Nat} (h : Session hands l (.busy i .ended)) :
      Session hands (l ++ [(i, .closed)]) .closed

/-- What was done with connection `c`. -/
def ofConn (c : ConnId) (log : List Entry) : List (Nat × Kind) :=
  log.filterMap fun e => if e.desc = some (.conn c) then some (e.worker, e.kind) else none

/-- What a worker has in hand, when it has come so far with descriptor `d`. -/
def Busy.Fits (d : Nat) : Busy → Work → Prop
  | accepted, .held acc => acc = d
  | serving, .recv acc => acc = d
  | replying m, .send acc buf =>
      acc = d ∧ ∃ stack chunk, chunk.bytes = m ∧ buf = format stack chunk
  | ended, .close acc => acc = d
  | _, _ => False

theorem Busy.Fits.acc?_eq {d : Nat} {b : Busy} {w : Work} (h : b.Fits d w) : w.acc? = some d := by
  cases b <;> cases w <;>
    first | exact absurd h id | exact congrArg some h | exact congrArg some h.1

namespace Pool

variable (home : Nat → Nat) (hands : Nat → Nat → Prop)

/-- Connection `c` has come so far. -/
def At (s : Pool) (c : ConnId) : Stage → Prop
  | .queued => s.next ≤ c ∧ ∀ p, ¬ (s.fds p).Open c
  | .busy i b => ∃ d, s.fds (home i) d = some (.conn c) ∧ b.Fits d (s.work i)
  | .closed => c < s.next ∧ ∀ p, ¬ (s.fds p).Open c
  | .lost => ∃ p d, s.fds p d = some (.conn c) ∧ ∀ i, home i = p → (s.work i).acc? ≠ some d

/-- A connection has one descriptor in one process, a descriptor one worker, and everything
in the log is part of a session. -/
structure Inv (s : Pool) : Prop where
  one : ∀ {p q d e c}, s.fds p d = some (.conn c) → s.fds q e = some (.conn c) → p = q ∧ d = e
  apart : ∀ {i j d}, home i = home j → (s.work i).acc? = some d → (s.work j).acc? = some d → i = j
  held : ∀ {i d}, (s.work i).acc? = some d → ∃ c, s.fds (home i) d = some (.conn c)
  old : ∀ {p d c}, s.fds p d = some (.conn c) → c < s.next
  named : ∀ e ∈ s.log, ∃ c < s.next, e.desc = some (.conn c)
  sessions : ∀ c, ∃ stage, Session hands (ofConn c s.log) stage ∧ s.At home c stage

end Pool

section OfConn

variable {c c' : ConnId} {log entries : List Entry}

theorem ofConn_append (c : ConnId) (log entries : List Entry) :
    ofConn c (log ++ entries) = ofConn c log ++ ofConn c entries := List.filterMap_append

theorem ofConn_append_other (h : ∀ e ∈ entries, e.desc = some (.conn c)) (hne : c' ≠ c) :
    ofConn c' (log ++ entries) = ofConn c' log := by
  have hnil : ofConn c' entries = [] := List.filterMap_eq_nil_iff.mpr fun e he => by
    rw [h e he]
    exact if_neg fun heq => hne (Desc.conn.inj (Option.some.inj heq)).symm
  rw [ofConn_append, hnil, List.append_nil]

theorem ofConn_other (i : Nat) (kind : Kind) (hne : c' ≠ c) :
    ofConn c' [⟨i, some (.conn c), kind⟩] = [] := by
  have happend : ofConn c' ([] ++ [⟨i, some (.conn c), kind⟩]) = ofConn c' [] :=
    ofConn_append_other (fun e he => by rw [List.mem_singleton.mp he]) hne
  exact happend

theorem ofConn_self (i : Nat) (c : ConnId) (kind : Kind) :
    ofConn c [⟨i, some (.conn c), kind⟩] = [(i, kind)] := by
  rw [ofConn, List.filterMap_cons, if_pos rfl]
  rfl

end OfConn

/-- One descriptor of one process changes. -/
theorem update_table (fds : Nat → Table) (p d : Nat) (x : Option Desc) (q e : Nat) :
    Function.update fds p (Function.update (fds p) d x) q e =
      if q = p ∧ e = d then x else fds q e := by
  by_cases hq : q = p
  · subst hq
    rw [Function.update_self]
    by_cases he : e = d
    · subst he
      rw [Function.update_self, if_pos ⟨rfl, rfl⟩]
    · rw [Function.update_of_ne he, if_neg fun h => he h.2]
  · rw [Function.update_of_ne hq, if_neg fun h => hq h.1]

/-- A new connection on a free descriptor. -/
theorem conn_open {fds : Nat → Table} {p d : Nat} (free : fds p d = none) (n : ConnId)
    {q e : Nat} {c : ConnId} :
    Function.update fds p (Function.update (fds p) d (some (.conn n))) q e = some (.conn c) ↔
      q = p ∧ e = d ∧ c = n ∨ fds q e = some (.conn c) := by
  rw [update_table]
  split
  · rename_i heq
    obtain ⟨rfl, rfl⟩ := heq
    rw [free, Option.some.injEq, Desc.conn.injEq]
    simp [eq_comm]
  · rename_i hne
    exact ⟨.inr, fun h => h.resolve_left fun heq => hne ⟨heq.1, heq.2.1⟩⟩

/-- A connection is closed that had one descriptor. -/
theorem conn_close {fds : Nat → Table} {p d : Nat} {c : ConnId} (hfd : fds p d = some (.conn c))
    (one : ∀ {q e}, fds q e = some (.conn c) → q = p ∧ e = d) {q e : Nat} {c' : ConnId} :
    Function.update fds p (Function.update (fds p) d none) q e = some (.conn c') ↔
      fds q e = some (.conn c') ∧ c' ≠ c := by
  rw [update_table]
  constructor
  · intro h
    split at h
    · cases h
    · rename_i hne
      refine ⟨h, ?_⟩
      rintro rfl
      exact hne (one h)
  · rintro ⟨h, hc⟩
    rw [if_neg, h]
    rintro ⟨rfl, rfl⟩
    exact hc (Desc.conn.inj (Option.some.inj (h.symm.trans hfd)))

/-- Who has something in hand has what it had, or it is worker `i`, which goes on with `w`. -/
theorem acc?_update {work : Nat → Work} {w : Work} {i j e : Nat}
    (h : (Function.update work i w j).acc? = some e) :
    j = i ∧ w.acc? = some e ∨ j ≠ i ∧ (work j).acc? = some e := by
  rcases eq_or_ne j i with rfl | hne
  · rw [Function.update_self] at h
    exact .inl ⟨rfl, h⟩
  · rw [Function.update_of_ne hne] at h
    exact .inr ⟨hne, h⟩

namespace Pool

variable {home : Nat → Nat} {hands : Nat → Nat → Prop} {s s' : Pool} {c : ConnId} {i k d : Nat}
  {stage : Stage}

/-- What is done with other connections leaves this one where it is. -/
theorem At.congr (h : s.At home c stage)
    (hfds : ∀ p d, s'.fds p d = some (.conn c) ↔ s.fds p d = some (.conn c))
    (hnext : s'.next ≤ c ↔ s.next ≤ c)
    (hwork : ∀ i d, s.fds (home i) d = some (.conn c) →
      (s.work i).acc? = some d ∨ (s'.work i).acc? = some d → s'.work i = s.work i) :
    s'.At home c stage := by
  have hopen : (∀ p, ¬ (s.fds p).Open c) → ∀ p, ¬ (s'.fds p).Open c :=
    fun hnone p ⟨d, hd⟩ => hnone p ⟨d, (hfds p d).mp hd⟩
  cases stage with
  | queued => exact ⟨hnext.mpr h.1, hopen h.2⟩
  | busy i b =>
      obtain ⟨d, hd, hfits⟩ := h
      refine ⟨d, (hfds _ d).mpr hd, ?_⟩
      rw [hwork i d hd (.inl hfits.acc?_eq)]
      exact hfits
  | closed => exact ⟨Nat.not_le.mp fun hle => Nat.not_lt.mpr (hnext.mp hle) h.1, hopen h.2⟩
  | lost =>
      obtain ⟨p, d, hd, hnobody⟩ := h
      refine ⟨p, d, (hfds p d).mpr hd, fun i hi hacc => hnobody i hi ?_⟩
      subst hi
      rw [← hwork i d hd (.inr hacc)]
      exact hacc

namespace Inv

variable (inv : s.Inv home hands)
include inv

/-- A connection that a worker has in hand is that worker's. -/
theorem at_busy (h : s.At home c stage) (hfd : s.fds (home i) d = some (.conn c))
    (hacc : (s.work i).acc? = some d) : ∃ b, stage = .busy i b ∧ b.Fits d (s.work i) := by
  cases stage with
  | queued => exact absurd ⟨d, hfd⟩ (h.2 (home i))
  | closed => exact absurd ⟨d, hfd⟩ (h.2 (home i))
  | lost =>
      obtain ⟨p, e, he, hnobody⟩ := h
      obtain ⟨rfl, rfl⟩ := inv.one hfd he
      exact absurd hacc (hnobody i rfl)
  | busy j b =>
      obtain ⟨e, he, hfits⟩ := h
      obtain ⟨hhome, rfl⟩ := inv.one hfd he
      obtain rfl := inv.apart hhome hacc hfits.acc?_eq
      exact ⟨b, rfl, hfits⟩

section Pass

variable {w : Work}
  (hwork : s'.work = Function.update (Function.update s.work i .idle) k w)
  (hw : ∀ e, w.acc? = some e → e = d)

omit inv in
include hwork hw in
/-- Who has something in hand has what it had, or it is `k` and has `d`. -/
theorem acc?_passed {j e : Nat} (h : (s'.work j).acc? = some e) :
    j = k ∧ e = d ∨ j ≠ k ∧ j ≠ i ∧ (s.work j).acc? = some e := by
  rw [hwork] at h
  rcases acc?_update h with ⟨hjk, he⟩ | ⟨hjk, h⟩
  · exact .inl ⟨hjk, hw e he⟩
  · rcases acc?_update h with ⟨-, hnone⟩ | ⟨hji, h⟩
    · cases hnone
    · exact .inr ⟨hjk, hji, h⟩

omit inv in
include hwork hw in
/-- Who has another connection in hand, before or after, is not concerned. -/
theorem work_passed {c' : ConnId} {j e : Nat} (hacc : (s.work i).acc? = some d)
    (hfd : s.fds (home i) d = some (.conn c)) (hk : k = i ∨ home k = home i ∧ s.work k = .idle)
    (hc : c' ≠ c) (he : s.fds (home j) e = some (.conn c'))
    (hor : (s.work j).acc? = some e ∨ (s'.work j).acc? = some e) : s'.work j = s.work j := by
  -- The descriptor of `c` is not the one of `c'`.
  have hne : ∀ l, home l = home i → ¬ (j = l ∧ e = d) := by
    rintro l hl ⟨rfl, rfl⟩
    rw [hl, hfd] at he
    exact hc (Desc.conn.inj (Option.some.inj he)).symm
  have hhome : home k = home i := hk.elim (fun h => h ▸ rfl) And.left
  have hother : j ≠ k ∧ j ≠ i := by
    rcases hor with hold | hnew
    · have hji : j ≠ i := by
        rintro rfl
        exact hne j rfl ⟨rfl, Option.some.inj (hold.symm.trans hacc)⟩
      refine ⟨?_, hji⟩
      rintro rfl
      obtain rfl | ⟨-, hidle⟩ := hk
      · exact hji rfl
      · rw [hidle] at hold
        cases hold
    · obtain hmine | ⟨hjk, hji, -⟩ := acc?_passed hwork hw hnew
      · exact absurd hmine (hne k hhome)
      · exact ⟨hjk, hji⟩
  rw [hwork, Function.update_of_ne hother.1, Function.update_of_ne hother.2]

end Pass

/-- A worker goes on with its connection, gives it to another, or forgets it. -/
theorem pass (w : Work) (entries : List Entry) (hacc : (s.work i).acc? = some d)
    (hfd : s.fds (home i) d = some (.conn c)) (hk : k = i ∨ home k = home i ∧ s.work k = .idle)
    (hw : ∀ e, w.acc? = some e → e = d) (hentries : ∀ e ∈ entries, e.desc = some (.conn c))
    (hwork : s'.work = Function.update (Function.update s.work i .idle) k w)
    (hlog : s'.log = s.log ++ entries) (hfds : s'.fds = s.fds) (hnext : s'.next = s.next)
    (hsession : ∃ stage, Session hands (ofConn c s'.log) stage ∧ s'.At home c stage) :
    s'.Inv home hands := by
  have hhome : home k = home i := hk.elim (fun h => h ▸ rfl) And.left
  constructor
  case one =>
    intro p q e f c' he hf
    rw [hfds] at he hf
    exact inv.one he hf
  case apart =>
    intro j l e hjl hj hl
    obtain ⟨rfl, rfl⟩ | ⟨hjk, hji, hj⟩ := acc?_passed hwork hw hj
    · obtain ⟨rfl, -⟩ | ⟨hlk, hli, hl⟩ := acc?_passed hwork hw hl
      · rfl
      · exact absurd (inv.apart (hhome.symm.trans hjl) hacc hl).symm hli
    · obtain ⟨rfl, rfl⟩ | ⟨-, -, hl⟩ := acc?_passed hwork hw hl
      · exact absurd (inv.apart (hjl.trans hhome) hj hacc) hji
      · exact inv.apart hjl hj hl
  case held =>
    intro j e hj
    rw [hfds]
    obtain ⟨rfl, rfl⟩ | ⟨-, -, hj⟩ := acc?_passed hwork hw hj
    · exact ⟨c, hhome ▸ hfd⟩
    · exact inv.held hj
  case old =>
    intro p e c' he
    rw [hfds] at he
    exact hnext ▸ inv.old he
  case named =>
    intro e he
    rw [hnext]
    rw [hlog] at he
    obtain he | he := List.mem_append.mp he
    · exact inv.named e he
    · exact ⟨c, inv.old hfd, hentries e he⟩
  case sessions =>
    intro c'
    by_cases hc : c' = c
    · exact hc ▸ hsession
    · obtain ⟨stage, hlife, hat⟩ := inv.sessions c'
      refine ⟨stage, ?_, hat.congr (fun p e => by rw [hfds]) (by rw [hnext]) ?_⟩
      · rw [hlog, ofConn_append_other hentries hc]
        exact hlife
      · exact fun j e he hor => work_passed hwork hw hacc hfd hk hc he hor

/-- The session of the connection that worker `i` has in hand. -/
theorem session_busy (hfd : s.fds (home i) d = some (.conn c)) (hacc : (s.work i).acc? = some d) :
    ∃ b, Session hands (ofConn c s.log) (.busy i b) ∧ b.Fits d (s.work i) := by
  obtain ⟨stage, hlife, hat⟩ := inv.sessions c
  obtain ⟨b, rfl, hfits⟩ := inv.at_busy hat hfd hacc
  exact ⟨b, hlife, hfits⟩

/-- A worker goes on with what it has in hand. -/
theorem turn {w : Work} {kind : Kind} (b' : Busy) (hacc : (s.work i).acc? = some d)
    (hfits : b'.Fits d w)
    (hlife : ∀ {b l}, b.Fits d (s.work i) → Session hands l (.busy i b) →
      Session hands (l ++ [(i, kind)]) (.busy i b')) : (s.turn home i d w kind).Inv home hands := by
  obtain ⟨c, hfd⟩ := inv.held hacc
  obtain ⟨b, hbusy, hb⟩ := inv.session_busy hfd hacc
  have hlog : (s.turn home i d w kind).log = s.log ++ [⟨i, some (.conn c), kind⟩] := by
    rw [Pool.turn, hfd]
  refine inv.pass (k := i) w [⟨i, some (.conn c), kind⟩] hacc hfd (.inl rfl)
    (fun e he => ?_) (fun e he => ?_)
    (Function.update_idem ..).symm hlog rfl rfl ⟨.busy i b', ?_, d, hfd, ?_⟩
  · exact Option.some.inj (he.symm.trans hfits.acc?_eq)
  · rw [List.mem_singleton.mp he]
  · rw [hlog, ofConn_append, ofConn_self]
    exact hlife hb hbusy
  · dsimp only [Pool.turn]
    rw [Function.update_self]
    exact hfits

/-- Nothing was done yet with the connection that is next. -/
theorem ofConn_next : ofConn s.next s.log = [] := by
  refine List.filterMap_eq_nil_iff.mpr fun e he => ?_
  obtain ⟨c, hlt, hdesc⟩ := inv.named e he
  refine if_neg fun heq => ?_
  rw [hdesc] at heq
  exact Nat.ne_of_lt hlt (Desc.conn.inj (Option.some.inj heq))

/-- A free descriptor is nobody's. -/
theorem nobody (free : s.fds (home i) d = none) {j : Nat} (hj : home j = home i) :
    (s.work j).acc? ≠ some d := by
  intro hacc
  obtain ⟨c, hc⟩ := inv.held hacc
  rw [hj, free] at hc
  cases hc

omit inv in
/-- What is accepted leaves the other connections where they are. -/
theorem at_other (idle : s.work i = .idle) (free : s.fds (home i) d = none)
    (hfds : s'.fds = Function.update s.fds (home i)
      (Function.update (s.fds (home i)) d (some (.conn s.next))))
    (hnext : s'.next = s.next + 1) (hwork : s'.work = Function.update s.work i (.held d))
    (hne : c ≠ s.next) (h : s.At home c stage) : s'.At home c stage := by
  refine h.congr (fun p e => ?_) ?_ fun j e he hor => ?_
  · rw [hfds, conn_open free]
    exact or_iff_right fun heq => hne heq.2.2
  · rw [hnext]
    exact ⟨Nat.le_of_succ_le, fun hle => Nat.lt_of_le_of_ne hle (Ne.symm hne)⟩
  · rw [hwork] at hor ⊢
    refine Function.update_of_ne ?_ ..
    rintro rfl
    obtain hnone | hd := hor
    · rw [idle] at hnone
      cases hnone
    · obtain ⟨-, hsame⟩ | ⟨hother, -⟩ := acc?_update hd
      · obtain rfl := Option.some.inj hsame
        rw [free] at he
        cases he
      · exact hother rfl

theorem accept (idle : s.work i = .idle) (free : LowestFree (s.fds (home i)) d) :
    Pool.Inv home hands {
      fds := Function.update s.fds (home i)
        (Function.update (s.fds (home i)) d (some (.conn s.next)))
      next := s.next + 1
      work := Function.update s.work i (.held d)
      log := s.log ++ [⟨i, some (.conn s.next), .accepted⟩] } := by
  have hconn : ∀ {p e c}, Function.update s.fds (home i)
      (Function.update (s.fds (home i)) d (some (.conn s.next))) p e = some (.conn c) ↔
        p = home i ∧ e = d ∧ c = s.next ∨ s.fds p e = some (.conn c) := conn_open free.1 s.next
  have hself : Function.update s.fds (home i)
      (Function.update (s.fds (home i)) d (some (.conn s.next))) (home i) d =
        some (.conn s.next) := hconn.mpr (.inl ⟨rfl, rfl, rfl⟩)
  constructor
  case one =>
    intro p q e f c he hf
    obtain ⟨rfl, rfl, rfl⟩ | he := hconn.mp he
    · obtain ⟨rfl, rfl, -⟩ | hf := hconn.mp hf
      · exact ⟨rfl, rfl⟩
      · exact absurd (inv.old hf) (Nat.lt_irrefl _)
    · obtain ⟨-, -, rfl⟩ | hf := hconn.mp hf
      · exact absurd (inv.old he) (Nat.lt_irrefl _)
      · exact inv.one he hf
  case apart =>
    intro j l e hjl hj hl
    obtain ⟨rfl, hd⟩ | ⟨-, hj'⟩ := acc?_update hj
    · obtain rfl := Option.some.inj hd
      obtain ⟨rfl, -⟩ | ⟨-, hl'⟩ := acc?_update hl
      · rfl
      · exact absurd hl' (inv.nobody free.1 hjl.symm)
    · obtain ⟨rfl, hd⟩ | ⟨-, hl'⟩ := acc?_update hl
      · obtain rfl := Option.some.inj hd
        exact absurd hj' (inv.nobody free.1 hjl)
      · exact inv.apart hjl hj' hl'
  case held =>
    intro j e hj
    obtain ⟨rfl, hd⟩ | ⟨-, hj⟩ := acc?_update hj
    · obtain rfl := Option.some.inj hd
      exact ⟨s.next, hself⟩
    · obtain ⟨c, hc⟩ := inv.held hj
      exact ⟨c, hconn.mpr (.inr hc)⟩
  case old =>
    intro p e c hc
    obtain ⟨-, -, rfl⟩ | hc := hconn.mp hc
    · exact Nat.lt_succ_self _
    · exact Nat.lt_succ_of_lt (inv.old hc)
  case named =>
    intro e he
    obtain he | he := List.mem_append.mp he
    · obtain ⟨c, hc, hdesc⟩ := inv.named e he
      exact ⟨c, Nat.lt_succ_of_lt hc, hdesc⟩
    · exact ⟨s.next, Nat.lt_succ_self _, by rw [List.mem_singleton.mp he]⟩
  case sessions =>
    intro c
    by_cases hc : c = s.next
    · subst hc
      refine ⟨.busy i .accepted, ?_, d, hself, ?_⟩
      · rw [ofConn_append, inv.ofConn_next, ofConn_self]
        exact .accepted i
      · dsimp only
        rw [Function.update_self]
        exact rfl
    · obtain ⟨stage, hlife, hat⟩ := inv.sessions c
      refine ⟨stage, ?_, at_other idle free.1 rfl rfl rfl hc hat⟩
      rw [ofConn_append_other (fun e he => by rw [List.mem_singleton.mp he]) hc]
      exact hlife

theorem start (given : hands i i) {acc : Nat} (work : s.work i = .held acc) :
    (s.turn home i acc (.recv acc) .started).Inv home hands := by
  refine inv.turn .serving (by rw [work]; rfl) rfl fun {b l} hb h => ?_
  rw [work] at hb
  cases b with
  | accepted => exact .started h given
  | serving | replying m | ended => exact absurd hb id

/-- Another worker of the same process takes over. -/
theorem give (given : hands i k) {acc : Nat} (work : s.work i = .held acc)
    (same : home k = home i) (idle : s.work k = .idle) :
    (({ s with work := Function.update s.work i .idle } : Pool).turn home k acc (.recv acc)
      .started).Inv home hands := by
  have hacc : (s.work i).acc? = some acc := by rw [work]; rfl
  obtain ⟨c, hfd⟩ := inv.held hacc
  obtain ⟨b, hbusy, hb⟩ := inv.session_busy hfd hacc
  rw [work] at hb
  have hfd' : s.fds (home k) acc = some (.conn c) := same ▸ hfd
  cases b with
  | accepted =>
      refine inv.pass (k := k) (.recv acc) [⟨k, some (.conn c), .started⟩] hacc hfd
        (.inr ⟨same, idle⟩) (fun e he => (Option.some.inj he).symm) (fun e he => ?_) rfl ?_ rfl
        rfl ⟨.busy k .serving, ?_, acc, hfd', ?_⟩
      · rw [List.mem_singleton.mp he]
      · dsimp only [Pool.turn]
        rw [hfd']
      · dsimp only [Pool.turn]
        rw [hfd', ofConn_append, ofConn_self]
        exact .started hbusy given
      · dsimp only [Pool.turn]
        rw [Function.update_self]
        exact rfl
  | serving | replying m | ended => exact absurd hb id

theorem drop {acc : Nat} (work : s.work i = .held acc) :
    (s.turn home i acc .idle .dropped).Inv home hands := by
  have hacc : (s.work i).acc? = some acc := by rw [work]; rfl
  obtain ⟨c, hfd⟩ := inv.held hacc
  obtain ⟨b, hbusy, hb⟩ := inv.session_busy hfd hacc
  rw [work] at hb
  cases b with
  | accepted =>
      refine inv.pass (k := i) .idle [⟨i, some (.conn c), .dropped⟩] hacc hfd
        (.inl rfl) nofun (fun e he => ?_) (Function.update_idem ..).symm ?_ rfl rfl
        ⟨.lost, ?_, home i, acc, hfd, fun j hj hjacc => ?_⟩
      · rw [List.mem_singleton.mp he]
      · dsimp only [Pool.turn]
        rw [hfd]
      · dsimp only [Pool.turn]
        rw [hfd, ofConn_append, ofConn_self]
        exact .dropped hbusy
      · obtain ⟨-, hnone⟩ | ⟨hne, hjacc⟩ := acc?_update hjacc
        · cases hnone
        · exact hne (inv.apart hj hjacc hacc)
  | serving | replying m | ended => exact absurd hb id

theorem recv (stack : Stack) (chunk : Chunk) {acc : Nat} (work : s.work i = .recv acc) :
    (s.turn home i acc (.send acc (format stack chunk)) (.received chunk.bytes)).Inv home
      hands := by
  refine inv.turn (.replying chunk.bytes) (by rw [work]; rfl) ⟨rfl, stack, chunk, rfl, rfl⟩ ?_
  intro b l hb h
  rw [work] at hb
  cases b with
  | serving => exact .received _ h
  | accepted | replying m | ended => exact absurd hb id

theorem recvFails {acc : Nat} (work : s.work i = .recv acc) :
    (s.turn home i acc (.close acc) .failed).Inv home hands := by
  refine inv.turn .ended (by rw [work]; rfl) rfl ?_
  intro b l hb h
  rw [work] at hb
  cases b with
  | serving => exact .recvFailed h
  | accepted | replying m | ended => exact absurd hb id

/-- The reply is the one to the chunk that was received. -/
theorem send {acc : Nat} {buf : Bytes} (work : s.work i = .send acc buf) :
    (s.turn home i acc (.recv acc) (.sent (buf.take (strlen buf)))).Inv home hands := by
  refine inv.turn .serving (by rw [work]; rfl) rfl ?_
  intro b l hb h
  rw [work] at hb
  cases b with
  | replying m =>
      obtain ⟨-, stack, chunk, rfl, rfl⟩ := hb
      exact .sent h fun hlt => by rw [take_strlen, cstr_format stack hlt]
  | accepted | serving | ended => exact absurd hb id

theorem sendFails {acc : Nat} {buf : Bytes} (work : s.work i = .send acc buf) :
    (s.turn home i acc (.close acc) .failed).Inv home hands := by
  refine inv.turn .ended (by rw [work]; rfl) rfl ?_
  intro b l hb h
  rw [work] at hb
  cases b with
  | replying m => exact .sendFailed h
  | accepted | serving | ended => exact absurd hb id

theorem close (work : s.work i = .close d) :
    Pool.Inv home hands { s.turn home i d .idle .closed with
      fds := Function.update s.fds (home i) (Function.update (s.fds (home i)) d none) } := by
  have hacc : (s.work i).acc? = some d := by rw [work]; rfl
  obtain ⟨c, hfd⟩ := inv.held hacc
  obtain ⟨b, hbusy, hb⟩ := inv.session_busy hfd hacc
  rw [work] at hb
  obtain rfl : b = .ended := by
    cases b with
    | ended => rfl
    | accepted | serving | replying m => exact absurd hb id
  dsimp only [Pool.turn]
  rw [hfd]
  have hconn : ∀ {p e c'},
      Function.update s.fds (home i) (Function.update (s.fds (home i)) d none) p e =
        some (.conn c') ↔ s.fds p e = some (.conn c') ∧ c' ≠ c :=
    conn_close hfd fun h => inv.one h hfd
  -- The worker that closes has nothing in hand any more.
  have hhas : ∀ {j e}, (Function.update s.work i .idle j).acc? = some e →
      j ≠ i ∧ (s.work j).acc? = some e :=
    fun {j e} h => (acc?_update h).resolve_left fun hidle => nomatch hidle.2
  constructor
  case one =>
    intro p q e f c' he hf
    exact inv.one (hconn.mp he).1 (hconn.mp hf).1
  case apart =>
    intro j l e hjl hj hl
    exact inv.apart hjl (hhas hj).2 (hhas hl).2
  case held =>
    intro j e hj
    obtain ⟨hne, hj'⟩ := hhas hj
    obtain ⟨c', hc'⟩ := inv.held hj'
    refine ⟨c', hconn.mpr ⟨hc', ?_⟩⟩
    rintro rfl
    obtain ⟨hhome, rfl⟩ := inv.one hc' hfd
    exact hne (inv.apart hhome hj' hacc)
  case old =>
    intro p e c' he
    exact inv.old (hconn.mp he).1
  case named =>
    intro e he
    obtain he | he := List.mem_append.mp he
    · exact inv.named e he
    · exact ⟨c, inv.old hfd, by rw [List.mem_singleton.mp he]⟩
  case sessions =>
    intro c'
    by_cases hc : c' = c
    · subst hc
      refine ⟨.closed, ?_, inv.old hfd, fun p ⟨e, he⟩ => (hconn.mp he).2 rfl⟩
      rw [ofConn_append, ofConn_self]
      exact .closed hbusy
    · obtain ⟨stage, hlife, hat⟩ := inv.sessions c'
      refine ⟨stage, ?_, hat.congr (fun p e => ?_) Iff.rfl ?_⟩
      · rw [ofConn_append_other (fun e he => by rw [List.mem_singleton.mp he]) hc]
        exact hlife
      · exact hconn.trans ⟨And.left, fun he => ⟨he, hc⟩⟩
      · intro j e he hor
        refine Function.update_of_ne ?_ ..
        rintro rfl
        obtain hold | hnew := hor
        · obtain rfl := Option.some.inj (hacc.symm.trans hold)
          exact hc (Desc.conn.inj (Option.some.inj (he.symm.trans hfd)))
        · exact absurd rfl (hhas hnew).1

/-- One step of any worker. -/
theorem step {a : Action} (given : ∀ i k, a = .start i k → hands i k)
    (hstep : s.step home a = some s') : s'.Inv home hands := by
  cases step_cases hstep with
  | accept idle free => exact inv.accept idle free
  | start work => exact inv.start (given _ _ rfl) work
  | give work same idle => exact inv.give (given _ _ rfl) work same idle
  | drop work => exact inv.drop work
  | recv work => exact inv.recv _ _ work
  | recvFails work => exact inv.recvFails work
  | send work => exact inv.send work
  | sendFails work => exact inv.sendFails work
  | close work => exact inv.close work

end Inv

theorem inv_init {fds : Nat → Table} (h : ∀ p d c, fds p d ≠ some (.conn c)) :
    (init fds).Inv home hands where
  one := fun he _ => absurd he (h _ _ _)
  apart := fun _ hj _ => nomatch hj
  held := fun hj => nomatch hj
  old := fun he => absurd he (h _ _ _)
  named := List.forall_mem_nil _
  sessions := fun c => ⟨.queued, .queued, Nat.zero_le c, fun p ⟨d, hd⟩ => h p d c hd⟩

/-! ### What a step changes -/

theorem accept_eq (h : s.accept home i d = some s') :
    s.work i = .idle ∧ LowestFree (s.fds (home i)) d ∧ s'.next = s.next + 1 ∧
      s'.work = Function.update s.work i (.held d) ∧
      s'.fds = Function.update s.fds (home i)
        (Function.update (s.fds (home i)) d (some (.conn s.next))) := by
  cases step_cases (a := .accept i d) h with
  | accept idle free => exact ⟨idle, free, rfl, rfl, rfl⟩

theorem start_self_eq (h : s.start home i i = some s') :
    ∃ d, s.work i = .held d ∧ s'.work = Function.update s.work i (.recv d) ∧ s'.fds = s.fds := by
  cases step_cases (a := .start i i) h with
  | start work => exact ⟨_, work, rfl, rfl⟩
  | give work same idle => cases work.symm.trans idle

theorem recv_eq {stack : Stack} {received : Received} (h : s.recv home i stack received = some s') :
    ∃ w, w.serving = true ∧ s'.work = Function.update s.work i w ∧ s'.fds = s.fds := by
  cases step_cases (a := .recv i stack received) h with
  | recv work => exact ⟨_, rfl, rfl, rfl⟩
  | recvFails work => exact ⟨_, rfl, rfl, rfl⟩

theorem send_eq {delivered : Bool} (h : s.send home i delivered = some s') :
    ∃ w, w.serving = true ∧ s'.work = Function.update s.work i w ∧ s'.fds = s.fds := by
  cases step_cases (a := .send i delivered) h with
  | send work => exact ⟨_, rfl, rfl, rfl⟩
  | sendFails work => exact ⟨_, rfl, rfl, rfl⟩

theorem close_eq (h : s.close home i = some s') :
    ∃ d, s.work i = .close d ∧ s'.work = Function.update s.work i .idle ∧
      s'.fds = Function.update s.fds (home i) (Function.update (s.fds (home i)) d none) := by
  cases step_cases (a := .close i) h with
  | close work => exact ⟨_, work, rfl, rfl⟩

theorem drop_eq (h : s.drop home i = some s') :
    ∃ d, s.work i = .held d ∧ s'.log = s.log ++ [⟨i, s.fds (home i) d, .dropped⟩] := by
  cases step_cases (a := .drop i) h with
  | drop work => exact ⟨_, work, rfl⟩

/-- Only `drop` forgets a descriptor, and only who takes over starts. -/
theorem step_log {a : Action} (h : s.step home a = some s') :
    ∃ entry, s'.log = s.log ++ [entry] ∧ (entry.kind = .dropped → ∃ i, a = .drop i) ∧
      (entry.kind = .started → ∃ i, a = .start i entry.worker) := by
  cases step_cases h with
  | accept => exact ⟨_, rfl, nofun, nofun⟩
  | start => exact ⟨_, rfl, nofun, fun _ => ⟨_, rfl⟩⟩
  | give => exact ⟨_, rfl, nofun, fun _ => ⟨_, rfl⟩⟩
  | drop => exact ⟨_, rfl, fun _ => ⟨_, rfl⟩, nofun⟩
  | recv => exact ⟨_, rfl, nofun, nofun⟩
  | recvFails => exact ⟨_, rfl, nofun, nofun⟩
  | send => exact ⟨_, rfl, nofun, nofun⟩
  | sendFails => exact ⟨_, rfl, nofun, nofun⟩
  | close => exact ⟨_, rfl, nofun, nofun⟩

/-- What was forgotten is nobody's, and stays so. -/
theorem lost_iff_dropped {l : List (Nat × Kind)} (h : Session hands l stage) :
    stage = .lost ↔ ∃ i, (i, Kind.dropped) ∈ l := by
  -- Whoever is busy with a connection has not forgotten it.
  have hnext : ∀ {l : List (Nat × Kind)} {i j : Nat} {b : Busy} {kind : Kind} {stage : Stage},
      kind ≠ .dropped → stage ≠ .lost → (Stage.busy i b = .lost ↔ ∃ i, (i, Kind.dropped) ∈ l) →
      (stage = .lost ↔ ∃ i, (i, Kind.dropped) ∈ l ++ [(j, kind)]) := by
    intro l i j b kind stage hkind hstage ih
    refine iff_of_false hstage fun ⟨k, hk⟩ => ?_
    obtain hk | hk := List.mem_append.mp hk
    · cases ih.mpr ⟨k, hk⟩
    · exact hkind (Prod.mk.inj (List.mem_singleton.mp hk)).2.symm
  induction h with
  | queued => exact ⟨nofun, fun ⟨i, hi⟩ => nomatch hi⟩
  | accepted i => exact ⟨nofun, fun ⟨j, hj⟩ => nomatch List.mem_singleton.mp hj⟩
  | dropped h => exact ⟨fun _ => ⟨_, List.mem_append_right _ List.mem_cons_self⟩, fun _ => rfl⟩
  | started h given ih => exact hnext Kind.noConfusion Stage.noConfusion ih
  | received m h ih => exact hnext Kind.noConfusion Stage.noConfusion ih
  | sent h reply ih => exact hnext Kind.noConfusion Stage.noConfusion ih
  | recvFailed h ih => exact hnext Kind.noConfusion Stage.noConfusion ih
  | sendFailed h ih => exact hnext Kind.noConfusion Stage.noConfusion ih
  | closed h ih => exact hnext Kind.noConfusion Stage.noConfusion ih

theorem mem_ofConn {log : List Entry} {kind : Kind} :
    (i, kind) ∈ ofConn c log ↔ (⟨i, some (.conn c), kind⟩ : Entry) ∈ log := by
  rw [ofConn, List.mem_filterMap]
  constructor
  · rintro ⟨e, he, heq⟩
    split at heq
    · rename_i hdesc
      obtain ⟨rfl, rfl⟩ := Prod.mk.inj (Option.some.inj heq)
      rw [← hdesc]
      exact he
    · cases heq
  · intro h
    exact ⟨_, h, if_pos rfl⟩

/-- The connections that are open and nobody's are the forgotten ones. -/
theorem Inv.lost_iff (inv : s.Inv home hands) (c : ConnId) :
    s.At home c .lost ↔ ∃ i, (i, Kind.dropped) ∈ ofConn c s.log := by
  obtain ⟨stage, hlife, hat⟩ := inv.sessions c
  rw [← lost_iff_dropped hlife]
  constructor
  · rintro ⟨p, d, hd, hnobody⟩
    cases stage with
    | queued => exact absurd ⟨d, hd⟩ (hat.2 p)
    | closed => exact absurd ⟨d, hd⟩ (hat.2 p)
    | lost => rfl
    | busy i b =>
        obtain ⟨e, he, hfits⟩ := hat
        obtain ⟨rfl, rfl⟩ := inv.one he hd
        exact absurd hfits.acc?_eq (hnobody i rfl)
  · rintro rfl
    exact hat

/-- Tables that end keep to it. -/
def Finite (s : Pool) : Prop := ∀ p, ∃ m, ∀ d, m ≤ d → s.fds p d = none

theorem Finite.exists_lowestFree (h : s.Finite) (p : Nat) : ∃ d, LowestFree (s.fds p) d := by
  obtain ⟨m, hm⟩ := h p
  exact Kernel.exists_lowestFree ⟨m, hm m (Nat.le_refl m)⟩

theorem Finite.update (h : s.Finite) {p d : Nat} {x : Option Desc}
    (hfds : s'.fds = Function.update s.fds p (Function.update (s.fds p) d x)) : s'.Finite := by
  intro q
  obtain ⟨m, hm⟩ := h q
  refine ⟨max m (d + 1), fun e he => ?_⟩
  rw [hfds, update_table, if_neg]
  · exact hm e (Nat.le_trans (Nat.le_max_left _ _) he)
  · rintro ⟨-, rfl⟩
    exact absurd (Nat.le_trans (Nat.le_max_right _ _) he) (Nat.not_succ_le_self _)

end Pool

end NetworkProgram.Workers
