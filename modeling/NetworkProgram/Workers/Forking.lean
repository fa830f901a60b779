import NetworkProgram.Echo.Host

set_option autoImplicit false

/-!
# Workers: `accept_loop` of `server5.c` and `server_main` of `httpd2.c`

The parent accepts and forks a child for each connection.  A child begins with a copy of
the parent's descriptors, and a connection is open as long as any process has it.  The
child of `server5.c` closes the listening socket and in the end its connection; the child of
`httpd2.c` leaves both to `exit`.  Where `accept` or `fork` fails `server5.c` goes on, and
`httpd2.c` ends.  A signal may end any of them at any time.
-/

namespace NetworkProgram.Workers.Forking

open NetworkProgram.Echo
open NetworkProgram.Foundation
open NetworkProgram.Kernel

structure Program where
  /-- The child closes the listening socket, and behind `send_recv_loop` its connection. -/
  closes : Bool
  /-- A failing `accept` or `fork` ends the parent. -/
  ends : Bool

def server5 : Program where
  closes := true
  ends := false

def httpd2 : Program where
  closes := false
  ends := true

/-- Where the parent stands. -/
inductive Pc
  | accept
  | fork (acc : Nat)
  | close (acc : Nat)
  | gone
  deriving DecidableEq, Repr

inductive ChildPc
  | closeSoc
  /-- `send_recv_loop`, or `service` -/
  | serve
  | closeAcc
  | exit
  deriving DecidableEq, Repr

structure Child where
  table : Table
  acc : Nat
  /-- The connection that it was forked for. -/
  conn : ConnId
  pc : ChildPc

structure State where
  parent : Table
  pc : Pc
  children : Nat → Option Child
  /-- The number of connections accepted so far. -/
  next : ConnId

inductive Action
  | accept (result : Option Nat)
  | fork (result : Option Nat)
  | close
  /-- The next step of a child. -/
  | child (pid : Nat)
  /-- A signal ends a child, or the parent. -/
  | kill (pid : Nat)
  | stop

def State.accept (p : Program) (s : State) : Option Nat → Option State
  | none =>
      if s.pc = .accept then some { s with pc := if p.ends then .gone else .accept } else none
  | some acc =>
      if s.pc = .accept ∧ LowestFree s.parent acc then
        some { s with
          parent := Function.update s.parent acc (some (.conn s.next))
          pc := .fork acc
          next := s.next + 1 }
      else none

/-- The process that `fork` makes in the parent. -/
def State.copy (p : Program) (s : State) (acc : Nat) : Child where
  table := s.parent
  acc := acc
  conn := s.next - 1
  pc := if p.closes then .closeSoc else .serve

def State.fork (p : Program) (s : State) (result : Option Nat) : Option State :=
  match s.pc, result with
  | .fork acc, none => some { s with pc := if p.ends then .gone else .close acc }
  | .fork acc, some pid =>
      if s.children pid = none then
        some { s with
          children := Function.update s.children pid (some (s.copy p acc))
          pc := .close acc }
      else none
  | _, _ => none

def State.close (s : State) : Option State :=
  match s.pc with
  | .close acc => some { s with parent := Function.update s.parent acc none, pc := .accept }
  | _ => none

/-- What a child does next; none when it ends. -/
def Child.next (p : Program) (soc : Nat) (child : Child) : Option Child :=
  match child.pc with
  | .closeSoc => some { child with table := Function.update child.table soc none, pc := .serve }
  | .serve => some { child with pc := if p.closes then .closeAcc else .exit }
  | .closeAcc =>
      some { child with table := Function.update child.table child.acc none, pc := .exit }
  | .exit => none

def step (p : Program) (soc : Nat) (s : State) : Action → Option State
  | .accept result => s.accept p result
  | .fork result => s.fork p result
  | .close => s.close
  | .child pid =>
      match s.children pid with
      | none => none
      | some child =>
          some { s with children := Function.update s.children pid (child.next p soc) }
  | .kill pid => some { s with children := Function.update s.children pid none }
  | .stop => some { s with pc := .gone }

def init (k : Listener) : State where
  parent := k.table
  pc := .accept
  children := fun _ => none
  next := 0

/-- The descriptors of some process are so. -/
def State.Somewhere (s : State) (P : Table → Prop) : Prop :=
  (s.pc ≠ .gone ∧ P s.parent) ∨ ∃ pid child, s.children pid = some child ∧ P child.table

/-! ## The tables -/

/-- The descriptors of a process that handles connection `c`. -/
def Handling (k : Listener) (acc : Nat) (c : ConnId) : Table :=
  Function.update k.table acc (some (.conn c))

/-- The descriptors of a child. -/
def Child.expected (p : Program) (k : Listener) (child : Child) : Table :=
  let table := Handling k child.acc child.conn
  match child.pc with
  | .closeSoc => table
  | .serve => if p.closes then Function.update table k.soc none else table
  | .closeAcc => Function.update table k.soc none
  | .exit =>
      if p.closes then Function.update (Function.update table k.soc none) child.acc none else table

structure Inv (p : Program) (k : Listener) (s : State) : Prop where
  idle : s.pc = .accept → s.parent = k.table
  busy : ∀ acc, s.pc = .fork acc ∨ s.pc = .close acc →
    ∃ c, s.next = c + 1 ∧ k.table acc = none ∧ s.parent = Handling k acc c
  child : ∀ pid child, s.children pid = some child →
    child.conn < s.next ∧ k.table child.acc = none ∧ child.table = child.expected p k ∧
      (p.closes = false → child.pc = .serve ∨ child.pc = .exit)
  alone : ∀ pid qid child other, s.children pid = some child → s.children qid = some other →
    child.conn = other.conn → pid = qid
  unborn : ∀ acc, s.pc = .fork acc →
    ∀ pid child, s.children pid = some child → child.conn + 1 < s.next

namespace Inv

variable {p : Program} {k : Listener} {s t : State}

theorem init (p : Program) (k : Listener) : Inv p k (init k) where
  idle := fun _ => rfl
  busy := fun _ h => by rcases h with h | h <;> cases h
  child := fun _ _ h => by cases h
  alone := fun _ _ _ _ h => by cases h
  unborn := fun _ h => by cases h

/-- The parent goes on, with what it has in hand. -/
theorem goto (h : Inv p k s) {pc : Pc} (hidle : pc ≠ .accept)
    (hbusy : ∀ acc, pc = .fork acc ∨ pc = .close acc → s.pc = .fork acc ∨ s.pc = .close acc)
    (hfork : ∀ acc, pc ≠ .fork acc) : Inv p k { s with pc := pc } where
  idle := fun hpc => absurd hpc hidle
  busy := fun acc hpc => h.busy acc (hbusy acc hpc)
  child := h.child
  alone := h.alone
  unborn := fun acc hpc => absurd hpc (hfork acc)

/-- A child that ends, or goes on. -/
theorem update (h : Inv p k s) {pid : Nat} {child : Child} (hchild : s.children pid = some child)
    {new : Option Child} (hnew : ∀ c ∈ new, c.conn = child.conn ∧ c.acc = child.acc ∧
      c.table = c.expected p k ∧ (p.closes = false → c.pc = .serve ∨ c.pc = .exit)) :
    Inv p k { s with children := Function.update s.children pid new } where
  idle := h.idle
  busy := h.busy
  child := fun qid other hother => by
    dsimp only at hother ⊢
    rcases eq_or_ne qid pid with rfl | hne
    · rw [Function.update_self] at hother
      obtain ⟨hconn, hacc, htable, hpc⟩ := hnew other hother
      obtain ⟨hlt, hfree, -, -⟩ := h.child qid child hchild
      exact ⟨hconn ▸ hlt, hacc ▸ hfree, htable, hpc⟩
    · rw [Function.update_of_ne hne] at hother
      exact h.child qid other hother
  alone := by
    have hold : ∀ qid other, Function.update s.children pid new qid = some other →
        ∃ old, s.children qid = some old ∧ old.conn = other.conn := by
      intro qid other hother
      rcases eq_or_ne qid pid with rfl | hne
      · rw [Function.update_self] at hother
        exact ⟨child, hchild, (hnew other hother).1.symm⟩
      · rw [Function.update_of_ne hne] at hother
        exact ⟨other, hother, rfl⟩
    intro qid rid child' other hqid hrid hconn
    obtain ⟨a, ha, haConn⟩ := hold qid child' hqid
    obtain ⟨b, hb, hbConn⟩ := hold rid other hrid
    exact h.alone qid rid a b ha hb (haConn.trans (hconn.trans hbConn.symm))
  unborn := fun acc hpc qid other hother => by
    dsimp only at hother ⊢
    rcases eq_or_ne qid pid with rfl | hne
    · rw [Function.update_self] at hother
      rw [(hnew other hother).1]
      exact h.unborn acc hpc qid child hchild
    · rw [Function.update_of_ne hne] at hother
      exact h.unborn acc hpc qid other hother

theorem accept (h : Inv p k s) {result : Option Nat} (hstep : s.accept p result = some t) :
    Inv p k t := by
  cases result with
  | none =>
      obtain ⟨hpc, rfl⟩ := Option.ite_some_none_eq_some.mp hstep
      cases p.ends with
      | true =>
          exact h.goto Pc.noConfusion
            (fun acc hacc => by rcases hacc with hacc | hacc <;> cases hacc)
            fun acc => Pc.noConfusion
      | false =>
          have hsame : ({ s with pc := if false = true then .gone else .accept } : State) = s := by
            rw [if_neg Bool.false_ne_true, ← hpc]
          exact hsame ▸ h
  | some acc =>
      obtain ⟨⟨hpc, hfree⟩, rfl⟩ := Option.ite_some_none_eq_some.mp hstep
      have hparent := h.idle hpc
      rw [hparent] at hfree
      refine ⟨Pc.noConfusion, fun d hd => ?_, fun pid child hchild => ?_, h.alone, ?_⟩
      · obtain rfl : acc = d := by
          rcases hd with hd | hd
          · exact Pc.fork.inj hd
          · cases hd
        exact ⟨s.next, rfl, hfree.1, by rw [hparent]; rfl⟩
      · obtain ⟨hlt, hrest⟩ := h.child pid child hchild
        exact ⟨Nat.lt_succ_of_lt hlt, hrest⟩
      · exact fun _ _ pid child hchild => Nat.succ_lt_succ (h.child pid child hchild).1

theorem fork (h : Inv p k s) {result : Option Nat} (hstep : s.fork p result = some t) :
    Inv p k t := by
  unfold State.fork at hstep
  split at hstep
  · rename_i acc hpc
    obtain rfl := Option.some.inj hstep
    refine h.goto ?_ (fun d hd => ?_) fun d => ?_
    · split <;> exact Pc.noConfusion
    · split at hd
      · rcases hd with hd | hd <;> cases hd
      · rcases hd with hd | hd
        · cases hd
        · exact .inl (Pc.close.inj hd ▸ hpc)
    · split <;> exact Pc.noConfusion
  · rename_i acc pid hpc
    obtain ⟨hnew, rfl⟩ := Option.ite_some_none_eq_some.mp hstep
    obtain ⟨c, hnext, hfree, hparent⟩ := h.busy acc (.inl hpc)
    have hconn : (s.copy p acc).conn = c := by
      rw [State.copy, hnext]
      rfl
    have hcopy : (s.copy p acc).conn < s.next ∧ k.table (s.copy p acc).acc = none ∧
        (s.copy p acc).table = (s.copy p acc).expected p k ∧
        (p.closes = false → (s.copy p acc).pc = .serve ∨ (s.copy p acc).pc = .exit) := by
      refine ⟨by rw [hconn, hnext]; exact Nat.lt_succ_self c, hfree, ?_, fun hcloses => ?_⟩
      · rw [Child.expected, hconn]
        cases hcloses : p.closes with
        | true => simp [State.copy, hcloses, hparent]
        | false => simp [State.copy, hcloses, hparent]
      · simp [State.copy, hcloses]
    have hother : ∀ qid other, s.children qid = some other → other.conn ≠ (s.copy p acc).conn := by
      intro qid other hqid heq
      have hlt := h.unborn acc hpc qid other hqid
      rw [heq, hconn, hnext] at hlt
      exact Nat.lt_irrefl _ hlt
    refine ⟨Pc.noConfusion, fun d hd => h.busy d (.inl ?_), fun qid child hchild => ?_, ?_,
      fun _ hd => by cases hd⟩
    · rcases hd with hd | hd
      · cases hd
      · exact Pc.close.inj hd ▸ hpc
    · dsimp only at hchild ⊢
      rcases eq_or_ne qid pid with rfl | hne
      · rw [Function.update_self] at hchild
        exact Option.some.inj hchild ▸ hcopy
      · rw [Function.update_of_ne hne] at hchild
        exact h.child qid child hchild
    · intro qid rid child other hqid hrid heq
      dsimp only at hqid hrid
      by_cases hq : qid = pid
      · by_cases hr : rid = pid
        · exact hq.trans hr.symm
        · rw [hq, Function.update_self] at hqid
          rw [Function.update_of_ne hr] at hrid
          obtain rfl := Option.some.inj hqid
          exact absurd heq.symm (hother rid other hrid)
      · rw [Function.update_of_ne hq] at hqid
        by_cases hr : rid = pid
        · rw [hr, Function.update_self] at hrid
          obtain rfl := Option.some.inj hrid
          exact absurd heq (hother qid child hqid)
        · rw [Function.update_of_ne hr] at hrid
          exact h.alone qid rid child other hqid hrid heq
  · cases hstep

theorem close (h : Inv p k s) (hstep : s.close = some t) : Inv p k t := by
  unfold State.close at hstep
  split at hstep
  · rename_i acc hpc
    obtain rfl := Option.some.inj hstep
    obtain ⟨c, -, hfree, hparent⟩ := h.busy acc (.inr hpc)
    have hback : Function.update s.parent acc none = k.table := by
      rw [hparent, Handling, Function.update_idem, ← hfree, Function.update_eq_self]
    exact
      { idle := fun _ => hback
        busy := fun d hd => by rcases hd with hd | hd <;> cases hd
        child := h.child
        alone := h.alone
        unborn := fun d hd => by cases hd }
  · cases hstep

/-- A child goes on in the way its place says. -/
theorem childStep (h : Inv p k s) {pid : Nat} {child : Child}
    (hchild : s.children pid = some child) :
    Inv p k { s with children := Function.update s.children pid (child.next p k.soc) } := by
  obtain ⟨-, -, htable, hserves⟩ := h.child pid child hchild
  refine h.update hchild fun new hnew => ?_
  obtain ⟨table, acc, conn, pc⟩ := child
  dsimp only [Child.expected] at htable hserves
  subst htable
  cases pc with
  | closeSoc =>
      cases hnew
      cases hcloses : p.closes with
      | true => exact ⟨rfl, rfl, by simp [Child.expected, hcloses], fun hno => by cases hno⟩
      | false => rcases hserves hcloses with hpc | hpc <;> cases hpc
  | serve =>
      cases hnew
      cases hcloses : p.closes with
      | true => exact ⟨rfl, rfl, by simp [Child.expected], fun hno => by cases hno⟩
      | false => exact ⟨rfl, rfl, by simp [Child.expected, hcloses], fun _ => .inr rfl⟩
  | closeAcc =>
      cases hnew
      cases hcloses : p.closes with
      | true => exact ⟨rfl, rfl, by simp [Child.expected, hcloses], fun hno => by cases hno⟩
      | false => rcases hserves hcloses with hpc | hpc <;> cases hpc
  | exit => cases hnew

theorem step (h : Inv p k s) {a : Action} (hstep : step p k.soc s a = some t) : Inv p k t := by
  cases a with
  | accept result => exact h.accept hstep
  | fork result => exact h.fork hstep
  | close => exact h.close hstep
  | child pid =>
      dsimp only [Forking.step] at hstep
      split at hstep
      · cases hstep
      · rename_i hchild
        obtain rfl := Option.some.inj hstep
        exact h.childStep hchild
  | kill pid =>
      obtain rfl := Option.some.inj hstep
      cases hchild : s.children pid with
      | none =>
          have hsame : Function.update s.children pid none = s.children := by
            rw [← hchild, Function.update_eq_self]
          rw [hsame]
          exact h
      | some child => exact h.update hchild fun _ hnew => by cases hnew
  | stop =>
      obtain rfl := Option.some.inj hstep
      exact h.goto Pc.noConfusion (fun acc hacc => by rcases hacc with hacc | hacc <;> cases hacc)
        fun acc => Pc.noConfusion

theorem of_reaches (run : Reaches (Forking.step p k.soc) (Forking.init k) s) : Inv p k s :=
  run.invariant (init p k) fun _ _ _ h hstep => h.step hstep

end Inv

/-! ## What is open -/

section Open

variable {p : Program} {k : Listener} {s : State} {acc : Nat} {c e : ConnId}

theorem open_handling (hfree : k.table acc = none) : (Handling k acc c).Open e ↔ e = c := by
  rw [Handling, Table.open_accept hfree]
  refine ⟨fun h => h.resolve_right ?_, .inl⟩
  rintro ⟨d, hd⟩
  exact k.noConn d e hd

theorem handling_soc (hfree : k.table acc = none) :
    Handling k acc c k.soc = some .listening := by
  have hne : k.soc ≠ acc := by
    rintro rfl
    rw [k.soc_listening] at hfree
    cases hfree
  rw [Handling, Function.update_of_ne hne, k.soc_listening]

/-- Closing the listening socket leaves the connection. -/
theorem open_closeSoc (hfree : k.table acc = none) :
    Table.Open (Function.update (Handling k acc c) k.soc none) e ↔ e = c := by
  rw [Table.open_close_other, open_handling hfree]
  intro d hd
  rw [handling_soc hfree] at hd
  cases hd

theorem not_open_closed :
    ¬ Table.Open (Function.update (Function.update (Handling k acc c) k.soc none) acc none) e := by
  rintro ⟨d, hd⟩
  rcases eq_or_ne d acc with rfl | hacc
  · rw [Function.update_self] at hd
    cases hd
  · rw [Function.update_of_ne hacc] at hd
    rcases eq_or_ne d k.soc with rfl | hsoc
    · rw [Function.update_self] at hd
      cases hd
    · rw [Function.update_of_ne hsoc, Handling, Function.update_of_ne hacc] at hd
      exact k.noConn d e hd

/-- A child has its own connection, until it closes it. -/
theorem open_expected {child : Child} (hfree : k.table child.acc = none)
    (hserves : p.closes = false → child.pc = .serve ∨ child.pc = .exit) :
    (child.expected p k).Open e ↔ child.conn = e ∧ (p.closes = true → child.pc ≠ .exit) := by
  obtain ⟨table, acc, conn, pc⟩ := child
  dsimp only [Child.expected] at hfree hserves ⊢
  cases hcloses : p.closes with
  | true =>
      cases pc with
      | closeSoc => simp [open_handling hfree, eq_comm]
      | serve => simp [open_closeSoc hfree, eq_comm]
      | closeAcc => simp [open_closeSoc hfree, eq_comm]
      | exit => simp [not_open_closed]
  | false =>
      rcases hserves hcloses with rfl | rfl
      · simp [open_handling hfree, eq_comm]
      · simp [open_handling hfree, eq_comm]

/-- And the listening socket, until it closes that. -/
theorem expected_soc {child : Child} (hfree : k.table child.acc = none)
    (hserves : p.closes = false → child.pc = .serve ∨ child.pc = .exit) :
    child.expected p k k.soc = some .listening ↔ (p.closes = true → child.pc = .closeSoc) := by
  obtain ⟨table, acc, conn, pc⟩ := child
  have hsoc := handling_soc (c := conn) hfree
  have hne : k.soc ≠ acc := by
    rintro rfl
    rw [k.soc_listening] at hfree
    cases hfree
  dsimp only [Child.expected] at hserves hsoc ⊢
  cases hcloses : p.closes with
  | true =>
      cases pc with
      | closeSoc => simp [hsoc]
      | serve => simp
      | closeAcc => simp
      | exit => simp [hne]
  | false =>
      rcases hserves hcloses with rfl | rfl
      · simp [hsoc]
      · simp [hsoc]

theorem open_parent (h : Inv p k s) (hacc : s.pc = .fork acc ∨ s.pc = .close acc) {pc : Pc}
    (hbusy : ∃ d, pc = .fork d ∨ pc = .close d) (hrunning : pc ≠ .gone) :
    (pc ≠ .gone ∧ s.parent.Open e) ↔
      (s.next = e + 1 ∧ ∃ d, pc = .fork d ∨ pc = .close d) := by
  obtain ⟨c, hnext, hfree, hparent⟩ := h.busy acc hacc
  rw [hparent, open_handling hfree, hnext]
  constructor
  · rintro ⟨-, rfl⟩
    exact ⟨rfl, hbusy⟩
  · rintro ⟨heq, -⟩
    exact ⟨hrunning, (Nat.succ.inj heq).symm⟩

/-- A connection is open exactly while the parent has it in hand or its own child serves it:
its client meets the end as soon as that child is done, whatever the others do.  No two
children have one connection, and between two of them the parent is as it was started. -/
theorem forked_open_iff (run : Reaches (step p k.soc) (init k) s) :
    (∀ c, s.Somewhere (Table.Open · c) ↔
      (s.next = c + 1 ∧ ∃ acc, s.pc = .fork acc ∨ s.pc = .close acc) ∨
        ∃ pid child, s.children pid = some child ∧ child.conn = c ∧
          (p.closes = true → child.pc ≠ .exit)) ∧
      (∀ pid qid child other, s.children pid = some child → s.children qid = some other →
        child.conn = other.conn → pid = qid) ∧
      (s.pc = .accept → s.parent = k.table) := by
  have h := Inv.of_reaches run
  refine ⟨fun c => or_congr ?_ ?_, h.alone, h.idle⟩
  · cases hpc : s.pc with
    | accept =>
        refine iff_of_false ?_ ?_
        · rintro ⟨-, d, hd⟩
          rw [h.idle hpc] at hd
          exact k.noConn d c hd
        · rintro ⟨-, acc, hacc | hacc⟩ <;> cases hacc
    | gone =>
        refine iff_of_false (fun hopen => hopen.1 rfl) ?_
        rintro ⟨-, acc, hacc | hacc⟩ <;> cases hacc
    | fork acc => exact open_parent h (.inl hpc) ⟨acc, .inl rfl⟩ Pc.noConfusion
    | close acc => exact open_parent h (.inr hpc) ⟨acc, .inr rfl⟩ Pc.noConfusion
  · refine exists_congr fun pid => exists_congr fun child => and_congr_right fun hchild => ?_
    obtain ⟨-, hfree, htable, hserves⟩ := h.child pid child hchild
    rw [htable]
    exact open_expected hfree hserves

/-- The parent of `httpd2.c` has forked a child for its first connection. -/
def oneChild : List Action := [.accept (some 4), .fork (some 1), .close]

/-- As in `server5.c`, where the child serves its connection to the end. -/
def oneServed : List Action := oneChild ++ [.child 1, .child 1, .child 1]

/-- In `httpd2.c` the connection is open as long as the child runs; in `server5.c` it is closed
although the child has not yet exited. -/
theorem forked_open_oneChild :
    (∃ s, Reaches (step httpd2 3) (init .plain) s ∧ s.pc = .accept ∧
      s.parent = Listener.plain.table ∧ s.Somewhere (Table.Open · 0)) ∧
    ∃ s, Reaches (step server5 3) (init .plain) s ∧ s.pc = .accept ∧
      s.parent = Listener.plain.table ∧ (s.children 1).isSome ∧
      ¬ s.Somewhere (Table.Open · 0) := by
  constructor
  · have hrun : (exec (step httpd2 3) (init .plain) oneChild).map
        (fun s => (s.pc, (s.children 1).map fun child => (child.conn, child.pc))) =
          some (.accept, some (0, .serve)) := by
      decide +kernel
    obtain ⟨s, hexec, hs⟩ := Option.map_eq_some_iff.mp hrun
    obtain ⟨hpc, hchildren⟩ := Prod.mk.inj hs
    obtain ⟨child, hchild, hconn⟩ := Option.map_eq_some_iff.mp hchildren
    have run : Reaches (step httpd2 Listener.plain.soc) (init .plain) s := .of_exec hexec
    obtain ⟨hopen, -, hidle⟩ := forked_open_iff run
    refine ⟨s, run, hpc, hidle hpc, (hopen 0).mpr (.inr ⟨1, child, hchild, ?_, ?_⟩)⟩
    · exact congrArg Prod.fst hconn
    · exact fun hcloses => by cases hcloses
  · have hrun : (exec (step server5 3) (init .plain) oneServed).map
        (fun s => (s.pc, (s.children 1).map fun child => (child.conn, child.pc))) =
          some (.accept, some (0, .exit)) := by
      decide +kernel
    obtain ⟨s, hexec, hs⟩ := Option.map_eq_some_iff.mp hrun
    obtain ⟨hpc, hchildren⟩ := Prod.mk.inj hs
    obtain ⟨child, hchild, hstands⟩ := Option.map_eq_some_iff.mp hchildren
    obtain ⟨hconn, hexit⟩ := Prod.mk.inj hstands
    have run : Reaches (step server5 Listener.plain.soc) (init .plain) s := .of_exec hexec
    obtain ⟨hopen, halone, hidle⟩ := forked_open_iff run
    refine ⟨s, run, hpc, hidle hpc, by rw [hchild]; rfl, fun h => ?_⟩
    obtain ⟨-, acc, hacc | hacc⟩ | ⟨pid, other, hother, hzero, hruns⟩ := (hopen 0).mp h
    · cases hpc.symm.trans hacc
    · cases hpc.symm.trans hacc
    · obtain rfl := halone pid 1 other child hother hchild (hzero.trans hconn.symm)
      obtain rfl := Option.some.inj (hother.symm.trans hchild)
      exact hruns rfl hexit

/-- The port is taken exactly while the parent runs or a child has the listening socket: in
`httpd2.c` any child that runs, in `server5.c` only one that has not begun. -/
theorem forked_listening_iff (run : Reaches (step p k.soc) (init k) s) :
    s.Somewhere (fun table => table k.soc = some .listening) ↔
      s.pc ≠ .gone ∨ ∃ pid child, s.children pid = some child ∧
        (p.closes = true → child.pc = .closeSoc) := by
  have h := Inv.of_reaches run
  refine or_congr ⟨And.left, fun hrunning => ⟨hrunning, ?_⟩⟩ ?_
  · cases hpc : s.pc with
    | accept => rw [h.idle hpc, k.soc_listening]
    | gone => exact absurd hpc hrunning
    | fork acc =>
        obtain ⟨c, -, hfree, hparent⟩ := h.busy acc (.inl hpc)
        rw [hparent, handling_soc hfree]
    | close acc =>
        obtain ⟨c, -, hfree, hparent⟩ := h.busy acc (.inr hpc)
        rw [hparent, handling_soc hfree]
  · refine exists_congr fun pid => exists_congr fun child => and_congr_right fun hchild => ?_
    obtain ⟨-, hfree, htable, hserves⟩ := h.child pid child hchild
    rw [htable]
    exact expected_soc hfree hserves

/-- Its parent has ended, and nobody will accept what still comes in at its port. -/
theorem forked_listening_orphan : ∃ s, Reaches (step httpd2 3) (init .plain) s ∧
    s.pc = .gone ∧ s.Somewhere (fun table => table 3 = some .listening) := by
  have hrun : (exec (step httpd2 3) (init .plain) (oneChild ++ [.stop])).map
      (fun s => (s.pc, (s.children 1).isSome)) = some (.gone, true) := by
    decide +kernel
  obtain ⟨s, hexec, hs⟩ := Option.map_eq_some_iff.mp hrun
  obtain ⟨hpc, hchildren⟩ := Prod.mk.inj hs
  obtain ⟨child, hchild⟩ := Option.isSome_iff_exists.mp hchildren
  have run : Reaches (step httpd2 Listener.plain.soc) (init .plain) s := .of_exec hexec
  refine ⟨s, run, hpc, (forked_listening_iff run).mpr (.inr ⟨1, child, hchild, ?_⟩)⟩
  exact fun hcloses => by cases hcloses

end Open

end NetworkProgram.Workers.Forking
