import NetworkProgram.Foundation.Runs

set_option autoImplicit false

/-!
# Server9: how the send threads get their queues

The loop of `main` that makes one `send_thread` for each queue, in `server9.c` and in
`server9bug.c`.  The one passes the index by value, the other the address of its loop
variable, which the thread reads when it comes to run.  `maxSender` is any number here, and
`pthread_create` succeeds.
-/

namespace NetworkProgram.Server9.Starting

open NetworkProgram.Foundation

/-- A `send_thread`. -/
inductive Thread
  /-- Not made yet. -/
  | absent
  /-- Made, and has not read its argument. -/
  | made
  /-- Serves queue `qi`. -/
  | serves (qi : Nat)
  deriving DecidableEq, Repr

structure State where
  /-- The loop variable. -/
  i : Nat
  /-- `pthread_create` was called with it. -/
  created : Bool
  /-- The threads in the order in which they were made. -/
  threads : Nat → Thread

inductive Action
  | create
  /-- `i++` -/
  | next
  /-- Thread `k` reads its argument. -/
  | read (k : Nat)
  deriving DecidableEq, Repr

/-- `byValue` is `server9.c`. -/
def step (byValue : Bool) (maxSender : Nat) (s : State) : Action → Option State
  | .create =>
      if s.i < maxSender ∧ s.created = false then
        some { s with
          created := true
          threads := Function.update s.threads s.i (if byValue then .serves s.i else .made) }
      else none
  | .next => if s.created = true then some { s with i := s.i + 1, created := false } else none
  | .read k =>
      if s.threads k = .made then
        some { s with threads := Function.update s.threads k (.serves s.i) }
      else none

def init : State where
  i := 0
  created := false
  threads := fun _ => .absent

structure Inv (byValue : Bool) (maxSender : Nat) (s : State) : Prop where
  le : s.i ≤ maxSender
  room : s.created = true → s.i < maxSender
  made : ∀ k, s.threads k ≠ .absent → k < s.i ∨ (k = s.i ∧ s.created = true)
  index : ∀ k qi, s.threads k = .serves qi → k ≤ qi ∧ qi ≤ s.i ∧ (byValue = true → qi = k)
  value : byValue = true → ∀ k, s.threads k ≠ .made

variable {byValue : Bool} {maxSender : Nat} {s t : State}

theorem Inv.init (byValue : Bool) (maxSender : Nat) : Inv byValue maxSender init where
  le := Nat.zero_le _
  room := fun h => by cases h
  made := fun _ h => absurd rfl h
  index := fun _ _ h => by cases h
  value := fun _ _ h => by cases h

theorem Inv.step (h : Inv byValue maxSender s) {a : Action}
    (hstep : step byValue maxSender s a = some t) : Inv byValue maxSender t := by
  cases a with
  | create =>
      obtain ⟨⟨hlt, hnew⟩, rfl⟩ := Option.ite_some_none_eq_some.mp hstep
      refine ⟨h.le, fun _ => hlt, fun k hk => ?_, fun k qi hk => ?_, fun hvalue k => ?_⟩
      · rcases eq_or_ne k s.i with rfl | hne
        · exact .inr ⟨rfl, rfl⟩
        · dsimp only at hk
          rw [Function.update_of_ne hne] at hk
          refine (h.made k hk).imp_right fun heq => ?_
          exact absurd heq.1 hne
      · dsimp only at hk ⊢
        rcases eq_or_ne k s.i with rfl | hne
        · rw [Function.update_self] at hk
          split at hk
          · obtain rfl := Thread.serves.inj hk
            exact ⟨Nat.le_refl _, Nat.le_refl _, fun _ => rfl⟩
          · cases hk
        · rw [Function.update_of_ne hne] at hk
          exact h.index k qi hk
      · dsimp only
        rcases eq_or_ne k s.i with rfl | hne
        · rw [Function.update_self, if_pos hvalue]
          exact Thread.noConfusion
        · rw [Function.update_of_ne hne]
          exact h.value hvalue k
  | next =>
      obtain ⟨hcreated, rfl⟩ := Option.ite_some_none_eq_some.mp hstep
      refine ⟨h.room hcreated, (fun hno => by cases hno), fun k hk => ?_, fun k qi hk => ?_,
        h.value⟩
      · refine .inl ?_
        rcases h.made k hk with hlt | ⟨rfl, -⟩
        · exact Nat.lt_succ_of_lt hlt
        · exact Nat.lt_succ_self _
      · obtain ⟨hle, hi, hvalue⟩ := h.index k qi hk
        exact ⟨hle, Nat.le_succ_of_le hi, hvalue⟩
  | read k =>
      obtain ⟨hmade, rfl⟩ := Option.ite_some_none_eq_some.mp hstep
      have hki : k ≤ s.i := by
        rcases h.made k (by rw [hmade]; exact Thread.noConfusion) with hlt | ⟨rfl, -⟩
        · exact Nat.le_of_lt hlt
        · exact Nat.le_refl _
      refine ⟨h.le, h.room, fun j hj => ?_, fun j qi hj => ?_, fun hvalue j => ?_⟩
      · dsimp only at hj
        rcases eq_or_ne j k with rfl | hne
        · exact h.made j (by rw [hmade]; exact Thread.noConfusion)
        · rw [Function.update_of_ne hne] at hj
          exact h.made j hj
      · dsimp only at hj ⊢
        rcases eq_or_ne j k with rfl | hne
        · rw [Function.update_self] at hj
          obtain rfl := Thread.serves.inj hj
          exact ⟨hki, Nat.le_refl _, fun hvalue => absurd hmade (h.value hvalue j)⟩
        · rw [Function.update_of_ne hne] at hj
          exact h.index j qi hj
      · exact absurd hmade (h.value hvalue k)

theorem Inv.of_reaches (run : Reaches (Starting.step byValue maxSender) Starting.init s) :
    Inv byValue maxSender s :=
  run.invariant (.init byValue maxSender) fun _ _ _ h hstep => h.step hstep

/-- Indices that are not below their position and leave none out are in order. -/
theorem serves_of_all {n : Nat} {threads : Nat → Thread}
    (hle : ∀ k qi, threads k = .serves qi → k ≤ qi)
    (hall : ∀ qi < n, ∃ k, threads k = .serves qi) : ∀ k < n, threads k = .serves k := by
  intro k
  induction k using Nat.strongRecOn with
  | ind k ih =>
      intro hk
      obtain ⟨j, hj⟩ := hall k hk
      rcases Nat.lt_or_eq_of_le (hle j k hj) with hlt | rfl
      · have hself := ih j hlt (Nat.lt_trans hlt hk)
        rw [hj] at hself
        exact absurd (Thread.serves.inj hself) (Nat.ne_of_gt hlt)
      · exact hj

/-- Once all threads have their queues: by value each has its own.  By address every queue is
served only if every thread read the index before the loop went on, and otherwise some queue
is served by none; and a thread that read it behind the loop is out of the array. -/
theorem all_served_iff (run : Reaches (Starting.step byValue maxSender) Starting.init s)
    (hdone : ∀ k < maxSender, ∃ qi, s.threads k = .serves qi) :
    ((∀ qi < maxSender, ∃ k < maxSender, s.threads k = .serves qi) ↔
        ∀ k < maxSender, s.threads k = .serves k) ∧
      (byValue = true → ∀ k < maxSender, s.threads k = .serves k) ∧
      ∀ k qi, s.threads k = .serves qi → k ≤ qi ∧ qi ≤ maxSender := by
  have h := Inv.of_reaches run
  refine ⟨⟨fun hall => ?_, fun hself qi hqi => ⟨qi, hqi, hself qi hqi⟩⟩, fun hvalue k hk => ?_,
    fun k qi hk => ?_⟩
  · refine serves_of_all (fun k qi hk => (h.index k qi hk).1) fun qi hqi => ?_
    obtain ⟨k, -, hk⟩ := hall qi hqi
    exact ⟨k, hk⟩
  · obtain ⟨qi, hqi⟩ := hdone k hk
    rw [hqi, (h.index k qi hqi).2.2 hvalue]
  · obtain ⟨hle, hi, -⟩ := h.index k qi hk
    exact ⟨hle, Nat.le_trans hi h.le⟩

/-- Both threads of `server9bug.c` read the index behind the loop. -/
theorem all_served_late : ∃ s, Reaches (Starting.step false 2) Starting.init s ∧
    (∀ k < 2, s.threads k = .serves 2) ∧ ¬ ∀ qi < 2, ∃ k < 2, s.threads k = .serves qi := by
  have hrun : (exec (Starting.step false 2) Starting.init
      [.create, .next, .create, .next, .read 0, .read 1]).map
        (fun s => (s.threads 0, s.threads 1)) = some (.serves 2, .serves 2) := by
    decide +kernel
  obtain ⟨s, hexec, hs⟩ := Option.map_eq_some_iff.mp hrun
  obtain ⟨hfirst, hsecond⟩ := Prod.mk.inj hs
  have hserves : ∀ k < 2, s.threads k = .serves 2 := by
    intro k hk
    match k, hk with
    | 0, _ => exact hfirst
    | 1, _ => exact hsecond
  have run := Reaches.of_exec hexec
  obtain ⟨hiff, -, -⟩ := all_served_iff run fun k hk => ⟨2, hserves k hk⟩
  refine ⟨s, run, hserves, fun hall => ?_⟩
  have hself := hiff.mp hall 0 (by decide)
  rw [hfirst] at hself
  cases hself

end NetworkProgram.Server9.Starting
