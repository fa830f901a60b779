import NetworkProgram.Telnet.Model

set_option autoImplicit false

/-!
# Telnet: what is read from a stream

`recv_data` reads the stream as single bytes and three-byte commands.  `hear` says
what it makes of a whole stream, arrival by arrival, with the place in a command as
its state.  Every run of the clients follows it.
-/

namespace NetworkProgram.Telnet

open NetworkProgram.Foundation
open NetworkProgram.Libc

/-- The place of the next byte. -/
inductive Phase
  | data
  /-- Behind IAC. -/
  | command
  /-- Behind IAC and the byte `c`. -/
  | option (c : UInt8)
  deriving DecidableEq, Repr

def Phase.next (p : Phase) (c : UInt8) : Phase :=
  match p with
  | .data => if c = iac then .command else .data
  | .command => .option c
  | .option _ => .data

/-- What is done with the byte `c`. -/
def Phase.emit (p : Phase) (c : UInt8) : List Event :=
  match p with
  | .data => if c = iac then [] else [.shown c]
  | .command => []
  | .option _ => [.replied [iac, wont, c]]

/-- What is done at the end of the stream. -/
def Phase.atEnd : Phase → List Event
  | .data => []
  | .command => [.replied [iac, wont, iac]]
  | .option c => [.replied [iac, wont, c]]

/-- What is shown and replied.  A command in which nothing arrives is forgotten. -/
def hear : Phase → List Arrival → List Event
  | p, [] => p.atEnd
  | _, .again :: rest => hear .data rest
  | p, .byte c :: rest => p.emit c ++ hear (p.next c) rest

@[simp] theorem hear_data_nil : hear .data [] = [] := rfl

@[simp] theorem hear_again (p : Phase) (rest : List Arrival) :
    hear p (.again :: rest) = hear .data rest := by
  cases p <;> rfl

@[simp] theorem hear_byte (p : Phase) (c : UInt8) (rest : List Arrival) :
    hear p (.byte c :: rest) = p.emit c ++ hear (p.next c) rest := by
  cases p <;> rfl

@[simp] theorem heard_append (log log' : List Event) :
    heard (log ++ log') = heard log ++ heard log' :=
  List.filter_append _ _

@[simp] theorem screen_append (log log' : List Event) :
    screen (log ++ log') = screen log ++ screen log' :=
  List.filterMap_append

@[simp] theorem heard_shown (c : UInt8) : heard [.shown c] = [.shown c] := rfl

@[simp] theorem heard_replied (reply : Bytes) : heard [.replied reply] = [.replied reply] := rfl

@[simp] theorem heard_typed (c : UInt8) : heard [.typed c] = [] := rfl

theorem steady_cons (c : UInt8) (stream : Bytes) :
    steady (c :: stream) = .byte c :: steady stream := rfl

/-! ## One call of `recv_data` -/

/-- What was heard and what the rest of the stream will give. -/
def State.total (s : State) : List Event := heard s.log ++ hear .data s.input

@[simp] theorem total_start (input : List Arrival) : (start input).total = hear .data input := rfl

theorem State.total_of_input_nil {s : State} (h : s.input = []) : s.total = heard s.log := by
  rw [State.total, h, hear_data_nil, List.append_nil]

/-- How a call of `recv_data` ends. -/
inductive Call (s : State) : Int × State → Prop
  /-- `recv` returns 0. -/
  | atEnd (input : s.input = []) : Call s (-1, s)
  /-- A `recv` fails. -/
  | fails {rest : List Arrival} (hear : hear .data rest = hear .data s.input)
      (again : .again ∈ s.input) (shorter : rest.length < s.input.length)
      (suffix : rest <:+ s.input) : Call s (s.fail rest)
  /-- A byte is shown, or a command is refused. -/
  | takes {t : State} {events : List Event} (own : heard events = events)
      (log : t.log = s.log ++ events) (errno : t.errno = s.errno) (ended : t.ended = s.ended)
      (hear : events ++ hear .data t.input = hear .data s.input)
      (shorter : t.input.length < s.input.length) (suffix : t.input <:+ s.input) : Call s (0, t)

theorem call_recvCommand {s : State} {rest : List Arrival} (h : s.input = .byte iac :: rest) :
    Call s (recvCommand s rest) := by
  unfold recvCommand State.refuse
  split
  · refine .takes (heard_replied _) rfl rfl rfl ?_ ?_ ?_
    · rw [h]; rfl
    · rw [h]; exact Nat.zero_lt_succ _
    · exact List.nil_suffix
  · rename_i rest
    refine .fails ?_ ?_ ?_ ?_
    · rw [h]; rfl
    · rw [h]; simp
    · rw [h]; simp only [List.length_cons]; omega
    · rw [h]; exact ⟨[.byte iac, .again], rfl⟩
  · rename_i c
    refine .takes (heard_replied _) rfl rfl rfl ?_ ?_ ?_
    · rw [h]; rfl
    · rw [h]; exact Nat.zero_lt_succ _
    · exact List.nil_suffix
  · rename_i c rest
    refine .fails ?_ ?_ ?_ ?_
    · rw [h]; rfl
    · rw [h]; simp
    · rw [h]; simp only [List.length_cons]; omega
    · rw [h]; exact ⟨[.byte iac, .byte c, .again], rfl⟩
  · rename_i x c rest
    refine .takes (heard_replied _) rfl rfl rfl ?_ ?_ ?_
    · rw [h]; rfl
    · rw [h]; simp only [List.length_cons]; omega
    · rw [h]; exact ⟨[.byte iac, .byte x, .byte c], rfl⟩

theorem call_recvData (s : State) : Call s (recvData s) := by
  unfold recvData
  split
  · rename_i hinput
    exact .atEnd hinput
  · rename_i rest hinput
    refine .fails ?_ ?_ ?_ ?_
    · rw [hinput]; rfl
    · rw [hinput]; exact List.mem_cons_self
    · rw [hinput]; exact Nat.lt_succ_self _
    · rw [hinput]; exact List.suffix_cons _ _
  · rename_i c rest hinput
    split
    · rename_i hc
      subst hc
      exact call_recvCommand hinput
    · rename_i hc
      refine .takes (heard_shown c) rfl rfl rfl ?_ ?_ ?_
      · rw [hinput, hear_byte, Phase.emit, Phase.next, if_neg hc, if_neg hc]
      · rw [hinput]; exact Nat.lt_succ_self _
      · rw [hinput]; exact List.suffix_cons _ _

/-- A call loses nothing of the total. -/
theorem total_recvData (s : State) : (recvData s).2.total = s.total := by
  have call := call_recvData s
  generalize recvData s = result at call ⊢
  cases call with
  | atEnd => rfl
  | fails hear => exact congrArg (heard s.log ++ ·) hear
  | takes own log _ _ hear =>
      unfold State.total
      rw [log, heard_append, own, List.append_assoc, hear]

theorem length_recvData (s : State) :
    (recvData s).2.input.length ≤ s.input.length - 1 := by
  have call := call_recvData s
  generalize recvData s = result at call ⊢
  cases call with
  | atEnd input => simp [input]
  | fails _ _ shorter => exact Nat.le_sub_one_of_lt shorter
  | takes _ _ _ _ _ shorter => exact Nat.le_sub_one_of_lt shorter

/-! ## Calls one after the other -/

theorem total_calls (n : Nat) (s : State) : (calls n s).total = s.total := by
  induction n generalizing s with
  | zero => rfl
  | succ n ih => exact (ih _).trans (total_recvData s)

theorem input_calls {n : Nat} {s : State} (h : s.input.length ≤ n) : (calls n s).input = [] := by
  induction n generalizing s with
  | zero => exact List.eq_nil_of_length_eq_zero (Nat.le_zero.mp h)
  | succ n ih =>
      have hshorter := length_recvData s
      exact ih (by omega)

/-- After enough calls all of the stream was heard. -/
theorem heard_calls {n : Nat} {input : List Arrival} (h : input.length ≤ n) :
    heard (calls n (start input)).log = hear .data input := by
  rw [← State.total_of_input_nil (input_calls h), total_calls, total_start]

/-- A view of the log that leaves out what is typed sees all of it in what was heard. -/
theorem filterMap_heard {β : Type} {view : Event → Option β} (h : ∀ c, view (.typed c) = none)
    (log : List Event) : (heard log).filterMap view = log.filterMap view := by
  rw [heard, List.filterMap_filter]
  congr 1
  funext e
  cases e with
  | shown c => rfl
  | replied reply => rfl
  | typed c => exact (h c).symm

@[simp] theorem screen_heard (log : List Event) : screen (heard log) = screen log :=
  filterMap_heard (fun _ => rfl) log

/-! ## The loops -/

theorem State.total_typed (s : State) (errno : Errno) (c : UInt8) :
    State.total { s with errno := errno, log := s.log ++ [.typed c] } = s.total := by
  simp [State.total]

theorem total_telnet1 {s t : State} {answer : Select} (h : telnet1 s answer = some t) :
    t.total = s.total := by
  unfold telnet1 at h
  split at h
  · cases h
  cases answer with
  | interrupted => cases h; rfl
  | failed => cases h; rfl
  | timeout => cases h; rfl
  | ready socket stdin =>
      dsimp only at h
      have hreceived : (if socket then recvData s else (0, s)).2.total = s.total := by
        cases socket with
        | false => rfl
        | true => exact total_recvData s
      generalize (if socket then recvData s else (0, s)) = received at h hreceived
      rw [← hreceived]
      split at h
      · cases h; rfl
      · cases stdin with
        | none => cases h; rfl
        | some typed => cases h; exact State.total_typed _ _ _

theorem total_telnet3 {s t : State} {stdin : Getchar} (h : telnet3 s stdin = some t) :
    t.total = s.total := by
  unfold telnet3 at h
  split at h
  · cases h
  rw [← total_recvData s]
  generalize recvData s = received at h
  dsimp only at h
  split at h
  · cases h; rfl
  · split at h
    · cases h; exact State.total_typed _ _ _
    · cases h; rfl

/-- A client that keeps the total has, once it read all of the stream, heard it. -/
theorem heard_of_run {α : Type} {step : State → α → Option State}
    (total : ∀ s a t, step s a = some t → t.total = s.total) {input : List Arrival} {s : State}
    (run : Reaches step (start input) s) (all : s.input = []) : heard s.log = hear .data input := by
  rw [← State.total_of_input_nil all, ← total_start]
  exact run.invariant (I := fun t => t.total = (start input).total) rfl
    fun _ _ _ h move => (total _ _ _ move).trans h

theorem heard_telnet1 {input : List Arrival} {s : State} (run : Reaches telnet1 (start input) s)
    (all : s.input = []) : heard s.log = hear .data input :=
  heard_of_run (fun _ _ _ => total_telnet1) run all

theorem heard_telnet3 {input : List Arrival} {s : State} (run : Reaches telnet3 (start input) s)
    (all : s.input = []) : heard s.log = hear .data input :=
  heard_of_run (fun _ _ _ => total_telnet3) run all

/-- While there is something to read, a round of `telnet3` reads some of it and goes on. -/
theorem telnet3_reads_some {s : State} (more : s.input ≠ []) (going : s.ended = false)
    (stdin : Getchar) :
    ∃ t, telnet3 s stdin = some t ∧ t.ended = false ∧ t.input.length < s.input.length := by
  have call := call_recvData s
  unfold telnet3
  rw [going, if_neg Bool.false_ne_true]
  generalize recvData s = result at call ⊢
  dsimp only
  cases call with
  | atEnd input => exact absurd input more
  | fails _ _ shorter =>
      rw [if_neg fun h => h.2 rfl]
      split <;> exact ⟨_, rfl, going, shorter⟩
  | takes _ _ _ ended _ shorter =>
      rw [if_neg fun h => by cases h.1]
      split <;> exact ⟨_, rfl, ended.trans going, shorter⟩

/-- Whatever is typed, `telnet3` comes to the end of the stream. -/
theorem telnet3_reads {s : State} (rounds : List Getchar) (h : s.input.length ≤ rounds.length)
    (going : s.ended = false) :
    ∃ used t, used <+: rounds ∧ exec telnet3 s used = some t ∧ t.input = [] := by
  obtain ⟨used, t, hused, hexec, hnil⟩ := exec_exhausts id
    (fun s : State => s.ended = false) (fun s => s.input.length)
    (fun s stdin going more => telnet3_reads_some (mt List.length_eq_zero_iff.mpr more) going stdin)
    going h
  rw [List.map_id] at hexec
  exact ⟨used, t, hused, hexec, List.eq_nil_of_length_eq_zero hnil⟩

/-- The same for `telnet1` when `select` reports its socket. -/
theorem telnet1_reads_some {s : State} (more : s.input ≠ []) (steady : .again ∉ s.input)
    (going : s.ended = false) (stdin : Option Getchar) :
    ∃ t, telnet1 s (.ready true stdin) = some t ∧ t.ended = false ∧ .again ∉ t.input ∧
      t.input.length < s.input.length := by
  have call := call_recvData s
  unfold telnet1
  rw [going, if_neg Bool.false_ne_true]
  dsimp only
  rw [if_pos rfl]
  generalize recvData s = result at call ⊢
  cases call with
  | atEnd input => exact absurd input more
  | fails _ again => exact absurd again steady
  | takes _ _ _ ended _ shorter suffix =>
      have hsteady := fun h => steady (suffix.subset h)
      cases stdin with
      | none => exact ⟨_, rfl, ended.trans going, hsteady, shorter⟩
      | some typed => exact ⟨_, rfl, ended.trans going, hsteady, shorter⟩

theorem telnet1_reads {s : State} (rounds : List (Option Getchar))
    (h : s.input.length ≤ rounds.length) (steady : .again ∉ s.input) (going : s.ended = false) :
    ∃ used t, used <+: rounds ∧ exec telnet1 s (used.map (.ready true)) = some t ∧
      t.input = [] := by
  obtain ⟨used, t, hused, hexec, hnil⟩ := exec_exhausts (Select.ready true)
    (fun s : State => s.ended = false ∧ .again ∉ s.input) (fun s => s.input.length)
    (fun s stdin kept more => by
      obtain ⟨t, move, going, steady, shorter⟩ :=
        telnet1_reads_some (mt List.length_eq_zero_iff.mpr more) kept.2 kept.1 stdin
      exact ⟨t, move, ⟨going, steady⟩, shorter⟩)
    ⟨going, steady⟩ h
  exact ⟨used, t, hused, hexec, List.eq_nil_of_length_eq_zero hnil⟩

end NetworkProgram.Telnet
