import Mathlib.Data.List.Basic

set_option autoImplicit false

/-!
# Foundation: walking through a directory tree

A directory is the list of the names from the root to it.  A path is a list of
moves: stay, go up (at the root, stay), go down to a name.  Without symbolic links
the directory a path leads to is found from its moves alone.  Every path has a
normal form, which goes up first and then only down, and from it one reads
whether the path stays below the directory it starts from.
-/

namespace NetworkProgram.Foundation.Paths

variable {α : Type}

inductive Move (α : Type)
  | stay
  | up
  | down (name : α)
  deriving DecidableEq, Repr

def Move.apply : Move α → List α → List α
  | .stay, dir => dir
  | .up, dir => dir.dropLast
  | .down name, dir => dir ++ [name]

/-- Where the moves lead. -/
def walk (dir : List α) (moves : List (Move α)) : List α :=
  moves.foldl (fun dir move => move.apply dir) dir

/-- Up so many levels, then down these names. -/
structure Normal (α : Type) where
  climb : Nat
  names : List α
  deriving DecidableEq, Repr

def Normal.apply (n : Normal α) (dir : List α) : List α :=
  dir.take (dir.length - n.climb) ++ n.names

/-- One more move: going up takes back a name, or climbs. -/
def Normal.push (n : Normal α) : Move α → Normal α
  | .stay => n
  | .up =>
      match n.names with
      | [] => { n with climb := n.climb + 1 }
      | name :: names => { n with names := (name :: names).dropLast }
  | .down name => { n with names := n.names ++ [name] }

def normal (moves : List (Move α)) : Normal α :=
  moves.foldl Normal.push { climb := 0, names := [] }

theorem Normal.apply_push (n : Normal α) (move : Move α) (dir : List α) :
    (n.push move).apply dir = move.apply (n.apply dir) := by
  obtain ⟨climb, names⟩ := n
  cases move with
  | stay => rfl
  | up =>
      cases names with
      | nil =>
          simp only [push, Normal.apply, Move.apply, List.append_nil]
          rw [List.dropLast_eq_take, List.take_take, List.length_take]
          congr 1
          omega
      | cons name names =>
          simp only [push, Normal.apply, Move.apply]
          rw [List.dropLast_append_of_ne_nil (List.cons_ne_nil name names)]
  | down name => simp [push, Normal.apply, Move.apply]

/-- The normal form leads where the moves lead. -/
theorem walk_eq_normal_apply (dir : List α) (moves : List (Move α)) :
    walk dir moves = (normal moves).apply dir := by
  have hgo : ∀ (moves : List (Move α)) (n : Normal α),
      walk (n.apply dir) moves = (moves.foldl Normal.push n).apply dir := by
    intro moves
    induction moves with
    | nil => intro n; rfl
    | cons move moves ih =>
        intro n
        have hnext := ih (n.push move)
        rw [n.apply_push] at hnext
        exact hnext
  have hstart : Normal.apply { climb := 0, names := [] } dir = dir := by
    simp [Normal.apply]
  have hwalk := hgo moves { climb := 0, names := [] }
  rw [hstart] at hwalk
  exact hwalk

theorem walk_append (dir : List α) (left right : List (Move α)) :
    walk dir (left ++ right) = walk (walk dir left) right :=
  List.foldl_append

/-- What the path climbs above `dir` it comes down again by the same names. -/
def Normal.Retraces (n : Normal α) (dir : List α) : Prop :=
  dir.drop (dir.length - n.climb) <+: n.names

instance [DecidableEq α] (n : Normal α) (dir : List α) : Decidable (n.Retraces dir) :=
  inferInstanceAs (Decidable (_ <+: _))

/-- A path stays below its start exactly when it retraces what it climbs. -/
theorem below_walk_iff (dir : List α) (moves : List (Move α)) :
    dir <+: walk dir moves ↔ (normal moves).Retraces dir := by
  rw [walk_eq_normal_apply, Normal.Retraces, Normal.apply]
  generalize dir.length - (normal moves).climb = n
  conv_lhs => lhs; rw [← List.take_append_drop n dir]
  exact List.prefix_append_right_inj _

/-- A path that does not climb stays below. -/
theorem Normal.retraces_of_climb_eq_zero {n : Normal α} (h : n.climb = 0) (dir : List α) :
    n.Retraces dir := by
  rw [Normal.Retraces, h, Nat.sub_zero, List.drop_length]
  exact List.nil_prefix

/-- Nothing is above the root. -/
theorem Normal.retraces_root (n : Normal α) : n.Retraces [] := by
  rw [Normal.Retraces, List.drop_nil]
  exact List.nil_prefix

end NetworkProgram.Foundation.Paths
