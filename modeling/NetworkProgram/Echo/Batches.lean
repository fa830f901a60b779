import NetworkProgram.Echo.Readiness

set_option autoImplicit false

/-!
# Echo: `server4` between two events of a batch

A round of `server4` accepts and closes connections in any order, one for each event
that `epoll_wait` has reported.  What holds at the top of the loop holds in the middle
of a round too: the events served so far are a batch of their own.
-/

namespace NetworkProgram.Echo.Epoll

open NetworkProgram.Foundation
open NetworkProgram.Kernel

/-- `epoll_wait` reports `events`, and `accept_loop` has served the first `n` of them. -/
structure Serving (k : Startup) (s : State) (events : List Nat) (result : Nat → Option Nat)
    (added : Nat → Bool) (answer : Nat → Answer) (n : Nat) (t : State) : Prop where
  running : s.returned = false
  reported : Reported k.soc s.interest events
  size : events.length ≤ maxChild + 1
  served : serveAll k result added answer 0 (events.take n) s = .ok t

/-- `accept_loop` comes to `s`, at the top of its loop or between two events. -/
inductive Comes (k : Startup) : State → Prop
  | top {s : State} (run : Reaches (step k) (.start k) s) : Comes k s
  | between {s t : State} {events : List Nat} {result : Nat → Option Nat} {added : Nat → Bool}
      {answer : Nat → Answer} {n : Nat} (run : Reaches (step k) (.start k) s)
      (serving : Serving k s events result added answer n t) : Comes k t

variable {k : Startup} {s t : State}

/-- The events served so far are a batch of their own. -/
theorem Serving.step {events : List Nat} {result : Nat → Option Nat} {added : Nat → Bool}
    {answer : Nat → Answer} {n : Nat} (h : Serving k s events result added answer n t)
    (ok : s.Ok k) : step k s (.ready (events.take n) result added answer) = some t := by
  have hreported := h.reported.take n
  have hfits := ok.fits hreported
  have heq : wakeUp k s (.ready (events.take n) result added answer) = .ok t := by
    unfold wakeUp
    rw [h.running, if_neg Bool.false_ne_true]
    dsimp only
    rw [if_pos ⟨hreported.1, Nat.le_succ_of_le hfits, hreported.2⟩, if_pos hfits]
    exact h.served
  rw [Epoll.step, heq]
  rfl

theorem Serving.reaches {events : List Nat} {result : Nat → Option Nat} {added : Nat → Bool}
    {answer : Nat → Answer} {n : Nat} (h : Serving k s events result added answer n t)
    (run : Reaches (Epoll.step k) (.start k) s) : Reaches (Epoll.step k) (.start k) t :=
  .tail run (h.step ((reaches_safe run).running h.running))

theorem Comes.reaches (h : Comes k s) : Reaches (step k) (.start k) s := by
  cases h with
  | top run => exact run
  | between run serving => exact serving.reaches run

theorem Comes.ok (h : Comes k s) (running : s.returned = false) : s.Ok k :=
  (reaches_safe h.reaches).running running

end NetworkProgram.Echo.Epoll
