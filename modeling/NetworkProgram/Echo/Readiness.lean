import NetworkProgram.Echo.Connections
import NetworkProgram.Echo.Epoll

set_option autoImplicit false

/-!
# Echo: what is received in a round was ready

A `recv` of these servers blocks when there is nothing to receive, so it matters
that `send_recv` is called for nothing that was not reported: a connection accepted
in the same round, or one that took the descriptor of a closed one.
-/

namespace NetworkProgram.Echo

open NetworkProgram.Foundation
open NetworkProgram.Kernel

/-- What a round adds to the log: calls for connections that were open and ready,
and nothing at all after an error or a timeout. -/
def Attentive (h t : Host) (ready : Nat → Prop) (failed : Prop) : Prop :=
  ∃ events, t.log = h.log ++ events ∧ OnlyReady h ready events ∧ (failed → events = [])

theorem Round.attentive {soc : Nat} {h t : Host} {ready : Nat → Prop} {failed : Prop}
    (round : Round h t ready) (ok : h.Ok soc) (hfailed : failed → t = h) :
    Attentive h t ready failed := by
  obtain ⟨events, hlog, honly⟩ := round.onlyReady ok
  refine ⟨events, hlog, honly, fun hf => ?_⟩
  rw [hfailed hf] at hlog
  exact List.self_eq_append_right.mp hlog

theorem Epoll.reaches_safe {k : Epoll.Startup} {s : Epoll.State}
    (run : Reaches (Epoll.step k) (Epoll.State.start k) s) : s.Safe k := by
  have start := Epoll.State.ok_start k
  refine run.invariant start.safe fun u w v safe move => ?_
  rcases Epoll.wakeUp_round safe w with heq | ⟨t, heq, hsafe, -⟩
  · rw [Epoll.step, heq] at move
    cases move
  · rw [Epoll.step, heq] at move
    exact Option.some.inj move ▸ hsafe

/-- In every run of the three servers and for every batch of ready descriptors. -/
theorem send_recv_onlyReady (k : Listener) (k4 : Epoll.Startup) :
    (∀ s w t, Reaches (Select.step k) (State.start k) s → Select.wakeUp k s w = .ok t →
      Attentive s.host t.host (· ∈ w.reported) w.Failed) ∧
    (∀ s w t, Reaches (Poll.step k) (State.start k) s → Poll.wakeUp k s w = .ok t →
      Attentive s.host t.host (w.Reported k s) w.Failed) ∧
    (∀ s w t, Reaches (Epoll.step k4) (Epoll.State.start k4) s → Epoll.wakeUp k4 s w = .ok t →
      Attentive s.host t.host (· ∈ w.reported) w.Failed) := by
  refine ⟨fun s w t run heq => ?_, fun s w t run heq => ?_, fun s w t run heq => ?_⟩
  · have ok := Select.reaches_ok run
    by_cases hpossible : w.Possible k s
    · obtain ⟨u, hu, -, round, hfailed⟩ := Select.wakeUp_round ok hpossible
      obtain rfl := Except.ok.inj (hu.symm.trans heq)
      exact round.attentive ok.host fun hf => congrArg State.host (hfailed hf)
    · rw [Select.wakeUp_impossible ok hpossible] at heq
      cases heq
  · have ok := Poll.reaches_ok run
    by_cases hpossible : w.Possible s
    · obtain ⟨u, hu, -, round, hfailed⟩ := Poll.wakeUp_round ok hpossible
      obtain rfl := Except.ok.inj (hu.symm.trans heq)
      exact round.attentive ok.host fun hf => congrArg State.host (hfailed hf)
    · rw [Poll.wakeUp_impossible ok hpossible] at heq
      cases heq
  · have safe := Epoll.reaches_safe run
    rcases Epoll.wakeUp_round safe w with himpossible | ⟨u, hu, -, round, hfailed⟩
    · rw [himpossible] at heq
      cases heq
    · obtain rfl := Except.ok.inj (hu.symm.trans heq)
      exact round.attentive safe.host fun hf => congrArg Epoll.State.host (hfailed hf)

/-- A connection is closed, and in the same round its descriptor is given away again. -/
theorem send_recv_onlyReady_recycled :
    ∃ s w t, Epoll.wakeUp .plain s w = .ok t ∧ w.reported = [5, 3] ∧
      s.host.fds 5 = some (.conn 0) ∧ t.host.fds 5 = some (.conn 1) ∧
      Attentive s.host t.host (· ∈ w.reported) w.Failed := by
  have run := Reaches.of_exec (show exec (Epoll.step .plain) (.start .plain)
    [.ready [3] (fun _ => some 5) (fun _ => true) fun _ => .plain .eof true] = some _ from rfl)
  have key := (send_recv_onlyReady .plain .plain).2.2 _ (.ready [5, 3] (fun _ => some 5)
    (fun _ => true) fun _ => .plain .eof true) _ run rfl
  exact ⟨_, _, _, rfl, rfl, rfl, rfl, key⟩

end NetworkProgram.Echo
