import Mathlib.Data.List.Perm.Subperm

set_option autoImplicit false

/-!
# Foundation: an unreliable network

Packets are lost, copied and put out of order on their way; none is made up or changed.
What has arrived was sent, and no more often than it was sent and copied.  From this the
rule for a service that answers packet by packet: what is heard back are answers to what
was asked, and without copies one for each question at most.
-/

namespace NetworkProgram.Foundation

open scoped List

/-- The packets on their way; and those that were sent, that have arrived, and that the
network has made a copy of. -/
structure Network (P : Type) where
  flight : List P
  sent : List P
  arrived : List P
  copied : List P

namespace Network

variable {P : Type}

def empty : Network P where
  flight := []
  sent := []
  arrived := []
  copied := []

def send (net : Network P) (p : P) : Network P :=
  { net with flight := p :: net.flight, sent := p :: net.sent }

def arrive [DecidableEq P] (net : Network P) (p : P) : Network P :=
  { net with flight := net.flight.erase p, arrived := p :: net.arrived }

def lose [DecidableEq P] (net : Network P) (p : P) : Network P :=
  { net with flight := net.flight.erase p }

def copy (net : Network P) (p : P) : Network P :=
  { net with flight := p :: net.flight, copied := p :: net.copied }

/-- Every packet that is on its way or has arrived was sent or copied. -/
structure Sound (net : Network P) : Prop where
  accounted : net.flight ++ net.arrived <+~ net.sent ++ net.copied
  copies : net.copied ⊆ net.sent

namespace Sound

variable {net : Network P} {p : P}

theorem empty : (Network.empty : Network P).Sound where
  accounted := List.Subperm.refl []
  copies := List.nil_subset []

theorem flight_subset (h : net.Sound) : net.flight ⊆ net.sent := by
  intro q hq
  have hmem := h.accounted.subset (List.mem_append_left _ hq)
  rcases List.mem_append.mp hmem with hsent | hcopied
  · exact hsent
  · exact h.copies hcopied

theorem send (h : net.Sound) (p : P) : (net.send p).Sound where
  accounted := (List.subperm_cons p).mpr h.accounted
  copies := List.subset_cons_of_subset p h.copies

theorem arrive [DecidableEq P] (h : net.Sound) (hp : p ∈ net.flight) : (net.arrive p).Sound where
  accounted := by
    have hperm : net.flight.erase p ++ p :: net.arrived ~ net.flight ++ net.arrived :=
      List.perm_middle.trans ((List.perm_cons_erase hp).symm.append_right _)
    exact hperm.subperm.trans h.accounted
  copies := h.copies

theorem lose [DecidableEq P] (h : net.Sound) (p : P) : (net.lose p).Sound where
  accounted := by
    have hsub : net.flight.erase p ++ net.arrived <+ net.flight ++ net.arrived :=
      List.erase_sublist.append_right _
    exact hsub.subperm.trans h.accounted
  copies := h.copies

theorem copy (h : net.Sound) (hp : p ∈ net.flight) : (net.copy p).Sound where
  accounted := by
    have hmiddle : p :: (net.sent ++ net.copied) ~ net.sent ++ p :: net.copied :=
      List.perm_middle.symm
    exact ((List.subperm_cons p).mpr h.accounted).trans hmiddle.subperm
  copies := List.cons_subset.mpr ⟨h.flight_subset hp, h.copies⟩

/-- What has arrived was sent. -/
theorem arrived_subset (h : net.Sound) : net.arrived ⊆ net.sent := by
  intro q hq
  have hmem := h.accounted.subset (List.mem_append_right _ hq)
  rcases List.mem_append.mp hmem with hsent | hcopied
  · exact hsent
  · exact h.copies hcopied

/-- Without copies every packet arrives no more often than it was sent. -/
theorem arrived_subperm (h : net.Sound) (hcopied : net.copied = []) :
    net.arrived <+~ net.sent := by
  have haccounted := h.accounted
  rw [hcopied, List.append_nil] at haccounted
  exact (List.sublist_append_right _ _).subperm.trans haccounted

end Sound

/-! ## Questions and answers -/

theorem filter_filterMap_subperm {answer : P → Option P} {asks answers : P → Bool}
    (of_answer : ∀ p q, answer p = some q → answers q = true → asks p = true) (packets : List P) :
    (packets.filterMap answer).filter answers <+~ (packets.filter asks).filterMap answer := by
  induction packets with
  | nil => exact List.Subperm.refl []
  | cons p packets ih =>
      have hgrow : (packets.filter asks).filterMap answer <+
          ((p :: packets).filter asks).filterMap answer :=
        ((List.sublist_cons_self p packets).filter asks).filterMap answer
      cases hanswer : answer p with
      | none =>
          rw [List.filterMap_cons_none hanswer]
          exact ih.trans hgrow.subperm
      | some q =>
          rw [List.filterMap_cons_some hanswer]
          cases hq : answers q with
          | false =>
              rw [List.filter_cons_of_neg (by simp [hq])]
              exact ih.trans hgrow.subperm
          | true =>
              rw [List.filter_cons_of_pos hq, List.filter_cons_of_pos (of_answer p q hanswer hq),
                List.filterMap_cons_some hanswer]
              exact (List.subperm_cons q).mpr ih

/-- Someone asks, a service answers what arrives at it, and someone hears what arrives. -/
structure Answers (net : Network P) (answer : P → Option P) (asks answers : P → Bool)
    (asked heard : List P) : Prop where
  of_answer : ∀ p q, answer p = some q → answers q = true → asks p = true
  asked : net.sent.filter asks <+~ asked
  answered : net.sent.filter answers <+~ net.arrived.filterMap answer
  heard : heard <+~ net.arrived.filter answers

variable {net : Network P} {answer : P → Option P} {asks answers : P → Bool}
  {asked heard : List P}

theorem Answers.answers_subperm (h : net.Answers answer asks answers asked heard) :
    net.sent.filter answers <+~ (net.arrived.filter asks).filterMap answer := by
  have hfilter := h.answered.filter answers
  simp only [List.filter_filter, Bool.and_self] at hfilter
  exact hfilter.trans (filter_filterMap_subperm h.of_answer net.arrived)

/-- Everything that is heard answers something that was asked. -/
theorem Answers.heard_subset (h : net.Answers answer asks answers asked heard)
    (sound : net.Sound) : heard ⊆ asked.filterMap answer := by
  intro q hq
  obtain ⟨harrived, hanswers⟩ := List.mem_filter.mp (h.heard.subset hq)
  have hsent : q ∈ net.sent.filter answers :=
    List.mem_filter.mpr ⟨sound.arrived_subset harrived, hanswers⟩
  obtain ⟨p, hp, hanswer⟩ := List.mem_filterMap.mp (h.answers_subperm.subset hsent)
  obtain ⟨hpArrived, hasks⟩ := List.mem_filter.mp hp
  have hpSent : p ∈ net.sent.filter asks :=
    List.mem_filter.mpr ⟨sound.arrived_subset hpArrived, hasks⟩
  exact List.mem_filterMap.mpr ⟨p, h.asked.subset hpSent, hanswer⟩

theorem subperm_filterMap {l m : List P} (h : l <+~ m) (f : P → Option P) :
    l.filterMap f <+~ m.filterMap f := by
  obtain ⟨k, hperm, hsub⟩ := h
  exact ⟨k.filterMap f, hperm.filterMap f, hsub.filterMap f⟩

/-- Without copies each question is answered once at most. -/
theorem Answers.heard_subperm (h : net.Answers answer asks answers asked heard)
    (sound : net.Sound) (hcopied : net.copied = []) : heard <+~ asked.filterMap answer := by
  have harrived := sound.arrived_subperm hcopied
  have hasked : (net.arrived.filter asks).filterMap answer <+~ asked.filterMap answer :=
    subperm_filterMap ((harrived.filter asks).trans h.asked) answer
  exact h.heard.trans ((harrived.filter answers).trans (h.answers_subperm.trans hasked))

end Network

end NetworkProgram.Foundation
