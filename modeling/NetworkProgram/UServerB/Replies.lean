import Mathlib.Data.List.Nodup
import NetworkProgram.UServerB.Model

set_option autoImplicit false

/-!
# UServerB: how many replies one datagram brings about

A reply goes to the port that the datagram came from.  If that is the servers' own port,
every server gets the replies of the others and answers them too, since only its own
address is ignored.
-/

namespace NetworkProgram.UServerB

open NetworkProgram.Foundation
open NetworkProgram.Libc

variable {Host : Type}

/-! ## Replies -/

/-- What fits into `buf` together with the text appended to it. -/
theorem replyTo_eq_none {contents : Bytes} : replyTo contents = none ↔
    512 ≤ contents.length ∨ 507 ≤ (visible contents).length := by
  have htext : cstr (cutLine (contents ++ [0])) = visible contents := by
    rw [cstr_cutLine, visible_append_of_stop (.inl rfl)]
  have htail : okTail.length = 5 := rfl
  unfold replyTo bufSize
  rw [htext]
  dsimp only
  rw [htail]
  split
  · exact iff_of_true rfl (.inl ‹_›)
  · split
    · exact iff_of_true rfl (.inr (by omega))
    · exact iff_of_false (Option.some_ne_none _) (by omega)

/-! ## Deliveries -/

theorem mem_broadcast {seg : Segment Host} {d : Datagram Host} {x : Delivery Host} :
    x ∈ seg.broadcast d ↔ d.destPort = seg.port ∧ x.server ∈ seg.servers ∧ x.datagram = d := by
  unfold Segment.broadcast
  split
  · rename_i hport
    rw [List.mem_map]
    constructor
    · rintro ⟨host, hmem, rfl⟩
      exact ⟨hport, hmem, rfl⟩
    · rintro ⟨-, hmem, rfl⟩
      exact ⟨x.server, hmem, rfl⟩
  · rename_i hport
    exact iff_of_false List.not_mem_nil fun h => hport h.1

/-- A server does not answer what comes from its own address. -/
def FromOther (x : Delivery Host) : Prop :=
  x.datagram.source ≠ x.server

/-! ## Datagrams that settle -/

/-- The datagram fits into the buffer with the text appended to it, and the replies to it
reach no other server. -/
structure Settles (seg : Segment Host) (d : Datagram Host) : Prop where
  contents : d.contents.length < 512
  text : (visible d.contents).length ≤ 506
  alone : d.sourcePort ≠ seg.port ∨ seg.servers.length = 1

theorem Settles.replyTo_ne_none {seg : Segment Host} {d : Datagram Host} (h : Settles seg d) :
    replyTo d.contents ≠ none := by
  rw [ne_eq, replyTo_eq_none]
  have hcontents := h.contents
  have htext := h.text
  omega

/-- The replies come back to the server that sent them, if to any. -/
theorem Settles.reply_own {seg : Segment Host} {d : Datagram Host} (h : Settles seg d)
    (reply : Bytes) {host : Host} (hhost : host ∈ seg.servers) :
    ∀ x ∈ seg.broadcast (seg.reply host d reply), ¬ FromOther x := by
  intro x hx hother
  obtain ⟨hport, hserver, hdatagram⟩ := mem_broadcast.mp hx
  obtain ⟨only, honly⟩ := List.length_eq_one_iff.mp (h.alone.resolve_left (not_not_intro hport))
  rw [honly, List.mem_singleton] at hhost hserver
  apply hother
  rw [hdatagram, hserver, ← hhost]
  rfl

/-! ## At most one reply each -/

variable [DecidableEq Host]

instance (x : Delivery Host) : Decidable (FromOther x) := inferInstanceAs (Decidable (_ ≠ _))

/-- How many deliveries `host` may answer. -/
def waiting (host : Host) (pending : List (Delivery Host)) : Nat :=
  pending.countP fun x => FromOther x ∧ x.server = host

theorem waiting_erase (host : Host) {x : Delivery Host} {pending : List (Delivery Host)}
    (h : x ∈ pending) : waiting host pending =
      waiting host (pending.erase x) + if FromOther x ∧ x.server = host then 1 else 0 := by
  unfold waiting
  rw [(List.perm_cons_erase h).countP_eq, List.countP_cons]
  simp only [decide_eq_true_eq]

theorem waiting_append (host : Host) (pending more : List (Delivery Host)) :
    waiting host (pending ++ more) = waiting host pending + waiting host more :=
  List.countP_append

theorem waiting_eq_zero (host : Host) {pending : List (Delivery Host)}
    (h : ∀ x ∈ pending, ¬ FromOther x) : waiting host pending = 0 := by
  unfold waiting
  rw [List.countP_eq_zero]
  exact fun x hx hcount => h x hx (of_decide_eq_true hcount).1

/-- A datagram reaches each server once. -/
theorem waiting_broadcast_le (seg : Segment Host) (d : Datagram Host) (host : Host) :
    waiting host (seg.broadcast d) ≤ 1 := by
  unfold waiting Segment.broadcast
  split
  · rw [List.countP_map]
    refine Nat.le_trans (List.countP_mono_left ?_) (List.nodup_iff_count_le_one.mp seg.nodup host)
    intro k _ hk
    simpa using (of_decide_eq_true hk).2
  · exact Nat.zero_le _

/-- No server sends twice in what the datagram brings about. -/
def OneReplyEach (seg : Segment Host) (d : Datagram Host) : Prop :=
  ∀ t, Reaches seg.step (seg.start d) t → ∀ host, t.replied.count host ≤ 1

/-- Only the datagram itself is left to answer, and every server answers it at most once. -/
structure Answers (seg : Segment Host) (d : Datagram Host) (s : State Host) : Prop where
  server : ∀ x ∈ s.pending, x.server ∈ seg.servers
  original : ∀ x ∈ s.pending, FromOther x → x.datagram = d
  overrun : s.overrun = []
  once : ∀ host, s.replied.count host + waiting host s.pending ≤ 1

theorem start_answers (seg : Segment Host) (d : Datagram Host) : Answers seg d (seg.start d) where
  server := fun _ hx => (mem_broadcast.mp hx).2.1
  original := fun _ hx _ => (mem_broadcast.mp hx).2.2
  overrun := rfl
  once := fun host => by
    rw [Segment.start, List.count_nil, Nat.zero_add]
    exact waiting_broadcast_le seg d host

section Step

variable {seg : Segment Host} {d : Datagram Host} {s : State Host} {x : Delivery Host}

/-- A delivery that is taken away leaves less to answer. -/
theorem Answers.erase (h : Answers seg d s) (hx : x ∈ s.pending) :
    Answers seg d { s with pending := s.pending.erase x } where
  server := fun y hy => h.server y (List.mem_of_mem_erase hy)
  original := fun y hy => h.original y (List.mem_of_mem_erase hy)
  overrun := h.overrun
  once := fun host => by
    have honce := h.once host
    rw [waiting_erase host hx] at honce
    dsimp only
    omega

/-- What a round does: nothing, stop the server, run over the end of the buffer, or reply. -/
theorem serve_cases (seg : Segment Host) (s : State Host) (host : Host) (d : Datagram Host)
    (outcome : Outcome) :
    (∃ stopped, seg.serve s host d outcome = { s with stopped := stopped }) ∨
    (d.source ≠ host ∧ replyTo d.contents = none ∧
      seg.serve s host d outcome = { s with overrun := host :: s.overrun }) ∨
    ∃ reply, d.source ≠ host ∧ replyTo d.contents = some reply ∧
      seg.serve s host d outcome =
        { s with
          pending := s.pending ++ seg.broadcast (seg.reply host d reply)
          replied := host :: s.replied } := by
  unfold Segment.serve
  split
  · exact .inl ⟨s.stopped, rfl⟩
  · split
    · exact .inl ⟨s.stopped, rfl⟩
    · rename_i hsource
      split
      · exact .inr (.inl ⟨hsource, ‹_›, rfl⟩)
      · rename_i reply hreply
        split
        · exact .inl ⟨host :: s.stopped, rfl⟩
        · exact .inr (.inr ⟨reply, hsource, hreply, rfl⟩)

/-- A server that replies had the datagram itself to answer, and the reply brings about
nothing more. -/
theorem Answers.deliver (h : Answers seg d s) (hsettles : Settles seg d) (hx : x ∈ s.pending)
    (outcome : Outcome) :
    Answers seg d (seg.serve { s with pending := s.pending.erase x } x.server x.datagram
      outcome) := by
  have hrest := h.erase hx
  rcases serve_cases seg { s with pending := s.pending.erase x } x.server x.datagram outcome with
    ⟨stopped, hserve⟩ | ⟨hother, hlong, -⟩ | ⟨reply, hother, -, hserve⟩
  · rw [hserve]
    exact ⟨hrest.server, hrest.original, hrest.overrun, hrest.once⟩
  · rw [h.original x hx hother] at hlong
    exact absurd hlong hsettles.replyTo_ne_none
  · have hsame : d = x.datagram := (h.original x hx hother).symm
    subst hsame
    have hown := hsettles.reply_own reply (h.server x hx)
    rw [hserve]
    refine ⟨?_, ?_, hrest.overrun, ?_⟩
    · exact List.forall_mem_append.mpr ⟨hrest.server, fun y hy => (mem_broadcast.mp hy).2.1⟩
    · exact List.forall_mem_append.mpr ⟨hrest.original, fun y hy hy' => absurd hy' (hown y hy)⟩
    · intro host
      have honce := h.once host
      rw [waiting_erase host hx] at honce
      dsimp only
      rw [waiting_append, waiting_eq_zero host hown]
      rcases eq_or_ne x.server host with rfl | hne
      · rw [if_pos ⟨hother, rfl⟩] at honce
        rw [List.count_cons_self]
        omega
      · rw [List.count_cons_of_ne hne]
        omega

end Step

theorem answers_step {seg : Segment Host} {d : Datagram Host} {s t : State Host} {a : Act Host}
    (hsettles : Settles seg d) (h : Answers seg d s) (hstep : seg.step s a = some t) :
    Answers seg d t := by
  cases a with
  | deliver x outcome =>
      rw [Segment.step] at hstep
      split at hstep
      · cases hstep
        exact h.deliver hsettles ‹_› outcome
      · cases hstep
  | lose x =>
      rw [Segment.step] at hstep
      split at hstep
      · cases hstep
        exact h.erase ‹_›
      · cases hstep
  | stray host d' =>
      rw [Segment.step, h.overrun, if_neg List.not_mem_nil] at hstep
      cases hstep

theorem Settles.oneReplyEach {seg : Segment Host} {d : Datagram Host} (h : Settles seg d) :
    OneReplyEach seg d := by
  intro t run host
  have hanswers : Answers seg d t :=
    run.invariant (start_answers seg d) fun _ _ _ hs hstep => answers_step h hs hstep
  exact Nat.le_trans (Nat.le_add_right _ _) (hanswers.once host)

/-- Where no server gets the datagram, nothing happens. -/
theorem oneReplyEach_of_broadcast_eq_nil {seg : Segment Host} {d : Datagram Host}
    (h : seg.broadcast d = []) : OneReplyEach seg d := by
  intro t run host
  have hstart : seg.start d = t := by
    refine run.invariant rfl ?_
    rintro u a v rfl hstep
    cases a <;> simp [Segment.step, Segment.start, h] at hstep
  rw [← hstart]
  exact Nat.zero_le _

/-! ## More than one reply -/

section Replies

variable {seg : Segment Host} {s : State Host} {x : Delivery Host}

theorem step_reply (hx : x ∈ s.pending) (hstopped : s.stopped = []) (hoverrun : s.overrun = [])
    (hother : FromOther x) {reply : Bytes} (hreply : replyTo x.datagram.contents = some reply)
    (hport : x.datagram.sourcePort ≠ 0) :
    seg.step s (.deliver x .sent) = some
      { s with
        pending := s.pending.erase x ++ seg.broadcast (seg.reply x.server x.datagram reply)
        replied := x.server :: s.replied } := by
  rw [Segment.step, if_pos hx, Segment.serve, if_neg (by simp [hstopped, hoverrun]),
    if_neg hother, hreply]
  dsimp only
  rw [if_neg (by simp [hport])]

theorem step_overrun (hx : x ∈ s.pending) (hstopped : s.stopped = []) (hoverrun : s.overrun = [])
    (hother : FromOther x) (hlong : replyTo x.datagram.contents = none) :
    seg.step s (.deliver x .sent) =
      some { s with pending := s.pending.erase x, overrun := [x.server] } := by
  rw [Segment.step, if_pos hx, Segment.serve, if_neg (by simp [hstopped, hoverrun]),
    if_neg hother, hlong, hoverrun]

theorem step_stray {host : Host} (h : host ∈ s.overrun) (d : Datagram Host) :
    seg.step s (.stray host d) =
      some { s with pending := s.pending ++ seg.broadcast d, replied := host :: s.replied } :=
  if_pos h

/-- A server that has written behind the end of its buffer may send twice. -/
theorem not_oneReplyEach_of_overrun {d : Datagram Host} (run : Reaches seg.step (seg.start d) s)
    {host : Host} (h : host ∈ s.overrun) : ¬ OneReplyEach seg d := by
  intro hone
  have hfirst := run.tail (step_stray h d)
  have hsecond := hfirst.tail (step_stray (by exact h) d)
  have hcount := hone _ hsecond host
  dsimp only at hcount
  rw [List.count_cons_self, List.count_cons_self] at hcount
  omega

/-- A server that answers once more, or runs over its buffer, was not through with its one
reply. -/
theorem not_oneReplyEach_of_deliver {d : Datagram Host}
    (run : Reaches seg.step (seg.start d) s) (hx : x ∈ s.pending) (hstopped : s.stopped = [])
    (hoverrun : s.overrun = []) (hother : FromOther x) (hport : x.datagram.sourcePort ≠ 0)
    (hreplied : x.server ∈ s.replied) : ¬ OneReplyEach seg d := by
  cases hreply : replyTo x.datagram.contents with
  | none =>
      exact not_oneReplyEach_of_overrun
        (run.tail (step_overrun hx hstopped hoverrun hother hreply)) (List.mem_singleton_self _)
  | some reply =>
      intro hone
      have hcount :=
        hone _ (run.tail (step_reply hx hstopped hoverrun hother hreply hport)) x.server
      dsimp only at hcount
      rw [List.count_cons_self] at hcount
      have hpos := List.count_pos_iff.mpr hreplied
      omega

/-- A text that is too long is an overrun for the first server it reaches. -/
theorem not_oneReplyEach_of_long {d : Datagram Host} {host : Host} (hhost : host ∈ seg.servers)
    (hdest : d.destPort = seg.port) (hsource : d.source ≠ host)
    (hlong : replyTo d.contents = none) : ¬ OneReplyEach seg d := by
  have hx : (⟨host, d⟩ : Delivery Host) ∈ (seg.start d).pending :=
    mem_broadcast.mpr ⟨hdest, hhost, rfl⟩
  exact not_oneReplyEach_of_overrun (Reaches.refl.tail (step_overrun hx rfl rfl hsource hlong))
    (List.mem_singleton_self _)

/-- Where the datagram comes from the servers' port, a server that has answered it gets the
answer of another one. -/
theorem not_oneReplyEach_of_port {d : Datagram Host} {a b : Host} (ha : a ∈ seg.servers)
    (hb : b ∈ seg.servers) (hab : a ≠ b) (hdest : d.destPort = seg.port)
    (hsourcePort : d.sourcePort = seg.port) (hsource : ∀ host ∈ seg.servers, d.source ≠ host)
    {reply : Bytes} (hreply : replyTo d.contents = some reply) : ¬ OneReplyEach seg d := by
  have hport : d.sourcePort ≠ 0 := hsourcePort ▸ seg.port_pos
  have hpending : ∀ host ∈ seg.servers, (⟨host, d⟩ : Delivery Host) ∈ seg.broadcast d :=
    fun host hhost => mem_broadcast.mpr ⟨hdest, hhost, rfl⟩
  have hstart : Reaches seg.step (seg.start d) (seg.start d) := .refl
  have hfirst :=
    hstart.tail (step_reply (x := ⟨a, d⟩) (hpending a ha) rfl rfl (hsource a ha) hreply hport)
  have hleft : (⟨b, d⟩ : Delivery Host) ∈ (seg.broadcast d).erase ⟨a, d⟩ :=
    (List.mem_erase_of_ne (by simpa using hab.symm)).mpr (hpending b hb)
  have hsecond := hfirst.tail (step_reply (x := ⟨b, d⟩) (List.mem_append_left _ hleft) (by rfl)
    (by rfl) (hsource b hb) hreply hport)
  have hanswer : (⟨b, seg.reply a d reply⟩ : Delivery Host) ∈
      seg.broadcast (seg.reply a d reply) := mem_broadcast.mpr ⟨hsourcePort, hb, rfl⟩
  refine not_oneReplyEach_of_deliver (x := ⟨b, seg.reply a d reply⟩)
    hsecond ?_ rfl rfl hab seg.port_pos List.mem_cons_self
  refine List.mem_append_left _ ((List.mem_erase_of_ne ?_).mpr (List.mem_append_right _ hanswer))
  intro hsame
  exact hsource a ha (congrArg (fun x => x.datagram.source) hsame).symm

/-- One reply of each server is all only where the datagram settles. -/
theorem OneReplyEach.settles {d : Datagram Host} (h : OneReplyEach seg d) {a : Host}
    (ha : a ∈ seg.servers) (hdest : d.destPort = seg.port)
    (hsource : ∀ host ∈ seg.servers, d.source ≠ host) : Settles seg d := by
  cases hreply : replyTo d.contents with
  | none => exact absurd h (not_oneReplyEach_of_long ha hdest (hsource a ha) hreply)
  | some reply =>
      have hfits : ¬ (512 ≤ d.contents.length ∨ 507 ≤ (visible d.contents).length) := by
        rw [← replyTo_eq_none, hreply]
        exact Option.some_ne_none reply
      refine ⟨by omega, by omega, or_iff_not_imp_left.mpr fun hport => ?_⟩
      rw [not_not] at hport
      by_contra hmany
      have hmore : seg.servers ≠ [a] := fun hone => hmany (by rw [hone]; rfl)
      obtain ⟨b, hb, hba⟩ :=
        ((seg.nodup.ne_singleton_iff a).mp hmore).resolve_left (List.ne_nil_of_mem ha)
      exact not_oneReplyEach_of_port ha hb hba.symm hdest hport hsource hreply h

end Replies

/-- What one datagram from a host that is no server brings about: at most one reply of each
server, unless it is too long for the buffer, or comes from the servers' own port and reaches
two of them. -/
theorem one_reply_each_iff (seg : Segment Host) (d : Datagram Host)
    (hsource : d.source ∉ seg.servers) :
    OneReplyEach seg d ↔ d.destPort ≠ seg.port ∨ seg.servers = [] ∨ Settles seg d := by
  constructor
  · intro hone
    by_cases hdest : d.destPort = seg.port
    · cases hservers : seg.servers with
      | nil => exact .inr (.inl rfl)
      | cons a rest =>
          have ha : a ∈ seg.servers := hservers ▸ List.mem_cons_self
          have hother : ∀ host ∈ seg.servers, d.source ≠ host :=
            fun host hhost hsame => hsource (hsame ▸ hhost)
          exact .inr (.inr (hone.settles ha hdest hother))
    · exact .inl hdest
  · rintro (hdest | hservers | hsettles)
    · exact oneReplyEach_of_broadcast_eq_nil (if_neg hdest)
    · refine oneReplyEach_of_broadcast_eq_nil ?_
      unfold Segment.broadcast
      rw [hservers, List.map_nil, ite_self]
    · exact hsettles.oneReplyEach

/-- Two servers on port 5000. -/
def twoServers : Segment Nat where
  servers := [1, 2]
  nodup := by decide
  port := 5000
  port_pos := by decide

theorem one_reply_each_from_5001 : OneReplyEach twoServers
    { source := 0, sourcePort := 5001, destPort := 5000, contents := ascii ['a'] } :=
  (one_reply_each_iff twoServers _ (by decide)).mpr
    (.inr (.inr ⟨by decide, by decide, .inl (by decide)⟩))

/-- A datagram from the servers' port, and the second server answers both it and the answer
of the first one. -/
theorem answer_is_answered : 0 ∉ twoServers.servers ∧ ¬ OneReplyEach twoServers
    { source := 0, sourcePort := 5000, destPort := 5000, contents := ascii ['a'] } :=
  ⟨by decide, not_oneReplyEach_of_port (a := 1) (b := 2) (by decide) (by decide) (by decide) rfl
    rfl (by decide) rfl⟩

end NetworkProgram.UServerB
