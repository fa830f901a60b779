import NetworkProgram.UServer.Model
import NetworkProgram.UServerB.Replies

set_option autoImplicit false

/-!
# UServer: the receive buffer

The loops go on after an error of `recvfrom`, and then the NUL is stored in front of the
buffer.  A datagram that fills the buffer is terminated behind its end, and `strcat` of
`u-server-b.c` needs room for all of `":OK\r\n"`.
-/

namespace NetworkProgram.UServer

open NetworkProgram.Foundation
open NetworkProgram.Libc
open NetworkProgram.Echo (Stack)

variable {Address : Type}

/-- An error stores nothing and sends nothing, and all stores are to the buffer. -/
def Exchange.Safe (x : Exchange Address) : Prop :=
  (match x.outcome with
    | .error => (∀ i, .write i ∉ x.log) ∧ x.sent = none
    | .datagram _ => True) ∧
  ∀ i, .write i ∈ x.log → 0 ≤ i ∧ i ≤ 511

/-- A datagram that `u-server` has room for. -/
def Fits (contents : Bytes) : Prop := contents.length ≤ 511

/-- A datagram that `u-server-b` has room for, with all of the reply. -/
def FitsB (contents : Bytes) : Prop := contents.length ≤ 511 ∧ (visible contents).length ≤ 506

/-- The peer's address and the outcome in every round, up to the first whose reply does not
go out. -/
def Program.heard (p : Program Address) :
    Address → List (Round Address) → List (Address × Outcome Address)
  | _, [] => []
  | stale, r :: rounds =>
      (r.outcome.peer stale, r.outcome) ::
        if p.ignores (r.outcome.peer stale) ∨ r.delivered then
          p.heard (r.outcome.peer stale) rounds
        else []

/-- What comes in is passed over, or a datagram that `fits`. -/
def Program.Takes (p : Program Address) (fits : Bytes → Prop) :
    Address × Outcome Address → Prop
  | (peer, .error) => p.ignores peer
  | (peer, .datagram d) => p.ignores peer ∨ fits d.contents

/-! ## One round -/

/-- The routine that makes the reply stays in the buffer for the datagrams that fit, and for
no others. -/
structure Replies (p : Program Address) (fits : Bytes → Prop) : Prop where
  inside : ∀ {contents buf : Bytes}, contents.length ≤ bufSize → buf.length = bufSize →
    fits contents → ∃ reply left, left.length = bufSize ∧
      Traced.Ends (Access.Below bufSize) (p.reply contents.length)
        (contents ++ buf.drop contents.length) reply left
  outside : ∀ {contents buf : Bytes}, contents.length ≤ bufSize → buf.length = bufSize →
    ¬ fits contents → Access.write bufSize ∈
      (p.reply contents.length (contents ++ buf.drop contents.length)).log
  error : ∀ buf : Bytes, Access.write (-1) ∈ (p.reply (-1) buf).log

section Round

variable {p : Program Address} {fits : Bytes → Prop} {stale : Address} {buf : Bytes}
  {d : Datagram Address}

theorem ends_recvfrom (hbuf : buf.length = bufSize) :
    Traced.Ends (Access.Below bufSize) (recvfromTraced (.datagram d)) buf
      (d.contents.length : Int) (d.contents ++ buf.drop d.contents.length) :=
  (Traced.ends_store_zero d.fits hbuf).1.bind (Traced.ends_pure _)

/-- An error leaves the peer's address and the buffer. -/
theorem round_error (p : Program Address) (stale : Address) (buf : Bytes) :
    p.roundTraced stale .error buf =
      (if p.ignores stale then pure none else p.reply (-1) >>= fun reply => pure (some reply) :
        Traced UInt8 (Option Bytes)) buf := rfl

theorem round_error_ignored (h : p.ignores stale) :
    p.roundTraced stale .error buf = { log := [], result := some (none, buf) } := by
  rw [round_error, if_pos h]
  rfl

theorem safe_error_ignored (h : p.ignores stale) :
    Exchange.Safe
      { outcome := (.error : Outcome Address)
        log := (p.roundTraced stale .error buf).log
        sent := none } := by
  rw [round_error_ignored h]
  exact ⟨⟨fun _ => List.not_mem_nil, rfl⟩, fun _ h => absurd h List.not_mem_nil⟩

/-- A datagram that is passed over is received all the same. -/
theorem ends_round_ignored (stale : Address) (hbuf : buf.length = bufSize)
    (h : p.ignores d.source) :
    ∃ left, left.length = bufSize ∧ Traced.Ends (Access.Below bufSize)
      (p.roundTraced stale (.datagram d)) buf none left := by
  have hpeer : p.ignores (Outcome.peer stale (.datagram d)) := h
  refine ⟨_, (Traced.ends_store_zero d.fits hbuf).2, (ends_recvfrom hbuf).bind ?_⟩
  rw [if_pos hpeer]
  exact Traced.ends_pure none

theorem ends_round (stale : Address) (hp : Replies p fits) (hbuf : buf.length = bufSize)
    (h : ¬ p.ignores d.source) (hfits : fits d.contents) :
    ∃ reply left, left.length = bufSize ∧ Traced.Ends (Access.Below bufSize)
      (p.roundTraced stale (.datagram d)) buf (some reply) left := by
  obtain ⟨reply, left, hleft, hends⟩ := hp.inside d.fits hbuf hfits
  have hpeer : ¬ p.ignores (Outcome.peer stale (.datagram d)) := h
  refine ⟨reply, left, hleft, (ends_recvfrom hbuf).bind ?_⟩
  rw [if_neg hpeer]
  exact hends.bind (Traced.ends_pure _)

/-- Where the routine does not stay in the buffer, the round is not safe. -/
theorem round_overrun (hp : Replies p fits) (hbuf : buf.length = bufSize)
    {outcome : Outcome Address} (h : ¬ p.Takes fits (outcome.peer stale, outcome))
    (sent : Option Bytes) :
    ¬ Exchange.Safe
      { outcome := outcome, log := (p.roundTraced stale outcome buf).log, sent := sent } := by
  rintro ⟨herror, hstores⟩
  cases outcome with
  | error =>
      have hpeer : ¬ p.ignores stale := h
      refine herror.1 (-1) ?_
      dsimp only
      rw [round_error, if_neg hpeer]
      exact Traced.mem_log_bind (hp.error buf)
  | datagram d =>
      obtain ⟨hignores, hfits⟩ := not_or.mp h
      have hwrite : Access.write bufSize ∈ (p.roundTraced stale (.datagram d) buf).log := by
        have hpeer : ¬ p.ignores (Outcome.peer stale (.datagram d)) := hignores
        refine (ends_recvfrom hbuf).mem_log ?_
        rw [if_neg hpeer]
        exact Traced.mem_log_bind (hp.outside d.fits hbuf hfits)
      exact absurd (hstores _ hwrite).2 (by decide)

theorem safe_of_ends {reply : Option Bytes} {left : Bytes} (sent : Option Bytes)
    (h : Traced.Ends (Access.Below bufSize) (p.roundTraced stale (.datagram d)) buf reply left) :
    Exchange.Safe { outcome := .datagram d
                    log := (p.roundTraced stale (.datagram d) buf).log
                    sent := sent } := by
  refine ⟨trivial, fun i hi => ?_⟩
  obtain ⟨hlow, hhigh⟩ := h.log _ hi
  exact ⟨hlow, Int.le_of_lt_add_one hhigh⟩

end Round

/-! ## The loop -/

section Run

variable {p : Program Address} {fits : Bytes → Prop}

/-- The round of an exchange that is seen, whatever follows. -/
theorem exists_mem_run (stale : Address) (buf : Bytes) (r : Round Address)
    (rounds : List (Round Address)) :
    ∃ sent, { outcome := r.outcome, log := (p.roundTraced stale r.outcome buf).log,
              sent := sent } ∈ p.run stale buf (r :: rounds) := by
  rw [Program.run]
  split
  · exact ⟨none, List.mem_cons_self⟩
  · exact ⟨none, List.mem_cons_self⟩
  · split
    · exact ⟨_, List.mem_cons_self⟩
    · exact ⟨none, List.mem_cons_self⟩

theorem run_cons_ignored {stale : Address} {buf left : Bytes} {r : Round Address}
    {rounds : List (Round Address)}
    (h : (p.roundTraced stale r.outcome buf).result = some (none, left)) :
    p.run stale buf (r :: rounds) =
      { outcome := r.outcome, log := (p.roundTraced stale r.outcome buf).log, sent := none } ::
        p.run (r.outcome.peer stale) left rounds := by
  rw [Program.run, h]

theorem run_cons_sent {stale : Address} {buf left reply : Bytes} {outcome : Outcome Address}
    {rounds : List (Round Address)}
    (h : (p.roundTraced stale outcome buf).result = some (some reply, left)) :
    p.run stale buf ({ outcome := outcome, delivered := true } :: rounds) =
      { outcome := outcome, log := (p.roundTraced stale outcome buf).log, sent := some reply } ::
        p.run (outcome.peer stale) left rounds := by
  rw [Program.run, h]
  rfl

theorem run_cons_unsent {stale : Address} {buf left reply : Bytes} {outcome : Outcome Address}
    {rounds : List (Round Address)}
    (h : (p.roundTraced stale outcome buf).result = some (some reply, left)) :
    p.run stale buf ({ outcome := outcome, delivered := false } :: rounds) =
      [{ outcome := outcome, log := (p.roundTraced stale outcome buf).log, sent := none }] := by
  rw [Program.run, h]
  rfl

theorem heard_cons_of_ignores {stale : Address} {r : Round Address}
    {rounds : List (Round Address)} (h : p.ignores (r.outcome.peer stale)) :
    p.heard stale (r :: rounds) = (r.outcome.peer stale, r.outcome) ::
      p.heard (r.outcome.peer stale) rounds := by
  rw [Program.heard, if_pos (.inl h)]

theorem heard_cons_of_sent {stale : Address} {outcome : Outcome Address}
    {rounds : List (Round Address)} :
    p.heard stale ({ outcome := outcome, delivered := true } :: rounds) =
      (outcome.peer stale, outcome) :: p.heard (outcome.peer stale) rounds := by
  rw [Program.heard, if_pos (.inr rfl)]

theorem heard_cons_of_unsent {stale : Address} {outcome : Outcome Address}
    {rounds : List (Round Address)} (h : ¬ p.ignores (outcome.peer stale)) :
    p.heard stale ({ outcome := outcome, delivered := false } :: rounds) =
      [(outcome.peer stale, outcome)] := by
  rw [Program.heard, if_neg (not_or.mpr ⟨h, Bool.false_ne_true⟩)]

/-- All rounds are safe exactly if everything that is heard is passed over or fits. -/
theorem run_safe_iff (hp : Replies p fits) (stale : Address) {buf : Bytes}
    (hbuf : buf.length = bufSize) (rounds : List (Round Address)) :
    (∀ x ∈ p.run stale buf rounds, x.Safe) ↔ ∀ h ∈ p.heard stale rounds, p.Takes fits h := by
  induction rounds generalizing stale buf with
  | nil => exact iff_of_true (List.forall_mem_nil _) (List.forall_mem_nil _)
  | cons r rounds ih =>
      obtain ⟨outcome, delivered⟩ := r
      by_cases htakes : p.Takes fits (outcome.peer stale, outcome)
      · cases outcome with
        | error =>
            have hround : p.roundTraced stale .error buf = _ := round_error_ignored htakes
            have hheard : p.heard stale ({ outcome := .error, delivered := delivered } :: rounds) =
                _ := heard_cons_of_ignores htakes
            rw [run_cons_ignored (congrArg Effect.result hround), hheard, List.forall_mem_cons,
              List.forall_mem_cons]
            exact and_congr (iff_of_true (safe_error_ignored htakes) htakes) (ih stale hbuf)
        | datagram d =>
            by_cases hignores : p.ignores d.source
            · obtain ⟨left, hleft, hends⟩ := ends_round_ignored stale hbuf hignores
              rw [run_cons_ignored hends.result, heard_cons_of_ignores hignores,
                List.forall_mem_cons, List.forall_mem_cons]
              exact and_congr (iff_of_true (safe_of_ends none hends) htakes) (ih d.source hleft)
            · obtain ⟨reply, left, hleft, hends⟩ :=
                ends_round stale hp hbuf hignores (htakes.resolve_left hignores)
              cases delivered with
              | true =>
                  rw [run_cons_sent hends.result, heard_cons_of_sent, List.forall_mem_cons,
                    List.forall_mem_cons]
                  exact and_congr (iff_of_true (safe_of_ends _ hends) htakes) (ih d.source hleft)
              | false =>
                  rw [run_cons_unsent hends.result, heard_cons_of_unsent hignores]
                  exact iff_of_true (List.forall_mem_singleton.mpr (safe_of_ends none hends))
                    (List.forall_mem_singleton.mpr htakes)
      · refine iff_of_false (fun hsafe => ?_) fun hall => htakes (hall _ List.mem_cons_self)
        obtain ⟨sent, hmem⟩ := exists_mem_run (p := p) stale buf
          { outcome := outcome, delivered := delivered } rounds
        exact round_overrun hp hbuf htakes sent (hsafe _ hmem)

end Run

/-! ## The two programs -/

theorem replies_uServer : Replies (uServer : Program Address) Fits where
  inside := fun hle hbuf hfits => by
    have hlen := (Traced.ends_store_zero hle hbuf).2
    refine ⟨_, _, ?_, ends_reply hlen (Nat.lt_succ_of_le hfits)⟩
    rw [length_mystrlcat, cutLine, length_cutAt, List.length_set, hlen]
  outside := fun {contents buf} hle hbuf hlong => by
    have hfull : contents.length = bufSize := Nat.le_antisymm hle (Nat.lt_of_not_le hlong)
    rw [hfull]
    exact Traced.mem_log_bind (Traced.mem_log_write _ _)
  error := fun buf => Traced.mem_log_bind (Traced.mem_log_write _ _)

/-- `strcat` needs room for all of `":OK\r\n"` and the NUL. -/
theorem ends_strcatReply {buf : Bytes} {len : Nat} (hcut : Cut buf bufSize len)
    (htext : (visible (buf.take len)).length ≤ 506) :
    ∃ left, Traced.Ends (Access.Below bufSize) (strcatReplyTraced len) buf
      (okReply (visible (buf.take len))) left ∧ left.length = bufSize := by
  have hsize : bufSize = 512 := rfl
  have htail : okTail.length = 5 := rfl
  have hlen : strlen (cutLine (buf.set len 0)) ≤ 506 := by
    rw [strlen, hcut.string]
    exact htext
  have hroom : strlen (cutLine (buf.set len 0)) + okTail.length <
      (cutLine (buf.set len 0)).length := by
    rw [hcut.length]
    omega
  obtain ⟨rest, hstrcat, hleft⟩ := ends_strcat (P := Access.Below bufSize) okTail hroom
    (fun j hj => Access.read_below (hj.trans_eq hcut.length))
    fun j hj => Access.write_below (by omega)
  rw [hcut.string] at hstrcat hleft
  have hstring : cstr (visible (buf.take len) ++ okTail ++ 0 :: rest) =
      okReply (visible (buf.take len)) := by
    refine cstr_append_nul (fun hmem => ?_) rest
    rw [List.mem_append, ← hcut.string] at hmem
    exact hmem.elim (nul_notMem_cstr _) (by decide)
  have hload := ends_loadString (hleft.trans hcut.length) (by
    rw [strlen, hstring, okReply, List.length_append]
    omega)
  rw [hstring] at hload
  exact ⟨_, hcut.terminate.bind (hcut.cut.bind (hcut.print.bind (hstrcat.bind hload))),
    hleft.trans hcut.length⟩

theorem mem_log_strcatReply {buf : Bytes} {len : Nat} (hcut : Cut buf bufSize len)
    (htext : 506 < (visible (buf.take len)).length) :
    Access.write bufSize ∈ (strcatReplyTraced len buf).log := by
  have hshort := hcut.short
  have htail : (okTail ++ [0]).length = 6 := rfl
  have hlen : 506 < strlen (cutLine (buf.set len 0)) := by
    rw [strlen, hcut.string]
    exact htext
  have hlong : (cutLine (buf.set len 0)).length <
      strlen (cutLine (buf.set len 0)) + (okTail ++ [0]).length := by
    rw [hcut.length, htail, bufSize]
    omega
  have hstore := Traced.mem_log_store (hshort.le.trans_eq hcut.length.symm) hlong
  rw [hcut.length] at hstore
  exact hcut.terminate.mem_log (hcut.cut.mem_log (hcut.print.mem_log (Traced.mem_log_bind
    (hcut.print.mem_log hstore))))

theorem replies_uServerB [DecidableEq Address] (myAddr : Address) :
    Replies (uServerB myAddr) FitsB where
  inside := fun {contents buf} hle hbuf hfits => by
    have hcut := cut_received (Traced.ends_store_zero hle hbuf).2
      (show contents.length < bufSize from Nat.lt_succ_of_le hfits.1)
    obtain ⟨left, hends, hleft⟩ := ends_strcatReply hcut (by
      rw [List.take_left]
      exact hfits.2)
    exact ⟨_, _, hleft, hends⟩
  outside := fun {contents buf} hle hbuf hlong => by
    rcases Nat.eq_or_lt_of_le hle with hfull | hlt
    · rw [hfull]
      exact Traced.mem_log_bind (Traced.mem_log_write _ _)
    · have hcut := cut_received (Traced.ends_store_zero hle hbuf).2 hlt
      refine mem_log_strcatReply hcut ?_
      rw [List.take_left]
      exact Nat.lt_of_not_le fun htext => hlong ⟨Nat.le_of_lt_succ hlt, htext⟩
  error := fun buf => Traced.mem_log_bind (Traced.mem_log_write _ _)

/-- A datagram is answered as `UServerB.replyTo` says. -/
theorem fitsB_iff_replyTo {contents : Bytes} :
    FitsB contents ↔ UServerB.replyTo contents ≠ none := by
  rw [ne_eq, UServerB.replyTo_eq_none, FitsB]
  omega

/-- What comes in has to be a datagram with room left in the buffer: for a NUL in `u-server`,
for the suffix too in `u-server-b`, unless it comes from the own address. -/
theorem udp_safe_iff [DecidableEq Address] (stale myAddr : Address) (stack : Stack)
    (rounds : List (Round Address)) :
    ((∀ x ∈ uServer.run stale stack.bytes rounds, x.Safe) ↔
      ∀ h ∈ uServer.heard stale rounds, uServer.Takes Fits h) ∧
    ((∀ x ∈ (uServerB myAddr).run stale stack.bytes rounds, x.Safe) ↔
      ∀ h ∈ (uServerB myAddr).heard stale rounds, (uServerB myAddr).Takes FitsB h) :=
  ⟨run_safe_iff replies_uServer stale stack.size rounds,
    run_safe_iff (replies_uServerB myAddr) stale stack.size rounds⟩

/-- An error is enough. -/
theorem udp_error_stores : ¬ ∀ (stack : Stack) (rounds : List (Round Nat)),
    ∀ x ∈ uServer.run 0 stack.bytes rounds, x.Safe := by
  intro h
  have hsafe := (run_safe_iff replies_uServer 0 List.length_replicate _).mp
    (h { bytes := List.replicate bufSize 0, size := List.length_replicate }
      [{ outcome := .error, delivered := true }])
  exact Bool.false_ne_true (hsafe _ List.mem_cons_self)

end NetworkProgram.UServer
