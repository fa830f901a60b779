import NetworkProgram.Client.Model
import NetworkProgram.UServer.Accesses

set_option autoImplicit false

/-!
# UClient: `send_recv_loop` of `chapter09/u-client.c`

The client prints every datagram that arrives, and takes the lines `host:port` of the
standard input apart and sends each line, as it is, to the host and the port it names.
Both use one buffer, and a datagram that fills it is terminated behind its end.
-/

namespace NetworkProgram.UClient

open NetworkProgram.Foundation
open NetworkProgram.Libc
open NetworkProgram.Client (atEof)
open NetworkProgram.UServer (bufSize Outcome Datagram)

/-! ## `strtok` -/

/-- The next token of a string, and what is behind the byte that ends it. -/
def strtok (delim text : Bytes) : Option (Bytes × Bytes) :=
  match text.dropWhile fun c => c ∈ delim with
  | [] => none
  | c :: rest =>
      some ((c :: rest).takeWhile fun c => c ∉ delim,
        ((c :: rest).dropWhile fun c => c ∉ delim).drop 1)

/-- `hostnm` and `portnm` -/
def hostPort (line : Bytes) : Option (Bytes × Bytes) :=
  match strtok (ascii [':']) line with
  | none => none
  | some (hostnm, rest) =>
      match strtok [cr, lf] rest with
      | none => none
      | some (portnm, _) => some (hostnm, portnm)

/-! ## One round -/

variable {Address : Type}

/-- The address that `getaddrinfo` finds for a host and a port. -/
abbrev Resolver (Address : Type) : Type := Bytes → Bytes → Option Address

/-- Where a line goes to. -/
def addressee (resolve : Resolver Address) (line : Bytes) : Option Address :=
  match hostPort line with
  | none => none
  | some (hostnm, portnm) => resolve hostnm portnm

/-- What one round brings about. -/
structure Turn (Address : Type) where
  /-- Whose datagram is printed, and what of it stands behind `"> "`. -/
  shown : Option (Address × Bytes)
  /-- The datagram that goes out. -/
  sent : Option (Address × Bytes)
  ended : Bool

/-- What `fgets` gives and leaves, whether `getaddrinfo` and `sendto` succeed. -/
structure Typed where
  piece : Bytes
  rest : Bytes
  found : Bool
  delivered : Bool

/-- `recvfrom`, and the datagram as a string. -/
def recvTraced (outcome : Outcome Address) : Traced UInt8 (Option (Address × Bytes)) :=
  match outcome with
  | .error => pure none
  | .datagram d => do
      Traced.store 0 d.contents
      Traced.write d.contents.length 0
      let len ← strlenTraced
      let text ← Traced.load 0 len
      pure (some (d.source, text))

/-- At the end of the input `fgets` leaves the buffer alone. -/
def fgetsTraced (piece : Bytes) : Traced UInt8 Unit :=
  if piece = [] then pure () else Traced.store 0 (piece ++ [0])

/-- `feof`, the copy in `buf2` that `strtok` takes apart, and `sendto`: what goes out, and
whether the loop ends. -/
def forwardTraced (resolve : Resolver Address) (typed : Typed) :
    Traced UInt8 (Option (Address × Bytes) × Bool) :=
  if atEof typed.piece typed.rest then pure (none, true)
  else do
    let buf2 ← Traced.load 0 bufSize
    match addressee resolve (cstr buf2) with
    | none => pure (none, false)
    | some dest =>
        if typed.found then do
          let len ← strlenTraced
          let line ← Traced.load 0 len
          if typed.delivered then pure (some (dest, line), false) else pure (none, true)
        else pure (none, false)

/-- The standard input is ready, or not. -/
def typeTraced (resolve : Resolver Address) :
    Option Typed → Traced UInt8 (Option (Address × Bytes) × Bool)
  | none => pure (none, false)
  | some typed => do
      fgetsTraced typed.piece
      forwardTraced resolve typed

/-- The socket is ready, or not; an error of `recvfrom` ends the loop. -/
def hearTraced : Option (Outcome Address) → Traced UInt8 (Option (Option (Address × Bytes)))
  | none => pure (some none)
  | some outcome => do
      let shown ← recvTraced outcome
      pure (shown.map some)

/-- One round.  An error and a time-out of `select` have no effect. -/
def turnTraced (resolve : Resolver Address) (soc : Option (Outcome Address))
    (stdin : Option Typed) : Traced UInt8 (Turn Address) := do
  let heard ← hearTraced soc
  match heard with
  | none => pure { shown := none, sent := none, ended := true }
  | some shown => do
      let result ← typeTraced resolve stdin
      pure { shown := shown, sent := result.1, ended := result.2 }

/-! ## What a round does in its buffer -/

/-- What `forwardTraced` gives. -/
def forwarding (resolve : Resolver Address) (typed : Typed) : Option (Address × Bytes) × Bool :=
  if atEof typed.piece typed.rest then (none, true)
  else
    match addressee resolve (cstr typed.piece) with
    | none => (none, false)
    | some dest =>
        if typed.found then
          if typed.delivered then (some (dest, cstr typed.piece), false) else (none, true)
        else (none, false)

def typing (resolve : Resolver Address) : Option Typed → Option (Address × Bytes) × Bool
  | none => (none, false)
  | some typed => forwarding resolve typed

def hearing : Option (Outcome Address) → Option (Option (Address × Bytes))
  | none => some none
  | some .error => none
  | some (.datagram d) => some (some (d.source, cstr d.contents))

/-- What `turnTraced` gives. -/
def turn (resolve : Resolver Address) (soc : Option (Outcome Address)) (stdin : Option Typed) :
    Turn Address :=
  match hearing soc with
  | none => { shown := none, sent := none, ended := true }
  | some shown =>
      { shown := shown
        sent := (typing resolve stdin).1
        ended := (typing resolve stdin).2 }

section Rules

variable {resolve : Resolver Address} {buf : Bytes} {d : Datagram Address} {typed : Typed}

/-- The buffer of a client keeps its size, and only it is used. -/
def Works {β : Type} (m : Traced UInt8 β) (buf : Bytes) (b : β) : Prop :=
  ∃ left, left.length = bufSize ∧ Traced.Ends (Access.Below bufSize) m buf b left

/-- `strlen` of a string in the buffer, and the string. -/
theorem ends_text {text rest : Bytes} (h : (text ++ 0 :: rest).length = bufSize) :
    Traced.Ends (Access.Below bufSize) strlenTraced (text ++ 0 :: rest) (strlen text)
        (text ++ 0 :: rest) ∧
      Traced.Ends (Access.Below bufSize) (Traced.load 0 (strlen text)) (text ++ 0 :: rest)
        (cstr text) (text ++ 0 :: rest) := by
  have hcstr : cstr (text ++ 0 :: rest) = cstr text := cstr_append_zero text rest
  have hlen : strlen (text ++ 0 :: rest) = strlen text := congrArg List.length hcstr
  have hshort : strlen (text ++ 0 :: rest) < bufSize := by
    have hle : strlen text ≤ text.length := (List.takeWhile_prefix _).length_le
    rw [hlen, ← h, List.length_append, List.length_cons]
    omega
  have hload : Traced.Ends (Access.Below bufSize) (Traced.load 0 (strlen (text ++ 0 :: rest)))
      (text ++ 0 :: rest) (((text ++ 0 :: rest).drop 0).take (strlen (text ++ 0 :: rest)))
      (text ++ 0 :: rest) :=
    Traced.ends_load (by omega) fun j _ hj => Access.read_below (by omega)
  have hstrlen := ends_strlen (P := Access.Below bufSize) (by rwa [h]) fun j hj =>
    Access.read_below (h ▸ hj)
  rw [List.drop_zero, take_strlen, hcstr, hlen] at hload
  rw [hlen] at hstrlen
  exact ⟨hstrlen, hload⟩

theorem recv_works (hbuf : buf.length = bufSize) (hfits : d.contents.length < bufSize) :
    Works (recvTraced (.datagram d)) buf (some (d.source, cstr d.contents)) := by
  obtain ⟨hstore, hlen⟩ := Traced.ends_store_zero d.fits hbuf
  obtain ⟨c, rest, hrest⟩ : ∃ c rest, buf.drop d.contents.length = c :: rest := by
    refine List.exists_cons_of_ne_nil fun hnil => ?_
    have := List.drop_eq_nil_iff.mp hnil
    omega
  rw [hrest] at hstore hlen
  have hset : (d.contents ++ c :: rest).set d.contents.length 0 = d.contents ++ 0 :: rest := by
    simp
  have hwrite := Traced.ends_write (P := Access.Below bufSize) (0 : UInt8)
    (show d.contents.length < (d.contents ++ c :: rest).length by omega)
    (Access.write_below hfits)
  rw [hset] at hwrite
  have hkept : (d.contents ++ 0 :: rest).length = bufSize := by
    rw [← hlen, List.length_append, List.length_append, List.length_cons, List.length_cons]
  refine ⟨d.contents ++ 0 :: rest, hkept, ?_⟩
  obtain ⟨hstrlen, hload⟩ := ends_text hkept
  exact hstore.bind (hwrite.bind (hstrlen.bind (hload.bind (Traced.ends_pure _))))

/-- A datagram that fills the buffer is terminated behind its end. -/
theorem recv_overrun (hbuf : buf.length = bufSize) (hfull : d.contents.length = bufSize) :
    Access.write bufSize ∈ (recvTraced (.datagram d) buf).log := by
  refine (Traced.ends_store_zero d.fits hbuf).1.mem_log ?_
  rw [hfull]
  exact Traced.mem_log_bind (Traced.mem_log_write _ _)

/-- The line stands in the buffer. -/
theorem ends_forward {text rest : Bytes} (h : (text ++ 0 :: rest).length = bufSize)
    (htyped : typed.piece = text) :
    Traced.Ends (Access.Below bufSize) (forwardTraced resolve typed) (text ++ 0 :: rest)
      (forwarding resolve typed) (text ++ 0 :: rest) := by
  rw [forwardTraced, forwarding, htyped]
  by_cases heof : atEof text typed.rest
  · rw [if_pos heof, if_pos heof]
    exact Traced.ends_pure _
  rw [if_neg heof, if_neg heof]
  have hcopy : Traced.Ends (Access.Below bufSize) (Traced.load 0 bufSize) (text ++ 0 :: rest)
      (((text ++ 0 :: rest).drop 0).take bufSize) (text ++ 0 :: rest) :=
    Traced.ends_load (by omega) fun j _ hj => Access.read_below (by omega)
  rw [List.drop_zero, List.take_of_length_le h.le] at hcopy
  refine hcopy.bind ?_
  rw [cstr_append_zero]
  cases addressee resolve (cstr text) with
  | none => exact Traced.ends_pure _
  | some dest =>
      dsimp only
      cases typed.found with
      | false => exact Traced.ends_pure _
      | true =>
          obtain ⟨hstrlen, hload⟩ := ends_text h
          refine hstrlen.bind (hload.bind ?_)
          cases typed.delivered with
          | false => exact Traced.ends_pure _
          | true => exact Traced.ends_pure _

/-- What a client asks of its standard input: `fgets` gives a line that fits, and gives none
only where none is left. -/
def Typed.Fits (typed : Typed) : Prop :=
  typed.piece.length < bufSize ∧ (typed.piece = [] → typed.rest = [])

theorem type_works (resolve : Resolver Address) {stdin : Option Typed}
    (hbuf : buf.length = bufSize) (hstdin : ∀ typed ∈ stdin, typed.Fits) :
    Works (typeTraced resolve stdin) buf (typing resolve stdin) := by
  cases stdin with
  | none => exact ⟨buf, hbuf, Traced.ends_pure _⟩
  | some typed =>
      obtain ⟨hpiece, hrest⟩ := hstdin typed rfl
      rcases eq_or_ne typed.piece [] with hnil | hne
      · have heof : atEof typed.piece typed.rest := by
          rw [hnil, hrest hnil]
          exact ⟨rfl, Option.some_ne_none lf ∘ Eq.symm, Nat.le_of_ble_eq_true rfl⟩
        refine ⟨buf, hbuf, ?_⟩
        rw [typeTraced, typing, fgetsTraced, if_pos hnil, forwardTraced, forwarding, if_pos heof,
          if_pos heof]
        exact (Traced.ends_pure ()).bind (Traced.ends_pure _)
      · have hfits : (typed.piece ++ [0]).length ≤ bufSize := by
          rw [List.length_append, List.length_singleton]
          omega
        obtain ⟨hstore, hlen⟩ := Traced.ends_store_zero hfits hbuf
        rw [List.append_assoc, List.singleton_append] at hstore hlen
        refine ⟨_, hlen, ?_⟩
        rw [typeTraced, typing, fgetsTraced, if_neg hne]
        exact hstore.bind (ends_forward hlen rfl)

theorem hear_works {soc : Option (Outcome Address)} (hbuf : buf.length = bufSize)
    (hsoc : ∀ d, soc = some (.datagram d) → d.contents.length < bufSize) :
    Works (hearTraced soc) buf (hearing soc) := by
  cases soc with
  | none => exact ⟨buf, hbuf, Traced.ends_pure _⟩
  | some outcome =>
      cases outcome with
      | error => exact ⟨buf, hbuf, (Traced.ends_pure none).bind (Traced.ends_pure _)⟩
      | datagram d =>
          obtain ⟨left, hleft, hrecv⟩ := recv_works hbuf (hsoc d rfl)
          exact ⟨left, hleft, hrecv.bind (Traced.ends_pure _)⟩

/-- With datagrams that leave room for the NUL a round stays in the buffer. -/
theorem turn_works (resolve : Resolver Address) {soc : Option (Outcome Address)}
    {stdin : Option Typed} (hbuf : buf.length = bufSize)
    (hsoc : ∀ d, soc = some (.datagram d) → d.contents.length < bufSize)
    (hstdin : ∀ typed ∈ stdin, typed.Fits) :
    Works (turnTraced resolve soc stdin) buf (turn resolve soc stdin) := by
  obtain ⟨middle, hmiddle, hhear⟩ := hear_works hbuf hsoc
  rw [turn]
  cases hheard : hearing soc with
  | none =>
      rw [hheard] at hhear
      exact ⟨middle, hmiddle, hhear.bind (Traced.ends_pure _)⟩
  | some shown =>
      rw [hheard] at hhear
      obtain ⟨left, hleft, htype⟩ := type_works resolve hmiddle hstdin
      exact ⟨left, hleft, hhear.bind (htype.bind (Traced.ends_pure _))⟩

/-- With one that does not, it does not. -/
theorem turn_overrun (resolve : Resolver Address) (stdin : Option Typed)
    (hbuf : buf.length = bufSize) (hfull : d.contents.length = bufSize) :
    Access.write bufSize ∈ (turnTraced resolve (some (.datagram d)) stdin buf).log :=
  Traced.mem_log_bind (Traced.mem_log_bind (recv_overrun hbuf hfull))

end Rules

end NetworkProgram.UClient
