import NetworkProgram.Telnet.Decoding

set_option autoImplicit false

/-!
# Telnet: the screen

What `recv_data` shows of a TELNET stream.  It takes every command for one of three
bytes, so it shows the data exactly as long as the commands are option commands.
-/

namespace NetworkProgram.Telnet

open NetworkProgram.Libc

/-- An element of a TELNET stream. -/
inductive Element
  | data (c : UInt8) (plain : c ≠ iac)
  /-- IAC IAC: the data byte 0xFF. -/
  | escaped
  /-- NOP to GA. -/
  | command (c : UInt8) (known : 241 ≤ c ∧ c ≤ 249)
  /-- WILL, WONT, DO, DONT. -/
  | option (verb opt : UInt8) (known : 251 ≤ verb ∧ verb ≤ 254)
  /-- IAC SB to IAC SE. -/
  | subnegotiation (opt : UInt8) (parameters : Bytes)

/-- An IAC in the parameters of a subnegotiation is doubled. -/
def doubled (parameters : Bytes) : Bytes :=
  parameters.flatMap fun c => if c = iac then [iac, iac] else [c]

def Element.bytes : Element → Bytes
  | .data c _ => [c]
  | .escaped => [iac, iac]
  | .command c _ => [iac, c]
  | .option verb opt _ => [iac, verb, opt]
  | .subnegotiation opt parameters => [iac, sb, opt] ++ doubled parameters ++ [iac, se]

def Element.shown : Element → Bytes
  | .data c _ => [c]
  | .escaped => [iac]
  | .command _ _ => []
  | .option _ _ _ => []
  | .subnegotiation _ _ => []

/-- The bytes of a stream, and the data in it. -/
def stream (es : List Element) : Bytes := es.flatMap Element.bytes

def dataOf (es : List Element) : Bytes := es.flatMap Element.shown

/-- The elements that `recv_data` knows. -/
def Element.Simple : Element → Prop
  | .data _ _ => True
  | .escaped => False
  | .command _ _ => False
  | .option _ _ _ => True
  | .subnegotiation _ _ => False

/-- The bytes on the screen after `n` calls of `recv_data`. -/
def screenAfter (n : Nat) (received : Bytes) : Bytes :=
  screen (calls n (start (steady received))).log

theorem screenAfter_eq {n : Nat} {received : Bytes} (h : received.length ≤ n) :
    screenAfter n received = screen (hear .data (steady received)) := by
  rw [screenAfter, ← screen_heard, heard_calls (by simpa [steady] using h)]

/-- IAC and two more bytes show nothing. -/
theorem screen_three (x y : UInt8) (rest : Bytes) :
    screen (hear .data (steady (iac :: x :: y :: rest))) = screen (hear .data (steady rest)) := rfl

/-- What `recv_data` makes of an element that it knows. -/
def Element.events : Element → List Event
  | .data c _ => [.shown c]
  | .escaped => []
  | .command _ _ => []
  | .option _ opt _ => [.replied [iac, wont, opt]]
  | .subnegotiation _ _ => []

theorem hear_simple {es : List Element} (simple : ∀ e ∈ es, e.Simple) (rest : Bytes) :
    hear .data (steady (stream es ++ rest)) =
      es.flatMap Element.events ++ hear .data (steady rest) := by
  induction es with
  | nil => rfl
  | cons e es ih =>
      rw [List.forall_mem_cons] at simple
      have hrest := ih simple.2
      cases e with
      | data c plain =>
          rw [show stream (.data c plain :: es) ++ rest = c :: (stream es ++ rest) from rfl,
            steady_cons, hear_byte, Phase.emit, Phase.next, if_neg plain, if_neg plain, hrest]
          rfl
      | option verb opt known => exact congrArg (Event.replied [iac, wont, opt] :: ·) hrest
      | escaped => exact simple.1.elim
      | command => exact simple.1.elim
      | subnegotiation => exact simple.1.elim

theorem screen_simple {es : List Element} (simple : ∀ e ∈ es, e.Simple) (rest : Bytes) :
    screen (hear .data (steady (stream es ++ rest))) =
      dataOf es ++ screen (hear .data (steady rest)) := by
  have hshown : ∀ e ∈ es, screen e.events = e.shown := by
    intro e he
    have hsimple := simple e he
    cases e with
    | data => rfl
    | option => rfl
    | escaped => exact hsimple.elim
    | command => exact hsimple.elim
    | subnegotiation => exact hsimple.elim
  rw [hear_simple simple, screen_append, screen, List.filterMap_flatMap]
  exact congrArg (· ++ _) (List.flatMap_congr hshown)

/-- Of a stream of data and option commands, `recv_data` shows the data, also when the
stream ends inside of a last command.  Every command is read as one of three bytes. -/
theorem recv_data_screen (n : Nat) :
    (∀ (es : List Element) (cut : Bytes), (∀ e ∈ es, e.Simple) →
      (cut = [] ∨ cut = [iac] ∨ ∃ c, cut = [iac, c]) → (stream es ++ cut).length ≤ n →
      screenAfter n (stream es ++ cut) = dataOf es) ∧
    (∀ (es : List Element) (x y : UInt8) (rest : Bytes), (∀ e ∈ es, e.Simple) →
      (stream es ++ iac :: x :: y :: rest).length ≤ n →
      screenAfter n (stream es ++ iac :: x :: y :: rest) = dataOf es ++ screenAfter n rest) := by
  constructor
  · intro es cut simple hcut hn
    rw [screenAfter_eq hn, screen_simple simple]
    rcases hcut with rfl | rfl | ⟨c, rfl⟩ <;> exact List.append_nil _
  · intro es x y rest simple hn
    rw [screenAfter_eq hn, screen_simple simple, screen_three]
    rw [List.length_append, List.length_cons, List.length_cons, List.length_cons] at hn
    rw [screenAfter_eq (by omega)]

/-- Data, an option command, data, and a command that the end of the stream cuts off. -/
theorem recv_data_screen_option :
    screenAfter 7 [97, iac, doOpt, 1, 98, iac, will] = [97, 98] :=
  (recv_data_screen 7).1
    [.data 97 (by decide), .option doOpt 1 (by decide), .data 98 (by decide)] [iac, will]
    (by simp [Element.Simple]) (.inr (.inr ⟨will, rfl⟩)) (by decide)

/-- A command of two bytes takes a byte of data with it. -/
theorem nop_swallows_data :
    ¬ ∀ (es : List Element) (n : Nat), (stream es).length ≤ n →
      screenAfter n (stream es) = dataOf es := by
  intro h
  have hshown := h [.command nop (by decide), .data 97 (by decide)] 3 (by decide)
  revert hshown
  decide

end NetworkProgram.Telnet
