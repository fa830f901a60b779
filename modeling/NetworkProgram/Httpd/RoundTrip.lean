import Mathlib.Data.List.Forall2
import NetworkProgram.Httpd.Grammar

set_option autoImplicit false

/-!
# Httpd: a request is read as it was written

What a client writes and what `read_request` makes of it.  The fields come in reverse
order, so that of several fields with one name the last is found first; a value keeps
the CRLF that ended its line.
-/

namespace NetworkProgram.Httpd

open NetworkProgram.Libc

def crlf : Bytes := [cr, lf]

/-! ## What a client writes -/

/-- `NAME: VALUE` -/
structure ClientField where
  name : Bytes
  value : Bytes
  name_colon : colon ∉ name
  name_nul : (0 : UInt8) ∉ name
  name_line : lf ∉ name
  value_nul : (0 : UInt8) ∉ value
  value_line : lf ∉ value
  value_start : ∀ c ∈ value.head?, isBlank c = false

def ClientField.line (f : ClientField) : Bytes :=
  f.name ++ colon :: space :: (f.value ++ crlf)

/-- The number that a digit string writes down. -/
def numberOf (version : Bytes) : Nat := version.foldl (fun n c => 10 * n + (c.toNat - 48)) 0

/-- `METHOD PATH HTTP/1.VERSION` and the fields, in lines that fit into the server's buffer. -/
structure ClientRequest where
  method : Bytes
  path : Bytes
  version : Bytes
  fields : List ClientField
  method_space : space ∉ method
  method_nul : (0 : UInt8) ∉ method
  method_line : lf ∉ method
  path_space : space ∉ path
  path_nul : (0 : UInt8) ∉ path
  path_line : lf ∉ path
  version_ne : version ≠ []
  version_digits : version.all isdigit = true
  version_fits : numberOf version < 2 ^ 31
  line_fits : (method ++ space :: (path ++ space :: (http1 ++ (version ++ crlf)))).length ≤ 4095
  fields_fit : ∀ f ∈ fields, f.line.length ≤ 4095

namespace ClientRequest

def line (r : ClientRequest) : Bytes :=
  r.method ++ space :: (r.path ++ space :: (http1 ++ (r.version ++ crlf)))

/-- The whole request, up to the empty line. -/
def text (r : ClientRequest) : Bytes := r.line ++ (r.fields.map ClientField.line).flatten ++ crlf

end ClientRequest

/-! ## What the server reads -/

/-- The field as it is put into the list. -/
def ClientField.received (f : ClientField) : HTTPHeaderField where
  name := f.name
  value := f.value ++ crlf

def ClientRequest.received (r : ClientRequest) : HTTPRequest where
  protocolMinorVersion := numberOf r.version
  method := upcase r.method
  path := r.path
  header := (r.fields.map ClientField.received).reverse
  body := none
  length := 0

/-- Equal but for the case of letters. -/
def SameName (a b : Bytes) : Prop := List.Forall₂ SameIgnoringCase a b

theorem strcasecmpEq_iff {a b : Bytes} : strcasecmpEq a b = true ↔ SameName (cstr a) (cstr b) := by
  have hmap : ∀ a b : Bytes, a.map toupper = b.map toupper ↔ SameName a b := by
    intro a b
    unfold SameName
    rw [← List.forall₂_eq_eq_eq, List.forall₂_map_left_iff, List.forall₂_map_right_iff]
    simp only [toupper_eq_iff]
  rw [strcasecmpEq, beq_iff_eq, hmap]

/-! ## Lines -/

theorem fgetsLine_crlf {n : Nat} {text : Bytes} (hline : lf ∉ text)
    (hlen : (text ++ crlf).length ≤ n) (rest : Bytes) : FgetsLine n (text ++ crlf) rest := by
  have hlast : text ++ crlf = (text ++ [cr]) ++ [lf] := by simp [crlf]
  refine ⟨by simp [crlf], ?_, hlen, .inl ?_⟩
  · rw [hlast, List.dropLast_concat, List.mem_append, not_or]
    exact ⟨hline, by decide⟩
  · rw [hlast, List.getLast?_concat]

theorem fgetsLines_of_forall {bufs : List Bytes}
    (h : ∀ buf ∈ bufs, ∀ rest, FgetsLine (lineBufSize - 1) buf rest) (tail : Bytes) :
    FgetsLines bufs tail := by
  induction bufs with
  | nil => trivial
  | cons buf bufs ih =>
      rw [List.forall_mem_cons] at h
      exact ⟨h.1 _, ih h.2⟩

theorem digits_eq_numberOf {w : Bytes} (hall : w.all isdigit = true) :
    digits 0 w = numberOf w := by
  have key : ∀ acc, digits acc w = w.foldl (fun n c => 10 * n + (c.toNat - 48)) acc := by
    induction w with
    | nil => exact fun acc => rfl
    | cons c w ih =>
        intro acc
        rw [List.all_cons, Bool.and_eq_true] at hall
        rw [digits, if_pos hall.1, List.foldl_cons, ih hall.2]
  exact key 0

namespace ClientField

variable (f : ClientField)

theorem cstr_line : cstr f.line = f.line := by
  refine cstr_eq_self ?_
  simp only [line, crlf, List.mem_append, List.mem_cons, f.name_nul, f.value_nul]
  decide

theorem fgetsLine_line (hlen : f.line.length ≤ 4095) (rest : Bytes) :
    FgetsLine (lineBufSize - 1) f.line rest := by
  have hline : f.line = (f.name ++ colon :: space :: f.value) ++ crlf := by simp [line]
  rw [hline] at hlen ⊢
  refine fgetsLine_crlf ?_ hlen rest
  simp only [List.mem_append, List.mem_cons, f.name_line, f.value_line]
  decide

/-- The blanks that are skipped end at the value, or at the CRLF if it is empty. -/
theorem headerField_line : HeaderField f.line f.received := by
  refine ⟨f.name, space :: (f.value ++ crlf), f.cstr_line, f.name_colon, ?_⟩
  have hvalue : (f.value ++ crlf).dropWhile isBlank = f.value ++ crlf := by
    have hstart := f.value_start
    cases hsplit : f.value with
    | nil => rfl
    | cons c value =>
        rw [hsplit] at hstart
        exact List.dropWhile_cons_of_neg (by simp [hstart c rfl])
  rw [List.dropWhile_cons_of_pos rfl, hvalue]
  rfl

theorem not_isEmptyLine_line : ¬ IsEmptyLine f.line := by
  rintro (hhead | hempty)
  · have hline := f.name_line
    unfold line at hhead
    cases hname : f.name with
    | nil => rw [hname] at hhead; cases hhead
    | cons c name =>
        rw [hname] at hhead hline
        cases hhead
        exact hline List.mem_cons_self
  · have hcolon : colon ∈ f.line := by simp [line]
    rw [f.cstr_line] at hempty
    rw [hempty] at hcolon
    exact absurd hcolon (by decide)

end ClientField

namespace ClientRequest

variable (r : ClientRequest)

theorem fgetsLine_line (rest : Bytes) : FgetsLine (lineBufSize - 1) r.line rest := by
  have hline : r.line =
      (r.method ++ space :: (r.path ++ space :: (http1 ++ r.version))) ++ crlf := by simp [line]
  have hlen := r.line_fits
  change r.line.length ≤ 4095 at hlen
  have hversion : lf ∉ r.version := fun hmem =>
    absurd (List.all_eq_true.mp r.version_digits lf hmem) (by decide)
  rw [hline] at hlen ⊢
  refine fgetsLine_crlf ?_ hlen rest
  simp only [List.mem_append, List.mem_cons, r.method_line, r.path_line, hversion]
  decide

theorem requestLine_line : RequestLine r.line (upcase r.method) r.path (numberOf r.version) := by
  have hversion : (0 : UInt8) ∉ r.version := fun hmem =>
    absurd (List.all_eq_true.mp r.version_digits 0 hmem) (by decide)
  have hself : cstr r.line = r.line := by
    refine cstr_eq_self ?_
    simp only [line, crlf, List.mem_append, List.mem_cons, r.method_nul, r.path_nul, hversion]
    decide
  have hnumber := digits_eq_numberOf r.version_digits
  have hends : ∀ c ∈ crlf.head?, isdigit c = false ∧ r.version ≠ [] := by
    rintro c ⟨⟩
    exact ⟨rfl, r.version_ne⟩
  refine ⟨r.method, http1, r.version ++ crlf, hself, r.method_space, r.path_space, by decide, rfl,
    ?_⟩
  rw [atoi_append r.version_digits crlf hends (hnumber ▸ r.version_fits), hnumber]

/-- Without a field that announces a body there is none. -/
theorem declaredLength_received
    (hlength : ∀ f ∈ r.fields, ¬ SameName f.name contentLengthName) :
    declaredLength r.received.header = 0 := by
  have hself : cstr contentLengthName = contentLengthName := by decide
  have hnone : lookupHeaderFieldValue r.received.header contentLengthName = none := by
    rw [lookupHeaderFieldValue, Option.map_eq_none_iff, List.find?_eq_none]
    intro h hmem
    obtain ⟨f, hf, rfl⟩ := List.mem_map.mp (List.mem_reverse.mp hmem)
    rw [strcasecmpEq_iff, hself]
    change ¬ SameName (cstr f.name) _
    rw [cstr_eq_self f.name_nul]
    exact hlength f hf
  rw [declaredLength, hnone]
  rfl

theorem accepted_text (hlength : ∀ f ∈ r.fields, ¬ SameName f.name contentLengthName)
    (rest : Bytes) : Accepted (r.text ++ rest) r.received rest := by
  have hempty : ∀ rest, FgetsLine (lineBufSize - 1) ([] ++ crlf) rest :=
    fgetsLine_crlf List.not_mem_nil (by decide)
  refine ⟨⟨r.line, r.fields.map ClientField.line, crlf, rest⟩, ?_, ?_⟩
  · simp [text, Message.lines]
  · refine ⟨fgetsLines_of_forall ?_ rest, r.requestLine_line, ?_, ?_, .inr rfl,
      (r.declaredLength_received hlength).symm, .inl ⟨rfl, rfl, rfl⟩⟩
    · intro buf hbuf
      rcases List.mem_cons.mp hbuf with rfl | hbuf
      · exact r.fgetsLine_line
      · rcases List.mem_append.mp hbuf with hbuf | hbuf
        · obtain ⟨f, hf, rfl⟩ := List.mem_map.mp hbuf
          exact f.fgetsLine_line (r.fields_fit f hf)
        · obtain rfl := List.mem_singleton.mp hbuf
          exact hempty
    · rw [received, List.reverse_reverse, List.forall₂_map_left_iff, List.forall₂_map_right_iff,
        List.forall₂_same]
      exact fun f _ => f.headerField_line
    · intro buf hbuf
      obtain ⟨f, -, rfl⟩ := List.mem_map.mp hbuf
      exact f.not_isEmptyLine_line

end ClientRequest

/-! ## Finding a field -/

/-- The value of the last field with the name, if there is one. -/
def FindsLast (fields : List ClientField) (name : Bytes) (found : Option Bytes) : Prop :=
  (∀ value, found = some value ↔
    ∃ before f after, fields = before ++ f :: after ∧ SameName f.name name ∧
      (∀ g ∈ after, ¬ SameName g.name name) ∧ value = f.value ++ crlf) ∧
  (found = none ↔ ∀ f ∈ fields, ¬ SameName f.name name)

theorem lookup_findsLast (fields : List ClientField) (name : Bytes) :
    FindsLast fields (cstr name)
      (lookupHeaderFieldValue (fields.map ClientField.received).reverse name) := by
  have hsame : ∀ f : ClientField,
      strcasecmpEq f.received.name name = true ↔ SameName f.name (cstr name) := by
    intro f
    rw [strcasecmpEq_iff]
    change SameName (cstr f.name) _ ↔ _
    rw [cstr_eq_self f.name_nul]
  have hfind : lookupHeaderFieldValue (fields.map ClientField.received).reverse name =
      (fields.reverse.find? fun f => strcasecmpEq f.received.name name).map
        fun f => f.value ++ crlf := by
    rw [lookupHeaderFieldValue, ← List.map_reverse, List.find?_map, Option.map_map]
    rfl
  rw [hfind]
  constructor
  · intro value
    simp only [Option.map_eq_some_iff, List.find?_eq_some_iff_append, hsame]
    constructor
    · rintro ⟨f, ⟨hf, after, before, hsplit, hafter⟩, rfl⟩
      refine ⟨before.reverse, f, after.reverse, ?_, hf, ?_, rfl⟩
      · rw [← List.reverse_reverse fields, hsplit]
        simp
      · intro g hg hgname
        have hnot := hafter g (List.mem_reverse.mp hg)
        rw [(hsame g).mpr hgname] at hnot
        cases hnot
    · rintro ⟨before, f, after, rfl, hf, hafter, rfl⟩
      refine ⟨f, ⟨hf, after.reverse, before.reverse, by simp, ?_⟩, rfl⟩
      intro g hg
      rw [Bool.not_eq_true', ← Bool.not_eq_true, hsame]
      exact hafter g (List.mem_reverse.mp hg)
  · rw [Option.map_eq_none_iff, List.find?_eq_none]
    simp only [List.mem_reverse, hsame]

/-- A request that fits into the server's lines and announces no body is read back: the
method in upper case, the fields in reverse order, and every name finds the last field
that has it. -/
theorem read_request_text (r : ClientRequest)
    (hlength : ∀ f ∈ r.fields, ¬ SameName f.name contentLengthName) (rest : Bytes) :
    readRequest (r.text ++ rest) = .ok (r.received, rest) ∧
      ∀ name, FindsLast r.fields (cstr name) (lookupHeaderFieldValue r.received.header name) :=
  ⟨readRequest_of_accepted (r.accepted_text hlength rest), lookup_findsLast r.fields⟩

/-- `get / HTTP/1.1` with the fields `A:` and `a: b`. -/
def twoFields : ClientRequest where
  method := ascii ['g', 'e', 't']
  path := ascii ['/']
  version := ascii ['1']
  fields := [
    ⟨ascii ['A'], [], by decide, by decide, by decide, by decide, by decide, by simp⟩,
    ⟨ascii ['a'], ascii ['b'], by decide, by decide, by decide, by decide, by decide,
      by rintro c ⟨⟩; rfl⟩]
  method_space := by decide
  method_nul := by decide
  method_line := by decide
  path_space := by decide
  path_nul := by decide
  path_line := by decide
  version_ne := by decide
  version_digits := by decide
  version_fits := by decide
  line_fits := by decide
  fields_fit := List.forall_mem_cons.mpr ⟨by decide,
    List.forall_mem_cons.mpr ⟨by decide, List.forall_mem_nil _⟩⟩

theorem read_request_two_fields :
    readRequest (twoFields.text ++ []) = .ok (twoFields.received, []) ∧
      ∀ name, FindsLast twoFields.fields (cstr name)
        (lookupHeaderFieldValue twoFields.received.header name) := by
  refine read_request_text twoFields (List.forall_mem_cons.mpr ⟨fun h => ?_,
    List.forall_mem_cons.mpr ⟨fun h => ?_, List.forall_mem_nil _⟩⟩) []
  · exact absurd h.length_eq (by decide)
  · exact absurd h.length_eq (by decide)

end NetworkProgram.Httpd
