import NetworkProgram.Httpd.Allocation

set_option autoImplicit false

/-!
# Httpd: the blocks of a request

Every block that `service` takes is given back once, and nothing is read or written outside
of a block or before it is set; and with its pointers it does what the model without a heap
says.
-/

namespace NetworkProgram.Httpd.Allocation

open NetworkProgram.Foundation
open NetworkProgram.Foundation.HeapProgram
open NetworkProgram.Libc

/-! ## Blocks and what they stand for -/

/-- The block holds the string, and has no room for more. -/
structure TextAt (t : Handles Block) (d : Nat) (text : Bytes) : Prop where
  block : t d = some (.chars ((text ++ [0]).map some))
  string : (0 : UInt8) ∉ text

/-- The list from a pointer on, last field of the stream first, with its blocks. -/
inductive FieldsAt (t : Handles Block) : Pointer → List HTTPHeaderField → List Nat → Prop
  | nil : FieldsAt t none [] []
  | cons {d name value : Nat} {next : Pointer} {field : HTTPHeaderField}
      {fields : List HTTPHeaderField} {ds : List Nat}
      (block : t d = some (.field ⟨some (some name), some (some value), some next⟩))
      (nameAt : TextAt t name field.name) (valueAt : TextAt t value field.value)
      (rest : FieldsAt t next fields ds) :
      FieldsAt t (some d) (field :: fields) (d :: name :: value :: ds)

inductive BodyAt (t : Handles Block) : Pointer → Option Bytes → List Nat → Prop
  | none : BodyAt t none none []
  | some {d : Nat} {body : Bytes} (block : t d = some (.chars (body.map some))) :
      BodyAt t (some d) (some body) [d]

/-- A request with all its blocks. -/
structure RequestAt (t : Handles Block) (r : Nat) (req : HTTPRequest) (m p : Nat)
    (header : Pointer) (fields : List Nat) (body : Pointer) (bodies : List Nat) : Prop where
  block : t r = some (.request ⟨some req.protocolMinorVersion, some (some m), some (some p),
    some header, some body, some req.length⟩)
  methodAt : TextAt t m req.method
  pathAt : TextAt t p req.path
  fieldsAt : FieldsAt t header req.header fields
  bodyAt : BodyAt t body req.body bodies
  nodup : (r :: m :: p :: (fields ++ bodies)).Nodup

/-- How the process may end early: without memory, or as the model without a heap does. -/
inductive Exits {α : Type} (grants : Nat → Nat → Bool) (result : Except LogExit α) :
    Response → Prop
  | outOfMemory {n size : Nat} (refused : grants n size = false) :
      Exits grants result (silent outOfMemory)
  | failed {e : LogExit} (failed : result = .error e) : Exits grants result (silent e)

theorem Exits.imp {α β : Type} {grants : Nat → Nat → Bool} {result : Except LogExit α}
    {result' : Except LogExit β} {response : Response} (exits : Exits grants result response)
    (himp : ∀ e, result = .error e → result' = .error e) : Exits grants result' response := by
  cases exits with
  | outOfMemory refused => exact .outOfMemory refused
  | failed failed => exact .failed (himp _ failed)

section Kept

variable {h h' : Heap Block} {cs ds new : List Nat} {d : Nat} {text : Bytes}

theorem TextAt.live {t : Handles Block} (at_ : TextAt t d text) : t d ≠ none := by
  rw [at_.block]
  exact Option.some_ne_none _

theorem TextAt.grows (at_ : TextAt h.blocks d text) (grows : h.Grows h' cs new) (hd : d ∉ cs) :
    TextAt h'.blocks d text :=
  ⟨grows.held at_.block hd, at_.string⟩

theorem FieldsAt.live {t : Handles Block} {p : Pointer} {fields : List HTTPHeaderField}
    (at_ : FieldsAt t p fields ds) : ∀ d ∈ ds, t d ≠ none := by
  induction at_ with
  | nil => exact fun d hd => absurd hd List.not_mem_nil
  | cons block nameAt valueAt _ ih =>
      rw [List.forall_mem_cons, List.forall_mem_cons, List.forall_mem_cons]
      exact ⟨by rw [block]; exact Option.some_ne_none _, nameAt.live, valueAt.live, ih⟩

/-- The list has changed in none of its blocks. -/
theorem FieldsAt.of_same {t t' : Handles Block} {p : Pointer} {fields : List HTTPHeaderField}
    (at_ : FieldsAt t p fields ds) (same : ∀ d ∈ ds, t' d = t d) : FieldsAt t' p fields ds := by
  induction at_ with
  | nil => exact .nil
  | cons block nameAt valueAt _ ih =>
      rw [List.forall_mem_cons, List.forall_mem_cons, List.forall_mem_cons] at same
      obtain ⟨hd, hname, hvalue, hrest⟩ := same
      exact .cons (hd.trans block) ⟨hname.trans nameAt.block, nameAt.string⟩
        ⟨hvalue.trans valueAt.block, valueAt.string⟩ (ih hrest)

theorem FieldsAt.grows {p : Pointer} {fields : List HTTPHeaderField}
    (at_ : FieldsAt h.blocks p fields ds) (grows : h.Grows h' cs new) (hcs : ds.Disjoint cs) :
    FieldsAt h'.blocks p fields ds :=
  at_.of_same fun d hd => grows.blocks_eq (at_.live d hd) fun hc => hcs hd hc

theorem BodyAt.of_same {t t' : Handles Block} {p : Pointer} {body : Option Bytes}
    (at_ : BodyAt t p body ds) (same : ∀ d ∈ ds, t' d = t d) : BodyAt t' p body ds := by
  cases at_ with
  | none => exact .none
  | some block => exact .some ((same _ (List.mem_singleton_self _)).trans block)

/-- Each field has three blocks. -/
theorem FieldsAt.length {t : Handles Block} {p : Pointer} {fields : List HTTPHeaderField}
    (at_ : FieldsAt t p fields ds) : fields.length ≤ ds.length := by
  induction at_ with
  | nil => exact Nat.le_refl _
  | cons _ _ _ _ ih =>
      simp only [List.length_cons]
      omega

end Kept

/-! ## The functions on blocks -/

section Functions

variable {grants : Nat → Nat → Bool} {h : Heap Block} {exits : Response → Prop} {d : Nat}
  {b : Block} {text : Bytes}

theorem ensures_xmalloc {size : Nat}
    (hexit : ∀ n, grants n size = false → exits (silent outOfMemory)) :
    Ensures (xmalloc grants size b) h exits fun p h' =>
      ∃ d, p = some d ∧ h.Grows h' [] [d] ∧ h'.blocks d = some b := by
  refine ensures_malloc.bind fun p h' hp => ?_
  rcases hp with ⟨rfl, hrefused, -⟩ | ⟨d, rfl, hgrows, hd⟩
  · exact hexit _ hrefused
  · exact ⟨d, rfl, hgrows, hd⟩

theorem ensures_changeChars {change : Cells → Option Cells} {cells cells' : Cells}
    (hd : h.blocks d = some (.chars cells)) (hchange : change cells = some cells') :
    Ensures (changeChars change (some d)) h exits fun _ h' =>
      h.Grows h' [d] [] ∧ h'.blocks d = some (.chars cells') :=
  ensures_write hd (congrArg (Option.map Block.chars) hchange)

theorem ensures_newString (hexit : ∀ n size, grants n size = false → exits (silent outOfMemory))
    (htext : (0 : UInt8) ∉ text) :
    Ensures (newString grants text) h exits fun p h' =>
      ∃ d, p = some d ∧ h.Grows h' [] [d] ∧ TextAt h'.blocks d text := by
  refine (ensures_xmalloc fun n => hexit n _).bind ?_
  rintro p h₁ ⟨d, hp, hnew, hd⟩
  subst hp
  refine (ensures_changeChars hd (Cells.strcpy_fresh text)).bind ?_
  rintro _ h₂ ⟨hset, hd⟩
  exact ensures_pure ⟨d, rfl, hnew.trans hset (List.Subset.refl _), hd, htext⟩

theorem ensures_string (at_ : TextAt h.blocks d text) :
    Ensures (string (some d)) h exits fun t h' => t = text ∧ h' = h :=
  ensures_read at_.block (Cells.string_strcpy at_.string)

theorem ensures_upcase (at_ : TextAt h.blocks d text) :
    Ensures (upcase (some d)) h exits fun _ h' =>
      h.Grows h' [d] [] ∧ TextAt h'.blocks d (Httpd.upcase text) := by
  refine (ensures_changeChars at_.block (Cells.upcase_strcpy at_.string)).imp ?_
  intro _ h' ⟨hset, hd⟩
  exact ⟨hset, hd, nul_notMem_toupper at_.string⟩

theorem ensures_getField {α : Type} {block : FieldBlock} {member : FieldBlock → Option α} {a : α}
    (hd : h.blocks d = some (.field block)) (hmember : member block = some a) :
    Ensures (getField (some d) member) h exits fun a' h' => a' = a ∧ h' = h :=
  ensures_read hd hmember

theorem ensures_setField {block : FieldBlock} (change : FieldBlock → FieldBlock)
    (hd : h.blocks d = some (.field block)) :
    Ensures (setField (some d) change) h exits fun _ h' =>
      h.Grows h' [d] [] ∧ h'.blocks d = some (.field (change block)) :=
  ensures_write hd rfl

theorem ensures_getRequest {α : Type} {block : RequestBlock} {member : RequestBlock → Option α}
    {a : α} (hd : h.blocks d = some (.request block)) (hmember : member block = some a) :
    Ensures (getRequest (some d) member) h exits fun a' h' => a' = a ∧ h' = h :=
  ensures_read hd hmember

theorem ensures_setRequest {block : RequestBlock} (change : RequestBlock → RequestBlock)
    (hd : h.blocks d = some (.request block)) :
    Ensures (setRequest (some d) change) h exits fun _ h' =>
      h.Grows h' [d] [] ∧ h'.blocks d = some (.request (change block)) :=
  ensures_write hd rfl

/-! ## `read_request` -/

variable {r : Nat} {block : RequestBlock} {input : Bytes}

/-- The request line behind its first space. -/
theorem readRequestLine_of_split {buf rest method path : Bytes}
    (hfgets : fgets lineBufSize input = some (buf, rest))
    (hmethod : splitChr space (cstr buf) = some (method, path)) :
    (splitChr space path = none → Httpd.readRequestLine input =
        .error ⟨"parse error on request line (2): %s", some method⟩) ∧
      ∀ path' p, splitChr space path = some (path', p) → Httpd.readRequestLine input =
        if strncasecmpEq p http1 http1.length then
          .ok ((Httpd.upcase method, path', atoi (p.drop http1.length)), rest)
        else .error ⟨"parse error on request line (3): %s", some method⟩ := by
  constructor
  · intro hpath
    simp only [Httpd.readRequestLine, hfgets, parseRequestLine, hmethod, hpath]
    rfl
  · intro path' p hpath
    simp only [Httpd.readRequestLine, hfgets, parseRequestLine, hmethod, hpath]
    split <;> rfl

theorem ensures_readRequestLine (hr : h.blocks r = some (.request block)) :
    Ensures (readRequestLine grants (some r) input) h
      (Exits grants (Httpd.readRequestLine input)) fun rest h' =>
        ∃ m p method path minor,
          Httpd.readRequestLine input = .ok ((method, path, minor), rest) ∧
          h.Grows h' [r] [m, p] ∧ [r, m, p].Nodup ∧
          h'.blocks r = some (.request { block with
            protocolMinorVersion := some minor, method := some (some m), path := some (some p) }) ∧
          TextAt h'.blocks m method ∧ TextAt h'.blocks p path := by
  have hlive : h.blocks r ≠ none := by
    rw [hr]
    exact Option.some_ne_none _
  unfold readRequestLine
  cases hfgets : fgets lineBufSize input with
  | none => exact .failed (by simp only [Httpd.readRequestLine, hfgets])
  | some line =>
  obtain ⟨buf, rest⟩ := line
  dsimp only
  cases hmethod : splitChr space (cstr buf) with
  | none =>
      exact .failed (by simp only [Httpd.readRequestLine, hfgets, parseRequestLine, hmethod]; rfl)
  | some parts =>
  obtain ⟨method, path⟩ := parts
  obtain ⟨hnone, hsome⟩ := readRequestLine_of_split hfgets hmethod
  have hnul := nul_notMem_cstr buf
  rw [(splitChr_eq_some_iff.mp hmethod).1, List.mem_append, List.mem_cons, not_or, not_or] at hnul
  refine (ensures_newString (fun n size hn => .outOfMemory hn) hnul.1).bind ?_
  rintro q h₁ ⟨m, hm, hnew, htext⟩
  subst hm
  have hmr : m ≠ r := fun heq => hnew.notMem hlive (List.mem_singleton.mpr heq.symm)
  refine (ensures_setRequest _ (hnew.held hr List.not_mem_nil)).bind ?_
  rintro _ h₂ ⟨hset, hr⟩
  have htext := htext.grows hset (by simp [hmr])
  refine (ensures_upcase htext).bind ?_
  rintro _ h₃ ⟨hup, hmethodAt⟩
  have hr := hup.held hr (by simp [hmr.symm])
  have hgrows₂ : h.Grows h₂ [r] [m] := hnew.trans hset (by simp)
  have hgrows₃ : h.Grows h₃ [r] [m] := hgrows₂.trans hup (by simp)
  cases hpath : splitChr space path with
  | none => exact .failed (hnone hpath)
  | some parts =>
  obtain ⟨path, version⟩ := parts
  have hpure := hsome path version hpath
  rw [(splitChr_eq_some_iff.mp hpath).1, List.mem_append, not_or] at hnul
  refine (ensures_newString (fun n size hn => .outOfMemory hn) hnul.2.2.1).bind ?_
  rintro q h₄ ⟨p, hp, hnew, hpathAt⟩
  subst hp
  have hpr : p ≠ r := fun heq =>
    hnew.notMem (hgrows₃.live r hlive) (List.mem_singleton.mpr heq.symm)
  have hmp : m ≠ p := fun heq => hnew.notMem hmethodAt.live (List.mem_singleton.mpr heq)
  have hmethodAt := hmethodAt.grows hnew List.not_mem_nil
  have hgrows₄ : h.Grows h₄ [r] [m, p] := hgrows₃.trans hnew (by simp)
  refine (ensures_setRequest _ (hnew.held hr List.not_mem_nil)).bind ?_
  rintro _ h₅ ⟨hset, hr⟩
  have hmethodAt := hmethodAt.grows hset (by simp [hmr])
  have hpathAt := hpathAt.grows hset (by simp [hpr])
  have hgrows₅ : h.Grows h₅ [r] [m, p] := hgrows₄.trans hset (by simp)
  split
  · next hversion =>
      rw [if_pos hversion] at hpure
      refine (ensures_setRequest _ hr).bind ?_
      rintro _ h₆ ⟨hset, hr⟩
      refine ensures_pure ⟨m, p, Httpd.upcase method, path, _, hpure,
        hgrows₅.trans hset (by simp), ?_, hr,
        hmethodAt.grows hset (by simp [hmr]), hpathAt.grows hset (by simp [hpr])⟩
      simp [hmr.symm, hpr.symm, hmp]
  · next hversion =>
      rw [if_neg hversion] at hpure
      exact .failed hpure

/-- A field is taken from its line. -/
theorem ensures_newField {buf : Bytes} :
    Ensures (newField grants buf) h (Exits grants (parseHeaderField buf)) fun q h' =>
      ∃ d name value field, q = some d ∧ parseHeaderField buf = .ok field ∧
        h.Grows h' [] [d, name, value] ∧ [d, name, value].Nodup ∧
        h'.blocks d = some (.field ⟨some (some name), some (some value), none⟩) ∧
        TextAt h'.blocks name field.name ∧ TextAt h'.blocks value field.value := by
  unfold newField
  cases hsplit : splitChr colon (cstr buf) with
  | none => exact .failed (by simp only [parseHeaderField, hsplit])
  | some parts =>
  obtain ⟨name, text⟩ := parts
  have hpure : parseHeaderField buf =
      .ok { name := name, value := text.dropWhile isBlank } := by
    simp only [parseHeaderField, hsplit]
  have hnul := nul_notMem_cstr buf
  rw [(splitChr_eq_some_iff.mp hsplit).1, List.mem_append, List.mem_cons, not_or, not_or] at hnul
  have hvalue : (0 : UInt8) ∉ text.dropWhile isBlank := fun hmem =>
    hnul.2.2 ((List.dropWhile_sublist _).subset hmem)
  refine (ensures_xmalloc fun n hn => .outOfMemory hn).bind ?_
  rintro q h₁ ⟨d, hq, hnew, hd⟩
  subst hq
  refine (ensures_newString (fun n size hn => .outOfMemory hn) hnul.1).bind ?_
  rintro q h₂ ⟨n, hq, hnew₂, hname⟩
  subst hq
  have hdn : d ≠ n := fun heq => hnew₂.notMem (by rw [hd]; exact Option.some_ne_none _)
    (List.mem_singleton.mpr heq)
  have hgrows₂ : h.Grows h₂ [] [d, n] := hnew.trans hnew₂ (by simp)
  refine (ensures_setField _ (hnew₂.held hd List.not_mem_nil)).bind ?_
  rintro _ h₃ ⟨hset, hd⟩
  have hname := hname.grows hset (by simp [hdn.symm])
  have hgrows₃ : h.Grows h₃ [] [d, n] := hgrows₂.trans hset (by simp)
  refine (ensures_newString (fun n size hn => .outOfMemory hn) hvalue).bind ?_
  rintro q h₄ ⟨v, hq, hnew₄, hvalueAt⟩
  subst hq
  have hdv : d ≠ v := fun heq => hnew₄.notMem (by rw [hd]; exact Option.some_ne_none _)
    (List.mem_singleton.mpr heq)
  have hnv : n ≠ v := fun heq => hnew₄.notMem hname.live (List.mem_singleton.mpr heq)
  have hname := hname.grows hnew₄ List.not_mem_nil
  have hgrows₄ : h.Grows h₄ [] [d, n, v] := hgrows₃.trans hnew₄ (by simp)
  refine (ensures_setField _ (hnew₄.held hd List.not_mem_nil)).bind ?_
  rintro _ h₅ ⟨hset, hd⟩
  refine ensures_pure ⟨d, n, v, _, rfl, hpure, hgrows₄.trans hset (by simp), ?_, hd,
    hname.grows hset (by simp [hdn.symm]), hvalueAt.grows hset (by simp [hdv.symm])⟩
  simp [hdn, hdv, hnv]

theorem readHeader_eq (header : List HTTPHeaderField) (input : Bytes) :
    Httpd.readHeader header input = match readHeaderField input with
      | .error e => .error e
      | .ok (none, rest) => .ok (header, rest)
      | .ok (some field, rest) => Httpd.readHeader (field :: header) rest := by
  rw [Httpd.readHeader]
  split
  · next hread => rw [hread]
  · next hread => rw [hread]
  · next hread => rw [hread]

theorem ensures_readHeader (n : Nat) : ∀ {h : Heap Block} {block : RequestBlock} {input : Bytes}
    {header : List HTTPHeaderField} {p : Pointer} {ds : List Nat}, input.length < n →
    h.blocks r = some (.request block) → block.header = some p →
    FieldsAt h.blocks p header ds → (r :: ds).Nodup →
    Ensures (readHeader grants (some r) input) h (Exits grants (Httpd.readHeader header input))
      fun rest h' => ∃ header' p' new, Httpd.readHeader header input = .ok (header', rest) ∧
        h.Grows h' [r] new ∧ (r :: (new ++ ds)).Nodup ∧
        h'.blocks r = some (.request { block with header := some p' }) ∧
        FieldsAt h'.blocks p' header' (new ++ ds) := by
  induction n with
  | zero => exact fun hlen => absurd hlen (Nat.not_lt_zero _)
  | succ n ih =>
  intro h block input header p ds hlen hr hheader hfields hnodup
  have hlive : h.blocks r ≠ none := by
    rw [hr]
    exact Option.some_ne_none _
  rw [readHeader]
  split
  · next hfgets =>
      refine .failed ?_
      rw [readHeader_eq]
      simp only [readHeaderField, hfgets]
  · next buf rest hfgets =>
  have hpure := readHeader_eq header input
  simp only [readHeaderField, hfgets] at hpure
  split
  · next hline =>
      rw [if_pos hline] at hpure
      refine ensures_pure ⟨header, p, [], hpure, (Heap.Grows.refl h).mono [r], hnodup, ?_, hfields⟩
      rw [hr, ← hheader]
  · next hline =>
  rw [if_neg hline] at hpure
  refine (ensures_newField.exits_imp fun _ he => he.imp fun e failed => ?_).bind ?_
  · rw [hpure, failed]
    rfl
  rintro q h₁ ⟨d, name, value, field, hq, hfield, hnew, hthree, hd, hname, hvalue⟩
  subst hq
  rw [hfield] at hpure
  have hr₁ := hnew.held hr List.not_mem_nil
  have hrnew : r ∉ [d, name, value] := hnew.notMem hlive
  refine (ensures_getRequest hr₁ hheader).bind_read ?_
  refine (ensures_setField _ hd).bind ?_
  rintro _ h₂ ⟨hset, hd⟩
  have hdr : d ≠ r := fun heq => hrnew (heq ▸ List.mem_cons_self)
  refine (ensures_setRequest _ (hset.held hr₁ (by simp [hdr.symm]))).bind ?_
  rintro _ h₃ ⟨hset', hr₃⟩
  -- The new field stands in front of the list.
  have hsets : h₁.Grows h₃ [d, r] [] := hset.trans hset' (by simp)
  have hgrows : h.Grows h₃ [r] [d, name, value] := hnew.trans hsets (by simp)
  have hds : ∀ e ∈ ds, e ∉ [d, name, value] := fun e he => hnew.notMem (hfields.live e he)
  rw [List.nodup_cons] at hnodup
  have hfields₃ : FieldsAt h₃.blocks (some d) (field :: header) (d :: name :: value :: ds) := by
    simp only [List.nodup_cons, List.mem_cons, not_or] at hthree hrnew
    refine .cons (hset'.held hd (by simp [hdr])) (hname.grows hsets ?_) (hvalue.grows hsets ?_)
      ((hfields.grows hnew (List.disjoint_nil_right _)).grows hsets ?_)
    · simp [Ne.symm hthree.1.1, Ne.symm hrnew.2.1]
    · simp [Ne.symm hthree.1.2.1, Ne.symm hrnew.2.2.1]
    · intro e he hmem
      rcases List.mem_pair.mp hmem with rfl | rfl
      · exact hds e he List.mem_cons_self
      · exact hnodup.1 he
  have hnodup₃ : (r :: ([d, name, value] ++ ds)).Nodup := by
    rw [List.nodup_cons, List.mem_append, not_or, List.nodup_append]
    exact ⟨⟨hrnew, hnodup.1⟩, hthree, hnodup.2, fun e he e' he' heq => hds e' he' (heq ▸ he)⟩
  have hshort : rest.length < n := by
    obtain ⟨rfl, hfgetsLine⟩ := (fgets_eq_some_iff (Nat.le_of_ble_eq_true rfl)).mp hfgets
    have hpos := List.length_pos_iff.mpr hfgetsLine.nonempty
    rw [List.length_append] at hlen
    omega
  have hpure : Httpd.readHeader header input = Httpd.readHeader (field :: header) rest := hpure
  rw [hpure]
  refine (ih hshort hr₃ rfl hfields₃ hnodup₃).imp ?_
  rintro rest' h₄ ⟨header', p', new, hresult, hgrows₄, hnodup₄, hr₄, hfields₄⟩
  refine ⟨header', p', new ++ [d, name, value], hresult, ?_, ?_, hr₄, ?_⟩
  · refine (hgrows.trans hgrows₄ (by simp)).of_mem_iff fun e => ?_
    rw [List.mem_append, List.mem_append]
    exact Or.comm
  · rw [List.append_assoc]
    exact hnodup₄
  · rw [List.append_assoc]
    exact hfields₄

theorem ensures_lookup {header : List HTTPHeaderField} {p : Pointer} {ds : List Nat} (name : Bytes)
    (hfields : FieldsAt h.blocks p header ds) {rounds : Nat} (hrounds : header.length ≤ rounds) :
    Ensures (lookupHeaderFieldValue name rounds p) h exits fun q h' => h' = h ∧
      ((q = none ∧ Httpd.lookupHeaderFieldValue header name = none) ∨
        ∃ d value, q = some d ∧ Httpd.lookupHeaderFieldValue header name = some value ∧
          TextAt h.blocks d value) := by
  generalize hblocks : h.blocks = t at hfields
  induction hfields generalizing rounds with
  | nil =>
      unfold lookupHeaderFieldValue
      exact ensures_pure ⟨rfl, .inl ⟨rfl, rfl⟩⟩
  | @cons d n v next field fields ds block nameAt valueAt rest ih =>
      subst hblocks
      obtain ⟨rounds, rfl⟩ := Nat.exists_eq_add_of_le' (Nat.le_trans (Nat.le_add_left 1 _) hrounds)
      have hfind : Httpd.lookupHeaderFieldValue (field :: fields) name =
          if strcasecmpEq field.name name then some field.value
          else Httpd.lookupHeaderFieldValue fields name := by
        simp only [Httpd.lookupHeaderFieldValue, List.find?_cons]
        split <;> simp [*]
      rw [lookupHeaderFieldValue, hfind]
      refine Ensures.bind_read (ensures_getField block rfl) ?_
      refine (ensures_string nameAt).bind_read ?_
      split
      · refine Ensures.imp (ensures_getField block rfl) ?_
        rintro q h' ⟨rfl, rfl⟩
        exact ⟨rfl, .inr ⟨v, field.value, rfl, rfl, valueAt⟩⟩
      · refine Ensures.bind_read (ensures_getField block rfl) ?_
        exact ih (Nat.le_of_succ_le_succ hrounds)

/-- The list has no more fields than there are blocks. -/
theorem FieldsAt.length_le_next {header : List HTTPHeaderField} {p : Pointer} {ds : List Nat}
    (hfields : FieldsAt h.blocks p header ds) (hnodup : ds.Nodup) : header.length ≤ h.next :=
  Nat.le_trans hfields.length (Heap.length_le_next hnodup hfields.live)

theorem ensures_contentLength {header : List HTTPHeaderField} {p : Pointer} {ds : List Nat}
    (hr : h.blocks r = some (.request block)) (hheader : block.header = some p)
    (hfields : FieldsAt h.blocks p header ds) (hnodup : ds.Nodup) :
    Ensures (contentLength (some r)) h
      (fun response => ∃ e, Httpd.contentLength header = .error e ∧ response = silent e)
      fun n h' => h' = h ∧ Httpd.contentLength header = .ok n := by
  refine (ensures_getRequest hr hheader).bind_read ?_
  refine ensures_asked.bind_read ?_
  refine (ensures_lookup contentLengthName hfields (hfields.length_le_next hnodup)).bind ?_
  rintro q h ⟨hsame, hq⟩
  subst hsame
  rcases hq with ⟨rfl, hnone⟩ | ⟨d, value, rfl, hsome, hvalue⟩
  · refine ensures_pure ⟨rfl, ?_⟩
    simp only [Httpd.contentLength, hnone]
  · refine (ensures_string hvalue).bind_read ?_
    split
    · next hneg => exact ⟨_, by simp only [Httpd.contentLength, hsome, if_pos hneg], rfl⟩
    · next hneg =>
        exact ensures_pure ⟨rfl, by simp only [Httpd.contentLength, hsome, if_neg hneg]⟩

/-- The block that the body is read into. -/
theorem ensures_readBody {length : Int} (hr : h.blocks r = some (.request block)) :
    Ensures (readBody grants (some r) length input) h (Exits grants (Httpd.readBody length input))
      fun _ h' => ∃ p body rest bodies, Httpd.readBody length input = .ok (body, rest) ∧
        h.Grows h' [r] bodies ∧ (r :: bodies).Nodup ∧
        h'.blocks r = some (.request { block with body := some p }) ∧
        BodyAt h'.blocks p body bodies := by
  have hlive : h.blocks r ≠ none := by
    rw [hr]
    exact Option.some_ne_none _
  unfold readBody
  split
  · next hlength =>
      split
      · next hlong => exact .failed (by rw [Httpd.readBody, if_pos hlength, if_pos hlong])
      · next hlong =>
          refine (ensures_xmalloc fun n hn => .outOfMemory hn).bind ?_
          rintro p h₁ ⟨d, hp, hnew, hd⟩
          subst hp
          have hdr : d ≠ r := fun heq => hnew.notMem hlive (List.mem_singleton.mpr heq.symm)
          refine (ensures_setRequest _ (hnew.held hr List.not_mem_nil)).bind ?_
          rintro _ h₂ ⟨hset, hr⟩
          have hd := hset.held hd (by simp [hdr])
          have hgrows₂ : h.Grows h₂ [r] [d] := hnew.trans hset (by simp)
          have hstore : ∃ cells, Cells.store (input.take length.toNat) (Cells.fresh length.toNat) =
              some cells := by
            refine ⟨_, if_pos ?_⟩
            rw [Cells.fresh, List.length_replicate]
            exact List.length_take_le _ _
          obtain ⟨cells, hcells⟩ := hstore
          refine (ensures_changeChars hd hcells).bind ?_
          rintro _ h₃ ⟨hset', hd⟩
          have hr := hset'.held hr (by simp [hdr.symm])
          split
          · next hshort =>
              exact .failed (by
                rw [Httpd.readBody, if_pos hlength, if_neg hlong, if_pos hshort])
          · next hshort =>
              have htake : (input.take length.toNat).length = length.toNat := by
                rw [List.length_take, Nat.min_eq_left (Nat.le_of_not_lt hshort)]
              rw [Cells.store_fresh htake] at hcells
              obtain rfl := Option.some.inj hcells
              refine ensures_pure ⟨some d, some (input.take length.toNat),
                input.drop length.toNat, [d], ?_, hgrows₂.trans hset' (by simp),
                by simp [hdr.symm], hr, .some hd⟩
              rw [Httpd.readBody, if_pos hlength, if_neg hlong, if_neg hshort]
  · next hlength =>
      refine (ensures_setRequest _ hr).imp ?_
      rintro _ h' ⟨hset, hr⟩
      exact ⟨none, none, input, [], by rw [Httpd.readBody, if_neg hlength], hset,
        List.nodup_singleton r, hr, .none⟩

/-- `read_request` gives the request and nothing besides. -/
theorem ensures_readRequest :
    Ensures (readRequest grants input) h (Exits grants (Httpd.readRequest input)) fun q h' =>
      ∃ r req m p header fields body bodies rest, q = some r ∧
        Httpd.readRequest input = .ok (req, rest) ∧
        h.Grows h' [] (r :: m :: p :: (fields ++ bodies)) ∧
        RequestAt h'.blocks r req m p header fields body bodies := by
  refine (ensures_xmalloc fun n hn => .outOfMemory hn).bind ?_
  rintro q h₁ ⟨r, hq, hnew, hr⟩
  subst hq
  refine (ensures_readRequestLine hr |>.exits_imp fun _ he => he.imp fun e failed => ?_).bind ?_
  · simp only [Httpd.readRequest, failed]
  rintro rest h₂ ⟨m, p, method, path, minor, hline, hgrows₂, hthree, hr, hmethod, hpath⟩
  refine (ensures_setRequest _ hr).bind ?_
  rintro _ h₃ ⟨hset, hr⟩
  have hsingle := List.nodup_singleton r
  refine (ensures_readHeader _ (Nat.lt_succ_self _) hr rfl .nil hsingle |>.exits_imp
    fun _ he => he.imp fun e failed => ?_).bind ?_
  · simp only [Httpd.readRequest, hline, failed]
  rintro rest' h₄ ⟨header, ph, fields, hheader, hgrows₄, hnodup₄, hr, hfields⟩
  rw [List.append_nil] at hnodup₄ hfields
  refine (ensures_contentLength hr rfl hfields (List.nodup_cons.mp hnodup₄).2 |>.exits_imp
    fun response hfail => ?_).bind ?_
  · obtain ⟨e, failed, rfl⟩ := hfail
    exact .failed (by simp only [Httpd.readRequest, hline, hheader, failed])
  rintro length h₄ ⟨hsame, hlength⟩
  subst hsame
  refine (ensures_setRequest _ hr).bind ?_
  rintro _ h₅ ⟨hset', hr⟩
  refine (ensures_readBody hr |>.exits_imp fun _ he => he.imp fun e failed => ?_).bind ?_
  · simp only [Httpd.readRequest, hline, hheader, hlength, failed]
  rintro _ h₆ ⟨pb, body, rest'', bodies, hbody, hgrows₆, hnodup₆, hr, hbodyAt⟩
  have hlater : h₄.Grows h₆ [r] bodies := hset'.trans hgrows₆ (by simp)
  have htexts : h₂.Grows h₆ [r] (fields ++ bodies) := by
    have hbefore : h₂.Grows h₄ [r] fields := hset.trans hgrows₄ (by simp)
    exact hbefore.trans hlater (by simp)
  have hall : h.Grows h₆ [] (r :: m :: p :: (fields ++ bodies)) := by
    have hbefore : h.Grows h₂ [] [r, m, p] := hnew.trans hgrows₂ (by simp)
    exact hbefore.trans htexts (by simp)
  simp only [List.nodup_cons, List.mem_cons, not_or] at hthree hnodup₄ hnodup₆
  have hmr : m ∉ [r] := by simp [Ne.symm hthree.1.1]
  have hpr : p ∉ [r] := by simp [Ne.symm hthree.1.2.1]
  have hdisjoint : fields.Disjoint [r] := fun d hd hmem =>
    hnodup₄.1 (List.mem_singleton.mp hmem ▸ hd)
  refine ensures_pure ⟨r, ⟨minor, method, path, header, body, length⟩, m, p, ph, fields, pb, bodies,
    rest'', rfl, ?_, hall,
    { block := hr
      methodAt := hmethod.grows htexts hmr
      pathAt := hpath.grows htexts hpr
      fieldsAt := hfields.grows hlater hdisjoint
      bodyAt := hbodyAt
      nodup := ?_ }⟩
  · simp only [Httpd.readRequest, hline, hheader, hlength, hbody]
  · -- What came later is none of what was there.
    have hm : m ∉ fields ++ bodies := htexts.notMem hmethod.live
    have hp : p ∉ fields ++ bodies := htexts.notMem hpath.live
    have hfb : ∀ d ∈ fields, ∀ e ∈ bodies, d ≠ e := fun d hd e he heq =>
      hlater.notMem (hfields.live d hd) (heq ▸ he)
    simp only [List.nodup_cons, List.mem_cons, not_or, List.nodup_append,
      List.mem_append] at hm hp ⊢
    exact ⟨⟨hthree.1.1, hthree.1.2.1, hnodup₄.1, hnodup₆.1⟩, ⟨hthree.2.1.1, hm⟩, hp, hnodup₄.2,
      hnodup₆.2, hfb⟩

/-! ## `respond_to` -/

/-- How the process may end before it has answered: without memory, or by a `log_exit` of the
model without a heap. -/
inductive Stops (grants : Nat → Nat → Bool) (response : Response) : Response → Prop
  | outOfMemory {n size : Nat} (refused : grants n size = false) :
      Stops grants response (silent outOfMemory)
  | failed (failed : response.exit ≠ none) : Stops grants response response

theorem Stops.of_eq {grants : Nat → Nat → Bool} {response result : Response}
    (heq : response = result) (hexit : result.exit ≠ none) : Stops grants response result :=
  heq ▸ .failed (heq ▸ hexit)

theorem ensures_getInfo {α : Type} {info : InfoBlock} {member : InfoBlock → Option α} {a : α}
    (hd : h.blocks d = some (.info info)) (hmember : member info = some a) :
    Ensures (getInfo (some d) member) h exits fun a' h' => a' = a ∧ h' = h :=
  ensures_read hd hmember

theorem ensures_setInfo {info : InfoBlock} (change : InfoBlock → InfoBlock)
    (hd : h.blocks d = some (.info info)) :
    Ensures (setInfo (some d) change) h exits fun _ h' =>
      h.Grows h' [d] [] ∧ h'.blocks d = some (.info (change info)) :=
  ensures_write hd rfl

variable {site : Site} {req : HTTPRequest} {m p : Nat} {header body : Pointer}
  {fields bodies : List Nat}

/-- What `get_fileinfo` found about a path, in its block. -/
structure InfoAt (t : Handles Block) (i q : Nat) (path : Bytes) (size : Option Nat) : Prop where
  block : t i = some (.info ⟨some (some q), size, some size.isSome⟩)
  pathAt : TextAt t q path
  ne : i ≠ q

theorem ensures_getFileinfo {urlpath : Bytes} (hdocroot : (0 : UInt8) ∉ site.docroot)
    (hurlpath : (0 : UInt8) ∉ urlpath)
    (hexit : ∀ n size, grants n size = false → exits (silent outOfMemory)) :
    Ensures (getFileinfo grants site urlpath) h exits fun info h' => ∃ i q, info = some i ∧
      h.Grows h' [] [i, q] ∧
      InfoAt h'.blocks i q (Httpd.buildFspath site.docroot urlpath) (site.fileSize urlpath) := by
  have hpath : (0 : UInt8) ∉ Httpd.buildFspath site.docroot urlpath := by
    rw [Httpd.buildFspath, List.mem_append, List.mem_cons, not_or, not_or]
    exact ⟨hdocroot, by decide, hurlpath⟩
  refine (ensures_xmalloc fun n => hexit n _).bind ?_
  rintro info h₁ ⟨i, hi, hnew, hinfo⟩
  subst hi
  refine (ensures_newString hexit hpath).bind ?_
  rintro q h₂ ⟨q, hq, hnew₂, hpathAt⟩
  subst hq
  have hiq : i ≠ q := fun heq => hnew₂.notMem (by rw [hinfo]; exact Option.some_ne_none _)
    (List.mem_singleton.mpr heq)
  have hgrows₂ : h.Grows h₂ [] [i, q] := hnew.trans hnew₂ (by simp)
  refine (ensures_setInfo _ (hnew₂.held hinfo List.not_mem_nil)).bind ?_
  rintro _ h₃ ⟨hset, hinfo⟩
  have hpathAt := hpathAt.grows hset (by simp [hiq.symm])
  have hgrows₃ : h.Grows h₃ [] [i, q] := hgrows₂.trans hset (by simp)
  refine (ensures_string hpathAt).bind_read ?_
  have hsize : site.fileSize urlpath =
      (site.lstat (Httpd.buildFspath site.docroot urlpath)).bind fun st =>
        if st.regular then some st.size else none := rfl
  have hmissing : site.fileSize urlpath = none →
      Ensures (pure (some i) : Program Pointer) h₃ exits fun info h' => ∃ i q, info = some i ∧
        h.Grows h' [] [i, q] ∧
        InfoAt h'.blocks i q (Httpd.buildFspath site.docroot urlpath) (site.fileSize urlpath) := by
    intro hnone
    refine ensures_pure ⟨i, q, rfl, hgrows₃, ?_, hpathAt, hiq⟩
    rw [hinfo, hnone]
    rfl
  split
  · next hstat =>
      rw [hstat] at hsize
      exact hmissing hsize
  · next st hstat =>
      rw [hstat, Option.bind_some] at hsize
      split
      · next hregular =>
          rw [if_pos hregular] at hsize
          refine (ensures_setInfo _ hinfo).bind ?_
          rintro _ h₄ ⟨hset, hinfo⟩
          refine ensures_pure ⟨i, q, rfl, hgrows₃.trans hset (by simp), ?_,
            hpathAt.grows hset (by simp [hiq.symm]), hiq⟩
          rw [hinfo, hsize]
          rfl
      · next hother =>
          rw [if_neg hother] at hsize
          exact hmissing hsize

theorem ensures_freeFileinfo {i q : Nat} {path : Bytes} {size : Option Nat}
    (at_ : InfoAt h.blocks i q path size) :
    Ensures (freeFileinfo (some i)) h exits fun _ h' => h.Releases h' [q, i] := by
  refine Ensures.bind_read (ensures_getInfo at_.block rfl) ?_
  refine (ensures_free at_.pathAt.block).bind fun _ h₁ hgone => ?_
  have hinfo := hgone.held at_.block (by simp [at_.ne])
  refine (ensures_free hinfo).imp ?_
  exact fun _ h₂ hgone' => hgone.trans hgone'

theorem ensures_checkClock {accessed : List Bytes}
    (hexit : site.clockFails = true → exits (Site.clockExit accessed)) :
    Ensures (checkClock site accessed) h exits fun _ h' => h' = h ∧ site.clockFails = false := by
  unfold checkClock
  split
  · next hclock => exact ensures_exit (hexit hclock)
  · next hclock => exact ensures_pure ⟨rfl, Bool.eq_false_iff.mpr hclock⟩

/-- A page is written, or the clock ends the process before. -/
theorem ensures_page {response : Response} {out : Bytes} {accessed : List Bytes}
    {k : Program Response} {blocks : Handles Block} (hpage : response = site.page out accessed)
    (hk : Ensures k h (Stops grants response) fun r h' =>
      r = { out := out, accessed := accessed, exit := none } ∧ h'.blocks = blocks) :
    Ensures (do checkClock site accessed; k) h (Stops grants response) fun r h' =>
      r = response ∧ r.exit = none ∧ h'.blocks = blocks := by
  refine (ensures_checkClock fun hclock => ?_).bind ?_
  · exact .of_eq (hpage.trans (if_pos hclock)) (Option.some_ne_none _)
  · rintro _ h₁ ⟨hsame, hclock⟩
    subst hsame
    refine hk.imp ?_
    rintro r h₂ ⟨rfl, hblocks⟩
    exact ⟨(hpage.trans (Site.page_of_clock hclock _ _)).symm, rfl, hblocks⟩

/-- A file is looked up, and read, with nothing left of it. -/
theorem ensures_doFileResponse (hdocroot : (0 : UInt8) ∉ site.docroot)
    (at_ : RequestAt h.blocks r req m p header fields body bodies) :
    Ensures (doFileResponse grants site (some r)) h (Stops grants (site.fileResponse req))
      fun response h' => response = site.fileResponse req ∧ response.exit = none ∧
        h'.blocks = h.blocks := by
  refine Ensures.bind_read (ensures_getRequest at_.block rfl) ?_
  refine (ensures_string at_.pathAt).bind_read ?_
  refine (ensures_getFileinfo hdocroot at_.pathAt.string fun n size hn => .outOfMemory hn).bind ?_
  rintro info h₁ ⟨i, q, hi, hnew, hinfo⟩
  subst hi
  have hmethod := at_.methodAt.grows hnew List.not_mem_nil
  have hr := hnew.held at_.block List.not_mem_nil
  refine Ensures.bind_read (ensures_getInfo hinfo.block rfl) ?_
  refine (ensures_string hinfo.pathAt).bind_read ?_
  refine Ensures.bind_read (ensures_getInfo hinfo.block rfl) ?_
  have hswap : ∀ d, d ∈ [i, q] ↔ d ∈ [q, i] := fun d => by
    rw [List.mem_pair, List.mem_pair]
    exact Or.comm
  cases hsize : site.fileSize req.path with
  | none =>
      rw [if_pos (by simp)]
      refine (ensures_freeFileinfo hinfo).bind fun _ h₂ hgone => ?_
      have hblocks := hnew.restored hgone hswap
      have hpage : site.fileResponse req = site.page (site.notFound req)
          [Httpd.buildFspath site.docroot req.path] := by
        simp only [Site.fileResponse, hsize]
      refine ensures_page hpage ?_
      refine Ensures.bind_read (ensures_getRequest (hblocks ▸ at_.block) rfl) ?_
      refine (ensures_string (hblocks ▸ at_.methodAt)).bind_read ?_
      exact ensures_pure ⟨rfl, hblocks⟩
  | some size =>
      rw [if_neg (by simp)]
      refine (ensures_checkClock fun hclock => ?_).bind ?_
      · refine .of_eq ?_ (Option.some_ne_none _)
        simp only [Site.fileResponse, hsize, if_pos hclock]
      rintro _ h₂ ⟨hsame, hclock⟩
      subst hsame
      have hclock := Bool.eq_false_iff.mp hclock
      refine Ensures.bind_read (ensures_getInfo hinfo.block hsize) ?_
      refine Ensures.bind_read (ensures_getRequest hr rfl) ?_
      refine (ensures_string hmethod).bind_read ?_
      split
      · next hhead =>
          refine (ensures_freeFileinfo hinfo).bind fun _ h₂ hgone => ?_
          refine ensures_pure ⟨?_, rfl, hnew.restored hgone hswap⟩
          simp only [Site.fileResponse, hsize, if_neg hclock, if_pos hhead]
      · next hhead =>
          cases hopen : site.openFile (Httpd.buildFspath site.docroot req.path) with
          | none =>
              refine ensures_exit (.of_eq ?_ (Option.some_ne_none _))
              simp only [Site.fileResponse, hsize, if_neg hclock, if_neg hhead, hopen]
          | some file =>
              have hresponse : site.fileResponse req =
                  { out := site.fileHeader size ++ (copyFile site.room
                      (Httpd.buildFspath site.docroot req.path) file).1
                    accessed := [Httpd.buildFspath site.docroot req.path,
                      Httpd.buildFspath site.docroot req.path]
                    exit := (copyFile site.room
                      (Httpd.buildFspath site.docroot req.path) file).2 } := by
                simp only [Site.fileResponse, hsize, if_neg hclock, if_neg hhead, hopen]
              dsimp only
              split
              · next hcut =>
                  exact ensures_exit (.of_eq hresponse (Option.isSome_iff_ne_none.mp hcut))
              · next hwhole =>
                  refine (ensures_freeFileinfo hinfo).bind fun _ h₂ hgone => ?_
                  exact ensures_pure ⟨hresponse.symm, Option.not_isSome_iff_eq_none.mp hwhole,
                    hnew.restored hgone hswap⟩

theorem ensures_respondTo (hdocroot : (0 : UInt8) ∉ site.docroot)
    (at_ : RequestAt h.blocks r req m p header fields body bodies) :
    Ensures (respondTo grants site (some r)) h (Stops grants (site.answer req))
      fun response h' => response = site.answer req ∧ response.exit = none ∧
        h'.blocks = h.blocks := by
  refine Ensures.bind_read (ensures_getRequest at_.block rfl) ?_
  refine (ensures_string at_.methodAt).bind_read ?_
  unfold Site.answer
  split
  · exact ensures_doFileResponse hdocroot at_
  · split
    · exact ensures_doFileResponse hdocroot at_
    · split <;> exact ensures_page rfl (ensures_pure ⟨rfl, rfl⟩)

/-! ## `free_request` -/

theorem ensures_freeHeader {list : List HTTPHeaderField}
    (hfields : FieldsAt h.blocks header list fields) (hnodup : fields.Nodup) {rounds : Nat}
    (hrounds : list.length ≤ rounds) :
    Ensures (freeHeader rounds header) h exits fun _ h' => h.Releases h' fields := by
  induction list generalizing header fields rounds h with
  | nil =>
      cases hfields
      unfold freeHeader
      exact ensures_pure (.refl h)
  | cons field list ih =>
      cases hfields with
      | @cons d name value next _ _ ds block nameAt valueAt rest =>
      obtain ⟨rounds, rfl⟩ := Nat.exists_eq_add_of_le' (Nat.le_trans (Nat.le_add_left 1 _) hrounds)
      simp only [List.nodup_cons, List.mem_cons, not_or] at hnodup
      obtain ⟨⟨hdn, hdv, hd⟩, ⟨hnv, hn⟩, hv, hds⟩ := hnodup
      rw [freeHeader]
      refine Ensures.bind_read (ensures_getField block rfl) ?_
      refine Ensures.bind_read (ensures_getField block rfl) ?_
      refine (ensures_free nameAt.block).bind fun _ h₁ hgone₁ => ?_
      have block₁ := hgone₁.held block (by simp [hdn])
      refine Ensures.bind_read (ensures_getField block₁ rfl) ?_
      have hvalue := hgone₁.held valueAt.block (by simp [Ne.symm hnv])
      refine (ensures_free hvalue).bind
        fun _ h₂ hgone₂ => ?_
      have block₂ := hgone₂.held block₁ (by simp [hdv])
      refine (ensures_free block₂).bind
        fun _ h₃ hgone₃ => ?_
      have hthree : h.Releases h₃ ([name] ++ ([value] ++ [d])) :=
        hgone₁.trans (hgone₂.trans hgone₃)
      have hrest : FieldsAt h₃.blocks next list ds := rest.of_same fun e he => hthree.same e (by
        simp only [List.cons_append, List.nil_append, List.mem_cons, List.not_mem_nil, or_false,
          not_or]
        exact ⟨fun heq => hn (heq ▸ he), fun heq => hv (heq ▸ he), fun heq => hd (heq ▸ he)⟩)
      refine (ih hrest hds (Nat.le_of_succ_le_succ hrounds)).imp ?_
      exact fun _ h₄ hgone₄ => (hthree.trans hgone₄).of_mem_iff fun e => by
        simp only [List.cons_append, List.nil_append, List.mem_cons]
        tauto

/-- The body, if there is one, goes. -/
theorem ensures_freeBody {text : Option Bytes} (hbody : BodyAt h.blocks body text bodies) :
    Ensures (free body : Program Unit) h exits fun _ h' => h.Releases h' bodies := by
  cases hbody with
  | none => exact ensures_free_null.imp fun _ h' hsame => hsame ▸ .refl h
  | some block => exact ensures_free block

/-- Every block of the request goes, once. -/
theorem ensures_freeRequest (at_ : RequestAt h.blocks r req m p header fields body bodies) :
    Ensures (freeRequest (some r)) h exits fun _ h' =>
      h.Releases h' (r :: m :: p :: (fields ++ bodies)) := by
  obtain ⟨block, hmethod, hpath, hfields, hbody, hnodup⟩ := at_
  simp only [List.nodup_cons, List.mem_cons, not_or, List.nodup_append, List.mem_append] at hnodup
  obtain ⟨⟨hrm, hrp, hrf, hrb⟩, ⟨hmp, hmf, hmb⟩, ⟨hpf, hpb⟩, hnodup, -, hfb⟩ := hnodup
  refine Ensures.bind_read (ensures_getRequest block rfl) ?_
  refine ensures_asked.bind_read ?_
  refine (ensures_freeHeader hfields hnodup (hfields.length_le_next hnodup)).bind
    fun _ h₁ hgone₁ => ?_
  have block₁ := hgone₁.held block hrf
  refine Ensures.bind_read (ensures_getRequest block₁ rfl) ?_
  have hm := hgone₁.held hmethod.block hmf
  refine (ensures_free hm).bind fun _ h₂ hgone₂ => ?_
  have block₂ := hgone₂.held block₁ (by simp [hrm])
  refine Ensures.bind_read (ensures_getRequest block₂ rfl) ?_
  have hp := hgone₂.held (hgone₁.held hpath.block hpf) (by simp [Ne.symm hmp])
  refine (ensures_free hp).bind fun _ h₃ hgone₃ => ?_
  have block₃ := hgone₃.held block₂ (by simp [hrp])
  have hthree : h.Releases h₃ (fields ++ ([m] ++ [p])) := hgone₁.trans (hgone₂.trans hgone₃)
  refine Ensures.bind_read (ensures_getRequest block₃ rfl) ?_
  have hbody := hbody.of_same fun d hd => hthree.same d (by
    simp only [List.mem_append, List.mem_singleton, not_or]
    exact ⟨fun hf => hfb d hf d hd rfl, fun heq => hmb (heq ▸ hd), fun heq => hpb (heq ▸ hd)⟩)
  refine (ensures_freeBody hbody).bind fun _ h₄ hgone₄ => ?_
  have block₄ := hgone₄.held block₃ hrb
  refine (ensures_free block₄).imp ?_
  intro _ h₅ hgone₅
  refine (hthree.trans (hgone₄.trans hgone₅)).of_mem_iff fun e => ?_
  simp only [List.mem_append, List.mem_cons, List.not_mem_nil, or_false]
  tauto

end Functions

/-! ## `service` -/

/-- Nothing but a `log_exit` leaves a block behind, and only for want of memory does `service`
do anything else than the model without a heap. -/
theorem service_frees (grants : Nat → Nat → Bool) {site : Site}
    (hdocroot : (0 : UInt8) ∉ site.docroot) (input : Bytes) (h : Heap Block) :
    Ensures (service grants site input) h (Stops grants (site.service input))
      fun response h' => response = site.service input ∧ response.exit = none ∧
        h'.blocks = h.blocks := by
  have hread : Ensures (readRequest grants input) h (Exits grants (Httpd.readRequest input)) _ :=
    ensures_readRequest
  refine (hread.exits_imp fun response he => ?_).bind ?_
  · cases he with
    | outOfMemory refused => exact .outOfMemory refused
    | @failed e failed =>
        refine .of_eq ?_ (Option.some_ne_none e)
        simp only [Site.service, failed]
        rfl
  rintro q h₁ ⟨r, req, m, p, header, fields, body, bodies, rest, hq, hreq, hnew, hat⟩
  subst hq
  have hservice : site.service input = site.answer req := by
    simp only [Site.service, hreq]
  rw [hservice]
  refine (ensures_respondTo hdocroot hat).bind ?_
  rintro response h₂ ⟨hresponse, hdone, hsame⟩
  refine (ensures_freeRequest (hsame ▸ hat)).bind fun _ h₃ hgone => ?_
  have hgone : h₁.Releases h₃ (r :: m :: p :: (fields ++ bodies)) := hgone.of_blocks hsame
  exact ensures_pure ⟨hresponse, hdone, hnew.restored hgone fun _ => Iff.rfl⟩

/-- A server without files, and a socket that takes nothing of them. -/
def bareSite : Site where
  docroot := []
  tm := oneFile.tm
  lstat := fun _ => none
  openFile := fun _ => none
  clockFails := false
  room := some 0

/-- `POST / HTTP/1.0` with a field `A:b` -/
def postLines : Bytes :=
  ascii ['P', 'O', 'S', 'T', ' ', '/', ' ', 'H', 'T', 'T', 'P', '/', '1', '.', '0', '\n', 'A', ':',
    'b', '\n', '\n']

theorem exit_postLines : (bareSite.service postLines).exit = none := by
  have hline : Httpd.readRequestLine postLines =
      .ok ((methodPost, [slash], 0), ascii ['A', ':', 'b', '\n', '\n']) := rfl
  have hfield : readHeaderField (ascii ['A', ':', 'b', '\n', '\n']) =
      .ok (some ⟨ascii ['A'], ascii ['b', '\n']⟩, [lf]) := rfl
  have hempty : readHeaderField [lf] = .ok (none, []) := rfl
  have hheader : Httpd.readHeader [] (ascii ['A', ':', 'b', '\n', '\n']) =
      .ok ([⟨ascii ['A'], ascii ['b', '\n']⟩], []) := by
    rw [readHeader_eq, hfield]
    dsimp only
    rw [readHeader_eq, hempty]
  simp only [Site.service, Httpd.readRequest, hline, hheader]
  rfl

theorem service_frees_post : ∃ response h',
    service (fun _ _ => true) bareSite postLines Heap.empty = some (.ok response, h') ∧
      response = bareSite.service postLines ∧ h'.blocks = Heap.empty.blocks := by
  have hdocroot : (0 : UInt8) ∉ bareSite.docroot := List.not_mem_nil
  have hensures := service_frees (fun _ _ => true) hdocroot postLines Heap.empty
  obtain ⟨response, h', hrun, hresponse, -, hblocks⟩ := hensures.exists_of_not fun e he => by
    cases he with
    | outOfMemory refused => cases refused
    | failed failed => exact failed exit_postLines
  exact ⟨response, h', hrun, hresponse, hblocks⟩

end NetworkProgram.Httpd.Allocation
