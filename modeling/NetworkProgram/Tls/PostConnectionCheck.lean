import NetworkProgram.Tls.Pointers

set_option autoImplicit false

/-!
# TLS: `post_connection_check`

The check of the peer's certificate after the handshake, the same in
`ssl-client.c` and `ssl-server.c`.  What OpenSSL's accessors return is the data of
the certificate; the rest is the code's own: the loop over the extensions, with
its two ways out, the commonName that is looked at when no name has matched, and
the return at the end, which does not ask whether any name has matched.

A comparison that reads behind its string goes on in what stands there, and its result
is used like any other.  That result is a parameter, `behind`, and what is said about the
check is said for all values of it.
-/

namespace NetworkProgram.Tls

open NetworkProgram.Libc

/-- `X509_V_OK` -/
def x509VOk : Int := 0

/-- `X509_V_ERR_APPLICATION_VERIFICATION` -/
def x509VErrApplicationVerification : Int := 50

/-- `CONF_VALUE`: one name of a subjectAltName, as `i2v` renders it. -/
structure ConfValue where
  name : Bytes
  value : Bytes

/-- An extension: its short name, and what the method for it decodes, if
`X509V3_EXT_get` knows a method. -/
structure Extension where
  sn : Bytes
  method : Option (List ConfValue)

/-- The parts of a certificate that are looked at.  `subject` is the commonName
within the subject, if there is a subject at all. -/
structure Certificate where
  exts : List Extension
  subject : Option (Option Bytes)

/-- `sizeof(data)` -/
def dataSize : Nat := 256

def subjectAltName : Bytes :=
  ascii ['s', 'u', 'b', 'j', 'e', 'c', 't', 'A', 'l', 't', 'N', 'a', 'm', 'e']

def dns : Bytes := ascii ['D', 'N', 'S']

/-! ## The code -/

section Code

-- What a comparison of the two strings returns that reads behind the terminator of the first.
variable (behind : Bytes → Bytes → Bool)

/-- `like_check_ignorecase(str_in, check_in)`, with a result in any case. -/
def likeCheck (strIn checkIn : Bytes) : Bool :=
  (likeCheckIgnorecase strIn checkIn).getD (behind strIn checkIn)

/-- The loop over the names of one extension: `ok`. -/
def checkValues (host : Bytes) : List ConfValue → Bool
  | [] => false
  | cval :: val =>
      if strncmpEq cval.name dns 3 && likeCheck behind cval.value host then true
      else checkValues host val

/-- The loop over the extensions: `ok`.  An extension without a method ends it. -/
def checkExtensions (host : Bytes) : List Extension → Bool
  | [] => false
  | ext :: exts =>
      if strncmpEq ext.sn subjectAltName 14 then
        match ext.method with
        | none => false
        | some val =>
            if checkValues behind host val then true else checkExtensions host exts
      else checkExtensions host exts

/-- `X509_NAME_get_text_by_NID(subject, NID_commonName, data, size)`: the return
value, and the text it has put into `data`. -/
def getTextByNid (commonName : Option Bytes) (size : Nat) : Int × Bytes :=
  match commonName with
  | none => (-1, [])
  | some text => ((text.take (size - 1)).length, text.take (size - 1) ++ [0])

/-- `post_connection_check(ssl, host)` for the peer certificate and the result of
the chain verification that `ssl` holds. -/
def postConnectionCheck (peer : Option Certificate) (verifyResult : Int)
    (host : Option Bytes) : Int :=
  match host with
  | none => x509VErrApplicationVerification
  | some host =>
      match peer with
      | none => x509VErrApplicationVerification
      | some cert =>
          if checkExtensions behind host cert.exts then verifyResult
          else
            match cert.subject with
            | none => verifyResult
            | some commonName =>
                let (length, data) := getTextByNid commonName dataSize
                if 0 < length then
                  if likeCheck behind host data then verifyResult
                  else x509VErrApplicationVerification
                else verifyResult

end Code

/-! ## What a successful check should mean -/

/-- The names of type DNS in a list of extensions, up to the first
subjectAltName without a method. -/
def dnsNames (exts : List Extension) : List Bytes :=
  let altNames := exts.filter fun ext => strncmpEq ext.sn subjectAltName 14
  ((altNames.takeWhile fun ext => ext.method.isSome).flatMap fun ext =>
    (ext.method.getD []).filter fun cval => strncmpEq cval.name dns 3).map ConfValue.value

/-- The commonName's text, if there is any. -/
def Certificate.commonNameText (cert : Certificate) : Option Bytes :=
  (cert.subject.getD none).bind fun text =>
    if text = [] then none else some (text.take (dataSize - 1))

/-- Some name of the certificate is one that the comparison finds to match, without a read
behind its string. -/
def NameMatched (cert : Certificate) (host : Bytes) : Prop :=
  (∃ value ∈ dnsNames cert.exts, likeCheckIgnorecase value host = some true) ∨
    ∃ text, cert.commonNameText = some text ∧ likeCheckIgnorecase host text = some true

/-- Some comparison that the check can make returns 1, whatever it reads. -/
def NameAnswered (behind : Bytes → Bytes → Bool) (cert : Certificate) (host : Bytes) : Prop :=
  (∃ value ∈ dnsNames cert.exts, likeCheck behind value host = true) ∨
    ∃ text, cert.commonNameText = some text ∧ likeCheck behind host (text ++ [0]) = true

/-- The check succeeds only for a verified peer with a name that has `matched`. -/
def AcceptsOnly (behind : Bytes → Bytes → Bool) (matched : Certificate → Bytes → Prop)
    (peer : Option Certificate) (verifyResult : Int) (host : Bytes) : Prop :=
  postConnectionCheck behind peer verifyResult (some host) = x509VOk →
    verifyResult = x509VOk ∧ ∃ cert, peer = some cert ∧ matched cert host

/-- The host is a pattern for one of the DNS names. -/
def AltNameGlob (cert : Certificate) (host : Bytes) : Prop :=
  ∃ value ∈ dnsNames cert.exts, LikeGlob (cstr value) (cstr host)

/-- There is a commonName to decide on, and it is decided by what stands in the strings. -/
def CommonNameDecides (cert : Certificate) (host : Bytes) : Prop :=
  ∃ text, cert.commonNameText = some text ∧
    (LikeGlob (cstr host) (cstr text) ∨
      ¬ RunsOut (cstr host) (cstr text) ∧
        ∀ value ∈ dnsNames cert.exts, ¬ RunsOut (cstr value) (cstr host))

/-! ## The comparison -/

section Comparison

variable {behind : Bytes → Bytes → Bool} {strIn checkIn : Bytes}

/-- The comparison returns 1 for a glob, and for a string that runs out if what stands behind
it makes it do so. -/
theorem likeCheck_eq_true_iff : likeCheck behind strIn checkIn = true ↔
    LikeGlob (cstr strIn) (cstr checkIn) ∨
      RunsOut (cstr strIn) (cstr checkIn) ∧ behind strIn checkIn = true := by
  unfold likeCheck likeCheckIgnorecase
  cases hlike : likeStrings (cstr strIn) (cstr checkIn) with
  | none =>
      obtain ⟨hout, hglob⟩ := likeStrings_eq_none_iff.mp hlike
      simp [hout, hglob]
  | some ok =>
      rw [Option.getD_some, likeStrings_eq_some hlike]
      refine ⟨.inl, fun h => h.elim id fun hout => ?_⟩
      by_contra hglob
      have hnone := likeStrings_eq_none_iff.mpr ⟨hout.1, hglob⟩
      cases hlike.symm.trans hnone

theorem likeCheck_of_glob (h : LikeGlob (cstr strIn) (cstr checkIn)) :
    likeCheck behind strIn checkIn = true := likeCheck_eq_true_iff.mpr (.inl h)

/-- Whatever stands behind the strings, the comparison returns 1 for globs only. -/
theorem forall_likeCheck_iff : (∀ behind, likeCheck behind strIn checkIn = true) ↔
    LikeGlob (cstr strIn) (cstr checkIn) := by
  refine ⟨fun h => ?_, fun h _ => likeCheck_of_glob h⟩
  have hfalse := likeCheck_eq_true_iff.mp (h fun _ _ => false)
  simpa using hfalse

/-- There can be bytes behind the strings with which the comparison returns 1. -/
theorem likeCheck_true_iff : likeCheck (fun _ _ => true) strIn checkIn = true ↔
    LikeGlob (cstr strIn) (cstr checkIn) ∨ RunsOut (cstr strIn) (cstr checkIn) := by
  rw [likeCheck_eq_true_iff, and_iff_left rfl]

theorem likeCheck_concat_nul : likeCheck behind strIn (checkIn ++ [0]) = true ↔
    LikeGlob (cstr strIn) (cstr checkIn) ∨
      RunsOut (cstr strIn) (cstr checkIn) ∧ behind strIn (checkIn ++ [0]) = true := by
  rw [likeCheck_eq_true_iff, cstr_concat_nul]

end Comparison

theorem nameMatched_iff {cert : Certificate} {host : Bytes} : NameMatched cert host ↔
    AltNameGlob cert host ∨
      ∃ text, cert.commonNameText = some text ∧ LikeGlob (cstr host) (cstr text) := by
  simp only [NameMatched, AltNameGlob, likeCheckIgnorecase, likeStrings_eq_true_iff]

/-! ## The loops -/

section Loops

variable {behind : Bytes → Bytes → Bool} {host : Bytes}

theorem checkValues_eq_true_iff {val : List ConfValue} :
    checkValues behind host val = true ↔
      ∃ cval ∈ val, strncmpEq cval.name dns 3 = true ∧ likeCheck behind cval.value host = true := by
  induction val with
  | nil => simp [checkValues]
  | cons cval val ih =>
      rw [checkValues, List.exists_mem_cons_iff, ← ih, ← Bool.and_eq_true]
      split
      · rename_i hcval
        exact iff_of_true rfl (.inl hcval)
      · rename_i hcval
        exact (or_iff_right hcval).symm

theorem mem_dnsNames_cons {ext : Extension} {exts : List Extension} {value : Bytes} :
    value ∈ dnsNames (ext :: exts) ↔
      if strncmpEq ext.sn subjectAltName 14 then
        ∃ val, ext.method = some val ∧
          ((∃ cval ∈ val, strncmpEq cval.name dns 3 = true ∧ cval.value = value) ∨
            value ∈ dnsNames exts)
      else value ∈ dnsNames exts := by
  unfold dnsNames
  split
  · rename_i hsn
    cases hmethod : ext.method with
    | none => simp [hsn, hmethod]
    | some val => simp [hsn, hmethod, and_assoc]
  · rename_i hsn
    simp [hsn]

/-- The loop sets `ok` exactly if the comparison returns 1 for some DNS name. -/
theorem checkExtensions_eq_true_iff {exts : List Extension} :
    checkExtensions behind host exts = true ↔
      ∃ value ∈ dnsNames exts, likeCheck behind value host = true := by
  induction exts with
  | nil => simp [checkExtensions, dnsNames]
  | cons ext exts ih =>
      rw [checkExtensions]
      simp only [mem_dnsNames_cons]
      split
      · cases ext.method with
        | none => simp
        | some val =>
            dsimp only
            split
            · rename_i hvalues
              obtain ⟨cval, hmem, hname, hlike⟩ := checkValues_eq_true_iff.mp hvalues
              exact iff_of_true rfl
                ⟨cval.value, ⟨val, rfl, .inl ⟨cval, hmem, hname, rfl⟩⟩, hlike⟩
            · rename_i hvalues
              rw [ih]
              constructor
              · rintro ⟨value, hmem, hlike⟩
                exact ⟨value, ⟨val, rfl, .inr hmem⟩, hlike⟩
              · rintro ⟨value, ⟨val', hval, hmem⟩, hlike⟩
                cases hval
                rcases hmem with ⟨cval, hmem, hname, rfl⟩ | hmem
                · exact absurd (checkValues_eq_true_iff.mpr ⟨cval, hmem, hname, hlike⟩) hvalues
                · exact ⟨value, hmem, hlike⟩
      · exact ih

/-- The loop does not set `ok` if the host is a pattern for no DNS name, and none runs out. -/
theorem checkExtensions_eq_false {exts : List Extension}
    (h : ∀ value ∈ dnsNames exts,
      ¬ LikeGlob (cstr value) (cstr host) ∧ ¬ RunsOut (cstr value) (cstr host)) :
    checkExtensions behind host exts = false := by
  rw [← Bool.not_eq_true, checkExtensions_eq_true_iff]
  rintro ⟨value, hmem, hlike⟩
  rcases likeCheck_eq_true_iff.mp hlike with hglob | ⟨hout, -⟩
  · exact (h value hmem).1 hglob
  · exact (h value hmem).2 hout

end Loops

/-! ## The result -/

theorem getTextByNid_of_text {cert : Certificate} {text : Bytes}
    (h : cert.commonNameText = some text) :
    ∃ commonName, cert.subject = some commonName ∧
      0 < (getTextByNid commonName dataSize).1 ∧
      (getTextByNid commonName dataSize).2 = text ++ [0] := by
  unfold Certificate.commonNameText at h
  cases hsubject : cert.subject with
  | none => simp [hsubject] at h
  | some commonName =>
      cases commonName with
      | none => simp [hsubject] at h
      | some raw =>
          simp only [hsubject, Option.getD_some, Option.bind_some] at h
          split at h
          · cases h
          · rename_i hne
            cases h
            refine ⟨some raw, rfl, ?_, rfl⟩
            have hpos := List.length_pos_iff.mpr hne
            simp only [getTextByNid, List.length_take, dataSize]
            omega

theorem getTextByNid_of_no_text {cert : Certificate} {commonName : Option Bytes}
    (h : cert.commonNameText = none) (hsubject : cert.subject = some commonName) :
    ¬ 0 < (getTextByNid commonName dataSize).1 := by
  cases commonName with
  | none => simp [getTextByNid]
  | some raw =>
      simp only [Certificate.commonNameText, hsubject, Option.getD_some, Option.bind_some] at h
      split at h
      · rename_i hnil
        simp [getTextByNid, hnil]
      · cases h

theorem likeCheckIgnorecase_text (host text : Bytes) :
    likeCheckIgnorecase host (text ++ [0]) = likeCheckIgnorecase host text := by
  rw [likeCheckIgnorecase, cstr_concat_nul, likeCheckIgnorecase]

section Result

variable {behind : Bytes → Bytes → Bool} {cert : Certificate} {verifyResult : Int} {host : Bytes}

theorem postConnectionCheck_of_altName (hexts : checkExtensions behind host cert.exts = true) :
    postConnectionCheck behind (some cert) verifyResult (some host) = verifyResult := by
  simp only [postConnectionCheck, hexts, if_true]

/-- With no DNS name matching, the commonName decides. -/
theorem postConnectionCheck_of_text {text : Bytes}
    (hexts : checkExtensions behind host cert.exts = false)
    (htext : cert.commonNameText = some text) :
    postConnectionCheck behind (some cert) verifyResult (some host) =
      if likeCheck behind host (text ++ [0]) then verifyResult
      else x509VErrApplicationVerification := by
  obtain ⟨commonName, hsubject, hpos, hdata⟩ := getTextByNid_of_text htext
  simp only [postConnectionCheck, hexts, Bool.false_eq_true, if_false, hsubject, if_pos hpos,
    hdata]

/-- Without a commonName the verification result is returned as it is. -/
theorem postConnectionCheck_of_no_text (htext : cert.commonNameText = none) :
    postConnectionCheck behind (some cert) verifyResult (some host) = verifyResult := by
  unfold postConnectionCheck
  dsimp only
  split
  · rfl
  · cases hsubject : cert.subject with
    | none => rfl
    | some commonName => simp only [if_neg (getTextByNid_of_no_text htext hsubject)]

theorem err_ne_ok : x509VErrApplicationVerification ≠ x509VOk := by decide

/-- What is accepted is verified, and has no commonName or a comparison that returned 1. -/
theorem of_postConnectionCheck_eq_ok
    (h : postConnectionCheck behind (some cert) verifyResult (some host) = x509VOk) :
    verifyResult = x509VOk ∧ (cert.commonNameText = none ∨ NameAnswered behind cert host) := by
  by_cases hexts : checkExtensions behind host cert.exts = true
  · rw [postConnectionCheck_of_altName hexts] at h
    exact ⟨h, .inr (.inl (checkExtensions_eq_true_iff.mp hexts))⟩
  · cases htext : cert.commonNameText with
    | none =>
        rw [postConnectionCheck_of_no_text htext] at h
        exact ⟨h, .inl rfl⟩
    | some text =>
        rw [postConnectionCheck_of_text (Bool.eq_false_iff.mpr hexts) htext] at h
        split at h
        · exact ⟨h, .inr (.inr ⟨text, htext, ‹_›⟩)⟩
        · exact absurd h err_ne_ok

/-- A verified peer is accepted if a comparison returned 1. -/
theorem postConnectionCheck_of_answered (h : NameAnswered behind cert host) :
    postConnectionCheck behind (some cert) x509VOk (some host) = x509VOk := by
  by_cases hexts : checkExtensions behind host cert.exts = true
  · exact postConnectionCheck_of_altName hexts
  · rcases h with haltName | ⟨text, htext, hlike⟩
    · exact absurd (checkExtensions_eq_true_iff.mpr haltName) hexts
    · rw [postConnectionCheck_of_text (Bool.eq_false_iff.mpr hexts) htext, if_pos hlike]

end Result

/-! ## When names are matched -/

section Matched

variable {cert : Certificate} {host : Bytes}

/-- A comparison that returns 1 is a match, where it is decided by what stands in the strings. -/
theorem CommonNameDecides.matched {behind : Bytes → Bytes → Bool}
    (h : CommonNameDecides cert host) (hanswered : NameAnswered behind cert host) :
    NameMatched cert host := by
  obtain ⟨text, htext, hglob | ⟨hout, houts⟩⟩ := h
  · exact nameMatched_iff.mpr (.inr ⟨text, htext, hglob⟩)
  · refine nameMatched_iff.mpr ?_
    rcases hanswered with ⟨value, hmem, hlike⟩ | ⟨text', htext', hlike⟩
    · refine .inl ⟨value, hmem, ?_⟩
      exact (likeCheck_eq_true_iff.mp hlike).resolve_right fun h => houts value hmem h.1
    · cases htext.symm.trans htext'
      exact .inr ⟨text, htext, (likeCheck_concat_nul.mp hlike).resolve_right fun h => hout h.1⟩

/-- Where it is not, there can be bytes behind the strings with which the peer is accepted. -/
theorem accepted_of_not_decides (h : ¬ CommonNameDecides cert host) :
    postConnectionCheck (fun _ _ => true) (some cert) x509VOk (some host) = x509VOk := by
  cases htext : cert.commonNameText with
  | none => exact postConnectionCheck_of_no_text htext
  | some text =>
      refine postConnectionCheck_of_answered ?_
      by_cases hout : RunsOut (cstr host) (cstr text)
      · exact .inr ⟨text, htext, likeCheck_concat_nul.mpr (.inr ⟨hout, rfl⟩)⟩
      · have hsome : ∃ value ∈ dnsNames cert.exts, RunsOut (cstr value) (cstr host) := by
          by_contra hnone
          push Not at hnone
          exact h ⟨text, htext, .inr ⟨hout, hnone⟩⟩
        obtain ⟨value, hmem, hvalue⟩ := hsome
        exact .inl ⟨value, hmem, likeCheck_true_iff.mpr (.inr hvalue)⟩

theorem matched_of_accepted_iff : (∀ behind,
      postConnectionCheck behind (some cert) x509VOk (some host) = x509VOk →
        NameMatched cert host) ↔
    AltNameGlob cert host ∨ CommonNameDecides cert host := by
  constructor
  · intro hmatched
    by_contra hneither
    obtain ⟨haltName, hcommonName⟩ := not_or.mp hneither
    have hname := hmatched _ (accepted_of_not_decides hcommonName)
    refine (nameMatched_iff.mp hname).elim haltName ?_
    rintro ⟨text, htext, hglob⟩
    exact hcommonName ⟨text, htext, .inl hglob⟩
  · rintro (haltName | hcommonName) behind haccepted
    · exact nameMatched_iff.mpr (.inl haltName)
    · obtain ⟨text, htext, -⟩ := id hcommonName
      obtain ⟨-, hnone | hanswered⟩ := of_postConnectionCheck_eq_ok haccepted
      · cases htext.symm.trans hnone
      · exact hcommonName.matched hanswered

theorem answered_of_accepted_iff : (∀ behind,
      postConnectionCheck behind (some cert) x509VOk (some host) = x509VOk →
        NameAnswered behind cert host) ↔
    AltNameGlob cert host ∨ cert.commonNameText ≠ none := by
  constructor
  · intro hanswered
    by_contra hneither
    obtain ⟨haltName, htext⟩ := not_or.mp hneither
    rw [not_not] at htext
    rcases hanswered (fun _ _ => false) (postConnectionCheck_of_no_text htext) with
      ⟨value, hmem, hlike⟩ | ⟨text, hsome, -⟩
    · exact haltName ⟨value, hmem, by simpa using likeCheck_eq_true_iff.mp hlike⟩
    · cases htext.symm.trans hsome
  · rintro (⟨value, hmem, hglob⟩ | htext) behind haccepted
    · exact .inl ⟨value, hmem, likeCheck_of_glob hglob⟩
    · exact (of_postConnectionCheck_eq_ok haccepted).2.resolve_left htext

end Matched

/-- It is about verified peers that sent a certificate. -/
theorem acceptsOnly_iff {matched : (Bytes → Bytes → Bool) → Certificate → Bytes → Prop}
    {peer : Option Certificate} {verifyResult : Int} {host : Bytes} :
    (∀ behind, AcceptsOnly behind (matched behind) peer verifyResult host) ↔
      (verifyResult = x509VOk → ∀ cert, peer = some cert → ∀ behind,
        postConnectionCheck behind (some cert) x509VOk (some host) = x509VOk →
          matched behind cert host) := by
  constructor
  · rintro honly rfl cert rfl behind haccepted
    obtain ⟨-, cert', hcert, hmatched⟩ := honly behind haccepted
    cases hcert
    exact hmatched
  · intro honly behind haccepted
    cases peer with
    | none => exact absurd haccepted err_ne_ok
    | some cert =>
        obtain ⟨rfl, -⟩ := of_postConnectionCheck_eq_ok haccepted
        exact ⟨rfl, cert, rfl, honly rfl cert rfl behind haccepted⟩

/-- Whatever stands behind the strings, an accepted peer has a name that matches exactly if
its chain was not verified, or the host is a pattern for a DNS name, or there is a commonName
and it is decided by what stands in the strings.  If a comparison that reads behind its string
is taken at its word, it is enough that there is a commonName. -/
theorem accepts_only_matched_iff (peer : Option Certificate) (verifyResult : Int) (host : Bytes) :
    ((∀ behind, AcceptsOnly behind NameMatched peer verifyResult host) ↔
      (verifyResult = x509VOk → ∀ cert, peer = some cert →
        AltNameGlob cert host ∨ CommonNameDecides cert host)) ∧
    ((∀ behind, AcceptsOnly behind (NameAnswered behind) peer verifyResult host) ↔
      (verifyResult = x509VOk → ∀ cert, peer = some cert →
        AltNameGlob cert host ∨ cert.commonNameText ≠ none)) := by
  rw [@acceptsOnly_iff fun _ => NameMatched, acceptsOnly_iff]
  simp only [matched_of_accepted_iff, answered_of_accepted_iff, and_self]

/-- A certificate for an organisation: no subjectAltName, and no commonName. -/
def namelessCertificate : Certificate where
  exts := []
  subject := some none

theorem nameless_accepted :
    postConnectionCheck (fun _ _ => false) (some namelessCertificate) x509VOk (some (ascii ['h'])) =
        x509VOk ∧
      ¬ AcceptsOnly (fun _ _ => false) NameMatched (some namelessCertificate) x509VOk
        (ascii ['h']) ∧
      ¬ AcceptsOnly (fun _ _ => false) (NameAnswered fun _ _ => false) (some namelessCertificate)
        x509VOk (ascii ['h']) := by
  refine ⟨rfl, fun honly => ?_, fun honly => ?_⟩
  all_goals
    obtain ⟨-, cert, hcert, hmatched⟩ := honly rfl
    cases hcert
    rcases hmatched with ⟨value, hmem, -⟩ | ⟨text, htext, -⟩
    · exact absurd hmem List.not_mem_nil
    · cases htext

end NetworkProgram.Tls
