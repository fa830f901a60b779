import NetworkProgram.Tls.PostConnectionCheck

set_option autoImplicit false

/-!
# TLS: the two kinds of names

`post_connection_check` compares a DNS name of a subjectAltName with the host as the
pattern, and the host with the commonName as the pattern; and only the latter
comparison can make it refuse a verified peer.
-/

namespace NetworkProgram.Tls

open NetworkProgram.Libc

/-- A certificate whose only name is a DNS name in a subjectAltName. -/
def altNameCertificate (name : Bytes) : Certificate where
  exts := [{ sn := subjectAltName, method := some [{ name := dns, value := name }] }]
  subject := some none

/-- A certificate whose only name is a commonName. -/
def commonNameCertificate (name : Bytes) : Certificate where
  exts := []
  subject := some (some name)

def Accepted (behind : Bytes → Bytes → Bool) (cert : Certificate) (verifyResult : Int)
    (host : Bytes) : Prop :=
  postConnectionCheck behind (some cert) verifyResult (some host) = x509VOk

section Checks

variable {behind : Bytes → Bytes → Bool} {name host : Bytes} {verifyResult : Int}

theorem checkExtensions_altName (behind : Bytes → Bytes → Bool) (name host : Bytes) :
    checkExtensions behind host (altNameCertificate name).exts = likeCheck behind name host := by
  have hsn : strncmpEq subjectAltName subjectAltName 14 = true := by decide
  have hdns : strncmpEq dns dns 3 = true := by decide
  simp only [altNameCertificate, checkExtensions, checkValues, hsn, hdns, if_true, Bool.true_and]
  cases likeCheck behind name host <;> rfl

/-- A DNS name is accepted whether it matches or not. -/
theorem accepted_altName_iff :
    Accepted behind (altNameCertificate name) verifyResult host ↔ verifyResult = x509VOk := by
  rw [Accepted, postConnectionCheck_of_no_text rfl]

/-- A commonName is accepted if it is empty or the comparison returns 1. -/
theorem accepted_commonName_iff (short : name.length < dataSize) :
    Accepted behind (commonNameCertificate name) verifyResult host ↔
      verifyResult = x509VOk ∧ (name = [] ∨ likeCheck behind host (name ++ [0]) = true) := by
  unfold Accepted
  by_cases hname : name = []
  · subst hname
    rw [postConnectionCheck_of_no_text rfl]
    simp
  · have htext : (commonNameCertificate name).commonNameText = some name := by
      simp only [Certificate.commonNameText, commonNameCertificate, Option.getD_some,
        Option.bind_some, if_neg hname]
      rw [List.take_of_length_le (Nat.le_sub_one_of_lt short)]
    have hexts : checkExtensions behind host (commonNameCertificate name).exts = false := rfl
    rw [postConnectionCheck_of_text hexts htext]
    cases likeCheck behind host (name ++ [0]) <;> simp [hname, err_ne_ok]

end Checks

/-- The comparison that is made for a DNS name, and that for a commonName. -/
def altNameMatch (behind : Bytes → Bytes → Bool) (name host : Bytes) : Bool :=
  checkExtensions behind host (altNameCertificate name).exts

def commonNameMatch (behind : Bytes → Bytes → Bool) (name host : Bytes) : Bool :=
  likeCheck behind host (getTextByNid (some name) dataSize).2

theorem commonNameMatch_eq {name : Bytes} (short : name.length < dataSize)
    (behind : Bytes → Bytes → Bool) (host : Bytes) :
    commonNameMatch behind name host = likeCheck behind host (name ++ [0]) := by
  have hall : name.take (dataSize - 1) = name :=
    List.take_of_length_le (Nat.le_sub_one_of_lt short)
  rw [commonNameMatch, getTextByNid, hall]

/-- A read behind the string: its result is not determined by the two strings. -/
def OverRead (str check : Bytes) : Prop := RunsOut str check ∧ ¬ LikeGlob str check

theorem likeCheck_of_overRead {behind : Bytes → Bytes → Bool} {strIn checkIn : Bytes}
    (h : OverRead (cstr strIn) (cstr checkIn)) :
    likeCheck behind strIn checkIn = behind strIn checkIn := by
  rw [Bool.eq_iff_iff, likeCheck_eq_true_iff, or_iff_right h.2, and_iff_right h.1]

theorem likeCheck_iff_of_not_overRead {behind : Bytes → Bytes → Bool} {strIn checkIn : Bytes}
    (h : ¬ OverRead (cstr strIn) (cstr checkIn)) :
    likeCheck behind strIn checkIn = true ↔ LikeGlob (cstr strIn) (cstr checkIn) := by
  rw [likeCheck_eq_true_iff]
  refine ⟨fun hlike => hlike.elim id fun hout => ?_, .inl⟩
  by_contra hglob
  exact h ⟨hout.1, hglob⟩

/-- A comparison that always has the result of another one, of other strings, does not depend
on what stands behind its own. -/
theorem not_overRead_of_agree {strIn checkIn strIn' checkIn' : Bytes}
    (hother : ¬ (strIn' = strIn ∧ checkIn' = checkIn))
    (hagree : ∀ behind, likeCheck behind strIn checkIn = likeCheck behind strIn' checkIn') :
    ¬ OverRead (cstr strIn) (cstr checkIn) := by
  intro hover
  have hchosen : ∀ ok, ok = likeCheck (fun _ _ => false) strIn' checkIn' := by
    intro ok
    have heq := hagree fun str check => if str = strIn ∧ check = checkIn then ok else false
    rw [likeCheck_of_overRead hover, if_pos ⟨rfl, rfl⟩, likeCheck, if_neg hother] at heq
    exact heq
  exact Bool.false_ne_true ((hchosen false).trans (hchosen true).symm)

/-- The two comparisons have the same result, whatever stands behind the strings, if and only
if none of them reads there and it makes no difference which of the two is the pattern. -/
theorem matches_agree_iff {name : Bytes} (short : name.length < dataSize) (host : Bytes) :
    (∀ behind, altNameMatch behind name host = commonNameMatch behind name host) ↔
      ¬ OverRead (cstr name) (cstr host) ∧ ¬ OverRead (cstr host) (cstr name) ∧
        (LikeGlob (cstr name) (cstr host) ↔ LikeGlob (cstr host) (cstr name)) := by
  simp only [altNameMatch, checkExtensions_altName, commonNameMatch_eq short]
  -- `data` has one byte more than the name, so the two are never called with the same strings.
  have hlonger : name ++ [0] ≠ name := by simp
  constructor
  · intro hagree
    have hname := not_overRead_of_agree (by rintro ⟨rfl, hdata⟩; exact hlonger hdata) hagree
    have hhost := not_overRead_of_agree (by rintro ⟨rfl, hdata⟩; exact hlonger hdata.symm)
      fun behind => (hagree behind).symm
    have hglob := Bool.eq_iff_iff.mp (hagree fun _ _ => false)
    rw [likeCheck_iff_of_not_overRead hname, likeCheck_iff_of_not_overRead hhost,
      cstr_concat_nul] at hglob
    rw [cstr_concat_nul] at hhost
    exact ⟨hname, hhost, hglob⟩
  · rintro ⟨hname, hhost, hglob⟩ behind
    rw [← cstr_concat_nul name] at hhost
    rw [Bool.eq_iff_iff, likeCheck_iff_of_not_overRead hname,
      likeCheck_iff_of_not_overRead hhost, cstr_concat_nul]
    exact hglob

/-- For a verified peer a name is accepted in both places or in neither, whatever stands behind
the strings, if and only if it is empty or a pattern for the host; and the two comparisons are
the same if and only if none of them reads there and it makes no difference which of the two is
the pattern. -/
theorem names_agree_iff {name : Bytes} (short : name.length < dataSize) (host : Bytes)
    (verifyResult : Int) :
    ((∀ behind, Accepted behind (altNameCertificate name) verifyResult host ↔
        Accepted behind (commonNameCertificate name) verifyResult host) ↔
      (verifyResult = x509VOk → name = [] ∨ LikeGlob (cstr host) (cstr name))) ∧
    ((∀ behind, altNameMatch behind name host = commonNameMatch behind name host) ↔
      ¬ OverRead (cstr name) (cstr host) ∧ ¬ OverRead (cstr host) (cstr name) ∧
        (LikeGlob (cstr name) (cstr host) ↔ LikeGlob (cstr host) (cstr name))) := by
  refine ⟨?_, matches_agree_iff short host⟩
  simp only [accepted_altName_iff, accepted_commonName_iff short, iff_self_and]
  rw [forall_comm]
  refine forall_congr' fun _ => ?_
  rw [forall_or_left, forall_likeCheck_iff, cstr_concat_nul]

/-- A host and its own name, in either place. -/
theorem names_agree_plain :
    (∀ behind, Accepted behind (altNameCertificate (ascii ['a', '.', 'b'])) x509VOk
        (ascii ['A', '.', 'b']) ↔
      Accepted behind (commonNameCertificate (ascii ['a', '.', 'b'])) x509VOk
        (ascii ['A', '.', 'b'])) ∧
    ∀ behind, altNameMatch behind (ascii ['a', '.', 'b']) (ascii ['A', '.', 'b']) =
      commonNameMatch behind (ascii ['a', '.', 'b']) (ascii ['A', '.', 'b']) := by
  have hglob : LikeGlob (cstr (ascii ['A', '.', 'b'])) (cstr (ascii ['a', '.', 'b'])) :=
    likeStrings_eq_true_iff.mp (by decide)
  have hglob' : LikeGlob (cstr (ascii ['a', '.', 'b'])) (cstr (ascii ['A', '.', 'b'])) :=
    likeStrings_eq_true_iff.mp (by decide)
  have key := @names_agree_iff (ascii ['a', '.', 'b']) (by decide) (ascii ['A', '.', 'b']) x509VOk
  exact ⟨key.1.mpr fun _ => .inr hglob,
    key.2.mpr ⟨fun h => h.2 hglob', fun h => h.2 hglob, iff_of_true hglob' hglob⟩⟩

/-- The name `a.l` and the host `*.l`: the wildcard counts for a DNS name only. -/
theorem host_wildcard :
    ¬ ∀ (behind : Bytes → Bytes → Bool) (name host : Bytes) (verifyResult : Int),
      name.length < dataSize →
        (Accepted behind (altNameCertificate name) verifyResult host ↔
          Accepted behind (commonNameCertificate name) verifyResult host) := by
  intro h
  have hagree := h (fun _ _ => false) (ascii ['a', '.', 'l']) (ascii ['*', '.', 'l']) x509VOk
    (by decide)
  rw [accepted_altName_iff, accepted_commonName_iff (by decide)] at hagree
  revert hagree
  decide

end NetworkProgram.Tls
