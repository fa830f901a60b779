import NetworkProgram.Tls.Glob

set_option autoImplicit false

/-!
# TLS: the reads of `like_check_ignorecase`

The comparison with its pointers.  A pointer is what stands from there up to and
including the terminator, so behind the terminator there is nothing to read.  The
pattern is never read behind its end, and the string only by the `*` loop.
-/

namespace NetworkProgram.Tls

open NetworkProgram.Libc

/-- A read behind the terminator of a string. -/
inductive Overrun
  | strIn
  | checkIn
  deriving DecidableEq, Repr

/-- `like_check_ignorecase` behind a `*`. -/
def starFrom (rest : Bytes → Except Overrun Bool) (strIn : Bytes) : Except Overrun Bool :=
  match rest strIn with
  | .ok false =>
      match strIn with
      | [] => .error .strIn
      | [_] => .error .strIn
      | _ :: c :: strIn => if c = 0 then .ok false else starFrom rest (c :: strIn)
  | result => result

def likeFrom : Bytes → Bytes → Except Overrun Bool
  | _, [] => .error .checkIn
  | strIn, c :: checkIn =>
      if c = 0 then
        match strIn with
        | [] => .error .strIn
        | d :: _ => .ok (d = 0)
      else if c = star then
        match checkIn with
        | [] => .error .checkIn
        | next :: _ =>
            if next = 0 then .ok true else starFrom (fun strIn => likeFrom strIn checkIn) strIn
      else
        match strIn with
        | [] => .error .strIn
        | d :: strIn =>
            if c = question then
              if d = 0 then .ok false else likeFrom strIn checkIn
            else if toupper d ≠ toupper c then .ok false
            else likeFrom strIn checkIn

/-- The pointer to the first byte of a string. -/
def pointer (buf : Bytes) : Bytes := cstr buf ++ [0]

/-- The answer, or the read behind a terminator. -/
def likeCheckReads (strIn checkIn : Bytes) : Except Overrun Bool :=
  likeFrom (pointer strIn) (pointer checkIn)

/-- The result of a comparison that reads nothing behind the pattern. -/
def resultOf : Option Bool → Except Overrun Bool
  | some ok => .ok ok
  | none => .error .strIn

theorem starFrom_eq {rest : Bytes → Except Overrun Bool} {restOf : Bytes → Option Bool}
    {str : Bytes} (hstr : (0 : UInt8) ∉ str)
    (hrest : ∀ later, later <:+ str → rest (later ++ [0]) = resultOf (restOf later)) :
    starFrom rest (str ++ [0]) = resultOf (starLoop restOf str) := by
  induction str with
  | nil =>
      have hend := hrest [] (List.suffix_refl _)
      rw [List.nil_append] at hend ⊢
      rw [starFrom.eq_def, hend, starLoop]
      cases restOf [] with
      | none => rfl
      | some ok => cases ok <;> rfl
  | cons c str ih =>
      rw [List.mem_cons, not_or] at hstr
      have htail := ih hstr.2 fun later hsuffix =>
        hrest later (hsuffix.trans (List.suffix_cons c str))
      rw [starFrom.eq_def, hrest (c :: str) (List.suffix_refl _), starLoop]
      cases restOf (c :: str) with
      | none => rfl
      | some ok =>
          cases ok with
          | true => rfl
          | false =>
              cases str with
              | nil => rfl
              | cons d str =>
                  rw [List.mem_cons, not_or] at hstr
                  simpa [resultOf, Ne.symm hstr.2.1] using htail

/-- No byte of the pattern is the same as the terminator of the string. -/
theorem toupper_zero_ne {c : UInt8} (hc : c ≠ 0) : toupper 0 ≠ toupper c := by
  intro h
  have hpos : c.toNat ≠ 0 := fun hzero => hc (UInt8.toNat_inj.mp hzero)
  have hnat := congrArg UInt8.toNat h
  rw [toNat_toupper, toNat_toupper, UInt8.toNat_zero] at hnat
  split at hnat <;> split at hnat <;> omega

/-- The comparison with pointers is the comparison of the strings. -/
theorem likeFrom_eq {str check : Bytes} (hstr : (0 : UInt8) ∉ str) (hcheck : (0 : UInt8) ∉ check) :
    likeFrom (str ++ [0]) (check ++ [0]) = resultOf (likeStrings str check) := by
  induction check using pattern_induction generalizing str with
  | empty =>
      cases str with
      | nil => rfl
      | cons d str =>
          rw [List.mem_cons, not_or] at hstr
          simp [likeFrom, likeStrings, resultOf, Ne.symm hstr.1]
  | starLast => rw [likeStrings_star_last]; rfl
  | starMore check hmore ih =>
      obtain ⟨next, check, rfl⟩ := List.exists_cons_of_ne_nil hmore
      rw [List.mem_cons, not_or] at hcheck
      have hnext := hcheck.2
      rw [List.mem_cons, not_or] at hnext
      rw [likeStrings_star hmore, List.cons_append, likeFrom.eq_def]
      dsimp only
      rw [if_neg (Ne.symm hcheck.1), if_pos rfl, List.cons_append]
      dsimp only
      rw [if_neg (Ne.symm hnext.1)]
      exact starFrom_eq hstr fun later hsuffix => ih (fun h => hstr (hsuffix.subset h)) hcheck.2
  | byte c check hstar ih =>
      rw [List.mem_cons, not_or] at hcheck
      have hc : c ≠ 0 := Ne.symm hcheck.1
      rw [List.cons_append, likeFrom.eq_def]
      dsimp only
      rw [if_neg hc, if_neg hstar]
      cases str with
      | nil =>
          have hupper := toupper_zero_ne hc
          rw [likeStrings_end hstar]
          simp [hupper, resultOf]
      | cons d str =>
          rw [List.mem_cons, not_or] at hstr
          rw [likeStrings_byte hstar, List.cons_append]
          have htail := ih hstr.2 hcheck.2
          by_cases hquestion : c = question
          · simp [hquestion, Ne.symm hstr.1, htail]
          · by_cases hsame : toupper d = toupper c
            · simp [hquestion, hsame, htail]
            · simp [hquestion, hsame, resultOf]

/-- Whatever the strings, the pattern is not read behind its end. -/
theorem likeCheckReads_eq (strIn checkIn : Bytes) :
    likeCheckReads strIn checkIn = resultOf (likeCheckIgnorecase strIn checkIn) :=
  likeFrom_eq (nul_notMem_cstr _) (nul_notMem_cstr _)

/-! ## Running out of the string -/

/-- The string matches what stands before a `*` with more than `*`s behind it.  Of
several `*` in a row it is the first. -/
def RunsOut (str check : Bytes) : Prop :=
  ∃ before after, check = before ++ star :: after ∧ before.getLast? ≠ some star ∧
    (∃ c ∈ after, c ≠ star) ∧ LikeGlob str before

theorem getLast?_cons_ne {c : UInt8} {text : Bytes} (hc : text = [] → c ≠ star)
    (h : text.getLast? ≠ some star) : (c :: text).getLast? ≠ some star := by
  cases text with
  | nil => simpa using hc rfl
  | cons d text => rwa [List.getLast?_cons_cons]

theorem RunsOut.cons {str check : Bytes} {c d : UInt8} (hc : c ≠ star)
    (hsame : c = question ∨ toupper d = toupper c) (h : RunsOut str check) :
    RunsOut (d :: str) (c :: check) := by
  obtain ⟨before, after, rfl, hlast, hafter, hglob⟩ := h
  refine ⟨c :: before, after, rfl, getLast?_cons_ne (fun _ => hc) hlast, hafter, ?_⟩
  exact (likeGlob_cons hc).mpr ⟨d, str, rfl, hsame, hglob⟩

theorem runsOut_of_none {str check : Bytes} (h : likeStrings str check = none) :
    RunsOut str check := by
  induction check using pattern_induction generalizing str with
  | empty => cases h
  | starLast =>
      rw [likeStrings_star_last] at h
      cases h
  | starMore check hcheck ih =>
      rw [likeStrings_star hcheck] at h
      rcases starLoop_eq_none h with ⟨rfl, htrue⟩ | ⟨later, hsuffix, hne, hnone, -⟩
      · refine ⟨[], check, rfl, by simp, ?_, likeGlob_nil.mpr rfl⟩
        by_contra hall
        push Not at hall
        exact htrue (likeStrings_eq_true_iff.mpr (likeGlob_empty.mpr hall))
      · obtain ⟨before, after, rfl, hlast, hafter, hglob⟩ := ih hnone
        refine ⟨star :: before, after, rfl, getLast?_cons_ne (fun hnil => ?_) hlast, hafter,
          likeGlob_star.mpr ⟨later, hsuffix, hglob⟩⟩
        subst hnil
        exact absurd (likeGlob_nil.mp hglob) hne
  | byte c check hc ih =>
      cases str with
      | nil =>
          rw [likeStrings_end hc] at h
          cases h
      | cons d str =>
          rw [likeStrings_byte hc] at h
          split at h
          · exact (ih h).cons hc ‹_›
          · cases h

theorem not_runsOut_of_false {str check : Bytes} (h : likeStrings str check = some false) :
    ¬ RunsOut str check := by
  induction check using pattern_induction generalizing str with
  | empty => rintro ⟨before, after, heq, -⟩; cases before <;> cases heq
  | starLast =>
      rw [likeStrings_star_last] at h
      cases h
  | starMore check hcheck ih =>
      rintro ⟨before, after, heq, hlast, hafter, hglob⟩
      rw [likeStrings_star hcheck] at h
      obtain ⟨hne, hfalse⟩ := starLoop_eq_false h
      cases before with
      | nil => exact hne (likeGlob_nil.mp hglob)
      | cons b before =>
          obtain ⟨rfl, rfl⟩ := List.cons.inj heq
          obtain ⟨later, hsuffix, hlater⟩ := likeGlob_star.mp hglob
          cases before with
          | nil => exact hlast rfl
          | cons b before =>
              rw [List.getLast?_cons_cons] at hlast
              by_cases hnil : later = []
              · -- A pattern of `*`s only would end in one.
                subst hnil
                refine hlast ?_
                rw [List.getLast?_eq_some_getLast (List.cons_ne_nil b before)]
                exact congrArg some (likeGlob_empty.mp hlater _ (List.getLast_mem _))
              · exact ih (hfalse later hsuffix hnil)
                  ⟨b :: before, after, rfl, hlast, hafter, hlater⟩
  | byte c check hc ih =>
      rintro ⟨before, after, heq, hlast, hafter, hglob⟩
      cases before with
      | nil => exact hc (List.cons.inj heq).1
      | cons b before =>
          obtain ⟨rfl, rfl⟩ := List.cons.inj heq
          obtain ⟨d, rest, rfl, hsame, hrest⟩ := (likeGlob_cons hc).mp hglob
          rw [likeStrings_byte hc, if_pos hsame] at h
          refine ih h ⟨before, after, rfl, fun hstar => hlast ?_, hafter, hrest⟩
          cases before with
          | nil => cases hstar
          | cons b before => rwa [List.getLast?_cons_cons]

theorem likeStrings_eq_none_iff {str check : Bytes} :
    likeStrings str check = none ↔ RunsOut str check ∧ ¬ LikeGlob str check := by
  constructor
  · intro h
    exact ⟨runsOut_of_none h, not_likeGlob_of_none h str (List.suffix_refl _)⟩
  · rintro ⟨hout, hglob⟩
    cases h : likeStrings str check with
    | none => rfl
    | some ok =>
        cases ok with
        | true => exact absurd (likeStrings_eq_true_iff.mp h) hglob
        | false => exact absurd hout (not_runsOut_of_false h)

/-- No string is read behind its terminator. -/
def ReadsInside (strIn checkIn : Bytes) : Prop :=
  ∀ overrun, likeCheckReads strIn checkIn ≠ .error overrun

/-- The reads stay inside the strings exactly if the pattern matches, or no part of it
in front of a `*` does. -/
theorem readsInside_iff (strIn checkIn : Bytes) :
    ReadsInside strIn checkIn ↔
      (RunsOut (cstr strIn) (cstr checkIn) → LikeGlob (cstr strIn) (cstr checkIn)) := by
  have hresult : ReadsInside strIn checkIn ↔ likeStrings (cstr strIn) (cstr checkIn) ≠ none := by
    unfold ReadsInside
    rw [likeCheckReads_eq, likeCheckIgnorecase]
    cases likeStrings (cstr strIn) (cstr checkIn) <;> simp [resultOf]
  rw [hresult, ne_eq, likeStrings_eq_none_iff, not_and, not_not]

/-- The host `"ab"` against the name `"ab*c"`. -/
theorem reads_behind_terminator :
    likeCheckReads (ascii ['a', 'b']) (ascii ['a', 'b', '*', 'c']) = .error .strIn ∧
      ¬ ∀ strIn checkIn, ReadsInside strIn checkIn :=
  ⟨rfl, fun h => h (ascii ['a', 'b']) (ascii ['a', 'b', '*', 'c']) .strIn rfl⟩

end NetworkProgram.Tls
