import NetworkProgram.Foundation.Globs
import NetworkProgram.Tls.LikeCheck

set_option autoImplicit false

/-!
# TLS: `like_check_ignorecase` and globs

What the comparison decides is a glob.  Its `*` loop never tries the empty rest of a
string that was not empty when it came to the `*`, but no match is lost by this: a
pattern that matches the empty rest matches every text.  Where the loop steps over the
terminator the pattern does not match, but a beginning of it does.
-/

namespace NetworkProgram.Tls

open NetworkProgram.Foundation
open NetworkProgram.Libc

def pieceOf (c : UInt8) : Piece UInt8 :=
  if c = star then .sequence else if c = question then .one else .letter c

/-- The text matches the pattern as a glob, without regard to case. -/
def LikeGlob (str check : Bytes) : Prop := Glob SameIgnoringCase (check.map pieceOf) str

theorem pieceOf_eq_sequence_iff {c : UInt8} : pieceOf c = .sequence ↔ c = star := by
  unfold pieceOf
  split
  · simpa
  · split <;> simpa

section Equations

variable {str check : Bytes}

theorem likeGlob_nil : LikeGlob str [] ↔ str = [] := Glob.nil_iff

theorem likeGlob_star :
    LikeGlob str (star :: check) ↔ ∃ rest, rest <:+ str ∧ LikeGlob rest check :=
  Glob.sequence_iff

/-- A pattern byte that is no `*` takes one byte of the text. -/
theorem likeGlob_cons {c : UInt8} (hc : c ≠ star) : LikeGlob str (c :: check) ↔
    ∃ d rest, str = d :: rest ∧ (c = question ∨ toupper d = toupper c) ∧ LikeGlob rest check := by
  unfold LikeGlob
  rw [List.map_cons, pieceOf, if_neg hc]
  split
  · rename_i hquestion
    simp [Glob.one_iff, hquestion]
  · rename_i hquestion
    simp [Glob.letter_iff, hquestion, toupper_eq_iff]

theorem likeGlob_empty : LikeGlob [] check ↔ ∀ c ∈ check, c = star := by
  unfold LikeGlob
  simp [Glob.empty_iff, pieceOf_eq_sequence_iff]

theorem LikeGlob.of_empty (h : LikeGlob [] check) (hne : check ≠ []) (str : Bytes) :
    LikeGlob str check :=
  Glob.of_empty h (by simpa using hne) str

end Equations

/-! ## The `*` loop -/

section StarLoop

variable {rest : Bytes → Option Bool} {str : Bytes}

theorem starLoop_eq_true (h : starLoop rest str = some true) :
    ∃ later, later <:+ str ∧ rest later = some true := by
  induction str with
  | nil =>
      rw [starLoop] at h
      split at h
      · cases h
      · exact ⟨[], List.suffix_refl _, h⟩
  | cons c str ih =>
      rw [starLoop] at h
      split at h
      · split at h
        · cases h
        · obtain ⟨later, hsuffix, hlater⟩ := ih h
          exact ⟨later, hsuffix.trans (List.suffix_cons c str), hlater⟩
      · exact ⟨c :: str, List.suffix_refl _, h⟩

/-- The loop gives up only when it has tried at every byte, and only on a string
with one at least. -/
theorem starLoop_eq_false (h : starLoop rest str = some false) :
    str ≠ [] ∧ ∀ later, later <:+ str → later ≠ [] → rest later = some false := by
  induction str with
  | nil =>
      rw [starLoop] at h
      split at h
      · cases h
      · exact absurd h ‹_›
  | cons c str ih =>
      refine ⟨List.cons_ne_nil c str, fun later hsuffix hne => ?_⟩
      rw [starLoop] at h
      split at h
      · rename_i hrest
        rcases List.suffix_cons_iff.mp hsuffix with rfl | hsuffix
        · exact hrest
        · split at h
          · rename_i hstr
            subst hstr
            exact absurd (List.suffix_nil.mp hsuffix) hne
          · exact (ih h).2 later hsuffix hne
      · exact absurd h ‹_›

/-- The loop reads behind the terminator at the end of a string that was empty, or
within the comparison of the rest at some byte. -/
theorem starLoop_eq_none (h : starLoop rest str = none) :
    (str = [] ∧ rest [] ≠ some true) ∨
      ∃ later, later <:+ str ∧ later ≠ [] ∧ rest later = none ∧
        ∀ skipped, skipped <:+ str → skipped <:+ later ∨ rest skipped = some false := by
  induction str with
  | nil =>
      refine .inl ⟨rfl, fun htrue => ?_⟩
      rw [starLoop, htrue] at h
      cases h
  | cons c str ih =>
      refine .inr ?_
      rw [starLoop] at h
      split at h
      · rename_i hrest
        split at h
        · cases h
        · rename_i hstr
          rcases ih h with ⟨hnil, -⟩ | ⟨later, hsuffix, hne, hnone, hskipped⟩
          · exact absurd hnil hstr
          · refine ⟨later, hsuffix.trans (List.suffix_cons c str), hne, hnone, ?_⟩
            intro skipped hs
            rcases List.suffix_cons_iff.mp hs with rfl | hs
            · exact .inr hrest
            · exact hskipped skipped hs
      · exact ⟨c :: str, List.suffix_refl _, List.cons_ne_nil c str, h, fun _ hs => .inl hs⟩

end StarLoop

/-! ## The comparison -/

section Equations

variable {str check : Bytes} {c : UInt8}

theorem likeStrings_star_last : likeStrings str [star] = some true := by
  simp [likeStrings.eq_def]

theorem likeStrings_star (hcheck : check ≠ []) : likeStrings str (star :: check) =
    starLoop (fun str => likeStrings str check) str := by
  rw [likeStrings.eq_def]
  simp [hcheck]

theorem likeStrings_end (hc : c ≠ star) : likeStrings [] (c :: check) = some false := by
  rw [likeStrings.eq_def]
  simp [hc]

theorem likeStrings_byte (hc : c ≠ star) (d : UInt8) : likeStrings (d :: str) (c :: check) =
    if c = question ∨ toupper d = toupper c then likeStrings str check else some false := by
  rw [likeStrings.eq_def]
  simp [hc]

end Equations

/-- The cases of `like_check_ignorecase`: a `*` at the end of the pattern is one of its own. -/
@[elab_as_elim]
theorem pattern_induction {motive : Bytes → Prop} (check : Bytes) (empty : motive [])
    (starLast : motive [star])
    (starMore : ∀ check, check ≠ [] → motive check → motive (star :: check))
    (byte : ∀ c check, c ≠ star → motive check → motive (c :: check)) : motive check := by
  induction check with
  | nil => exact empty
  | cons c check ih =>
      by_cases hc : c = star
      · subst hc
        by_cases hcheck : check = []
        · exact hcheck ▸ starLast
        · exact starMore check hcheck ih
      · exact byte c check hc ih

/-- Whatever the comparison answers is the glob. -/
theorem likeStrings_eq_some {str check : Bytes} {ok : Bool} (h : likeStrings str check = some ok) :
    ok = true ↔ LikeGlob str check := by
  induction check using pattern_induction generalizing str ok with
  | empty =>
      cases h
      rw [likeGlob_nil, List.isEmpty_iff]
  | starLast =>
      rw [likeStrings_star_last] at h
      cases h
      simp [likeGlob_star, likeGlob_nil]
  | starMore check hcheck ih =>
      rw [likeGlob_star]
      rw [likeStrings_star hcheck] at h
      cases ok with
      | true =>
          obtain ⟨later, hsuffix, hlater⟩ := starLoop_eq_true h
          exact ⟨fun _ => ⟨later, hsuffix, (ih hlater).mp rfl⟩, fun _ => rfl⟩
      | false =>
          obtain ⟨hne, hfalse⟩ := starLoop_eq_false h
          have hnone : ∀ later, later <:+ str → later ≠ [] → ¬ LikeGlob later check :=
            fun later hsuffix hlater hglob =>
              Bool.false_ne_true ((ih (hfalse later hsuffix hlater)).mpr hglob)
          refine ⟨fun heq => (Bool.false_ne_true heq).elim, ?_⟩
          rintro ⟨later, hsuffix, hglob⟩
          by_cases hlater : later = []
          · -- The empty rest is never tried, but then the whole string would match.
            subst hlater
            exact absurd (hglob.of_empty hcheck str) (hnone str (List.suffix_refl _) hne)
          · exact absurd hglob (hnone later hsuffix hlater)
  | byte c check hc ih =>
      rw [likeGlob_cons hc]
      cases str with
      | nil =>
          rw [likeStrings_end hc] at h
          cases h
          simp
      | cons d str =>
          rw [likeStrings_byte hc] at h
          split at h
          · rename_i hsame
            rw [ih h]
            simp [hsame]
          · rename_i hdiffer
            cases h
            simp [hdiffer]

/-- Where the comparison reads behind the terminator, no end of the string matches. -/
theorem not_likeGlob_of_none {str check : Bytes} (h : likeStrings str check = none) :
    ∀ later, later <:+ str → ¬ LikeGlob later check := by
  induction check using pattern_induction generalizing str with
  | empty => cases h
  | starLast =>
      rw [likeStrings_star_last] at h
      cases h
  | starMore check hcheck ih =>
      rw [likeStrings_star hcheck] at h
      intro later hlater hglob
      obtain ⟨rest, hrest, hmatch⟩ := likeGlob_star.mp hglob
      rcases starLoop_eq_none h with ⟨rfl, htrue⟩ | ⟨stuck, -, -, hnone, hskipped⟩
      · obtain rfl := List.suffix_nil.mp (hrest.trans hlater)
        cases hempty : likeStrings [] check with
        | none => exact ih hempty [] (List.suffix_refl _) hmatch
        | some ok => exact htrue (by rw [hempty, (likeStrings_eq_some hempty).mpr hmatch])
      · rcases hskipped rest (hrest.trans hlater) with hsuffix | hfalse
        · exact ih hnone rest hsuffix hmatch
        · exact Bool.false_ne_true ((likeStrings_eq_some hfalse).mpr hmatch)
  | byte c check hc ih =>
      intro later hlater hglob
      obtain ⟨d, rest, rfl, -, hmatch⟩ := (likeGlob_cons hc).mp hglob
      cases str with
      | nil => cases List.suffix_nil.mp hlater
      | cons e str =>
          rw [likeStrings_byte hc] at h
          split at h
          · refine ih h rest ?_ hmatch
            rcases List.suffix_cons_iff.mp hlater with heq | hsuffix
            · obtain ⟨-, rfl⟩ := List.cons.inj heq
              exact List.suffix_refl _
            · exact (List.suffix_cons d rest).trans hsuffix
          · cases h

theorem likeStrings_eq_true_iff {str check : Bytes} :
    likeStrings str check = some true ↔ LikeGlob str check := by
  cases h : likeStrings str check with
  | none => simpa using not_likeGlob_of_none h str (List.suffix_refl _)
  | some ok => rw [Option.some_inj, likeStrings_eq_some h]

/-- Unless a byte behind the terminator is read, the answer is the glob. -/
theorem likeCheckIgnorecase_iff {strIn checkIn : Bytes}
    (h : likeCheckIgnorecase strIn checkIn ≠ none) :
    (likeCheckIgnorecase strIn checkIn = some true ↔ LikeGlob (cstr strIn) (cstr checkIn)) ∧
      (likeCheckIgnorecase strIn checkIn = some false ↔
        ¬ LikeGlob (cstr strIn) (cstr checkIn)) := by
  refine ⟨likeStrings_eq_true_iff, ?_⟩
  unfold likeCheckIgnorecase at h ⊢
  rw [← likeStrings_eq_true_iff]
  cases hlike : likeStrings (cstr strIn) (cstr checkIn) with
  | none => exact absurd hlike h
  | some ok => cases ok <;> simp

theorem likeCheckIgnorecase_iff_stars :
    (likeCheckIgnorecase (ascii ['a', 'X', 'b']) (ascii ['*', 'x', '*']) = some true ↔
        LikeGlob (cstr (ascii ['a', 'X', 'b'])) (cstr (ascii ['*', 'x', '*']))) ∧
      (likeCheckIgnorecase (ascii ['a', 'X', 'b']) (ascii ['*', 'x', '*']) = some false ↔
        ¬ LikeGlob (cstr (ascii ['a', 'X', 'b'])) (cstr (ascii ['*', 'x', '*']))) :=
  likeCheckIgnorecase_iff (by decide)

end NetworkProgram.Tls
