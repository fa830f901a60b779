import NetworkProgram.Tls.Glob
import NetworkProgram.Tls.PostConnectionCheck

set_option autoImplicit false

/-!
# TLS: how much of the commonName is compared

`post_connection_check` compares the host with the commonName as a C string of at most
255 bytes; the length that `X509_NAME_get_text_by_NID` returns is compared with zero
only.  What stands behind a NUL or behind byte 255 is not looked at.
-/

namespace NetworkProgram.Tls

open NetworkProgram.Foundation
open NetworkProgram.Libc

/-- The comparison of the host with the commonName is made and succeeds. -/
def CommonNameMatches (host name : Bytes) : Prop :=
  let (length, data) := getTextByNid (some name) dataSize
  0 < length ∧ likeCheckIgnorecase host data = some true

/-- The part of the commonName that is compared. -/
def comparedName (name : Bytes) : Bytes := cstr (name.take (dataSize - 1))

theorem commonNameMatches_iff {host name : Bytes} :
    CommonNameMatches host name ↔ name ≠ [] ∧ LikeGlob (cstr host) (comparedName name) := by
  unfold CommonNameMatches getTextByNid
  dsimp only
  rw [likeCheckIgnorecase_text, likeCheckIgnorecase, likeStrings_eq_true_iff, comparedName]
  refine and_congr_left fun _ => ?_
  rw [← List.length_pos_iff, List.length_take, dataSize]
  omega

/-- With mismatches among the other names, a verified peer is accepted, whatever stands behind
the strings, by this comparison. -/
theorem accepted_iff_commonNameMatches {exts : List Extension} {host name : Bytes}
    (hexts : ∀ value ∈ dnsNames exts,
      ¬ LikeGlob (cstr value) (cstr host) ∧ ¬ RunsOut (cstr value) (cstr host))
    (hname : name ≠ []) :
    (∀ behind, postConnectionCheck behind (some { exts := exts, subject := some (some name) })
      x509VOk (some host) = x509VOk) ↔ CommonNameMatches host name := by
  have htext : Certificate.commonNameText { exts := exts, subject := some (some name) } =
      some (name.take (dataSize - 1)) := by
    simp [Certificate.commonNameText, hname]
  rw [commonNameMatches_iff, comparedName, ← cstr_concat_nul (name.take (dataSize - 1)),
    ← forall_likeCheck_iff, and_iff_right hname]
  refine forall_congr' fun behind => ?_
  rw [postConnectionCheck_of_text (checkExtensions_eq_false hexts) htext]
  simp [err_ne_ok]

end NetworkProgram.Tls
