import Mathlib.Data.Nat.Notation
import Mathlib.Data.String.Basic

/-!
# Texts cut at a character

The pieces between the places where a separating character stands.

* **`splitOn_singleton`**: the pieces of a text, by its characters;
* `splitOn_of_notMem`: a text without the character is one piece.
-/

namespace ActionVm

open String

/-- What is left of a text is cut at the separating character. -/
theorem splitOnAux_singleton (sep : Char) (l m r : List Char) (acc : List String) :
    splitOnAux (ofList (l ++ m ++ r)) (singleton sep) ⟨utf8Len l⟩ ⟨utf8Len l + utf8Len m⟩ 0 acc =
      acc.reverse ++ (List.splitOnPPrepend (· == sep) r m.reverse).map ofList := by
  -- the separator is a text of one character, which is read in one go
  have hsep : singleton sep = ofList ([] ++ [sep]) := by simp
  have hfirst : Pos.Raw.get (singleton sep) 0 = sep := hsep ▸ get_of_valid [] [sep]
  have hafter : Pos.Raw.next (singleton sep) 0 = ⟨sep.utf8Size⟩ := by
    rw [hsep]
    simpa using next_of_valid [] sep []
  have hend : Pos.Raw.atEnd (singleton sep) ⟨sep.utf8Size⟩ = true := by
    rw [String.atEnd_iff, hsep, rawEndPos_ofList]
    simp
  induction r generalizing l m acc with
  | nil =>
    rw [splitOnAux, if_pos (by simp [-ofList_append, String.atEnd_iff]), extract_of_valid l m []]
    simp
  | cons c r ih =>
    have hget := get_of_valid (l ++ m) (c :: r)
    have hnext := next_of_valid (l ++ m) c r
    have hextract := extract_of_valid l m (c :: r)
    have hsize := c.utf8Size_pos
    rw [utf8Len_append] at hget hnext
    rw [splitOnAux, if_neg (by simp [-ofList_append, String.atEnd_iff]; omega), hget]
    simp only [hfirst, hafter, hend, if_true, List.headD_cons]
    by_cases hc : c = sep
    · subst hc
      have h := ih (l ++ m ++ [c]) [] (ofList m :: acc)
      rw [if_pos (by simp), hnext, Pos.Raw.unoffsetBy, Nat.add_sub_cancel, hextract]
      simpa [-ofList_append, List.splitOnPPrepend_cons_eq_if, Nat.add_assoc] using h
    · have h := ih l (m ++ [c]) acc
      rw [if_neg (by simpa using hc), Pos.Raw.unoffsetBy, Pos.Raw.byteIdx_zero, Nat.sub_zero,
        hnext]
      simpa [-ofList_append, List.splitOnPPrepend_cons_eq_if, hc, Nat.add_assoc] using h

/-- The pieces of a text, by its characters. -/
theorem splitOn_singleton (sep : Char) (s : String) :
    s.splitOn (singleton sep) = (s.toList.splitOnP (· == sep)).map ofList := by
  have h := splitOnAux_singleton sep [] [] s.toList []
  rw [List.nil_append, List.nil_append, ofList_toList] at h
  rw [splitOn, if_neg (by simp)]
  exact h

/-- A text without the separating character is one piece. -/
theorem splitOn_of_notMem {sep : Char} {s : String} (h : sep ∉ s.toList) :
    s.splitOn (singleton sep) = [s] := by
  rw [splitOn_singleton, List.splitOnP_eq_singleton fun c hc => by
    simpa using fun hsep : c = sep => h (hsep ▸ hc)]
  simp

end ActionVm
