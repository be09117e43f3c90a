import ActionVm.Decimal.Notation
import ActionVm.Proofs.Text.Numerals
import ActionVm.Reader
import ActionVm.Text.Quoted
import Mathlib

/-!
# Plain texts

A text is plain if it has no control characters, and so no line breaks either. Quoting makes any
text plain, and numerals are plain.

* `Text.IsControl`, `Text.Plain`: control characters and texts without them;
* **`Text.plain_quote`**: a quoted text is plain;
* `Text.plain_toString`, `Text.plain_toString_int`, `Text.plain_hexDigits`: numerals;
* `plain_write`: numbers with a fraction or an exponent.
-/

namespace ActionVm

namespace Text

/-- The character is of the category Cc. -/
def IsControl (c : Char) : Prop := c.toNat < 0x20 ∨ 0x7F ≤ c.toNat ∧ c.toNat < 0xA0

instance : DecidablePred IsControl :=
  fun c => inferInstanceAs (Decidable (c.toNat < 0x20 ∨ 0x7F ≤ c.toNat ∧ c.toNat < 0xA0))

/-- No character is a control character. -/
def Plain (l : List Char) : Prop := ∀ c ∈ l, ¬ IsControl c

instance : DecidablePred Plain := fun l => List.decidableBAll (¬ IsControl ·) l

@[simp]
theorem plain_append {l m : List Char} : Plain (l ++ m) ↔ Plain l ∧ Plain m :=
  List.forall_mem_append

theorem plain_nil : Plain [] := fun _ h => absurd h List.not_mem_nil

theorem plain_flatten {ls : List (List Char)} (h : ∀ l ∈ ls, Plain l) : Plain ls.flatten := by
  intro c hc
  obtain ⟨l, hl, hc⟩ := List.mem_flatten.mp hc
  exact h l hl c hc

theorem plain_intercalate {sep : List Char} {ls : List (List Char)} (hsep : Plain sep)
    (h : ∀ l ∈ ls, Plain l) : Plain (sep.intercalate ls) := by
  induction ls with
  | nil => exact plain_nil
  | cons l ls ih =>
    cases ls with
    | nil =>
      rw [List.intercalate_singleton]
      exact h l List.mem_cons_self
    | cons m ls =>
      rw [List.intercalate_cons_cons, plain_append, plain_append]
      exact ⟨⟨h l List.mem_cons_self, hsep⟩, ih fun k hk => h k (List.mem_cons_of_mem l hk)⟩

theorem plain_replicate {n : ℕ} {c : Char} (h : ¬ IsControl c) : Plain (List.replicate n c) := by
  intro d hd
  rw [List.eq_of_mem_replicate hd]
  exact h

theorem Plain.take {l : List Char} (h : Plain l) (n : ℕ) : Plain (l.take n) :=
  fun c hc => h c (List.mem_of_mem_take hc)

theorem Plain.drop {l : List Char} (h : Plain l) (n : ℕ) : Plain (l.drop n) :=
  fun c hc => h c (List.mem_of_mem_drop hc)

/-- Letters and digits are no control characters. -/
theorem not_isControl_of_isAlphanum {c : Char} (h : c.isAlphanum = true) : ¬ IsControl c := by
  simp only [Char.isAlphanum, Char.isAlpha, Char.isUpper, Char.isLower, Char.isDigit,
    Bool.or_eq_true, Bool.and_eq_true, decide_eq_true_eq, ge_iff_le, UInt32.le_iff_toNat_le] at h
  change ((65 ≤ c.toNat ∧ c.toNat ≤ 90) ∨ (97 ≤ c.toNat ∧ c.toNat ≤ 122)) ∨
    (48 ≤ c.toNat ∧ c.toNat ≤ 57) at h
  unfold IsControl
  omega

/-! ## Numerals -/

/-- A numeral is made of the digits of its base. -/
theorem exists_digit_of_mem_toDigits {b n : ℕ} (hb : 1 < b) {c : Char} (h : c ∈ Nat.toDigits b n) :
    ∃ d < b, c = Nat.digitChar d := by
  induction n using Nat.strong_induction_on with
  | _ n ih =>
    rw [Nat.toDigits_eq_if hb] at h
    split at h
    · next hn => exact ⟨n, hn, List.mem_singleton.mp h⟩
    · next hn =>
      rcases List.mem_append.mp h with h | h
      · exact ih (n / b) (Nat.div_lt_self (by omega) hb) h
      · exact ⟨n % b, Nat.mod_lt n (by omega), List.mem_singleton.mp h⟩

theorem plain_toString (n : ℕ) : Plain (toString n).toList := fun c hc =>
  not_isControl_of_isAlphanum <| by
    rw [Char.isAlphanum, isDigit_of_mem_toString hc, Bool.or_true]

theorem plain_toString_int (i : ℤ) : Plain (toString i).toList := by
  cases i with
  | ofNat n => exact plain_toString n
  | negSucc n =>
    change Plain ("-" ++ toString (n + 1)).toList
    rw [String.toList_append]
    exact plain_append.mpr ⟨by decide, plain_toString _⟩

theorem plain_hexDigits (n : ℕ) : Plain (hexDigits n).toList := by
  intro c hc
  rw [hexDigits, String.toList_ofList] at hc
  obtain ⟨d, hd, rfl⟩ := exists_digit_of_mem_toDigits (by decide) hc
  have hall : ∀ d < 16, ¬ IsControl (Nat.digitChar d) := by decide
  exact hall d hd

/-! ## Quoted texts -/

theorem isUnseen_of_isControl {c : Char} (h : IsControl c) (hc : 0x7F ≤ c.toNat) :
    isUnseen c = true := by
  have hmem : (0x7F, 0xA0) ∈ Unicode.unprintable := .tail _ (.head _)
  have hwithin : Unicode.within Unicode.unprintable c = true := by
    refine List.any_eq_true.mpr ⟨_, hmem, ?_⟩
    have hlast : c.toNat ≤ 0xA0 := by
      unfold IsControl at h
      omega
    simp [hc, hlast]
  rw [isUnseen, hwithin, Bool.true_or]

/-- What shows as itself is no control character. -/
theorem not_isControl_of_showsAsItself {c : Char} (h : showsAsItself c = true) :
    ¬ IsControl c := by
  intro hc
  unfold showsAsItself at h
  split at h
  · next hlow =>
    have := of_decide_eq_true h
    unfold IsControl at hc
    omega
  · next hhigh =>
    rw [isUnseen_of_isControl hc (Nat.le_of_not_lt hhigh)] at h
    simp at h

theorem plain_escape (c : Char) : Plain (escape c).toList := by
  unfold escape
  -- the first six characters have escapes of their own
  iterate 6
    split
    · decide
  split
  · next hshown =>
    intro d hd
    rw [Char.toString, String.toList_singleton, List.mem_singleton] at hd
    rw [hd]
    exact not_isControl_of_showsAsItself hshown
  · simp only [String.toList_append, plain_append]
    exact ⟨⟨by decide, plain_hexDigits _⟩, by decide⟩

/-- **A quoted text is plain.** -/
theorem plain_quote (s : String) : Plain (quote s).toList := by
  simp only [quote, String.toList_append, plain_append]
  refine ⟨⟨by decide, ?_⟩, by decide⟩
  rw [String.toList_join, List.flatMap_def]
  refine plain_flatten fun l hl => ?_
  simp only [List.map_map, List.mem_map, Function.comp_apply] at hl
  obtain ⟨c, -, rfl⟩ := hl
  exact plain_escape c

end Text

/-! ## Numbers with a fraction or an exponent -/

open Text

namespace Decimal

theorem plain_zeros (n : ℕ) : Plain (zeros n).toList := by
  rw [zeros, String.toList_ofList]
  exact plain_replicate (by decide)

theorem plain_writePositional {digits : String} (h : Plain digits.toList) (keepsPoint : Bool)
    (exponent : ℤ) : Plain (writePositional keepsPoint digits exponent).toList := by
  have htail : Plain (if keepsPoint then ".0" else "").toList := by
    cases keepsPoint <;> decide
  unfold writePositional
  dsimp only
  split
  · simp only [String.toList_append, plain_append]
    exact ⟨⟨h, plain_zeros _⟩, htail⟩
  · split
    · simp only [String.toList_append, plain_append, String.toList_ofList]
      exact ⟨⟨h.take _, by decide⟩, h.drop _⟩
    · simp only [String.toList_append, plain_append]
      exact ⟨⟨by decide, plain_zeros _⟩, h⟩

theorem plain_writeScientific {digits : String} (h : Plain digits.toList) (plusSign : Bool)
    (lead : ℤ) : Plain (writeScientific plusSign digits lead).toList := by
  have hsign : Plain (if lead < 0 then "-" else if plusSign then "+" else "").toList := by
    split_ifs <;> decide
  simp only [writeScientific, String.toList_append, plain_append]
  refine ⟨⟨⟨?_, by decide⟩, hsign⟩, plain_toString _⟩
  -- the digits before the point are none, one or the first of several
  split
  · exact plain_nil
  · next hd => rwa [Char.toString, String.toList_singleton, ← hd]
  · next d rest _ hd =>
    rw [hd, ← List.singleton_append, plain_append] at h
    simp only [Char.toString, String.toList_append, String.toList_singleton,
      String.toList_ofList, plain_append]
    exact ⟨⟨h.1, by decide⟩, h.2⟩

theorem plain_write (layout : Layout) (d : Decimal) : Plain (d.write layout).toList := by
  unfold write
  dsimp only
  split
  all_goals
    split
    · exact plain_writePositional (plain_toString _) _ _
    · exact plain_writeScientific (plain_toString _) _ _

end Decimal

/-- A number is plain if the word for infinity is. -/
theorem Reading.plain_write {layout : Layout} (h : Plain layout.infinity.toList) (f : Format)
    (x : Reading) : Plain (x.write f layout).toList := by
  have hsign : ∀ b : Bool, Plain (if b then "-" else "").toList := by decide
  cases x with
  | nan => exact (by decide : Plain "NaN".toList)
  | infinite negative =>
    simp only [Reading.write, String.toList_append, plain_append]
    exact ⟨hsign negative, h⟩
  | finite b =>
    simp only [Reading.write]
    split
    all_goals rw [String.toList_append, plain_append]
    · exact ⟨hsign _, by cases layout.keepsPoint <;> decide⟩
    · exact ⟨hsign _, Decimal.plain_write _ _⟩

end ActionVm
