import ActionVm.Decimal.Reading
import Mathlib.Tactic.NormNum

/-!
# Numerals

The decimal numeral of a number names it as an index, and no other number.

* `toString_injective`, `isDigit_of_mem_toString`: numerals and their characters;
* **`index?_toString`**: the index that a numeral names.
-/

namespace ActionVm.Text

theorem digitsValue_eq (ds : List Char) : digitsValue ds = Nat.ofDigitChars 10 ds 0 := by
  simp only [digitsValue, Nat.ofDigitChars_eq_foldl, Nat.mul_comm]

theorem toList_toString (n : Nat) : (toString n).toList = Nat.toDigits 10 n := Nat.toList_repr

theorem toString_injective : Function.Injective (toString : Nat → String) := by
  intro m n h
  have hdigits : Nat.toDigits 10 m = Nat.toDigits 10 n := by
    rw [← toList_toString, ← toList_toString, h]
  rw [← Nat.ofDigitChars_ten_toDigits (n := m), hdigits, Nat.ofDigitChars_ten_toDigits]

theorem isDigit_of_mem_toString {n : Nat} {c : Char} (h : c ∈ (toString n).toList) :
    c.isDigit = true := by
  rw [toList_toString] at h
  exact Nat.isDigit_of_mem_toDigits (by decide) (by decide) h

/-- A text with a character that is no digit is no numeral. -/
theorem toString_ne {name : String} {c : Char} (hc : c ∈ name.toList) (hdigit : c.isDigit = false)
    (n : Nat) : toString n ≠ name := by
  rintro rfl
  rw [isDigit_of_mem_toString hc] at hdigit
  exact Bool.false_ne_true hdigit.symm

/-- **A numeral names its number**, as far as indices go. -/
theorem index?_toString {n : Nat} (h : n < 2 ^ 64) : index? (toString n) = some n := by
  have hall : (toString n).toList.all Char.isDigit = true :=
    List.all_eq_true.mpr fun c hc => isDigit_of_mem_toString hc
  have hempty : (toString n).toList.isEmpty = false := by
    rw [toList_toString, List.isEmpty_eq_false_iff]
    exact Nat.toDigits_ne_nil
  have hvalue : digitsValue (toString n).toList = n := by
    rw [digitsValue_eq, toList_toString, Nat.ofDigitChars_ten_toDigits]
  unfold index?
  split
  · next rest hplus =>
    -- a plus is no digit
    have hdigit := isDigit_of_mem_toString (n := n) (hplus ▸ List.mem_cons_self)
    exact absurd hdigit (by decide)
  · dsimp only
    rw [hempty, hall, hvalue, if_neg (by decide), if_pos (by omega)]

end ActionVm.Text
