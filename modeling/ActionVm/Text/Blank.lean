import ActionVm.Text.Unicode

/-!
# Blanks

* `isBlank`: characters of the property White_Space;
* `trimChars`: a text without the blanks at its ends.
-/

namespace ActionVm.Text

/-- The character has the property White_Space. -/
def isBlank (c : Char) : Bool := Unicode.within Unicode.whiteSpace c

/-- A list of characters without the blanks at its ends. -/
def trimChars (cs : List Char) : List Char :=
  ((cs.dropWhile isBlank).reverse.dropWhile isBlank).reverse

end ActionVm.Text
