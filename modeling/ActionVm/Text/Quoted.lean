import ActionVm.Text.Hexadecimal
import ActionVm.Text.Unicode

/-!
# Quoted text

The form in which listings show a text: between double quotes, on one line, with every character
that does not show as itself written by its code point.

* `escape`: one character of a quoted text;
* `quote`: a quoted text.
-/

namespace ActionVm.Text

/-- The character extends the one before it, other than as a letter of its own. -/
def isExtending (c : Char) : Bool :=
  Unicode.within Unicode.graphemeExtend c && !Unicode.within Unicode.halfwidthMark c

/-- The character is not seen. -/
def isUnseen (c : Char) : Bool :=
  Unicode.within Unicode.unprintable c || Unicode.within Unicode.filler c

/-- The character shows as itself: it is seen and does not extend the one before it. -/
def showsAsItself (c : Char) : Bool :=
  if c.toNat < 0x7F then 0x20 ≤ c.toNat else !isExtending c && !isUnseen c

/-- One character of a quoted text. -/
def escape (c : Char) : String :=
  if c = '\x00' then "\\0"
  else if c = '\t' then "\\t"
  else if c = '\r' then "\\r"
  else if c = '\n' then "\\n"
  else if c = '"' then "\\\""
  else if c = '\\' then "\\\\"
  else if showsAsItself c then c.toString
  else "\\u\x7b" ++ hexDigits c.toNat ++ "\x7d"

/-- A text between double quotes. -/
def quote (s : String) : String := "\"" ++ String.join (s.toList.map escape) ++ "\""

end ActionVm.Text
