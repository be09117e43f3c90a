import ActionVm.Text.Hexadecimal
import ActionVm.Toml.Scan

/-!
# Texts in TOML

Texts between quotes.

* `escape?`: the character that a letter after a backslash stands for;
* `basicRest`: the characters of a text in double quotes, in which backslashes escape;
* `literalRest`: the characters of a text in single quotes, which all stand for themselves;
* `Scan.text?`: a text between quotes of either kind, on one line or on several.
-/

namespace ActionVm.Toml

/-- The character that one after a backslash stands for. -/
def escape? : Char → Option Char
  | 'b' => some '\x08'
  | 't' => some '\t'
  | 'n' => some '\n'
  | 'f' => some '\x0c'
  | 'r' => some '\r'
  | 'e' => some '\x1b'
  | '"' => some '"'
  | '\\' => some '\\'
  | _ => none

/-- The number of digits of a character code after the letter that announces it. -/
def codeDigits? : Char → Option Nat
  | 'x' => some 2
  | 'u' => some 4
  | 'U' => some 8
  | _ => none

/-- The character of a code, if it is one. -/
def character? (n : Nat) : Option Char := if n.isValidChar then some (.ofNat n) else none

/-- Where the reading of a text in double quotes stands. -/
inductive Place where
  /-- Among its characters. Blanks and line ends do not count after an escaped line end. -/
  | plain (trimming : Bool)
  /-- After a backslash. -/
  | escaped
  /-- After a backslash and blanks, which a line end has to follow. -/
  | lineEnd
  /-- In a character code that lacks some digits. -/
  | code (missing : Nat) (value : Nat)

/-- A text with one more character in front. -/
def follow (c : Char) (text : Option (List Char × List Char)) : Option (List Char × List Char) :=
  text.map fun (cs, rest) => (c :: cs, rest)

/-- The characters of a text in double quotes and what follows it. The text goes over several
lines if `many` is set; three quotes end it then, and before these may stand two more. -/
def basicRest (many : Bool) : Place → List Char → Option (List Char × List Char)
  | _, [] => none
  | .plain trimming, c :: rest =>
    if c = '"' then
      if !many then some ([], rest)
      else match rest with
        | '"' :: '"' :: '"' :: '"' :: rest => some (['"', '"'], rest)
        | '"' :: '"' :: '"' :: rest => some (['"'], rest)
        | '"' :: '"' :: rest => some ([], rest)
        | _ => follow '"' (basicRest many (.plain false) rest)
    else if c = '\\' then basicRest many .escaped rest
    else if c = '\n' then
      if !many then none
      else if trimming then basicRest many (.plain true) rest
      else follow '\n' (basicRest many (.plain false) rest)
    else if c = '\r' then
      if !many || rest.head? ≠ some '\n' then none
      else if trimming then basicRest many (.plain true) rest
      else follow '\r' (basicRest many (.plain false) rest)
    else if trimming && isBlank c then basicRest many (.plain true) rest
    else if isPlain c then follow c (basicRest many (.plain false) rest)
    else none
  | .escaped, c :: rest =>
    match escape? c, codeDigits? c with
    | some e, _ => follow e (basicRest many (.plain false) rest)
    | none, some digits => basicRest many (.code digits 0) rest
    | none, none =>
      if !many then none
      else if c = '\n' then basicRest many (.plain true) rest
      else if isBlank c || (c = '\r' && rest.head? = some '\n') then basicRest many .lineEnd rest
      else none
  | .lineEnd, c :: rest =>
    if c = '\n' then basicRest many (.plain true) rest
    else if isBlank c || (c = '\r' && rest.head? = some '\n') then basicRest many .lineEnd rest
    else none
  | .code missing value, c :: rest =>
    match Text.hexValue? c with
    | none => none
    | some digit =>
      let value := value * 16 + digit
      if missing ≤ 1 then
        match character? value with
        | none => none
        | some e => follow e (basicRest many (.plain false) rest)
      else basicRest many (.code (missing - 1) value) rest

/-- The characters of a text in single quotes and what follows it, as in `basicRest`. -/
def literalRest (many : Bool) : List Char → Option (List Char × List Char)
  | [] => none
  | c :: rest =>
    if c = '\'' then
      if !many then some ([], rest)
      else match rest with
        | '\'' :: '\'' :: '\'' :: '\'' :: rest => some (['\'', '\''], rest)
        | '\'' :: '\'' :: '\'' :: rest => some (['\''], rest)
        | '\'' :: '\'' :: rest => some ([], rest)
        | _ => follow '\'' (literalRest many rest)
    else if isPlain c || (many && (c = '\n' || (c = '\r' && rest.head? = some '\n'))) then
      follow c (literalRest many rest)
    else none

/-- A text of several lines without the line end right after its opening quotes. -/
def dropFirstLineEnd : List Char → List Char
  | '\n' :: rest | '\r' :: '\n' :: rest => rest
  | cs => cs

namespace Scan

/-- A text on one line, if a quote comes next. -/
def lineText? : Scan (Option String) := do
  match ← get with
  | '"' :: rest =>
    let (cs, rest) ← StateT.lift (basicRest false (.plain false) rest)
    set rest
    return some (.ofList cs)
  | '\'' :: rest =>
    let (cs, rest) ← StateT.lift (literalRest false rest)
    set rest
    return some (.ofList cs)
  | _ => return none

/-- A text, if a quote comes next. Three quotes open one of several lines. -/
def text? : Scan (Option String) := do
  match ← get with
  | '"' :: '"' :: '"' :: rest =>
    let (cs, rest) ← StateT.lift (basicRest true (.plain false) (dropFirstLineEnd rest))
    set rest
    return some (.ofList cs)
  | '\'' :: '\'' :: '\'' :: rest =>
    let (cs, rest) ← StateT.lift (literalRest true (dropFirstLineEnd rest))
    set rest
    return some (.ofList cs)
  | _ => lineText?

end Scan

end ActionVm.Toml
