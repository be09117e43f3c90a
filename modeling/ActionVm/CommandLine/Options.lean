import ActionVm.Decimal.Reading

/-!
# Options of the command line

* `Level`: the program and its commands, each of which reads words of its own;
* `Opt`: the options, with their spellings, the values they take and the levels that know them;
* `Level.long?`, `Level.short?`: the option of a spelling.
-/

namespace ActionVm.CommandLine

/-- What reads the words of a command line: the program up to the name of a command, and then the
command. -/
inductive Level where
  | program
  | run
  | listing
  deriving DecidableEq, Repr

/-- An option. -/
inductive Opt where
  | verbose
  | config
  | help
  | version
  /-- The file starts with the sprite of init actions. -/
  | init
  | json
  | allowRead
  | allowWrite
  | allowAll
  | swfVersion
  | maxCallDepth
  | jit
  deriving DecidableEq, Repr

/-- How many values an option takes. -/
inductive Takes where
  | nothing
  | one
  /-- Any number of values, and any number of times. -/
  | any
  deriving DecidableEq, Repr

/-- The unsigned byte of a text: digits after an optional sign. -/
def byte? (s : String) : Option UInt8 :=
  let (minus, digits) := Text.splitSign s.toList
  if digits.isEmpty || !digits.all Char.isDigit then none
  else
    let n := Text.digitsValue digits
    if 255 < n || (minus && n ≠ 0) then none else some (.ofNat n)

namespace Opt

/-- The spelling of an option after two hyphens. -/
def long : Opt → String
  | verbose => "verbose"
  | config => "config"
  | help => "help"
  | version => "version"
  | init => "init"
  | json => "json"
  | allowRead => "allow-read"
  | allowWrite => "allow-write"
  | allowAll => "allow-all"
  | swfVersion => "swf-version"
  | maxCallDepth => "max-call-depth"
  | jit => "jit"

/-- The letter of an option after one hyphen. -/
def short? : Opt → Option Char
  | verbose => some 'v'
  | help => some 'h'
  | version => some 'V'
  | allowAll => some 'A'
  | _ => none

/-- How many values an option takes. -/
def takes : Opt → Takes
  | config | swfVersion | maxCallDepth => .one
  | allowRead | allowWrite => .any
  | _ => .nothing

/-- The text is a value of the option. -/
def accepts : Opt → String → Bool
  | config, s => !s.isEmpty
  | swfVersion, s => (byte? s).isSome
  | maxCallDepth, s => (Text.index? s).isSome
  | _, _ => true

end Opt

namespace Level

/-- The options that a level knows. -/
def options : Level → List Opt
  | program => [.verbose, .config, .help, .version]
  | run => [.init, .verbose, .allowRead, .config, .allowWrite, .allowAll, .swfVersion,
      .maxCallDepth, .jit, .help]
  | listing => [.init, .verbose, .config, .json, .help]

/-- The option of a spelling after two hyphens. -/
def long? (l : Level) (name : String) : Option Opt := l.options.find? (·.long = name)

/-- The option of a letter after one hyphen. -/
def short? (l : Level) (letter : Char) : Option Opt := l.options.find? (·.short? = some letter)

/-- The name of a command. -/
def ofName? : String → Option Level
  | "run" => some run
  | "disasm" => some listing
  | _ => none

end Level

end ActionVm.CommandLine
