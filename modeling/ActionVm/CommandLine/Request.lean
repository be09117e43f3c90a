import ActionVm.CommandLine.Help
import ActionVm.Worker

/-!
# Requests

What the words of a command line ask for.

* `Stop`: why a command line asks for nothing to be done;
* `Given`, `Given.take`, `Given.operand`: the options and operands of a level;
* `Level.read`: the words of a level;
* `Request`, **`Request.ofWords`**: the request of a command line.
-/

namespace ActionVm.CommandLine

/-- Why a command line asks for nothing to be done. -/
inductive Stop where
  /-- The words make no sense. -/
  | misuse
  /-- They ask for a text to be shown. -/
  | text (s : String)
  deriving DecidableEq, Repr

/-- What the words of a level have given so far, latest first. -/
structure Given where
  options : List (Opt × List String)
  operands : List String

namespace Given

/-- No words. -/
def empty : Given := ⟨[], []⟩

/-- The option has been given. -/
def has (g : Given) (o : Opt) : Bool := g.options.any (·.1 = o)

/-- The value of an option that takes one. -/
def value? (g : Given) (o : Opt) : Option String := (g.options.lookup o).bind List.head?

/-- The values of an option that takes any number, in order, if it has been given. -/
def values? (g : Given) (o : Opt) : Option (List String) :=
  if g.has o then some ((g.options.reverse.filter (·.1 = o)).flatMap (·.2)) else none

/-- One more option with values that stand in its own word. Only one that takes any number of
values may be given twice. -/
def take (level : Level) (long : Bool) (g : Given) (o : Opt) (values : List String) :
    Except Stop Given :=
  if o = .help then throw (.text (if long then helpPage level else shortHelpPage level))
  else if o = .version then throw (.text versionText)
  else if (o.takes ≠ .any && g.has o) || !values.all o.accepts then throw .misuse
  else return { g with options := (o, values) :: g.options }

/-- One more value for the latest option. -/
def addValue (g : Given) (value : String) : Except Stop Given :=
  match g.options with
  | (o, values) :: rest =>
    if o.accepts value then return { g with options := (o, values ++ [value]) :: rest }
    else throw .misuse
  | [] => throw .misuse

/-- One more operand. The first one is a file, which has a name; only a run has others. -/
def operand (level : Level) (g : Given) (word : String) : Except Stop Given :=
  match level, g.operands with
  | .program, _ => throw .misuse
  | .listing, _ :: _ => throw .misuse
  | _, operands =>
    if operands.isEmpty && word.isEmpty then throw .misuse
    else return { g with operands := word :: operands }

end Given

/-- What the next word of a level may be. -/
inductive Expecting where
  /-- Anything. -/
  | word
  /-- A value of an option, which has to come if it is `needed`. -/
  | value (needed : Bool)
  /-- An operand, however it is spelled. -/
  | operand
  deriving DecidableEq, Repr

namespace Expecting

/-- What comes after an option that has been given with as many values. -/
def after (o : Opt) (values : List String) : Expecting :=
  match o.takes, values with
  | .one, [] => value true
  | .any, [] => value false
  | _, _ => word

/-- A level may end here, or go on with another option. -/
def mayEnd : Expecting → Bool
  | value needed => !needed
  | _ => true

end Expecting

namespace Level

/-- A word that looks like an option may be an operand instead: a run has its file already. -/
def allowsHyphens (level : Level) (g : Given) : Bool := level = .run && !g.operands.isEmpty

/-- What a level has been given after the letters of a word, each an option without values. -/
def readLetters (level : Level) (g : Given) : List Char → Except Stop Given
  | [] => return g
  | c :: rest =>
    match level.short? c with
    | none => throw .misuse
    | some o => do readLetters level (← g.take level false o []) rest

/-- What a level has been given after a word that is a value or an operand, and what comes then. -/
def readPlain (level : Level) (g : Given) (expecting : Expecting) (word : String) :
    Except Stop (Given × Expecting) := do
  match expecting with
  | .value needed => return (← g.addValue word, if needed then .word else .value false)
  | _ =>
    let next := if g.operands.isEmpty then Expecting.word else .operand
    return (← g.operand level word, if expecting = .operand then .operand else next)

/-- The option of a word that begins with two hyphens, and the values in the word. -/
def longOption? (level : Level) (word : List Char) : Option (Opt × List String) :=
  let name := word.takeWhile (· ≠ '=')
  (level.long? (.ofList name)).map fun o =>
    (o, match word.dropWhile (· ≠ '=') with
      | [] => []
      | _ :: value => [.ofList value])

/-- What a level has been given after one more word, and what comes then. -/
def readWord (level : Level) (g : Given) (expecting : Expecting) (word : String) :
    Except Stop (Given × Expecting) := do
  if expecting = .operand then return ← level.readPlain g expecting word
  match word.toList with
  | ['-', '-'] =>
    if !expecting.mayEnd then throw .misuse
    return (g, .operand)
  | '-' :: '-' :: name =>
    match level.longOption? name with
    | some (o, values) =>
      if !expecting.mayEnd || (o.takes = .nothing && values ≠ []) then throw .misuse
      return (← g.take level true o values, .after o values)
    | none =>
      if level.allowsHyphens g then level.readPlain g expecting word else throw .misuse
  | '-' :: letter :: letters =>
    let letters := letter :: letters
    if level.allowsHyphens g && letters.any fun c => (level.short? c).isNone then
      level.readPlain g expecting word
    else
      if !expecting.mayEnd then throw .misuse
      return (← level.readLetters g letters, .word)
  | _ => level.readPlain g expecting word

/-- The name of a command or of the help: on the program's own level a word may be one. -/
def isCommand (level : Level) (expecting : Expecting) (word : String) : Bool :=
  level = .program && expecting = .word && (word = "help" || (ofName? word).isSome)

/-- What a level is given by words up to the name of a command, and what follows from there on. -/
def read (level : Level) (g : Given) (expecting : Expecting) :
    List String → Except Stop (Given × List String)
  | [] => if expecting.mayEnd then return (g, []) else throw .misuse
  | word :: rest =>
    if level.isCommand expecting word then return (g, word :: rest)
    else do
      let (g, expecting) ← level.readWord g expecting word
      level.read g expecting rest

end Level

/-- How a file is run. -/
structure RunOptions where
  /-- The file holds init actions. -/
  init : Bool
  engine : EngineConfig
  /-- Scripts may read and write everything. -/
  allowAll : Bool
  /-- The roots that scripts may read, none for all, if the command line says so. -/
  readable : Option (List String)
  /-- The roots that scripts may write. -/
  writable : Option (List String)
  arguments : List String

/-- What is asked of the program. -/
inductive Task where
  /-- A file is run. -/
  | run (file : String) (options : RunOptions)
  /-- The actions of a file are listed. -/
  | list (file : String) (init json : Bool)

/-- What a command line asks for. -/
structure Request where
  task : Task
  /-- The configuration file, if it is named. -/
  config : Option String

namespace Request

/-- The help that is shown for the names of commands. -/
def help : List String → Stop
  | [] => .text (helpPage .program)
  | ["help"] => .text helpOfHelp
  | [name] => ((Level.ofName? name).map fun level => Stop.text (helpPage level)).getD .misuse
  | _ => .misuse

/-- How scripts are run, given the words of a command. -/
def engineOf (g : Given) : EngineConfig where
  swfVersion := (g.value? .swfVersion >>= byte?).getD EngineConfig.default.swfVersion
  maxCallDepth := (g.value? .maxCallDepth >>= Text.index?).getD EngineConfig.default.maxCallDepth
  jit := g.has .jit

/-- The task of a command, given its words. -/
def taskOf (level : Level) (g : Given) : Except Stop Task :=
  match level, g.operands.reverse with
  | .run, file :: arguments =>
    return .run file ⟨g.has .init, engineOf g, g.has .allowAll, g.values? .allowRead,
      g.values? .allowWrite, arguments⟩
  | .listing, file :: _ => return .list file (g.has .init) (g.has .json)
  | _, _ => throw .misuse

/-- The request of a command line. An option that both levels know counts for the command. -/
def ofWords (words : List String) : Except Stop Request := do
  match ← Level.program.read .empty .word words with
  | (_, []) => throw .misuse
  | (_, "help" :: names) => throw (help names)
  | (outer, name :: rest) =>
    let some level := Level.ofName? name | throw .misuse
    let (g, _) ← level.read .empty .word rest
    return ⟨← taskOf level g, g.value? .config <|> outer.value? .config⟩

end Request

end ActionVm.CommandLine
