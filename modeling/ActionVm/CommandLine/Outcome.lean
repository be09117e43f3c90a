import ActionVm.Block.Document
import ActionVm.Block.Listing
import ActionVm.CommandLine.Request
import ActionVm.Host.Configuration
import ActionVm.Host.Install
import ActionVm.Tag.Run

/-!
# Outcomes

What a command line comes to: it is a function of its words and of the files.

* `Failure`: what went wrong, and the text that reports it;
* `Outcome`: the exit code, the texts that are written, and the files afterwards;
* `configuration`: the configuration that a request starts with;
* `runFile`, `listFile`: the tasks;
* **`outcome?`**: what the words of a command line come to.
-/

namespace ActionVm.CommandLine

/-! ## Failures -/

/-- Something that went wrong: what is said of it, and what is said of its causes. -/
structure Failure where
  message : String
  causes : List String

namespace Failure

/-- The lines of a cause, with its number if there are several. All of its lines start in the same
column. -/
def causeLines (several : Bool) (n : Nat) (cause : String) : String :=
  let (head, margin) := if several then (s!"    {n}: ", "\n       ") else ("    ", "\n    ")
  "\n" ++ head ++ margin.intercalate (cause.splitOn "\n")

/-- The text that reports a failure. -/
def text (f : Failure) : String :=
  let several := 1 < f.causes.length
  let causes := f.causes.zipIdx.map fun (cause, n) => causeLines several n cause
  let causes := if causes.isEmpty then "" else "\n\nCaused by:" ++ String.join causes
  s!"Error: {f.message}{causes}\n"

/-- The failure to read a file. -/
def reading (file : String) (trouble : String) : Failure := ⟨s!"reading {file}", [trouble]⟩

/-- The failure to read a configuration. -/
def noConfiguration (file trouble : String) : Failure :=
  ⟨s!"loading config {file}", [s!"failed to read config {file}: {trouble}", trouble]⟩

/-- The failure to make sense of a configuration. -/
def badConfiguration (file source : String) : Host.ConfigurationTrouble → Failure
  | .malformed => ⟨s!"loading config {file}", ["invalid config"]⟩
  | .fault f =>
    let text := f.text source
    ⟨s!"loading config {file}", ["invalid config: " ++ text, text]⟩

/-- The failure of a script before it runs. -/
def ofDecoding (cause : DecodeError) : Failure :=
  let error := ScriptError.decode cause
  ⟨error.message fun _ => "", [cause.message]⟩

/-- The failure of a script that runs. -/
def ofScript (text : Value → String) (error : ScriptError) : Failure :=
  let message := error.message text
  match error.kind.number? with
  | some number => ⟨s!"Error #{number}: {message}", []⟩
  | none => ⟨message, []⟩

end Failure

/-! ## Tasks -/

/-- What a command line comes to. -/
structure Outcome where
  code : UInt8
  output : String
  report : String
  files : FileTree

namespace Outcome

/-- All went well. -/
def success (t : FileTree) (output : String) : Outcome := ⟨0, output, "", t⟩

/-- Something went wrong after some output. -/
def failed (t : FileTree) (output : String) (f : Failure) : Outcome := ⟨1, output, f.text, t⟩

end Outcome

/-- The configuration file of a working directory. -/
def configurationFile : String := "lark.toml"

/-- The configuration of a file. -/
def loadConfiguration (t : FileTree) (file : String) : Except Failure Host.Configuration := do
  let bytes ← (t.read file).mapError fun trouble => .noConfiguration file trouble.message
  match Utf8.check bytes with
  | .error _ => throw (.noConfiguration file notText)
  | .ok source =>
    (Host.Configuration.parse source).mapError (.badConfiguration file source)
where
  notText : String := "stream did not contain valid UTF-8"

/-- The configuration that a request starts with: that of the file it names, or of the file in the
working directory, if there is one. -/
def configuration (t : FileTree) (named : Option String) : Except Failure Host.Configuration :=
  match named with
  | some file => loadConfiguration t file
  | none =>
    if t.isFile configurationFile then loadConfiguration t configurationFile
    else return default

/-- What scripts may do. What the command line says of an access replaces what the configuration
says of it. -/
def grantsOf (c : Host.Configuration) (o : RunOptions) : Grants :=
  if o.allowAll then .all
  else
    let grant (said : Option (List String)) (otherwise : Grant) : Grant :=
      if said.isSome then Grant.ofRoots? said else otherwise
    ⟨grant o.readable c.grants.read, grant o.writable c.grants.write⟩

/-- What scripts are told of themselves. Arguments on the command line replace those of the
configuration. -/
def settingsOf (c : Host.Configuration) (o : RunOptions) : HostSettings :=
  if o.arguments.isEmpty then c.settings else { c.settings with arguments := o.arguments }

/-- What events show on the console: only traces do. -/
def traces (events : List Event) : String :=
  String.join (events.map fun
    | .trace text => text ++ "\n"
    | _ => "")

/-- What a run shows for its answer. -/
def shown (text : Value → String) : Value → String
  | .undefined => ""
  | v => text v ++ "\n"

/-- What the run of a file comes to, if it ends in time. -/
def runFile (steps : Nat) (t : FileTree) (c : Host.Configuration) (file : String) (o : RunOptions) :
    Option Outcome :=
  match t.read file with
  | .error trouble => some (.failed t "" (.reading file trouble.message))
  | .ok bytes =>
    let block := if o.init then (decodeInitActions bytes).map (·.actions) else decodeActions bytes
    match block with
    | .error cause => some (.failed t "" (.ofDecoding cause))
    | .ok block =>
      let s := Host.install (.tree t (grantsOf c o)) (settingsOf c o) (.start o.engine)
      (runTop .none steps s block).map fun (answer, s) =>
        let t := s.worker.files.tree?.getD t
        let output := traces s.worker.stage.events.reverse
        match answer with
        | .ok v => .success t (output ++ shown s.store.text v)
        | .error error => .failed t output (.ofScript s.store.text error)

/-- The listing of a block. -/
def blockText (json : Bool) (b : Block) : String :=
  if json then (blockDocument b).pretty ++ "\n" else listing b

/-- What the listing of a file comes to. -/
def listFile (t : FileTree) (file : String) (init json : Bool) : Outcome :=
  match t.read file with
  | .error trouble => .failed t "" (.reading file trouble.message)
  | .ok bytes =>
    let text := if init then
        (decodeInitActions bytes).map fun tag =>
          (if json then "" else s!"; sprite {tag.sprite}\n") ++ blockText json tag.actions
      else (decodeActions bytes).map (blockText json)
    match text with
    | .ok text => .success t text
    | .error cause => .failed t "" ⟨cause.message, []⟩

/-- What a request comes to, if its run ends in time. -/
def Request.outcome? (steps : Nat) (t : FileTree) (r : Request) : Option Outcome :=
  match configuration t r.config with
  | .error f => some (.failed t "" f)
  | .ok c =>
    match r.task with
    | .run file o => runFile steps t c file o
    | .list file init json => some (listFile t file init json)

/-- What is reported of words that make no sense. -/
def misuseText : String := "error: no such use of the command line; for more, try --help\n"

/-- What the words of a command line come to, if the run that they ask for ends in time. -/
def outcome? (steps : Nat) (t : FileTree) (words : List String) : Option Outcome :=
  match Request.ofWords words with
  | .error (.text s) => some (.success t s)
  | .error .misuse => some ⟨2, "", misuseText, t⟩
  | .ok r => r.outcome? steps t

end ActionVm.CommandLine
