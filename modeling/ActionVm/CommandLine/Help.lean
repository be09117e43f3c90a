import ActionVm.CommandLine.Options

/-!
# Help pages

* `versionText`: the name and the version of the program;
* `helpPage`, `shortHelpPage`, `helpOfHelp`: what the program says about itself and its commands.
-/

namespace ActionVm.CommandLine

/-- Lines, each with its end. -/
def lines (l : List String) : String := String.join (l.map (· ++ "\n"))

/-- The name and the version of the program. -/
def versionText : String := "lark 0.1.0\n"

/-- The commands of the program. -/
def commandLines : List String :=
  ["Usage: lark [OPTIONS] <COMMAND>",
   "",
   "Commands:",
   "  run     Execute an action stream with the avmplus surface installed",
   "  disasm  Print the decoded records of an action stream",
   "  help    Print this message or the help of the given subcommand(s)",
   ""]

/-- The page on the program. -/
def programPage : List String :=
  ["Lark executes raw DoAction / DoInitAction tag bodies.",
   "",
   "Run a stream:     lark run frame1.bin",
   "Disassemble it:   lark disasm frame1.bin --json",
   ""] ++ commandLines ++
  ["Options:",
   "  -v, --verbose",
   "          Verbose output",
   "",
   "      --config <CONFIG>",
   "          Config file path",
   "",
   "  -h, --help",
   "          Print help (see a summary with '-h')",
   "",
   "  -V, --version",
   "          Print version"]

/-- The summary of the page on the program. -/
def programSummary : List String :=
  ["Run and inspect AVM1 action streams",
   ""] ++ commandLines ++
  ["Options:",
   "  -v, --verbose          Verbose output",
   "      --config <CONFIG>  Config file path",
   "  -h, --help             Print help (see more with '--help')",
   "  -V, --version          Print version"]

/-- The page on the command that runs an action stream. -/
def runPage : List String :=
  ["Execute an action stream with the avmplus surface installed",
   "",
   "Usage: lark run [OPTIONS] <FILE> [ARGS]...",
   "",
   "Arguments:",
   "  <FILE>     Raw tag body to execute",
   "  [ARGS]...  Arguments reported by System.argv",
   "",
   "Options:",
   "      --init",
   "          Treat the file as a DoInitAction body (sprite id prefix)",
   "      --allow-read [<PATH>...]",
   "          Allow file system read access (use without value for all paths)",
   "      --allow-write [<PATH>...]",
   "          Allow file system write access (use without value for all paths)",
   "  -v, --verbose",
   "          Verbose output",
   "  -A, --allow-all",
   "          Allow all permissions",
   "      --config <CONFIG>",
   "          Config file path",
   "      --swf-version <SWF_VERSION>",
   "          SWF version of the content [default: 10]",
   "      --max-call-depth <MAX_CALL_DEPTH>",
   "          Maximum nested call depth [default: 256]",
   "      --jit",
   "          Report \"jit\" from System.getRunmode",
   "  -h, --help",
   "          Print help"]

/-- The page on the command that lists an action stream. -/
def listingPage : List String :=
  ["Print the decoded records of an action stream",
   "",
   "Usage: lark disasm [OPTIONS] <FILE>",
   "",
   "Arguments:",
   "  <FILE>  Raw tag body to decode",
   "",
   "Options:",
   "      --init             Treat the file as a DoInitAction body (sprite id prefix)",
   "      --json             Emit the records as JSON",
   "  -v, --verbose          Verbose output",
   "      --config <CONFIG>  Config file path",
   "  -h, --help             Print help"]

/-- What is said of a level at length. -/
def helpPage : Level → String
  | .program => lines programPage
  | .run => lines runPage
  | .listing => lines listingPage

/-- What is said of a level in short. -/
def shortHelpPage : Level → String
  | .program => lines programSummary
  | level => helpPage level

/-- The page on the command that shows help pages. -/
def helpOfHelp : String :=
  lines ["Print this message or the help of the given subcommand(s)",
    "",
    "Usage: lark help [COMMAND]...",
    "",
    "Arguments:",
    "  [COMMAND]...  Print help for the subcommand(s)"]

end ActionVm.CommandLine
