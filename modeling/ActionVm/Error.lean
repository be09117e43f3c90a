import ActionVm.Reader
import ActionVm.Value

/-!
# Errors

What can go wrong in a script, by cause.

* `ErrorKind`: the kinds of errors, with `ErrorKind.number?` and the words that open their texts;
* `Arity`: the numbers of arguments that a function takes;
* `ScriptError`, `ScriptError.kind`: an error and its kind;
* **`ScriptError.message`**: what is said of an error.
-/

namespace ActionVm

/-- The kinds of errors. -/
inductive ErrorKind where
  | decode
  | typeError
  | nullReference
  | referenceError
  | rangeError
  | fileOpen
  | io
  | argumentCount
  | permissionDenied
  | invalidJump
  | stackOverflow
  | thrown
  | internal
  deriving DecidableEq, Repr

namespace ErrorKind

/-- The number by which an error is known. Not all kinds have one. -/
def number? : ErrorKind → Option Nat
  | fileOpen => some 1500
  | rangeError => some 2030
  | argumentCount => some 1063
  | referenceError => some 1065
  | nullReference => some 1009
  | typeError => some 1006
  | stackOverflow => some 1023
  | permissionDenied => some 2148
  | decode | io | invalidJump | thrown | internal => none

/-- The words that open the text of an error. -/
def opening : ErrorKind → String
  | decode => "Decode error: "
  | typeError => "TypeError: "
  | nullReference => "TypeError: Cannot access a property or method of a null object reference: "
  | referenceError => "ReferenceError: "
  | rangeError => "RangeError: "
  | fileOpen => "IOError: File not found: "
  | io => "IOError: "
  | argumentCount => "ArgumentError: "
  | permissionDenied => "SecurityError: "
  | invalidJump => "Invalid jump target "
  | stackOverflow => "StackOverflowError: "
  | thrown => "Uncaught exception: "
  | internal => "InternalError: "

end ErrorKind

/-- The numbers of arguments that a function takes: at least `least`, and at most `most` if there is
such a bound. -/
structure Arity where
  least : Nat
  most : Option Nat
  deriving DecidableEq, Repr

namespace Arity

/-- Exactly `n` arguments. -/
def exactly (n : Nat) : Arity := ⟨n, some n⟩

/-- Between `least` and `most` arguments. -/
def between (least most : Nat) : Arity := ⟨least, some most⟩

/-- At least `n` arguments. -/
def atLeast (n : Nat) : Arity := ⟨n, none⟩

/-- The number is one of those. -/
def admits (a : Arity) (n : Nat) : Bool := a.least ≤ n && a.most.all (n ≤ ·)

/-- The numbers in words. -/
def word (a : Arity) : String :=
  match a.most with
  | none => ">" ++ toString (a.least - 1)
  | some most => if a.least = most then toString most else s!"{a.least}-{most}"

end Arity

/-- What files are opened for. -/
inductive Access where
  | read
  | write
  deriving DecidableEq, Repr

/-- The word for what a file is opened for. -/
def Access.word : Access → String
  | read => "read"
  | write => "write"

/-- What goes wrong in a script. -/
inductive ScriptError where
  /-- Loaded bytes are no actions. -/
  | decode (cause : DecodeError)
  /-- A value of this kind is called. -/
  | notCallable (kind : Kind)
  /-- A method of domains is called on a value of this kind. -/
  | notADomain (kind : Kind)
  /-- An argument is not an object of the class that the function expects. -/
  | wrongArgument (function : String) (index : Nat) (expected : String) (actual : Kind)
  | argumentCount (function : String) (expected : Arity) (actual : Nat)
  /-- No class and no global variable has the name. -/
  | undefinedVariable (name : String)
  /-- The address is none of an aligned slot in a buffer of this length. -/
  | noSlot (address length : Nat)
  /-- A buffer of this length is too short for the memory of a domain. -/
  | shortMemory (length : Nat)
  | fileNotFound (path : String)
  /-- The system refuses to open a file, or its bytes are no text. -/
  | fileTrouble (path text : String)
  /-- No grant covers the file. -/
  | permissionDenied (access : Access) (path : String)
  /-- A branch leads to an offset where no record starts. -/
  | invalidJump (target : Int)
  /-- Calls are nested too deep. -/
  | stackOverflow
  /-- A script throws a value. -/
  | thrown (v : Value)
  /-- A function of the embedding program fails. -/
  | raised (kind : ErrorKind) (text : String)

namespace ScriptError

/-- The kind of an error. -/
def kind : ScriptError → ErrorKind
  | decode _ => .decode
  | notCallable _ | notADomain _ | wrongArgument .. => .typeError
  | argumentCount .. => .argumentCount
  | undefinedVariable _ => .referenceError
  | noSlot .. | shortMemory _ => .rangeError
  | fileNotFound _ => .fileOpen
  | fileTrouble .. => .io
  | permissionDenied .. => .permissionDenied
  | invalidJump _ => .invalidJump
  | stackOverflow => .stackOverflow
  | thrown _ => .thrown
  | raised kind _ => kind

/-- The least number of bytes that the memory of a domain has. -/
def leastMemory : Nat := 1024

/-- What is said of a refused access. -/
def deniedText (access : Access) (path : String) : String :=
  s!"PermissionDenied: {access.word} access to '{path}'. " ++
    s!"Use --allow-{access.word} to grant file system {access.word} access"

/-- What is said of an error after the words that open it. -/
def detail (text : Value → String) : ScriptError → String
  | decode cause => cause.message
  | notCallable kind => s!"{kind.word} is not a function"
  | notADomain kind => s!"{kind.word} is not a Domain"
  | wrongArgument function index expected actual =>
    s!"argument {index} of {function} must be a {expected}, got {actual.word}"
  | argumentCount function expected actual =>
    s!"{function} expects {expected.word} argument(s), got {actual}"
  | undefinedVariable name => s!"Variable {name} is not defined"
  | noSlot address length =>
    s!"address {address} is not an aligned 32-bit slot in a {length}-byte buffer"
  | shortMemory length => s!"domain memory must be at least {leastMemory} bytes, got {length}"
  | fileNotFound path => path
  | fileTrouble path text => s!"{path}: {text}"
  | permissionDenied access path => deniedText access path
  | invalidJump target => toString target
  | stackOverflow => "maximum call depth exceeded"
  | thrown v => text v
  | raised _ text => text

/-- What is said of an error, given the text of values. -/
def message (text : Value → String) (e : ScriptError) : String := e.kind.opening ++ e.detail text

end ScriptError

end ActionVm
