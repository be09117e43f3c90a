import ActionVm.Host.Arguments

/-!
# Domains for scripts

The methods of script objects for domains, and the class that makes them.

* `Domain.name`: the name of a method;
* `Domain.loadPath`: the bytes of a file, run in a domain;
* **`Domain.call`**: what a method answers;
* **`Domain.make`**: what the class makes.
-/

namespace ActionVm.Host.Domain

/-- The name of a method. -/
def name : DomainMethod → String
  | .load => "load"
  | .loadBytes => "loadBytes"
  | .getClass => "getClass"

/-- All methods in the order of their definition. -/
def all : List DomainMethod := [.load, .loadBytes, .getClass]

/-- The bytes of a file are run in a domain. -/
def loadPath (d : DomainId) (path : String) (version : UInt32) : Exec Reply := do
  let files ← Exec.worker Worker.files
  let bytes ← Exec.ofExcept (files.existing path (files.readBytes path))
  return .load d bytes version

/-- What a method of a domain answers. -/
def call (m : DomainMethod) (this : Value) (args : List Value) : Exec Reply := do
  match m with
  | .load =>
    Host.expect (name m) (.between 1 2) args
    let d ← thisDomain this
    loadPath d (← textArgument args 0) (wordArgument args 1)
  | .loadBytes =>
    Host.expect (name m) (.between 1 2) args
    let b ← bufferArgument (name m) args 0
    let bytes ← Exec.ask fun s => (s.buffer b).toList
    return .load (← thisDomain this) bytes (wordArgument args 1)
  | .getClass =>
    Host.expect (name m) (.exactly 1) args
    let d ← thisDomain this
    return .classOf d (← textArgument args 0)

/-- An object for the active domain, or for a new one inside the domain that is given. -/
def make (proto : ObjectId) (args : List Value) : Exec Value := do
  Host.expect "Domain" (.between 0 1) args
  let d ← match ← optionalDomain "Domain" 0 (argument args 0) with
    | none => Exec.worker Worker.activeDomain
    | some parent => Exec.change (·.addDomain (some parent))
  freshObject (.domain d (some proto))

end ActionVm.Host.Domain
