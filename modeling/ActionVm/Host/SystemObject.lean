import ActionVm.Host.Arguments

/-!
# The system for scripts

The methods of the script object for the system.

* `canonicalize`: a value as the number it stands for;
* **`SystemObject.call`**: what a method answers.
-/

namespace ActionVm.Host.SystemObject

/-- A value as the number it stands for. Texts and most objects stand for themselves. -/
def canonicalize (s : Store) (v : Value) : Value :=
  match v with
  | .undefined | .null | .boolean _ | .integer _ | .number _ => .number v.toNumber
  | .object o =>
    if (s.object o).className = "QName" || (s.object o).className = "Namespace" then
      .number Value.notANumber
    else v
  | .string _ => v

/-- The texts of values with blanks between them. -/
def line (values : List Value) : Exec String := do
  return " ".intercalate (← values.mapM Exec.text)

/-- What a method answers. -/
def call (m : SystemMethod) (args : List Value) : Exec Value := do
  match m with
  | .getFeatures => return .string ""
  | .getRunmode => return .string (← Exec.worker (·.config.runMode))
  | .idle => return .undefined
  | .getVersion => return .string "0"
  | .isDebugger => return .boolean (← Exec.worker (·.settings.debugger))
  | .isGlobal => return .boolean false
  | .exec =>
    Host.expect "exec" (.atLeast 1) args
    return .undefined
  | .sleep =>
    Host.expect "sleep" (.exactly 1) args
    let time := (wordArgument args 0).toNat
    Exec.setWorker fun w => { w with clock := fun n => w.clock n + time }
    return .undefined
  | .trace =>
    Exec.tell (.trace (← line args))
    return .undefined
  | .canonicalizeNumber =>
    Host.expect "canonicalizeNumber" (.exactly 1) args
    Exec.ask (canonicalize · (argument args 0))

end ActionVm.Host.SystemObject
