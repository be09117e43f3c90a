import ActionVm.Members

/-!
# Arguments of host functions

* `expect`: a function takes as many arguments as it is given;
* `argument`, `textArgument`, `wordArgument`, `bufferArgument`: single arguments.
-/

namespace ActionVm.Host

/-- A function takes as many arguments as it is given. -/
def expect (function : String) (arity : Arity) (args : List Value) : Exec Unit :=
  if arity.admits args.length then return ()
  else throw (.argumentCount function arity args.length)

/-- An argument, undefined where it is missing. -/
def argument (args : List Value) (i : Nat) : Value := args.getD i .undefined

/-- An argument as a text. -/
def textArgument (args : List Value) (i : Nat) : Exec String := Exec.text (argument args i)

/-- An argument as a 32-bit word, zero where it is undefined. -/
def wordArgument (args : List Value) (i : Nat) : UInt32 :=
  match argument args i with
  | .undefined => 0
  | v => v.toUInt32

/-- An argument that has to be a byte array. -/
def bufferArgument (function : String) (args : List Value) (i : Nat) : Exec BufferId := do
  match ← optionalBuffer function i (argument args i) with
  | some b => return b
  | none => throw (.wrongArgument function i "ByteArray" .null)

end ActionVm.Host
