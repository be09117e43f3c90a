import ActionVm.Host.Domain
import ActionVm.Host.File
import ActionVm.Host.SystemObject

/-!
# Calls of host functions

* `makeByteArray`, `compareAndSwap`: the functions that belong to no object;
* **`HostFunction.run`**: what a host function replies.
-/

namespace ActionVm.Host

/-- The longest byte array that scripts can make. -/
def longestByteArray : Nat := 0x40000000

/-- A byte array of zeros. -/
def makeByteArray (args : List Value) : Exec Value := do
  expect "ByteArray" (.between 0 1) args
  let b ← Exec.change (·.addBuffer (.zeros (min (wordArgument args 0).toNat longestByteArray)))
  freshObject (.byteArray b)

/-- The number in a slot of the active domain's memory, which is replaced if it is the expected
one. -/
def compareAndSwap (args : List Value) : Exec Value := do
  expect "casi32" (.exactly 3) args
  let d ← Exec.worker Worker.activeDomain
  let old ← Exec.compareAndSwap d (argument args 0).toUInt32.toNat (argument args 1).toInt32
    (argument args 2).toInt32
  return .integer old

end ActionVm.Host

namespace ActionVm

/-- What a host function replies. -/
def HostFunction.run (e : Embedding) (this : Value) (args : List Value) :
    HostFunction → Exec Reply
  | file m => return .value (← Host.File.call m args)
  | domain m => Host.Domain.call m this args
  | system m => return .value (← Host.SystemObject.call m args)
  | domainClass proto => return .value (← Host.Domain.make proto args)
  | byteArrayClass => return .value (← Host.makeByteArray args)
  | compareAndSwap => return .value (← Host.compareAndSwap args)
  | embedded name => e.call name this args

end ActionVm
