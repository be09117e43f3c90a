import ActionVm.Decimal.Integer
import ActionVm.Decimal.Notation
import ActionVm.Decimal.Reading
import ActionVm.Text.Quoted

/-!
# Values

What scripts compute with. Objects are named by where they are stored.

* `ObjectId`, `BufferId`, `DomainId`: names of stored things;
* `Value`: script values;
* `Value.toNumber`, `Value.toBoolean`, `Value.toInt32`, `Value.toUInt32`, `Value.toInteger`:
  conversions;
* `Value.looseEq`, `Value.strictEq`, `Value.lessThan`: comparisons;
* `Kind`: the kinds that scripts tell values apart by.
-/

namespace ActionVm

/-- The name of a stored object. -/
structure ObjectId where
  index : Nat
  deriving DecidableEq, Repr

/-- The name of a stored byte buffer. -/
structure BufferId where
  index : Nat
  deriving DecidableEq, Repr

/-- The name of a stored domain. -/
structure DomainId where
  index : Nat
  deriving DecidableEq, Repr

/-- A script value. Integers are kept apart from other numbers, but compare like them. -/
inductive Value where
  | undefined
  | null
  | boolean (b : Bool)
  | integer (i : Int32)
  | number (x : Float)
  | string (s : String)
  | object (o : ObjectId)
  deriving Inhabited

/-- The kinds of values that scripts tell apart. -/
inductive Kind where
  | undefined
  | null
  | boolean
  | number
  | string
  | function
  | object
  deriving DecidableEq, Repr

/-- The word for a kind. -/
def Kind.word : Kind → String
  | undefined => "undefined"
  | null => "null"
  | boolean => "boolean"
  | number => "number"
  | string => "string"
  | function => "function"
  | object => "object"

namespace Value

/-- The value that is no number. -/
def notANumber : Float := 0 / 0

/-- The value is missing. -/
def isNullish : Value → Bool
  | undefined | null => true
  | _ => false

/-- The value is a number of either form. -/
def isNumber : Value → Bool
  | integer _ | number _ => true
  | _ => false

/-- The object of an object value. -/
def object? : Value → Option ObjectId
  | object o => some o
  | _ => none

/-- The object of an optional object as a value, undefined without one. -/
def ofObject? : Option ObjectId → Value
  | some o => object o
  | none => undefined

/-! ## Conversions -/

/-- The number that a value converts to. Objects are no numbers. -/
def toNumber : Value → Float
  | undefined => notANumber
  | null => 0
  | boolean b => if b then 1 else 0
  | integer i => Float.ofInt i.toInt
  | number x => x
  | string s => Text.number s
  | object _ => notANumber

/-- The truth value that a value converts to. -/
def toBoolean : Value → Bool
  | undefined | null => false
  | boolean b => b
  | integer i => i != 0
  | number x => x != 0 && !x.isNaN
  | string s => !s.isEmpty
  | object _ => true

/-- The integer part of a value modulo `2 ^ 32`, as a signed number. -/
def toInt32 : Value → Int32
  | integer i => i
  | v => ActionVm.toInt32 v.toNumber

/-- The integer part of a value modulo `2 ^ 32`. -/
def toUInt32 (v : Value) : UInt32 := v.toInt32.toUInt32

/-- The integer part of a value, zero for what is no number. -/
def toInteger (v : Value) : Float :=
  let x := v.toNumber
  if x.isNaN then 0 else truncate x

/-- The integer part of a value as a count. -/
def toCount (v : Value) : Nat := ActionVm.toCount v.toInteger

/-! ## Comparisons -/

/-- Equality after conversion. Missing values equal each other, an object equals itself, texts are
compared as texts, and all else as numbers. -/
def looseEq : Value → Value → Bool
  | undefined, undefined | undefined, null | null, undefined | null, null => true
  | undefined, _ | null, _ | _, undefined | _, null => false
  | object a, object b => a == b
  | object _, _ | _, object _ => false
  | string a, string b => a == b
  | a, b => a.toNumber == b.toNumber

/-- Equality without conversion, but for the two forms of numbers. -/
def strictEq : Value → Value → Bool
  | undefined, undefined | null, null => true
  | boolean a, boolean b => a == b
  | string a, string b => a == b
  | object a, object b => a == b
  | a, b => a.isNumber && b.isNumber && a.toNumber == b.toNumber

/-- The order of two values: texts by their characters, all else as numbers, and undefined where one
is no number. -/
def lessThan : Value → Value → Value
  | string a, string b => boolean (a < b)
  | a, b =>
    let x := a.toNumber
    let y := b.toNumber
    if x.isNaN || y.isNaN then undefined else boolean (x < y)

end Value

end ActionVm
