import ActionVm.Action
import ActionVm.Table
import ActionVm.Value

/-!
# Objects

What an object consists of, apart from the things that other objects hold.

* `Scope`: the objects in which variables are looked up;
* `Closure`, `HostFunction`, `Callable`: what a function object runs;
* `Getter`, `Setter`, `Property`: the members of an object;
* `Payload`, `Object`: an object and what it stands for beside its members.
-/

namespace ActionVm

/-! ## Scopes -/

/-- The objects in which variables are looked up. The base is always there. -/
structure Scope where
  base : ObjectId
  /-- The scopes inside the base, innermost first. -/
  inner : List ObjectId
  deriving DecidableEq, Repr

namespace Scope

/-- The scope of one object. -/
def ofBase (base : ObjectId) : Scope := ⟨base, []⟩

/-- All objects of a scope, innermost first. -/
def toList (s : Scope) : List ObjectId := s.inner ++ [s.base]

/-- The number of objects of a scope. -/
def depth (s : Scope) : Nat := s.inner.length + 1

/-- The innermost object. -/
def innermost (s : Scope) : ObjectId := s.inner.headD s.base

/-- The scope with one more object inside. -/
def push (s : Scope) (o : ObjectId) : Scope := ⟨s.base, o :: s.inner⟩

/-- The scope without its innermost object. The base stays. -/
def pop (s : Scope) : Scope := ⟨s.base, s.inner.tail⟩

end Scope

/-! ## Functions -/

/-- How a script function receives its arguments. -/
inductive ClosureKind where
  /-- By name, in the function's own variables. -/
  | simple (params : List String)
  /-- In registers or by name, together with the values that the flags ask for. -/
  | registers (count : UInt8) (flags : PreloadFlags) (params : List RegisterParam)

/-- A script function with the scope and the constants in force where it was defined. -/
structure Closure where
  name : Option String
  kind : ClosureKind
  body : Block
  scope : Scope
  constants : Array String

/-- Methods of the script object for files. -/
inductive FileMethod where
  | fileExists
  | read
  | write
  | readByteArray
  | writeByteArray
  deriving DecidableEq, Repr

/-- Methods of script objects for domains. -/
inductive DomainMethod where
  | load
  | loadBytes
  | getClass
  deriving DecidableEq, Repr

/-- Methods of the script object for the system. -/
inductive SystemMethod where
  | getFeatures
  | getRunmode
  /-- Methods that do nothing and have no result. -/
  | idle
  | getVersion
  | isDebugger
  | isGlobal
  | exec
  | sleep
  | trace
  | canonicalizeNumber
  deriving DecidableEq, Repr

/-- Functions that the host gives to scripts. -/
inductive HostFunction where
  | file (m : FileMethod)
  | domain (m : DomainMethod)
  | system (m : SystemMethod)
  /-- Makes objects for domains, with the given prototype. -/
  | domainClass (proto : ObjectId)
  | byteArrayClass
  | compareAndSwap
  /-- A function of the embedding program. -/
  | embedded (name : String)
  deriving DecidableEq, Repr

/-- What a function object runs. -/
inductive Callable where
  | closure (c : Closure)
  | host (f : HostFunction)

/-! ## Members -/

/-- What computes the value of a member. -/
inductive Getter where
  | domainMemory
  /-- The active domain, as an object with the given prototype. -/
  | currentDomain (proto : ObjectId)
  | minimumMemory
  | memoryUse
  | swfVersion
  | arguments
  /-- A getter of the embedding program. -/
  | embedded (name : String)
  deriving DecidableEq, Repr

/-- What receives the values that are assigned to a member. -/
inductive Setter where
  | domainMemory
  /-- A setter of the embedding program. -/
  | embedded (name : String)
  deriving DecidableEq, Repr

/-- A member of an object. -/
inductive Property where
  | data (v : Value)
  | accessor (get : Option Getter) (set : Option Setter)

instance : Inhabited Property := ⟨.data .undefined⟩

/-- The value of a data member. -/
def Property.value? : Property → Option Value
  | data v => some v
  | accessor .. => none

/-! ## Objects -/

/-- What an object stands for beside its members. -/
inductive Payload where
  | plain
  | function (c : Callable)
  | buffer (b : BufferId)
  | domain (d : DomainId)

/-- An object: its class, its prototype, its own members in order, and the interfaces that it
implements for its heirs. -/
structure Object where
  className : String
  proto : Option ObjectId
  properties : Table Property
  interfaces : List ObjectId
  payload : Payload

namespace Object

/-- The object of a class without members. -/
def ofClass (className : String) (proto : Option ObjectId) : Object :=
  ⟨className, proto, .empty, [], .plain⟩

/-- The object without members. -/
def plain : Object := ofClass "Object" none

instance : Inhabited Object := ⟨plain⟩

/-- The members of an array. -/
def elements (values : List Value) : List (String × Property) :=
  values.zipIdx.map fun (v, i) => (toString i, .data v)

/-- The array of the given values. -/
def array (values : List Value) : Object :=
  let length := .data (.integer (Int32.ofInt values.length))
  ⟨"Array", none, ⟨elements values ++ [("length", length)]⟩, [], .plain⟩

/-- The object of a byte buffer. -/
def byteArray (b : BufferId) : Object := ⟨"ByteArray", none, .empty, [], .buffer b⟩

/-- The object of a domain. -/
def domain (d : DomainId) (proto : Option ObjectId) : Object :=
  ⟨"Domain", proto, .empty, [], .domain d⟩

/-- A function object whose instances have the given prototype. -/
def function (c : Callable) (instances : ObjectId) : Object :=
  ⟨"Function", none, ⟨[("prototype", .data (.object instances))]⟩, [], .function c⟩

/-- The object is an array. -/
def isArray (o : Object) : Bool := o.className == "Array"

/-- What a function object runs. -/
def callable? (o : Object) : Option Callable :=
  match o.payload with
  | .function c => some c
  | _ => none

/-- The buffer of a byte array. -/
def buffer? (o : Object) : Option BufferId :=
  match o.payload with
  | .buffer b => some b
  | _ => none

/-- The domain of an object for one. -/
def domain? (o : Object) : Option DomainId :=
  match o.payload with
  | .domain d => some d
  | _ => none

/-- The object with a data member. -/
def define (o : Object) (name : String) (v : Value) : Object :=
  { o with properties := o.properties.insert name (.data v) }

/-- The object with a computed member. -/
def defineAccessor (o : Object) (name : String) (get : Option Getter) (set : Option Setter) :
    Object :=
  { o with properties := o.properties.insert name (.accessor get set) }

/-- The value of an own data member. -/
def value? (o : Object) (name : String) : Option Value :=
  (o.properties.get? name).bind Property.value?

end Object

end ActionVm
