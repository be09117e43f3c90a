import ActionVm.Memory

/-!
# Members

Reading and writing the members of objects, with those that are computed.

* `Getter.run`, `Setter.run`: computed members;
* `thisDomain`, `optionalBuffer`, `optionalDomain`: the domain or buffer of an object argument;
* **`getProperty`**, **`setProperty`**: members of objects;
* `getMember`, `setMember`: members of values.
-/

namespace ActionVm

/-- The domain of the object that a method is called on. -/
def thisDomain (this : Value) : Exec DomainId := do
  match ← Exec.ask fun s => this.object?.bind fun o => (s.object o).domain? with
  | some d => return d
  | none => throw (.notADomain (← Exec.kind this))

/-- An argument that is to be an object of the given class, or missing. -/
def optionalPayload {α : Type} (function : String) (index : Nat) (expected : String)
    (payload? : Object → Option α) (v : Value) : Exec (Option α) := do
  if v.isNullish then return none
  match ← Exec.ask fun s => v.object?.bind fun o => payload? (s.object o) with
  | some a => return some a
  | none => throw (.wrongArgument function index expected (← Exec.kind v))

/-- An argument that is to be a byte array, or missing. -/
def optionalBuffer (function : String) (index : Nat) (v : Value) : Exec (Option BufferId) :=
  optionalPayload function index "ByteArray" Object.buffer? v

/-- An argument that is to be an object for a domain, or missing. -/
def optionalDomain (function : String) (index : Nat) (v : Value) : Exec (Option DomainId) :=
  optionalPayload function index "Domain" Object.domain? v

/-- A fresh object as a value. -/
def freshObject (o : Object) : Exec Value := return .object (← Exec.change (·.addObject o))

/-! ## Computed members -/

/-- How many bytes of memory a worker says it uses. -/
def memoryUse : Nat := 1024

/-- The value that a getter computes for `this`. -/
def Getter.run (e : Embedding) (this : Value) : Getter → Exec Value
  | domainMemory => do
    let d ← thisDomain this
    match ← Exec.ask (·.memory? d) with
    | some b => freshObject (.byteArray b)
    | none => return .null
  | currentDomain proto => do
    let d ← Exec.worker Worker.activeDomain
    freshObject (.domain d (some proto))
  | minimumMemory => return .integer (Int32.ofInt ScriptError.leastMemory)
  | memoryUse => return .number (Float.ofNat ActionVm.memoryUse)
  | swfVersion => return .integer (Int32.ofInt (← Exec.worker (·.config.swfVersion)).toNat)
  | arguments => do
    let arguments ← Exec.worker (·.settings.arguments)
    freshObject (.array (arguments.map .string))
  | embedded name => e.get name this

/-- What a setter does with a value that is assigned to a member of `this`. -/
def Setter.run (e : Embedding) (this v : Value) : Setter → Exec Unit
  | domainMemory => do
    let memory ← optionalBuffer "domainMemory" 0 v
    let d ← thisDomain this
    Exec.setMemory d memory
  | embedded name => e.set name this v

/-! ## Members of objects -/

/-- The value of an object's member, undefined without one. -/
def getProperty (e : Embedding) (o : ObjectId) (name : String) : Exec Value := do
  match ← Exec.ask (·.slot? o name) with
  | some v => return v
  | none =>
    if name = "__proto__" then
      return .ofObject? (← Exec.ask fun s => (s.object o).proto)
    match ← Exec.ask (·.lookup? o name) with
    | some (.data v) => return v
    | some (.accessor (some getter) _) => getter.run e (.object o)
    | some (.accessor none _) | none => return .undefined

/-- The length of an array that gets an element at `index`. Lengths are kept in 32 bits. -/
def lengthFor (index : Nat) : Value := .integer (Int32.ofInt index + 1)

/-- The store in which an object's own member has the given value. An array whose elements end
before a new one first gets a new length. -/
def Store.assign (s : Store) (o : ObjectId) (name : String) (v : Value) : Store :=
  let s :=
    if (s.object o).isArray then
      match Text.index? name with
      | some index =>
        if s.arrayLength o ≤ index then s.define o "length" (lengthFor index) else s
      | none => s
    else s
  s.define o name v

/-- The store in which a byte of a byte array is assigned. Places that it does not have stay. -/
def Store.assignByte (s : Store) (b : BufferId) (index : Nat) (v : Value) : Store :=
  match (s.buffer b).set? index v.toUInt32.toUInt8 with
  | some buffer => s.setBuffer b buffer
  | none => s

/-- A value is assigned to a member of an object. -/
def setProperty (e : Embedding) (o : ObjectId) (name : String) (v : Value) : Exec Unit := do
  let buffer ← Exec.ask fun s => (s.object o).buffer?
  match buffer, Text.index? name with
  | some b, some index => Exec.update (·.assignByte b index v)
  | _, _ =>
    if name = "__proto__" then Exec.update (·.setProto o v.object?)
    else match ← Exec.ask (·.lookup? o name) with
      | some (.accessor _ (some setter)) => setter.run e (.object o) v
      | some (.accessor _ none) => return ()
      | some (.data _) | none => Exec.update (·.assign o name v)

/-! ## Members of values -/

/-- The number of characters of a text. -/
def textLength (s : String) : Value := .integer (Int32.ofInt s.length)

/-- The value of a member. Texts have a length, and other values that are no objects have
nothing. -/
def getMember (e : Embedding) (target : Value) (name : String) : Exec Value :=
  match target with
  | .object o => getProperty e o name
  | .string s => return if name = "length" then textLength s else .undefined
  | _ => return .undefined

/-- A value is assigned to a member. Values that are no objects keep nothing. -/
def setMember (e : Embedding) (target : Value) (name : String) (v : Value) : Exec Unit :=
  match target with
  | .object o => setProperty e o name v
  | _ => return ()

end ActionVm
