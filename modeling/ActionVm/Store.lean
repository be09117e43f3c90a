import ActionVm.Buffer
import ActionVm.Object

/-!
# Stores

All objects, buffers and domains, by name.

* `Domain`: classes and memory of a domain;
* `Store`: everything that scripts can reach;
* `Store.object`, `Store.modify`, `Store.addObject` and the like: stored things and their changes;
* `Store.own?`, `Store.ancestors`, `Store.lookup?`, `Store.has`, `Store.keys`: members, own and
  inherited.
-/

namespace ActionVm

/-- A place of loaded code: its classes, its memory, and the domain inside which it was made. -/
structure Domain where
  parent : Option DomainId
  classes : Table Value
  memory : Option BufferId
  deriving Inhabited

/-- All objects, buffers and domains. -/
structure Store where
  objects : Array Object
  buffers : Array Buffer
  domains : Array Domain

namespace Store

/-- The store without anything in it. -/
def empty : Store := ⟨#[], #[], #[]⟩

instance : Inhabited Store := ⟨empty⟩

/-! ## Objects -/

/-- The object of a name. -/
def object (s : Store) (o : ObjectId) : Object := s.objects.getD o.index default

/-- The store with one object changed. -/
def modify (s : Store) (o : ObjectId) (f : Object → Object) : Store :=
  { s with objects := s.objects.modify o.index f }

/-- A name for one more object. -/
def addObject (s : Store) (o : Object) : ObjectId × Store :=
  (⟨s.objects.size⟩, { s with objects := s.objects.push o })

/-- The store in which a name of an object has the given value. -/
def define (s : Store) (o : ObjectId) (name : String) (v : Value) : Store :=
  s.modify o (·.define name v)

/-- The store in which an object has no own member of the name. -/
def erase (s : Store) (o : ObjectId) (name : String) : Store :=
  s.modify o fun object => { object with properties := object.properties.erase name }

/-- The store in which an object has another prototype. -/
def setProto (s : Store) (o : ObjectId) (proto : Option ObjectId) : Store :=
  s.modify o ({ · with proto := proto })

/-- A name for a function object, with a fresh object as the prototype of its instances. -/
def addFunction (s : Store) (c : Callable) : ObjectId × Store :=
  let (instances, s) := s.addObject .plain
  s.addObject (.function c instances)

/-! ## Buffers -/

/-- The buffer of a name. -/
def buffer (s : Store) (b : BufferId) : Buffer := s.buffers.getD b.index default

/-- The store with another buffer for a name. -/
def setBuffer (s : Store) (b : BufferId) (buffer : Buffer) : Store :=
  { s with buffers := s.buffers.setIfInBounds b.index buffer }

/-- A name for one more buffer. -/
def addBuffer (s : Store) (b : Buffer) : BufferId × Store :=
  (⟨s.buffers.size⟩, { s with buffers := s.buffers.push b })

/-! ## Domains -/

/-- The domain of a name. -/
def domain (s : Store) (d : DomainId) : Domain := s.domains.getD d.index default

/-- The store with one domain changed. -/
def modifyDomain (s : Store) (d : DomainId) (f : Domain → Domain) : Store :=
  { s with domains := s.domains.modify d.index f }

/-- A name for one more domain. -/
def addDomain (s : Store) (parent : Option DomainId) : DomainId × Store :=
  (⟨s.domains.size⟩, { s with domains := s.domains.push ⟨parent, .empty, none⟩ })

/-- The store in which a domain has the given class. -/
def defineClass (s : Store) (d : DomainId) (name : String) (v : Value) : Store :=
  s.modifyDomain d fun domain => { domain with classes := domain.classes.insert name v }

/-- The buffer that is a domain's memory. -/
def memory? (s : Store) (d : DomainId) : Option BufferId := (s.domain d).memory

/-! ## Members -/

/-- An object's own member. -/
def own? (s : Store) (o : ObjectId) (name : String) : Option Property :=
  (s.object o).properties.get? name

/-- The value of an object's own data member. -/
def ownValue? (s : Store) (o : ObjectId) (name : String) : Option Value := (s.object o).value? name

/-- The nearest prototypes of an object, at most `limit` of them. -/
def ancestors (s : Store) : (limit : Nat) → ObjectId → List ObjectId
  | 0, _ => []
  | limit + 1, o =>
    match (s.object o).proto with
    | none => []
    | some p => p :: s.ancestors limit p

/-- How many prototypes are searched for a member. -/
def lookupLimit : Nat := 257

/-- How many prototypes take part in an enumeration. -/
def enumerationLimit : Nat := 256

/-- An object's member: its own, or that of the nearest prototype which has one. -/
def lookup? (s : Store) (o : ObjectId) (name : String) : Option Property :=
  match s.own? o name with
  | some p => some p
  | none => (s.ancestors lookupLimit o).findSome? (s.own? · name)

/-- What a byte array answers for its length and for indices. It has all indices, undefined beyond
its end. -/
def slot? (s : Store) (o : ObjectId) (name : String) : Option Value :=
  match (s.object o).buffer? with
  | none => none
  | some b =>
    if name = "length" then some (.integer (Int32.ofInt (s.buffer b).length))
    else (Text.index? name).map fun i =>
      match (s.buffer b).get? i with
      | some byte => .integer (Int32.ofInt byte.toNat)
      | none => .undefined

/-- An object has a member, own or inherited. -/
def has (s : Store) (o : ObjectId) (name : String) : Bool :=
  (s.slot? o name).isSome || (s.lookup? o name).isSome

/-- Names that begin with two underscores are left out of enumerations. -/
def isHidden (name : String) : Bool :=
  match name.toList with
  | '_' :: '_' :: _ => true
  | _ => false

/-- The names of an enumeration: an object's own, then those of its prototypes, each one once. -/
def keys (s : Store) (o : ObjectId) : List String :=
  let holders := o :: s.ancestors enumerationLimit o
  let names := holders.flatMap fun h => (s.object h).properties.names.filter (!isHidden ·)
  let names := names.eraseDups
  if (s.object o).isArray then names.filter (· ≠ "length") else names

/-! ## Arrays -/

/-- The number of elements that an object says it has. -/
def arrayLength (s : Store) (o : ObjectId) : Nat :=
  ((s.ownValue? o "length").map Value.toCount).getD 0

/-- The elements of an object, undefined where it has none. -/
def arrayValues (s : Store) (o : ObjectId) : List Value :=
  (List.range (s.arrayLength o)).map fun i => (s.ownValue? o (toString i)).getD .undefined

/-! ## Kinds -/

/-- What runs when a value is called. -/
def callable? (s : Store) (v : Value) : Option Callable :=
  v.object?.bind fun o => (s.object o).callable?

/-- The kind of a value. -/
def kind (s : Store) : Value → Kind
  | .undefined => .undefined
  | .null => .null
  | .boolean _ => .boolean
  | .integer _ | .number _ => .number
  | .string _ => .string
  | .object o => if (s.object o).callable?.isSome then .function else .object

end Store

end ActionVm
