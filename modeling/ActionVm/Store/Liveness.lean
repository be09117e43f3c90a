import ActionVm.Context
import ActionVm.Worker

/-!
# Liveness

A domain does not keep alive the domain inside which it was made. What nothing holds any more is
gone, and with it what it alone held; things that hold each other stay.

* `Store.holds`: what a stored thing holds on to;
* `Context.entities`, `Worker.entities`: what a running block and a worker hold on to;
* `Store.live`: what is left when nothing else than the given things is held from outside;
* `Store.liveParent?`: the domain inside which a domain was made, while it lives;
* **`Store.class?`**: a class of a domain or of the nearest living domain around it.
-/

namespace ActionVm

/-- The object of a value, as something to hold on to. -/
def Value.entities (v : Value) : List Entity := (v.object?.map .object).toList

/-- The objects of a scope. -/
def Scope.entities (s : Scope) : List Entity := s.toList.map .object

/-- What a callable thing holds on to. -/
def Callable.entities : Callable → List Entity
  | closure c => c.scope.entities
  | host (.domainClass proto) => [.object proto]
  | host _ => []

/-- What a member holds on to. -/
def Property.entities : Property → List Entity
  | data v => v.entities
  | accessor (some (.currentDomain proto)) _ => [.object proto]
  | accessor .. => []

/-- What an object stands for, as something to hold on to. -/
def Payload.entities : Payload → List Entity
  | function c => c.entities
  | domain d => [.domain d]
  | plain | buffer _ => []

/-- What an object holds on to. -/
def Object.entities (o : Object) : List Entity :=
  (o.proto.map .object).toList ++ o.properties.entries.flatMap (·.2.entities) ++
    o.interfaces.map .object ++ o.payload.entities

/-- What a domain holds on to. -/
def Domain.entities (d : Domain) : List Entity := d.classes.entries.flatMap (·.2.entities)

/-- What a stored thing holds on to. -/
def Store.holds (s : Store) : Entity → List Entity
  | .object o => (s.object o).entities
  | .domain d => (s.domain d).entities

/-- What a running block holds on to. -/
def Context.entities (c : Context) : List Entity :=
  c.registers.toList.flatMap Value.entities ++ c.stack.flatMap Value.entities ++
    c.returned.toList.flatMap Value.entities ++ c.this.entities ++ c.scope.entities ++
    (c.activation.map .object).toList

/-- What a stage holds on to. -/
def Stage.entities (s : Stage) : List Entity :=
  (s.root.map .object).toList ++ (s.parent.map .object).toList ++
    s.properties.flatMap (·.2.entities)

/-- What a worker holds on to. -/
def Worker.entities (w : Worker) : List Entity :=
  .object w.global :: .domain w.rootDomain :: .domain w.activeDomain ::
    (w.stage.entities ++ w.kept)

/-! ## What is left -/

/-- A set of stored things. -/
structure Marks where
  objects : Array Bool
  domains : Array Bool
  deriving DecidableEq

namespace Marks

/-- The set of everything, or of nothing. -/
def all (s : Store) (b : Bool) : Marks :=
  ⟨Array.replicate s.objects.size b, Array.replicate s.domains.size b⟩

/-- The set with one more thing. -/
def add (m : Marks) : Entity → Marks
  | .object o => { m with objects := m.objects.setIfInBounds o.index true }
  | .domain d => { m with domains := m.domains.setIfInBounds d.index true }

/-- The set has the thing. -/
def has (m : Marks) : Entity → Bool
  | .object o => m.objects.getD o.index false
  | .domain d => m.domains.getD d.index false

/-- The things of a set. -/
def toList (m : Marks) : List Entity :=
  (((List.range m.objects.size).map fun i => Entity.object ⟨i⟩) ++
    (List.range m.domains.size).map fun i => Entity.domain ⟨i⟩).filter m.has

end Marks

namespace Store

/-- Those of the given things that are held from outside or by one of themselves. -/
def held (s : Store) (outside : List Entity) (m : Marks) : Marks :=
  let holders := m.toList
  let marked := (outside ++ holders.flatMap s.holds).foldl Marks.add (.all s false)
  (holders.filter marked.has).foldl Marks.add (.all s false)

/-- What is left of the given things when those that nothing holds are taken away, at most `n` times
over. -/
def settle (s : Store) (outside : List Entity) : Nat → Marks → Marks
  | 0, m => m
  | n + 1, m =>
    let left := s.held outside m
    if left = m then m else s.settle outside n left

/-- What lives when nothing else than the given things is held from outside. -/
def live (s : Store) (outside : List Entity) : Marks :=
  s.settle outside (s.objects.size + s.domains.size) (.all s true)

/-- The domain inside which a domain was made, while it lives. -/
def liveParent? (s : Store) (live : Marks) (d : DomainId) : Option DomainId :=
  (s.domain d).parent.filter fun p => live.has (.domain p)

/-- A class of a domain or of the nearest living domain around it. A domain is always made after the
one around it. -/
def classFrom? (s : Store) (live : Marks) (d : DomainId) (name : String) : Option Value :=
  match (s.domain d).classes.get? name with
  | some v => some v
  | none =>
    match s.liveParent? live d with
    | none => none
    | some p => if p.index < d.index then s.classFrom? live p name else none
termination_by d.index

/-- A class of a domain or of the nearest domain around it that lives. -/
def class? (s : Store) (outside : List Entity) (d : DomainId) (name : String) : Option Value :=
  match (s.domain d).classes.get? name with
  | some v => some v
  | none => s.classFrom? (s.live outside) d name

end Store

end ActionVm
