import ActionVm.Context
import ActionVm.Members

/-!
# Variables

Names as scripts write them: a variable, and after points the members of its value.

* `Store.findScope`: the innermost object of a scope that has a name;
* **`getVariable`**, **`setVariable`**: variables;
* `isInstance`: an object is made by a constructor or implements it;
* `topContext`: the context of a block that no function belongs to.
-/

namespace ActionVm

/-- The innermost object of a scope that has a name. -/
def Store.findScope (s : Store) (scope : Scope) (name : String) : Option ObjectId :=
  scope.toList.find? (s.has · name)

/-- The object that scripts know as the root: the root clip, or else the global object. -/
def rootObject (e : Embedding) (s : State) : ObjectId := (e.root s).getD s.worker.global

/-- The value of a name without points. Four names have a meaning of their own; others are looked up
in the scope and then in the global object. -/
def getSimple (e : Embedding) (c : Context) (name : String) : Exec Value := do
  match name with
  | "this" => return c.this
  | "_global" => return .object (← Exec.worker Worker.global)
  | "_root" => return .object (← Exec.look (rootObject e))
  | "_parent" => return .ofObject? (← Exec.look (e.parentOf · c.this))
  | _ =>
    match ← Exec.ask (·.findScope c.scope name) with
    | some o => getProperty e o name
    | none =>
      let global ← Exec.worker Worker.global
      if ← Exec.ask (·.has global name) then getProperty e global name else return .undefined

/-- The value of a member of a member, as deep as there are names. -/
def getMembers (e : Embedding) (v : Value) : List String → Exec Value
  | [] => return v
  | name :: rest => do getMembers e (← getMember e v name) rest

/-- The value of a variable, or of a member where the name has points. -/
def getVariable (e : Embedding) (c : Context) (name : String) : Exec Value := do
  match name.splitOn "." with
  | [] => getSimple e c name
  | head :: rest => getMembers e (← getSimple e c head) rest

/-- A value is assigned to a variable, or to a member where the name has points. A variable that no
scope has is made in the base. -/
def setVariable (e : Embedding) (c : Context) (name : String) (v : Value) : Exec Unit := do
  let names := name.splitOn "."
  match names.dropLast with
  | [] =>
    let o ← Exec.ask (·.findScope c.scope name)
    setProperty e (o.getD c.scope.base) name v
  | path =>
    let target ← getVariable e c (".".intercalate path)
    setMember e target (names.getLastD "") v

/-- How many prototypes an object's making is looked for in. -/
def instanceLimit : Nat := 257

/-- A value is an object whose prototypes have one that belongs to the constructor or implements
it. -/
def isInstance (e : Embedding) (v ctor : Value) : Exec Bool := do
  match v, ctor with
  | .object o, .object f =>
    match ← getProperty e f "prototype" with
    | .object p =>
      Exec.ask fun s => (s.ancestors instanceLimit o).any fun a =>
        a == p || (s.object a).interfaces.contains f
    | _ => return false
  | _, _ => return false

/-- The context of a block that no function belongs to, for a root clip. -/
def topContext (w : Worker) (root : Option ObjectId := w.stage.root) : Context :=
  .start (.ofBase w.global) (.object (root.getD w.global))

end ActionVm
