import ActionVm.Variables

/-!
# Calls of script functions

The context in which the body of a script function starts.

* `superOf`: what `super` means for an object;
* `Binding`: the context so far, and which registers are taken;
* `bindParams`, `preload`, `bindNames`: the arguments, the values that the flags ask for, and what
  is left for names;
* **`openCall`**: the context of a call.
-/

namespace ActionVm

/-- What `super` means for a value: the constructor that its prototype was extended from. -/
def superOf (s : Store) (this : Value) : Value :=
  ((this.object?.bind fun o => (s.object o).proto).bind fun p =>
    s.ownValue? p "__constructor__").getD .undefined

/-- A fresh array of arguments. -/
def argumentsArray (args : List Value) : Exec Value := freshObject (.array args)

/-- A context, and the registers that have got a value. -/
structure Binding where
  context : Context
  taken : List Nat

namespace Binding

/-- A register gets a value. Registers outside the bank are not taken. -/
def assign (b : Binding) (r : Nat) (v : Value) : Binding :=
  match b.context.setRegister? r v with
  | some c => ⟨c, r :: b.taken⟩
  | none => b

end Binding

/-- Parameters in registers get their arguments, and the others are defined by name. -/
def bindParams (activation : ObjectId) : List RegisterParam → List Value → Binding → Exec Binding
  | [], _, b => return b
  | p :: params, args, b => do
    let v := args.headD .undefined
    match p.register with
    | some r => bindParams activation params args.tail (b.assign r.toNat v)
    | none =>
      Exec.update (·.define activation p.name v)
      bindParams activation params args.tail b

/-- The values that flags may ask for, in the order of their registers. -/
def preloads (e : Embedding) (flags : PreloadFlags) (this : Value) (args : List Value) :
    List (Bool × Exec Value) :=
  [(flags.preloadThis, return this),
   (flags.preloadArguments, argumentsArray args),
   (flags.preloadSuper, Exec.ask (superOf · this)),
   (flags.preloadParent, return .ofObject? (← Exec.look (e.parentOf · this))),
   (flags.preloadRoot, return .object (← Exec.look (rootObject e))),
   (flags.preloadGlobal, return .object (← Exec.worker Worker.global))]

/-- Values are put into registers from `r` on, one after the other. A register that is taken keeps
its value. -/
def preload : List (Exec Value) → Nat → Binding → Exec Binding
  | [], _, b => return b
  | value :: rest, r, b => do
    if b.taken.contains r then preload rest (r + 1) b
    else preload rest (r + 1) (b.assign r (← value))

/-- What is neither in a register nor left out is defined by name. -/
def bindNames (flags : PreloadFlags) (activation : ObjectId) (this : Value) (args : List Value) :
    Exec Unit := do
  if !flags.preloadThis && !flags.suppressThis then
    Exec.update (·.define activation "this" this)
  if !flags.preloadArguments && !flags.suppressArguments then
    let v ← argumentsArray args
    Exec.update (·.define activation "arguments" v)
  if !flags.preloadSuper && !flags.suppressSuper then
    let v ← Exec.ask (superOf · this)
    Exec.update (·.define activation "super" v)

/-- Parameters by name get their arguments. -/
def bindSimple (activation : ObjectId) : List String → List Value → Exec Unit
  | [], _ => return ()
  | name :: params, args => do
    Exec.update (·.define activation name (args.headD .undefined))
    bindSimple activation params args.tail

/-- The context of a call, in which the arguments are bound. -/
def openCall (e : Embedding) (c : Closure) (this : Value) (args : List Value) : Exec Context := do
  let activation ← Exec.change (·.addObject (.ofClass "Activation" none))
  let start := Context.start (c.scope.push activation) this
  let context := { start with activation := some activation, constants := c.constants }
  match c.kind with
  | .simple params =>
    bindSimple activation params args
    Exec.update (·.define activation "this" this)
    let v ← argumentsArray args
    Exec.update (·.define activation "arguments" v)
    return context
  | .registers _ flags params =>
    let b ← bindParams activation params args ⟨context, []⟩
    let wanted := (preloads e flags this args).filterMap fun (on, v) => if on then some v else none
    let b ← preload wanted 1 b
    bindNames flags activation this args
    return b.context

end ActionVm
