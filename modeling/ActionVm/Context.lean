import ActionVm.Object

/-!
# Contexts

What a running block works on beside the store.

* `registerCount`: the size of the register bank;
* `Context`: registers, operand stack, pending branch, returned value, scope and constants;
* `Context.register`, `Context.setRegister?`, `Context.push`, `Context.pop`, `Context.popMany`:
  registers and operands;
* `Context.locals`: the object in which local variables are defined.
-/

namespace ActionVm

/-- The number of registers. -/
def registerCount : Nat := 100

/-- What a running block works on. -/
structure Context where
  registers : Vector Value registerCount
  /-- The operands, latest first. -/
  stack : List Value
  /-- The branch that is to be taken when the action at hand is done. -/
  pendingJump : Option Int16
  returned : Option Value
  this : Value
  scope : Scope
  constants : Array String
  /-- The variables of the function that runs. -/
  activation : Option ObjectId

namespace Context

/-- The context of a block that starts. -/
def start (scope : Scope) (this : Value) : Context :=
  ⟨Vector.replicate registerCount .undefined, [], none, none, this, scope, #[], none⟩

/-- The value of a register. Registers outside the bank are undefined. -/
def register (c : Context) (r : Nat) : Value := c.registers[r]?.getD .undefined

/-- The context with another value in a register of the bank. -/
def setRegister? (c : Context) (r : Nat) (v : Value) : Option Context :=
  if r < registerCount then some { c with registers := c.registers.setIfInBounds r v } else none

/-- The context with another value in a register. Registers outside the bank keep nothing. -/
def setRegister (c : Context) (r : Nat) (v : Value) : Context := (c.setRegister? r v).getD c

/-- The context with one more operand. -/
def push (c : Context) (v : Value) : Context := { c with stack := v :: c.stack }

/-- The latest operand, undefined without any. -/
def peek (c : Context) : Value := c.stack.headD .undefined

/-- The context without its latest operand. -/
def pop (c : Context) : Context := { c with stack := c.stack.tail }

/-- The context without its latest `n` operands. -/
def popMany (c : Context) (n : Nat) : Context := { c with stack := c.stack.drop n }

/-- The constant with the given index. -/
def constant? (c : Context) (index : Nat) : Option String := c.constants[index]?

/-- The object in which local variables are defined. -/
def locals (c : Context) : ObjectId := c.activation.getD c.scope.base

end Context

end ActionVm
