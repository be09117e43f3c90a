import ActionVm.Block.Branch
import ActionVm.Block.Decoding
import ActionVm.Host.Call
import ActionVm.Machine.Actions
import ActionVm.Machine.Closures
import ActionVm.Store.Liveness

/-!
# The machine

Scripts run in small steps. A step performs one action, starts or ends a body, or hands an answer to
what waits for it.

* `Cursor`, `Invocation`: a block in progress, and a block with the bodies in progress inside it;
* `Frame`: what waits for an answer;
* `Control`, `Machine`: what happens next, over what waits;
* `Invocation.proceed`, `Invocation.fail`: an invocation after an action;
* `Machine.call`, `Machine.load`, `Machine.perform`: what is started inside what waits, and what an
  action does;
* **`Machine.step`**: one step;
* **`Machine.run`**: a number of steps.
-/

namespace ActionVm

/-- A block in progress: the records from the one at hand on. -/
structure Cursor where
  block : Block
  rest : List Record

namespace Cursor

/-- The start of a block. -/
def start (b : Block) : Cursor := ⟨b, b.records⟩

/-- The cursor where a branch leads, or the offset to which it leads in vain. -/
def follow (c : Cursor) : Landing → Except Int Cursor
  | .record index => .ok ⟨c.block, c.block.records.drop index⟩
  | .finish => .ok ⟨c.block, []⟩
  | .invalid target => .error target

/-- The cursor after the record at hand, or where the branch leads that it takes. -/
def advance (c : Cursor) (jump : Option Int16) : Except Int Cursor :=
  match c.rest, jump with
  | record :: _, some offset => c.follow (c.block.landing (record.finish + offset.toInt))
  | _, _ => .ok ⟨c.block, c.rest.tail⟩

end Cursor

/-- A block that runs in a context, with the bodies in progress inside it. -/
structure Invocation where
  context : Context
  /-- The bodies in progress, innermost first. Each has added an object to the scope. -/
  bodies : List Cursor
  /-- The block, or `none` where a single action is performed. -/
  main : Option Cursor

/-- How an invocation ends. -/
inductive Ending where
  /-- At the end of its block. -/
  | completed
  | returned (v : Value)
  | failed (e : ScriptError)

/-- An answer to a call. -/
abbrev Answer := Except ScriptError Value

/-- The answer of an invocation that ends in a context. -/
def Ending.answer (c : Context) : Ending → Answer
  | completed => .ok (c.returned.getD .undefined)
  | returned v => .ok v
  | failed e => .error e

/-- What waits for an answer. -/
inductive Frame where
  /-- An invocation, to which the answer becomes an operand. -/
  | code (i : Invocation)
  /-- A call that counts. -/
  | call (r : Request)
  /-- Loaded code, after which another domain is active again. -/
  | load (previous : DomainId)

/-- What happens next. -/
inductive Control where
  | go (i : Invocation)
  /-- An invocation is over. -/
  | ended (c : Context) (ending : Ending)
  | call (r : Request)
  /-- What waits gets an answer. -/
  | answer (a : Answer)

/-- A machine: what happens next, what waits, the latest first, and the state. -/
structure Machine where
  control : Control
  frames : List Frame
  state : State

namespace Invocation

/-- A block that starts in a context. -/
def start (c : Context) (b : Block) : Invocation := ⟨c, [], some (.start b)⟩

/-- The context without the objects that the bodies in progress have added to its scope. -/
def unwound (i : Invocation) : Context :=
  { i.context with scope := i.bodies.foldl (fun s _ => s.pop) i.context.scope }

/-- The invocation is over. -/
def finish (i : Invocation) (ending : Ending) : Control := .ended i.unwound ending

/-- An error ends the invocation. -/
def fail (i : Invocation) (e : ScriptError) : Control := i.finish (.failed e)

/-- The invocation goes on after the action at hand: in the innermost body, or in the block. -/
def proceed (i : Invocation) : Control :=
  let jump := i.context.pendingJump
  let context := { i.context with pendingJump := none }
  match i.bodies, i.main with
  | body :: outer, main =>
    match body.advance jump with
    | .ok body => .go ⟨context, body :: outer, main⟩
    | .error target => fail ⟨context, body :: outer, main⟩ (.invalidJump target)
  | [], some block =>
    match block.advance jump with
    | .ok block => .go ⟨context, [], some block⟩
    | .error target => .ended context (.failed (.invalidJump target))
  | [], none => .ended i.context .completed

/-- A body starts, with one more object in scope. -/
def enter (i : Invocation) (scope : ObjectId) (body : Block) : Invocation :=
  { i with
    context := { i.context with scope := i.context.scope.push scope }
    bodies := .start body :: i.bodies }

/-- The innermost body is over, if there is one, and else the block. -/
def leave (i : Invocation) : Control :=
  match i.bodies with
  | _ :: outer =>
    proceed ⟨{ i.context with scope := i.context.scope.pop }, outer, i.main⟩
  | [] => .ended i.context .completed

/-- The record at hand. -/
def record? (i : Invocation) : Option Record :=
  match i.bodies with
  | body :: _ => body.rest.head?
  | [] => i.main.bind fun block => block.rest.head?

end Invocation

/-- What waits holds on to things. -/
def Frame.entities : Frame → List Entity
  | code i => i.context.entities
  | call r =>
    r.callee.entities ++ r.this.entities ++ r.args.flatMap Value.entities ++
      r.kept.flatMap Value.entities
  | load previous => [.domain previous]

namespace Machine

/-- What is held while the frames wait. -/
def roots (frames : List Frame) (w : Worker) : List Entity :=
  w.entities ++ frames.flatMap Frame.entities

/-- The machine after a change of its state that may fail, whose answer is handed on. -/
def ofExec {α : Type} (frames : List Frame) (s : State) (x : Exec α) (next : α → State → Machine) :
    Machine :=
  match x s with
  | (.ok a, s) => next a s
  | (.error e, s) => ⟨.answer (.error e), frames, s⟩

/-- Bytes are run in a domain, which is active meanwhile. -/
def load (e : Embedding) (frames : List Frame) (s : State) (d : DomainId) (bytes : List UInt8)
    (version : UInt32) : Machine :=
  let frames := .load s.worker.activeDomain :: frames
  let s := s.withWorker ({ · with activeDomain := d })
  match s.worker.loader with
  | .embedded => ofExec frames s (e.load bytes version) fun v s => ⟨.answer (.ok v), frames, s⟩
  | .actions =>
    match decodeActions bytes with
    | .ok b => ⟨.go (.start (topContext s.worker (e.root s)) b), frames, s⟩
    | .error cause => ⟨.answer (.error (.decode cause)), frames, s⟩

/-- The class of a domain that a name stands for, or else a global variable. -/
def classOf (e : Embedding) (frames : List Frame) (d : DomainId) (name : String) :
    Exec Value := do
  let outside ← Exec.worker (roots frames)
  match ← Exec.ask (·.class? outside d name) with
  | some v => return v
  | none =>
    let global ← Exec.worker Worker.global
    if ← Exec.ask (·.has global name) then getProperty e global name
    else throw (.undefinedVariable name)

/-- What follows on the reply of a host function. -/
def reply (e : Embedding) (frames : List Frame) (s : State) : Reply → Machine
  | .value v => ⟨.answer (.ok v), frames, s⟩
  | .call callee this args => ⟨.call ⟨callee, this, args, none, []⟩, frames, s⟩
  | .load d bytes version => load e frames s d bytes version
  | .classOf d name =>
    ofExec frames s (classOf e frames d name) fun v s => ⟨.answer (.ok v), frames, s⟩

/-- A call is made: a script function starts, and a host function runs at once. -/
def call (e : Embedding) (frames : List Frame) (s : State) (r : Request) : Machine :=
  match s.store.callable? r.callee with
  | none => ⟨.answer (.error (.notCallable (s.store.kind r.callee))), frames, s⟩
  | some callable =>
    ofExec frames s Exec.enterCall fun _ s =>
      let frames := .call r :: frames
      match callable with
      | .closure c =>
        ofExec frames s (openCall e c r.this r.args) fun context s =>
          ⟨.go (.start context c.body), frames, s⟩
      | .host f => ofExec frames s (f.run e r.this r.args) fun answer s => reply e frames s answer

/-- What follows an action on its outcome. -/
def settle (frames : List Frame) (s : State) (i : Invocation) : Except ScriptError Outcome → Machine
  | .error error => ⟨i.fail error, frames, s⟩
  | .ok .next => ⟨i.proceed, frames, s⟩
  | .ok (.finish v) => ⟨i.finish (.returned v), frames, s⟩
  | .ok (.enter scope body) => ⟨.go (i.enter scope body), frames, s⟩
  | .ok (.call r) => ⟨.call r, .code i :: frames, s⟩

/-- An invocation performs an action. -/
def perform (e : Embedding) (frames : List Frame) (s : State) (i : Invocation) (a : Action) :
    Machine :=
  let ⟨context, bodies, main⟩ := i
  match ActionVm.perform e a (context, s) with
  | (result, context, s) => settle frames s ⟨context, bodies, main⟩ result

/-- The answer of a construction is the object that it made, unless the call gives another. -/
def constructed (created : Option ObjectId) (a : Answer) : Answer :=
  match a, created with
  | .ok (.object o), _ => .ok (.object o)
  | .ok _, some o => .ok (.object o)
  | a, _ => a

/-- What waits gets an answer. -/
def resume (s : State) (a : Answer) : Frame → Control × State
  | .code i =>
    match a with
    | .ok v => (Invocation.proceed { i with context := i.context.push v }, s)
    | .error error => (i.fail error, s)
  | .call r => (.answer (constructed r.created a), (Exec.leaveCall s).2)
  | .load previous => (.answer a, s.withWorker ({ · with activeDomain := previous }))

/-- One step. A machine in which nothing waits and nothing goes on stays as it is. -/
def step (e : Embedding) (m : Machine) : Machine :=
  match m with
  | ⟨.go i, frames, s⟩ =>
    match i.record? with
    | some record => perform e frames s i record.action
    | none => ⟨i.leave, frames, s⟩
  | ⟨.call r, frames, s⟩ => call e frames s r
  | ⟨.ended c ending, frame :: frames, s⟩ => ⟨.answer (ending.answer c), frame :: frames, s⟩
  | ⟨.answer a, frame :: frames, s⟩ =>
    match resume s a frame with
    | (control, s) => ⟨control, frames, s⟩
  | ⟨.ended c ending, [], s⟩ => ⟨.ended c ending, [], s⟩
  | ⟨.answer a, [], s⟩ => ⟨.answer a, [], s⟩

/-- Nothing waits and nothing goes on. -/
def isHalted (m : Machine) : Bool :=
  match m.control, m.frames with
  | .ended .., [] | .answer _, [] => true
  | _, _ => false

/-- The machine after `n` steps, or when it halts. -/
def run (e : Embedding) : (n : Nat) → Machine → Machine
  | 0, m => m
  | n + 1, m => if m.isHalted then m else run e n (m.step e)

/-- The answer of a machine that has halted. -/
def answer? (m : Machine) : Option Answer :=
  match m.control, m.frames with
  | .ended c ending, [] => some (ending.answer c)
  | .answer a, [] => some a
  | _, _ => none

/-- A block that starts in a context. -/
def start (s : State) (c : Context) (b : Block) : Machine := ⟨.go (.start c b), [], s⟩

/-- A single action in a context. -/
def single (e : Embedding) (s : State) (c : Context) (a : Action) : Machine :=
  perform e [] s ⟨c, [], none⟩ a

/-- Bytes that are to be run in a domain. -/
def loading (e : Embedding) (s : State) (d : DomainId) (bytes : List UInt8) (version : UInt32) :
    Machine := load e [] s d bytes version

end Machine

end ActionVm
