import ActionVm.Files.Access
import ActionVm.Stage
import ActionVm.Store.Text

/-!
# Workers

A worker runs scripts on a global object, in an active domain, with a bound on nested calls.

* `EngineConfig`, `HostSettings`: how a worker is set up;
* `Worker`: a worker;
* `State`, `State.start`, `Exec`: a worker and its store, and what is done with them;
* `Exec.enterCall`, `Exec.leaveCall`: the depth of calls;
* `Exec.readClock`: the time;
* `Exec.bind_of_ok`, `Exec.bind_of_error`: one thing done after another;
* `Embedding`: what the embedding program adds, and what its stage replies.
-/

namespace ActionVm

/-- How scripts are run. -/
structure EngineConfig where
  swfVersion : UInt8
  /-- How many calls may be nested. -/
  maxCallDepth : Nat
  jit : Bool
  deriving DecidableEq, Repr

namespace EngineConfig

/-- The settings that hold where nothing else is said. -/
def default : EngineConfig := ⟨10, 256, false⟩

instance : Inhabited EngineConfig := ⟨default⟩

/-- The word for how scripts are run. -/
def runMode (c : EngineConfig) : String := if c.jit then "jit" else "interpreted"

end EngineConfig

/-- What a host tells scripts about themselves. -/
structure HostSettings where
  arguments : List String
  debugger : Bool
  deriving DecidableEq, Repr, Inhabited

/-- What runs the bytes that a domain loads. -/
inductive Loader where
  /-- They are an action stream. -/
  | actions
  /-- The embedding program runs them. -/
  | embedded
  deriving DecidableEq, Repr

/-- Something stored that others can hold on to. -/
inductive Entity where
  | object (o : ObjectId)
  | domain (d : DomainId)
  deriving DecidableEq, Repr

/-- A worker. -/
structure Worker where
  config : EngineConfig
  global : ObjectId
  rootDomain : DomainId
  activeDomain : DomainId
  callDepth : Nat
  stage : Stage
  loader : Loader
  /-- The milliseconds that the worker has run, at each time from now on that it looks at its
  clock. -/
  clock : Nat → Nat
  files : Files
  settings : HostSettings
  /-- What the embedding program holds on to. -/
  kept : List Entity

/-- The store with one more global object. -/
def Store.addGlobal (s : Store) : ObjectId × Store := s.addObject (.ofClass "global" none)

/-- A worker that has not run yet, with a global object and a domain of its own. -/
def Worker.idle (config : EngineConfig) (global : ObjectId) (root : DomainId) : Worker :=
  ⟨config, global, root, root, 0, .bare, .actions, fun _ => 0, .empty, ⟨[], false⟩, []⟩

/-- A worker and everything that its scripts can reach. -/
structure State where
  store : Store
  worker : Worker

namespace State

/-- A worker that has not run yet, in a store of its own. -/
def start (config : EngineConfig) : State :=
  let (global, s) := Store.empty.addGlobal
  let (root, s) := s.addDomain none
  ⟨s, .idle config global root⟩

/-- The state after a change of the worker. -/
def withWorker (s : State) (f : Worker → Worker) : State := ⟨s.store, f s.worker⟩

end State

/-- What is done with a state: an answer or an error, and the state afterwards. -/
abbrev Exec (α : Type) := ExceptT ScriptError (StateM State) α

namespace Exec

/-- The answer of a look at the store. -/
def ask {α : Type} (f : Store → α) : Exec α := fun s => (.ok (f s.store), s)

/-- A change of the store with an answer. -/
def change {α : Type} (f : Store → α × Store) : Exec α := fun ⟨store, worker⟩ =>
  let (a, store) := f store
  (.ok a, ⟨store, worker⟩)

/-- A change of the store. -/
def update (f : Store → Store) : Exec Unit := fun ⟨store, worker⟩ => (.ok (), ⟨f store, worker⟩)

/-- The answer of a look at the worker. -/
def worker {α : Type} (f : Worker → α) : Exec α := fun s => (.ok (f s.worker), s)

/-- The answer of a look at the whole state. -/
def look {α : Type} (f : State → α) : Exec α := fun s => (.ok (f s), s)

/-- A change of the worker. -/
def setWorker (f : Worker → Worker) : Exec Unit :=
  fun ⟨store, worker⟩ => (.ok (), ⟨store, f worker⟩)

/-- The answer of what may fail by itself. -/
def ofExcept {α : Type} (x : Except ScriptError α) : Exec α := fun s => (x, s)

/-- The stage is told of an event. -/
def tell (e : Event) : Exec Unit := setWorker fun w => { w with stage := w.stage.tell e }

/-- The text of a value. -/
def text (v : Value) : Exec String := ask (·.text v)

/-- The kind of a value. -/
def kind (v : Value) : Exec Kind := ask (·.kind v)

/-- One more call is nested, unless there are as many as may be. -/
def enterCall : Exec Unit := fun ⟨store, w⟩ =>
  if w.callDepth < w.config.maxCallDepth then
    (.ok (), ⟨store, { w with callDepth := w.callDepth + 1 }⟩)
  else (.error .stackOverflow, ⟨store, w⟩)

/-- One call less is nested. -/
def leaveCall : Exec Unit := setWorker fun w => { w with callDepth := w.callDepth - 1 }

/-- The domain that becomes active, and the one that was. -/
def swapDomain (d : DomainId) : Exec DomainId := fun ⟨store, w⟩ =>
  (.ok w.activeDomain, ⟨store, { w with activeDomain := d }⟩)

/-- The milliseconds that the worker has run. -/
def readClock : Exec Nat := fun ⟨store, w⟩ =>
  (.ok (w.clock 0), ⟨store, { w with clock := fun n => w.clock (n + 1) }⟩)

section Bind

variable {α β : Type} {x : Exec α} {f : α → Exec β} {s s' : State}

theorem bind_of_ok {a : α} (h : x s = (.ok a, s')) : (x >>= f) s = f a s' := by
  change StateT.run (ExceptT.run (x >>= f)) s = _
  rw [ExceptT.run_bind, StateT.run_bind, show StateT.run (ExceptT.run x) s = _ from h]
  rfl

theorem bind_of_error {error : ScriptError} (h : x s = (.error error, s')) :
    (x >>= f) s = (.error error, s') := by
  change StateT.run (ExceptT.run (x >>= f)) s = _
  rw [ExceptT.run_bind, StateT.run_bind, show StateT.run (ExceptT.run x) s = _ from h]
  rfl

theorem bind_ask (g : Store → α) (f : α → Exec β) (s : State) :
    (ask g >>= f) s = f (g s.store) s := rfl

theorem bind_worker (g : Worker → α) (f : α → Exec β) (s : State) :
    (worker g >>= f) s = f (g s.worker) s := rfl

end Bind

end Exec

/-- What a function of the host answers. -/
inductive Reply where
  | value (v : Value)
  /-- The answer is that of a call. -/
  | call (callee this : Value) (args : List Value)
  /-- The answer is that of bytes which are run in a domain. -/
  | load (domain : DomainId) (bytes : List UInt8) (version : UInt32)
  /-- The answer is a class of a domain, or else a global variable. -/
  | classOf (domain : DomainId) (name : String)

/-- What the embedding program adds, by the names under which it is installed, and what its stage
replies. A reply may depend on every object and on all that there is to the worker, with what the
stage was told so far; where nothing else is said, it is what the stage holds on to. -/
structure Embedding where
  call : String → Value → List Value → Exec Reply
  get : String → Value → Exec Value
  set : String → Value → Value → Exec Unit
  load : List UInt8 → UInt32 → Exec Value
  /-- The root clip. -/
  root : State → Option ObjectId := fun s => s.worker.stage.root
  /-- The clip around a value. -/
  parentOf : State → Value → Option ObjectId := fun s v => s.worker.stage.parentOf v
  /-- The property of a clip with a name. -/
  property : State → String → UInt32 → Value := fun s target index =>
    s.worker.stage.property target index

namespace Embedding

/-- Nothing is added. -/
def none : Embedding where
  call _ _ _ := return .value .undefined
  get _ _ := return .undefined
  set _ _ _ := return ()
  load _ _ := return .undefined

end Embedding

end ActionVm
