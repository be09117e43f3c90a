import ActionVm.Machine
import Mathlib.Data.Nat.Notation
import Mathlib.Order.Defs.Unbundled

/-!
# What scripts change

Actions and functions of the host do a few things to a state: objects get other members, fresh
objects, buffers and domains are made, bytes of buffers are written, and domains get memory. What
allows these holds of everything that is done.

* `Keeps`: a computation relates the state before it to the one after it;
* `State.Change`: the single changes, with `State.Admits`: a relation that allows them;
* `Embedding.Within`: the embedding program stays within a relation as well;
* **`keeps_getProperty`**, **`keeps_setProperty`**, **`keeps_host`**: members and host functions;
* **`keeps_openCall`**: calls of script functions;
* **`keeps_perform`**: actions.
-/

namespace ActionVm

/-- A computation that may fail relates the state before it to the one after it. -/
def Keeps {σ α : Type} (R : σ → σ → Prop) (x : ExceptT ScriptError (StateM σ) α) : Prop :=
  ∀ s, R s (x.run.run s).2

/-! ## Computations in general -/

section Keeps

variable {σ α β : Type} {R : σ → σ → Prop} [IsPreorder σ R]

theorem keeps_pure (a : α) : Keeps R (pure a) := fun s => refl_of R s

theorem keeps_throw (e : ScriptError) : Keeps R (throw e : ExceptT ScriptError (StateM σ) α) :=
  fun s => refl_of R s

theorem Keeps.bind {x : ExceptT ScriptError (StateM σ) α}
    {f : α → ExceptT ScriptError (StateM σ) β} (hx : Keeps R x) (hf : ∀ a, Keeps R (f a)) :
    Keeps R (x >>= f) := by
  intro s
  have h := hx s
  rw [ExceptT.run_bind, StateT.run_bind]
  rcases hr : StateT.run (ExceptT.run x) s with ⟨e | a, s'⟩
  · rwa [hr] at h
  · rw [hr] at h
    exact trans_of R h (hf a s')

theorem keeps_forIn {γ : Type} (l : List γ) (b : β)
    {f : γ → β → ExceptT ScriptError (StateM σ) (ForInStep β)} (hf : ∀ a b, Keeps R (f a b)) :
    Keeps R (forIn l b f) := by
  induction l generalizing b with
  | nil => exact keeps_pure b
  | cons a l ih =>
    rw [List.forIn_cons]
    refine (hf a b).bind fun next => ?_
    cases next with
    | done b => exact keeps_pure b
    | yield b => exact ih b

theorem keeps_mapM {f : α → ExceptT ScriptError (StateM σ) β}
    (hf : ∀ a, Keeps R (f a)) (l : List α) : Keeps R (l.mapM f) := by
  induction l with
  | nil => exact keeps_pure []
  | cons a l ih =>
    rw [List.mapM_cons]
    exact (hf a).bind fun _ => ih.bind fun _ => keeps_pure _

end Keeps

/-! ## States -/

/-- The settings of a worker, the depth of calls and the active domain stay as they are. -/
structure Worker.Alike (w w' : Worker) : Prop where
  config : w'.config = w.config
  loader : w'.loader = w.loader
  callDepth : w'.callDepth = w.callDepth
  activeDomain : w'.activeDomain = w.activeDomain

/-- What is done to a state at once. An object goes on standing for the same, a buffer keeps its
length, and a fresh function has a body with the property. -/
inductive State.Change (P : Block → Prop) (s : State) : State → Prop where
  | worker {w : Worker} : s.worker.Alike w → Change P s ⟨s.store, w⟩
  | modify (o : ObjectId) {f : Object → Object} :
    (∀ object, (f object).payload = object.payload) → Change P s ⟨s.store.modify o f, s.worker⟩
  | addObject {object : Object} : (∀ c, object.payload = .function (.closure c) → P c.body) →
    Change P s ⟨(s.store.addObject object).2, s.worker⟩
  | addBuffer (buffer : Buffer) : Change P s ⟨(s.store.addBuffer buffer).2, s.worker⟩
  | setBuffer (b : BufferId) {buffer : Buffer} : buffer.length = (s.store.buffer b).length →
    Change P s ⟨s.store.setBuffer b buffer, s.worker⟩
  | addDomain (parent : Option DomainId) : Change P s ⟨(s.store.addDomain parent).2, s.worker⟩
  | defineClass (d : DomainId) (name : String) (v : Value) :
    Change P s ⟨s.store.defineClass d name v, s.worker⟩
  | setMemory (d : DomainId) (b : Option BufferId) : Change P s (Exec.setMemory d b s).2

/-- A relation between states that allows all changes, one after the other. -/
class State.Admits (P : outParam (Block → Prop)) (R : State → State → Prop) : Prop
    extends IsPreorder State R where
  change {s s' : State} : s.Change P s' → R s s'

/-- What the embedding program adds stays within a relation. -/
structure Embedding.Within (R : State → State → Prop) (e : Embedding) : Prop where
  call : ∀ name this args, Keeps R (e.call name this args)
  get : ∀ name this, Keeps R (e.get name this)
  set : ∀ name this v, Keeps R (e.set name this v)
  load : ∀ bytes version, Keeps R (e.load bytes version)

variable {P : Block → Prop} {R : State → State → Prop} [hR : State.Admits P R]
include hR

theorem Embedding.within_none : Embedding.none.Within R :=
  ⟨fun _ _ _ => keeps_pure _, fun _ _ => keeps_pure _, fun _ _ _ => keeps_pure _,
    fun _ _ => keeps_pure _⟩

section Exec

variable {α : Type}

theorem keeps_ask (f : Store → α) : Keeps R (Exec.ask f) := fun s => refl_of R s

theorem keeps_worker (f : Worker → α) : Keeps R (Exec.worker f) := fun s => refl_of R s

theorem keeps_look (f : State → α) : Keeps R (Exec.look f) := fun s => refl_of R s

theorem keeps_ofExcept (x : Except ScriptError α) : Keeps R (Exec.ofExcept x) :=
  fun s => refl_of R s

theorem keeps_text (v : Value) : Keeps R (Exec.text v) := keeps_ask _

theorem keeps_kind (v : Value) : Keeps R (Exec.kind v) := keeps_ask _

theorem keeps_setWorker {f : Worker → Worker} (hf : ∀ w : Worker, w.Alike (f w)) :
    Keeps R (Exec.setWorker f) := fun s => hR.change (.worker (hf s.worker))

theorem keeps_tell (event : Event) : Keeps R (Exec.tell event) :=
  keeps_setWorker fun _ => ⟨rfl, rfl, rfl, rfl⟩

theorem keeps_readClock : Keeps R Exec.readClock :=
  fun _ => hR.change (.worker ⟨rfl, rfl, rfl, rfl⟩)

theorem keeps_modify (o : ObjectId) {f : Object → Object}
    (hf : ∀ object, (f object).payload = object.payload) : Keeps R (Exec.update (·.modify o f)) :=
  fun _ => hR.change (.modify o hf)

theorem keeps_define (o : ObjectId) (name : String) (v : Value) :
    Keeps R (Exec.update (·.define o name v)) := keeps_modify o fun _ => rfl

theorem keeps_assign (o : ObjectId) (name : String) (v : Value) :
    Keeps R (Exec.update (·.assign o name v)) := by
  intro s
  have hdefine : ∀ (s : State) (name : String) (v : Value),
      R s ⟨s.store.define o name v, s.worker⟩ := fun s name v => keeps_define o name v s
  change R s ⟨s.store.assign o name v, s.worker⟩
  unfold Store.assign
  split
  · split
    · split
      · exact trans_of R (hdefine s "length" _) (hdefine ⟨_, s.worker⟩ name v)
      · exact hdefine s name v
    · exact hdefine s name v
  · exact hdefine s name v

theorem keeps_assignByte (b : BufferId) (index : ℕ) (v : Value) :
    Keeps R (Exec.update (·.assignByte b index v)) := by
  intro s
  change R s ⟨s.store.assignByte b index v, s.worker⟩
  unfold Store.assignByte
  split
  · next buffer hset =>
    unfold Buffer.set? at hset
    split at hset
    · cases hset
      exact hR.change (.setBuffer b rfl)
    · cases hset
  · exact refl_of R s

theorem keeps_addObject {object : Object}
    (h : ∀ c, object.payload = .function (.closure c) → P c.body) :
    Keeps R (Exec.change (·.addObject object)) := fun _ => hR.change (.addObject h)

theorem keeps_addFunction {f : Callable} (h : ∀ c, f = .closure c → P c.body) :
    Keeps R (Exec.change (·.addFunction f)) := by
  intro s
  have hinstances : R s ⟨(s.store.addObject .plain).2, s.worker⟩ := keeps_addObject nofun s
  refine trans_of R hinstances (hR.change (.addObject ?_))
  rintro c ⟨⟩
  exact h c rfl

theorem keeps_addBuffer (buffer : Buffer) : Keeps R (Exec.change (·.addBuffer buffer)) :=
  fun _ => hR.change (.addBuffer buffer)

theorem keeps_addDomain (parent : Option DomainId) : Keeps R (Exec.change (·.addDomain parent)) :=
  fun _ => hR.change (.addDomain parent)

theorem keeps_freshObject {object : Object}
    (h : ∀ c, object.payload = .function (.closure c) → P c.body) : Keeps R (freshObject object) :=
  (keeps_addObject h).bind fun _ => keeps_pure _

theorem keeps_freshArray (values : List Value) :
    Keeps R (freshObject (.array values)) := keeps_freshObject nofun

end Exec

/-! ## Members -/

theorem keeps_thisDomain (this : Value) : Keeps R (thisDomain this) := by
  unfold thisDomain
  refine (keeps_ask _).bind fun d? => ?_
  cases d? with
  | some d => exact keeps_pure d
  | none => exact (keeps_kind _).bind fun _ => keeps_throw _

theorem keeps_optionalPayload {α : Type} (function : String) (index : ℕ) (expected : String)
    (payload? : Object → Option α) (v : Value) :
    Keeps R (optionalPayload function index expected payload? v) := by
  unfold optionalPayload
  split
  · exact keeps_pure _
  · refine (keeps_ask _).bind fun a? => ?_
    cases a? with
    | some a => exact keeps_pure _
    | none => exact (keeps_kind _).bind fun _ => keeps_throw _

theorem keeps_setMemory (d : DomainId) (b : Option BufferId) : Keeps R (Exec.setMemory d b) :=
  fun _ => hR.change (.setMemory d b)

theorem keeps_swapSlot (b : BufferId) (address : ℕ) (expected new : Int32) :
    Keeps R (Exec.swapSlot b address expected new) := by
  intro s
  change R s (Exec.swapSlot b address expected new s).2
  unfold Exec.swapSlot Buffer.compareAndSwap?
  rw [Exec.bind_ask]
  by_cases hslot : (s.store.buffer b).hasSlot address
  · simp only [hslot]
    refine hR.change (.setBuffer b ?_)
    split <;> rfl
  · simp only [hslot]
    exact refl_of R s

theorem keeps_compareAndSwap (d : DomainId) (address : ℕ) (expected new : Int32) :
    Keeps R (Exec.compareAndSwap d address expected new) := by
  unfold Exec.compareAndSwap
  refine (keeps_ask _).bind fun b? => ?_
  cases b? with
  | none => exact keeps_pure _
  | some b => exact keeps_swapSlot b address expected new

section Members

variable {e : Embedding} (he : e.Within R)
include he

theorem keeps_getter (this : Value) (g : Getter) : Keeps R (g.run e this) := by
  unfold Getter.run
  cases g with
  | domainMemory =>
    refine (keeps_thisDomain this).bind fun d => (keeps_ask _).bind fun b? => ?_
    cases b? with
    | some b => exact keeps_freshObject nofun
    | none => exact keeps_pure _
  | currentDomain proto => exact (keeps_worker _).bind fun _ => keeps_freshObject nofun
  | minimumMemory => exact keeps_pure _
  | memoryUse => exact keeps_pure _
  | swfVersion => exact (keeps_worker _).bind fun _ => keeps_pure _
  | arguments => exact (keeps_worker _).bind fun _ => keeps_freshObject nofun
  | embedded name => exact he.get name this

theorem keeps_setter (this v : Value) (setter : Setter) : Keeps R (setter.run e this v) := by
  unfold Setter.run
  cases setter with
  | domainMemory =>
    exact (keeps_optionalPayload _ _ _ _ _).bind fun _ => (keeps_thisDomain this).bind fun _ =>
      keeps_setMemory _ _
  | embedded name => exact he.set name this v

theorem keeps_getProperty (o : ObjectId) (name : String) : Keeps R (getProperty e o name) := by
  unfold getProperty
  refine (keeps_ask _).bind fun slot? => ?_
  cases slot? with
  | some v => exact keeps_pure v
  | none =>
    dsimp only
    split
    · exact (keeps_ask _).bind fun _ => keeps_pure _
    · refine (keeps_ask _).bind fun property? => ?_
      split
      · exact keeps_pure _
      · exact keeps_getter he _ _
      · exact keeps_pure _
      · exact keeps_pure _

theorem keeps_setProperty (o : ObjectId) (name : String) (v : Value) :
    Keeps R (setProperty e o name v) := by
  unfold setProperty
  refine (keeps_ask _).bind fun buffer? => ?_
  split
  · exact keeps_assignByte _ _ _
  · split
    · exact keeps_modify o fun _ => rfl
    · refine (keeps_ask _).bind fun property? => ?_
      split
      · exact keeps_setter he _ _ _
      · exact keeps_pure _
      · exact keeps_assign _ _ _
      · exact keeps_assign _ _ _

theorem keeps_getMember (target : Value) (name : String) : Keeps R (getMember e target name) := by
  unfold getMember
  split
  · exact keeps_getProperty he _ _
  · exact keeps_pure _
  · exact keeps_pure _

theorem keeps_setMember (target : Value) (name : String) (v : Value) :
    Keeps R (setMember e target name v) := by
  unfold setMember
  split
  · exact keeps_setProperty he _ _ _
  · exact keeps_pure _

/-! ## Variables -/

theorem keeps_getSimple (c : Context) (name : String) : Keeps R (getSimple e c name) := by
  unfold getSimple
  split
  · exact keeps_pure _
  · exact (keeps_worker _).bind fun _ => keeps_pure _
  · exact (keeps_look _).bind fun _ => keeps_pure _
  · exact (keeps_look _).bind fun _ => keeps_pure _
  · refine (keeps_ask _).bind fun o? => ?_
    cases o? with
    | some o => exact keeps_getProperty he _ _
    | none =>
      refine (keeps_worker _).bind fun global => (keeps_ask _).bind fun found => ?_
      split
      · exact keeps_getProperty he _ _
      · exact keeps_pure _

theorem keeps_getMembers (names : List String) : ∀ v, Keeps R (getMembers e v names) := by
  induction names with
  | nil => exact fun v => keeps_pure v
  | cons name names ih => exact fun v => (keeps_getMember he v name).bind fun _ => ih _

theorem keeps_getVariable (c : Context) (name : String) : Keeps R (getVariable e c name) := by
  unfold getVariable
  split
  · exact keeps_getSimple he _ _
  · exact (keeps_getSimple he _ _).bind fun _ => keeps_getMembers he _ _

theorem keeps_setVariable (c : Context) (name : String) (v : Value) :
    Keeps R (setVariable e c name v) := by
  unfold setVariable
  dsimp only
  split
  · exact (keeps_ask _).bind fun _ => keeps_setProperty he _ _ _
  · exact (keeps_getVariable he _ _).bind fun _ => keeps_setMember he _ _ _

theorem keeps_isInstance (v ctor : Value) : Keeps R (isInstance e v ctor) := by
  unfold isInstance
  split
  · refine (keeps_getProperty he _ _).bind fun p => ?_
    split
    · exact keeps_ask _
    · exact keeps_pure _
  · exact keeps_pure _

theorem keeps_classOf (frames : List Frame) (d : DomainId) (name : String) :
    Keeps R (Machine.classOf e frames d name) := by
  unfold Machine.classOf
  refine (keeps_worker _).bind fun outside => (keeps_ask _).bind fun v? => ?_
  cases v? with
  | some v => exact keeps_pure v
  | none =>
    refine (keeps_worker _).bind fun global => (keeps_ask _).bind fun found => ?_
    split
    · exact keeps_getProperty he _ _
    · exact keeps_throw _

end Members

/-! ## Host functions -/

theorem keeps_expect (function : String) (arity : Arity) (args : List Value) :
    Keeps R (Host.expect function arity args) := by
  unfold Host.expect
  split
  · exact keeps_pure _
  · exact keeps_throw _

theorem keeps_bufferArgument (function : String) (args : List Value) (i : ℕ) :
    Keeps R (Host.bufferArgument function args i) := by
  unfold Host.bufferArgument
  refine (keeps_optionalPayload _ _ _ _ _).bind fun b? => ?_
  split
  · exact keeps_pure _
  · exact keeps_throw _

theorem keeps_changeFiles (f : Files → Except ScriptError Files) :
    Keeps R (Host.File.change f) := by
  unfold Host.File.change
  exact (keeps_worker _).bind fun _ => (keeps_ofExcept _).bind fun _ =>
    keeps_setWorker fun _ => ⟨rfl, rfl, rfl, rfl⟩

theorem keeps_file (m : FileMethod) (args : List Value) : Keeps R (Host.File.call m args) := by
  unfold Host.File.call
  cases m with
  | fileExists =>
    exact (keeps_expect _ _ _).bind fun _ => (keeps_text _).bind fun _ =>
      (keeps_worker _).bind fun _ => keeps_pure _
  | read =>
    exact (keeps_expect _ _ _).bind fun _ => (keeps_text _).bind fun _ =>
      (keeps_worker _).bind fun _ => (keeps_ofExcept _).bind fun _ => keeps_pure _
  | write =>
    exact (keeps_expect _ _ _).bind fun _ => (keeps_text _).bind fun _ =>
      (keeps_text _).bind fun _ => (keeps_changeFiles _).bind fun _ => keeps_pure _
  | readByteArray =>
    exact (keeps_expect _ _ _).bind fun _ => (keeps_text _).bind fun _ =>
      (keeps_worker _).bind fun _ => (keeps_ofExcept _).bind fun _ =>
        (keeps_addBuffer _).bind fun _ => keeps_freshObject nofun
  | writeByteArray =>
    exact (keeps_expect _ _ _).bind fun _ => (keeps_text _).bind fun _ =>
      (keeps_bufferArgument _ _ _).bind fun _ => (keeps_ask _).bind fun _ =>
        (keeps_changeFiles _).bind fun _ => keeps_pure _

theorem keeps_system (m : SystemMethod) (args : List Value) :
    Keeps R (Host.SystemObject.call m args) := by
  unfold Host.SystemObject.call
  cases m with
  | getFeatures | idle | getVersion | isGlobal => exact keeps_pure _
  | getRunmode | isDebugger => exact (keeps_worker _).bind fun _ => keeps_pure _
  | exec => exact (keeps_expect _ _ _).bind fun _ => keeps_pure _
  | sleep =>
    refine (keeps_expect _ _ _).bind fun _ => (keeps_setWorker fun _ => ?_).bind fun _ =>
      keeps_pure _
    exact ⟨rfl, rfl, rfl, rfl⟩
  | trace =>
    exact ((keeps_mapM keeps_text args).bind fun _ => keeps_pure _).bind fun _ =>
      (keeps_tell _).bind fun _ => keeps_pure _
  | canonicalizeNumber => exact (keeps_expect _ _ _).bind fun _ => keeps_ask _

theorem keeps_loadPath (d : DomainId) (path : String) (version : UInt32) :
    Keeps R (Host.Domain.loadPath d path version) := by
  unfold Host.Domain.loadPath
  exact (keeps_worker _).bind fun _ => (keeps_ofExcept _).bind fun _ => keeps_pure _

theorem keeps_domain (m : DomainMethod) (this : Value) (args : List Value) :
    Keeps R (Host.Domain.call m this args) := by
  unfold Host.Domain.call
  cases m with
  | load =>
    exact (keeps_expect _ _ _).bind fun _ => (keeps_thisDomain _).bind fun _ =>
      (keeps_text _).bind fun _ => keeps_loadPath _ _ _
  | loadBytes =>
    exact (keeps_expect _ _ _).bind fun _ => (keeps_bufferArgument _ _ _).bind fun _ =>
      (keeps_ask _).bind fun _ => (keeps_thisDomain _).bind fun _ => keeps_pure _
  | getClass =>
    exact (keeps_expect _ _ _).bind fun _ => (keeps_thisDomain _).bind fun _ =>
      (keeps_text _).bind fun _ => keeps_pure _

theorem keeps_makeDomain (proto : ObjectId) (args : List Value) :
    Keeps R (Host.Domain.make proto args) := by
  unfold Host.Domain.make
  refine (keeps_expect _ _ _).bind fun _ => (keeps_optionalPayload _ _ _ _ _).bind fun d? => ?_
  cases d? with
  | none => exact (keeps_worker _).bind fun _ => keeps_freshObject nofun
  | some parent => exact (keeps_addDomain _).bind fun _ => keeps_freshObject nofun

theorem keeps_makeByteArray (args : List Value) : Keeps R (Host.makeByteArray args) := by
  unfold Host.makeByteArray
  exact (keeps_expect _ _ _).bind fun _ => (keeps_addBuffer _).bind fun _ =>
    keeps_freshObject nofun

theorem keeps_hostCompareAndSwap (args : List Value) : Keeps R (Host.compareAndSwap args) := by
  unfold Host.compareAndSwap
  exact (keeps_expect _ _ _).bind fun _ => (keeps_worker _).bind fun _ =>
    (keeps_compareAndSwap _ _ _ _).bind fun _ => keeps_pure _

theorem keeps_host {e : Embedding} (he : e.Within R) (this : Value) (args : List Value)
    (f : HostFunction) : Keeps R (f.run e this args) := by
  unfold HostFunction.run
  cases f with
  | file m => exact (keeps_file m args).bind fun _ => keeps_pure _
  | domain m => exact keeps_domain m this args
  | system m => exact (keeps_system m args).bind fun _ => keeps_pure _
  | domainClass proto => exact (keeps_makeDomain proto args).bind fun _ => keeps_pure _
  | byteArrayClass => exact (keeps_makeByteArray args).bind fun _ => keeps_pure _
  | compareAndSwap => exact (keeps_hostCompareAndSwap args).bind fun _ => keeps_pure _
  | embedded name => exact he.call name this args

/-! ## Calls of script functions -/

theorem keeps_bindParams (activation : ObjectId) (params : List RegisterParam) :
    ∀ args b, Keeps R (bindParams activation params args b) := by
  induction params with
  | nil => exact fun _ b => keeps_pure b
  | cons p params ih =>
    intro args b
    unfold bindParams
    split
    · exact ih _ _
    · exact (keeps_define _ _ _).bind fun _ => ih _ _

theorem keeps_preload {values : List (Exec Value)}
    (h : ∀ value ∈ values, Keeps R value) : ∀ r b, Keeps R (preload values r b) := by
  induction values with
  | nil => exact fun _ b => keeps_pure b
  | cons value values ih =>
    have hrest := ih fun v hv => h v (List.mem_cons_of_mem value hv)
    intro r b
    unfold preload
    split
    · exact hrest _ _
    · exact (h value List.mem_cons_self).bind fun _ => hrest _ _

theorem keeps_preloads (e : Embedding) (flags : PreloadFlags) (this : Value) (args : List Value) :
    ∀ x ∈ preloads e flags this args, Keeps R x.2 := by
  unfold preloads
  simp only [List.forall_mem_cons]
  exact ⟨keeps_pure _, keeps_freshArray _, keeps_ask _,
    (keeps_look _).bind fun _ => keeps_pure _, (keeps_look _).bind fun _ => keeps_pure _,
    (keeps_worker _).bind fun _ => keeps_pure _, nofun⟩

theorem keeps_bindNames (flags : PreloadFlags) (activation : ObjectId) (this : Value)
    (args : List Value) : Keeps R (bindNames flags activation this args) := by
  -- the tests one after the other, the last first
  have hsuper : ∀ b : Bool, Keeps R (if b then do
      let v ← Exec.ask (superOf · this)
      Exec.update (·.define activation "super" v)
    else pure ()) := fun b => by
    split
    · exact (keeps_ask _).bind fun _ => keeps_define _ _ _
    · exact keeps_pure _
  have harguments : ∀ (b : Bool) (rest : Exec Unit), Keeps R rest →
      Keeps R (if b then do
        let v ← argumentsArray args
        Exec.update (·.define activation "arguments" v)
        rest
      else rest) := fun b rest hrest => by
    split
    · exact (keeps_freshArray _).bind fun _ => (keeps_define _ _ _).bind fun _ => hrest
    · exact hrest
  unfold bindNames
  dsimp only
  split
  · exact (keeps_define _ _ _).bind fun _ => harguments _ _ (hsuper _)
  · exact harguments _ _ (hsuper _)

theorem keeps_bindSimple (activation : ObjectId) (params : List String) :
    ∀ args, Keeps R (bindSimple activation params args) := by
  induction params with
  | nil => exact fun _ => keeps_pure _
  | cons name params ih => exact fun args => (keeps_define _ _ _).bind fun _ => ih _

theorem keeps_openCall (e : Embedding) (c : Closure) (this : Value) (args : List Value) :
    Keeps R (openCall e c this args) := by
  unfold openCall
  refine (keeps_addObject nofun).bind fun activation => ?_
  dsimp only
  split
  · exact (keeps_bindSimple _ _ _).bind fun _ => (keeps_define _ _ _).bind fun _ =>
      (keeps_freshArray _).bind fun _ => (keeps_define _ _ _).bind fun _ => keeps_pure _
  · refine (keeps_bindParams _ _ _ _).bind fun b => (keeps_preload ?_ _ _).bind fun _ =>
      (keeps_bindNames _ _ _ _).bind fun _ => keeps_pure _
    intro value hvalue
    rw [List.mem_filterMap] at hvalue
    obtain ⟨⟨on, v⟩, hmem, hv⟩ := hvalue
    dsimp only at hv
    split at hv
    · cases hv
      exact keeps_preloads _ _ _ _ _ hmem
    · cases hv

/-! ## Actions -/

/-- The states are related, whatever becomes of the context. -/
def Act.Within (R : State → State → Prop) (p q : Context × State) : Prop := R p.2 q.2

instance : IsPreorder (Context × State) (Act.Within R) where
  refl p := refl_of R p.2
  trans _ _ _ h h' := trans_of R h h'

section Act

open Act

variable {α : Type}

omit hR in
theorem Keeps.exec {x : Exec α} (hx : Keeps R x) : Keeps (Act.Within R) (exec x) := fun p => hx p.2

theorem keeps_context (f : Context → α) : Keeps (Act.Within R) (context f) :=
  fun p => refl_of (Act.Within R) p

theorem keeps_setContext (f : Context → Context) : Keeps (Act.Within R) (setContext f) :=
  fun p => refl_of R p.2

theorem keeps_push (v : Value) : Keeps (Act.Within R) (push v) := keeps_setContext _

theorem keeps_pop : Keeps (Act.Within R) pop := fun p => refl_of R p.2

theorem keeps_popText : Keeps (Act.Within R) popText :=
  keeps_pop.bind fun _ => (keeps_text _).exec

theorem keeps_popNumber : Keeps (Act.Within R) popNumber :=
  keeps_pop.bind fun _ => keeps_pure _

theorem keeps_popBoolean : Keeps (Act.Within R) popBoolean :=
  keeps_pop.bind fun _ => keeps_pure _

theorem keeps_popArguments : Keeps (Act.Within R) popArguments :=
  keeps_pop.bind fun _ => (keeps_context _).bind fun _ => (keeps_setContext _).bind fun _ =>
    keeps_pure _

theorem keeps_popEntries : Keeps (Act.Within R) popEntries :=
  keeps_pop.bind fun _ => (keeps_context _).bind fun _ => (keeps_setContext _).bind fun _ =>
    keeps_pure _

theorem keeps_numbers (f : Float → Float → Float) : Keeps (Act.Within R) (numbers f) :=
  keeps_popNumber.bind fun _ => keeps_popNumber.bind fun _ => keeps_push _

theorem keeps_integers (f : Int32 → Int32 → Int32) : Keeps (Act.Within R) (integers f) :=
  keeps_pop.bind fun _ => keeps_pop.bind fun _ => keeps_push _

theorem keeps_compare (f : Value → Value → Bool) : Keeps (Act.Within R) (compare f) :=
  keeps_pop.bind fun _ => keeps_pop.bind fun _ => keeps_push _

theorem keeps_compareTexts (f : String → String → Bool) : Keeps (Act.Within R) (compareTexts f) :=
  keeps_popText.bind fun _ => keeps_popText.bind fun _ => keeps_push _

theorem keeps_joinTexts (a b : Value) : Keeps (Act.Within R) (joinTexts a b) :=
  (keeps_text _).exec.bind fun _ => (keeps_text _).exec.bind fun _ => keeps_push _

theorem keeps_methodName (v : Value) : Keeps (Act.Within R) (methodName v) := by
  unfold methodName
  split
  · exact keeps_pure _
  · exact (keeps_text _).exec.bind fun _ => keeps_pure _

theorem keeps_pushNames (v : Value) : Keeps (Act.Within R) (pushNames v) := by
  refine (keeps_push _).bind fun _ => ?_
  split
  · exact (keeps_ask _).exec.bind fun _ =>
      (keeps_forIn _ _ fun _ _ => (keeps_push _).bind fun _ => keeps_pure _).bind fun _ =>
        keeps_pure _
  · exact keeps_pure _

theorem keeps_callOr (callee this : Value) (args operands : List Value) :
    Keeps (Act.Within R) (callOr callee this args operands) := by
  refine (keeps_ask _).exec.bind fun _ => ?_
  split
  · exact keeps_pure _
  · exact (keeps_push _).bind fun _ => keeps_pure _

theorem keeps_construct {e : Embedding} (he : e.Within R) (ctor : Value)
    (args operands : List Value) : Keeps (Act.Within R) (construct e ctor args operands) := by
  refine (keeps_ask _).exec.bind fun _ => ?_
  split
  · exact (keeps_getProperty he _ _).exec.bind fun _ => (keeps_addObject nofun).exec.bind fun _ =>
      keeps_pure _
  · exact (keeps_push _).bind fun _ => keeps_pure _

theorem keeps_bindFunction (name : String) (kind : ClosureKind) {body : Block} (hb : P body) :
    Keeps (Act.Within R) (bindFunction name kind body) := by
  refine (keeps_context _).bind fun scope => (keeps_context _).bind fun constants =>
    (keeps_addFunction ?_).exec.bind fun f => ?_
  · rintro _ ⟨⟩
    exact hb
  · split
    · exact (keeps_context _).bind fun _ => (keeps_define _ _ _).exec.bind fun _ => keeps_pure _
    · exact (keeps_push _).bind fun _ => keeps_pure _

theorem keeps_extendClass {e : Embedding} (he : e.Within R) (subclass superclass : Value) :
    Keeps R (extendClass e subclass superclass) := by
  unfold extendClass
  split
  · exact (keeps_getProperty he _ _).bind fun _ => (keeps_addObject nofun).bind fun _ =>
      (keeps_define _ _ _).bind fun _ => keeps_setProperty he _ _ _
  · exact keeps_pure _

theorem keeps_implement {e : Embedding} (he : e.Within R) (ctor : Value)
    (interfaces : List ObjectId) : Keeps R (implement e ctor interfaces) := by
  unfold implement
  split
  · refine (keeps_getProperty he _ _).bind fun _ => ?_
    split
    · exact keeps_modify _ fun _ => rfl
    · exact keeps_pure _
  · exact keeps_pure _

theorem keeps_gotoFrame (play : Bool) (sceneBias : UInt16) (frame : Value) :
    Keeps R (gotoFrame play sceneBias frame) := by
  unfold gotoFrame
  dsimp only
  split
  · split
    · exact keeps_tell _
    · exact keeps_tell _
  · exact keeps_tell _

theorem keeps_initObject : Keeps R (Exec.change (·.addObject .plain)) :=
  keeps_addObject nofun

theorem keeps_deleteVariable (scope : Scope) (name : String) :
    Keeps R (Exec.change (deleteVariable · scope name)) := by
  intro s
  change R s ⟨(deleteVariable s.store scope name).2, s.worker⟩
  unfold deleteVariable
  split
  · exact hR.change (.modify _ fun _ => rfl)
  · exact refl_of R s

theorem keeps_deleteMember (o : ObjectId) (name : String) :
    Keeps R (Exec.change (deleteMember · o name)) :=
  fun _ => hR.change (.modify o fun _ => rfl)

theorem keeps_assignClip (target : String) (index : UInt32) (v : Value) :
    Keeps R (Exec.setWorker fun w =>
      { w with stage := w.stage.setProperty target index v }) :=
  keeps_setWorker fun _ => ⟨rfl, rfl, rfl, rfl⟩

/-- **Actions without operands of their own** leave calls and domains alone. -/
theorem keeps_performOp {e : Embedding} (he : e.Within R) (o : Op) :
    Keeps (Act.Within R) (performOp e o) := by
  cases o
  all_goals
    simp only [performOp]
    -- each is a chain of the parts above, with a case distinction here and there
    repeat' with_reducible first
      | refine Keeps.bind ?_ fun _ => ?_
      | exact keeps_pure _
      | exact keeps_throw _
      | exact keeps_pop
      | exact keeps_popText
      | exact keeps_popNumber
      | exact keeps_popBoolean
      | exact keeps_popArguments
      | exact keeps_popEntries
      | exact keeps_push _
      | exact keeps_context _
      | exact keeps_setContext _
      | exact keeps_numbers _
      | exact keeps_integers _
      | exact keeps_compare _
      | exact keeps_compareTexts _
      | exact keeps_joinTexts _ _
      | exact keeps_methodName _
      | exact keeps_pushNames _
      | exact keeps_callOr _ _ _ _
      | exact keeps_construct he _ _ _
      | exact (keeps_ask _).exec
      | exact (keeps_look _).exec
      | exact keeps_readClock.exec
      | exact (keeps_text _).exec
      | exact (keeps_kind _).exec
      | exact (keeps_tell _).exec
      | exact (keeps_define _ _ _).exec
      | exact (keeps_getVariable he _ _).exec
      | exact (keeps_setVariable he _ _ _).exec
      | exact (keeps_getMember he _ _).exec
      | exact (keeps_setMember he _ _ _).exec
      | exact (keeps_isInstance he _ _).exec
      | exact (keeps_implement he _ _).exec
      | exact (keeps_extendClass he _ _).exec
      | exact keeps_initObject.exec
      | exact (keeps_freshArray _).exec
      | exact (keeps_deleteVariable _ _).exec
      | exact (keeps_deleteMember _ _).exec
      | exact (keeps_assignClip _ _ _).exec
      | exact keeps_forIn _ _ fun _ _ => (keeps_text _).exec.bind fun _ =>
          (keeps_define _ _ _).exec.bind fun _ => keeps_pure _
      | split

/-- The functions that an action defines have bodies with the property. -/
def Action.DefinesIn (P : Block → Prop) : Action → Prop
  | .defineFunction _ _ body => P body
  | .defineFunction2 _ _ _ _ body => P body
  | _ => True

/-- **An action** leaves calls and domains alone, and defines functions only with the bodies that it
carries. -/
theorem keeps_perform {e : Embedding} (he : e.Within R) {a : Action} (ha : a.DefinesIn P) :
    Keeps (Act.Within R) (perform e a) := by
  cases a with
  | op o => exact keeps_performOp he o
  | gotoFrame frame => exact (keeps_tell _).exec.bind fun _ => keeps_pure _
  | gotoFrame2 play sceneBias =>
    exact keeps_pop.bind fun _ => (keeps_gotoFrame _ _ _).exec.bind fun _ => keeps_pure _
  | goToLabel label => exact (keeps_tell _).exec.bind fun _ => keeps_pure _
  | getUrl url target => exact (keeps_tell _).exec.bind fun _ => keeps_pure _
  | getUrl2 flags =>
    exact keeps_popText.bind fun _ => keeps_popText.bind fun _ =>
      (keeps_tell _).exec.bind fun _ => keeps_pure _
  | push _ | storeRegister _ | constantPool _ | jump _ =>
    exact (keeps_setContext _).bind fun _ => keeps_pure _
  | branchIf offset =>
    unfold perform
    refine keeps_popBoolean.bind fun taken => ?_
    cases taken with
    | true => exact (keeps_setContext _).bind fun _ => keeps_pure _
    | false => exact keeps_pure _
  | withObject body =>
    unfold perform
    refine keeps_pop.bind fun v => ?_
    split
    · exact keeps_pure _
    · exact keeps_pure _
  | defineFunction name params body => exact keeps_bindFunction _ _ ha
  | defineFunction2 name count flags params body => exact keeps_bindFunction _ _ ha
  | notImplemented code length => exact keeps_pure _

end Act

end ActionVm
