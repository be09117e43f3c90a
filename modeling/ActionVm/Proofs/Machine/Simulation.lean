import ActionVm.Proofs.Store.Lookups

/-!
# Simulation

Two computations simulate each other if from states that correspond they come to states that do so
as well, with answers that match. New things get names on the way.

* `Context.Matches`, `Worker.Matches`, `ScriptError.Matches`: what a computation works on besides
  the store;
* `Setting.Relates`, `Setting.Runs`: states that correspond, alone or with a context;
* `Simulates`, and `Mirrors` where no new names are needed, with `Mirrors.bind`, `Simulates.bind`;
* `mirrors_ask`, `mirrors_update`, `simulates_addObject` and the like: what is done at once.
-/

namespace ActionVm

open List (Forall₂ forall₂_same)

variable {η η' : Naming}

/-! ## Workers and contexts -/

/-- Stages that differ in nothing but the objects that they hold. -/
structure Stage.Matches (η : Naming) (s s' : Stage) : Prop where
  root : Option.Rel η.object s.root s'.root
  parent : Option.Rel η.object s.parent s'.parent
  keepsProperties : s.keepsProperties = s'.keepsProperties
  properties : Forall₂ (fun x x' => x.1 = x'.1 ∧ x.2.Matches η x'.2) s.properties s'.properties
  events : s.events = s'.events

/-- Workers that differ in nothing but the things that they hold. What the embedding program holds
on to does not count. -/
structure Worker.Matches (η : Naming) (w w' : Worker) : Prop where
  config : w.config = w'.config
  global : η.object w.global w'.global
  rootDomain : η.domain w.rootDomain w'.rootDomain
  activeDomain : η.domain w.activeDomain w'.activeDomain
  callDepth : w.callDepth = w'.callDepth
  stage : w.stage.Matches η w'.stage
  loader : w.loader = w'.loader
  clock : w.clock = w'.clock
  files : w.files = w'.files
  settings : w.settings = w'.settings

/-- Contexts that differ in nothing but the things that they hold. -/
structure Context.Matches (η : Naming) (c c' : Context) : Prop where
  registers : Forall₂ (Value.Matches η) c.registers.toList c'.registers.toList
  stack : Forall₂ (Value.Matches η) c.stack c'.stack
  pendingJump : c.pendingJump = c'.pendingJump
  returned : Option.Rel (Value.Matches η) c.returned c'.returned
  this : c.this.Matches η c'.this
  scope : c.scope.Matches η c'.scope
  constants : c.constants = c'.constants
  activation : Option.Rel η.object c.activation c'.activation

/-- Errors that differ in nothing but the value that is thrown. -/
inductive ScriptError.Matches (η : Naming) : ScriptError → ScriptError → Prop where
  | same {e : ScriptError} : (∀ v, e ≠ .thrown v) → Matches η e e
  | thrown {v v' : Value} : v.Matches η v' → Matches η (.thrown v) (.thrown v')

section Mono

variable (hle : η.Le η')
include hle

theorem forall₂_matches_mono {l l' : List Value} (h : Forall₂ (Value.Matches η) l l') :
    Forall₂ (Value.Matches η') l l' := List.Forall₂.imp (fun _ _ hv => hv.mono hle) h

theorem Stage.Matches.mono {s s' : Stage} (h : s.Matches η s') : s.Matches η' s' where
  root := h.root.imp fun _ _ => hle.object
  parent := h.parent.imp fun _ _ => hle.object
  keepsProperties := h.keepsProperties
  properties := List.Forall₂.imp (fun _ _ hx => ⟨hx.1, hx.2.mono hle⟩) h.properties
  events := h.events

theorem Worker.Matches.mono {w w' : Worker} (h : w.Matches η w') : w.Matches η' w' :=
  { h with
    global := hle.object h.global
    rootDomain := hle.domain h.rootDomain
    activeDomain := hle.domain h.activeDomain
    stage := h.stage.mono hle }

theorem Context.Matches.mono {c c' : Context} (h : c.Matches η c') : c.Matches η' c' where
  registers := forall₂_matches_mono hle h.registers
  stack := forall₂_matches_mono hle h.stack
  pendingJump := h.pendingJump
  returned := h.returned.imp fun _ _ hv => hv.mono hle
  this := h.this.mono hle
  scope := h.scope.mono hle
  constants := h.constants
  activation := h.activation.imp fun _ _ => hle.object

theorem ScriptError.Matches.mono {e e' : ScriptError} (h : e.Matches η e') : e.Matches η' e' := by
  cases h with
  | same h => exact .same h
  | thrown h => exact .thrown (h.mono hle)

end Mono

namespace Scope.Matches

variable {s s' : Scope} (h : s.Matches η s')
include h

theorem push {o o' : ObjectId} (ho : η.object o o') : (s.push o).Matches η (s'.push o') :=
  ⟨h.base, .cons ho h.inner⟩

theorem pop : s.pop.Matches η s'.pop := ⟨h.base, h.inner.tail⟩

end Scope.Matches

namespace Context.Matches

variable {c c' : Context} {v v' : Value}

theorem start {s s' : Scope} (hs : s.Matches η s') (hv : v.Matches η v') :
    (Context.start s v).Matches η (Context.start s' v') where
  registers := forall₂_same.mpr fun v hv => by
    rw [Context.start, Vector.toList_replicate, List.mem_replicate] at hv
    exact hv.2 ▸ .same rfl
  stack := .nil
  pendingJump := rfl
  returned := .none
  this := hv
  scope := hs
  constants := rfl
  activation := .none

variable (h : c.Matches η c')
include h

theorem register (r : ℕ) : (c.register r).Matches η (c'.register r) := by
  rw [Context.register, Context.register, ← Vector.getElem?_toList, ← Vector.getElem?_toList,
    ← List.getD_eq_getElem?_getD, ← List.getD_eq_getElem?_getD]
  exact h.registers.getD (.same rfl) r

theorem setRegister? (r : ℕ) (hv : v.Matches η v') :
    Option.Rel (Context.Matches η) (c.setRegister? r v) (c'.setRegister? r v') := by
  rw [Context.setRegister?, Context.setRegister?]
  split
  · refine .some { h with registers := ?_ }
    rw [Vector.toList_setIfInBounds, Vector.toList_setIfInBounds]
    exact h.registers.set hv r
  · exact .none

theorem setRegister (r : ℕ) (hv : v.Matches η v') :
    (c.setRegister r v).Matches η (c'.setRegister r v') := (h.setRegister? r hv).getD h

theorem push (hv : v.Matches η v') : (c.push v).Matches η (c'.push v') :=
  { h with stack := .cons hv h.stack }

theorem pop : c.pop.Matches η c'.pop := { h with stack := h.stack.tail }

theorem popMany (n : ℕ) : (c.popMany n).Matches η (c'.popMany n) :=
  { h with stack := List.forall₂_drop n h.stack }

theorem peek : c.peek.Matches η c'.peek := h.stack.headD (.same rfl)

theorem locals : η.object c.locals c'.locals := h.activation.getD h.scope.base

end Context.Matches

/-- An error, if there is one, is no value that a script throws. -/
def NeverThrows {α : Type} (x : Except ScriptError α) : Prop := ∀ v, x ≠ .error (.thrown v)

theorem NeverThrows.bind {α β : Type} {x : Except ScriptError α} {f : α → Except ScriptError β}
    (hx : NeverThrows x) (hf : ∀ a, NeverThrows (f a)) : NeverThrows (x >>= f) := by
  cases x with
  | ok a => exact hf a
  | error e => exact fun v h => hx v (congrArg _ (Except.error.inj h))

/-- Both fail with errors that match, or both succeed with answers that are related. -/
inductive Naming.Agree {α : Type} (η : Naming) (R : Naming → α → α → Prop) :
    Except ScriptError α → Except ScriptError α → Prop where
  | ok {a a' : α} : R η a a' → η.Agree R (.ok a) (.ok a')
  | error {e e' : ScriptError} : e.Matches η e' → η.Agree R (.error e) (.error e')

/-- The answers are the same. -/
abbrev Same {α : Type} (_ : Naming) (a a' : α) : Prop := a = a'

/-! ## Computations in general -/

section Simulates

variable {σ α β γ : Type} {C : Naming → σ → σ → Prop} {R : Naming → α → α → Prop}
  {S : Naming → β → β → Prop} {x x' : ExceptT ScriptError (StateM σ) α}
  {f f' : α → ExceptT ScriptError (StateM σ) β}

/-- From states that correspond the computations come to states that do so as well, with answers
that match. -/
def Mirrors (C : Naming → σ → σ → Prop) (R : Naming → α → α → Prop) (η : Naming)
    (x x' : ExceptT ScriptError (StateM σ) α) : Prop :=
  ∀ s s', C η s s' → C η (x.run.run s).2 (x'.run.run s').2 ∧
    η.Agree R (x.run.run s).1 (x'.run.run s').1

/-- The same with names for new things. -/
def Simulates (C : Naming → σ → σ → Prop) (R : Naming → α → α → Prop) (η : Naming)
    (x x' : ExceptT ScriptError (StateM σ) α) : Prop :=
  ∀ s s', C η s s' → ∃ η', η.Le η' ∧ C η' (x.run.run s).2 (x'.run.run s').2 ∧
    η'.Agree R (x.run.run s).1 (x'.run.run s').1

theorem Mirrors.simulates (h : Mirrors C R η x x') : Simulates C R η x x' := fun s s' hs =>
  ⟨η, .refl η, h s s' hs⟩

theorem mirrors_pure {a a' : α} (ha : R η a a') : Mirrors C R η (pure a) (pure a') :=
  fun _ _ hs => ⟨hs, .ok ha⟩

theorem mirrors_throw {e e' : ScriptError} (he : e.Matches η e') :
    Mirrors C R η (throw e) (throw e') := fun _ _ hs => ⟨hs, .error he⟩

theorem Simulates.bind (hx : Simulates C R η x x')
    (hf : ∀ η', η.Le η' → ∀ a a', R η' a a' → Simulates C S η' (f a) (f' a')) :
    Simulates C S η (x >>= f) (x' >>= f') := by
  intro s s' hs
  obtain ⟨η', hle, hs', hagree⟩ := hx s s' hs
  rw [ExceptT.run_bind, StateT.run_bind, ExceptT.run_bind, StateT.run_bind]
  revert hs' hagree
  generalize x.run.run s = r
  generalize x'.run.run s' = r'
  obtain ⟨r, t⟩ := r
  obtain ⟨r', t'⟩ := r'
  rintro hs' (ha | he)
  · obtain ⟨η'', hle', h⟩ := hf η' hle _ _ ha t t' hs'
    exact ⟨η'', hle.trans hle', h⟩
  · exact ⟨η', hle, hs', .error he⟩

theorem Mirrors.bind (hx : Mirrors C R η x x')
    (hf : ∀ a a', R η a a' → Simulates C S η (f a) (f' a')) :
    Simulates C S η (x >>= f) (x' >>= f') := by
  intro s s' hs
  obtain ⟨hs', hagree⟩ := hx s s' hs
  rw [ExceptT.run_bind, StateT.run_bind, ExceptT.run_bind, StateT.run_bind]
  revert hs' hagree
  generalize x.run.run s = r
  generalize x'.run.run s' = r'
  obtain ⟨r, t⟩ := r
  obtain ⟨r', t'⟩ := r'
  rintro hs' (ha | he)
  · exact hf _ _ ha t t' hs'
  · exact ⟨η, .refl η, hs', .error he⟩

/-- A chain of computations that need no new names. -/
theorem Mirrors.chain (hx : Mirrors C R η x x')
    (hf : ∀ a a', R η a a' → Mirrors C S η (f a) (f' a')) :
    Mirrors C S η (x >>= f) (x' >>= f') := by
  intro s s' hs
  obtain ⟨hs', hagree⟩ := hx s s' hs
  rw [ExceptT.run_bind, StateT.run_bind, ExceptT.run_bind, StateT.run_bind]
  revert hs' hagree
  generalize x.run.run s = r
  generalize x'.run.run s' = r'
  obtain ⟨r, t⟩ := r
  obtain ⟨r', t'⟩ := r'
  rintro hs' (ha | he)
  · exact hf _ _ ha t t' hs'
  · exact ⟨hs', .error he⟩

theorem Mirrors.bindSame (hx : Mirrors C Same η x x')
    (hf : ∀ a, Simulates C S η (f a) (f' a)) : Simulates C S η (x >>= f) (x' >>= f') :=
  hx.bind fun a _ ha => ha ▸ hf a

theorem Mirrors.chainSame (hx : Mirrors C Same η x x')
    (hf : ∀ a, Mirrors C S η (f a) (f' a)) : Mirrors C S η (x >>= f) (x' >>= f') :=
  hx.chain fun a _ ha => ha ▸ hf a

end Simulates

/-! ## States -/

/-- The states correspond: their stores do, their workers match, and the embedding program holds
what it held at the start. -/
structure Setting.Relates (Γ : Setting) (η : Naming) (s s' : State) : Prop where
  store : Γ.Corresponds η s.store s'.store
  worker : s.worker.Matches η s'.worker
  kept : s.worker.kept = Γ.kept ∧ s'.worker.kept = Γ.kept

/-- The states correspond, and the contexts match. -/
structure Setting.Runs (Γ : Setting) (η : Naming) (p p' : Context × State) : Prop where
  context : p.1.Matches η p'.1
  state : Γ.Relates η p.2 p'.2

section Exec

variable {Γ : Setting} {α : Type} {R : Naming → α → α → Prop}

theorem mirrors_ask {f f' : Store → α}
    (h : ∀ s s', Γ.Corresponds η s s' → R η (f s) (f' s')) :
    Mirrors Γ.Relates R η (Exec.ask f) (Exec.ask f') := fun s s' hs =>
  ⟨hs, .ok (h s.store s'.store hs.store)⟩

theorem mirrors_worker {f f' : Worker → α}
    (h : ∀ w w' : Worker, w.Matches η w' → R η (f w) (f' w')) :
    Mirrors Γ.Relates R η (Exec.worker f) (Exec.worker f') := fun s s' hs =>
  ⟨hs, .ok (h s.worker s'.worker hs.worker)⟩

theorem mirrors_look {f f' : State → α} (h : ∀ s s', Γ.Relates η s s' → R η (f s) (f' s')) :
    Mirrors Γ.Relates R η (Exec.look f) (Exec.look f') := fun s s' hs => ⟨hs, .ok (h s s' hs)⟩

theorem mirrors_change {f f' : Store → α × Store} (h : ∀ s s', Γ.Corresponds η s s' →
      Γ.Corresponds η (f s).2 (f' s').2 ∧ R η (f s).1 (f' s').1) :
    Mirrors Γ.Relates R η (Exec.change f) (Exec.change f') := fun _ _ hs =>
  ⟨⟨(h _ _ hs.store).1, hs.worker, hs.kept⟩, .ok (h _ _ hs.store).2⟩

theorem mirrors_update {f f' : Store → Store}
    (h : ∀ s s', Γ.Corresponds η s s' → Γ.Corresponds η (f s) (f' s')) :
    Mirrors Γ.Relates Same η (Exec.update f) (Exec.update f') := fun _ _ hs =>
  ⟨⟨h _ _ hs.store, hs.worker, hs.kept⟩, .ok rfl⟩

theorem mirrors_readClock : Mirrors Γ.Relates Same η Exec.readClock Exec.readClock :=
  fun _ _ hs => ⟨⟨hs.store, { hs.worker with
    clock := congrArg (fun clock n => clock (n + 1)) hs.worker.clock }, hs.kept⟩,
      .ok (congrFun hs.worker.clock 0)⟩

theorem mirrors_setWorker {f f' : Worker → Worker}
    (h : ∀ w w' : Worker, w.Matches η w' → (f w).Matches η (f' w'))
    (hkept : ∀ w, (f w).kept = w.kept ∧ (f' w).kept = w.kept) :
    Mirrors Γ.Relates Same η (Exec.setWorker f) (Exec.setWorker f') := fun _ _ hs =>
  ⟨⟨hs.store, h _ _ hs.worker, (hkept _).1.trans hs.kept.1, (hkept _).2.trans hs.kept.2⟩, .ok rfl⟩

theorem mirrors_ofExcept {x : Except ScriptError α} (h : NeverThrows x) :
    Mirrors Γ.Relates Same η (Exec.ofExcept x) (Exec.ofExcept x) := fun _ _ hs => by
  refine ⟨hs, ?_⟩
  change η.Agree Same x x
  cases x with
  | ok a => exact .ok rfl
  | error e => exact .error (.same fun v hv => h v (hv ▸ rfl))

theorem mirrors_tell (event : Event) :
    Mirrors Γ.Relates Same η (Exec.tell event) (Exec.tell event) :=
  mirrors_setWorker (fun _ _ hw =>
    { hw with
      stage :=
        { hw.stage with events := congrArg (event :: ·) hw.stage.events } }) fun _ => ⟨rfl, rfl⟩

variable {v v' : Value}

theorem mirrors_text (hv : v.Matches η v') :
    Mirrors Γ.Relates Same η (Exec.text v) (Exec.text v') :=
  mirrors_ask fun _ _ hs => hs.text_eq hv

theorem mirrors_kind (hv : v.Matches η v') :
    Mirrors Γ.Relates Same η (Exec.kind v) (Exec.kind v') :=
  mirrors_ask fun _ _ hs => hs.kind_eq hv

variable {o o' : ObjectId}

theorem mirrors_define (ho : η.object o o') (name : String) (hv : v.Matches η v') :
    Mirrors Γ.Relates Same η (Exec.update (·.define o name v))
      (Exec.update (·.define o' name v')) :=
  mirrors_update fun _ _ hs => hs.modify ho fun _ _ hx => hx.define name hv

theorem simulates_addObject {x x' : Object} (hx : x.Matches η x') :
    Simulates Γ.Relates Naming.object η (Exec.change (·.addObject x))
      (Exec.change (·.addObject x')) := fun _ _ hs =>
  ⟨_, Naming.le_withObject _ _,
    ⟨hs.store.addObject hx, hs.worker.mono (Naming.le_withObject _ _), hs.kept⟩,
    .ok (Or.inr ⟨rfl, rfl⟩)⟩

theorem simulates_addBuffer (b : Buffer) :
    Simulates Γ.Relates Naming.buffer η (Exec.change (·.addBuffer b))
      (Exec.change (·.addBuffer b)) := fun _ _ hs =>
  ⟨_, Naming.le_withBuffer _ _,
    ⟨hs.store.addBuffer b, hs.worker.mono (Naming.le_withBuffer _ _), hs.kept⟩,
    .ok (Or.inr ⟨rfl, rfl⟩)⟩

theorem simulates_addDomain {d d' : DomainId} (hd : η.domain d d') :
    Simulates Γ.Relates Naming.domain η (Exec.change (·.addDomain (some d)))
      (Exec.change (·.addDomain (some d'))) := fun _ _ hs =>
  ⟨_, Naming.le_withDomain _ _,
    ⟨hs.store.addDomain hd, hs.worker.mono (Naming.le_withDomain _ _), hs.kept⟩,
    .ok (Or.inr ⟨rfl, rfl⟩)⟩

theorem simulates_addFunction {c c' : Callable} (hc : c.Matches η c') :
    Simulates Γ.Relates Naming.object η (Exec.change (·.addFunction c))
      (Exec.change (·.addFunction c')) := by
  intro s s' hs
  obtain ⟨η₁, hle, hs₁, hinstances⟩ := simulates_addObject Object.matches_plain s s' hs
  cases hinstances with
  | ok hinstances =>
    obtain ⟨η₂, hle', h⟩ :=
      simulates_addObject (Object.matches_function (hc.mono hle) hinstances) _ _ hs₁
    exact ⟨η₂, hle.trans hle', h⟩

theorem simulates_freshObject {x x' : Object} (hx : x.Matches η x') :
    Simulates Γ.Relates Value.Matches η (freshObject x) (freshObject x') :=
  (simulates_addObject hx).bind fun _ _ _ _ ho => (mirrors_pure (.object ho)).simulates

theorem simulates_freshArray {values values' : List Value}
    (h : Forall₂ (Value.Matches η) values values') :
    Simulates Γ.Relates Value.Matches η (freshObject (.array values))
      (freshObject (.array values')) := simulates_freshObject (Object.matches_array h)

end Exec

end ActionVm
