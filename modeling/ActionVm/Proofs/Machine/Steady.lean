import ActionVm.Proofs.Machine.Changes
import ActionVm.Proofs.Store.Entries
import Mathlib.Tactic.SplitIfs

/-!
# What scripts leave alone in a worker

Whatever an action or a function of the host does with the state, the depth of calls and the active
domain are not its business. Nor does it make script functions out of nothing.

* `Store.HasBodies`: the bodies of all script functions have a property;
* **`State.Steady`**: the settings, the depth of calls and the active domain stay as they are, and
  bodies keep their property;
* `Embedding.Steady`: the embedding program leaves them alone as well.
-/

namespace ActionVm

/-! ## Bodies of script functions -/

namespace Store

variable {P : Block → Prop} {s : Store}

/-- The bodies of all script functions have the property. -/
def HasBodies (P : Block → Prop) (s : Store) : Prop :=
  ∀ o c, (s.object o).payload = .function (.closure c) → P c.body

theorem HasBodies.of_objects_eq {s' : Store} (h : s.HasBodies P) (hs : s'.objects = s.objects) :
    s'.HasBodies P := by
  intro o c
  rw [object, hs]
  exact h o c

theorem HasBodies.modify (h : s.HasBodies P) (o : ObjectId) {f : Object → Object}
    (hf : ∀ object, (f object).payload = object.payload) : (s.modify o f).HasBodies P := by
  intro p c hp
  rw [object_modify] at hp
  split_ifs at hp with hpo
  · rw [hf] at hp
    exact h o c hp
  · exact h p c hp

theorem HasBodies.addObject (h : s.HasBodies P) {object : Object}
    (ho : ∀ c, object.payload = .function (.closure c) → P c.body) :
    (s.addObject object).2.HasBodies P := by
  intro p c hp
  rw [object_addObject] at hp
  split_ifs at hp
  · exact ho c hp
  · exact h p c hp

theorem HasBodies.addFunction (h : s.HasBodies P) {f : Callable}
    (hf : ∀ c, f = .closure c → P c.body) : (s.addFunction f).2.HasBodies P := by
  have hinstances : (s.addObject .plain).2.HasBodies P := h.addObject nofun
  refine hinstances.addObject fun c hc => ?_
  cases hc
  exact hf c rfl

end Store

/-! ## States -/

/-- Calls and domains stay as they are, and no script function gets a body without the property. -/
structure State.Steady (P : Block → Prop) (s s' : State) : Prop where
  alike : s.worker.Alike s'.worker
  bodies : s.store.HasBodies P → s'.store.HasBodies P

variable {P : Block → Prop}

instance : IsPreorder State (State.Steady P) where
  refl _ := ⟨⟨rfl, rfl, rfl, rfl⟩, id⟩
  trans _ _ _ h h' :=
    ⟨⟨h'.alike.config.trans h.alike.config, h'.alike.loader.trans h.alike.loader,
      h'.alike.callDepth.trans h.alike.callDepth,
      h'.alike.activeDomain.trans h.alike.activeDomain⟩, h'.bodies ∘ h.bodies⟩

instance : State.Admits P (State.Steady P) where
  change h := by
    cases h with
    | worker h => exact ⟨h, id⟩
    | modify o hf => exact ⟨⟨rfl, rfl, rfl, rfl⟩, fun hs => hs.modify o hf⟩
    | addObject ho => exact ⟨⟨rfl, rfl, rfl, rfl⟩, fun hs => hs.addObject ho⟩
    | addBuffer | setBuffer | addDomain | defineClass => exact ⟨⟨rfl, rfl, rfl, rfl⟩, id⟩
    | setMemory d b =>
      cases b with
      | none => exact ⟨⟨rfl, rfl, rfl, rfl⟩, id⟩
      | some b =>
        rw [Exec.setMemory_some]
        split
        · exact refl_of (State.Steady P) _
        · exact ⟨⟨rfl, rfl, rfl, rfl⟩, id⟩

/-- What the embedding program adds leaves calls and domains alone. -/
structure Embedding.Steady (P : Block → Prop) (e : Embedding) : Prop where
  call : ∀ name this args, Keeps (State.Steady P) (e.call name this args)
  get : ∀ name this, Keeps (State.Steady P) (e.get name this)
  set : ∀ name this v, Keeps (State.Steady P) (e.set name this v)
  load : ∀ bytes version, Keeps (State.Steady P) (e.load bytes version)

theorem Embedding.Steady.within {e : Embedding} (he : e.Steady P) : e.Within (State.Steady P) :=
  ⟨he.call, he.get, he.set, he.load⟩

/-- Whatever the property, calls and domains stay as they are. -/
theorem Embedding.Steady.alike {e : Embedding} (he : e.Steady P) : e.Steady fun _ => True := by
  have hstate : ∀ s s' : State, s.Steady P s' → s.Steady (fun _ => True) s' :=
    fun _ _ h => ⟨h.alike, fun _ _ _ _ => trivial⟩
  exact ⟨fun _ _ _ _ => hstate _ _ (he.call _ _ _ _), fun _ _ _ => hstate _ _ (he.get _ _ _),
    fun _ _ _ _ => hstate _ _ (he.set _ _ _ _), fun _ _ _ => hstate _ _ (he.load _ _ _)⟩

theorem Embedding.steady_none : Embedding.none.Steady P :=
  have h : Embedding.none.Within (State.Steady P) := within_none
  ⟨h.call, h.get, h.set, h.load⟩

end ActionVm
