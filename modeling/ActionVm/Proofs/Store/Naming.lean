import ActionVm.Machine
import Mathlib.Data.List.Forall2

/-!
# Naming

Things of one store may stand for things of another one. What holds such things then matches as
well: values, members, objects and domains.

* `Naming`: which things stand for which;
* `Value.Matches`, `Property.Matches`, `Object.Matches` and the like: data that differ in nothing
  but the things that they hold;
* `Value.Matches.mono` and the like: more things may stand for others;
* `Value.matches_self` and the like: data match themselves if all that they hold stands for itself;
* `Value.Matches.entities` and the like: what matching data hold on to.
-/

/-! ## Related options and lists -/

namespace Option.Rel

variable {α β γ δ : Type} {R R' : α → β → Prop} {S : γ → δ → Prop} {x : Option α} {y : Option β}

theorem imp (h : Option.Rel R x y) (H : ∀ a b, R a b → R' a b) : Option.Rel R' x y := by
  cases h with
  | some h => exact .some (H _ _ h)
  | none => exact .none

theorem map {f : α → γ} {g : β → δ} (h : Option.Rel R x y) (H : ∀ a b, R a b → S (f a) (g b)) :
    Option.Rel S (x.map f) (y.map g) := by
  cases h with
  | some h => exact .some (H _ _ h)
  | none => exact .none

theorem bind {f : α → Option γ} {g : β → Option δ} (h : Option.Rel R x y)
    (H : ∀ a b, R a b → Option.Rel S (f a) (g b)) : Option.Rel S (x.bind f) (y.bind g) := by
  cases h with
  | some h => exact H _ _ h
  | none => exact .none

theorem toList (h : Option.Rel R x y) : List.Forall₂ R x.toList y.toList := by
  cases h with
  | some h => exact .cons h .nil
  | none => exact .nil

theorem getD {a : α} {b : β} (h : Option.Rel R x y) (hab : R a b) : R (x.getD a) (y.getD b) := by
  cases h with
  | some h => exact h
  | none => exact hab

theorem exists_of_eq_some (h : Option.Rel R x y) {a : α} (hx : x = Option.some a) :
    ∃ b, y = Option.some b ∧ R a b := by
  cases h with
  | some h =>
    cases hx
    exact ⟨_, rfl, h⟩
  | none => cases hx

theorem isSome_eq (h : Option.Rel R x y) : x.isSome = y.isSome := by
  cases h <;> rfl

theorem self {R : α → α → Prop} {x : Option α} (h : ∀ a ∈ x, R a a) : Option.Rel R x x := by
  cases x with
  | none => exact .none
  | some a => exact .some (h a rfl)

end Option.Rel

namespace List.Forall₂

variable {α β : Type} {R : α → β → Prop} {l : List α} {l' : List β}

theorem headD {a : α} {b : β} (h : Forall₂ R l l') (hab : R a b) : R (l.headD a) (l'.headD b) := by
  cases h with
  | nil => exact hab
  | cons h _ => exact h

theorem tail (h : Forall₂ R l l') : Forall₂ R l.tail l'.tail := by
  cases h with
  | nil => exact .nil
  | cons _ h => exact h

theorem getD {a : α} {b : β} (h : Forall₂ R l l') (hab : R a b) (i : ℕ) :
    R (l.getD i a) (l'.getD i b) := by
  induction h generalizing i with
  | nil => exact hab
  | cons h _ ih =>
    cases i with
    | zero => exact h
    | succ i => exact ih i

theorem set (h : Forall₂ R l l') {a : α} {b : β} (hab : R a b) (i : ℕ) :
    Forall₂ R (l.set i a) (l'.set i b) := by
  induction h generalizing i with
  | nil => exact .nil
  | cons h htail ih =>
    cases i with
    | zero => exact .cons hab htail
    | succ i => exact .cons h (ih i)

theorem find? {p : α → Bool} {q : β → Bool} (h : Forall₂ R l l')
    (hpq : ∀ a b, R a b → p a = q b) : Option.Rel R (l.find? p) (l'.find? q) := by
  induction h with
  | nil => exact .none
  | cons h _ ih =>
    rw [List.find?_cons, List.find?_cons, hpq _ _ h]
    split
    · exact .some h
    · exact ih

theorem any_eq {p : α → Bool} {q : β → Bool} (h : Forall₂ R l l')
    (hpq : ∀ a b, R a b → p a = q b) : l.any p = l'.any q := by
  induction h with
  | nil => rfl
  | cons h _ ih => rw [List.any_cons, List.any_cons, hpq _ _ h, ih]

theorem findSome? {γ δ : Type} {S : γ → δ → Prop} {f : α → Option γ} {g : β → Option δ}
    (h : Forall₂ R l l') (hfg : ∀ a b, R a b → Option.Rel S (f a) (g b)) :
    Option.Rel S (l.findSome? f) (l'.findSome? g) := by
  induction h with
  | nil => exact .none
  | cons h _ ih =>
    have hfirst := hfg _ _ h
    rw [List.findSome?_cons, List.findSome?_cons]
    revert hfirst
    generalize f _ = x
    generalize g _ = y
    rintro (hab | _)
    · exact .some hab
    · exact ih

/-- What is related to a member is a member. -/
theorem exists_of_mem (h : Forall₂ R l l') {a : α} (ha : a ∈ l) : ∃ b ∈ l', R a b := by
  induction h with
  | nil => cases ha
  | cons h _ ih =>
    rcases List.mem_cons.mp ha with rfl | ha
    · exact ⟨_, List.mem_cons_self, h⟩
    · obtain ⟨b, hb, hab⟩ := ih ha
      exact ⟨b, List.mem_cons_of_mem _ hb, hab⟩

end List.Forall₂

namespace ActionVm

open List (Forall₂ forall₂_same rel_append rel_flatMap)

namespace Table

variable {α : Type} {R R' : α → α → Prop} {t t' : Table α}

/-- The same names in the same order, with members that are related. -/
def Rel (R : α → α → Prop) (t t' : Table α) : Prop :=
  Forall₂ (fun x x' => x.1 = x'.1 ∧ R x.2 x'.2) t.entries t'.entries

namespace Rel

theorem imp (h : Rel R t t') (H : ∀ a b, R a b → R' a b) : Rel R' t t' :=
  List.Forall₂.imp (fun _ _ hx => ⟨hx.1, H _ _ hx.2⟩) h

theorem self (h : ∀ x ∈ t.entries, R x.2 x.2) : Rel R t t :=
  forall₂_same.mpr fun x hx => ⟨rfl, h x hx⟩

theorem get? (h : Rel R t t') (name : String) : Option.Rel R (t.get? name) (t'.get? name) := by
  obtain ⟨l⟩ := t
  obtain ⟨l'⟩ := t'
  change Forall₂ _ l l' at h
  change Option.Rel R (find? name l) (find? name l')
  induction h with
  | nil => exact .none
  | cons hx _ ih =>
    rw [find?, find?, ← hx.1]
    split_ifs
    · exact .some hx.2
    · exact ih

theorem names_eq (h : Rel R t t') : t.names = t'.names := by
  obtain ⟨l⟩ := t
  obtain ⟨l'⟩ := t'
  change Forall₂ _ l l' at h
  change l.map Prod.fst = l'.map Prod.fst
  induction h with
  | nil => rfl
  | cons hx _ ih => rw [List.map_cons, List.map_cons, hx.1, ih]

theorem insert (h : Rel R t t') (name : String) {a a' : α} (ha : R a a') :
    Rel R (t.insert name a) (t'.insert name a') := by
  obtain ⟨l⟩ := t
  obtain ⟨l'⟩ := t'
  change Forall₂ _ l l' at h
  change Forall₂ _ (put name a l) (put name a' l')
  induction h with
  | nil => exact .cons ⟨rfl, ha⟩ .nil
  | cons hx hrest ih =>
    rw [put, put, ← hx.1]
    split_ifs
    · exact .cons ⟨rfl, ha⟩ hrest
    · exact .cons ⟨rfl, hx.2⟩ ih

theorem erase (h : Rel R t t') (name : String) : Rel R (t.erase name) (t'.erase name) := by
  obtain ⟨l⟩ := t
  obtain ⟨l'⟩ := t'
  change Forall₂ _ l l' at h
  change Forall₂ _ (drop name l) (drop name l')
  induction h with
  | nil => exact .nil
  | cons hx hrest ih =>
    rw [drop, drop, ← hx.1]
    split_ifs
    · exact hrest
    · exact .cons ⟨rfl, hx.2⟩ ih

end Rel

end Table

/-! ## Namings -/

/-- Which things of one store stand for which things of another one. -/
structure Naming where
  object : ObjectId → ObjectId → Prop
  buffer : BufferId → BufferId → Prop
  domain : DomainId → DomainId → Prop

namespace Naming

variable {η η' : Naming}

/-- What stands for what among the things that can be held on to. -/
def entity (η : Naming) : Entity → Entity → Prop
  | .object o, .object o' => η.object o o'
  | .domain d, .domain d' => η.domain d d'
  | _, _ => False

/-- A naming in which more things may stand for others. -/
structure Le (η η' : Naming) : Prop where
  object : ∀ {o o'}, η.object o o' → η'.object o o'
  buffer : ∀ {b b'}, η.buffer b b' → η'.buffer b b'
  domain : ∀ {d d'}, η.domain d d' → η'.domain d d'

theorem Le.refl (η : Naming) : η.Le η := ⟨id, id, id⟩

theorem Le.trans {η'' : Naming} (h : η.Le η') (h' : η'.Le η'') : η.Le η'' :=
  ⟨h'.object ∘ h.object, h'.buffer ∘ h.buffer, h'.domain ∘ h.domain⟩

theorem Le.entity (h : η.Le η') : ∀ x x', η.entity x x' → η'.entity x x'
  | .object _, .object _, hx => h.object hx
  | .domain _, .domain _, hx => h.domain hx

/-- Nothing stands for two things, and for nothing two things stand. -/
structure IsOneToOne (η : Naming) : Prop where
  object : Relator.BiUnique η.object
  buffer : Relator.BiUnique η.buffer
  domain : Relator.BiUnique η.domain

theorem IsOneToOne.entity (h : η.IsOneToOne) : Relator.BiUnique η.entity := by
  constructor
  · rintro (o | d) (p | q) (r | r) hx hy
    case object.object.object => exact congrArg _ (h.object.1 hx hy)
    case domain.domain.domain => exact congrArg _ (h.domain.1 hx hy)
    all_goals first | exact hx.elim | exact hy.elim
  · rintro (o | d) (p | q) (r | r) hx hy
    case object.object.object => exact congrArg _ (h.object.2 hx hy)
    case domain.domain.domain => exact congrArg _ (h.domain.2 hx hy)
    all_goals first | exact hx.elim | exact hy.elim

end Naming

variable {η η' : Naming}

/-! ## Values -/

/-- Values that are the same, or objects of which one stands for the other. -/
inductive Value.Matches (η : Naming) : Value → Value → Prop where
  | same {v : Value} : v.object? = none → Matches η v v
  | object {o o' : ObjectId} : η.object o o' → Matches η (.object o) (.object o')

namespace Value.Matches

variable {v v' w w' : Value}

theorem mono (hle : η.Le η') (h : Value.Matches η v v') : Value.Matches η' v v' := by
  cases h with
  | same h => exact .same h
  | object h => exact .object (hle.object h)

/-- What does not depend on the object of a value is the same for values that match. -/
theorem congr {α : Type} (h : Value.Matches η v v') (f : Value → α)
    (hf : ∀ o o', f (.object o) = f (.object o')) : f v = f v' := by
  cases h with
  | same => rfl
  | object => exact hf _ _

theorem object? (h : Value.Matches η v v') : Option.Rel η.object v.object? v'.object? := by
  cases h with
  | same h =>
    rw [h]
    exact .none
  | object h => exact .some h

theorem looseEq_eq (hη : η.IsOneToOne) (hv : Value.Matches η v v') (hw : Value.Matches η w w') :
    v.looseEq w = v'.looseEq w' := by
  cases hv with
  | same hv =>
    cases hw with
    | same => rfl
    | object => cases v <;> first | rfl | cases hv
  | object hv =>
    cases hw with
    | same hw => cases w <;> first | rfl | cases hw
    | object hw =>
      change (_ == _) = (_ == _)
      rw [Bool.eq_iff_iff, beq_iff_eq, beq_iff_eq]
      exact Relator.rel_eq hη.object hv hw

theorem strictEq_eq (hη : η.IsOneToOne) (hv : Value.Matches η v v') (hw : Value.Matches η w w') :
    v.strictEq w = v'.strictEq w' := by
  cases hv with
  | same hv =>
    cases hw with
    | same => rfl
    | object => cases v <;> first | rfl | cases hv
  | object hv =>
    cases hw with
    | same hw => cases w <;> first | rfl | cases hw
    | object hw =>
      change (_ == _) = (_ == _)
      rw [Bool.eq_iff_iff, beq_iff_eq, beq_iff_eq]
      exact Relator.rel_eq hη.object hv hw

theorem lessThan_eq (hv : Value.Matches η v v') (hw : Value.Matches η w w') :
    v.lessThan w = v'.lessThan w' := by
  cases hv with
  | same hv =>
    cases hw with
    | same => rfl
    | object => cases v <;> rfl
  | object =>
    cases hw with
    | same hw => cases w <;> rfl
    | object => rfl

end Value.Matches

theorem Value.matches_ofObject? {o o' : Option ObjectId} (h : Option.Rel η.object o o') :
    Value.Matches η (.ofObject? o) (.ofObject? o') := by
  cases h with
  | some h => exact .object h
  | none => exact .same rfl

/-! ## What objects and domains consist of -/

/-- Scopes of objects that stand for each other. -/
structure Scope.Matches (η : Naming) (s s' : Scope) : Prop where
  base : η.object s.base s'.base
  inner : Forall₂ η.object s.inner s'.inner

/-- Functions that differ in nothing but their scopes. -/
structure Closure.Matches (η : Naming) (c c' : Closure) : Prop where
  name : c.name = c'.name
  kind : c.kind = c'.kind
  body : c.body = c'.body
  scope : c.scope.Matches η c'.scope
  constants : c.constants = c'.constants

/-- Functions of the host that differ in nothing but a prototype. -/
inductive HostFunction.Matches (η : Naming) : HostFunction → HostFunction → Prop where
  | same {f : HostFunction} : (∀ proto, f ≠ .domainClass proto) → Matches η f f
  | domainClass {proto proto' : ObjectId} : η.object proto proto' →
    Matches η (.domainClass proto) (.domainClass proto')

/-- Functions that do the same with things that stand for each other. -/
inductive Callable.Matches (η : Naming) : Callable → Callable → Prop where
  | closure {c c' : Closure} : c.Matches η c' → Matches η (.closure c) (.closure c')
  | host {f f' : HostFunction} : f.Matches η f' → Matches η (.host f) (.host f')

/-- Getters that differ in nothing but a prototype. -/
inductive Getter.Matches (η : Naming) : Getter → Getter → Prop where
  | same {g : Getter} : (∀ proto, g ≠ .currentDomain proto) → Matches η g g
  | currentDomain {proto proto' : ObjectId} : η.object proto proto' →
    Matches η (.currentDomain proto) (.currentDomain proto')

/-- Members with values or getters that match. -/
inductive Property.Matches (η : Naming) : Property → Property → Prop where
  | data {v v' : Value} : v.Matches η v' → Matches η (.data v) (.data v')
  | accessor {get get' : Option Getter} {set : Option Setter} :
    Option.Rel (Getter.Matches η) get get' → Matches η (.accessor get set) (.accessor get' set)

/-- Objects that match stand for the same beside their members. -/
inductive Payload.Matches (η : Naming) : Payload → Payload → Prop where
  | plain : Matches η .plain .plain
  | function {c c' : Callable} : c.Matches η c' → Matches η (.function c) (.function c')
  | buffer {b b' : BufferId} : η.buffer b b' → Matches η (.buffer b) (.buffer b')
  | domain {d d' : DomainId} : η.domain d d' → Matches η (.domain d) (.domain d')

/-- Objects that differ in nothing but the things that they hold. -/
structure Object.Matches (η : Naming) (o o' : Object) : Prop where
  className : o.className = o'.className
  proto : Option.Rel η.object o.proto o'.proto
  properties : o.properties.Rel (Property.Matches η) o'.properties
  interfaces : Forall₂ η.object o.interfaces o'.interfaces
  payload : o.payload.Matches η o'.payload

/-- Domains that differ in nothing but the things that they hold. The domains around them do not
count. -/
structure Domain.Matches (η : Naming) (d d' : Domain) : Prop where
  classes : d.classes.Rel (Value.Matches η) d'.classes
  memory : Option.Rel η.buffer d.memory d'.memory

/-! ## More names -/

section Mono

variable (hle : η.Le η')
include hle

theorem Scope.Matches.mono {s s' : Scope} (h : s.Matches η s') : s.Matches η' s' :=
  ⟨hle.object h.base, List.Forall₂.imp (fun _ _ => hle.object) h.inner⟩

theorem Callable.Matches.mono {c c' : Callable} (h : c.Matches η c') : c.Matches η' c' := by
  cases h with
  | closure h => exact .closure ⟨h.name, h.kind, h.body, h.scope.mono hle, h.constants⟩
  | host h =>
    cases h with
    | same h => exact .host (.same h)
    | domainClass h => exact .host (.domainClass (hle.object h))

theorem Getter.Matches.mono {g g' : Getter} (h : g.Matches η g') : g.Matches η' g' := by
  cases h with
  | same h => exact .same h
  | currentDomain h => exact .currentDomain (hle.object h)

theorem Property.Matches.mono {p p' : Property} (h : p.Matches η p') : p.Matches η' p' := by
  cases h with
  | data h => exact .data (h.mono hle)
  | accessor h => exact .accessor (h.imp fun _ _ hg => hg.mono hle)

theorem Payload.Matches.mono {p p' : Payload} (h : p.Matches η p') : p.Matches η' p' := by
  cases h with
  | plain => exact .plain
  | function h => exact .function (h.mono hle)
  | buffer h => exact .buffer (hle.buffer h)
  | domain h => exact .domain (hle.domain h)

theorem Object.Matches.mono {o o' : Object} (h : o.Matches η o') : o.Matches η' o' where
  className := h.className
  proto := h.proto.imp fun _ _ => hle.object
  properties := h.properties.imp fun _ _ hp => hp.mono hle
  interfaces := List.Forall₂.imp (fun _ _ => hle.object) h.interfaces
  payload := h.payload.mono hle

theorem Domain.Matches.mono {d d' : Domain} (h : d.Matches η d') : d.Matches η' d' where
  classes := h.classes.imp fun _ _ hv => hv.mono hle
  memory := h.memory.imp fun _ _ => hle.buffer

end Mono

/-! ## Things that stand for themselves -/

/-- All that is held stands for itself. -/
abbrev Naming.Fixes (η : Naming) (l : List Entity) : Prop := ∀ x ∈ l, η.entity x x

theorem Naming.rel_object_self {o : Option ObjectId}
    (h : η.Fixes (o.map Entity.object).toList) : Option.Rel η.object o o := by
  cases o with
  | none => exact .none
  | some o => exact .some (h (.object o) (List.mem_singleton_self _))

theorem Value.matches_self {v : Value} (h : η.Fixes v.entities) : v.Matches η v := by
  cases v with
  | object o => exact .object (h (.object o) (List.mem_singleton_self _))
  | _ => exact .same rfl

theorem Scope.matches_self {s : Scope} (h : η.Fixes s.entities) : s.Matches η s := by
  have hobject : ∀ o ∈ s.toList, η.object o o := fun o ho =>
    h (.object o) (List.mem_map_of_mem (f := Entity.object) ho)
  exact ⟨hobject _ (List.mem_append_right _ (List.mem_singleton_self _)),
    forall₂_same.mpr fun o ho => hobject o (List.mem_append_left _ ho)⟩

theorem Callable.matches_self {c : Callable} (h : η.Fixes c.entities) : c.Matches η c := by
  cases c with
  | closure c => exact .closure ⟨rfl, rfl, rfl, Scope.matches_self h, rfl⟩
  | host f =>
    cases f with
    | domainClass proto =>
      exact .host (.domainClass (h (.object proto) (List.mem_singleton_self _)))
    | _ => exact .host (.same nofun)

theorem Property.matches_self {p : Property} (h : η.Fixes p.entities) : p.Matches η p := by
  cases p with
  | data v => exact .data (Value.matches_self h)
  | accessor get set =>
    refine .accessor (.self fun g hg => ?_)
    obtain rfl := Option.mem_def.mp hg
    cases g with
    | currentDomain proto => exact .currentDomain (h (.object proto) (List.mem_singleton_self _))
    | _ => exact .same nofun

theorem Object.matches_self {o : Object} (h : η.Fixes o.entities)
    (hbuffer : ∀ b, o.buffer? = some b → η.buffer b b) : o.Matches η o := by
  simp only [Object.entities, Naming.Fixes, List.mem_append, or_imp, forall_and] at h
  obtain ⟨⟨⟨hproto, hproperties⟩, hinterfaces⟩, hpayload⟩ := h
  refine ⟨rfl, Naming.rel_object_self hproto, .self fun x hx => ?_,
    forall₂_same.mpr fun i hi => ?_, ?_⟩
  · exact Property.matches_self fun y hy => hproperties y (List.mem_flatMap.mpr ⟨x, hx, hy⟩)
  · exact hinterfaces (.object i) (List.mem_map_of_mem (f := Entity.object) hi)
  · cases hp : o.payload with
    | plain => exact .plain
    | function c =>
      rw [hp] at hpayload
      exact .function (Callable.matches_self hpayload)
    | buffer b => exact .buffer (hbuffer b (by rw [Object.buffer?, hp]))
    | domain d =>
      rw [hp] at hpayload
      exact .domain (hpayload (.domain d) (List.mem_singleton_self _))

theorem Domain.matches_self {d : Domain} (h : η.Fixes d.entities)
    (hmemory : ∀ b, d.memory = some b → η.buffer b b) : d.Matches η d where
  classes := .self fun x hx =>
    Value.matches_self fun y hy => h y (List.mem_flatMap.mpr ⟨x, hx, hy⟩)
  memory := .self hmemory

/-! ## What is held -/

theorem Naming.entity_map_object {l l' : List ObjectId} (h : Forall₂ η.object l l') :
    Forall₂ η.entity (l.map .object) (l'.map .object) :=
  List.forall₂_map_left_iff.mpr (List.forall₂_map_right_iff.mpr h)

theorem Naming.entity_toList_object {o o' : Option ObjectId} (h : Option.Rel η.object o o') :
    Forall₂ η.entity (o.map .object).toList (o'.map .object).toList := by
  cases h with
  | some h => exact .cons h .nil
  | none => exact .nil

theorem Value.Matches.entities {v v' : Value} (h : v.Matches η v') :
    Forall₂ η.entity v.entities v'.entities := Naming.entity_toList_object h.object?

theorem Scope.Matches.toList {s s' : Scope} (h : s.Matches η s') :
    Forall₂ η.object s.toList s'.toList := rel_append h.inner (.cons h.base .nil)

theorem Scope.Matches.entities {s s' : Scope} (h : s.Matches η s') :
    Forall₂ η.entity s.entities s'.entities := Naming.entity_map_object h.toList

theorem Callable.Matches.entities {c c' : Callable} (h : c.Matches η c') :
    Forall₂ η.entity c.entities c'.entities := by
  cases h with
  | closure h => exact h.scope.entities
  | @host f _ h =>
    cases h with
    | domainClass h => exact .cons h .nil
    | same hf =>
      cases f with
      | domainClass proto => exact absurd rfl (hf proto)
      | _ => exact .nil

theorem Property.Matches.entities {p p' : Property} (h : p.Matches η p') :
    Forall₂ η.entity p.entities p'.entities := by
  cases h with
  | data h => exact h.entities
  | accessor h =>
    cases h with
    | none => exact .nil
    | @some g _ h =>
      cases h with
      | currentDomain h => exact .cons h .nil
      | same hg =>
        cases g with
        | currentDomain proto => exact absurd rfl (hg proto)
        | _ => exact .nil

theorem Payload.Matches.entities {p p' : Payload} (h : p.Matches η p') :
    Forall₂ η.entity p.entities p'.entities := by
  cases h with
  | plain | buffer => exact .nil
  | function h => exact h.entities
  | domain h => exact .cons h .nil

theorem Object.Matches.entities {o o' : Object} (h : o.Matches η o') :
    Forall₂ η.entity o.entities o'.entities := by
  refine rel_append (rel_append (rel_append ?_ ?_) ?_) h.payload.entities
  · exact Naming.entity_toList_object h.proto
  · exact rel_flatMap h.properties fun _ _ hx => hx.2.entities
  · exact Naming.entity_map_object h.interfaces

theorem Domain.Matches.entities {d d' : Domain} (h : d.Matches η d') :
    Forall₂ η.entity d.entities d'.entities :=
  rel_flatMap h.classes fun _ _ hx => hx.2.entities

end ActionVm
