import ActionVm.Proofs.Store.Enumeration
import Mathlib.Order.Nat

/-!
# Lineages

A class is a function that gives the objects which it makes a prototype. A subclass gets a fresh
one, whose own prototype is that of its superclass.

* `Store.prototypeOf?`: the prototype of what a function makes;
* `Store.SameLinks`: a store with the same prototypes, with **`Store.SameLinks.prototypeOf?`**;
* `Store.lookup?_define_of_ne`: what is still found when another object gets a member;
* `Store.Descends`, `Store.Lineage`: a chain of prototypes, and classes whose prototypes are one;
* `Store.withHeir`, **`Store.Lineage.withHeir`**: a subclass, and the lineage that it joins.
-/

namespace ActionVm.Store

variable {s s' s'' : Store} {o p q f : ObjectId} {name : String} {x : Property}

/-! ## Prototypes of instances -/

/-- The prototype that a function gives to the objects which it makes. -/
def prototypeOf? (s : Store) (f : ObjectId) : Option ObjectId :=
  match s.lookup? f "prototype" with
  | some (.data v) => v.object?
  | _ => none

theorem lookup?_of_prototypeOf? (h : s.prototypeOf? f = some p) :
    s.lookup? f "prototype" = some (.data (.object p)) := by
  unfold prototypeOf? at h
  split at h
  · next v hv =>
    cases v with
    | object o =>
      obtain rfl := Option.some.inj h
      exact hv
    | _ => cases h
  · cases h

/-- Where functions have the prototypes of a list, each function has one of them. -/
theorem exists_of_map_prototypeOf? {functions prototypes : List ObjectId}
    (h : functions.map s.prototypeOf? = prototypes.map some) (hf : f ∈ functions) :
    ∃ p ∈ prototypes, s.prototypeOf? f = some p := by
  have hmem : s.prototypeOf? f ∈ prototypes.map some := h ▸ List.mem_map_of_mem hf
  obtain ⟨p, hp, heq⟩ := List.mem_map.mp hmem
  exact ⟨p, hp, heq.symm⟩

theorem prototypeOf?_of_lookup? (h : s.lookup? f "prototype" = some (.data (.object p))) :
    s.prototypeOf? f = some p := by
  rw [prototypeOf?, h]
  rfl

theorem own?_of_size_le (h : s.objects.size ≤ o.index) (name : String) : s.own? o name = none := by
  rw [own?, object_of_size_le h]
  rfl

theorem lt_size_of_lookup? (h : s.lookup? o name = some x) : o.index < s.objects.size := by
  by_contra hle
  have hle : s.objects.size ≤ o.index := by omega
  rw [lookup?, own?_of_size_le hle, lookupLimit, ancestors, object_of_size_le hle] at h
  cases h

theorem lt_size_of_prototypeOf? (h : s.prototypeOf? f = some p) : f.index < s.objects.size :=
  lt_size_of_lookup? (lookup?_of_prototypeOf? h)

/-! ## Links -/

/-- The objects of a store have the same prototypes in another one, implement the same, and have the
same prototypes for what they make. -/
structure SameLinks (s s' : Store) : Prop where
  size : s.objects.size ≤ s'.objects.size
  proto : ∀ o, o.index < s.objects.size → (s'.object o).proto = (s.object o).proto
  interfaces : ∀ o, o.index < s.objects.size → (s'.object o).interfaces = (s.object o).interfaces
  prototype : ∀ o, o.index < s.objects.size → s'.own? o "prototype" = s.own? o "prototype"

namespace SameLinks

theorem refl (s : Store) : s.SameLinks s :=
  ⟨le_rfl, fun _ _ => rfl, fun _ _ => rfl, fun _ _ => rfl⟩

theorem trans (h : s.SameLinks s') (h' : s'.SameLinks s'') : s.SameLinks s'' where
  size := h.size.trans h'.size
  proto o ho := (h'.proto o (ho.trans_le h.size)).trans (h.proto o ho)
  interfaces o ho := (h'.interfaces o (ho.trans_le h.size)).trans (h.interfaces o ho)
  prototype o ho := (h'.prototype o (ho.trans_le h.size)).trans (h.prototype o ho)

theorem addObject (s : Store) (x : Object) : s.SameLinks (s.addObject x).2 where
  size := (size_addObject x).symm ▸ Nat.le_succ _
  proto o ho := by rw [object_addObject_of_lt ho]
  interfaces o ho := by rw [object_addObject_of_lt ho]
  prototype o ho := by rw [own?, object_addObject_of_lt ho, own?]

theorem of_differsAt (h : s.DiffersAt o s')
    (hown : s'.own? o "prototype" = s.own? o "prototype") : s.SameLinks s' where
  size := h.size.ge
  proto p _ := h.object_eq (f := Object.proto) (fun _ _ => rfl) p
  interfaces p _ := h.object_eq (f := Object.interfaces) (fun _ _ => rfl) p
  prototype p _ := by
    by_cases hp : p = o
    · rw [hp, hown]
    · exact h.own?_eq hp _

/-- A search that finds a prototype finds the same in the other store. -/
theorem findSome?_eq (h : s.SameLinks s') (n : ℕ)
    (hx : (o :: s.ancestors n o).findSome? (s.own? · "prototype") = some x) :
    (o :: s'.ancestors n o).findSome? (s'.own? · "prototype") = some x := by
  induction n generalizing o with
  | zero =>
    rw [ancestors, List.findSome?_cons] at *
    by_cases ho : o.index < s.objects.size
    · rwa [h.prototype o ho]
    · rw [own?_of_size_le (by omega)] at hx
      cases hx
  | succ n ih =>
    by_cases ho : o.index < s.objects.size
    · rw [ancestors, List.findSome?_cons] at *
      rw [h.prototype o ho, h.proto o ho]
      cases hown : s.own? o "prototype" with
      | some y => rwa [hown] at hx
      | none =>
        rw [hown] at hx
        cases hproto : (s.object o).proto with
        | none =>
          rw [hproto] at hx
          cases hx
        | some p =>
          rw [hproto] at hx
          exact ih hx
    · rw [ancestors, object_of_size_le (by omega), List.findSome?_cons,
        own?_of_size_le (by omega)] at hx
      cases hx

theorem lookup? (h : s.SameLinks s') (hx : s.lookup? o "prototype" = some x) :
    s'.lookup? o "prototype" = some x := by
  rw [lookup?_eq_findSome?] at *
  exact h.findSome?_eq lookupLimit hx

/-- **Functions keep the prototypes of what they make.** -/
theorem prototypeOf? (h : s.SameLinks s') (hp : s.prototypeOf? f = some p) :
    s'.prototypeOf? f = some p :=
  prototypeOf?_of_lookup? (h.lookup? (lookup?_of_prototypeOf? hp))

end SameLinks

/-! ## Members that others get -/

/-- A search that goes less far finds the same, if it finds something. -/
theorem lookup?_of_findSome? {n : ℕ} (hn : n ≤ lookupLimit)
    (hx : (o :: s.ancestors n o).findSome? (s.own? · name) = some x) :
    s.lookup? o name = some x := by
  rw [lookup?_eq_findSome?, searched]
  generalize lookupLimit = limit at hn
  induction hn with
  | refl => exact hx
  | step _ ih =>
    rw [ancestors_succ, ← List.cons_append, List.findSome?_append, ih]
    rfl

/-- A search finds the same when an object gets a member, or it comes to this object. -/
theorem findSome?_define (v : Value) (n : ℕ)
    (hx : (p :: s.ancestors n p).findSome? (s.own? · name) = some x) :
    (p :: s.ancestors n p).findSome? ((s.define o name v).own? · name) = some x ∨
      ∃ k ≤ n, (o :: s.ancestors k o).findSome? (s.own? · name) = some x := by
  have hothers : ∀ q ≠ o, (s.define o name v).own? q name = s.own? q name := fun q hq =>
    (DiffersAt.define s o name v).own?_eq hq name
  by_cases hp : p = o
  · exact .inr ⟨n, le_rfl, hp ▸ hx⟩
  induction n generalizing p with
  | zero =>
    rw [ancestors, List.findSome?_cons] at *
    rw [hothers p hp]
    exact .inl hx
  | succ n ih =>
    rw [ancestors, List.findSome?_cons] at *
    rw [hothers p hp]
    cases hown : s.own? p name with
    | some y =>
      rw [hown] at hx
      exact .inl hx
    | none =>
      rw [hown] at hx
      cases hproto : (s.object p).proto with
      | none =>
        rw [hproto] at hx
        cases hx
      | some q =>
        rw [hproto] at hx
        by_cases hq : q = o
        · exact .inr ⟨n, Nat.le_succ n, hq ▸ hx⟩
        · obtain h | ⟨k, hk, h⟩ := ih hx hq
          · exact .inl h
          · exact .inr ⟨k, hk.trans (Nat.le_succ n), h⟩

/-- What one object finds does not change when another one gets a member, under which that one has
found something else before. -/
theorem lookup?_define_of_ne (v : Value) (hx : s.lookup? p name = some x)
    (hne : s.lookup? o name ≠ some x) :
    (s.define o name v).lookup? p name = some x := by
  rw [lookup?_eq_findSome?, (DiffersAt.define s o name v).searched_eq]
  rw [lookup?_eq_findSome?] at hx
  obtain h | ⟨n, hn, h⟩ := findSome?_define v lookupLimit hx
  · exact h
  · exact absurd (lookup?_of_findSome? hn h) hne

/-! ## Lineages -/

/-- Each object of a list is the prototype of the one before it. The last one has none. -/
def Descends (s : Store) : List ObjectId → Prop
  | [] => True
  | p :: ps => (s.object p).proto = ps.head? ∧ s.Descends ps

theorem Descends.ancestors {ps : List ObjectId} (h : s.Descends ps)
    (ho : (s.object o).proto = ps.head?) (n : ℕ) : s.ancestors n o = ps.take n := by
  induction n generalizing o ps with
  | zero => rw [Store.ancestors, List.take_zero]
  | succ n ih =>
    rw [Store.ancestors, ho]
    cases ps with
    | nil => rfl
    | cons p ps => exact congrArg (p :: ·) (ih h.2 h.1)

theorem Descends.congr {ps : List ObjectId} (h : s.Descends ps)
    (hproto : ∀ p ∈ ps, (s'.object p).proto = (s.object p).proto) : s'.Descends ps := by
  induction ps with
  | nil => trivial
  | cons p ps ih =>
    rw [List.forall_mem_cons] at hproto
    exact ⟨hproto.1.trans h.1, ih h.2 hproto.2⟩

/-- Classes, the latest first, and the prototypes of what they make, each of which is the prototype
of the one before it. -/
structure Lineage (s : Store) (classes prototypes : List ObjectId) : Prop where
  found : classes.map s.prototypeOf? = prototypes.map some
  descends : s.Descends prototypes
  stored : ∀ p ∈ prototypes, p.index < s.objects.size

namespace Lineage

variable {classes prototypes : List ObjectId}

theorem single (hfound : s.prototypeOf? f = some p) (hproto : (s.object p).proto = none)
    (hstored : p.index < s.objects.size) : s.Lineage [f] [p] :=
  ⟨congrArg (fun x => [x]) hfound, ⟨hproto, trivial⟩, List.forall_mem_singleton.mpr hstored⟩

theorem length_eq (h : s.Lineage classes prototypes) : prototypes.length = classes.length := by
  simpa using (congrArg List.length h.found).symm

theorem prototypeOf?_mem (h : s.Lineage classes prototypes) (hf : f ∈ classes) :
    ∃ p ∈ prototypes, s.prototypeOf? f = some p := exists_of_map_prototypeOf? h.found hf

theorem mem_prototypeOf? (h : s.Lineage classes prototypes) (hp : p ∈ prototypes) :
    ∃ c ∈ classes, s.prototypeOf? c = some p := by
  have hmem : some p ∈ classes.map s.prototypeOf? := h.found ▸ List.mem_map_of_mem hp
  exact List.mem_map.mp hmem

/-- The latest class has the first of the prototypes. -/
theorem exists_head (h : s.Lineage classes prototypes) (hf : classes.head? = some f) :
    ∃ p, prototypes.head? = some p ∧ s.prototypeOf? f = some p := by
  have hhead := congrArg List.head? h.found
  rw [List.head?_map, List.head?_map, hf] at hhead
  cases hp : prototypes.head? with
  | none =>
    rw [hp] at hhead
    cases hhead
  | some p =>
    rw [hp] at hhead
    exact ⟨p, rfl, Option.some.inj hhead⟩

/-- **A lineage lasts** in a store with the same links. -/
theorem mono (h : s.Lineage classes prototypes) (hlinks : s.SameLinks s') :
    s'.Lineage classes prototypes where
  found := by
    rw [← h.found]
    refine List.map_congr_left fun c hc => ?_
    obtain ⟨p, -, hp⟩ := h.prototypeOf?_mem hc
    rw [hp, hlinks.prototypeOf? hp]
  descends := h.descends.congr fun p hp => hlinks.proto p (h.stored p hp)
  stored p hp := (h.stored p hp).trans_le hlinks.size

end Lineage

/-! ## Subclasses -/

/-- The store with a fresh prototype for what a subclass makes. -/
def withPrototype (s : Store) (sup p : ObjectId) : Store :=
  (s.addObject (.ofClass "Object" (some p))).2.define ⟨s.objects.size⟩ "__constructor__"
    (.object sup)

/-- The store in which a class has a subclass, where `p` is the prototype of what the class
makes. -/
def withHeir (s : Store) (sub sup p : ObjectId) : Store :=
  (s.withPrototype sup p).define sub "prototype" (.object ⟨s.objects.size⟩)

theorem size_withPrototype (s : Store) (sup p : ObjectId) :
    (s.withPrototype sup p).objects.size = s.objects.size + 1 :=
  (size_modify _ _).trans (size_addObject _)

theorem size_withHeir (s : Store) (sub sup p : ObjectId) :
    (s.withHeir sub sup p).objects.size = s.objects.size + 1 :=
  (size_modify _ _).trans (size_withPrototype s sup p)

theorem sameLinks_withPrototype (s : Store) (sup p : ObjectId) :
    s.SameLinks (s.withPrototype sup p) := by
  have hstored : s.objects.size < (s.addObject (.ofClass "Object" (some p))).2.objects.size :=
    (size_addObject _).symm ▸ Nat.lt_succ_self _
  refine (SameLinks.addObject s _).trans (.of_differsAt (.define _ _ _ _) ?_)
  exact (own?_define hstored _ _ _).trans (if_neg (by decide))

theorem proto_withPrototype (s : Store) (sup p : ObjectId) :
    ((s.withPrototype sup p).object ⟨s.objects.size⟩).proto = some p := by
  rw [withPrototype, (DiffersAt.define _ _ _ _).object_eq (f := Object.proto) fun _ _ => rfl,
    object_addObject, if_pos rfl]
  rfl

variable {sub sup : ObjectId}

theorem prototypeOf?_withHeir_self (hsub : sub.index < s.objects.size) :
    (s.withHeir sub sup p).prototypeOf? sub = some ⟨s.objects.size⟩ := by
  have hstored : sub.index < (s.withPrototype sup p).objects.size := by
    rw [size_withPrototype]
    omega
  refine prototypeOf?_of_lookup? (lookup?_of_own? ?_)
  rw [withHeir, own?_define hstored, if_pos rfl]

/-- A class with another prototype is not touched when a class becomes a subclass. -/
theorem prototypeOf?_withHeir (hq : s.prototypeOf? f = some q)
    {old : ObjectId} (hold : s.prototypeOf? sub = some old) (hne : q ≠ old) :
    (s.withHeir sub sup p).prototypeOf? f = some q := by
  have hlinks := sameLinks_withPrototype s sup p
  refine prototypeOf?_of_lookup? (lookup?_define_of_ne _
    (hlinks.lookup? (lookup?_of_prototypeOf? hq)) ?_)
  rw [hlinks.lookup? (lookup?_of_prototypeOf? hold)]
  intro h
  cases h
  exact hne rfl

/-- **A subclass joins the lineage of its superclass.** -/
theorem Lineage.withHeir {classes prototypes : List ObjectId} (hsub : sub.index < s.objects.size)
    (h : s.Lineage (sup :: classes) (p :: prototypes)) {old : ObjectId}
    (hold : s.prototypeOf? sub = some old) (hne : old ∉ p :: prototypes) :
    (s.withHeir sub sup p).Lineage (sub :: sup :: classes)
      (⟨s.objects.size⟩ :: p :: prototypes) where
  found := by
    rw [List.map_cons, prototypeOf?_withHeir_self hsub]
    refine congrArg (_ :: ·) (Eq.trans (List.map_congr_left fun c hc => ?_) h.found)
    obtain ⟨q, hq, hc⟩ := h.prototypeOf?_mem hc
    rw [hc, prototypeOf?_withHeir hc hold]
    rintro rfl
    exact hne hq
  descends := by
    have hdefine := DiffersAt.define (s.withPrototype sup p) sub "prototype"
      (.object ⟨s.objects.size⟩)
    have hproto : ∀ o, ((s.withHeir sub sup p).object o).proto =
        ((s.withPrototype sup p).object o).proto :=
      hdefine.object_eq (f := Object.proto) fun _ _ => rfl
    refine ⟨(hproto _).trans (proto_withPrototype s sup p), h.descends.congr fun q hq => ?_⟩
    exact (hproto q).trans ((sameLinks_withPrototype s sup p).proto q (h.stored q hq))
  stored := by
    intro q hq
    rw [size_withHeir]
    obtain rfl | hq := List.mem_cons.mp hq
    · exact Nat.lt_succ_self _
    · exact (h.stored q hq).trans (Nat.lt_succ_self _)

/-! ## Classes that are still to join -/

/-- A lineage, and classes with other prototypes that are to join it, the next one first. -/
structure Awaits (s : Store) (classes prototypes later laterPrototypes : List ObjectId) : Prop where
  lineage : s.Lineage classes prototypes
  stored : ∀ f ∈ later, f.index < s.objects.size
  found : later.map s.prototypeOf? = laterPrototypes.map some
  distinct : (prototypes ++ laterPrototypes).Nodup
  laterStored : ∀ p ∈ laterPrototypes, p.index < s.objects.size

/-- When the next class has joined, the others are still to join. -/
theorem Awaits.withHeir {classes prototypes later laterPrototypes : List ObjectId} {old : ObjectId}
    (h : s.Awaits (sup :: classes) (p :: prototypes) (sub :: later) (old :: laterPrototypes)) :
    (s.withHeir sub sup p).Awaits (sub :: sup :: classes) (⟨s.objects.size⟩ :: p :: prototypes)
      later laterPrototypes := by
  obtain ⟨hold, hlater⟩ := List.cons.inj h.found
  obtain ⟨hsub, hstored⟩ := List.forall_mem_cons.mp h.stored
  have hapart := List.nodup_append.mp h.distinct
  have holdApart : old ∉ p :: prototypes := fun hmem =>
    hapart.2.2 old hmem old List.mem_cons_self rfl
  have hsize := size_withHeir s sub sup p
  refine ⟨h.lineage.withHeir hsub hold holdApart, fun f hf => ?_, ?_, ?_, fun q hq => ?_⟩
  · rw [hsize]
    exact (hstored f hf).trans (Nat.lt_succ_self _)
  · rw [← hlater]
    refine List.map_congr_left fun f hf => ?_
    obtain ⟨q, hq, hf⟩ := exists_of_map_prototypeOf? hlater hf
    rw [hf]
    refine prototypeOf?_withHeir hf hold ?_
    rintro rfl
    exact (List.nodup_cons.mp hapart.2.1).1 hq
  · -- the fresh prototype is none of those in the store before
    rw [List.cons_append, List.nodup_cons]
    refine ⟨fun hmem => ?_, ?_⟩
    · obtain hmem | hmem := List.mem_append.mp hmem
      · exact Nat.lt_irrefl _ (h.lineage.stored _ hmem)
      · exact Nat.lt_irrefl _ (h.laterStored _ (List.mem_cons_of_mem _ hmem))
    · exact h.distinct.sublist (List.Sublist.append_left (List.sublist_cons_self _ _) _)
  · rw [hsize]
    exact (h.laterStored q (List.mem_cons_of_mem _ hq)).trans (Nat.lt_succ_self _)

end ActionVm.Store
