import ActionVm.Proofs.Machine.Evolution
import ActionVm.Proofs.Store.Lineage

/-!
# Inheritance

Classes are made subclasses of one another, and an object is made by the last of them.

* `perform_extendClass`, `perform_instanceOf`, `perform_cast`: the actions for classes;
* `extendEach`, **`extendEach_awaits`**: each class of a list becomes a subclass of the one before;
* `State.Inherits`, `Store.Descendant`, **`Store.Descendant.inherits`**: an object that is an
  instance of classes;
* `construct_of_callable`, `step_constructed`: what a construction asks for and answers;
* **`inherits_of_extendEach`**: what the last class makes is an instance of all of them.
-/

namespace ActionVm

open Act

/-! ## Parts of actions -/

section Parts

variable {α β : Type} {e : Embedding} {c : Context} {s s' : State} {v ctor : Value}

theorem Act.bind_of_ok {x : Act α} {f : α → Act β} {p p' : Context × State} {a : α}
    (h : x p = (.ok a, p')) : (x >>= f) p = f a p' := by
  change StateT.run (ExceptT.run (x >>= f)) p = _
  rw [ExceptT.run_bind, StateT.run_bind, show StateT.run (ExceptT.run x) p = _ from h]
  rfl

theorem Act.exec_of_ok {x : Exec α} {a : α} (h : x s = (.ok a, s')) :
    exec x (c, s) = (.ok a, (c, s')) := by
  simp only [exec, h]

theorem perform_extendClass {sub sup : Value} (h : extendClass e sub sup s = (.ok (), s')) :
    perform e (.op .extendClass) ((c.push sub).push sup, s) = (.ok .next, (c, s')) := by
  change (exec (extendClass e sub sup) >>= fun _ => pure Outcome.next : Act Outcome) (c, s) = _
  rw [Act.bind_of_ok (exec_of_ok h)]
  rfl

theorem perform_instanceOf {b : Bool} (h : isInstance e v ctor s = (.ok b, s')) :
    perform e (.op .instanceOf) ((c.push v).push ctor, s) =
      (.ok .next, (c.push (.boolean b), s')) := by
  change (exec (isInstance e v ctor) >>= fun b => do
    push (.boolean b)
    pure Outcome.next : Act Outcome) (c, s) = _
  rw [Act.bind_of_ok (exec_of_ok h)]
  rfl

theorem perform_cast {b : Bool} (h : isInstance e v ctor s = (.ok b, s')) :
    perform e (.op .cast) ((c.push ctor).push v, s) =
      (.ok .next, (c.push (if b then v else .null), s')) := by
  change (exec (isInstance e v ctor) >>= fun b => do
    push (if b then v else .null)
    pure Outcome.next : Act Outcome) (c, s) = _
  rw [Act.bind_of_ok (exec_of_ok h)]
  rfl

end Parts

/-! ## Prototypes -/

section Prototypes

variable {e : Embedding} {s : State} {f p sub sup : ObjectId}

theorem index?_prototype : Text.index? "prototype" = none := by decide +kernel

theorem Store.slot?_prototype (s : Store) (o : ObjectId) : s.slot? o "prototype" = none := by
  unfold slot?
  split
  · rfl
  · rw [if_neg (by decide), index?_prototype]
    rfl

theorem getProperty_prototype (h : s.store.prototypeOf? f = some p) :
    getProperty e f "prototype" s = (.ok (.object p), s) :=
  getProperty_of_data (s.store.slot?_prototype f) (by decide) (Store.lookup?_of_prototypeOf? h)

theorem setProperty_prototype (h : s.store.prototypeOf? f = some p) (v : Value) :
    setProperty e f "prototype" v s = (.ok (), ⟨s.store.define f "prototype" v, s.worker⟩) := by
  have hassign : s.store.assign f "prototype" v = s.store.define f "prototype" v := by
    unfold Store.assign
    rw [index?_prototype]
    dsimp only
    rw [ite_self]
  have hname : "prototype" ≠ "__proto__" := by decide
  unfold setProperty
  rw [Exec.bind_ask, index?_prototype, if_neg hname]
  -- with a buffer or without, the name is no index
  cases (s.store.object f).buffer? <;>
  · dsimp only
    rw [Exec.bind_ask, Store.lookup?_of_prototypeOf? h]
    exact congrArg (fun store => (Except.ok (), State.mk store s.worker)) hassign

/-- A class becomes a subclass of another one. -/
theorem extendClass_eq {old : ObjectId} (hsub : s.store.prototypeOf? sub = some old)
    (hsup : s.store.prototypeOf? sup = some p) :
    extendClass e (.object sub) (.object sup) s =
      (.ok (), ⟨s.store.withHeir sub sup p, s.worker⟩) := by
  have hlinks := Store.sameLinks_withPrototype s.store sup p
  unfold extendClass
  dsimp only
  rw [Exec.bind_of_ok (getProperty_prototype hsup)]
  exact setProperty_prototype (s := ⟨s.store.withPrototype sup p, s.worker⟩)
    (hlinks.prototypeOf? hsub) _

end Prototypes

/-! ## One subclass after the other -/

/-- Each class of a list becomes a subclass of the one before it. -/
def extendEach (e : Embedding) : ObjectId → List ObjectId → Act Unit
  | _, [] => return ()
  | sup, sub :: rest => do
    push (.object sub)
    push (.object sup)
    let _ ← perform e (.op .extendClass)
    extendEach e sub rest

/-- **Classes join a lineage** one after the other. -/
theorem extendEach_awaits (e : Embedding) (c : Context) {s : State} {sup : ObjectId}
    {classes prototypes later laterPrototypes : List ObjectId}
    (h : s.store.Awaits (sup :: classes) prototypes later laterPrototypes) :
    ∃ s' prototypes', extendEach e sup later (c, s) = (.ok (), (c, s')) ∧
      s'.store.Lineage (later.reverse ++ sup :: classes) prototypes' := by
  induction later generalizing s sup classes prototypes laterPrototypes with
  | nil => exact ⟨s, prototypes, rfl, h.lineage⟩
  | cons sub later ih =>
    cases prototypes with
    | nil => cases h.lineage.found
    | cons p prototypes =>
    cases laterPrototypes with
    | nil => cases h.found
    | cons old laterPrototypes =>
      have hsup := (List.cons.inj h.lineage.found).1
      have hsub := (List.cons.inj h.found).1
      obtain ⟨s', prototypes', hrun, hlineage⟩ :=
        ih (s := ⟨s.store.withHeir sub sup p, s.worker⟩) h.withHeir
      refine ⟨s', prototypes', ?_, ?_⟩
      · change (perform e (.op .extendClass) >>= fun _ => extendEach e sub later)
          ((c.push (.object sub)).push (.object sup), s) = _
        rw [Act.bind_of_ok (perform_extendClass (extendClass_eq hsub hsup))]
        exact hrun
      · rwa [List.reverse_cons, List.append_assoc]

/-! ## Instances -/

/-- An object is an instance of classes, of which each is a subclass of the one before: it counts as
one of them and of no others, and it has the members that they give to what they make. -/
structure State.Inherits (e : Embedding) (s : State) (classes : List ObjectId) (o : ObjectId) :
    Prop where
  instanceOf : ∀ f ∈ classes, ∀ c : Context,
    perform e (.op .instanceOf) ((c.push (.object o)).push (.object f), s) =
      (.ok .next, (c.push (.boolean true), s))
  cast : ∀ f ∈ classes, ∀ c : Context,
    perform e (.op .cast) ((c.push (.object f)).push (.object o), s) =
      (.ok .next, (c.push (.object o), s))
  /-- A function whose prototype belongs to none of the classes, and which none implements. -/
  others : ∀ f v s', getProperty e f "prototype" s = (.ok v, s') → s.store.SameLinks s'.store →
    (∀ g ∈ classes, ∀ p ∈ s.store.prototypeOf? g,
      v ≠ .object p ∧ f ∉ (s.store.object p).interfaces) → ∀ c : Context,
    perform e (.op .instanceOf) ((c.push (.object o)).push (.object f), s) =
        (.ok .next, (c.push (.boolean false), s')) ∧
      perform e (.op .cast) ((c.push (.object f)).push (.object o), s) =
        (.ok .next, (c.push .null, s'))
  /-- A member is hidden only by the object itself or by what later classes give. -/
  members : ∀ earlier f later, classes = earlier ++ f :: later → ∀ p ∈ s.store.prototypeOf? f,
    ∀ name v, name ≠ "__proto__" → s.store.own? p name = some (.data v) →
      s.store.own? o name = none →
      (∀ g ∈ later, ∀ q ∈ s.store.prototypeOf? g, s.store.own? q name = none) →
      getProperty e o name s = (.ok v, s)

section Instances

variable {e : Embedding} {s s' : State} {o : ObjectId} {classes prototypes : List ObjectId}

theorem isInstance_of_object {f p : ObjectId}
    (hget : getProperty e f "prototype" s = (.ok (.object p), s')) :
    isInstance e (.object o) (.object f) s =
      (.ok ((s'.store.ancestors instanceLimit o).any fun a =>
        a == p || (s'.store.object a).interfaces.contains f), s') := by
  unfold isInstance
  dsimp only
  rw [Exec.bind_of_ok hget]
  rfl

theorem isInstance_of_not_object {f : ObjectId} {v : Value}
    (hget : getProperty e f "prototype" s = (.ok v, s')) (hv : v.object? = none) :
    isInstance e (.object o) (.object f) s = (.ok false, s') := by
  unfold isInstance
  dsimp only
  rw [Exec.bind_of_ok hget]
  cases v with
  | object p => cases hv
  | _ => rfl

/-- An object whose prototypes are those of what classes make, latest first. -/
structure Store.Descendant (s : Store) (classes prototypes : List ObjectId) (o : ObjectId) :
    Prop where
  lineage : s.Lineage classes.reverse prototypes
  length : classes.length ≤ instanceLimit
  stored : o.index < s.objects.size
  proto : (s.object o).proto = prototypes.head?
  buffer : (s.object o).buffer? = none

namespace Store.Descendant

variable (h : s.store.Descendant classes prototypes o)

include h

theorem ancestors_eq (hlinks : s.store.SameLinks s'.store) :
    s'.store.ancestors instanceLimit o = prototypes := by
  have hall : prototypes.length ≤ instanceLimit := by
    rw [h.lineage.length_eq, List.length_reverse]
    exact h.length
  rw [(h.lineage.mono hlinks).descends.ancestors ((hlinks.proto o h.stored).trans h.proto),
    List.take_of_length_le hall]

theorem isInstance_of_mem {f : ObjectId} (hf : f ∈ classes) :
    isInstance e (.object o) (.object f) s = (.ok true, s) := by
  obtain ⟨p, hp, hfp⟩ := h.lineage.prototypeOf?_mem (List.mem_reverse.mpr hf)
  have hany : (prototypes.any fun a =>
      a == p || (s.store.object a).interfaces.contains f) = true :=
    List.any_eq_true.mpr ⟨p, hp, by rw [beq_self_eq_true, Bool.true_or]⟩
  rw [isInstance_of_object (getProperty_prototype hfp), h.ancestors_eq (.refl _), hany]

theorem isInstance_of_others {f : ObjectId} {v : Value}
    (hget : getProperty e f "prototype" s = (.ok v, s'))
    (hlinks : s.store.SameLinks s'.store)
    (hothers : ∀ g ∈ classes, ∀ p ∈ s.store.prototypeOf? g,
      v ≠ .object p ∧ f ∉ (s.store.object p).interfaces) :
    isInstance e (.object o) (.object f) s = (.ok false, s') := by
  cases v with
  | object p =>
    have hany : (prototypes.any fun a =>
        a == p || (s'.store.object a).interfaces.contains f) = false := by
      refine List.any_eq_false.mpr fun a ha => ?_
      obtain ⟨g, hg, hga⟩ := h.lineage.mem_prototypeOf? ha
      obtain ⟨hne, hinterfaces⟩ := hothers g (List.mem_reverse.mp hg) a hga
      rw [← hlinks.interfaces a (h.lineage.stored a ha)] at hinterfaces
      have hap : a ≠ p := fun hap => hne (hap ▸ rfl)
      simp [hap, hinterfaces]
    rw [isInstance_of_object hget, h.ancestors_eq hlinks, hany]
  | _ => exact isInstance_of_not_object hget rfl

/-- A member of what a class gives is read through the object, if nothing before it has the name. -/
theorem getProperty_of_member {earlier later : List ObjectId} {f p : ObjectId} {name : String}
    {v : Value} (hclasses : classes = earlier ++ f :: later) (hp : s.store.prototypeOf? f = some p)
    (hname : name ≠ "__proto__") (hown : s.store.own? p name = some (.data v))
    (hfree : s.store.own? o name = none)
    (hhidden : ∀ g ∈ later, ∀ q ∈ s.store.prototypeOf? g, s.store.own? q name = none) :
    getProperty e o name s = (.ok v, s) := by
  refine getProperty_of_data (Store.slot?_of_buffer? h.buffer name) hname ?_
  have hfound := h.lineage.found
  rw [hclasses, List.reverse_append, List.reverse_cons, List.append_assoc,
    List.map_append] at hfound
  obtain ⟨before, after, hprototypes, hbefore, hafter⟩ := List.map_eq_append_iff.mp hfound.symm
  obtain ⟨p', after, rfl, hp', -⟩ := List.map_eq_cons_iff.mp hafter
  obtain rfl : p' = p := Option.some.inj (hp'.trans hp)
  -- the prototypes of later classes come before that of this one
  have hpassed : before.findSome? (s.store.own? · name) = none := by
    refine List.findSome?_eq_none_iff.mpr fun q hq => ?_
    have hmem : some q ∈ later.reverse.map s.store.prototypeOf? :=
      hbefore ▸ List.mem_map_of_mem hq
    obtain ⟨g, hg, hgq⟩ := List.mem_map.mp hmem
    exact hhidden g (List.mem_reverse.mp hg) q hgq
  have hancestors : s.store.ancestors Store.lookupLimit o = prototypes := h.ancestors_eq (.refl _)
  rw [Store.lookup?_eq_findSome?, Store.searched, List.findSome?_cons, hfree, hancestors,
    hprototypes, List.findSome?_append, hpassed, Option.none_or, List.findSome?_cons, hown]

/-- **What has a lineage as its prototypes inherits** from the classes of the lineage. -/
theorem inherits : s.Inherits e classes o where
  instanceOf _ hf _ := perform_instanceOf (h.isInstance_of_mem hf)
  cast _ hf _ := perform_cast (h.isInstance_of_mem hf)
  others _ _ _ hget hlinks hothers _ :=
    have hno := h.isInstance_of_others hget hlinks hothers
    ⟨perform_instanceOf hno, perform_cast hno⟩
  members _ _ _ hclasses _ hp _ _ hname hown hfree hhidden :=
    h.getProperty_of_member hclasses hp hname hown hfree hhidden

end Store.Descendant

/-- **A fresh object with the prototype of a class** inherits, whatever a script does to the state
that leaves all prototypes and interfaces alone. -/
theorem Store.Lineage.inherits_fresh {q : ObjectId}
    (h : s.store.Lineage classes.reverse prototypes) (hlength : classes.length ≤ instanceLimit)
    (hq : prototypes.head? = some q)
    (hevolves : (State.mk (s.store.addObject (.ofClass "Object" (some q))).2 s.worker).Evolves s')
    (hlinks : (s.store.addObject (.ofClass "Object" (some q))).2.SameLinks s'.store) :
    s'.Inherits e classes ⟨s.store.objects.size⟩ := by
  have hfresh : (s.store.addObject (.ofClass "Object" (some q))).2.object ⟨s.store.objects.size⟩ =
      .ofClass "Object" (some q) := (Store.object_addObject _ _).trans (if_pos rfl)
  have hin : s.store.objects.size <
      (s.store.addObject (.ofClass "Object" (some q))).2.objects.size :=
    (Store.size_addObject _).symm ▸ Nat.lt_succ_self _
  obtain ⟨hstored, hpayload⟩ := hevolves.payload (o := ⟨s.store.objects.size⟩) hin
  have hlineage := (h.mono (.addObject _ _)).mono hlinks
  refine Store.Descendant.inherits ⟨hlineage, hlength, hstored, ?_, ?_⟩
  · rw [hlinks.proto ⟨s.store.objects.size⟩ hin, hfresh, hq]
    rfl
  · rw [Object.buffer?, hpayload, hfresh]
    rfl

end Instances

/-! ## Constructions -/

section Construction

variable {e : Embedding} {s : State}

/-- A construction makes an object with the prototype of the class, and asks for a call. -/
theorem construct_of_callable {c : Context} {f p : ObjectId} {args operands : List Value}
    (hcallable : (s.store.callable? (.object f)).isSome = true)
    (hp : s.store.prototypeOf? f = some p) :
    construct e (.object f) args operands (c, s) =
      (.ok (.call ⟨.object f, .object ⟨s.store.objects.size⟩, args, some ⟨s.store.objects.size⟩,
        .object p :: operands⟩),
        (c, ⟨(s.store.addObject (.ofClass "Object" (some p))).2, s.worker⟩)) := by
  obtain ⟨callable, hcallable⟩ := Option.isSome_iff_exists.mp hcallable
  have hask : exec (Exec.ask (·.callable? (.object f))) (c, s) =
      (.ok (some callable), (c, s)) := by
    rw [← hcallable]
    rfl
  unfold construct
  rw [Act.bind_of_ok hask]
  change (exec (getProperty e f "prototype") >>= _ : Act Outcome) (c, s) = _
  rw [Act.bind_of_ok (exec_of_ok (getProperty_prototype hp))]
  rfl

/-- The answer of a construction is the object that it has made, unless the call gives another. -/
theorem step_constructed {r : Request} {o : ObjectId} {w : Value} (frames : List Frame)
    (hcreated : r.created = some o) (hw : w.object? = none) :
    Machine.step e ⟨.answer (.ok w), .call r :: frames, s⟩ =
      ⟨.answer (.ok (.object o)), frames, s.left⟩ := by
  have hanswer : Machine.constructed r.created (.ok w) = .ok (.object o) := by
    rw [hcreated]
    cases w with
    | object p => cases hw
    | _ => rfl
  change (⟨.answer (Machine.constructed r.created (.ok w)), frames, s.left⟩ : Machine) = _
  rw [hanswer]

end Construction

/-! ## Classes and what they make -/

/-- **Inheritance.** Classes whose prototypes are different objects without prototypes become
subclasses, each one of the class before it. What the last class makes after that is an instance of
all of them, if the call of the class gives no object and leaves all prototypes and interfaces
alone. -/
theorem inherits_of_extendEach {e : Embedding} (he : e.Within State.Evolves) (c : Context)
    (s : State) (base last : ObjectId) (heirs prototypes : List ObjectId)
    (hlength : heirs.length ≤ 256) (hlast : (base :: heirs).getLast? = some last)
    (hfound : (base :: heirs).map s.store.prototypeOf? = prototypes.map some)
    (hdistinct : prototypes.Nodup)
    (hplain : ∀ p ∈ prototypes,
      p.index < s.store.objects.size ∧ (s.store.object p).proto = none) :
    ∃ s₁, extendEach e base heirs (c, s) = (.ok (), (c, s₁)) ∧
      ∀ s₂ : State, s₁.store.SameLinks s₂.store →
        (s₂.store.callable? (.object last)).isSome = true → ∀ c₂ args operands,
      ∃ o kept s₃, let r : Request := ⟨.object last, .object o, args, some o, kept⟩
        construct e (.object last) args operands (c₂, s₂) = (.ok (.call r), (c₂, s₃)) ∧
        ∀ frames k w s₄,
          Machine.run e k ⟨.call r, frames, s₃⟩ = ⟨.answer (.ok w), .call r :: frames, s₄⟩ →
          w.object? = none → s₃.store.SameLinks s₄.store →
            Machine.run e (k + 1) ⟨.call r, frames, s₃⟩ =
                ⟨.answer (.ok (.object o)), frames, s₄.left⟩ ∧
              s₄.left.Inherits e (base :: heirs) o := by
  cases prototypes with
  | nil => cases hfound
  | cons p prototypes =>
  obtain ⟨hbase, hheirs⟩ := List.cons.inj hfound
  obtain ⟨⟨hstored, hproto⟩, hothers⟩ := List.forall_mem_cons.mp hplain
  have hstoredHeirs : ∀ f ∈ heirs, f.index < s.store.objects.size := by
    intro f hf
    obtain ⟨q, -, hq⟩ := Store.exists_of_map_prototypeOf? hheirs hf
    exact Store.lt_size_of_prototypeOf? hq
  have hstart : s.store.Awaits [base] [p] heirs prototypes :=
    ⟨.single hbase hproto hstored, hstoredHeirs, hheirs, hdistinct, fun q hq => (hothers q hq).1⟩
  obtain ⟨s₁, chain, hextend, hlineage⟩ := extendEach_awaits e c hstart
  refine ⟨s₁, hextend, fun s₂ hlinks hcallable c₂ args operands => ?_⟩
  replace hlineage := hlineage.mono hlinks
  rw [← List.reverse_cons] at hlineage
  obtain ⟨q, hq, hfirst⟩ := hlineage.exists_head (List.head?_reverse.trans hlast)
  refine ⟨_, _, _, construct_of_callable hcallable hfirst,
    fun frames k w s₄ hrun hw hlinks₄ => ⟨?_, ?_⟩⟩
  · rw [Machine.run_step, hrun, step_constructed frames rfl hw]
  · have hevolves := Machine.evolves_run he ⟨.call ⟨.object last,
      .object ⟨s₂.store.objects.size⟩, args, some ⟨s₂.store.objects.size⟩,
      .object q :: operands⟩, frames,
      ⟨(s₂.store.addObject (.ofClass "Object" (some q))).2, s₂.worker⟩⟩ k
    rw [hrun] at hevolves
    have hleft : s₄.Evolves s₄.left := State.evolves_withWorker s₄ _
    exact hlineage.inherits_fresh (Nat.succ_le_succ hlength) hq (hevolves.trans hleft) hlinks₄

/-- A class and its subclass, both of which do nothing when they are called. The object that the
subclass makes is an instance of both, and has what the class gives. -/
theorem inherits_of_idle_classes :
    let idle (p : ObjectId) : Object := .function (.host (.system .idle)) p
    let model : Object := Object.plain.define "kind" (.boolean true)
    let s : State := ⟨⟨#[idle ⟨2⟩, idle ⟨3⟩, model, .plain], #[], #[]⟩, .idle .default ⟨3⟩ ⟨0⟩⟩
    let c := topContext s.worker
    [(⟨1⟩ : ObjectId)].length ≤ 256 ∧ [(⟨0⟩ : ObjectId), ⟨1⟩].getLast? = some ⟨1⟩ ∧
      [⟨0⟩, ⟨1⟩].map s.store.prototypeOf? = [(⟨2⟩ : ObjectId), ⟨3⟩].map some ∧
      [(⟨2⟩ : ObjectId), ⟨3⟩].Nodup ∧
      (∀ p ∈ [(⟨2⟩ : ObjectId), ⟨3⟩],
        p.index < s.store.objects.size ∧ (s.store.object p).proto = none) ∧
      ∃ s', s'.Inherits .none [⟨0⟩, ⟨1⟩] ⟨5⟩ ∧
        perform .none (.op .instanceOf) ((c.push (.object ⟨5⟩)).push (.object ⟨0⟩), s') =
          (.ok .next, (c.push (.boolean true), s')) ∧
        getProperty .none ⟨5⟩ "kind" s' = (.ok (.boolean true), s') := by
  intro idle model s c
  have hfound : [⟨0⟩, ⟨1⟩].map s.store.prototypeOf? = [(⟨2⟩ : ObjectId), ⟨3⟩].map some := by
    decide +kernel
  have hplain : ∀ p ∈ [(⟨2⟩ : ObjectId), ⟨3⟩],
      p.index < s.store.objects.size ∧ (s.store.object p).proto = none := by
    decide +kernel
  obtain ⟨s₁, hextend, hmakes⟩ := inherits_of_extendEach (e := .none) Embedding.within_none c s ⟨0⟩
    ⟨1⟩ [⟨1⟩] [⟨2⟩, ⟨3⟩] (by decide) rfl hfound (by decide) hplain
  obtain rfl : s₁ = (extendEach .none ⟨0⟩ [⟨1⟩] (c, s)).2.2 := by rw [hextend]
  have hcallable : ((extendEach .none ⟨0⟩ [⟨1⟩] (c, s)).2.2.store.callable?
    (.object ⟨1⟩)).isSome = true := by decide +kernel
  obtain ⟨o, kept, s₃, hconstruct, hanswer⟩ := hmakes _ (.refl _) hcallable c [] []
  rw [construct_of_callable hcallable (p := ⟨4⟩) (by decide +kernel)] at hconstruct
  cases hconstruct
  obtain ⟨-, hinherits⟩ := hanswer [] 1 .undefined _ rfl rfl (.refl _)
  refine ⟨by decide, rfl, hfound, by decide, hplain, _, hinherits,
    hinherits.instanceOf ⟨0⟩ List.mem_cons_self c, ?_⟩
  exact hinherits.members [] ⟨0⟩ [⟨1⟩] rfl ⟨2⟩ (by decide +kernel) "kind" (.boolean true)
    (by decide) rfl rfl (by decide +kernel)

end ActionVm
