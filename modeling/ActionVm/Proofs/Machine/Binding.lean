import ActionVm.Proofs.Machine.Turns
import ActionVm.Proofs.Store.Entries
import Mathlib.Data.List.Nodup

/-!
# What a function finds when it starts

The arguments of a function with registers are put into registers or defined by name. What else it
may find takes the registers that are left, from the first one on, or is defined by name as well.

* `WellKnown`, `WellKnown.Is`, `WellKnown.Found`: the values that a function may find besides its
  arguments;
* `PreloadFlags.preloads`, `PreloadFlags.wanted`, `PreloadFlags.local?`: what a flag word asks for;
* `registerArgument?`, `namedArgument?`: the last argument for a register, or for a name;
* `State.Opens`, `State.Extends`: what is done to the state while a call is opened;
* `bindParams_spec`, `preload_spec`, `defineLocals_spec`: the three parts of a call that is opened;
* **`Machine.call_binds`**: registers and local variables when the body starts.
-/

namespace ActionVm

/-! ## Values beside the arguments -/

/-- The values that a function may find besides its arguments. -/
inductive WellKnown where
  | this
  | arguments
  | super
  | parent
  | root
  | global
  deriving DecidableEq, Repr

namespace WellKnown

/-- All of them, in the order of their registers. -/
def all : List WellKnown := [this, arguments, super, parent, root, global]

/-- The bit of a flag word that asks for the value in a register. -/
def preloadBit : WellKnown → ℕ
  | this => 0
  | arguments => 2
  | super => 4
  | root => 6
  | parent => 7
  | global => 8

/-- The bit of a flag word by which the function does not get the value at all. -/
def suppressBit? : WellKnown → Option ℕ
  | this => some 1
  | arguments => some 3
  | super => some 5
  | parent | root | global => none

/-- Those that are local variables where nothing else is said, by name. -/
def named : List (String × WellKnown) :=
  [("this", this), ("arguments", arguments), ("super", super)]

/-- How the value comes about when a call is opened. -/
def value (e : Embedding) (this : Value) (args : List Value) : WellKnown → Exec Value
  | .this => return this
  | arguments => argumentsArray args
  | super => Exec.ask (superOf · this)
  | parent => return .ofObject? (← Exec.look (e.parentOf · this))
  | root => return .object (← Exec.look (rootObject e))
  | global => return .object (← Exec.worker Worker.global)

/-- What the value is for a call that is opened in one store and has its body started in another.
The arguments are an array of their own, and the stage replies in the state in which it is asked. -/
def Is (e : Embedding) (before after : Store) (asked : State) (this : Value) (args : List Value)
    (v : Value) : WellKnown → Prop
  | .this => v = this
  | arguments => ∃ a, v = .object a ∧ before.objects.size ≤ a.index ∧ after.object a = .array args
  | super => v = superOf after this
  | parent => v = .ofObject? (e.parentOf asked this)
  | root => v = .object (rootObject e asked)
  | global => v = .object asked.worker.global

end WellKnown

namespace PreloadFlags

/-- The function does not get the value at all. -/
def suppresses (f : PreloadFlags) (p : WellKnown) : Bool := p.suppressBit?.any f.bit

/-- The function gets the value in a register. -/
def preloads (f : PreloadFlags) (p : WellKnown) : Bool := f.bit p.preloadBit && !f.suppresses p

/-- The values that the function gets in registers, in order. -/
def wanted (f : PreloadFlags) : List WellKnown := WellKnown.all.filter f.preloads

/-- The values that become local variables, by name. -/
def locals (f : PreloadFlags) : List (String × WellKnown) :=
  WellKnown.named.filter fun (_, p) => !f.preloads p && !f.suppresses p

/-- The value that becomes a local variable of the name. -/
def local? (f : PreloadFlags) (name : String) : Option WellKnown :=
  (f.locals.find? (·.1 = name)).map (·.2)

theorem names_locals (f : PreloadFlags) :
    (f.locals.map Prod.fst).Sublist (WellKnown.named.map Prod.fst) := List.filter_sublist.map _

theorem nodup_locals (f : PreloadFlags) : (f.locals.map Prod.fst).Nodup :=
  f.names_locals.nodup (by decide)

theorem constructor_notMem_locals (f : PreloadFlags) :
    "__constructor__" ∉ f.locals.map Prod.fst := fun h =>
  absurd (f.names_locals.subset h) (by decide)

end PreloadFlags

theorem preloads_eq (e : Embedding) (flags : PreloadFlags) (this : Value) (args : List Value) :
    (preloads e flags this args).filterMap (fun (on, v) => if on then some v else none) =
      flags.wanted.map (WellKnown.value e this args) := by
  have hall : preloads e flags this args =
      WellKnown.all.map fun p => (flags.preloads p, p.value e this args) := by
    simp [preloads, WellKnown.all, PreloadFlags.preloads, PreloadFlags.suppresses,
      WellKnown.suppressBit?, WellKnown.preloadBit, WellKnown.value, PreloadFlags.preloadThis,
      PreloadFlags.preloadArguments, PreloadFlags.preloadSuper, PreloadFlags.preloadParent,
      PreloadFlags.preloadRoot, PreloadFlags.preloadGlobal, PreloadFlags.suppressThis,
      PreloadFlags.suppressArguments, PreloadFlags.suppressSuper]
  rw [hall, List.filterMap_map, PreloadFlags.wanted]
  change WellKnown.all.filterMap
    (fun p => if flags.preloads p then some (p.value e this args) else none) = _
  induction WellKnown.all with
  | nil => rfl
  | cons p l ih => by_cases hp : flags.preloads p <;> simp [hp, ih]

/-! ## Arguments -/

/-- Parameters with their arguments, undefined where there are fewer of these. -/
def bound (params : List RegisterParam) (args : List Value) : List (RegisterParam × Value) :=
  params.mapIdx fun i p => (p, args.getD i .undefined)

theorem bound_cons (p : RegisterParam) (params : List RegisterParam) (args : List Value) :
    bound (p :: params) args = (p, args.headD .undefined) :: bound params args.tail := by
  cases args <;> simp [bound, List.mapIdx_cons]

/-- The argument of the last parameter with a property. -/
def lastArgument? (params : List RegisterParam) (args : List Value) (f : RegisterParam → Bool) :
    Option Value := ((bound params args).reverse.find? (f ·.1)).map (·.2)

/-- The argument of the last parameter in a register. -/
def registerArgument? (params : List RegisterParam) (args : List Value) (r : ℕ) : Option Value :=
  lastArgument? params args fun p => p.register.map UInt8.toNat = some r

/-- The argument of the last parameter of a name that is in no register. -/
def namedArgument? (params : List RegisterParam) (args : List Value) (name : String) :
    Option Value := lastArgument? params args fun p => p.register = none ∧ p.name = name

theorem lastArgument?_cons (p : RegisterParam) (params : List RegisterParam) (args : List Value)
    (f : RegisterParam → Bool) : lastArgument? (p :: params) args f =
      (lastArgument? params args.tail f).or (if f p then some (args.headD .undefined) else none) := by
  rw [lastArgument?, bound_cons, List.reverse_cons, List.find?_append, Option.map_or]
  congr 1
  by_cases hp : f p <;> simp [hp]

theorem registerArgument?_cons (p : RegisterParam) (params : List RegisterParam)
    (args : List Value) (r : ℕ) : registerArgument? (p :: params) args r =
      (registerArgument? params args.tail r).or
        (if p.register.map UInt8.toNat = some r then some (args.headD .undefined) else none) := by
  simp only [registerArgument?, lastArgument?_cons, decide_eq_true_eq]

theorem namedArgument?_cons (p : RegisterParam) (params : List RegisterParam) (args : List Value)
    (name : String) : namedArgument? (p :: params) args name =
      (namedArgument? params args.tail name).or
        (if p.register = none ∧ p.name = name then some (args.headD .undefined) else none) := by
  simp only [namedArgument?, lastArgument?_cons, decide_eq_true_eq]

/-! ## The store while a call is opened -/

/-- The activation gets other members, and the arguments are put into arrays of their own. -/
structure State.Opens (activation : ObjectId) (args : List Value) (s s' : State) : Prop where
  stored : activation.index < s.store.objects.size
  worker : s'.worker = s.worker
  buffers : s'.store.buffers = s.store.buffers
  domains : s'.store.domains = s.store.domains
  size : s.store.objects.size ≤ s'.store.objects.size
  same : ∀ o, o.index < s.store.objects.size → o ≠ activation →
    s'.store.object o = s.store.object o
  proto : (s'.store.object activation).proto = (s.store.object activation).proto
  fresh : ∀ o, s.store.objects.size ≤ o.index →
    s'.store.object o = default ∨ s'.store.object o = .array args

/-- A state of the same worker in which everything that was there before is as it was. -/
structure State.Extends (s s' : State) : Prop where
  worker : s'.worker = s.worker
  buffers : s'.store.buffers = s.store.buffers
  domains : s'.store.domains = s.store.domains
  objects : ∀ o, o.index < s.store.objects.size → s'.store.object o = s.store.object o

/-- The value for a call that is opened in one state and has its body started in another. The stage
is asked in a state between them. -/
def WellKnown.Found (e : Embedding) (s s' : State) (this : Value) (args : List Value) (v : Value)
    (p : WellKnown) : Prop :=
  ∃ asked, s.Extends asked ∧ p.Is e s.store s'.store asked this args v

/-- No index is the name of the member for superclasses. -/
theorem array_constructor (args : List Value) :
    (Object.array args).value? "__constructor__" = none := by
  have hname : ∀ i : ℕ, toString i ≠ "__constructor__" := by
    intro i hi
    refine Nat.underscore_not_in_toDigits (n := i) ?_
    rw [← Nat.toList_repr, ← Nat.toString_eq_repr, hi]
    decide
  have helements : ∀ x ∈ Object.elements args, x.1 ≠ "__constructor__" := by
    intro x hx
    rw [Object.elements, List.mem_map] at hx
    obtain ⟨y, -, rfl⟩ := hx
    exact hname y.2
  have hfind : ∀ L rest : List (String × Property), (∀ x ∈ L, x.1 ≠ "__constructor__") →
      Table.find? "__constructor__" (L ++ rest) = Table.find? "__constructor__" rest := by
    intro L rest hL
    induction L with
    | nil => rfl
    | cons x L ih =>
      rw [List.forall_mem_cons] at hL
      rw [List.cons_append, Table.find?, if_neg hL.1]
      exact ih hL.2
  rw [Object.value?, Object.array, Table.get?, hfind _ _ helements]
  rfl

namespace State.Opens

variable {activation : ObjectId} {args : List Value} {s s' s'' : State} {this : Value}

theorem refl (h : activation.index < s.store.objects.size) : s.Opens activation args s where
  stored := h
  worker := rfl
  buffers := rfl
  domains := rfl
  size := le_rfl
  same _ _ _ := rfl
  proto := rfl
  fresh _ ho := Or.inl (Store.object_of_size_le ho)

theorem trans (h : s.Opens activation args s') (h' : s'.Opens activation args s'') :
    s.Opens activation args s'' where
  stored := h.stored
  worker := h'.worker.trans h.worker
  buffers := h'.buffers.trans h.buffers
  domains := h'.domains.trans h.domains
  size := h.size.trans h'.size
  same o ho hne := (h'.same o (ho.trans_le h.size) hne).trans (h.same o ho hne)
  proto := h'.proto.trans h.proto
  fresh o ho := by
    by_cases ho' : o.index < s'.store.objects.size
    · have hne : o ≠ activation := by
        rintro rfl
        exact absurd h.stored (by omega)
      rw [h'.same o ho' hne]
      exact h.fresh o ho
    · exact h'.fresh o (by omega)

theorem define (h : activation.index < s.store.objects.size) (name : String) (v : Value) :
    s.Opens activation args ⟨s.store.define activation name v, s.worker⟩ where
  stored := h
  worker := rfl
  buffers := rfl
  domains := rfl
  size := (Store.size_modify activation _).ge
  same o _ hne := Store.object_modify_of_ne hne _
  proto := by rw [Store.define, Store.object_modify_self h, Object.define]
  fresh o ho := by
    have hne : o ≠ activation := by
      rintro rfl
      omega
    rw [Store.define, Store.object_modify_of_ne hne]
    exact Or.inl (Store.object_of_size_le ho)

theorem array (h : activation.index < s.store.objects.size) :
    s.Opens activation args ⟨(s.store.addObject (.array args)).2, s.worker⟩ where
  stored := h
  worker := rfl
  buffers := rfl
  domains := rfl
  size := by simp
  same o ho _ := Store.object_addObject_of_lt ho _
  proto := by rw [Store.object_addObject_of_lt h]
  fresh o ho := by
    rw [Store.object_addObject]
    split_ifs
    · exact Or.inr rfl
    · exact Or.inl (Store.object_of_size_le ho)

/-- The activation itself is new. -/
theorem extends_of_activation {o : Object} (h : State.Opens ⟨s.store.objects.size⟩ args
    ⟨(s.store.addObject o).2, s.worker⟩ s') : s.Extends s' where
  worker := h.worker
  buffers := h.buffers
  domains := h.domains
  objects p hp := by
    have hne : p ≠ ⟨s.store.objects.size⟩ := by
      rintro rfl
      exact lt_irrefl _ hp
    have hsize : p.index < (s.store.addObject o).2.objects.size := by
      rw [Store.size_addObject]
      omega
    rw [h.same p hsize hne, Store.object_addObject_of_lt hp]

/-- `super` means the same all the time, as the arguments say nothing of it. -/
theorem superOf_eq (h : s.Opens activation args s')
    (hown : s'.store.own? activation "__constructor__" = s.store.own? activation "__constructor__")
    (this : Value) : superOf s'.store this = superOf s.store this := by
  have hproto : ∀ o, (s'.store.object o).proto = (s.store.object o).proto := by
    intro o
    by_cases ho : o.index < s.store.objects.size
    · by_cases hne : o = activation
      · rw [hne, h.proto]
      · rw [h.same o ho hne]
    · rw [Store.object_of_size_le (s := s.store) (by omega)]
      rcases h.fresh o (by omega) with hnew | hnew
      · rw [hnew]
      · rw [hnew]
        rfl
  have hvalue : ∀ p, s'.store.ownValue? p "__constructor__" =
      s.store.ownValue? p "__constructor__" := by
    intro p
    by_cases hp : p.index < s.store.objects.size
    · by_cases hne : p = activation
      · subst hne
        exact congrArg (Option.bind · Property.value?) hown
      · rw [Store.ownValue?, Store.ownValue?, h.same p hp hne]
    · rw [Store.ownValue?, Store.ownValue?, Store.object_of_size_le (s := s.store) (by omega)]
      rcases h.fresh p (by omega) with hnew | hnew
      · rw [hnew]
      · rw [hnew, array_constructor]
        rfl
  simp only [superOf, hproto, hvalue]

end State.Opens

namespace WellKnown

variable {e : Embedding} {activation : ObjectId} {args : List Value} {s s' asked : State}
  {this v : Value} {before before' : Store} {p : WellKnown}

/-- What a value is does not change while the call is opened further. -/
theorem Is.opens (h : p.Is e before s.store asked this args v) (hs : s.Opens activation args s')
    (hbefore : activation.index < before.objects.size)
    (hown : s'.store.own? activation "__constructor__" = s.store.own? activation "__constructor__") :
    p.Is e before s'.store asked this args v := by
  cases p with
  | this | parent | root | global => exact h
  | super => exact h.trans (hs.superOf_eq hown this).symm
  | arguments =>
    obtain ⟨a, rfl, ha, harray⟩ := h
    refine ⟨a, rfl, ha, ?_⟩
    have hstored : a.index < s.store.objects.size := by
      by_contra hle
      rw [Store.object_of_size_le (by omega)] at harray
      have hclass : "Object" = "Array" := congrArg Object.className harray
      exact absurd hclass (by decide)
    rw [hs.same a hstored (by rintro rfl; omega), harray]

theorem Is.mono (h : p.Is e before' s.store asked this args v)
    (hle : before.objects.size ≤ before'.objects.size) :
    p.Is e before s.store asked this args v := by
  cases p with
  | this | parent | root | global | super => exact h
  | arguments =>
    obtain ⟨a, hv, ha, harray⟩ := h
    exact ⟨a, hv, hle.trans ha, harray⟩

/-- How a value comes about. -/
theorem run_value (e : Embedding) (this : Value) (args : List Value)
    (h : activation.index < s.store.objects.size) (p : WellKnown) :
    ∃ v s', p.value e this args s = (.ok v, s') ∧ s.Opens activation args s' ∧
      s'.store.object activation = s.store.object activation ∧
      p.Is e s.store s'.store s this args v := by
  cases p with
  | this | parent | root | global | super => exact ⟨_, s, rfl, .refl h, rfl, rfl⟩
  | arguments =>
    exact ⟨_, _, rfl, .array h, Store.object_addObject_of_lt h _, _, rfl, le_rfl,
      (Store.object_addObject _ _).trans (if_pos rfl)⟩

end WellKnown

/-! ## The parts of a call that is opened -/

namespace Binding

variable {b : Binding} {r q : ℕ} {v : Value}

theorem assign_eq (hr : r < registerCount) :
    b.assign r v =
      ⟨{ b.context with registers := b.context.registers.setIfInBounds r v }, r :: b.taken⟩ := by
  simp [assign, Context.setRegister?, hr]

theorem assign_of_le (hr : registerCount ≤ r) : b.assign r v = b := by
  simp [assign, Context.setRegister?, not_lt.mpr hr]

theorem register_assign (hq : q < registerCount) :
    (b.assign r v).context.register q = if q = r then v else b.context.register q := by
  by_cases hr : r < registerCount
  · rw [assign_eq hr, Context.register, Vector.getElem?_setIfInBounds]
    by_cases h : r = q
    · simp [h, hq]
    · simp [h, Ne.symm h, Context.register]
  · rw [assign_of_le (by omega), if_neg (by omega)]

theorem mem_taken_assign (hq : q < registerCount) :
    q ∈ (b.assign r v).taken ↔ q = r ∨ q ∈ b.taken := by
  by_cases hr : r < registerCount
  · rw [assign_eq hr, List.mem_cons]
  · rw [assign_of_le (by omega)]
    exact ⟨Or.inr, fun h => h.resolve_left (by omega)⟩

/-- Nothing but registers is assigned. -/
theorem context_assign : (b.assign r v).context =
    { b.context with registers := (b.assign r v).context.registers } := by
  by_cases hr : r < registerCount
  · rw [assign_eq hr]
  · rw [assign_of_le (by omega)]

end Binding

/-- Parameters are bound to their arguments: in registers, which are taken then, or by name. -/
theorem bindParams_spec {activation : ObjectId} (all : List Value) (params : List RegisterParam) :
    ∀ (args : List Value) (b : Binding) (s : State), activation.index < s.store.objects.size →
      ∃ b' s', bindParams activation params args b s = (.ok b', s') ∧
        s.Opens activation all s' ∧
        b'.context = { b.context with registers := b'.context.registers } ∧
        (∀ r < registerCount,
          b'.context.register r = (registerArgument? params args r).getD (b.context.register r) ∧
          (r ∈ b'.taken ↔ r ∈ b.taken ∨ (registerArgument? params args r).isSome)) ∧
        ∀ name, s'.store.own? activation name =
          ((namedArgument? params args name).map .data).or (s.store.own? activation name) := by
  induction params with
  | nil =>
    intro args b s h
    exact ⟨b, s, rfl, .refl h, rfl, fun r _ => ⟨rfl, by simp [registerArgument?, lastArgument?, bound]⟩,
      fun name => rfl⟩
  | cons p params ih =>
    intro args b s h
    cases hp : p.register with
    | some r =>
      obtain ⟨b', s', hrun, hopens, hcontext, hregisters, hnames⟩ :=
        ih args.tail (b.assign r.toNat (args.headD .undefined)) s h
      refine ⟨b', s', ?_, hopens, ?_, fun q hq => ?_, fun name => ?_⟩
      · rw [bindParams]
        simp only [hp]
        exact hrun
      · rw [hcontext, Binding.context_assign]
      · obtain ⟨hvalue, htaken⟩ := hregisters q hq
        rw [hvalue, htaken, Binding.register_assign hq, Binding.mem_taken_assign hq,
          registerArgument?_cons, hp]
        by_cases hr : r.toNat = q
        · cases registerArgument? params args.tail q <;> simp [hr]
        · simp [hr, Ne.symm hr]
      · simp [hnames, namedArgument?_cons, hp]
    | none =>
      have hstored : activation.index <
          (s.store.define activation p.name (args.headD .undefined)).objects.size := by
        rwa [Store.define, Store.size_modify]
      obtain ⟨b', s', hrun, hopens, hcontext, hregisters, hnames⟩ :=
        ih args.tail b ⟨s.store.define activation p.name (args.headD .undefined), s.worker⟩ hstored
      refine ⟨b', s', ?_, (State.Opens.define h _ _).trans hopens, hcontext, fun q hq => ?_,
        fun name => ?_⟩
      · rw [bindParams]
        simp only [hp]
        exact hrun
      · simpa [registerArgument?_cons, hp] using hregisters q hq
      · rw [hnames, Store.own?_define h, namedArgument?_cons, hp]
        by_cases hn : p.name = name
        · cases namedArgument? params args.tail name <;> simp [hn]
        · simp [hn, Ne.symm hn]

/-- Values are put into the registers from `r` on that are not taken. -/
theorem preload_spec (e : Embedding) (this : Value) (args : List Value) {activation : ObjectId}
    {before : Store} (hbefore : activation.index < before.objects.size) (L : List WellKnown) :
    ∀ (r : ℕ) (b : Binding) (s : State), before.objects.size ≤ s.store.objects.size →
      ∃ b' s', preload (L.map (WellKnown.value e this args)) r b s = (.ok b', s') ∧
        s.Opens activation args s' ∧
        s'.store.object activation = s.store.object activation ∧
        b'.context = { b.context with registers := b'.context.registers } ∧
        ∀ q < registerCount,
          (q ∈ b.taken ∨ q < r ∨ r + L.length ≤ q →
            b'.context.register q = b.context.register q) ∧
          ∀ i p, L[i]? = some p → q = r + i → q ∉ b.taken →
            ∃ asked, s.Opens activation args asked ∧
              p.Is e before s'.store asked this args (b'.context.register q) := by
  induction L with
  | nil =>
    intro r b s hs
    exact ⟨b, s, rfl, .refl (by omega), rfl, rfl, fun q _ => ⟨fun _ => rfl, nofun⟩⟩
  | cons p L ih =>
    intro r b s hs
    by_cases hr : r ∈ b.taken
    · obtain ⟨b', s', hrun, hopens, hsame, hcontext, hregisters⟩ := ih (r + 1) b s hs
      refine ⟨b', s', ?_, hopens, hsame, hcontext, fun q hq => ⟨fun h => ?_, ?_⟩⟩
      · rw [List.map_cons, preload, if_pos (by simpa using hr)]
        exact hrun
      · rw [List.length_cons] at h
        exact (hregisters q hq).1 (h.imp_right fun h => by omega)
      · rintro (_ | i) p' hi rfl hfree
        · exact absurd hr hfree
        · exact (hregisters _ hq).2 i p' hi (by omega) hfree
    · obtain ⟨v, s₁, hvalue, hopens₁, hsame₁, his⟩ :=
        WellKnown.run_value e this args (hbefore.trans_le hs) p
      obtain ⟨b', s', hrun, hopens, hsame, hcontext, hregisters⟩ :=
        ih (r + 1) (b.assign r v) s₁ (hs.trans hopens₁.size)
      have hown : s'.store.own? activation "__constructor__" =
          s₁.store.own? activation "__constructor__" := by rw [Store.own?, Store.own?, hsame]
      refine ⟨b', s', ?_, hopens₁.trans hopens, hsame.trans hsame₁, ?_, fun q hq => ⟨fun h => ?_, ?_⟩⟩
      · rw [List.map_cons, preload, if_neg (by simpa using hr), Exec.bind_of_ok hvalue]
        exact hrun
      · rw [hcontext, Binding.context_assign]
      · rw [List.length_cons] at h
        have hne : q ≠ r := by
          rintro rfl
          exact h.elim hr fun h => by omega
        rw [(hregisters q hq).1, Binding.register_assign hq, if_neg hne]
        rw [Binding.mem_taken_assign hq]
        exact h.imp Or.inr fun h => by omega
      · rintro (_ | i) p' hi rfl hfree
        · cases hi
          rw [(hregisters _ hq).1 (Or.inl ((Binding.mem_taken_assign hq).mpr (Or.inl rfl))),
            Binding.register_assign hq, if_pos rfl]
          exact ⟨s, .refl (hbefore.trans_le hs), (his.mono hs).opens hopens hbefore hown⟩
        · have hfree' : r + (i + 1) ∉ (b.assign r v).taken := by
            rw [Binding.mem_taken_assign hq]
            rintro (h | h)
            · omega
            · exact hfree h
          obtain ⟨asked, hasked, his'⟩ := (hregisters _ hq).2 i p' hi (by omega) hfree'
          exact ⟨asked, hopens₁.trans hasked, his'⟩

/-- Values become local variables. -/
def defineLocals (e : Embedding) (activation : ObjectId) (this : Value) (args : List Value) :
    List (String × WellKnown) → Exec Unit
  | [] => return ()
  | (name, p) :: rest => do
    let v ← p.value e this args
    Exec.update (·.define activation name v)
    defineLocals e activation this args rest

theorem bindNames_eq (e : Embedding) (flags : PreloadFlags) (activation : ObjectId) (this : Value)
    (args : List Value) :
    bindNames flags activation this args = defineLocals e activation this args flags.locals := by
  have hthis : (!flags.preloads .this && !flags.suppresses .this) =
    (!flags.preloadThis && !flags.suppressThis) := rfl
  have harguments : (!flags.preloads .arguments && !flags.suppresses .arguments) =
    (!flags.preloadArguments && !flags.suppressArguments) := rfl
  have hsuper : (!flags.preloads .super && !flags.suppresses .super) =
    (!flags.preloadSuper && !flags.suppressSuper) := rfl
  unfold bindNames PreloadFlags.locals WellKnown.named
  simp only [List.filter_cons, List.filter_nil, hthis, harguments, hsuper]
  split_ifs <;> rfl

/-- What is left over becomes local variables, and others stay as they are. -/
theorem defineLocals_spec (e : Embedding) (this : Value) (args : List Value)
    {activation : ObjectId} {before : Store} (hbefore : activation.index < before.objects.size)
    (L : List (String × WellKnown)) :
    ∀ s : State, before.objects.size ≤ s.store.objects.size → (L.map Prod.fst).Nodup →
      "__constructor__" ∉ L.map Prod.fst →
      ∃ s', defineLocals e activation this args L s = (.ok (), s') ∧
        s.Opens activation args s' ∧ ∀ name, match L.find? (·.1 = name) with
          | some (_, p) => ∃ v, s'.store.own? activation name = some (.data v) ∧
            ∃ asked, s.Opens activation args asked ∧ p.Is e before s'.store asked this args v
          | none => s'.store.own? activation name = s.store.own? activation name := by
  induction L with
  | nil =>
    intro s hs _ _
    exact ⟨s, rfl, .refl (by omega), fun _ => rfl⟩
  | cons x L ih =>
    intro s hs hnodup hconstructor
    obtain ⟨name, p⟩ := x
    rw [List.map_cons, List.nodup_cons] at hnodup
    rw [List.map_cons, List.mem_cons, not_or] at hconstructor
    obtain ⟨v, s₁, hvalue, hopens₁, hsame₁, his⟩ :=
      WellKnown.run_value e this args (hbefore.trans_le hs) p
    have hstored := hbefore.trans_le (hs.trans hopens₁.size)
    have hopens₂ : s₁.Opens activation args ⟨s₁.store.define activation name v, s₁.worker⟩ :=
      .define hstored name v
    obtain ⟨s', hrun, hopens, hnames⟩ :=
      ih ⟨s₁.store.define activation name v, s₁.worker⟩ (hs.trans (hopens₁.trans hopens₂).size)
        hnodup.2 hconstructor.2
    have hlater : ∀ other ∉ L.map Prod.fst,
        s'.store.own? activation other = if other = name then some (.data v)
          else s.store.own? activation other := by
      intro other hother
      have hnone : L.find? (·.1 = other) = none := by
        rw [List.find?_eq_none]
        rintro y hy h
        exact hother (List.mem_map.mpr ⟨y, hy, by simpa using h⟩)
      have h := hnames other
      rw [hnone] at h
      dsimp only at h
      rw [h, Store.own?_define hstored, Store.own?, Store.own?, hsame₁]
    refine ⟨s', ?_, (hopens₁.trans hopens₂).trans hopens, fun other => ?_⟩
    · rw [defineLocals, Exec.bind_of_ok hvalue]
      exact hrun
    · by_cases hother : name = other
      · subst hother
        simp only [List.find?_cons, decide_true]
        refine ⟨v, by rw [hlater name hnodup.1, if_pos rfl], s, .refl (hbefore.trans_le hs), ?_⟩
        refine (his.mono hs).opens (hopens₂.trans hopens) hbefore ?_
        rw [hlater _ hconstructor.2, if_neg hconstructor.1, Store.own?, Store.own?, hsame₁]
      · have h := hnames other
        simp only [List.find?_cons, hother, decide_false]
        split at h
        · next hfind =>
          simp only [hfind]
          obtain ⟨v', hv', asked, hasked, his'⟩ := h
          exact ⟨v', hv', asked, (hopens₁.trans hopens₂).trans hasked, his'⟩
        · next hfind =>
          simp only [hfind]
          rw [h, Store.own?_define hstored, if_neg (Ne.symm hother), Store.own?, Store.own?, hsame₁]

/-! ## Calls -/

/-- The value that the function gets in a register unless an argument is there. They are counted
from the first register on. -/
def PreloadFlags.preloaded? (f : PreloadFlags) : ℕ → Option WellKnown
  | 0 => none
  | r + 1 => f.wanted[r]?

/-- **A call of a function with registers is opened**: what the registers and the members of the
activation are then. -/
theorem openCall_spec {c : Closure} {count : UInt8} {flags : PreloadFlags}
    {params : List RegisterParam} (hkind : c.kind = .registers count flags params) (e : Embedding)
    (this : Value) (args : List Value) (s : State) :
    ∃ context s', openCall e c this args s = (.ok context, s') ∧ s'.worker = s.worker ∧
      context = { Context.start (c.scope.push ⟨s.store.objects.size⟩) this with
        registers := context.registers
        activation := some ⟨s.store.objects.size⟩
        constants := c.constants } ∧
      (∀ r < registerCount,
        match registerArgument? params args r, flags.preloaded? r with
        | some v, _ => context.register r = v
        | none, some p => p.Found e s s' this args (context.register r)
        | none, none => context.register r = .undefined) ∧
      ∀ name, match flags.local? name with
        | some p => ∃ v, s'.store.own? ⟨s.store.objects.size⟩ name = some (.data v) ∧
          p.Found e s s' this args v
        | none => s'.store.own? ⟨s.store.objects.size⟩ name =
          (namedArgument? params args name).map .data := by
  -- the activation is the first object of the call
  let activation : ObjectId := ⟨s.store.objects.size⟩
  let s₀ : State := ⟨(s.store.addObject (.ofClass "Activation" none)).2, s.worker⟩
  let start : Context := { Context.start (c.scope.push activation) this with
    activation := some activation
    constants := c.constants }
  have hsize : s₀.store.objects.size = s.store.objects.size + 1 := Store.size_addObject _
  have hbefore : activation.index < s₀.store.objects.size := hsize ▸ Nat.lt_succ_self _
  have hempty : ∀ name, s₀.store.own? activation name = none := fun name => by
    rw [Store.own?, Store.object_addObject, if_pos rfl]
    rfl
  have hstart : ∀ r < registerCount, start.register r = .undefined := fun r hr => by
    simp [start, Context.start, Context.register, hr]
  obtain ⟨b₁, s₁, hparams, hopens₁, hcontext₁, hregisters₁, hnames₁⟩ :=
    bindParams_spec args params args ⟨start, []⟩ s₀ hbefore
  obtain ⟨b₂, s₂, hpreload, hopens₂, hsame₂, hcontext₂, hregisters₂⟩ :=
    preload_spec e this args hbefore flags.wanted 1 b₁ s₁ hopens₁.size
  obtain ⟨s₃, hlocals, hopens₃, hnames₃⟩ :=
    defineLocals_spec e this args hbefore flags.locals s₂
      (hopens₁.trans hopens₂).size flags.nodup_locals flags.constructor_notMem_locals
  have hle : s.store.objects.size ≤ s₀.store.objects.size := by omega
  refine ⟨b₂.context, s₃, ?_, ((hopens₁.trans hopens₂).trans hopens₃).worker, ?_, fun r hr => ?_,
    fun name => ?_⟩
  · have hadd : Exec.change (·.addObject (.ofClass "Activation" none)) s = (.ok activation, s₀) :=
      rfl
    rw [openCall, Exec.bind_of_ok hadd]
    simp only [hkind]
    rw [Exec.bind_of_ok hparams, preloads_eq, Exec.bind_of_ok hpreload, bindNames_eq,
      Exec.bind_of_ok hlocals]
    rfl
  · rw [hcontext₂, hcontext₁]
  · obtain ⟨hvalue₁, htaken₁⟩ := hregisters₁ r hr
    obtain ⟨hkept, hpreloaded⟩ := hregisters₂ r hr
    cases hargument : registerArgument? params args r with
    | some v =>
      dsimp only
      rw [hkept (Or.inl (htaken₁.mpr (Or.inr (by rw [hargument]; rfl)))), hvalue₁, hargument]
      rfl
    | none =>
      have hfree : r ∉ b₁.taken := fun h => by
        rw [htaken₁, hargument] at h
        simp at h
      have hundefined : b₁.context.register r = .undefined := by
        rw [hvalue₁, hargument]
        exact hstart r hr
      cases hp : flags.preloaded? r with
      | some p =>
        obtain _ | r := r
        · cases hp
        · have hown : s₃.store.own? activation "__constructor__" =
              s₂.store.own? activation "__constructor__" := by
            have h := hnames₃ "__constructor__"
            have hnone : flags.locals.find? (·.1 = "__constructor__") = none := by
              rw [List.find?_eq_none]
              rintro x hx h
              exact flags.constructor_notMem_locals
                (of_decide_eq_true h ▸ List.mem_map_of_mem (f := Prod.fst) hx)
            rw [hnone] at h
            exact h
          obtain ⟨asked, hasked, his⟩ := hpreloaded r p hp (Nat.add_comm r 1) hfree
          exact ⟨asked, (hopens₁.trans hasked).extends_of_activation,
            (his.opens hopens₃ hbefore hown).mono hle⟩
      | none =>
        have hout : r < 1 ∨ 1 + flags.wanted.length ≤ r := by
          obtain _ | r := r
          · exact Or.inl Nat.one_pos
          · right
            have := List.getElem?_eq_none_iff.mp hp
            omega
        exact (hkept (Or.inr hout)).trans hundefined
  · have h := hnames₃ name
    rw [PreloadFlags.local?]
    split at h
    · next hfind =>
      simp only [hfind, Option.map_some]
      obtain ⟨v, hv, asked, hasked, his⟩ := h
      exact ⟨v, hv, asked, ((hopens₁.trans hopens₂).trans hasked).extends_of_activation,
        his.mono hle⟩
    · next hfind =>
      simp only [hfind, Option.map_none]
      rw [h, Store.own?, hsame₂, ← Store.own?, hnames₁, hempty, Option.or_none]

/-- **What a function with registers finds when its body starts.** A register holds the last
argument for it; without one, the first registers hold what the flags ask for, in order, and the
others are undefined. The members of the activation are the arguments without registers, of which
the last of a name counts, and instead of them what the flags neither put into registers nor
leave out. The stage may reply what it likes to whatever `this` is. -/
theorem Machine.call_binds (e : Embedding) (frames : List Frame) (s : State) (r : Request)
    (c : Closure) (count : UInt8) (flags : PreloadFlags) (params : List RegisterParam)
    (hcallee : s.store.callable? r.callee = some (.closure c))
    (hkind : c.kind = .registers count flags params)
    (hdepth : s.worker.callDepth < s.worker.config.maxCallDepth) :
    ∃ context s', call e frames s r = ⟨.go (.start context c.body), .call r :: frames, s'⟩ ∧
      (∀ q < registerCount,
        match registerArgument? params r.args q, flags.preloaded? q with
        | some v, _ => context.register q = v
        | none, some p => p.Found e s.entered s' r.this r.args (context.register q)
        | none, none => context.register q = .undefined) ∧
      ∃ activation, context.activation = some activation ∧
        context.scope = c.scope.push activation ∧ s.store.objects.size ≤ activation.index ∧
        ∀ name, match flags.local? name with
          | some p => ∃ v, s'.store.own? activation name = some (.data v) ∧
            p.Found e s.entered s' r.this r.args v
          | none =>
            s'.store.own? activation name = (namedArgument? params r.args name).map .data := by
  obtain ⟨context, s', hopen, -, hcontext, hregisters, hnames⟩ :=
    openCall_spec hkind e r.this r.args s.entered
  refine ⟨context, s', ?_, hregisters, ⟨s.store.objects.size⟩, ?_, ?_, le_rfl, hnames⟩
  · rw [call_eq hcallee, if_pos hdepth, callee, ofExec, hopen]
  · rw [hcontext]
    rfl
  · rw [hcontext]
    rfl

/-- A function of three parameters, two of them in the first register. It is to have `this`,
`arguments` and `_parent` in registers, and gets no `super`. -/
def crowded : Closure where
  name := none
  kind := .registers 4 ⟨0b10100101⟩ [⟨some 1, "a"⟩, ⟨none, "this"⟩, ⟨some 1, "b"⟩]
  body := ⟨[], 0⟩
  scope := .ofBase ⟨0⟩
  constants := #[]

/-- A stage with a clip around what is null, and around nothing else. -/
def Embedding.adopting (o : ObjectId) : Embedding :=
  { Embedding.none with
    parentOf := fun _ v => match v with
      | .null => some o
      | _ => .none }

/-- The last argument for the first register stands in the way of `this`, the arguments are in the
second one, and the third one holds what the stage replies. -/
theorem Machine.call_binds_crowded :
    let s : State := ⟨⟨#[.ofClass "global" none, .function (.closure crowded) ⟨0⟩], #[],
      #[⟨none, .empty, none⟩]⟩, .idle .default ⟨0⟩ ⟨0⟩⟩
    let r : Request := ⟨.object ⟨1⟩, .null, [.integer 7, .integer 8, .integer 9], none, []⟩
    s.store.callable? r.callee = some (.closure crowded) ∧
      s.worker.callDepth < s.worker.config.maxCallDepth ∧
      ∃ context s', call (.adopting ⟨0⟩) [] s r =
          ⟨.go (.start context crowded.body), [.call r], s'⟩ ∧
        context.register 1 = .integer 9 ∧
        (∃ a, context.register 2 = .object a ∧ s'.store.object a = .array r.args) ∧
        context.register 3 = .object ⟨0⟩ ∧ context.register 4 = .undefined ∧
        ∃ activation, context.activation = some activation ∧
          s'.store.own? activation "this" = some (.data (.integer 8)) ∧
          s'.store.own? activation "a" = none ∧ s'.store.own? activation "super" = none := by
  intro s r
  obtain ⟨context, s', hcall, hregisters, activation, hactivation, -, -, hnames⟩ :=
    call_binds (.adopting ⟨0⟩) [] s r crowded 4 ⟨0b10100101⟩
      [⟨some 1, "a"⟩, ⟨none, "this"⟩, ⟨some 1, "b"⟩] rfl rfl (by decide)
  obtain ⟨_, -, a, ha, -, harray⟩ := hregisters 2 (by decide)
  obtain ⟨_, -, hparent⟩ := hregisters 3 (by decide)
  exact ⟨rfl, by decide, context, s', hcall, hregisters 1 (by decide), ⟨a, ha, harray⟩, hparent,
    hregisters 4 (by decide), activation, hactivation, hnames "this", hnames "a", hnames "super"⟩

end ActionVm
