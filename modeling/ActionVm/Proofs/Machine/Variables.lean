import ActionVm.Machine.Actions
import ActionVm.Proofs.Store.Assignment
import ActionVm.Proofs.Text.Splitting

/-!
# Variables and their scopes

A variable is read and assigned in the innermost object of the scope that has its name, own or
inherited, but it is removed where it is an object's own.

* `IsVariable`: names that are looked up in the scope;
* `Store.home`: the object in which a variable is assigned, with `getVariable_of_findScope` and
  `setVariable_of_isVariable`;
* `Store.findScope_assign`: where a variable is found that was assigned;
* **`setVariable_then_get`**: an assigned variable, and all others;
* `Store.owner?`: the innermost object with an own member of a name, with
  `Store.findScope_of_owner?`: whether the variable is found there;
* **`delete2_variable`**, **`delete2_of_inherited`**: a variable that is removed, and one that is
  removed in the place of another.
-/

namespace ActionVm

/-- A name that is looked up in the scope: it has no points, and no meaning of its own. -/
structure IsVariable (name : String) : Prop where
  noPoint : '.' ∉ name.toList
  ordinary : name ∉ ["this", "_global", "_root", "_parent", "__proto__"]

instance (name : String) : Decidable (IsVariable name) :=
  decidable_of_iff ('.' ∉ name.toList ∧ name ∉ ["this", "_global", "_root", "_parent", "__proto__"])
    ⟨fun h => ⟨h.1, h.2⟩, fun h => ⟨h.noPoint, h.ordinary⟩⟩

theorem IsVariable.ne_proto {name : String} (h : IsVariable name) : name ≠ "__proto__" := by
  rintro rfl
  exact h.ordinary (by decide)

theorem IsVariable.splitOn_eq {name : String} (h : IsVariable name) : name.splitOn "." = [name] :=
  splitOn_of_notMem h.noPoint

/-- The first of a list that has one property is the first that has another one, if each of them
has both. -/
theorem eq_of_find? {α : Type} {q r : α → Bool} {a b : α} {l : List α} (ha : l.find? q = some a)
    (hb : l.find? r = some b) (har : r a = true) (hbq : q b = true) : a = b := by
  induction l with
  | nil => cases ha
  | cons x l ih =>
    by_cases hq : q x = true
    · rw [List.find?_cons_of_pos hq] at ha
      obtain rfl := Option.some.inj ha
      rw [List.find?_cons_of_pos har] at hb
      exact Option.some.inj hb
    · by_cases hr : r x = true
      · rw [List.find?_cons_of_pos hr] at hb
        obtain rfl := Option.some.inj hb
        exact absurd hbq hq
      · rw [List.find?_cons_of_neg hq] at ha
        rw [List.find?_cons_of_neg hr] at hb
        exact ih ha hb

namespace Store

variable {s s' : Store} {scope : Scope} {name : String} {o p : ObjectId} {v : Value}

theorem has_of_own? (h : (s.own? o name).isSome = true) : s.has o name = true := by
  obtain ⟨x, hx⟩ := Option.isSome_iff_exists.mp h
  rw [has, lookup?_of_own? hx, Option.isSome_some, Bool.or_true]

theorem lt_size_of_has (h : s.has o name = true) : o.index < s.objects.size := by
  by_contra hle
  have hobject : s.object o = .plain := object_of_size_le (Nat.le_of_not_lt hle)
  have hslot : s.slot? o name = none := slot?_of_buffer? (hobject ▸ rfl) name
  have hsearched : s.searched o = [o] := by
    rw [searched, lookupLimit, ancestors, hobject]
    rfl
  have hown : s.own? o name = none := by
    rw [own?, hobject]
    rfl
  rw [has, hslot, lookup?_eq_findSome?, hsearched, List.findSome?_cons, hown] at h
  cases h

theorem has_of_findScope (h : s.findScope scope name = some o) : s.has o name = true :=
  List.find?_some (p := (s.has · name)) h

theorem findScope_congr (h : ∀ o, s'.has o name = s.has o name) :
    s'.findScope scope name = s.findScope scope name := by
  rw [findScope, findScope, funext h]

/-- The object in which a variable is assigned: the innermost one that has it, or else the base. -/
def home (s : Store) (scope : Scope) (name : String) : ObjectId :=
  (s.findScope scope name).getD scope.base

theorem home_mem (s : Store) (scope : Scope) (name : String) :
    s.home scope name ∈ scope.toList := by
  rw [home]
  rcases h : s.findScope scope name with _ | o
  · exact List.mem_append_right _ (List.mem_singleton_self _)
  · exact List.mem_of_find?_eq_some h

theorem lt_size_home (hbase : scope.base.index < s.objects.size) (name : String) :
    (s.home scope name).index < s.objects.size := by
  rw [home]
  rcases h : s.findScope scope name with _ | o
  · exact hbase
  · exact lt_size_of_has (has_of_findScope h)

/-- No object of the scope has the name but where the variable is assigned, or further out. -/
theorem eq_home_of_findScope {s' : Store} (hhome : s'.has (s.home scope name) name = true)
    (ho : s'.findScope scope name = some o) (hhas : s.has o name = true) :
    o = s.home scope name := by
  rcases h : s.findScope scope name with _ | q
  · have hnone := List.find?_eq_none.mp h o (List.mem_of_find?_eq_some ho)
    exact absurd hhas hnone
  · rw [home, h, Option.getD_some] at hhome ⊢
    exact eq_of_find? ho h hhas hhome

/-! ## Assigned variables -/

/-- What finds a member only since it was assigned finds the value. -/
theorem lookup?_assign_of_none (hstored : o.index < s.objects.size)
    (hnone : s.lookup? p name = none)
    (hsome : ((s.assign o name v).lookup? p name).isSome = true) :
    (s.assign o name v).lookup? p name = some (.data v) := by
  have hdiffers := s.differsAt_assign o name v
  rw [lookup?_eq_findSome?, List.findSome?_eq_none_iff] at hnone
  obtain ⟨x, hx⟩ := Option.isSome_iff_exists.mp hsome
  rw [hx]
  rw [lookup?_eq_findSome?, hdiffers.searched_eq] at hx
  obtain ⟨q, hq, hown⟩ := List.exists_of_findSome?_eq_some hx
  by_cases hqo : q = o
  · rw [← hown, hqo, own?_assign_self hstored]
  · rw [hdiffers.own?_eq hqo, hnone q hq] at hown
    cases hown

/-- An assigned variable is found in an object of the scope, which has the value. -/
theorem findScope_assign (hstored : (s.home scope name).index < s.objects.size)
    (hbuffer : (s.object (s.home scope name)).buffer? = none) (v : Value) :
    ∃ o, (s.assign (s.home scope name) name v).findScope scope name = some o ∧
      (s.assign (s.home scope name) name v).slot? o name = none ∧
      (s.assign (s.home scope name) name v).lookup? o name = some (.data v) := by
  have hdiffers := s.differsAt_assign (s.home scope name) name v
  have hown := own?_assign_self hstored name v
  have hhome : (s.assign (s.home scope name) name v).has (s.home scope name) name = true :=
    has_of_own? (by rw [hown]; rfl)
  rcases ho : (s.assign (s.home scope name) name v).findScope scope name with _ | o
  · have hnone := List.find?_eq_none.mp ho _ (s.home_mem scope name)
    exact absurd hhome hnone
  · refine ⟨o, rfl, ?_⟩
    by_cases hhas : s.has o name = true
    · -- the variable was there before
      obtain rfl := eq_home_of_findScope hhome ho hhas
      exact ⟨by rw [hdiffers.slot?_eq, slot?_of_buffer? hbuffer], lookup?_of_own? hown⟩
    · -- the object has it only since the assignment, as an heir of the one that was assigned
      have hfound : (s.assign (s.home scope name) name v).has o name = true :=
        has_of_findScope ho
      rw [has, Bool.or_eq_true, not_or, Bool.not_eq_true, Bool.not_eq_true,
        Option.isSome_eq_false_iff, Option.isSome_eq_false_iff, Option.isNone_iff_eq_none,
        Option.isNone_iff_eq_none] at hhas
      have hslot : (s.assign (s.home scope name) name v).slot? o name = none :=
        (hdiffers.slot?_eq o name).trans hhas.1
      rw [has, hslot, Option.isSome_none, Bool.false_or] at hfound
      exact ⟨hslot, lookup?_assign_of_none hstored hhas.2 hfound⟩

end Store

section Variables

variable {e : Embedding} {c : Context} {s : State} {name : String} {o : ObjectId}

theorem getVariable_of_findScope (hname : IsVariable name)
    (ho : s.store.findScope c.scope name = some o) :
    getVariable e c name s = getProperty e o name s := by
  have hsimple : getSimple e c name s = getProperty e o name s := by
    have hordinary := hname.ordinary
    unfold getSimple
    split
    case h_5 =>
      rw [Exec.bind_ask, ho]
    all_goals exact absurd (by decide) hordinary
  unfold getVariable
  rw [hname.splitOn_eq]
  exact (congrFun (bind_pure (getSimple e c name)) s).trans hsimple

theorem setVariable_of_isVariable (hname : IsVariable name) (v : Value) :
    setVariable e c name v s = setProperty e (s.store.home c.scope name) name v s := by
  unfold setVariable
  rw [hname.splitOn_eq]
  rw [List.dropLast_singleton]
  dsimp only
  rw [Exec.bind_ask, Store.home]

end Variables

/-- **A variable that is assigned is found again.** It becomes an own member of the innermost object
that has it, or else of the base, and of no other object. Reading it gives the value, also where the
search ends further inside than before. Other variables are found in the same objects as before. -/
theorem setVariable_then_get (e : Embedding) (c : Context) (s : State) (name : String) (v : Value)
    (hname : IsVariable name) (hbase : c.scope.base.index < s.store.objects.size)
    (hbuffer : (s.store.object (s.store.home c.scope name)).buffer? = none)
    (hplain : s.store.IsPlain (s.store.home c.scope name) name) :
    ∃ s', setVariable e c name v s = (.ok (), s') ∧
      s'.store.own? (s.store.home c.scope name) name = some (.data v) ∧
      s.store.DiffersAt (s.store.home c.scope name) s'.store ∧
      (∀ m ≠ name, m ≠ "length" → s'.store.own? (s.store.home c.scope name) m =
        s.store.own? (s.store.home c.scope name) m) ∧
      getVariable e c name s' = (.ok v, s') ∧
      (∀ m ≠ name, m ≠ "length" →
        s'.store.findScope c.scope m = s.store.findScope c.scope m) ∧
      s'.worker = s.worker := by
  let s' : State := ⟨s.store.assign (s.store.home c.scope name) name v, s.worker⟩
  have hset : setVariable e c name v s = (.ok (), s') :=
    (setVariable_of_isVariable hname v).trans
      (setProperty_of_isPlain hbuffer hname.ne_proto hplain v)
  have hstored := Store.lt_size_home hbase name
  have hdiffers : s.store.DiffersAt (s.store.home c.scope name) s'.store :=
    s.store.differsAt_assign _ name v
  have hothers : ∀ m ≠ name, m ≠ "length" → s'.store.own? (s.store.home c.scope name) m =
      s.store.own? (s.store.home c.scope name) m := fun m hm hlength =>
    Store.own?_assign_of_ne hstored v hm fun _ => hlength
  have hget : getVariable e c name s' = (.ok v, s') := by
    obtain ⟨o, ho, hslot, hlookup⟩ := Store.findScope_assign hstored hbuffer v
    have ho' : s'.store.findScope c.scope name = some o := ho
    rw [getVariable_of_findScope hname ho']
    exact getProperty_of_data hslot hname.ne_proto hlookup
  have hfound : ∀ m ≠ name, m ≠ "length" →
      s'.store.findScope c.scope m = s.store.findScope c.scope m := fun m hm hlength =>
    Store.findScope_congr fun o => hdiffers.has_eq fun _ => hothers m hm hlength
  exact ⟨s', hset, Store.own?_assign_self hstored name v, hdiffers, hothers, hget, hfound, rfl⟩

/-- A variable that no object of the scope has is made in the base, and read in an object further
inside, which has the base for a prototype. -/
theorem setVariable_then_get_of_heir :
    let s : State := ⟨⟨#[.ofClass "global" none, .ofClass "Object" (some ⟨0⟩)], #[],
      #[⟨none, .empty, none⟩]⟩, .idle .default ⟨0⟩ ⟨0⟩⟩
    let c : Context := .start ⟨⟨0⟩, [⟨1⟩]⟩ .null
    IsVariable "x" ∧ c.scope.base.index < s.store.objects.size ∧
      s.store.home c.scope "x" = ⟨0⟩ ∧ (s.store.object ⟨0⟩).buffer? = none ∧
      s.store.IsPlain ⟨0⟩ "x" ∧
      ∃ s', setVariable .none c "x" (.string "new") s = (.ok (), s') ∧
        s'.store.own? ⟨0⟩ "x" = some (.data (.string "new")) ∧
        s'.store.object ⟨1⟩ = .ofClass "Object" (some ⟨0⟩) ∧
        getVariable .none c "x" s' = (.ok (.string "new"), s') := by
  intro s c
  have hname : IsVariable "x" := by decide
  have hhome : s.store.home c.scope "x" = ⟨0⟩ := rfl
  have hplain : s.store.IsPlain ⟨0⟩ "x" := by
    intro x hx
    cases (hx : (none : Option Property) = some x)
  obtain ⟨s', hset, hown, hdiffers, -, hget, -⟩ :=
    setVariable_then_get .none c s "x" (.string "new") hname (by decide) rfl hplain
  exact ⟨hname, by decide, hhome, rfl, hplain, s', hset, hown, hdiffers.others ⟨1⟩ (by decide),
    hget⟩

/-! ## Removed variables -/

namespace Store

variable {s : Store} {scope : Scope} {name : String} {o p : ObjectId}

/-- The innermost object of a scope that has an own member of the name. -/
def owner? (s : Store) (scope : Scope) (name : String) : Option ObjectId :=
  scope.toList.find? fun o => (s.own? o name).isSome

theorem own?_of_owner? (h : s.owner? scope name = some o) : (s.own? o name).isSome = true :=
  List.find?_some (p := fun o => (s.own? o name).isSome) h

/-- A variable is found in the object from which it would be removed, if it is the own one of where
it is found. -/
theorem findScope_of_owner? (hp : s.owner? scope name = some p) :
    ∃ o, s.findScope scope name = some o ∧ (o = p ↔ (s.own? o name).isSome = true) := by
  have hown : (s.own? p name).isSome = true := own?_of_owner? hp
  rcases ho : s.findScope scope name with _ | o
  · have hnone := List.find?_eq_none.mp ho p (List.mem_of_find?_eq_some hp)
    exact absurd (has_of_own? hown) hnone
  · refine ⟨o, rfl, fun h => h ▸ hown, fun h => ?_⟩
    exact eq_of_find? ho hp h (has_of_own? hown)

/-- An object loses its own member of a name, and nothing else changes. -/
structure Removes (s : Store) (o : ObjectId) (name : String) (s' : Store) : Prop where
  owned : (s.own? o name).isSome = true
  differs : s.DiffersAt o s'
  names : (s'.object o).properties.names = (s.object o).properties.names.erase name
  others : ∀ m ≠ name, ∀ p, s'.own? p m = s.own? p m

theorem removes_erase (h : (s.own? o name).isSome = true) : s.Removes o name (s.erase o name) where
  owned := h
  differs := .erase s o name
  names := by
    rw [erase, object_modify_self (lt_size_of_has (has_of_own? h))]
    exact Table.names_erase _ name
  others m hm p := by
    rw [own?, own?, erase, object_modify]
    split_ifs with hp
    · rw [hp.1]
      exact Table.get?_erase_of_ne hm _
    · rfl

end Store

theorem deleteVariable_of_owner? {s : Store} {scope : Scope} {name : String} {p : ObjectId}
    (h : s.owner? scope name = some p) : deleteVariable s scope name = (true, s.erase p name) := by
  rw [Store.owner?] at h
  rw [deleteVariable, h]

theorem deleteVariable_of_owner?_eq_none {s : Store} {scope : Scope} {name : String}
    (h : s.owner? scope name = none) : deleteVariable s scope name = (false, s) := by
  rw [Store.owner?] at h
  rw [deleteVariable, h]

theorem perform_delete2 (e : Embedding) (c : Context) (s : State) :
    perform e (.op .delete2) (c, s) =
      let (found, store) := deleteVariable s.store c.scope (s.store.text c.peek)
      (.ok .next, c.pop.push (.boolean found), ⟨store, s.worker⟩) := rfl

/-- **A variable is removed from the innermost object that has it as its own.** That is the object
in which it is read and assigned, if this one has it as its own; and if it only inherits it, nothing
is removed, unless an object further out has the name as its own. -/
theorem delete2_variable (e : Embedding) (c : Context) (s : State) (name : String)
    (htext : s.store.text c.peek = name) (hname : IsVariable name) :
    ∃ s', perform e (.op .delete2) (c, s) =
        (.ok .next, c.pop.push (.boolean (s.store.owner? c.scope name).isSome), s') ∧
      s'.worker = s.worker ∧
      (∀ o, s.store.findScope c.scope name = some o →
        getVariable e c name s = getProperty e o name s ∧
          ∀ v, setVariable e c name v s = setProperty e o name v s) ∧
      (s.store.owner? c.scope name = none → s'.store = s.store) ∧
      (∀ p, s.store.owner? c.scope name = some p → s.store.Removes p name s'.store ∧
        ∃ o, s.store.findScope c.scope name = some o ∧
          (o = p ↔ (s.store.own? o name).isSome = true)) ∧
      ((∀ o, s.store.findScope c.scope name = some o → s.store.own? o name = none →
          s.store.owner? c.scope name = none) →
        (∀ p, s.store.owner? c.scope name = some p →
          s.store.findScope c.scope name = some p) ∧
        ∀ o, s.store.findScope c.scope name = some o → s.store.own? o name = none →
          s'.store = s.store) := by
  have hreads : ∀ o, s.store.findScope c.scope name = some o →
      getVariable e c name s = getProperty e o name s ∧
        ∀ v, setVariable e c name v s = setProperty e o name v s := by
    intro o ho
    refine ⟨getVariable_of_findScope hname ho, fun v => ?_⟩
    rw [setVariable_of_isVariable hname, Store.home, ho, Option.getD_some]
  have hperform := perform_delete2 e c s
  rw [htext] at hperform
  rcases hp : s.store.owner? c.scope name with _ | p
  · rw [deleteVariable_of_owner?_eq_none hp] at hperform
    exact ⟨_, hperform, rfl, hreads, fun _ => rfl, nofun, fun _ => ⟨nofun, fun _ _ _ => rfl⟩⟩
  · rw [deleteVariable_of_owner? hp] at hperform
    obtain ⟨o, ho, hiff⟩ := Store.findScope_of_owner? hp
    refine ⟨_, hperform, rfl, hreads, nofun, ?_, fun hinherits => ⟨?_, fun o ho hnone => ?_⟩⟩
    · rintro q hq
      obtain rfl := Option.some.inj hq
      exact ⟨Store.removes_erase (Store.own?_of_owner? hp), o, ho, hiff⟩
    · rintro q hq
      obtain rfl := Option.some.inj hq
      rw [ho, Option.some.injEq, hiff]
      by_contra hnone
      exact absurd (hinherits o ho (Option.not_isSome_iff_eq_none.mp hnone)) nofun
    · exact absurd (hinherits o ho hnone) nofun

/-- A global variable that an object in scope hides by a member of its own keeps its value. -/
theorem delete2_variable_of_member :
    let x : Table Property := ⟨[("x", .data .null)]⟩
    let s : State := ⟨⟨#[⟨"global", none, x, [], .plain⟩, ⟨"Object", some ⟨0⟩, x, [], .plain⟩], #[],
      #[⟨none, .empty, none⟩]⟩, .idle .default ⟨0⟩ ⟨0⟩⟩
    let c : Context := (Context.start ⟨⟨0⟩, [⟨1⟩]⟩ .null).push (.string "x")
    s.store.text c.peek = "x" ∧ IsVariable "x" ∧ s.store.findScope c.scope "x" = some ⟨1⟩ ∧
      ∃ s', perform .none (.op .delete2) (c, s) =
          (.ok .next, c.pop.push (.boolean true), s') ∧
        s.store.Removes ⟨1⟩ "x" s'.store ∧ s'.store.object ⟨0⟩ = s.store.object ⟨0⟩ := by
  intro x s c
  have hname : IsVariable "x" := by decide
  obtain ⟨s', hperform, -, -, -, hremoves, -⟩ := delete2_variable .none c s "x" rfl hname
  obtain ⟨hremoves, -⟩ := hremoves ⟨1⟩ rfl
  exact ⟨rfl, hname, rfl, s', hperform, hremoves, hremoves.differs.others ⟨0⟩ (by decide)⟩

/-- **An outer variable is removed in the place of an inherited one.** The name is read in an object
that inherits it, and what is removed is the global variable behind it. -/
theorem delete2_of_inherited :
    let x : Table Property := ⟨[("x", .data .null)]⟩
    let s : State := ⟨⟨#[⟨"global", none, x, [], .plain⟩, .ofClass "Object" (some ⟨2⟩),
      ⟨"Object", none, x, [], .plain⟩], #[], #[⟨none, .empty, none⟩]⟩, .idle .default ⟨0⟩ ⟨0⟩⟩
    let c : Context := (Context.start ⟨⟨0⟩, [⟨1⟩]⟩ .null).push (.string "x")
    s.store.text c.peek = "x" ∧ IsVariable "x" ∧ s.store.findScope c.scope "x" = some ⟨1⟩ ∧
      s.store.own? ⟨1⟩ "x" = none ∧
      ∃ s', perform .none (.op .delete2) (c, s) =
          (.ok .next, c.pop.push (.boolean true), s') ∧
        s.store.Removes ⟨0⟩ "x" s'.store ∧ (s'.store.object ⟨0⟩).properties.names = [] := by
  intro x s c
  exact ⟨rfl, by decide, rfl, rfl, _, rfl, Store.removes_erase rfl, rfl⟩

end ActionVm
