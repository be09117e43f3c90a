import ActionVm.Members
import ActionVm.Proofs.Store.Entries
import Mathlib.Tactic.SplitIfs

/-!
# Assignments of members

A value that is assigned to a member becomes the object's own. Its prototypes keep what they have,
and so does every object for all other names.

* `Store.searched`: the objects in which a member is looked for;
* `Store.DiffersAt`: two stores that differ in the members of one object, with
  `Store.DiffersAt.lookup?_eq`, `Store.DiffersAt.has_eq`: what is found in both;
* `Store.IsPlain`, `Store.CountsAt`: no accessor is found, and an array counts the element;
* `Store.own?_assign_self`, `Store.own?_assign_of_ne`, `Store.names_assign`: the members afterwards;
* **`setProperty_local`**: what an assignment changes.
-/

namespace ActionVm

namespace Store

variable {s s' s'' : Store} {o p : ObjectId} {name m : String} {v : Value}

/-! ## Members that are looked for -/

/-- The objects in which a member is looked for: the object itself and its nearest prototypes. -/
def searched (s : Store) (o : ObjectId) : List ObjectId := o :: s.ancestors lookupLimit o

theorem lookup?_eq_findSome? (s : Store) (o : ObjectId) (name : String) :
    s.lookup? o name = (s.searched o).findSome? (s.own? · name) := by
  rw [lookup?, searched, List.findSome?_cons]
  cases s.own? o name <;> rfl

theorem lookup?_of_own? {x : Property} (h : s.own? o name = some x) :
    s.lookup? o name = some x := by
  rw [lookup?, h]

theorem slot?_of_buffer? (h : (s.object o).buffer? = none) (name : String) :
    s.slot? o name = none := by
  rw [slot?, h]

/-- No accessor is found for a member. -/
def IsPlain (s : Store) (o : ObjectId) (name : String) : Prop :=
  ∀ x ∈ s.lookup? o name, ∃ v, x = .data v

/-! ## Stores that differ in the members of one object -/

/-- Nothing differs but the members of one object. -/
structure DiffersAt (s : Store) (o : ObjectId) (s' : Store) : Prop where
  size : s'.objects.size = s.objects.size
  others : ∀ p ≠ o, s'.object p = s.object p
  rest : s'.object o = { s.object o with properties := (s'.object o).properties }
  buffers : s'.buffers = s.buffers
  domains : s'.domains = s.domains

namespace DiffersAt

theorem modify (s : Store) (o : ObjectId) (f : Table Property → Table Property) :
    s.DiffersAt o (s.modify o fun x => { x with properties := f x.properties }) where
  size := size_modify o _
  others _ hp := object_modify_of_ne hp _
  rest := by
    rw [object_modify]
    split_ifs <;> rfl
  buffers := rfl
  domains := rfl

theorem define (s : Store) (o : ObjectId) (name : String) (v : Value) :
    s.DiffersAt o (s.define o name v) := modify s o (·.insert name (.data v))

theorem erase (s : Store) (o : ObjectId) (name : String) : s.DiffersAt o (s.erase o name) :=
  modify s o (·.erase name)

theorem trans (h : s.DiffersAt o s') (h' : s'.DiffersAt o s'') : s.DiffersAt o s'' where
  size := h'.size.trans h.size
  others p hp := (h'.others p hp).trans (h.others p hp)
  rest := by rw [h'.rest, h.rest]
  buffers := h'.buffers.trans h.buffers
  domains := h'.domains.trans h.domains

/-- What does not depend on the members is the same for all objects. -/
theorem object_eq {α : Type} {f : Object → α} (h : s.DiffersAt o s')
    (hf : ∀ (x : Object) (t : Table Property), f { x with properties := t } = f x)
    (p : ObjectId) : f (s'.object p) = f (s.object p) := by
  by_cases hp : p = o
  · rw [hp, h.rest, hf]
  · rw [h.others p hp]

theorem ancestors_eq (h : s.DiffersAt o s') (limit : ℕ) (p : ObjectId) :
    s'.ancestors limit p = s.ancestors limit p := by
  induction limit generalizing p with
  | zero => rfl
  | succ limit ih =>
    rw [ancestors, ancestors, h.object_eq (f := Object.proto) (fun _ _ => rfl)]
    split
    · rfl
    · rw [ih]

theorem searched_eq (h : s.DiffersAt o s') (p : ObjectId) : s'.searched p = s.searched p := by
  rw [searched, searched, h.ancestors_eq]

theorem slot?_eq (h : s.DiffersAt o s') (p : ObjectId) (m : String) :
    s'.slot? p m = s.slot? p m := by
  simp only [slot?, buffer, h.buffers, h.object_eq (f := Object.buffer?) (fun _ _ => rfl)]

theorem own?_eq (h : s.DiffersAt o s') (hp : p ≠ o) (m : String) : s'.own? p m = s.own? p m := by
  rw [own?, own?, h.others p hp]

/-- The same is found in both stores, unless the search comes to the object and it differs there. -/
theorem lookup?_eq (h : s.DiffersAt o s') (hm : o ∈ s.searched p → s'.own? o m = s.own? o m) :
    s'.lookup? p m = s.lookup? p m := by
  have hsame : (s.searched p).map (s'.own? · m) = (s.searched p).map (s.own? · m) := by
    refine List.map_congr_left fun q hq => ?_
    by_cases hqo : q = o
    · subst hqo
      exact hm hq
    · exact h.own?_eq hqo m
  rw [lookup?_eq_findSome?, lookup?_eq_findSome?, h.searched_eq]
  simpa only [List.findSome?_map, Function.id_comp] using congrArg (List.findSome? id) hsame

theorem has_eq (h : s.DiffersAt o s') (hm : o ∈ s.searched p → s'.own? o m = s.own? o m) :
    s'.has p m = s.has p m := by
  rw [has, has, h.slot?_eq, h.lookup?_eq hm]

end DiffersAt

/-! ## Assigned members -/

/-- The object is an array, and the member is one of its elements, which it counts. -/
def CountsAt (s : Store) (o : ObjectId) (name : String) : Prop :=
  (s.object o).isArray = true ∧ (Text.index? name).isSome = true

instance (s : Store) (o : ObjectId) (name : String) : Decidable (s.CountsAt o name) :=
  inferInstanceAs (Decidable (_ ∧ _))

theorem index?_length : Text.index? "length" = none := by decide +kernel

theorem CountsAt.ne_length (h : s.CountsAt o name) : name ≠ "length" := by
  rintro rfl
  exact absurd h.2 (by rw [index?_length]; decide)

/-- An assignment defines the member, and before it the length of an array that grows. -/
theorem assign_cases (s : Store) (o : ObjectId) (name : String) (v : Value) :
    (s.assign o name v = s.define o name v ∧ (s.CountsAt o name → s.arrayLength o ≠ 0)) ∨
      s.CountsAt o name ∧
        ∃ length, s.assign o name v = (s.define o "length" length).define o name v := by
  unfold assign CountsAt
  dsimp only
  split_ifs with harray
  · rcases hindex : Text.index? name with _ | index
    · exact Or.inl ⟨rfl, fun h => absurd h.2 (by decide)⟩
    · dsimp only
      split_ifs with hle
      · exact Or.inr ⟨⟨harray, rfl⟩, _, rfl⟩
      · exact Or.inl ⟨rfl, fun _ => by omega⟩
  · exact Or.inl ⟨rfl, fun h => absurd h.1 harray⟩

theorem differsAt_assign (s : Store) (o : ObjectId) (name : String) (v : Value) :
    s.DiffersAt o (s.assign o name v) := by
  obtain ⟨h, -⟩ | ⟨-, length, h⟩ := assign_cases s o name v
  · exact h ▸ .define s o name v
  · exact h ▸ (DiffersAt.define s o "length" length).trans (.define _ o name v)

section Stored

variable (hstored : o.index < s.objects.size)

include hstored

theorem lt_size_define (name : String) (v : Value) :
    o.index < (s.define o name v).objects.size := (size_modify o _).symm ▸ hstored

theorem own?_assign_self (name : String) (v : Value) :
    (s.assign o name v).own? o name = some (.data v) := by
  obtain ⟨h, -⟩ | ⟨-, length, h⟩ := assign_cases s o name v
  · rw [h, own?_define hstored, if_pos rfl]
  · rw [h, own?_define (lt_size_define hstored _ _), if_pos rfl]

theorem own?_assign_of_ne (v : Value) (hm : m ≠ name)
    (hlength : s.CountsAt o name → m ≠ "length") :
    (s.assign o name v).own? o m = s.own? o m := by
  obtain ⟨h, -⟩ | ⟨hcounts, length, h⟩ := assign_cases s o name v
  · rw [h, own?_define hstored, if_neg hm]
  · rw [h, own?_define (lt_size_define hstored _ _), if_neg hm, own?_define hstored,
      if_neg (hlength hcounts)]

theorem names_define (name : String) (v : Value) :
    ((s.define o name v).object o).properties.names =
      (s.object o).properties.names ++
        if name ∈ (s.object o).properties.names then [] else [name] := by
  rw [define, object_modify_self hstored, Object.define, Table.names_insert]
  simp only [Table.contains, Table.isSome_get?]
  split_ifs
  · rw [List.append_nil]
  · rfl

/-- The names of an object keep their places when a member is assigned. A new name comes last,
after the length if an array gets one for its new element. -/
theorem names_assign (name : String) (v : Value) :
    ((s.assign o name v).object o).properties.names =
      (s.object o).properties.names ++
        (if s.CountsAt o name ∧ "length" ∉ (s.object o).properties.names then ["length"]
          else []) ++
        if name ∈ (s.object o).properties.names then [] else [name] := by
  obtain ⟨h, hcount⟩ | ⟨hcounts, length, h⟩ := assign_cases s o name v
  · have hold : ¬ (s.CountsAt o name ∧ "length" ∉ (s.object o).properties.names) := by
      rintro ⟨hcounts, hlength⟩
      -- an array without a length has no elements
      refine hcount hcounts ?_
      rw [← Table.isSome_get?, Option.not_isSome_iff_eq_none] at hlength
      rw [arrayLength, ownValue?, Object.value?, hlength]
      rfl
    rw [h, names_define hstored, if_neg hold, List.append_nil]
  · have hname : name ≠ "length" := hcounts.ne_length
    rw [h, names_define (lt_size_define hstored _ _), names_define hstored]
    by_cases hlength : "length" ∈ (s.object o).properties.names
    · simp [hlength]
    · simp [hlength, hcounts, hname]

end Stored

end Store

/-! ## What an assignment changes -/

section Property

variable {e : Embedding} {s : State} {o : ObjectId} {name : String} {v : Value}

theorem getProperty_of_data (hslot : s.store.slot? o name = none) (hname : name ≠ "__proto__")
    (hdata : s.store.lookup? o name = some (.data v)) :
    getProperty e o name s = (.ok v, s) := by
  unfold getProperty
  rw [Exec.bind_ask, hslot]
  dsimp only
  rw [if_neg hname, Exec.bind_ask, hdata]
  rfl

theorem setProperty_of_isPlain (hbuffer : (s.store.object o).buffer? = none)
    (hname : name ≠ "__proto__") (hplain : s.store.IsPlain o name) (v : Value) :
    setProperty e o name v s = (.ok (), ⟨s.store.assign o name v, s.worker⟩) := by
  unfold setProperty
  rw [Exec.bind_ask, hbuffer]
  dsimp only
  rw [if_neg hname, Exec.bind_ask]
  rcases hlookup : s.store.lookup? o name with _ | x
  · rfl
  · obtain ⟨old, rfl⟩ := hplain x hlookup
    rfl

end Property

/-- **An assignment of a member is local.** It gives the object the value as a member of its own,
which keeps its place among the object's names or comes last. What any object has or finds under
any name is as before, but for the name that is assigned and for the length of an array that counts
the element, where the search comes to the object. -/
theorem setProperty_local (e : Embedding) (s : State) (o : ObjectId) (name : String) (v : Value)
    (hstored : o.index < s.store.objects.size) (hbuffer : (s.store.object o).buffer? = none)
    (hname : name ≠ "__proto__") (hplain : s.store.IsPlain o name) :
    ∃ s', setProperty e o name v s = (.ok (), s') ∧ getProperty e o name s' = (.ok v, s') ∧
      (s'.store.object o).properties.names =
        (s.store.object o).properties.names ++
          (if s.store.CountsAt o name ∧ "length" ∉ (s.store.object o).properties.names
            then ["length"] else []) ++
          (if name ∈ (s.store.object o).properties.names then [] else [name]) ∧
      (∀ p m, (o ∈ s.store.searched p → m ≠ name ∧ (s.store.CountsAt o name → m ≠ "length")) →
        s'.store.has p m = s.store.has p m ∧ s'.store.slot? p m = s.store.slot? p m ∧
          s'.store.lookup? p m = s.store.lookup? p m) ∧
      s.store.DiffersAt o s'.store ∧ s'.worker = s.worker := by
  have hdiffers := s.store.differsAt_assign o name v
  refine ⟨_, setProperty_of_isPlain hbuffer hname hplain v, ?_,
    Store.names_assign hstored name v, fun p m hm => ?_, hdiffers, rfl⟩
  · refine getProperty_of_data ?_ hname ?_
    · rw [hdiffers.slot?_eq, Store.slot?_of_buffer? hbuffer]
    · exact Store.lookup?_of_own? (Store.own?_assign_self hstored name v)
  · have hown : o ∈ s.store.searched p →
        (s.store.assign o name v).own? o m = s.store.own? o m := fun hp =>
      Store.own?_assign_of_ne hstored v (hm hp).1 (hm hp).2
    exact ⟨hdiffers.has_eq hown, hdiffers.slot?_eq p m, hdiffers.lookup?_eq hown⟩

/-- An array without a length whose prototype has the array for a prototype in turn. The array's new
element hides that of the prototype, and the array gets a length before it. -/
theorem setProperty_local_on_cycle :
    let list : Object := ⟨"Array", some ⟨1⟩, ⟨[("x", .data .null)]⟩, [], .plain⟩
    let model : Object := ⟨"Object", some ⟨0⟩, ⟨[("5", .data (.boolean true))]⟩, [], .plain⟩
    let s : State := ⟨⟨#[list, model], #[], #[⟨none, .empty, none⟩]⟩, .idle .default ⟨1⟩ ⟨0⟩⟩
    0 < s.store.objects.size ∧ (s.store.object ⟨0⟩).buffer? = none ∧ "5" ≠ "__proto__" ∧
      s.store.IsPlain ⟨0⟩ "5" ∧
      ∃ s', setProperty .none ⟨0⟩ "5" .undefined s = (.ok (), s') ∧
        getProperty .none ⟨0⟩ "5" s' = (.ok .undefined, s') ∧
        (s'.store.object ⟨0⟩).properties.names = ["x", "length", "5"] ∧
        s'.store.object ⟨1⟩ = model ∧ s'.store.lookup? ⟨1⟩ "x" = some (.data .null) := by
  intro list model s
  have hplain : s.store.IsPlain ⟨0⟩ "5" := by
    intro x hx
    obtain rfl := Option.some.inj (hx : some (.data (.boolean true)) = some x)
    exact ⟨_, rfl⟩
  have hcounts : s.store.CountsAt ⟨0⟩ "5" := by decide +kernel
  obtain ⟨s', hset, hget, hnames, hfound, hdiffers, -⟩ :=
    setProperty_local .none s ⟨0⟩ "5" .undefined (by decide) rfl (by decide) hplain
  rw [if_pos ⟨hcounts, by decide⟩, if_neg (by decide)] at hnames
  exact ⟨by decide, rfl, by decide, hplain, s', hset, hget, hnames, hdiffers.others ⟨1⟩ (by decide),
    (hfound ⟨1⟩ "x" fun _ => ⟨by decide, fun _ => by decide⟩).2.2⟩

end ActionVm
