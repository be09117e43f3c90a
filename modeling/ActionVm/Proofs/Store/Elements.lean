import ActionVm.Proofs.Decimal.Whole
import ActionVm.Proofs.Store.Assignment
import ActionVm.Proofs.Text.Numerals

/-!
# Elements of arrays

An array keeps its length as a member beside its elements. What is assigned to an element is kept
under the name that was given, and the length follows the index that this name has.

* `Table.find?_elements`: the elements of a fresh array;
* `Store.Measured`, `Store.Measured.assign`: an array with a length, and what an assignment makes
  of the length;
* `setEach`, `setEach_eq`: one assignment after the other;
* `Store.own?_assignEach`: the members afterwards;
* **`length_of_element`**, **`length_of_far_element`**: the length covers an element whose index is
  small enough;
* **`last_element`**, **`last_element_missing`**: the element that an array has grown for.
-/

namespace ActionVm

/-! ## Fresh arrays -/

theorem toString_ne_length (i : ℕ) : toString i ≠ "length" :=
  Text.toString_ne (c := 'l') (by decide) (by decide) i

namespace Table

theorem find?_append {α : Type} (name : String) (l l' : List (String × α)) :
    find? name (l ++ l') = (find? name l).or (find? name l') := by
  induction l with
  | nil => rfl
  | cons x l ih =>
    rw [List.cons_append, find?, find?, ih]
    split_ifs <;> rfl

theorem mem_of_find? {α : Type} {name : String} {a : α} {l : List (String × α)}
    (h : find? name l = some a) : (name, a) ∈ l := by
  induction l with
  | nil => cases h
  | cons x l ih =>
    rw [find?] at h
    split_ifs at h with hx
    · obtain rfl := Option.some.inj h
      exact hx ▸ List.mem_cons_self
    · exact List.mem_cons_of_mem _ (ih h)

theorem find?_zipIdx (values : List Value) (k i : ℕ) :
    find? (toString i) ((values.zipIdx k).map fun (v, j) => (toString j, Property.data v)) =
      if k ≤ i then values[i - k]?.map .data else none := by
  induction values generalizing k with
  | nil => simp [find?]
  | cons v values ih =>
    rw [List.zipIdx_cons, List.map_cons, find?, ih]
    by_cases hk : k = i
    · simp [hk]
    · rw [if_neg (fun h => hk (Text.toString_injective h))]
      by_cases hle : k ≤ i
      · rw [if_pos hle, if_pos (by omega), show i - k = i - (k + 1) + 1 by omega,
          List.getElem?_cons_succ]
      · rw [if_neg hle, if_neg (by omega)]

/-- The elements of a fresh array are the values, by their numerals. -/
theorem find?_elements (values : List Value) (i : ℕ) :
    find? (toString i) (Object.elements values) = values[i]?.map .data :=
  (find?_zipIdx values 0 i).trans (if_pos (Nat.zero_le i))

theorem find?_length_elements (values : List Value) :
    find? "length" (Object.elements values) = none := by
  rw [← Option.not_isSome_iff_eq_none, isSome_find?]
  intro h
  obtain ⟨x, hx, hname⟩ := List.mem_map.mp h
  obtain ⟨y, -, rfl⟩ := List.mem_map.mp hx
  exact toString_ne_length y.2 hname

end Table

namespace Store

variable {s : Store} {o : ObjectId}

/-- The object is the array of the values, with any prototype and interfaces. -/
structure IsArrayOf (s : Store) (o : ObjectId) (values : List Value) : Prop where
  stored : o.index < s.objects.size
  object : s.object o = { Object.array values with
    proto := (s.object o).proto, interfaces := (s.object o).interfaces }

theorem IsArrayOf.own? {values : List Value} (h : s.IsArrayOf o values) (name : String) :
    s.own? o name = Table.find? name (Object.elements values ++
      [("length", .data (.integer (Int32.ofInt values.length)))]) := by
  rw [Store.own?, h.object]
  rfl

theorem IsArrayOf.own?_toString {values : List Value} (h : s.IsArrayOf o values) (i : ℕ) :
    s.own? o (toString i) = values[i]?.map .data := by
  rw [h.own?, Table.find?_append, Table.find?_elements, Table.find?,
    if_neg (toString_ne_length i).symm, Table.find?, Option.or_none]

theorem IsArrayOf.own?_length {values : List Value} (h : s.IsArrayOf o values) :
    s.own? o "length" = some (.data (.integer (Int32.ofInt values.length))) := by
  rw [h.own?, Table.find?_append, Table.find?_length_elements, Option.none_or, Table.find?,
    if_pos rfl]

theorem arrayLength_of_own? {n : Int32} (h : s.own? o "length" = some (.data (.integer n))) :
    s.arrayLength o = n.toInt.toNat := by
  have hvalue : s.ownValue? o "length" = some (.integer n) := by
    change (s.own? o "length").bind Property.value? = _
    rw [h]
    rfl
  rw [arrayLength, hvalue, Option.map_some, Option.getD_some, Value.toCount_integer]

/-- The elements of a fresh array are its values, if they are not too many. -/
theorem IsArrayOf.arrayValues {values : List Value} (h : s.IsArrayOf o values)
    (hlength : values.length < 2 ^ 31) : s.arrayValues o = values := by
  have hcount : s.arrayLength o = values.length := by
    rw [arrayLength_of_own? h.own?_length, Int32.toInt_ofInt_of_le (by omega) (by omega),
      Int.toNat_natCast]
  rw [Store.arrayValues, hcount]
  refine List.ext_getElem (by rw [List.length_map, List.length_range]) fun i hi hi' => ?_
  rw [List.getElem_map, List.getElem_range]
  change ((s.own? o (toString i)).bind Property.value?).getD .undefined = values[i]
  rw [h.own?_toString, List.getElem?_eq_getElem hi']
  rfl

theorem IsArrayOf.isPlain {values : List Value} (h : s.IsArrayOf o values)
    (hproto : (s.object o).proto = none) (name : String) : s.IsPlain o name := by
  intro x hx
  have halone : s.lookup? o name = s.own? o name := by
    rw [lookup?_eq_findSome?, searched, lookupLimit, ancestors, hproto, List.findSome?_cons]
    cases s.own? o name <;> rfl
  rw [halone, h.own?] at hx
  have hmem := Table.mem_of_find? hx
  rw [List.mem_append, List.mem_singleton] at hmem
  obtain hmem | hmem := hmem
  · obtain ⟨y, -, hy⟩ := List.mem_map.mp hmem
    exact ⟨y.1, (congrArg Prod.snd hy).symm⟩
  · exact ⟨_, congrArg Prod.snd hmem⟩

/-! ## Lengths -/

/-- The object is an array that has a number as its length. No accessor is found from it. -/
structure Measured (s : Store) (o : ObjectId) (n : Int32) : Prop where
  stored : o.index < s.objects.size
  isArray : (s.object o).isArray = true
  buffer : (s.object o).buffer? = none
  plain : ∀ name, s.IsPlain o name
  length : s.own? o "length" = some (.data (.integer n))

theorem IsArrayOf.measured {values : List Value} (h : s.IsArrayOf o values)
    (hplain : ∀ name, s.IsPlain o name) : s.Measured o (Int32.ofInt values.length) where
  stored := h.stored
  isArray := by
    rw [h.object]
    rfl
  buffer := by
    rw [h.object]
    rfl
  plain := hplain
  length := h.own?_length

theorem Measured.arrayLength {n : Int32} (h : s.Measured o n) :
    s.arrayLength o = n.toInt.toNat := arrayLength_of_own? h.length

/-- The length of an array after an assignment to a name. -/
def grown (n : Int32) (name : String) : Int32 :=
  match Text.index? name with
  | some i => if n.toInt.toNat ≤ i then Int32.ofInt i + 1 else n
  | none => n

theorem IsPlain.of_own? {name : String} {x : Property} (h : s.own? o name = some x)
    (hx : ∃ v, x = .data v) : s.IsPlain o name := by
  intro y hy
  rw [lookup?_of_own? h, Option.mem_some] at hy
  exact hy ▸ hx

/-- **An assignment keeps an array measured**, by a length that follows the name. -/
theorem Measured.assign {n : Int32} (h : s.Measured o n) {name : String} (hname : name ≠ "length")
    (v : Value) : (s.assign o name v).Measured o (grown n name) := by
  have hdiffers := s.differsAt_assign o name v
  have hlength : (s.assign o name v).own? o "length" = some (.data (.integer (grown n name))) := by
    unfold Store.assign grown
    dsimp only
    rw [if_pos h.isArray, h.arrayLength]
    rcases hindex : Text.index? name with _ | i
    · rw [own?_define h.stored, if_neg hname.symm, h.length]
    · dsimp only
      split_ifs
      · rw [own?_define (lt_size_define h.stored _ _), if_neg hname.symm, own?_define h.stored,
          if_pos rfl]
        rfl
      · rw [own?_define h.stored, if_neg hname.symm, h.length]
  refine ⟨hdiffers.size ▸ h.stored, ?_, ?_, fun m => ?_, hlength⟩
  · rw [hdiffers.object_eq (f := Object.isArray) fun _ _ => rfl]
    exact h.isArray
  · rw [hdiffers.object_eq (f := Object.buffer?) fun _ _ => rfl]
    exact h.buffer
  · by_cases hm : m = name
    · rw [hm]
      exact .of_own? (own?_assign_self h.stored name v) ⟨v, rfl⟩
    by_cases hml : m = "length"
    · exact .of_own? (hml ▸ hlength) ⟨_, rfl⟩
    · rw [IsPlain, hdiffers.lookup?_eq fun _ => own?_assign_of_ne h.stored v hm fun _ => hml]
      exact h.plain m

/-! ## One assignment after the other -/

/-- The store after assignments to members of an object, the first one first. -/
def assignEach (s : Store) (o : ObjectId) (writes : List (String × Value)) : Store :=
  writes.foldl (fun s w => s.assign o w.1 w.2) s

/-- The length of an array after assignments. -/
def grownEach (n : Int32) (writes : List (String × Value)) : Int32 :=
  writes.foldl (fun n w => grown n w.1) n

theorem Measured.assignEach {n : Int32} (h : s.Measured o n) {writes : List (String × Value)}
    (hnames : ∀ w ∈ writes, w.1 ≠ "length") :
    (s.assignEach o writes).Measured o (grownEach n writes) := by
  induction writes generalizing s n with
  | nil => exact h
  | cons w writes ih =>
    rw [List.forall_mem_cons] at hnames
    exact ih (h.assign hnames.1 w.2) hnames.2

/-- A member after assignments has the last value that was given to its name. -/
theorem own?_assignEach {n : Int32} (h : s.Measured o n) {writes : List (String × Value)}
    (hnames : ∀ w ∈ writes, w.1 ≠ "length") {name : String} (hname : name ≠ "length") :
    (s.assignEach o writes).own? o name =
      ((writes.reverse.lookup name).map .data).or (s.own? o name) := by
  induction writes generalizing s n with
  | nil => rfl
  | cons w writes ih =>
    rw [List.forall_mem_cons] at hnames
    rw [assignEach, List.foldl_cons, ← assignEach, ih (h.assign hnames.1 w.2) hnames.2,
      List.reverse_cons, List.lookup_append]
    by_cases hw : name = w.1
    · subst hw
      rw [own?_assign_self h.stored, List.lookup_cons, beq_self_eq_true]
      cases writes.reverse.lookup w.1 <;> rfl
    · rw [own?_assign_of_ne h.stored w.2 hw fun _ => hname, List.lookup_cons,
        beq_eq_false_iff_ne.mpr hw, List.lookup_nil, Option.or_none]

/-- An array has the length that it had, or that of an element which was assigned. -/
theorem grownEach_cases (n : Int32) (writes : List (String × Value)) :
    grownEach n writes = n ∨
      ∃ w ∈ writes, ∃ i ∈ Text.index? w.1, grownEach n writes = Int32.ofInt i + 1 := by
  induction writes generalizing n with
  | nil => exact .inl rfl
  | cons w writes ih =>
    rw [grownEach, List.foldl_cons, ← grownEach]
    obtain hrest | ⟨x, hx, i, hi, hrest⟩ := ih (grown n w.1)
    · rw [hrest, grown]
      rcases hindex : Text.index? w.1 with _ | i
      · exact .inl rfl
      · dsimp only
        split_ifs
        · exact .inr ⟨w, List.mem_cons_self, i, hindex, rfl⟩
        · exact .inl rfl
    · exact .inr ⟨x, List.mem_cons_of_mem _ hx, i, hi, hrest⟩

end Store

/-- Values are assigned to members of an object, the first one first. -/
def setEach (e : Embedding) (o : ObjectId) (writes : List (String × Value)) : Exec Unit :=
  writes.forM fun w => setProperty e o w.1 w.2

theorem setProperty_of_measured {e : Embedding} {s : State} {o : ObjectId} {n : Int32}
    (h : s.store.Measured o n) {name : String} (hname : name ≠ "__proto__") (v : Value) :
    setProperty e o name v s = (.ok (), ⟨s.store.assign o name v, s.worker⟩) :=
  setProperty_of_isPlain h.buffer hname (h.plain name) v

theorem setEach_eq {e : Embedding} {s : State} {o : ObjectId} {n : Int32}
    (h : s.store.Measured o n) {writes : List (String × Value)}
    (hnames : ∀ w ∈ writes, w.1 ≠ "length" ∧ w.1 ≠ "__proto__") :
    setEach e o writes s = (.ok (), ⟨s.store.assignEach o writes, s.worker⟩) := by
  induction writes generalizing s n with
  | nil => rfl
  | cons w writes ih =>
    rw [List.forall_mem_cons] at hnames
    rw [setEach, List.forM_eq_forM, List.forM_cons,
      Exec.bind_of_ok (setProperty_of_measured h hnames.1.2 w.2)]
    exact ih (s := ⟨s.store.assign o w.1 w.2, s.worker⟩) (h.assign hnames.1.1 w.2) hnames.2

/-! ## The length of an array -/

theorem toNat_ofInt_add_one {i : ℕ} (hlow : i % 2 ^ 32 ≠ 2 ^ 31 - 1) :
    (Int32.ofInt i + 1).toInt.toNat = if i % 2 ^ 32 < 2 ^ 31 then i % 2 ^ 32 + 1 else 0 := by
  have hone : (1 : Int32).toInt = 1 := by decide
  rw [Int32.toInt_add, Int32.toInt_ofInt, hone, Int32.size, Int.bmod_add_bmod, Int.bmod_def]
  split_ifs <;> omega

theorem toNat_grown_toString (n : Int32) {i : ℕ} (hi : i < 2 ^ 31 - 1) :
    (Store.grown n (toString i)).toInt.toNat = max (i + 1) n.toInt.toNat := by
  rw [Store.grown, Text.index?_toString (by omega)]
  dsimp only
  split_ifs with hle
  · rw [toNat_ofInt_add_one (by omega), if_pos (by omega)]
    omega
  · omega

theorem toNat_grown_toString_of_far (n : Int32) {i : ℕ} (hfar : 2 ^ 31 ≤ i) (hi : i < 2 ^ 64)
    (hlow : i % 2 ^ 32 ≠ 2 ^ 31 - 1) :
    (Store.grown n (toString i)).toInt.toNat =
      if i % 2 ^ 32 < 2 ^ 31 then i % 2 ^ 32 + 1 else 0 := by
  have hn := n.toInt_lt
  rw [Store.grown, Text.index?_toString hi]
  dsimp only
  rw [if_pos (by omega), toNat_ofInt_add_one hlow]

/-- **An array covers the element that is assigned**, and it is no shorter than before, if the index
has 31 bits at most. Of a larger index the length counts the low 32 bits, and only if the first of
them is zero. -/
theorem length_of_element (e : Embedding) (s : State) (o : ObjectId) (values : List Value)
    (writes : List (String × Value)) (i : ℕ) (v : Value) (harray : s.store.IsArrayOf o values)
    (hplain : ∀ name, s.store.IsPlain o name)
    (hnames : ∀ w ∈ writes, w.1 ≠ "length" ∧ w.1 ≠ "__proto__") (hi : i < 2 ^ 64)
    (hlow : i % 2 ^ 32 ≠ 2 ^ 31 - 1) :
    ∃ before after, setEach e o writes s = (.ok (), before) ∧
      setProperty e o (toString i) v before = (.ok (), after) ∧
      getProperty e o (toString i) after = (.ok v, after) ∧
      (i < 2 ^ 31 →
        after.store.arrayLength o = max (i + 1) (before.store.arrayLength o)) ∧
      (2 ^ 31 ≤ i →
        after.store.arrayLength o = if i % 2 ^ 32 < 2 ^ 31 then i % 2 ^ 32 + 1 else 0) := by
  have hstart := harray.measured hplain
  have hbefore := hstart.assignEach fun w hw => (hnames w hw).1
  have hproto : toString i ≠ "__proto__" := Text.toString_ne (c := '_') (by decide) (by decide) i
  have hafter := hbefore.assign (toString_ne_length i) v
  refine ⟨⟨s.store.assignEach o writes, s.worker⟩,
    ⟨(s.store.assignEach o writes).assign o (toString i) v, s.worker⟩, setEach_eq hstart hnames,
    setProperty_of_measured hbefore hproto v, ?_, fun hnear => ?_, fun hfar => ?_⟩
  · refine getProperty_of_data (Store.slot?_of_buffer? hafter.buffer _) hproto ?_
    exact Store.lookup?_of_own? (Store.own?_assign_self hbefore.stored _ v)
  · rw [hafter.arrayLength, hbefore.arrayLength, toNat_grown_toString _ (by omega)]
  · rw [hafter.arrayLength, toNat_grown_toString_of_far _ hfar hi hlow]

/-- The store of one fresh array. -/
def Store.ofArray (values : List Value) : Store := ⟨#[.array values], #[], #[]⟩

theorem Store.isArrayOf_ofArray (values : List Value) : (ofArray values).IsArrayOf ⟨0⟩ values :=
  ⟨Nat.one_pos, rfl⟩

theorem Store.isPlain_ofArray (values : List Value) (name : String) :
    (ofArray values).IsPlain ⟨0⟩ name := (isArrayOf_ofArray values).isPlain rfl name

/-- An array of one value that gets a name which is no index, and an element far beyond its end. -/
theorem length_of_fourth_element :
    let s : State := ⟨.ofArray [.null], .idle .default ⟨1⟩ ⟨0⟩⟩
    s.store.IsArrayOf ⟨0⟩ [.null] ∧ (∀ name, s.store.IsPlain ⟨0⟩ name) ∧
      (∀ w ∈ [("x", Value.null)], w.1 ≠ "length" ∧ w.1 ≠ "__proto__") ∧ 3 < 2 ^ 64 ∧
      3 % 2 ^ 32 ≠ 2 ^ 31 - 1 ∧
      ∃ before after, setEach .none ⟨0⟩ [("x", .null)] s = (.ok (), before) ∧
        setProperty .none ⟨0⟩ "3" (.boolean true) before = (.ok (), after) ∧
        getProperty .none ⟨0⟩ "3" after = (.ok (.boolean true), after) ∧
        after.store.arrayLength ⟨0⟩ = max 4 (before.store.arrayLength ⟨0⟩) := by
  intro s
  have harray := Store.isArrayOf_ofArray [.null]
  have hplain := Store.isPlain_ofArray [.null]
  have hnames : ∀ w ∈ [("x", Value.null)], w.1 ≠ "length" ∧ w.1 ≠ "__proto__" :=
    List.forall_mem_singleton.mpr (by decide)
  obtain ⟨before, after, hwrites, hset, hget, hnear, -⟩ :=
    length_of_element .none s ⟨0⟩ [.null] [("x", .null)] 3 (.boolean true) harray hplain hnames
      (by decide) (by decide)
  exact ⟨harray, hplain, hnames, by decide, by decide, before, after, hwrites, hset, hget,
    hnear (by decide)⟩

/-- **An array loses its length to a far element.** The length of an array of one value is zero when
it has been given the element with index `2 ^ 31`. -/
theorem length_of_far_element :
    let s : State := ⟨.ofArray [.null], .idle .default ⟨1⟩ ⟨0⟩⟩
    ∃ after, setProperty .none ⟨0⟩ "2147483648" .null s = (.ok (), after) ∧
      s.store.arrayLength ⟨0⟩ = 1 ∧ after.store.arrayLength ⟨0⟩ = 0 := by
  intro s
  have hbefore := (Store.isArrayOf_ofArray [.null]).measured (Store.isPlain_ofArray [.null])
  have hname : toString (2 ^ 31) = "2147483648" := rfl
  have hafter := hbefore.assign (show "2147483648" ≠ "length" by decide) .null
  refine ⟨_, setProperty_of_measured hbefore (by decide) .null, ?_, ?_⟩
  · exact hbefore.arrayLength
  · rw [hafter.arrayLength, ← hname, toNat_grown_toString_of_far _ le_rfl (by decide) (by decide)]
    rfl

/-! ## The last element of an array -/

/-- The length after assignments is as before, or one more than the index of a name. -/
theorem exists_of_lt_grownEach {n : Int32} {writes : List (String × Value)}
    (hindex : ∀ w ∈ writes, ∀ i ∈ Text.index? w.1, i < 2 ^ 31 - 1) {i : ℕ}
    (hlength : (Store.grownEach n writes).toInt.toNat = i + 1) (hgrown : n.toInt.toNat ≤ i) :
    ∃ w ∈ writes, Text.index? w.1 = some i := by
  obtain hsame | ⟨w, hw, j, hj, hj'⟩ := Store.grownEach_cases n writes
  · rw [hsame] at hlength
    omega
  · have hlt := hindex w hw j hj
    rw [hj', toNat_ofInt_add_one (by omega), if_pos (by omega), Nat.mod_eq_of_lt (by omega)] at hlength
    obtain rfl : j = i := by omega
    exact ⟨w, hw, hj⟩

theorem lookup_of_find? {writes : List (String × Value)} {w : String × Value} {q : String → Bool}
    (hfind : writes.find? (q ·.1) = some w) : writes.lookup w.1 = some w.2 := by
  induction writes with
  | nil => cases hfind
  | cons x writes ih =>
    rw [List.find?_cons] at hfind
    rw [List.lookup_cons]
    split at hfind
    · obtain rfl := Option.some.inj hfind
      rw [beq_self_eq_true]
    · next hx =>
      have hne : w.1 ≠ x.1 := by
        intro h
        have hw := List.find?_some hfind
        rw [h, hx] at hw
        exact Bool.false_ne_true hw
      rw [beq_eq_false_iff_ne.mpr hne]
      exact ih hfind

/-- **The element that an array has grown for.** Among the names of the assignments is the index of
the last element. If the last one of them is the numeral, then the array ends with its value. In
general the array ends with the last value that was given to the numeral, or with what it had there
from the beginning. -/
theorem last_element (e : Embedding) (s : State) (o : ObjectId) (values : List Value)
    (writes : List (String × Value)) (harray : s.store.IsArrayOf o values)
    (hplain : ∀ name, s.store.IsPlain o name)
    (hnames : ∀ w ∈ writes, w.1 ≠ "length" ∧ w.1 ≠ "__proto__")
    (hindex : ∀ w ∈ writes, ∀ i ∈ Text.index? w.1, i < 2 ^ 31 - 1) :
    ∃ after, setEach e o writes s = (.ok (), after) ∧
      ∀ i, s.store.arrayLength o ≤ i → after.store.arrayLength o = i + 1 →
        let kept := (writes.reverse.lookup (toString i)).or values[i]?
        after.store.own? o (toString i) = kept.map .data ∧
        (after.store.arrayValues o).getLast? = some (kept.getD .undefined) ∧
        ∃ w, writes.reverse.find? (fun w => Text.index? w.1 = some i) = some w ∧
          (w.1 = toString i → kept = some w.2) := by
  have hstart := harray.measured hplain
  have hlengths := fun w hw => (hnames w hw).1
  have hafter := hstart.assignEach hlengths
  refine ⟨_, setEach_eq hstart hnames, fun i hold hnew => ?_⟩
  have hown := Store.own?_assignEach hstart hlengths (toString_ne_length i)
  rw [harray.own?_toString, ← Option.map_or] at hown
  refine ⟨hown, ?_, ?_⟩
  · rw [Store.arrayValues, hnew, List.getLast?_map, List.range_succ, List.getLast?_concat]
    change some ((((s.store.assignEach o writes).own? o (toString i)).bind
      Property.value?).getD .undefined) = _
    rw [hown]
    cases (writes.reverse.lookup (toString i)).or values[i]? <;> rfl
  · rw [hstart.arrayLength] at hold
    rw [hafter.arrayLength] at hnew
    obtain ⟨x, hx, hxi⟩ := exists_of_lt_grownEach hindex hnew hold
    have hsome : (writes.reverse.find? fun w => Text.index? w.1 = some i).isSome = true :=
      List.find?_isSome.mpr ⟨x, List.mem_reverse.mpr hx, decide_eq_true hxi⟩
    obtain ⟨w, hw⟩ := Option.isSome_iff_exists.mp hsome
    refine ⟨w, hw, fun hname => ?_⟩
    rw [← hname, lookup_of_find? (q := fun name => Text.index? name = some i) hw, Option.some_or]

/-- An array of one value that gets the element with index five, first under a longer name. -/
theorem last_element_of_numeral :
    let s : State := ⟨.ofArray [.null], .idle .default ⟨1⟩ ⟨0⟩⟩
    let writes : List (String × Value) := [("05", .null), ("5", .boolean true)]
    s.store.IsArrayOf ⟨0⟩ [.null] ∧ (∀ name, s.store.IsPlain ⟨0⟩ name) ∧
      (∀ w ∈ writes, w.1 ≠ "length" ∧ w.1 ≠ "__proto__") ∧
      (∀ w ∈ writes, ∀ i ∈ Text.index? w.1, i < 2 ^ 31 - 1) ∧
      ∃ after, setEach .none ⟨0⟩ writes s = (.ok (), after) ∧
        s.store.arrayLength ⟨0⟩ ≤ 5 ∧ after.store.arrayLength ⟨0⟩ = 6 ∧
        after.store.own? ⟨0⟩ "5" = some (.data (.boolean true)) ∧
        (after.store.arrayValues ⟨0⟩).getLast? = some (.boolean true) := by
  intro s writes
  have harray := Store.isArrayOf_ofArray [.null]
  have hplain := Store.isPlain_ofArray [.null]
  have hstart := harray.measured hplain
  have hnames : ∀ w ∈ writes, w.1 ≠ "length" ∧ w.1 ≠ "__proto__" :=
    List.forall_mem_cons.mpr ⟨by decide, List.forall_mem_singleton.mpr (by decide)⟩
  have hindex : ∀ w ∈ writes, ∀ i ∈ Text.index? w.1, i < 2 ^ 31 - 1 :=
    List.forall_mem_cons.mpr
      ⟨by decide +kernel, List.forall_mem_singleton.mpr (by decide +kernel)⟩
  have hold : s.store.arrayLength ⟨0⟩ ≤ 5 := hstart.arrayLength.trans_le (by decide)
  obtain ⟨after, hset, hlast⟩ := last_element .none s ⟨0⟩ [.null] writes harray hplain hnames hindex
  obtain rfl : after = _ := congrArg Prod.snd (hset.symm.trans (setEach_eq hstart hnames))
  have hnew := (hstart.assignEach fun w hw => (hnames w hw).1).arrayLength
  obtain ⟨hown, hvalues, -⟩ := hlast 5 hold (hnew.trans (by decide +kernel))
  exact ⟨harray, hplain, hnames, hindex, _, hset, hold, hnew.trans (by decide +kernel), hown,
    hvalues⟩

/-- **An array grows without an element.** An empty array that gets a value under a name with a zero
before the digit counts the element, but does not have it. -/
theorem last_element_missing :
    let s : State := ⟨.ofArray [], .idle .default ⟨1⟩ ⟨0⟩⟩
    ∃ after, setProperty .none ⟨0⟩ "05" (.boolean true) s = (.ok (), after) ∧
      Text.index? "05" = some 5 ∧ s.store.arrayLength ⟨0⟩ = 0 ∧
      after.store.arrayLength ⟨0⟩ = 6 ∧ after.store.own? ⟨0⟩ "5" = none ∧
      (after.store.arrayValues ⟨0⟩).getLast? = some .undefined := by
  intro s
  have hbefore := (Store.isArrayOf_ofArray []).measured (Store.isPlain_ofArray [])
  have hafter := hbefore.assign (show "05" ≠ "length" by decide) (.boolean true)
  have hlength := hafter.arrayLength.trans (show _ = 6 by decide +kernel)
  have hown : (s.store.assign ⟨0⟩ "05" (.boolean true)).own? ⟨0⟩ "5" = none :=
    Store.own?_assign_of_ne hbefore.stored _ (by decide) fun _ => by decide
  refine ⟨_, setProperty_of_measured hbefore (by decide) _, by decide +kernel, hbefore.arrayLength,
    hlength, hown, ?_⟩
  rw [Store.arrayValues, hlength, List.getLast?_map]
  change some ((((s.store.assign ⟨0⟩ "05" (.boolean true)).own? ⟨0⟩ "5").bind
    Property.value?).getD .undefined) = _
  rw [hown]
  rfl

end ActionVm
