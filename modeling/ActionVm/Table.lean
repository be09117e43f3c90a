/-!
# Tables

Finite maps from texts that remember the order in which their names were first given.

* `Table`, `Table.entries`: a table as its names and members in order;
* `Table.get?`, `Table.insert`, `Table.erase`: look-up, addition and removal;
* **`get?_insert`**: a name given a member has that member, and all others keep theirs;
* **`names_insert`**: a known name keeps its place, and a new one comes last;
* `isSome_get?`, `names_erase`: names and members, and names that are removed.
-/

namespace ActionVm

/-- Names and their members, in the order in which the names were first given. -/
structure Table (α : Type) where
  entries : List (String × α)

namespace Table

variable {α : Type}

/-- The table without names. -/
def empty : Table α := ⟨[]⟩

instance : Inhabited (Table α) := ⟨empty⟩

/-- The member of a name among entries. -/
def find? (name : String) : List (String × α) → Option α
  | [] => none
  | (n, a) :: rest => if n = name then some a else find? name rest

/-- The member of a name. -/
def get? (t : Table α) (name : String) : Option α := find? name t.entries

/-- The table has the name. -/
def contains (t : Table α) (name : String) : Bool := (t.get? name).isSome

/-- The names in order. -/
def names (t : Table α) : List String := t.entries.map Prod.fst

/-- Entries with the member of one name replaced, or added at the end. -/
def put (name : String) (a : α) : List (String × α) → List (String × α)
  | [] => [(name, a)]
  | (n, b) :: rest => if n = name then (n, a) :: rest else (n, b) :: put name a rest

/-- The table in which a name has the given member. -/
def insert (t : Table α) (name : String) (a : α) : Table α := ⟨put name a t.entries⟩

/-- Entries without the given name. -/
def drop (name : String) : List (String × α) → List (String × α)
  | [] => []
  | (n, b) :: rest => if n = name then rest else (n, b) :: drop name rest

/-- The table without the given name. -/
def erase (t : Table α) (name : String) : Table α := ⟨drop name t.entries⟩

/-- The table of the given entries, of which later ones replace earlier ones of the same name. -/
def ofList (l : List (String × α)) : Table α := l.foldl (fun t (name, a) => t.insert name a) empty

/-! ## Look-up after a change -/

theorem find?_put (name other : String) (a : α) (l : List (String × α)) :
    find? other (put name a l) = if other = name then some a else find? other l := by
  induction l with
  | nil => simp [put, find?, eq_comm]
  | cons e rest ih =>
    obtain ⟨n, b⟩ := e
    by_cases h : n = name
    · subst h
      by_cases h' : n = other
      · simp [put, find?, h']
      · simp [put, find?, h', Ne.symm h']
    · by_cases h' : n = other
      · subst h'
        simp [put, find?, h]
      · simp [put, find?, h, h', ih]

/-- A name given a member has that member, and all others keep theirs. -/
theorem get?_insert (t : Table α) (name other : String) (a : α) :
    (t.insert name a).get? other = if other = name then some a else t.get? other :=
  find?_put name other a t.entries

/-- A known name keeps its place, and a new one comes last. -/
theorem names_insert (t : Table α) (name : String) (a : α) :
    (t.insert name a).names =
      if t.contains name then t.names else t.names ++ [name] := by
  obtain ⟨l⟩ := t
  simp only [names, insert, contains, get?]
  induction l with
  | nil => simp [put, find?]
  | cons e rest ih =>
    obtain ⟨n, b⟩ := e
    by_cases h : n = name
    · simp [put, find?, h]
    · simp only [put, find?, h, if_false, List.map_cons, ih]
      split <;> simp_all

theorem isSome_find? (name : String) (l : List (String × α)) :
    (find? name l).isSome ↔ name ∈ l.map Prod.fst := by
  induction l with
  | nil => simp [find?]
  | cons e rest ih =>
    obtain ⟨n, b⟩ := e
    by_cases h : n = name
    · simp [find?, h]
    · simp [find?, h, Ne.symm h, ih]

/-- The names are those that have members. -/
theorem isSome_get? (t : Table α) (name : String) : (t.get? name).isSome ↔ name ∈ t.names :=
  isSome_find? name t.entries

theorem map_fst_drop (name : String) (l : List (String × α)) :
    (drop name l).map Prod.fst = (l.map Prod.fst).erase name := by
  induction l with
  | nil => rfl
  | cons e rest ih =>
    obtain ⟨n, b⟩ := e
    by_cases h : n = name
    · simp [drop, h]
    · simp [drop, h, ih, List.erase_cons_tail]

/-- A name is removed from its place. -/
theorem names_erase (t : Table α) (name : String) : (t.erase name).names = t.names.erase name :=
  map_fst_drop name t.entries

theorem find?_drop_of_ne {name other : String} (h : other ≠ name) (l : List (String × α)) :
    find? other (drop name l) = find? other l := by
  induction l with
  | nil => rfl
  | cons e rest ih =>
    obtain ⟨n, b⟩ := e
    by_cases hn : n = name
    · subst hn
      simp [drop, find?, Ne.symm h]
    · simp [drop, find?, hn, ih]

/-- The names that are not removed keep their members. -/
theorem get?_erase_of_ne {name other : String} (h : other ≠ name) (t : Table α) :
    (t.erase name).get? other = t.get? other := find?_drop_of_ne h t.entries

end Table

end ActionVm
