import ActionVm.Proofs.Store.Assignment
import Mathlib.Data.List.Basic

/-!
# Enumerations

An enumeration gives the names of an object and of its prototypes, each once, where it is met
first. Members are searched in one prototype more than are enumerated.

* `Store.namesAlong`: the names of an object, then those of its prototypes;
* `idxOf_lt_of_filter`, `pairwise_eraseDups`: names that are left out keep the others in order;
* `Store.mem_keys_iff`, `Store.pairwise_keys`: what an enumeration gives, and in what order;
* `Store.OnlyFarthest`, `Store.has_iff`: members that an enumeration does not come to;
* **`Store.keys_complete`**: an enumeration gives the names under which something is found;
* **`Store.found_not_enumerated`**: a member that is found and not enumerated.
-/

namespace ActionVm

/-! ## First places in a list -/

section Order

variable {α : Type} [DecidableEq α]

/-- What is left out does not change which of two others comes first. -/
theorem idxOf_lt_of_filter (q : α → Bool) {a b : α} (hb : q b = true)
    {l : List α} (h : (l.filter q).idxOf a < (l.filter q).idxOf b) : l.idxOf a < l.idxOf b := by
  induction l with
  | nil => exact h
  | cons x l ih =>
    by_cases hxb : x = b
    · subst hxb
      rw [List.filter_cons_of_pos hb, List.idxOf_cons_self] at h
      exact absurd h (Nat.not_lt_zero _)
    · by_cases hxa : x = a
      · rw [hxa, List.idxOf_cons_self, List.idxOf_cons_ne _ (hxa ▸ hxb)]
        exact Nat.succ_pos _
      · rw [List.idxOf_cons_ne _ hxa, List.idxOf_cons_ne _ hxb]
        refine Nat.succ_lt_succ (ih ?_)
        by_cases hx : q x = true
        · rw [List.filter_cons_of_pos hx, List.idxOf_cons_ne _ hxa, List.idxOf_cons_ne _ hxb] at h
          exact Nat.lt_of_succ_lt_succ h
        · rwa [List.filter_cons_of_neg hx] at h

/-- What is left without repetitions is in the order of the first places. -/
theorem pairwise_eraseDups : (l : List α) → l.eraseDups.Pairwise fun a b => l.idxOf a < l.idxOf b
  | [] => List.Pairwise.nil
  | x :: l => by
    have hlength := List.length_filter_le (fun b => !b == x) l
    have hrest := pairwise_eraseDups (l.filter fun b => !b == x)
    have hne : ∀ {b : α}, b ∈ (l.filter fun b => !b == x).eraseDups → b ≠ x := by
      intro b hb
      simpa using (List.mem_filter.mp (List.mem_eraseDups.mp hb)).2
    rw [List.eraseDups_cons, List.pairwise_cons]
    refine ⟨fun b hb => ?_, hrest.imp_of_mem fun {b c} hb hc h => ?_⟩
    · rw [List.idxOf_cons_self, List.idxOf_cons_ne _ (hne hb).symm]
      exact Nat.succ_pos _
    · rw [List.idxOf_cons_ne _ (hne hb).symm, List.idxOf_cons_ne _ (hne hc).symm]
      exact Nat.succ_lt_succ (idxOf_lt_of_filter _ (by simpa using hne hc) h)
termination_by l => l.length
decreasing_by
  rw [List.length_cons]
  omega

end Order

namespace Store

variable {s : Store} {o p : ObjectId} {name : String}

/-! ## Names that are enumerated -/

/-- The names of an object in the order in which it got them, then those of its prototypes, nearest
first, as far as prototypes are enumerated. -/
def namesAlong (s : Store) (o : ObjectId) : List String :=
  (o :: s.ancestors enumerationLimit o).flatMap fun h => (s.object h).properties.names

theorem isHidden_iff (name : String) : isHidden name = true ↔ ['_', '_'] <+: name.toList := by
  unfold isHidden
  split
  · next h => simp [h]
  · next h =>
    simp only [Bool.false_eq_true, false_iff]
    rintro ⟨rest, hrest⟩
    exact h rest hrest.symm

theorem keys_eq (s : Store) (o : ObjectId) :
    s.keys o = ((s.namesAlong o).filter (!isHidden ·)).eraseDups.filter
      fun name => !(s.object o).isArray || name ≠ "length" := by
  rw [keys, namesAlong, List.filter_flatMap]
  cases (s.object o).isArray <;> simp

theorem mem_keys_iff : name ∈ s.keys o ↔ name ∈ s.namesAlong o ∧ ¬ ['_', '_'] <+: name.toList ∧
    ((s.object o).isArray = true → name ≠ "length") := by
  rw [keys_eq, List.mem_filter, List.mem_eraseDups, List.mem_filter, ← isHidden_iff]
  cases (s.object o).isArray <;> simp [and_assoc]

/-- Names are enumerated in the order in which they are met. -/
theorem pairwise_keys (s : Store) (o : ObjectId) : (s.keys o).Pairwise fun a b =>
    (s.namesAlong o).idxOf a < (s.namesAlong o).idxOf b := by
  rw [keys_eq]
  refine List.Pairwise.filter _ ((pairwise_eraseDups _).imp_of_mem fun {a b} _ hb h => ?_)
  rw [List.mem_eraseDups, List.mem_filter] at hb
  exact idxOf_lt_of_filter (!isHidden ·) hb.2 h

/-! ## Members that are found -/

theorem ancestors_succ (s : Store) (n : ℕ) (o : ObjectId) :
    s.ancestors (n + 1) o = s.ancestors n o ++ (s.ancestors (n + 1) o)[n]?.toList := by
  induction n generalizing o with
  | zero =>
    rw [ancestors, ancestors]
    cases (s.object o).proto <;> rfl
  | succ n ih =>
    rw [ancestors, ancestors]
    rcases (s.object o).proto with _ | p
    · rfl
    · simpa using ih p

/-- The prototype that is the last one to be searched for members. It is not enumerated any more. -/
def farthest? (s : Store) (o : ObjectId) : Option ObjectId :=
  (s.ancestors lookupLimit o)[enumerationLimit]?

/-- A member of the last prototype that is searched, and of none that is enumerated. -/
def OnlyFarthest (s : Store) (o : ObjectId) (name : String) : Prop :=
  name ∉ s.namesAlong o ∧ ∃ p ∈ s.farthest? o, (s.own? p name).isSome = true

/-- Something is found under the names that are enumerated, and under those of one prototype
more. -/
theorem has_iff (hbuffer : (s.object o).buffer? = none) :
    s.has o name = true ↔
      name ∈ s.namesAlong o ∨ ∃ p ∈ s.farthest? o, (s.own? p name).isSome = true := by
  have hsearched : s.searched o =
      (o :: s.ancestors enumerationLimit o) ++ (s.farthest? o).toList := by
    rw [searched, farthest?, List.cons_append]
    exact congrArg (o :: ·) (ancestors_succ s enumerationLimit o)
  have hnames : ∀ q, (s.own? q name).isSome = true ↔ name ∈ (s.object q).properties.names :=
    fun q => Table.isSome_get? _ _
  rw [has, slot?_of_buffer? hbuffer, Option.isSome_none, Bool.false_or, lookup?_eq_findSome?,
    List.findSome?_isSome_iff, hsearched, namesAlong]
  simp only [List.mem_append, Option.mem_toList, or_and_right, exists_or, List.mem_flatMap, hnames,
    Option.mem_def]

/-- **An enumeration gives the names under which something is found**, each once: the own names of
the object in their order, then those of its prototypes, nearest first. Hidden names and the length
of an array are left out, and so is what only the last prototype has that is searched. -/
theorem keys_complete (s : Store) (o : ObjectId) (hbuffer : (s.object o).buffer? = none) :
    (∀ name, ¬ ['_', '_'] <+: name.toList → ((s.object o).isArray = true → name ≠ "length") →
      (¬ s.OnlyFarthest o name → (name ∈ s.keys o ↔ s.has o name = true)) ∧
        (s.OnlyFarthest o name → name ∉ s.keys o ∧ s.has o name = true)) ∧
      (s.keys o).Nodup ∧
      (s.keys o).Pairwise fun a b => (s.namesAlong o).idxOf a < (s.namesAlong o).idxOf b := by
  refine ⟨fun name hshown hlength => ?_, ?_, s.pairwise_keys o⟩
  · have hkeys : name ∈ s.keys o ↔ name ∈ s.namesAlong o :=
      mem_keys_iff.trans ⟨And.left, fun h => ⟨h, hshown, hlength⟩⟩
    rw [hkeys, has_iff hbuffer]
    refine ⟨fun honly => ⟨Or.inl, fun h => ?_⟩, fun honly => ⟨honly.1, Or.inr honly.2⟩⟩
    by_contra hname
    exact honly ⟨hname, h.resolve_left hname⟩
  · refine (s.pairwise_keys o).imp fun h => ?_
    rintro rfl
    exact Nat.lt_irrefl _ h

/-- An array and its prototype, which has the array for a prototype in turn. The last prototype that
is searched is met before, so that its names are enumerated. -/
theorem keys_complete_on_cycle :
    let list : Object := ⟨"Array", some ⟨1⟩, ⟨[("0", .data .null), ("length", .data .null)]⟩, [],
      .plain⟩
    let model : Object := ⟨"Object", some ⟨0⟩, ⟨[("y", .data .null), ("0", .data .null)]⟩, [],
      .plain⟩
    let s : Store := ⟨#[list, model], #[], #[]⟩
    (s.object ⟨0⟩).buffer? = none ∧ ¬ ['_', '_'] <+: "y".toList ∧ ¬ s.OnlyFarthest ⟨0⟩ "y" ∧
      s.has ⟨0⟩ "y" = true ∧ "y" ∈ s.keys ⟨0⟩ ∧ (s.keys ⟨0⟩).Nodup := by
  intro list model s
  have hshown : ¬ ['_', '_'] <+: "y".toList := by decide
  have hmet : "y" ∈ s.namesAlong ⟨0⟩ :=
    List.mem_flatMap.mpr ⟨⟨1⟩, .tail _ (.head _), List.mem_cons_self⟩
  have honly : ¬ s.OnlyFarthest ⟨0⟩ "y" := fun h => h.1 hmet
  have hhas : s.has ⟨0⟩ "y" = true := rfl
  obtain ⟨hnames, honce, -⟩ := keys_complete s ⟨0⟩ rfl
  exact ⟨rfl, hshown, honly, hhas, ((hnames "y" hshown (by decide)).1 honly).mpr hhas, honce⟩

/-- A chain of prototypes, of which only the last one has a member. -/
def chain (n : ℕ) : Store :=
  ⟨((List.range n).map fun i => .ofClass "Object" (some ⟨i + 1⟩)).toArray.push
    ⟨"Object", none, ⟨[("x", .data .null)]⟩, [], .plain⟩, #[], #[]⟩

/-- **The last prototype that is searched is not enumerated**, so that an object has a member which
its enumeration does not come to. -/
theorem found_not_enumerated :
    ((chain 257).object ⟨0⟩).buffer? = none ∧ ((chain 257).object ⟨0⟩).isArray = false ∧
      ¬ ['_', '_'] <+: "x".toList ∧ (chain 257).has ⟨0⟩ "x" = true ∧
      "x" ∉ (chain 257).keys ⟨0⟩ := by
  decide +kernel

end Store

end ActionVm
