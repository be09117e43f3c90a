import ActionVm.Store.Liveness
import Mathlib.Data.List.Basic
import Mathlib.Data.Nat.Notation

/-!
# What lasts

Things live if they belong to a set that supports itself: whatever is in it is held from outside, or
by another thing of the set. Taking away what nothing holds, again and again, leaves the largest set
of this kind.

* `Store.Contains`, `Store.Supports`, `Store.Lasts`: sets that support themselves;
* `Marks.has_foldl_add`, `Store.has_held`: one round of taking away;
* **`Store.has_live_iff`**: what lives is what lasts.
-/

namespace ActionVm

/-! ## Sets that support themselves -/

namespace Store

/-- The thing is in the store. -/
def Contains (s : Store) : Entity → Prop
  | .object o => o.index < s.objects.size
  | .domain d => d.index < s.domains.size

/-- Every thing of the set is in the store, and held from outside or by a thing of the set. -/
def Supports (s : Store) (outside : List Entity) (S : Entity → Prop) : Prop :=
  ∀ x, S x → s.Contains x ∧ (x ∈ outside ∨ ∃ z, S z ∧ x ∈ s.holds z)

/-- The thing is in a set that supports itself. -/
def Lasts (s : Store) (outside : List Entity) (x : Entity) : Prop :=
  ∃ S, s.Supports outside S ∧ S x

variable {s : Store} {outside outside' : List Entity} {x : Entity}

theorem supports_lasts : s.Supports outside (s.Lasts outside) := by
  rintro x ⟨S, hS, hx⟩
  refine ⟨(hS x hx).1, (hS x hx).2.imp_right ?_⟩
  rintro ⟨z, hz, hheld⟩
  exact ⟨z, ⟨S, hS, hz⟩, hheld⟩

theorem Lasts.mono (h : s.Lasts outside x) (hsub : ∀ y ∈ outside, s.Lasts outside' y) :
    s.Lasts outside' x := by
  refine ⟨fun y => s.Lasts outside y ∨ s.Lasts outside' y, ?_, Or.inl h⟩
  rintro y (hy | hy)
  · obtain ⟨hcontains, hout | ⟨z, hz, hheld⟩⟩ := supports_lasts y hy
    · refine ⟨hcontains, (supports_lasts y (hsub y hout)).2.imp_right ?_⟩
      rintro ⟨z, hz, hheld⟩
      exact ⟨z, Or.inr hz, hheld⟩
    · exact ⟨hcontains, Or.inr ⟨z, Or.inl hz, hheld⟩⟩
  · refine ⟨(supports_lasts y hy).1, (supports_lasts y hy).2.imp_right ?_⟩
    rintro ⟨z, hz, hheld⟩
    exact ⟨z, Or.inr hz, hheld⟩

end Store

/-! ## Marks -/

namespace Marks

variable {m m' : Marks} {s : Store} {x y : Entity}

/-- There are marks for just the things of the store. -/
def Fits (m : Marks) (s : Store) : Prop :=
  m.objects.size = s.objects.size ∧ m.domains.size = s.domains.size

theorem fits_all (s : Store) (b : Bool) : (all s b).Fits s :=
  ⟨Array.size_replicate, Array.size_replicate⟩

theorem Fits.add (h : m.Fits s) (x : Entity) : (m.add x).Fits s := by
  cases x with
  | object o => exact ⟨Array.size_setIfInBounds.trans h.1, h.2⟩
  | domain d => exact ⟨h.1, Array.size_setIfInBounds.trans h.2⟩

theorem Fits.foldl_add (h : m.Fits s) (l : List Entity) : (l.foldl Marks.add m).Fits s := by
  induction l generalizing m with
  | nil => exact h
  | cons x l ih => exact ih (h.add x)

theorem has_all {b : Bool} : (all s b).has x = true ↔ b = true ∧ s.Contains x := by
  cases x <;>
    simp only [has, all, Array.getD_eq_getD_getElem?, Array.getElem?_replicate, Store.Contains] <;>
    split_ifs <;> simp_all

theorem contains_of_has (h : m.Fits s) (hx : m.has x = true) : s.Contains x := by
  by_contra hout
  cases x with
  | object o =>
    have hsize : m.objects.size ≤ o.index := h.1 ▸ Nat.not_lt.mp hout
    rw [has, Array.getD_eq_getD_getElem?, Array.getElem?_eq_none hsize] at hx
    cases hx
  | domain d =>
    have hsize : m.domains.size ≤ d.index := h.2 ▸ Nat.not_lt.mp hout
    rw [has, Array.getD_eq_getD_getElem?, Array.getElem?_eq_none hsize] at hx
    cases hx

theorem has_add (h : m.Fits s) (x y : Entity) :
    (m.add x).has y = true ↔ m.has y = true ∨ y = x ∧ s.Contains y := by
  obtain ⟨ho, hd⟩ := h
  cases x with
  | object o =>
    cases y with
    | object p =>
      have hindex : o.index = p.index ↔ p = o :=
        ⟨fun h => congrArg ObjectId.mk h.symm, fun h => h ▸ rfl⟩
      simp only [add, has, Array.getD_eq_getD_getElem?, Array.getElem?_setIfInBounds, hindex,
        Store.Contains, Entity.object.injEq, ← ho]
      by_cases hp : p = o
      · subst hp
        by_cases hlt : p.index < m.objects.size <;> simp [hlt]
      · simp [hp]
    | domain d => simp [add, has]
  | domain d =>
    cases y with
    | object p => simp [add, has]
    | domain q =>
      have hindex : d.index = q.index ↔ q = d :=
        ⟨fun h => congrArg DomainId.mk h.symm, fun h => h ▸ rfl⟩
      simp only [add, has, Array.getD_eq_getD_getElem?, Array.getElem?_setIfInBounds, hindex,
        Store.Contains, Entity.domain.injEq, ← hd]
      by_cases hq : q = d
      · subst hq
        by_cases hlt : q.index < m.domains.size <;> simp [hlt]
      · simp [hq]

theorem has_foldl_add (h : m.Fits s) (l : List Entity) (y : Entity) :
    (l.foldl Marks.add m).has y = true ↔ m.has y = true ∨ y ∈ l ∧ s.Contains y := by
  induction l generalizing m with
  | nil => simp
  | cons x l ih =>
    rw [List.foldl_cons, ih (h.add x), has_add h, List.mem_cons]
    tauto

theorem mem_toList (h : m.Fits s) : x ∈ m.toList ↔ m.has x = true := by
  rw [toList, List.mem_filter, and_iff_right_iff_imp]
  intro hx
  have hin := contains_of_has h hx
  cases x with
  | object o =>
    refine List.mem_append_left _ (List.mem_map.mpr ⟨o.index, ?_, rfl⟩)
    rw [List.mem_range, h.1]
    exact hin
  | domain d =>
    refine List.mem_append_right _ (List.mem_map.mpr ⟨d.index, ?_, rfl⟩)
    rw [List.mem_range, h.2]
    exact hin

/-- Marks of the same things are the same. -/
theorem ext_has (h : m.Fits s) (h' : m'.Fits s) (hhas : ∀ x, m.has x = m'.has x) : m = m' := by
  have hobjects : m.objects = m'.objects := by
    refine Array.ext (h.1.trans h'.1.symm) fun i hi hi' => ?_
    have hi := hhas (.object ⟨i⟩)
    simpa [has, Array.getD, *] using hi
  have hdomains : m.domains = m'.domains := by
    refine Array.ext (h.2.trans h'.2.symm) fun i hi hi' => ?_
    have hi := hhas (.domain ⟨i⟩)
    simpa [has, Array.getD, *] using hi
  cases m
  cases m'
  simp_all

/-- Fewer marks make a shorter list. -/
theorem length_toList_lt (h : m.Fits s) (h' : m'.Fits s)
    (hsub : ∀ x, m'.has x = true → m.has x = true) (hne : m' ≠ m) :
    m'.toList.length < m.toList.length := by
  have hlist : m'.toList = m.toList.filter m'.has := by
    rw [toList, toList, h.1, h.2, h'.1, h'.2, List.filter_filter]
    refine List.filter_congr fun x _ => ?_
    by_cases hx : m'.has x = true
    · rw [hx, hsub x hx]
      rfl
    · rw [Bool.eq_false_iff.mpr hx]
      rfl
  rw [hlist]
  refine List.length_filter_lt_length_iff_exists.mpr ?_
  by_contra hnone
  refine hne (ext_has h' h fun x => Bool.eq_iff_iff.mpr ⟨hsub x, fun hx => ?_⟩)
  by_contra hx'
  exact hnone ⟨x, (mem_toList h).mpr hx, hx'⟩

end Marks

/-! ## What is left -/

namespace Store

variable {s : Store} {outside : List Entity} {m : Marks} {x : Entity}

theorem fits_held (s : Store) (outside : List Entity) (m : Marks) : (s.held outside m).Fits s :=
  (Marks.fits_all s false).foldl_add _

/-- One round leaves what is held from outside or by one of the given things. -/
theorem has_held (h : m.Fits s) : (s.held outside m).has x = true ↔
    m.has x = true ∧ (x ∈ outside ∨ ∃ z, m.has z = true ∧ x ∈ s.holds z) := by
  have hall := Marks.fits_all s false
  have hnone : ∀ y, (Marks.all s false).has y = false := fun y => by
    rw [Bool.eq_false_iff]
    intro hy
    cases (Marks.has_all.mp hy).1
  simp only [held, Marks.has_foldl_add hall, hnone, Bool.false_eq_true, false_or, List.mem_filter,
    Marks.mem_toList h, List.mem_append, List.mem_flatMap]
  constructor
  · rintro ⟨⟨hx, hheld, -⟩, -⟩
    exact ⟨hx, hheld⟩
  · rintro ⟨hx, hheld⟩
    have hin := Marks.contains_of_has h hx
    exact ⟨⟨hx, hheld, hin⟩, hin⟩

theorem Supports.held {S : Entity → Prop} (hS : s.Supports outside S) (h : m.Fits s)
    (hm : ∀ x, S x → m.has x = true) (hx : S x) : (s.held outside m).has x = true := by
  refine (has_held h).mpr ⟨hm x hx, (hS x hx).2.imp_right ?_⟩
  rintro ⟨z, hz, hheld⟩
  exact ⟨z, hm z hz, hheld⟩

theorem fits_settle (h : m.Fits s) (n : ℕ) : (s.settle outside n m).Fits s := by
  induction n generalizing m with
  | zero => exact h
  | succ n ih =>
    rw [settle]
    split_ifs
    · exact h
    · exact ih (fits_held s outside m)

/-- A set that supports itself is not taken away. -/
theorem Supports.settle {S : Entity → Prop} (hS : s.Supports outside S) (h : m.Fits s)
    (hm : ∀ x, S x → m.has x = true) (n : ℕ) (hx : S x) :
    (s.settle outside n m).has x = true := by
  induction n generalizing m with
  | zero => exact hm x hx
  | succ n ih =>
    rw [Store.settle]
    split_ifs
    · exact hm x hx
    · exact ih (fits_held s outside m) fun y hy => hS.held h hm hy

/-- After as many rounds as there are things, nothing more is taken away. -/
theorem held_settle (h : m.Fits s) {n : ℕ} (hn : m.toList.length ≤ n) :
    s.held outside (s.settle outside n m) = s.settle outside n m := by
  have hshrinks : ∀ {m : Marks}, m.Fits s → s.held outside m ≠ m →
      (s.held outside m).toList.length < m.toList.length := fun {m} h hne =>
    Marks.length_toList_lt h (fits_held s outside m) (fun x hx => ((has_held h).mp hx).1) hne
  induction n generalizing m with
  | zero =>
    by_contra hne
    have := hshrinks h hne
    omega
  | succ n ih =>
    rw [settle]
    split_ifs with heq
    · exact heq
    · have := hshrinks h heq
      exact ih (fits_held s outside m) (by omega)

/-- **What lives is what lasts.** -/
theorem has_live_iff : (s.live outside).has x = true ↔ s.Lasts outside x := by
  have hfits := Marks.fits_all s true
  constructor
  · intro hx
    refine ⟨fun x => (s.live outside).has x = true, fun y hy => ?_, hx⟩
    have hlength : (Marks.all s true).toList.length ≤ s.objects.size + s.domains.size := by
      refine Nat.le_trans (List.length_filter_le _ _) (Nat.le_of_eq ?_)
      rw [List.length_append, List.length_map, List.length_map, List.length_range,
        List.length_range, hfits.1, hfits.2]
    have hlive : (s.live outside).Fits s := fits_settle hfits _
    have hheld : (s.held outside (s.live outside)).has y = true := by
      rw [live, held_settle hfits hlength]
      exact hy
    exact ⟨Marks.contains_of_has hlive hy, ((has_held hlive).mp hheld).2⟩
  · rintro ⟨S, hS, hx⟩
    exact hS.settle hfits (fun y hy => Marks.has_all.mpr ⟨rfl, (hS y hy).1⟩) _ hx

end Store

end ActionVm
