import ActionVm.Proofs.Store.Survival

/-!
# What is reached

From some things others are reached: what they hold, and the living domains around domains. A region
that holds nothing else, and that looks the same in two stores, is a place where two runs may start.

* `Store.Reaches`, `Store.reach`: what is reached, as things and as a region;
* `Store.Closed`, `Store.Encloses`: stores and regions that hold no others, with
  **`Store.encloses_reach`**;
* `Reaches.lasts`: what is reached lasts;
* `Store.Separates`: a store in two parts that do not refer to each other, with
  **`Separates.part_eq`**;
* `Naming.diagonal`: things that stand for themselves;
* `Store.SameFrom`: two stores that look the same from a region, with **`SameFrom.corresponds`** and
  **`SameFrom.isFair`**.
-/

namespace ActionVm

/-! ## Reached things -/

namespace Store

/-- What is reached from some things: these things, what a reached thing holds, and the domain
inside which a reached domain was made, while it lives. -/
inductive Reaches (s : Store) (live : Marks) (roots : List Entity) : Entity → Prop where
  | root {x : Entity} : x ∈ roots → s.Reaches live roots x
  | held {z x : Entity} : s.Reaches live roots z → x ∈ s.holds z → s.Reaches live roots x
  | around {d p : DomainId} : s.Reaches live roots (.domain d) → s.liveParent? live d = some p →
    s.Reaches live roots (.domain p)

/-- What is reached from some things, with the buffers of reached objects and the memory of reached
domains. -/
def reach (s : Store) (live : Marks) (roots : List Entity) : Region where
  objects o := s.Reaches live roots (.object o)
  buffers b := (∃ o, s.Reaches live roots (.object o) ∧ (s.object o).buffer? = some b) ∨
    ∃ d, s.Reaches live roots (.domain d) ∧ s.memory? d = some b
  domains d := s.Reaches live roots (.domain d)

/-- Nothing in the store refers to what is not there. -/
structure Closed (s : Store) : Prop where
  holds : s.HoldsOwn
  buffer : ∀ {o b}, (s.object o).buffer? = some b → b.index < s.buffers.size
  memory : ∀ {d b}, s.memory? d = some b → b.index < s.buffers.size
  parent : ∀ {d p}, (s.domain d).parent = some p → p.index < s.domains.size

/-- The things of a region are in the store, and refer to no others. Domains around others do not
count. -/
structure Encloses (s : Store) (R : Region) : Prop where
  entity : ∀ {x}, R.entity x → s.Contains x ∧ ∀ y ∈ s.holds x, R.entity y
  buffer : ∀ {b}, R.buffers b → b.index < s.buffers.size
  bytes : ∀ {o b}, R.objects o → (s.object o).buffer? = some b → R.buffers b
  memory : ∀ {d b}, R.domains d → s.memory? d = some b → R.buffers b

variable {s : Store} {live : Marks} {roots outside : List Entity} {x z : Entity}

theorem reach_entity : (s.reach live roots).entity x ↔ s.Reaches live roots x := by
  cases x <;> rfl

theorem lasts_of_mem (h : s.Contains x) (hx : x ∈ outside) : s.Lasts outside x := by
  refine ⟨fun y => y = x, ?_, rfl⟩
  rintro y rfl
  exact ⟨h, Or.inl hx⟩

theorem Lasts.held (h : s.Lasts outside z) (hown : s.HoldsOwn) (hx : x ∈ s.holds z) :
    s.Lasts outside x := by
  refine ⟨fun y => y = x ∨ s.Lasts outside y, ?_, Or.inl rfl⟩
  rintro y (rfl | hy)
  · exact ⟨hown z y hx, Or.inr ⟨z, Or.inr h, hx⟩⟩
  · obtain ⟨hcontains, hout | ⟨z, hz, hheld⟩⟩ := supports_lasts y hy
    · exact ⟨hcontains, Or.inl hout⟩
    · exact ⟨hcontains, Or.inr ⟨z, Or.inr hz, hheld⟩⟩

theorem lasts_of_liveParent? {d p : DomainId} (h : s.liveParent? (s.live outside) d = some p) :
    s.Lasts outside (.domain p) :=
  has_live_iff.mp (Option.filter_eq_some_iff.mp h).2

/-- **What is reached lasts**, if that from which it is reached is held. -/
theorem Reaches.lasts (h : s.Reaches (s.live outside) roots x) (hown : s.HoldsOwn)
    (hroots : ∀ y ∈ roots, s.Contains y ∧ y ∈ outside) : s.Lasts outside x := by
  induction h with
  | root hx => exact lasts_of_mem (hroots _ hx).1 (hroots _ hx).2
  | held _ hx ih => exact ih.held hown hx
  | around _ hp => exact lasts_of_liveParent? hp

/-- **What is reached** refers to nothing else. -/
theorem encloses_reach (hs : s.Closed) (hroots : ∀ y ∈ roots, s.Contains y ∧ y ∈ outside) :
    s.Encloses (s.reach (s.live outside) roots) where
  entity {x} hx := by
    rw [reach_entity] at hx
    exact ⟨(supports_lasts x (hx.lasts hs.holds hroots)).1, fun y hy =>
      reach_entity.mpr (hx.held hy)⟩
  buffer := by
    rintro b (⟨o, -, hb⟩ | ⟨d, -, hb⟩)
    · exact hs.buffer hb
    · exact hs.memory hb
  bytes ho hb := Or.inl ⟨_, ho, hb⟩
  memory hd hb := Or.inr ⟨_, hd, hb⟩

/-! ## Parts of a store -/

instance (s : Store) : DecidablePred s.Contains
  | .object o => inferInstanceAs (Decidable (o.index < s.objects.size))
  | .domain d => inferInstanceAs (Decidable (d.index < s.domains.size))

/-- Everything in the store refers only to things of its own part. There are no byte buffers yet,
and no domain was made inside another one. -/
def Separates (s : Store) (part : Entity → Bool) : Prop :=
  (∀ i < s.objects.size, (s.object ⟨i⟩).buffer? = none ∧
    ∀ x ∈ s.holds (.object ⟨i⟩), s.Contains x ∧ part x = part (.object ⟨i⟩)) ∧
  ∀ i < s.domains.size, (s.domain ⟨i⟩).memory = none ∧ (s.domain ⟨i⟩).parent = none ∧
    ∀ x ∈ s.holds (.domain ⟨i⟩), s.Contains x ∧ part x = part (.domain ⟨i⟩)

instance (s : Store) (part : Entity → Bool) : Decidable (s.Separates part) := instDecidableAnd

namespace Separates

variable {part : Entity → Bool} (h : s.Separates part)
include h

theorem buffer? (o : ObjectId) : (s.object o).buffer? = none := by
  by_cases ho : o.index < s.objects.size
  · exact (h.1 o.index ho).1
  · rw [object_of_size_le (Nat.le_of_not_lt ho)]
    rfl

theorem domain (d : DomainId) : (s.domain d).memory = none ∧ (s.domain d).parent = none := by
  by_cases hd : d.index < s.domains.size
  · exact ⟨(h.2 d.index hd).1, (h.2 d.index hd).2.1⟩
  · rw [domain_of_size_le (Nat.le_of_not_lt hd)]
    exact ⟨rfl, rfl⟩

theorem held (hx : x ∈ s.holds z) : s.Contains x ∧ part x = part z := by
  cases z with
  | object o =>
    by_cases ho : o.index < s.objects.size
    · exact (h.1 o.index ho).2 x hx
    · rw [holds, object_of_size_le (Nat.le_of_not_lt ho)] at hx
      cases hx
  | domain d =>
    by_cases hd : d.index < s.domains.size
    · exact (h.2 d.index hd).2.2 x hx
    · rw [holds, domain_of_size_le (Nat.le_of_not_lt hd)] at hx
      cases hx

theorem closed : s.Closed where
  holds _ _ hx := (h.held hx).1
  buffer {o b} hb := by
    rw [h.buffer? o] at hb
    cases hb
  memory {d b} hb := by
    rw [memory?, (h.domain d).1] at hb
    cases hb
  parent {d p} hp := by
    rw [(h.domain d).2] at hp
    cases hp

/-- **From things of one part** nothing of another one is reached. -/
theorem part_eq {b : Bool} (hx : s.Reaches live roots x) (hroots : ∀ y ∈ roots, part y = b) :
    part x = b := by
  induction hx with
  | root hy => exact hroots _ hy
  | held _ hy ih => exact (h.held hy).2.trans ih
  | around _ hp =>
    rw [liveParent?, (h.domain _).2] at hp
    cases hp

theorem not_buffers (b : BufferId) : ¬ (s.reach live roots).buffers b := by
  rintro (⟨o, -, hb⟩ | ⟨d, -, hb⟩)
  · rw [h.buffer? o] at hb
    cases hb
  · rw [memory?, (h.domain d).1] at hb
    cases hb

end Separates

end Store

/-! ## Things that stand for themselves -/

namespace Naming

/-- Each thing of a region stands for itself. -/
def diagonal (R : Region) : Naming :=
  ⟨fun o o' => o = o' ∧ R.objects o, fun b b' => b = b' ∧ R.buffers b,
    fun d d' => d = d' ∧ R.domains d⟩

variable {R : Region}

theorem diagonal_entity : ∀ {x x' : Entity}, (diagonal R).entity x x' ↔ x = x' ∧ R.entity x
  | .object _, .object _ => and_congr_left' ⟨congrArg _, Entity.object.inj⟩
  | .domain _, .domain _ => and_congr_left' ⟨congrArg _, Entity.domain.inj⟩
  | .object _, .domain _ | .domain _, .object _ => by
    constructor
    · exact False.elim
    · rintro ⟨⟨⟩, -⟩

theorem left_diagonal : (diagonal R).left = R := by
  simp [left, diagonal]

theorem right_diagonal : (diagonal R).right = R := by
  simp [right, swap, left, diagonal, flip]

theorem isOneToOne_diagonal : (diagonal R).IsOneToOne := by
  have hunique : ∀ {α : Type} (P : α → Prop), Relator.BiUnique fun x y => x = y ∧ P x := by
    intro α P
    constructor
    · rintro x y z ⟨rfl, -⟩ ⟨rfl, -⟩
      rfl
    · rintro x y z ⟨rfl, -⟩ ⟨rfl, -⟩
      rfl
  exact ⟨hunique _, hunique _, hunique _⟩

end Naming

/-! ## Regions that look the same -/

/-- The things of a region are in both stores, and are the same there. -/
structure Store.AgreeOn (l r : Store) (R : Region) : Prop where
  object : ∀ {o}, R.objects o →
    o.index < l.objects.size ∧ o.index < r.objects.size ∧ l.object o = r.object o
  buffer : ∀ {b}, R.buffers b →
    b.index < l.buffers.size ∧ b.index < r.buffers.size ∧ l.buffer b = r.buffer b
  domain : ∀ {d}, R.domains d →
    d.index < l.domains.size ∧ d.index < r.domains.size ∧ l.domain d = r.domain d

/-- The domain does not belong to the region, and nothing apart from it could hold the domain. -/
def Store.GoneFrom (s : Store) (R : Region) (kept : List Entity) (p : DomainId) : Prop :=
  p.index < s.domains.size ∧ ¬ R.domains p ∧ ¬ s.Lasts kept (.domain p)

/-- **Two stores look the same from a region**: its things are the same in both, they are held alike
from apart, and the domains around its own belong to it, or are gone in both stores. -/
structure Store.SameFrom (l r : Store) (R : Region) (kept : List Entity) : Prop where
  left : l.HoldsOwn
  right : r.HoldsOwn
  encloses : l.Encloses R
  agree : l.AgreeOn r R
  keeps : ∀ x ∈ kept, l.Contains x ∧ r.Contains x
  held : ∀ x, R.entity x → (l.HeldApart kept R x ↔ r.HeldApart kept R x)
  around : ∀ {d p}, R.domains d → (l.domain d).parent = some p →
    R.domains p ∨ l.GoneFrom R kept p ∧ r.GoneFrom R kept p

namespace Store

variable {l r : Store} {R : Region} {kept : List Entity}

theorem AgreeOn.symm (h : l.AgreeOn r R) : r.AgreeOn l R where
  object ho := let ⟨hl, hr, hsame⟩ := h.object ho; ⟨hr, hl, hsame.symm⟩
  buffer hb := let ⟨hl, hr, hsame⟩ := h.buffer hb; ⟨hr, hl, hsame.symm⟩
  domain hd := let ⟨hl, hr, hsame⟩ := h.domain hd; ⟨hr, hl, hsame.symm⟩

theorem AgreeOn.holds_eq (h : l.AgreeOn r R) : ∀ {x}, R.entity x →
    r.Contains x ∧ l.holds x = r.holds x
  | .object _, ho => ⟨(h.object ho).2.1, congrArg Object.entities (h.object ho).2.2⟩
  | .domain _, hd => ⟨(h.domain hd).2.1, congrArg Domain.entities (h.domain hd).2.2⟩

theorem AgreeOn.encloses (h : l.AgreeOn r R) (hl : l.Encloses R) : r.Encloses R where
  entity hx := ⟨(h.holds_eq hx).1, (h.holds_eq hx).2 ▸ (hl.entity hx).2⟩
  buffer hb := (h.buffer hb).2.1
  bytes ho hb := hl.bytes ho (by rwa [(h.object ho).2.2])
  memory hd hb := hl.memory hd (by rwa [memory?, (h.domain hd).2.2])

namespace SameFrom

variable (h : l.SameFrom r R kept)
include h

theorem symm : r.SameFrom l R kept where
  left := h.right
  right := h.left
  encloses := h.agree.encloses h.encloses
  agree := h.agree.symm
  keeps x hx := (h.keeps x hx).symm
  held x hx := (h.held x hx).symm
  around hd hp := by
    rw [← (h.agree.domain hd).2.2] at hp
    exact (h.around hd hp).imp_right And.symm

/-- The things of the region stand for themselves. -/
def setting (_ : l.SameFrom r R kept) : Setting := ⟨l, r, .diagonal R, kept⟩

theorem corresponds : h.setting.Corresponds (.diagonal R) l r where
  oneToOne := Naming.isOneToOne_diagonal
  ascending := by
    rintro d d' p p' ⟨rfl, -⟩ ⟨rfl, -⟩
    exact Iff.rfl
  start := .refl _
  object := by
    rintro o o' ⟨rfl, ho⟩
    obtain ⟨hl, hr, hsame⟩ := h.agree.object ho
    refine ⟨hl, hr, hsame ▸ Object.matches_self (fun x hx => ?_) fun b hb => ?_⟩
    · exact Naming.diagonal_entity.mpr ⟨rfl, (h.encloses.entity (x := .object o) ho).2 x hx⟩
    · exact ⟨rfl, h.encloses.bytes ho hb⟩
  buffer := by
    rintro b b' ⟨rfl, hb⟩
    exact h.agree.buffer hb
  domain := by
    rintro d d' ⟨rfl, hd⟩
    obtain ⟨hl, hr, hsame⟩ := h.agree.domain hd
    refine ⟨hl, hr, hsame ▸ Domain.matches_self (fun x hx => ?_) fun b hb => ?_, ?_⟩
    · exact Naming.diagonal_entity.mpr ⟨rfl, (h.encloses.entity (x := .domain d) hd).2 x hx⟩
    · exact ⟨rfl, h.encloses.memory hd hb⟩
    · rw [← hsame]
      cases hp : (l.domain d).parent with
      | none => exact .named .none
      | some p =>
        rcases h.around hd hp with hpR | ⟨hgone, hgone'⟩
        · exact .named (.some ⟨rfl, hpR⟩)
        · refine .gone ⟨hgone.1, ?_, hgone.2.2⟩ ⟨hgone'.1, ?_, hgone'.2.2⟩
          · rw [setting, Naming.left_diagonal]
            exact hgone.2.1
          · rw [setting, Naming.right_diagonal]
            exact hgone.2.1
  oldObject ho _ := ho
  oldBuffer hb _ := hb
  oldDomain hd _ := hd
  left := l.spares_self _
  right := r.spares_self _

theorem isFair : h.setting.IsFair where
  joined := h.corresponds.joined
  left := h.left
  right := h.right
  kept := h.keeps
  held {x x'} hxx' := by
    obtain ⟨rfl, hx⟩ := Naming.diagonal_entity.mp hxx'
    change l.HeldApart kept (Naming.diagonal R).left x ↔
      r.HeldApart kept (Naming.diagonal R).right x
    rw [Naming.left_diagonal, Naming.right_diagonal]
    exact h.held x hx

end SameFrom

end Store

end ActionVm
