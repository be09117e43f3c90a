import ActionVm.Proofs.Store.Correspondence

/-!
# What lives in corresponding stores

Domains that stand for each other live or are gone together, as long as the things apart from them
hold the same of them in both stores. So the same classes are found.

* `Store.HeldApart`: what the things apart from a region hold of it;
* `Setting.Joined`: what stands for each other holds things that do so as well;
* `Setting.IsFair`: two runs start with the same held from apart;
* `Setting.Carried`: what lasts in the second store because of the first one, with
  `IsFair.supports_carried`;
* **`Setting.IsFair.lasts_iff`**: what stands for each other lasts in both stores, or in neither;
* **`Setting.IsFair.class?`**: classes of domains that stand for each other.
-/

namespace ActionVm

open List (Forall₂)

/-- The thing belongs to the region. -/
def Region.entity (R : Region) : Entity → Prop
  | .object o => R.objects o
  | .domain d => R.domains d

namespace Naming

variable {η : Naming}

theorem entity_left {x : Entity} : η.left.entity x ↔ ∃ x', η.entity x x' := by
  cases x with
  | object o =>
    constructor
    · rintro ⟨o', ho⟩
      exact ⟨.object o', ho⟩
    · rintro ⟨o' | d', ho⟩
      · exact ⟨o', ho⟩
      · exact ho.elim
  | domain d =>
    constructor
    · rintro ⟨d', hd⟩
      exact ⟨.domain d', hd⟩
    · rintro ⟨o' | d', hd⟩
      · exact hd.elim
      · exact ⟨d', hd⟩

theorem entity_swap : ∀ {x x' : Entity}, η.swap.entity x x' ↔ η.entity x' x
  | .object _, .object _ | .domain _, .domain _ => Iff.rfl
  | .object _, .domain _ | .domain _, .object _ => Iff.rfl

theorem entity_right {x' : Entity} : η.right.entity x' ↔ ∃ x, η.entity x x' := by
  rw [right, entity_left]
  exact exists_congr fun _ => entity_swap

end Naming

namespace Store

variable {before after s : Store} {R : Region} {kept outside : List Entity} {x : Entity}

/-- Nothing in the store holds what is not there. -/
def HoldsOwn (s : Store) : Prop := ∀ z, ∀ x ∈ s.holds z, s.Contains x

/-- The embedding program holds the thing, or something apart from a region does that may last. -/
def HeldApart (s : Store) (kept : List Entity) (R : Region) (x : Entity) : Prop :=
  x ∈ kept ∨ ∃ z, ¬ R.entity z ∧ s.Lasts kept z ∧ x ∈ s.holds z

theorem Spares.holds_eq (h : before.Spares after R) (hx : ¬ R.entity x) :
    after.holds x = before.holds x := by
  cases x with
  | object o => rw [holds, holds, (h.object hx).1]
  | domain d => rw [holds, holds, (h.domain hx).1]

theorem Spares.contains (h : before.Spares after R) (hx : ¬ R.entity x) :
    after.Contains x → before.Contains x := by
  cases x with
  | object o => exact (h.object hx).2
  | domain d => exact (h.domain hx).2

theorem Spares.contains_after (h : before.Spares after R) (hx : before.Contains x) :
    after.Contains x := by
  cases x with
  | object o => exact Nat.lt_of_lt_of_le hx h.objects_le
  | domain d => exact Nat.lt_of_lt_of_le hx h.domains_le

/-- What is apart from a region lasts without it. -/
theorem Spares.lasts (h : before.Spares after R)
    (hclosed : ∀ z, R.entity z → ∀ y ∈ after.holds z, R.entity y)
    (houtside : ∀ y ∈ outside, R.entity y ∨ y ∈ kept) (hx : ¬ R.entity x)
    (hlasts : after.Lasts outside x) : before.Lasts kept x := by
  refine ⟨fun y => ¬ R.entity y ∧ after.Lasts outside y, ?_, hx, hlasts⟩
  rintro y ⟨hy, hlasts⟩
  obtain ⟨hcontains, hout | ⟨z, hz, hheld⟩⟩ := supports_lasts y hlasts
  · exact ⟨h.contains hy hcontains, Or.inl ((houtside y hout).resolve_left hy)⟩
  · have hzR : ¬ R.entity z := fun hzR => hy (hclosed z hzR y hheld)
    rw [h.holds_eq hzR] at hheld
    exact ⟨h.contains hy hcontains, Or.inr ⟨z, ⟨hzR, hz⟩, hheld⟩⟩

end Store

namespace Setting

variable {Γ : Setting} {η : Naming} {s s' : Store}

/-- The setting read the other way. -/
def swap (Γ : Setting) : Setting := ⟨Γ.right, Γ.left, Γ.start.swap, Γ.kept⟩

/-- What stands for each other is there and holds things that stand for each other, and all else
is as it was. -/
structure Joined (Γ : Setting) (η : Naming) (s s' : Store) : Prop where
  unique : Relator.BiUnique η.entity
  start : ∀ {x x'}, Γ.start.entity x x' → η.entity x x'
  holds : ∀ {x x'}, η.entity x x' → s.Contains x ∧ s'.Contains x' ∧
    Forall₂ η.entity (s.holds x) (s'.holds x')
  old : ∀ {x x'}, η.entity x x' → Γ.left.Contains x ∨ Γ.right.Contains x' → Γ.start.entity x x'
  left : Γ.left.Spares s η.left
  right : Γ.right.Spares s' η.right

theorem Corresponds.joined (h : Γ.Corresponds η s s') : Γ.Joined η s s' where
  unique := h.oneToOne.entity
  start := h.start.entity _ _
  holds {x x'} hx := by
    cases x with
    | object o =>
      cases x' with
      | object o' =>
        obtain ⟨hlt, hlt', hmatches⟩ := h.object hx
        exact ⟨hlt, hlt', hmatches.entities⟩
      | domain => exact hx.elim
    | domain d =>
      cases x' with
      | object => exact hx.elim
      | domain d' =>
        obtain ⟨hlt, hlt', hmatches, -⟩ := h.domain hx
        exact ⟨hlt, hlt', hmatches.entities⟩
  old {x x'} hx hold := by
    cases x with
    | object o =>
      cases x' with
      | object o' => exact h.oldObject hx hold
      | domain => exact hx.elim
    | domain d =>
      cases x' with
      | object => exact hx.elim
      | domain d' => exact h.oldDomain hx hold
  left := h.left
  right := h.right

namespace Joined

variable (h : Γ.Joined η s s')
include h

theorem swap : Γ.swap.Joined η.swap s' s where
  unique := by
    refine ⟨fun x y z hx hy => ?_, fun x y z hx hy => ?_⟩
    · exact h.unique.2 (Naming.entity_swap.mp hx) (Naming.entity_swap.mp hy)
    · exact h.unique.1 (Naming.entity_swap.mp hx) (Naming.entity_swap.mp hy)
  start hx := Naming.entity_swap.mpr (h.start (Naming.entity_swap.mp hx))
  holds hx := by
    obtain ⟨hin, hin', hholds⟩ := h.holds (Naming.entity_swap.mp hx)
    refine ⟨hin', hin, List.Forall₂.flip (List.Forall₂.imp (fun _ _ hy => ?_) hholds)⟩
    exact Naming.entity_swap.mpr hy
  old hx hold := Naming.entity_swap.mpr (h.old (Naming.entity_swap.mp hx) hold.symm)
  left := h.right
  right := h.left

theorem closed_left (z : Entity) (hz : η.left.entity z) : ∀ y ∈ s.holds z, η.left.entity y := by
  intro y hy
  obtain ⟨z', hz⟩ := Naming.entity_left.mp hz
  obtain ⟨y', -, hy⟩ := (h.holds hz).2.2.exists_of_mem hy
  exact Naming.entity_left.mpr ⟨y', hy⟩

end Joined

/-- **Two runs start fairly**: what stands for each other at the start is held from apart in both
stores, or in neither. -/
structure IsFair (Γ : Setting) : Prop where
  joined : Γ.Joined Γ.start Γ.left Γ.right
  left : Γ.left.HoldsOwn
  right : Γ.right.HoldsOwn
  kept : ∀ x ∈ Γ.kept, Γ.left.Contains x ∧ Γ.right.Contains x
  held : ∀ {x x'}, Γ.start.entity x x' →
    (Γ.left.HeldApart Γ.kept Γ.start.left x ↔ Γ.right.HeldApart Γ.kept Γ.start.right x')

theorem IsFair.swap (h : Γ.IsFair) : Γ.swap.IsFair where
  joined := h.joined.swap
  left := h.right
  right := h.left
  kept x hx := (h.kept x hx).symm
  held hx := (h.held (Naming.entity_swap.mp hx)).symm

/-- What is held while two runs go on: what the embedding program keeps, and besides only things
that stand for each other. -/
structure Outside (Γ : Setting) (η : Naming) (outside outside' : List Entity) : Prop where
  kept : ∀ x ∈ Γ.kept, x ∈ outside ∧ x ∈ outside'
  left : ∀ x ∈ outside, (∃ x' ∈ outside', η.entity x x') ∨ x ∈ Γ.kept
  right : ∀ x' ∈ outside', (∃ x ∈ outside, η.entity x x') ∨ x' ∈ Γ.kept

variable {outside outside' : List Entity}

theorem Outside.swap (h : Γ.Outside η outside outside') :
    Γ.swap.Outside η.swap outside' outside where
  kept x hx := (h.kept x hx).symm
  left x hx := (h.right x hx).imp_left fun ⟨y, hy, hxy⟩ => ⟨y, hy, Naming.entity_swap.mpr hxy⟩
  right x hx := (h.left x hx).imp_left fun ⟨y, hy, hxy⟩ => ⟨y, hy, Naming.entity_swap.mpr hxy⟩

theorem Outside.known_or_kept (h : Γ.Outside η outside outside') (x : Entity) (hx : x ∈ outside) :
    η.left.entity x ∨ x ∈ Γ.kept :=
  (h.left x hx).imp_left fun ⟨x', _, hxx'⟩ => Naming.entity_left.mpr ⟨x', hxx'⟩

/-- What stands for something that lasts, and what lasts apart from all that stands for something. -/
def Carried (Γ : Setting) (η : Naming) (s : Store) (outside : List Entity) (y' : Entity) : Prop :=
  (∃ y, s.Lasts outside y ∧ η.entity y y') ∨ ¬ η.right.entity y' ∧ Γ.right.Lasts Γ.kept y'

theorem Joined.apart_right (h : Γ.Joined η s s') {z' : Entity} (hz' : ¬ Γ.start.right.entity z')
    (hin : Γ.right.Contains z') : ¬ η.right.entity z' := by
  intro hknown
  obtain ⟨z, hz⟩ := Naming.entity_right.mp hknown
  exact hz' (Naming.entity_right.mpr ⟨z, h.old hz (Or.inr hin)⟩)

namespace IsFair

section Carried

variable (hΓ : Γ.IsFair) (h : Γ.Joined η s s') (hout : Γ.Outside η outside outside')
  {y y' : Entity}
include hΓ h hout

/-- What held something from apart at the start still does so. -/
theorem held_of_heldApart (hyy' : η.entity y y') (hin : Γ.left.Contains y)
    (hheld : Γ.left.HeldApart Γ.kept Γ.start.left y) :
    y' ∈ outside' ∨ ∃ z', Γ.Carried η s outside z' ∧ y' ∈ s'.holds z' := by
  obtain hkept | ⟨z', hz', hlasts, hholds⟩ := (hΓ.held (h.old hyy' (Or.inl hin))).mp hheld
  · exact Or.inl (hout.kept y' hkept).2
  · have hapart := h.apart_right hz' (Store.supports_lasts z' hlasts).1
    rw [← h.right.holds_eq hapart] at hholds
    exact Or.inr ⟨z', Or.inr ⟨hapart, hlasts⟩, hholds⟩

theorem held_of_lasts (hyy' : η.entity y y') (hlasts : s.Lasts outside y) :
    y' ∈ outside' ∨ ∃ z', Γ.Carried η s outside z' ∧ y' ∈ s'.holds z' := by
  obtain ⟨-, hyout | ⟨z, hz, hholds⟩⟩ := Store.supports_lasts y hlasts
  · rcases hout.left y hyout with ⟨y'', hy'', hyy''⟩ | hkept
    · rw [h.unique.2 hyy' hyy'']
      exact Or.inl hy''
    · exact hΓ.held_of_heldApart h hout hyy' (hΓ.kept y hkept).1 (Or.inl hkept)
  · by_cases hknown : η.left.entity z
    · obtain ⟨z', hzz'⟩ := Naming.entity_left.mp hknown
      obtain ⟨y'', hy'', hyy''⟩ := (h.holds hzz').2.2.exists_of_mem hholds
      rw [h.unique.2 hyy' hyy'']
      exact Or.inr ⟨z', Or.inl ⟨z, hz, hzz'⟩, hy''⟩
    · have hzlasts := h.left.lasts h.closed_left hout.known_or_kept hknown hz
      have hstart : ¬ Γ.start.left.entity z := by
        intro hstart
        obtain ⟨z', hzz'⟩ := Naming.entity_left.mp hstart
        exact hknown (Naming.entity_left.mpr ⟨z', h.start hzz'⟩)
      rw [h.left.holds_eq hknown] at hholds
      exact hΓ.held_of_heldApart h hout hyy' (hΓ.left z y hholds)
        (Or.inr ⟨z, hstart, hzlasts, hholds⟩)

theorem held_of_apart (hy' : ¬ η.right.entity y') (hlasts : Γ.right.Lasts Γ.kept y') :
    y' ∈ outside' ∨ ∃ z', Γ.Carried η s outside z' ∧ y' ∈ s'.holds z' := by
  obtain ⟨-, hkept | ⟨z', hz', hholds⟩⟩ := Store.supports_lasts y' hlasts
  · exact Or.inl (hout.kept y' hkept).2
  · have hstart : ¬ Γ.start.right.entity z' := by
      intro hstart
      obtain ⟨y, hy⟩ := Naming.entity_left.mp (hΓ.joined.swap.closed_left z' hstart y' hholds)
      exact hy' (Naming.entity_right.mpr ⟨y, h.start (Naming.entity_swap.mp hy)⟩)
    have hapart := h.apart_right hstart (Store.supports_lasts z' hz').1
    rw [← h.right.holds_eq hapart] at hholds
    exact Or.inr ⟨z', Or.inr ⟨hapart, hz'⟩, hholds⟩

theorem supports_carried : s'.Supports outside' (Γ.Carried η s outside) := by
  rintro y' (⟨y, hlasts, hyy'⟩ | ⟨hy', hlasts⟩)
  · exact ⟨(h.holds hyy').2.1, hΓ.held_of_lasts h hout hyy' hlasts⟩
  · exact ⟨h.right.contains_after (Store.supports_lasts y' hlasts).1,
      hΓ.held_of_apart h hout hy' hlasts⟩

end Carried

/-- **What stands for each other** lasts in both stores, or in neither. -/
theorem lasts_iff (hΓ : Γ.IsFair) (h : Γ.Joined η s s') (hout : Γ.Outside η outside outside')
    {x x' : Entity} (hx : η.entity x x') : s.Lasts outside x ↔ s'.Lasts outside' x' := by
  constructor
  · intro hlasts
    exact ⟨_, hΓ.supports_carried h hout, Or.inl ⟨x, hlasts, hx⟩⟩
  · intro hlasts
    exact ⟨_, hΓ.swap.supports_carried h.swap hout.swap,
      Or.inl ⟨x', hlasts, Naming.entity_swap.mpr hx⟩⟩

end IsFair

/-! ## Classes -/

section Gone

variable {p : DomainId} (h : Γ.Corresponds η s s') (hout : Γ.Outside η outside outside')
include h hout

theorem GoneLeft.not_lasts (hp : Γ.GoneLeft p) : ¬ s.Lasts outside (.domain p) := by
  obtain ⟨hlt, hstart, hgone⟩ := hp
  refine fun hlasts => hgone (h.left.lasts h.joined.closed_left hout.known_or_kept ?_ hlasts)
  rintro ⟨p', hp⟩
  exact hstart ⟨p', h.oldDomain hp (Or.inl hlt)⟩

theorem GoneRight.not_lasts (hp : Γ.GoneRight p) : ¬ s'.Lasts outside' (.domain p) := by
  obtain ⟨hlt, hstart, hgone⟩ := hp
  refine fun hlasts => hgone
    (h.right.lasts h.joined.swap.closed_left hout.swap.known_or_kept ?_ hlasts)
  rintro ⟨p', hp⟩
  exact hstart ⟨p', h.oldDomain hp (Or.inr hlt)⟩

end Gone

namespace IsFair

variable (hΓ : Γ.IsFair) (h : Γ.Corresponds η s s') (hout : Γ.Outside η outside outside')
  {d d' : DomainId} (hd : η.domain d d')
include hΓ h hout hd

/-- The domains around two others live together. -/
theorem liveParent? : Option.Rel η.domain (s.liveParent? (s.live outside) d)
    (s'.liveParent? (s'.live outside') d') := by
  have haround := (h.domain hd).2.2.2
  unfold Store.liveParent?
  revert haround
  generalize (s.domain d).parent = p
  generalize (s'.domain d').parent = p'
  intro haround
  cases haround with
  | named hp =>
    cases hp with
    | none => exact .none
    | @some p p' hp =>
      have hlive : (s.live outside).has (.domain p) = (s'.live outside').has (.domain p') := by
        rw [Bool.eq_iff_iff, Store.has_live_iff, Store.has_live_iff]
        exact hΓ.lasts_iff h.joined hout hp
      rw [Option.filter_some, Option.filter_some, hlive]
      split_ifs
      · exact .some hp
      · exact .none
  | @gone p hp hp' =>
    have hlive : (s.live outside).has (.domain p) = false := by
      rw [Bool.eq_false_iff, ne_eq, Store.has_live_iff]
      exact hp.not_lasts h hout
    have hlive' : (s'.live outside').has (.domain p) = false := by
      rw [Bool.eq_false_iff, ne_eq, Store.has_live_iff]
      exact hp'.not_lasts h hout
    rw [Option.filter_some, Option.filter_some, hlive, hlive']
    exact .none

theorem classFrom? (name : String) : Option.Rel (Value.Matches η)
    (s.classFrom? (s.live outside) d name) (s'.classFrom? (s'.live outside') d' name) := by
  induction d using (measure DomainId.index).wf.induction generalizing d' with
  | _ d ih =>
    have hclass := (h.domain hd).2.2.1.classes.get? name
    have hparent := hΓ.liveParent? h hout hd
    rw [Store.classFrom?, Store.classFrom?]
    revert hclass
    generalize (s.domain d).classes.get? name = v
    generalize (s'.domain d').classes.get? name = v'
    rintro (hv | _)
    · exact .some hv
    · revert hparent
      generalize s.liveParent? (s.live outside) d = p
      generalize s'.liveParent? (s'.live outside') d' = p'
      rintro (hp | _)
      · dsimp only
        have hlt := h.ascending hd hp
        split_ifs with hp hp' hp'
        · exact ih _ hp ‹_›
        · exact absurd (hlt.mp hp) hp'
        · exact absurd (hlt.mpr hp') hp
        · exact .none
      · exact .none

/-- **A look-up of a class** finds the same in both stores. -/
theorem class? (name : String) : Option.Rel (Value.Matches η)
    (s.class? outside d name) (s'.class? outside' d' name) := by
  have hclass := (h.domain hd).2.2.1.classes.get? name
  unfold Store.class?
  revert hclass
  generalize (s.domain d).classes.get? name = v
  generalize (s'.domain d').classes.get? name = v'
  rintro (hv | _)
  · exact .some hv
  · exact hΓ.classFrom? h hout hd name

end IsFair

end Setting

end ActionVm
