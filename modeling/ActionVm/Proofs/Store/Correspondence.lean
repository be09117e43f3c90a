import ActionVm.Proofs.Store.Entries
import ActionVm.Proofs.Store.Lasting
import ActionVm.Proofs.Store.Naming

/-!
# Stores that correspond

Two runs that start in different stores may do the same to the things that they know. These things
then stand for each other, new ones included, and all else stays in both stores as it was.

* `Region`, `Store.Spares`: a store in which nothing but the things of a region is changed or added;
* `Setting`: the stores in which two runs start;
* **`Setting.Corresponds`**: the stores at a later time;
* `Corresponds.modify`, `Corresponds.addObject` and the like: changes of both stores.
-/

namespace ActionVm

/-! ## Regions -/

/-- Some things of a store. -/
@[ext] structure Region where
  objects : ObjectId → Prop
  buffers : BufferId → Prop
  domains : DomainId → Prop

/-- Nothing of a store is changed, and nothing added to it, but the things of a region. -/
structure Store.Spares (before after : Store) (R : Region) : Prop where
  objects_le : before.objects.size ≤ after.objects.size
  buffers_le : before.buffers.size ≤ after.buffers.size
  domains_le : before.domains.size ≤ after.domains.size
  object : ∀ {o}, ¬ R.objects o → after.object o = before.object o ∧
    (o.index < after.objects.size → o.index < before.objects.size)
  buffer : ∀ {b}, ¬ R.buffers b → after.buffer b = before.buffer b ∧
    (b.index < after.buffers.size → b.index < before.buffers.size)
  domain : ∀ {d}, ¬ R.domains d → after.domain d = before.domain d ∧
    (d.index < after.domains.size → d.index < before.domains.size)

/-- All things of a region belong to another one. -/
structure Region.Le (R R' : Region) : Prop where
  objects : ∀ {o}, R.objects o → R'.objects o
  buffers : ∀ {b}, R.buffers b → R'.buffers b
  domains : ∀ {d}, R.domains d → R'.domains d

namespace Store

variable {before after : Store} {R R' : Region}

theorem spares_self (s : Store) (R : Region) : s.Spares s R :=
  ⟨Nat.le_refl _, Nat.le_refl _, Nat.le_refl _, fun _ => ⟨rfl, id⟩, fun _ => ⟨rfl, id⟩,
    fun _ => ⟨rfl, id⟩⟩

namespace Spares

variable (h : before.Spares after R)
include h

theorem mono (hle : R.Le R') : before.Spares after R' :=
  { h with
    object := fun ho => h.object fun hR => ho (hle.objects hR)
    buffer := fun hb => h.buffer fun hR => hb (hle.buffers hR)
    domain := fun hd => h.domain fun hR => hd (hle.domains hR) }

theorem modify {o : ObjectId} (ho : R.objects o) (f : Object → Object) :
    before.Spares (after.modify o f) R :=
  { h with
    objects_le := by
      rw [size_modify]
      exact h.objects_le
    object := fun {p} hp => by
      have hne : p ≠ o := by
        rintro rfl
        exact hp ho
      rw [object_modify_of_ne hne, size_modify]
      exact h.object hp }

theorem addObject (hle : R.Le R') (hnew : R'.objects ⟨after.objects.size⟩) (x : Object) :
    before.Spares (after.addObject x).2 R' :=
  { h.mono hle with
    objects_le := by
      rw [size_addObject]
      exact Nat.le_succ_of_le h.objects_le
    object := fun {p} hp => by
      have hne : p.index ≠ after.objects.size := by
        intro he
        rw [← he] at hnew
        exact hp hnew
      rw [object_addObject, if_neg hne, size_addObject]
      refine ⟨((h.mono hle).object hp).1, fun hlt => ((h.mono hle).object hp).2 ?_⟩
      omega }

theorem setBuffer {b : BufferId} (hb : R.buffers b) (x : Buffer) :
    before.Spares (after.setBuffer b x) R :=
  { h with
    buffers_le := by
      rw [size_setBuffer]
      exact h.buffers_le
    buffer := fun {p} hp => by
      have hne : p ≠ b := by
        rintro rfl
        exact hp hb
      rw [buffer_setBuffer, if_neg (fun he => hne he.1), size_setBuffer]
      exact h.buffer hp }

theorem addBuffer (hle : R.Le R') (hnew : R'.buffers ⟨after.buffers.size⟩) (x : Buffer) :
    before.Spares (after.addBuffer x).2 R' :=
  { h.mono hle with
    buffers_le := by
      rw [size_addBuffer]
      exact Nat.le_succ_of_le h.buffers_le
    buffer := fun {p} hp => by
      have hne : p.index ≠ after.buffers.size := by
        intro he
        rw [← he] at hnew
        exact hp hnew
      rw [buffer_addBuffer, if_neg hne, size_addBuffer]
      refine ⟨((h.mono hle).buffer hp).1, fun hlt => ((h.mono hle).buffer hp).2 ?_⟩
      omega }

theorem modifyDomain {d : DomainId} (hd : R.domains d) (f : Domain → Domain) :
    before.Spares (after.modifyDomain d f) R :=
  { h with
    domains_le := by
      rw [size_modifyDomain]
      exact h.domains_le
    domain := fun {p} hp => by
      have hne : p ≠ d := by
        rintro rfl
        exact hp hd
      rw [domain_modifyDomain, if_neg (fun he => hne he.1), size_modifyDomain]
      exact h.domain hp }

theorem addDomain (hle : R.Le R') (hnew : R'.domains ⟨after.domains.size⟩)
    (parent : Option DomainId) : before.Spares (after.addDomain parent).2 R' :=
  { h.mono hle with
    domains_le := by
      rw [size_addDomain]
      exact Nat.le_succ_of_le h.domains_le
    domain := fun {p} hp => by
      have hne : p.index ≠ after.domains.size := by
        intro he
        rw [← he] at hnew
        exact hp hnew
      rw [domain_addDomain, if_neg hne, size_addDomain]
      refine ⟨((h.mono hle).domain hp).1, fun hlt => ((h.mono hle).domain hp).2 ?_⟩
      omega }

end Spares

end Store

namespace Naming

variable {η : Naming}

/-- The things that stand for others. -/
def left (η : Naming) : Region :=
  ⟨fun o => ∃ o', η.object o o', fun b => ∃ b', η.buffer b b', fun d => ∃ d', η.domain d d'⟩

/-- The naming read the other way. -/
def swap (η : Naming) : Naming := ⟨flip η.object, flip η.buffer, flip η.domain⟩

/-- The things for which others stand. -/
def right (η : Naming) : Region := η.swap.left

/-- The naming with one more object. -/
def withObject (η : Naming) (o o' : ObjectId) : Naming :=
  { η with object := fun p p' => η.object p p' ∨ p = o ∧ p' = o' }

/-- The naming with one more buffer. -/
def withBuffer (η : Naming) (b b' : BufferId) : Naming :=
  { η with buffer := fun p p' => η.buffer p p' ∨ p = b ∧ p' = b' }

/-- The naming with one more domain. -/
def withDomain (η : Naming) (d d' : DomainId) : Naming :=
  { η with domain := fun p p' => η.domain p p' ∨ p = d ∧ p' = d' }

theorem le_withObject (o o' : ObjectId) : η.Le (η.withObject o o') := ⟨Or.inl, id, id⟩

theorem le_withBuffer (b b' : BufferId) : η.Le (η.withBuffer b b') := ⟨id, Or.inl, id⟩

theorem le_withDomain (d d' : DomainId) : η.Le (η.withDomain d d') := ⟨id, id, Or.inl⟩

end Naming

theorem Naming.Le.left {η η' : Naming} (h : η.Le η') : η.left.Le η'.left :=
  ⟨fun ⟨o', ho⟩ => ⟨o', h.object ho⟩, fun ⟨b', hb⟩ => ⟨b', h.buffer hb⟩,
    fun ⟨d', hd⟩ => ⟨d', h.domain hd⟩⟩

theorem Naming.Le.right {η η' : Naming} (h : η.Le η') : η.right.Le η'.right :=
  ⟨fun ⟨o', ho⟩ => ⟨o', h.object ho⟩, fun ⟨b', hb⟩ => ⟨b', h.buffer hb⟩,
    fun ⟨d', hd⟩ => ⟨d', h.domain hd⟩⟩

/-- One more pair of things that are in no other pair. -/
theorem biUnique_or_pair {α : Type} {R : α → α → Prop} (h : Relator.BiUnique R) {a a' : α}
    (ha : ∀ b, ¬ R a b) (ha' : ∀ b, ¬ R b a') :
    Relator.BiUnique fun x x' => R x x' ∨ x = a ∧ x' = a' := by
  constructor
  · rintro x y z (hx | ⟨rfl, rfl⟩) (hy | ⟨rfl, hz⟩)
    · exact h.1 hx hy
    · exact absurd hx (hz ▸ ha' x)
    · exact absurd hy (ha' y)
    · rfl
  · rintro x y z (hx | ⟨rfl, rfl⟩) (hy | ⟨hz, rfl⟩)
    · exact h.2 hx hy
    · exact absurd hx (hz ▸ ha y)
    · exact absurd hy (ha z)
    · rfl

/-! ## Two stores -/

/-- The stores in which two runs start, what stands for what in them, and what the embedding program
holds on to. -/
structure Setting where
  left : Store
  right : Store
  start : Naming
  kept : List Entity

namespace Setting

variable {Γ : Setting} {η : Naming} {s s' : Store}

/-- The domain stands for none, and nothing but things that do so could hold it. -/
def GoneLeft (Γ : Setting) (d : DomainId) : Prop :=
  d.index < Γ.left.domains.size ∧ ¬ Γ.start.left.domains d ∧
    ¬ Γ.left.Lasts Γ.kept (.domain d)

/-- No domain stands for this one, and nothing but things like it could hold it. -/
def GoneRight (Γ : Setting) (d : DomainId) : Prop :=
  d.index < Γ.right.domains.size ∧ ¬ Γ.start.right.domains d ∧
    ¬ Γ.right.Lasts Γ.kept (.domain d)

/-- The domains around two others stand for each other, or are one that is gone in both stores. -/
inductive Around (Γ : Setting) (η : Naming) : Option DomainId → Option DomainId → Prop where
  | named {d d' : Option DomainId} : Option.Rel η.domain d d' → Γ.Around η d d'
  | gone {p : DomainId} : Γ.GoneLeft p → Γ.GoneRight p → Γ.Around η (some p) (some p)

/-- **The stores correspond**: what stands for each other matches, and all else is as it was. -/
structure Corresponds (Γ : Setting) (η : Naming) (s s' : Store) : Prop where
  oneToOne : η.IsOneToOne
  /-- Of two domains, those for which they stand are in the same order. -/
  ascending : ∀ {d d' p p'}, η.domain d d' → η.domain p p' →
    (p.index < d.index ↔ p'.index < d'.index)
  start : Γ.start.Le η
  object : ∀ {o o'}, η.object o o' → o.index < s.objects.size ∧ o'.index < s'.objects.size ∧
    (s.object o).Matches η (s'.object o')
  buffer : ∀ {b b'}, η.buffer b b' → b.index < s.buffers.size ∧ b'.index < s'.buffers.size ∧
    s.buffer b = s'.buffer b'
  domain : ∀ {d d'}, η.domain d d' → d.index < s.domains.size ∧ d'.index < s'.domains.size ∧
    (s.domain d).Matches η (s'.domain d') ∧ Γ.Around η (s.domain d).parent (s'.domain d').parent
  oldObject : ∀ {o o'}, η.object o o' →
    o.index < Γ.left.objects.size ∨ o'.index < Γ.right.objects.size → Γ.start.object o o'
  oldBuffer : ∀ {b b'}, η.buffer b b' →
    b.index < Γ.left.buffers.size ∨ b'.index < Γ.right.buffers.size → Γ.start.buffer b b'
  oldDomain : ∀ {d d'}, η.domain d d' →
    d.index < Γ.left.domains.size ∨ d'.index < Γ.right.domains.size → Γ.start.domain d d'
  left : Γ.left.Spares s η.left
  right : Γ.right.Spares s' η.right

theorem Around.mono {η' : Naming} (hle : η.Le η') {d d' : Option DomainId}
    (h : Γ.Around η d d') : Γ.Around η' d d' := by
  cases h with
  | named h => exact .named (h.imp fun _ _ => hle.domain)
  | gone h h' => exact .gone h h'

/-- Domains around two others stand for each other where one that is gone stands for itself. -/
theorem Around.rel {η' : Naming} {d d' : Option DomainId} (h : Γ.Around η d d') (hle : η.Le η')
    (hgone : ∀ {p}, Γ.GoneLeft p → Γ.GoneRight p → η'.domain p p) :
    Option.Rel η'.domain d d' := by
  cases h with
  | named h => exact h.imp fun _ _ => hle.domain
  | gone h h' => exact .some (hgone h h')

/-- A domain around another one stands for one, or is gone. -/
theorem Around.named_or_gone {d d' : Option DomainId} (h : Γ.Around η d d') {p : DomainId}
    (hp : d = some p) :
    (∃ p', d' = some p' ∧ η.domain p p') ∨ Γ.GoneLeft p ∧ Γ.GoneRight p ∧ d' = some p := by
  cases h with
  | named h => exact Or.inl (h.exists_of_eq_some hp)
  | gone h h' =>
    cases hp
    exact Or.inr ⟨h, h', rfl⟩

namespace Corresponds

/-! ## Changes -/

section Changes

variable (h : Γ.Corresponds η s s')
include h

theorem modify {o o' : ObjectId} (ho : η.object o o') {f f' : Object → Object}
    (hf : ∀ x x', x.Matches η x' → (f x).Matches η (f' x')) :
    Γ.Corresponds η (s.modify o f) (s'.modify o' f') where
  __ := h
  object {p p'} hp := by
    obtain ⟨hlt, hlt', hmatches⟩ := h.object hp
    refine ⟨by rwa [Store.size_modify], by rwa [Store.size_modify], ?_⟩
    by_cases heq : p = o
    · subst heq
      obtain rfl := h.oneToOne.object.2 ho hp
      rw [Store.object_modify_self hlt, Store.object_modify_self hlt']
      exact hf _ _ hmatches
    · have heq' : p' ≠ o' := fun he => heq (h.oneToOne.object.1 hp (he ▸ ho))
      rw [Store.object_modify_of_ne heq, Store.object_modify_of_ne heq']
      exact hmatches
  left := h.left.modify ⟨o', ho⟩ f
  right := h.right.modify ⟨o, ho⟩ f'

theorem addObject {x x' : Object} (hx : x.Matches η x') :
    let η' := η.withObject ⟨s.objects.size⟩ ⟨s'.objects.size⟩
    Γ.Corresponds η' (s.addObject x).2 (s'.addObject x').2 := by
  intro η'
  have hle : η.Le η' := Naming.le_withObject _ _
  have hnew : η'.object ⟨s.objects.size⟩ ⟨s'.objects.size⟩ := Or.inr ⟨rfl, rfl⟩
  exact
    { oneToOne :=
        { h.oneToOne with
          object := biUnique_or_pair h.oneToOne.object
            (fun p hp => Nat.lt_irrefl _ (h.object hp).1)
            (fun p hp => Nat.lt_irrefl _ (h.object hp).2.1) }
      ascending := h.ascending
      start := h.start.trans hle
      object := by
        rw [Store.size_addObject, Store.size_addObject]
        rintro p p' (hp | ⟨rfl, rfl⟩)
        · obtain ⟨hlt, hlt', hmatches⟩ := h.object hp
          rw [Store.object_addObject_of_lt hlt, Store.object_addObject_of_lt hlt']
          exact ⟨by omega, by omega, hmatches.mono hle⟩
        · rw [Store.object_addObject, if_pos rfl, Store.object_addObject, if_pos rfl]
          exact ⟨Nat.lt_succ_self _, Nat.lt_succ_self _, hx.mono hle⟩
      buffer := h.buffer
      domain := fun hd =>
        let ⟨hlt, hlt', hmatches, haround⟩ := h.domain hd
        ⟨hlt, hlt', hmatches.mono hle, haround.mono hle⟩
      oldObject := by
        rintro p p' (hp | ⟨rfl, rfl⟩) hold
        · exact h.oldObject hp hold
        · have hl := h.left.objects_le
          have hr := h.right.objects_le
          dsimp only at hold
          omega
      oldBuffer := h.oldBuffer
      oldDomain := h.oldDomain
      left := h.left.addObject hle.left ⟨_, hnew⟩ x
      right := h.right.addObject hle.right ⟨_, hnew⟩ x' }

theorem setBuffer {b b' : BufferId} (hb : η.buffer b b') (x : Buffer) :
    Γ.Corresponds η (s.setBuffer b x) (s'.setBuffer b' x) where
  __ := h
  buffer {p p'} hp := by
    obtain ⟨hlt, hlt', hsame⟩ := h.buffer hp
    rw [Store.size_setBuffer, Store.size_setBuffer, Store.buffer_setBuffer, Store.buffer_setBuffer]
    refine ⟨hlt, hlt', ?_⟩
    have heq : p = b ↔ p' = b' := Relator.rel_eq h.oneToOne.buffer hp hb
    by_cases hpb : p = b
    · rw [if_pos ⟨hpb, hpb ▸ hlt⟩, if_pos ⟨heq.mp hpb, heq.mp hpb ▸ hlt'⟩]
    · rw [if_neg (fun hn => hpb hn.1), if_neg (fun hn => hpb (heq.mpr hn.1)), hsame]
  left := h.left.setBuffer ⟨b', hb⟩ x
  right := h.right.setBuffer ⟨b, hb⟩ x

theorem addBuffer (x : Buffer) :
    let η' := η.withBuffer ⟨s.buffers.size⟩ ⟨s'.buffers.size⟩
    Γ.Corresponds η' (s.addBuffer x).2 (s'.addBuffer x).2 := by
  intro η'
  have hle : η.Le η' := Naming.le_withBuffer _ _
  have hnew : η'.buffer ⟨s.buffers.size⟩ ⟨s'.buffers.size⟩ := Or.inr ⟨rfl, rfl⟩
  exact
    { oneToOne :=
        { h.oneToOne with
          buffer := biUnique_or_pair h.oneToOne.buffer
            (fun p hp => Nat.lt_irrefl _ (h.buffer hp).1)
            (fun p hp => Nat.lt_irrefl _ (h.buffer hp).2.1) }
      ascending := h.ascending
      start := h.start.trans hle
      object := fun ho =>
        let ⟨hlt, hlt', hmatches⟩ := h.object ho
        ⟨hlt, hlt', hmatches.mono hle⟩
      buffer := by
        rw [Store.size_addBuffer, Store.size_addBuffer]
        rintro p p' (hp | ⟨rfl, rfl⟩)
        · obtain ⟨hlt, hlt', hsame⟩ := h.buffer hp
          rw [Store.buffer_addBuffer, if_neg (Nat.ne_of_lt hlt), Store.buffer_addBuffer,
            if_neg (Nat.ne_of_lt hlt')]
          exact ⟨by omega, by omega, hsame⟩
        · rw [Store.buffer_addBuffer, if_pos rfl, Store.buffer_addBuffer, if_pos rfl]
          exact ⟨Nat.lt_succ_self _, Nat.lt_succ_self _, rfl⟩
      domain := fun hd =>
        let ⟨hlt, hlt', hmatches, haround⟩ := h.domain hd
        ⟨hlt, hlt', hmatches.mono hle, haround.mono hle⟩
      oldObject := h.oldObject
      oldBuffer := by
        rintro p p' (hp | ⟨rfl, rfl⟩) hold
        · exact h.oldBuffer hp hold
        · have hl := h.left.buffers_le
          have hr := h.right.buffers_le
          dsimp only at hold
          omega
      oldDomain := h.oldDomain
      left := h.left.addBuffer hle.left ⟨_, hnew⟩ x
      right := h.right.addBuffer hle.right ⟨_, hnew⟩ x }

theorem setMemory {d d' : DomainId} (hd : η.domain d d') {b b' : Option BufferId}
    (hb : Option.Rel η.buffer b b') : Γ.Corresponds η (s.setMemory d b) (s'.setMemory d' b') where
  __ := h
  domain {p p'} hp := by
    obtain ⟨hlt, hlt', hmatches, haround⟩ := h.domain hp
    rw [Store.setMemory, Store.setMemory, Store.size_modifyDomain, Store.size_modifyDomain,
      Store.domain_modifyDomain, Store.domain_modifyDomain]
    refine ⟨hlt, hlt', ?_⟩
    have heq : p = d ↔ p' = d' := Relator.rel_eq h.oneToOne.domain hp hd
    by_cases hpd : p = d
    · obtain rfl := hpd
      obtain rfl := heq.mp rfl
      rw [if_pos ⟨rfl, hlt⟩, if_pos ⟨rfl, hlt'⟩]
      exact ⟨⟨hmatches.classes, hb⟩, haround⟩
    · rw [if_neg (fun hn => hpd hn.1), if_neg (fun hn => hpd (heq.mpr hn.1))]
      exact ⟨hmatches, haround⟩
  left := h.left.modifyDomain ⟨d', hd⟩ _
  right := h.right.modifyDomain ⟨d, hd⟩ _

theorem addDomain {p p' : DomainId} (hp : η.domain p p') :
    let η' := η.withDomain ⟨s.domains.size⟩ ⟨s'.domains.size⟩
    Γ.Corresponds η' (s.addDomain (some p)).2 (s'.addDomain (some p')).2 := by
  intro η'
  have hle : η.Le η' := Naming.le_withDomain _ _
  have hnew : η'.domain ⟨s.domains.size⟩ ⟨s'.domains.size⟩ := Or.inr ⟨rfl, rfl⟩
  exact
    { oneToOne :=
        { h.oneToOne with
          domain := biUnique_or_pair h.oneToOne.domain
            (fun q hq => Nat.lt_irrefl _ (h.domain hq).1)
            (fun q hq => Nat.lt_irrefl _ (h.domain hq).2.1) }
      ascending := by
        rintro d d' q q' (hd | ⟨rfl, rfl⟩) (hq | ⟨rfl, rfl⟩)
        · exact h.ascending hd hq
        · have := (h.domain hd).1
          have := (h.domain hd).2.1
          dsimp only
          omega
        · have := (h.domain hq).1
          have := (h.domain hq).2.1
          dsimp only
          omega
        · exact iff_of_false (Nat.lt_irrefl _) (Nat.lt_irrefl _)
      start := h.start.trans hle
      object := fun ho =>
        let ⟨hlt, hlt', hmatches⟩ := h.object ho
        ⟨hlt, hlt', hmatches.mono hle⟩
      buffer := h.buffer
      domain := by
        rw [Store.size_addDomain, Store.size_addDomain]
        rintro q q' (hq | ⟨rfl, rfl⟩)
        · obtain ⟨hlt, hlt', hmatches, haround⟩ := h.domain hq
          rw [Store.domain_addDomain, if_neg (Nat.ne_of_lt hlt), Store.domain_addDomain,
            if_neg (Nat.ne_of_lt hlt')]
          exact ⟨by omega, by omega, hmatches.mono hle, haround.mono hle⟩
        · rw [Store.domain_addDomain, if_pos rfl, Store.domain_addDomain, if_pos rfl]
          exact ⟨Nat.lt_succ_self _, Nat.lt_succ_self _, ⟨.nil, .none⟩,
            .named (.some (hle.domain hp))⟩
      oldObject := h.oldObject
      oldBuffer := h.oldBuffer
      oldDomain := by
        rintro q q' (hq | ⟨rfl, rfl⟩) hold
        · exact h.oldDomain hq hold
        · have hl := h.left.domains_le
          have hr := h.right.domains_le
          dsimp only at hold
          omega
      left := h.left.addDomain hle.left ⟨_, hnew⟩ _
      right := h.right.addDomain hle.right ⟨_, hnew⟩ _ }

end Changes

end Corresponds

end Setting

end ActionVm
