import ActionVm.Host.Install
import ActionVm.Proofs.Workers.Confinement

/-!
# Workers that reach nothing in common

Where two workers reach nothing in common, it does not matter which of them runs first.

* `Naming.Extends`, `Naming.Crosses`: the names of one kind after one run, and after two runs in
  either order, with `Crosses.biUnique`, `Crosses.left_iff`, `Crosses.right_iff`,
  **`Crosses.entries`**;
* `Naming.crossed`: the names of all things after two runs;
* `Domain.MatchesInside`, `Store.Isomorphic`, `Machine.Matches`: domains, stores and machines that are
  the same but for names;
* **`Store.isomorphic_crossed`**: the stores after two runs in either order;
* `Store.KeptBeyond`: a store after changes in a region;
* `Worker.Apart`: workers that reach nothing in common, with `Host.apart_neighbours`: two workers that
  have just been given the objects of the host;
* **`Machine.runs_confined`**: what a worker does not reach stays as it was, and workers that reach
  nothing in common do not depend on their order.
-/

namespace ActionVm

/-! ## Names of one kind -/

namespace Naming

variable {α : Type} {index : α → ℕ} {P P' : α → Prop} {A B : α → α → Prop}
  {n n₁ n₂ n₁₂ n₂₁ : ℕ}

/-- Names in two places, which had `l` and `r` of them and have `l'` and `r'` now. Old names are
related only if they belong to `P`, and then to themselves, and all new ones are related. -/
structure Extends (index : α → ℕ) (P : α → Prop) (A : α → α → Prop) (l l' r r' : ℕ) : Prop where
  unique : Relator.BiUnique A
  self : ∀ {x}, P x → A x x
  bound : ∀ {x y}, A x y → index x < l' ∧ index y < r'
  old : ∀ {x y}, A x y → index x < l ∨ index y < r → x = y ∧ P x
  left : ∀ {x}, index x < l' → l ≤ index x → ∃ y, A x y
  right : ∀ {y}, index y < r' → r ≤ index y → ∃ x, A x y

/-- Names after two runs. There were `n` of them, and `n₁` after the first run and `n₁₂` after both,
or `n₂` and `n₂₁` in the other order. -/
structure Crosses (index : α → ℕ) (P P' : α → Prop) (A B : α → α → Prop)
    (n n₁ n₂ n₁₂ n₂₁ : ℕ) : Prop where
  first : Extends index P A n n₁ n₂ n₂₁
  second : Extends index P' B n₁ n₁₂ n n₂
  disjoint : ∀ {x}, P x → ¬ P' x
  within : ∀ {x}, P x ∨ P' x → index x < n
  le : n ≤ n₁ ∧ n ≤ n₂ ∧ n₁ ≤ n₁₂ ∧ n₂ ≤ n₂₁

/-- Names that are related after one of two runs, and all others that were there before, related to
themselves. -/
def either (A B : α → α → Prop) (rest : α → Prop) (x y : α) : Prop :=
  A x y ∨ B x y ∨ x = y ∧ rest x

/-- The names that were there before and do not belong to either run. -/
def Beyond (index : α → ℕ) (n : ℕ) (P P' : α → Prop) (x : α) : Prop :=
  index x < n ∧ ¬ P x ∧ ¬ P' x

namespace Crosses

variable (h : Crosses index P P' A B n n₁ n₂ n₁₂ n₂₁)
include h

theorem not_second_left {x y z : α} (hA : A x y) : ¬ B x z := by
  intro hB
  obtain ⟨-, hP'⟩ := h.second.old hB (Or.inl (h.first.bound hA).1)
  obtain ⟨-, hP⟩ := h.first.old hA (Or.inl (h.within (Or.inr hP')))
  exact h.disjoint hP hP'

theorem not_second_right {x y z : α} (hA : A x y) : ¬ B z y := by
  intro hB
  obtain ⟨rfl, hP⟩ := h.first.old hA (Or.inr (h.second.bound hB).2)
  obtain ⟨rfl, hP'⟩ := h.second.old hB (Or.inr (h.within (Or.inl hP)))
  exact h.disjoint hP hP'

theorem not_first {x y : α} (hx : Beyond index n P P' x) : ¬ A x y ∧ ¬ A y x := by
  obtain ⟨hlt, hP, -⟩ := hx
  refine ⟨fun hA => hP (h.first.old hA (Or.inl hlt)).2, fun hA => ?_⟩
  obtain ⟨rfl, hP'⟩ := h.first.old hA (Or.inr (hlt.trans_le h.le.2.1))
  exact hP hP'

theorem not_second {x y : α} (hx : Beyond index n P P' x) : ¬ B x y ∧ ¬ B y x := by
  obtain ⟨hlt, -, hP'⟩ := hx
  refine ⟨fun hB => hP' (h.second.old hB (Or.inl (hlt.trans_le h.le.1))).2, fun hB => ?_⟩
  obtain ⟨rfl, hP⟩ := h.second.old hB (Or.inr hlt)
  exact hP' hP

theorem self {x : α} (hx : index x < n) : either A B (Beyond index n P P') x x := by
  by_cases hP : P x
  · exact Or.inl (h.first.self hP)
  · by_cases hP' : P' x
    · exact Or.inr (Or.inl (h.second.self hP'))
    · exact Or.inr (Or.inr ⟨rfl, hx, hP, hP'⟩)

theorem biUnique : Relator.BiUnique (either A B (Beyond index n P P')) := by
  constructor
  · rintro x y z (hx | hx | ⟨rfl, hx⟩) (hy | hy | ⟨rfl, hy⟩)
    · exact h.first.unique.1 hx hy
    · exact absurd hy (h.not_second_right hx)
    · exact absurd hx (h.not_first hy).2
    · exact absurd hx (h.not_second_right hy)
    · exact h.second.unique.1 hx hy
    · exact absurd hx (h.not_second hy).2
    · exact absurd hy (h.not_first hx).2
    · exact absurd hy (h.not_second hx).2
    · rfl
  · rintro x y z (hx | hx | ⟨rfl, hx⟩) (hy | hy | ⟨rfl, hy⟩)
    · exact h.first.unique.2 hx hy
    · exact absurd hy (h.not_second_left hx)
    · exact absurd hx (h.not_first hy).1
    · exact absurd hx (h.not_second_left hy)
    · exact h.second.unique.2 hx hy
    · exact absurd hx (h.not_second hy).1
    · exact absurd hy (h.not_first hx).1
    · exact absurd hy (h.not_second hx).1
    · rfl

/-- In the one order all names are related. -/
theorem left_iff (x : α) : (∃ y, either A B (Beyond index n P P') x y) ↔ index x < n₁₂ := by
  obtain ⟨hn₁, -, h₁₂, -⟩ := h.le
  constructor
  · rintro ⟨y, hA | hB | ⟨-, hx, -⟩⟩
    · exact (h.first.bound hA).1.trans_le h₁₂
    · exact (h.second.bound hB).1
    · omega
  · intro hx
    by_cases h₁ : n₁ ≤ index x
    · obtain ⟨y, hy⟩ := h.second.left hx h₁
      exact ⟨y, Or.inr (Or.inl hy)⟩
    · by_cases h₀ : n ≤ index x
      · obtain ⟨y, hy⟩ := h.first.left (Nat.lt_of_not_le h₁) h₀
        exact ⟨y, Or.inl hy⟩
      · exact ⟨x, h.self (Nat.lt_of_not_le h₀)⟩

/-- In the other order all names are related as well. -/
theorem right_iff (y : α) : (∃ x, either A B (Beyond index n P P') x y) ↔ index y < n₂₁ := by
  obtain ⟨-, hn₂, -, h₂₁⟩ := h.le
  constructor
  · rintro ⟨x, hA | hB | ⟨rfl, hx, -⟩⟩
    · exact (h.first.bound hA).2
    · exact (h.second.bound hB).2.trans_le h₂₁
    · omega
  · intro hy
    by_cases h₂ : n₂ ≤ index y
    · obtain ⟨x, hx⟩ := h.first.right hy h₂
      exact ⟨x, Or.inl hx⟩
    · by_cases h₀ : n ≤ index y
      · obtain ⟨x, hx⟩ := h.second.right (Nat.lt_of_not_le h₂) h₀
        exact ⟨x, Or.inr (Or.inl hx)⟩
      · exact ⟨y, h.self (Nat.lt_of_not_le h₀)⟩

/-- What stands under related names, if each run leaves alone what it does not name. -/
theorem entries {β : Type} {M : β → β → Prop} {e e₁ e₂ e₁₂ e₂₁ : α → β}
    (h₁ : ∀ {x}, (¬ ∃ y, A x y) → e₁ x = e x) (h₁₂ : ∀ {x}, (¬ ∃ y, B x y) → e₁₂ x = e₁ x)
    (h₂ : ∀ {y}, (¬ ∃ x, B x y) → e₂ y = e y) (h₂₁ : ∀ {y}, (¬ ∃ x, A x y) → e₂₁ y = e₂ y)
    (hA : ∀ {x y}, A x y → M (e₁ x) (e₂₁ y)) (hB : ∀ {x y}, B x y → M (e₁₂ x) (e₂ y))
    (hrest : ∀ {x}, Beyond index n P P' x → M (e x) (e x)) {x y : α}
    (hxy : either A B (Beyond index n P P') x y) : M (e₁₂ x) (e₂₁ y) := by
  rcases hxy with hx | hx | ⟨rfl, hx⟩
  · rw [h₁₂ fun ⟨_, hx'⟩ => h.not_second_left hx hx']
    exact hA hx
  · rw [h₂₁ fun ⟨_, hx'⟩ => h.not_second_right hx' hx]
    exact hB hx
  · rw [h₁₂ fun ⟨_, hx'⟩ => (h.not_second hx).1 hx', h₁ fun ⟨_, hx'⟩ => (h.not_first hx).1 hx',
      h₂₁ fun ⟨_, hx'⟩ => (h.not_first hx).2 hx', h₂ fun ⟨_, hx'⟩ => (h.not_second hx).2 hx']
    exact hrest hx

end Crosses

end Naming

/-! ## Stores and machines that are the same but for names -/

/-- All things of a store. -/
def Store.things (s : Store) : Region :=
  ⟨fun o => o.index < s.objects.size, fun b => b.index < s.buffers.size,
    fun d => d.index < s.domains.size⟩

/-- The domains match, and so do the domains inside which they were made. -/
def Domain.MatchesInside (η : Naming) (d d' : Domain) : Prop :=
  d.Matches η d' ∧ Option.Rel η.domain d.parent d'.parent

/-- **The stores are the same but for names**: every thing of the one stands for a thing of the
other, which is the same but for the names of what it refers to. -/
structure Store.Isomorphic (η : Naming) (s s' : Store) : Prop where
  oneToOne : η.IsOneToOne
  left : η.left = s.things
  right : η.right = s'.things
  object : ∀ {o o'}, η.object o o' → (s.object o).Matches η (s'.object o')
  buffer : ∀ {b b'}, η.buffer b b' → s.buffer b = s'.buffer b'
  domain : ∀ {d d'}, η.domain d d' → (s.domain d).MatchesInside η (s'.domain d')

/-- The machines are at the same place, and their workers are the same, but for names. -/
structure Machine.Matches (η : Naming) (m m' : Machine) : Prop where
  control : m.control.Matches η m'.control
  frames : List.Forall₂ (Frame.Matches η) m.frames m'.frames
  worker : m.state.worker.Matches η m'.state.worker

theorem Setting.MachinesMatch.matches {Γ : Setting} {η η' : Naming} {m m' : Machine}
    (h : Γ.MachinesMatch η m m') (hle : η.Le η') : m.Matches η' m' :=
  ⟨h.control.mono hle, forall₂_frames_mono hle h.frames, h.state.worker.mono hle⟩

/-! ## Two runs in either order -/

/-- What stands for each other after one of two runs, and all else that was there before. -/
def Naming.crossed (η η' : Naming) (s : Store) (R R' : Region) : Naming where
  object := either η.object η'.object (Beyond ObjectId.index s.objects.size R.objects R'.objects)
  buffer := either η.buffer η'.buffer (Beyond BufferId.index s.buffers.size R.buffers R'.buffers)
  domain := either η.domain η'.domain (Beyond DomainId.index s.domains.size R.domains R'.domains)

theorem Naming.le_crossed (η η' : Naming) (s : Store) (R R' : Region) :
    η.Le (η.crossed η' s R R') ∧ η'.Le (η.crossed η' s R R') :=
  ⟨⟨Or.inl, Or.inl, Or.inl⟩, ⟨Or.inr ∘ Or.inl, Or.inr ∘ Or.inl, Or.inr ∘ Or.inl⟩⟩

section OneRun

variable {l r t t' : Store} {R : Region} {kept : List Entity} {η : Naming}
  (h : l.SameFrom r R kept) (hη : h.setting.Corresponds η t t')
include hη

theorem Naming.extends_object :
    Naming.Extends ObjectId.index R.objects η.object l.objects.size t.objects.size r.objects.size
      t'.objects.size where
  unique := hη.oneToOne.object
  self ho := hη.start.object ⟨rfl, ho⟩
  bound ho := ⟨(hη.object ho).1, (hη.object ho).2.1⟩
  old := hη.oldObject
  left ho hnew := by_contra fun hn => Nat.not_le.mpr ((hη.left.object hn).2 ho) hnew
  right ho hnew := by_contra fun hn => Nat.not_le.mpr ((hη.right.object hn).2 ho) hnew

theorem Naming.extends_buffer :
    Naming.Extends BufferId.index R.buffers η.buffer l.buffers.size t.buffers.size r.buffers.size
      t'.buffers.size where
  unique := hη.oneToOne.buffer
  self hb := hη.start.buffer ⟨rfl, hb⟩
  bound hb := ⟨(hη.buffer hb).1, (hη.buffer hb).2.1⟩
  old := hη.oldBuffer
  left hb hnew := by_contra fun hn => Nat.not_le.mpr ((hη.left.buffer hn).2 hb) hnew
  right hb hnew := by_contra fun hn => Nat.not_le.mpr ((hη.right.buffer hn).2 hb) hnew

theorem Naming.extends_domain :
    Naming.Extends DomainId.index R.domains η.domain l.domains.size t.domains.size r.domains.size
      t'.domains.size where
  unique := hη.oneToOne.domain
  self hd := hη.start.domain ⟨rfl, hd⟩
  bound hd := ⟨(hη.domain hd).1, (hη.domain hd).2.1⟩
  old := hη.oldDomain
  left hd hnew := by_contra fun hn => Nat.not_le.mpr ((hη.left.domain hn).2 hd) hnew
  right hd hnew := by_contra fun hn => Nat.not_le.mpr ((hη.right.domain hn).2 hd) hnew

end OneRun

section TwoRuns

variable {s s₁ s₂ s₁₂ s₂₁ : Store} {R R' : Region} {kept kept' : List Entity} {η η' : Naming}
  (h : s.SameFrom s₂ R kept) (h' : s₁.SameFrom s R' kept')
  (hη : h.setting.Corresponds η s₁ s₂₁) (hη' : h'.setting.Corresponds η' s₁₂ s₂)
  (hdisjoint : R.Disjoint R')
include h h' hη hη' hdisjoint

theorem Naming.crosses_object :
    Naming.Crosses ObjectId.index R.objects R'.objects η.object η'.object s.objects.size
      s₁.objects.size s₂.objects.size s₁₂.objects.size s₂₁.objects.size where
  first := Naming.extends_object h hη
  second := Naming.extends_object h' hη'
  disjoint {o} := hdisjoint.entity (x := .object o)
  within ho := ho.elim (fun ho => (h.agree.object ho).1) fun ho => (h'.agree.object ho).2.1
  le := ⟨hη.left.objects_le, hη'.right.objects_le, hη'.left.objects_le, hη.right.objects_le⟩

theorem Naming.crosses_buffer :
    Naming.Crosses BufferId.index R.buffers R'.buffers η.buffer η'.buffer s.buffers.size
      s₁.buffers.size s₂.buffers.size s₁₂.buffers.size s₂₁.buffers.size where
  first := Naming.extends_buffer h hη
  second := Naming.extends_buffer h' hη'
  disjoint := hdisjoint.buffer
  within hb := hb.elim (fun hb => (h.agree.buffer hb).1) fun hb => (h'.agree.buffer hb).2.1
  le := ⟨hη.left.buffers_le, hη'.right.buffers_le, hη'.left.buffers_le, hη.right.buffers_le⟩

theorem Naming.crosses_domain :
    Naming.Crosses DomainId.index R.domains R'.domains η.domain η'.domain s.domains.size
      s₁.domains.size s₂.domains.size s₁₂.domains.size s₂₁.domains.size where
  first := Naming.extends_domain h hη
  second := Naming.extends_domain h' hη'
  disjoint {d} := hdisjoint.entity (x := .domain d)
  within hd := hd.elim (fun hd => (h.agree.domain hd).1) fun hd => (h'.agree.domain hd).2.1
  le := ⟨hη.left.domains_le, hη'.right.domains_le, hη'.left.domains_le, hη.right.domains_le⟩

/-- What was there before stands for itself. -/
theorem Naming.diagonal_le_crossed : (Naming.diagonal s.things).Le (η.crossed η' s R R') where
  object := fun ⟨hsame, ho⟩ => hsame ▸ (Naming.crosses_object h h' hη hη' hdisjoint).self ho
  buffer := fun ⟨hsame, hb⟩ => hsame ▸ (Naming.crosses_buffer h h' hη hη' hdisjoint).self hb
  domain := fun ⟨hsame, hd⟩ => hsame ▸ (Naming.crosses_domain h h' hη hη' hdisjoint).self hd

/-- **Two runs in either order** lead to stores that are the same but for names. -/
theorem Store.isomorphic_crossed (hs : s.Closed) :
    Store.Isomorphic (η.crossed η' s R R') s₁₂ s₂₁ := by
  have hobjects := Naming.crosses_object h h' hη hη' hdisjoint
  have hbuffers := Naming.crosses_buffer h h' hη hη' hdisjoint
  have hdomains := Naming.crosses_domain h h' hη hη' hdisjoint
  obtain ⟨hle, hle'⟩ := Naming.le_crossed η η' s R R'
  have hfixes : ∀ x, s.Contains x → (η.crossed η' s R R').entity x x
    | .object _, hx => hobjects.self hx
    | .domain _, hx => hdomains.self hx
  refine
    { oneToOne := ⟨hobjects.biUnique, hbuffers.biUnique, hdomains.biUnique⟩
      left := Region.ext (funext fun o => propext (hobjects.left_iff o))
        (funext fun b => propext (hbuffers.left_iff b))
        (funext fun d => propext (hdomains.left_iff d))
      right := Region.ext (funext fun o => propext (hobjects.right_iff o))
        (funext fun b => propext (hbuffers.right_iff b))
        (funext fun d => propext (hdomains.right_iff d))
      object := ?_, buffer := ?_, domain := ?_ }
  · refine hobjects.entries (fun ho => (hη.left.object ho).1) (fun ho => (hη'.left.object ho).1)
      (fun ho => (hη'.right.object ho).1) (fun ho => (hη.right.object ho).1)
      (fun ho => (hη.object ho).2.2.mono hle) (fun ho => (hη'.object ho).2.2.mono hle') ?_
    intro o _
    exact Object.matches_self (fun x hx => hfixes x (hs.holds (.object o) x hx))
      fun b hb => hbuffers.self (hs.buffer hb)
  · exact hbuffers.entries (fun hb => (hη.left.buffer hb).1) (fun hb => (hη'.left.buffer hb).1)
      (fun hb => (hη'.right.buffer hb).1) (fun hb => (hη.right.buffer hb).1)
      (fun hb => (hη.buffer hb).2.2) (fun hb => (hη'.buffer hb).2.2) fun _ => rfl
  · refine hdomains.entries (fun hd => (hη.left.domain hd).1) (fun hd => (hη'.left.domain hd).1)
      (fun hd => (hη'.right.domain hd).1) (fun hd => (hη.right.domain hd).1) ?_ ?_ ?_
    · intro d d' hd
      obtain ⟨-, -, hmatches, haround⟩ := hη.domain hd
      exact ⟨hmatches.mono hle, haround.rel hle fun hgone _ => hdomains.self hgone.1⟩
    · intro d d' hd
      obtain ⟨-, -, hmatches, haround⟩ := hη'.domain hd
      exact ⟨hmatches.mono hle', haround.rel hle' fun _ hgone => hdomains.self hgone.1⟩
    · intro d _
      exact ⟨Domain.matches_self (fun x hx => hfixes x (hs.holds (.domain d) x hx))
        fun b hb => hbuffers.self (hs.memory hb), .self fun p hp => hdomains.self (hs.parent hp)⟩

end TwoRuns

/-! ## Workers -/

/-- What was in the store and does not belong to a region is still there, as it was. -/
structure Store.KeptBeyond (s t : Store) (R : Region) : Prop where
  object : ∀ o, o.index < s.objects.size → ¬ R.objects o →
    o.index < t.objects.size ∧ t.object o = s.object o
  buffer : ∀ b, b.index < s.buffers.size → ¬ R.buffers b →
    b.index < t.buffers.size ∧ t.buffer b = s.buffer b
  domain : ∀ d, d.index < s.domains.size → ¬ R.domains d →
    d.index < t.domains.size ∧ t.domain d = s.domain d

theorem Store.Confined.keptBeyond {s t : Store} {R N : Region} (h : s.Confined t R N) :
    s.KeptBeyond t R where
  object _ hlt ho := ⟨hlt.trans_le h.spares.objects_le,
    (h.spares.object fun hN => ho (h.oldObject hN hlt)).1⟩
  buffer _ hlt hb := ⟨hlt.trans_le h.spares.buffers_le,
    (h.spares.buffer fun hN => hb (h.oldBuffer hN hlt)).1⟩
  domain _ hlt hd := ⟨hlt.trans_le h.spares.domains_le,
    (h.spares.domain fun hN => hd (h.oldDomain hN hlt)).1⟩

/-- Two workers in one store, with the contexts in which they begin. Each of them is held while the
other one runs, and they reach nothing in common. -/
structure Worker.Apart (s : Store) (w w' : Worker) (c c' : Context) : Prop where
  left : State.IsClosed ⟨s, w⟩ c
  right : State.IsClosed ⟨s, w'⟩ c'
  held : ∀ x, x ∈ w.entities ++ c.entities ↔ x ∈ w'.entities ++ c'.entities
  disjoint : (State.reach ⟨s, w⟩ c).Disjoint (State.reach ⟨s, w'⟩ c')

theorem Worker.Apart.symm {s : Store} {w w' : Worker} {c c' : Context}
    (h : Worker.Apart s w w' c c') : Worker.Apart s w' w c' c :=
  ⟨h.right, h.left, fun x => (h.held x).symm, h.disjoint.symm⟩

/-! ### Neighbours -/

/-- A store with the global objects and the domains of two workers. Each global object has the
objects of the host. -/
def Host.neighbours : Store :=
  installIn ⟨1⟩ <| installIn ⟨0⟩
    ⟨#[.ofClass "global" none, .ofClass "global" none], #[],
      #[⟨none, .empty, none⟩, ⟨none, .empty, none⟩]⟩

/-- The things of the second worker. The first installation ends with object 55. -/
def Host.isSecond : Entity → Bool
  | .object o => o.index = 1 ∨ 56 ≤ o.index
  | .domain d => d.index = 1

/-- One of the two workers, while the other one is there. -/
def Host.neighbour (own other : ℕ) : Worker :=
  { Worker.idle .default ⟨own⟩ ⟨own⟩ with kept := [.object ⟨other⟩, .domain ⟨other⟩] }

theorem Host.separates_neighbours : neighbours.Separates isSecond := by decide +kernel

/-- Two workers with the objects of the host are apart. -/
theorem Host.apart_neighbours :
    Worker.Apart neighbours (neighbour 0 1) (neighbour 1 0) (topContext (neighbour 0 1))
      (topContext (neighbour 1 0)) where
  left := ⟨separates_neighbours.closed, by decide +kernel⟩
  right := ⟨separates_neighbours.closed, by decide +kernel⟩
  held x := by
    have hleft : (neighbour 0 1).entities ++ (topContext (neighbour 0 1)).entities ⊆
        (neighbour 1 0).entities ++ (topContext (neighbour 1 0)).entities := by decide +kernel
    have hright : (neighbour 1 0).entities ++ (topContext (neighbour 1 0)).entities ⊆
        (neighbour 0 1).entities ++ (topContext (neighbour 0 1)).entities := by decide +kernel
    exact ⟨fun hx => hleft hx, fun hx => hright hx⟩
  disjoint :=
    { entity := fun {x} hx hx' => by
        have hfirst : isSecond x = false :=
          separates_neighbours.part_eq (Store.reach_entity.mp hx) (by decide +kernel)
        have hsecond : isSecond x = true :=
          separates_neighbours.part_eq (Store.reach_entity.mp hx') (by decide +kernel)
        rw [hfirst] at hsecond
        cases hsecond
      buffer := fun {b} hb _ => separates_neighbours.not_buffers b hb }

namespace Machine

/-- The store looks the same from a worker after a run of another one. -/
theorem sameFrom_run {s : Store} {w w' : Worker} {c c' : Context} (h : Worker.Apart s w w' c c')
    (b : Block) (n : ℕ) :
    s.SameFrom ((start ⟨s, w'⟩ c' b).run .none n).state.store (State.reach ⟨s, w⟩ c) w.kept := by
  obtain ⟨N, hN⟩ := confined_run h.right b n
  refine hN.sameFrom h.left h.disjoint h.right.encloses fun x hx => ?_
  exact (h.right.lasts hx).mono fun y hy =>
    Store.lasts_of_mem (h.right.roots y hy) ((h.held y).mpr hy)

/-- **Workers share state only through what they both reach.** What is in the store and is not
reached by a worker when it starts to run is the same at any time of the run. So where two workers
reach nothing in common it does not matter which of them runs first: in the end stores, workers and
what comes of the runs are the same but for the names of new things. -/
theorem runs_confined :
    (∀ (s : State) (c : Context) (b : Block) (n : ℕ), s.IsClosed c →
      s.store.KeptBeyond ((start s c b).run .none n).state.store (s.reach c)) ∧
    ∀ (s : Store) (w w' : Worker) (c c' : Context) (b b' : Block) (n n' : ℕ),
      Worker.Apart s w w' c c' →
      let first := (start ⟨s, w⟩ c b).run .none n
      let next := (start ⟨first.state.store, w'⟩ c' b').run .none n'
      let first' := (start ⟨s, w'⟩ c' b').run .none n'
      let next' := (start ⟨first'.state.store, w⟩ c b).run .none n
      ∃ η : Naming, (Naming.diagonal s.things).Le η ∧
        next.state.store.Isomorphic η next'.state.store ∧
        first.Matches η next' ∧ next.Matches η first' := by
  constructor
  · intro s c b n hs
    obtain ⟨N, hN⟩ := confined_run hs b n
    exact hN.keptBeyond
  · intro s w w' c c' b b' n n' h first next first' next'
    have hw := sameFrom_run h b' n'
    have hw' := (sameFrom_run h.symm b n).symm
    obtain ⟨η, -, hm⟩ := follow_start hw (State.reach_roots (s := ⟨s, w⟩)) b n
    obtain ⟨η', -, hm'⟩ := follow_start hw' (State.reach_roots (s := ⟨s, w'⟩)) b' n'
    obtain ⟨hle, hle'⟩ := Naming.le_crossed η η' s (State.reach ⟨s, w⟩ c) (State.reach ⟨s, w'⟩ c')
    exact ⟨_, Naming.diagonal_le_crossed hw hw' hm.state.store hm'.state.store h.disjoint,
      Store.isomorphic_crossed hw hw' hm.state.store hm'.state.store h.disjoint h.left.store,
      hm.matches hle, hm'.matches hle'⟩

/-- Two workers with the objects of the host, each of which makes an array. -/
theorem runs_confined_neighbours :
    let w := Host.neighbour 0 1
    let w' := Host.neighbour 1 0
    let b : Block := ⟨[⟨0, 8, .push [.integer 0]⟩, ⟨8, 1, .op .initArray⟩], 9⟩
    let first := (start ⟨Host.neighbours, w⟩ (topContext w) b).run .none 3
    let next := (start ⟨first.state.store, w'⟩ (topContext w') b).run .none 3
    let first' := (start ⟨Host.neighbours, w'⟩ (topContext w') b).run .none 3
    let next' := (start ⟨first'.state.store, w⟩ (topContext w) b).run .none 3
    State.IsClosed ⟨Host.neighbours, w⟩ (topContext w) ∧
      Host.neighbours.KeptBeyond first.state.store
        (State.reach ⟨Host.neighbours, w⟩ (topContext w)) ∧
      Worker.Apart Host.neighbours w w' (topContext w) (topContext w') ∧
      ∃ η : Naming, (Naming.diagonal Host.neighbours.things).Le η ∧
        next.state.store.Isomorphic η next'.state.store ∧
        first.Matches η next' ∧ next.Matches η first' := by
  intro w w' b first next first' next'
  have hapart : Worker.Apart Host.neighbours w w' (topContext w) (topContext w') :=
    Host.apart_neighbours
  have hkept := runs_confined.1 ⟨Host.neighbours, w⟩ (topContext w) b 3 hapart.left
  have hη := runs_confined.2 Host.neighbours w w' (topContext w) (topContext w') b b 3 3 hapart
  exact ⟨hapart.left, hkept, hapart, hη⟩

end Machine

end ActionVm
