import ActionVm.Proofs.Store.Deeds
import Mathlib.Data.List.Nodup

/-!
# Classes along living domains

A look-up of a class goes from a domain to the one around it as long as that lives, and answers the
latest definition in the first domain that has one. Nothing but definitions and the ends of domains
changes what it answers.

* `LiveChain`: a domain and the living ones around it, with `exists_liveChain`, `LiveChain.eq`;
* **`class?_of_liveChain`**: what is found along a chain;
* `LiveChain.after`, `class?_define`: what a deed does to chains, and a definition to look-ups;
* `HeldOnce`, `heldOnce_ofDeeds`: without objects, a domain lives until it is dropped;
* **`classes_along_liveChain`**: look-ups after any proper deeds;
* `definition_ends_domain`: a definition in one domain hides a class of another name in a third.
-/

namespace ActionVm

/-! ## Chains -/

/-- A domain and those around it, up to one that was made inside none, or inside one that does not
live any more. -/
inductive LiveChain (deeds : List Deed) : DomainId → List DomainId → Prop
  | root {d : DomainId} : madeIn deeds d = none → LiveChain deeds d [d]
  | dropped {d p : DomainId} : madeIn deeds d = some p →
    ¬ (Realm.ofDeeds deeds).Lives (.domain p) → LiveChain deeds d [d]
  | inside {d p : DomainId} {l : List DomainId} : madeIn deeds d = some p →
    (Realm.ofDeeds deeds).Lives (.domain p) → LiveChain deeds p l → LiveChain deeds d (d :: l)

/-! ## What is found -/

section Found

variable {deeds : List Deed} {d e p : DomainId} {l : List DomainId} {name : String} {v : Value}

theorem LiveChain.head (h : LiveChain deeds d l) : ∃ t, l = d :: t := by
  cases h with
  | root | dropped => exact ⟨[], rfl⟩
  | inside => exact ⟨_, rfl⟩

/-- There is only one chain. -/
theorem LiveChain.eq {l' : List DomainId} (h : LiveChain deeds d l) (h' : LiveChain deeds d l') :
    l = l' := by
  induction h generalizing l' with
  | root hp =>
    cases h' with
    | root => rfl
    | dropped hp' | inside hp' => cases hp.symm.trans hp'
  | dropped hp hlives =>
    cases h' with
    | root hp' | dropped => rfl
    | inside hp' hlives' =>
      cases hp.symm.trans hp'
      exact absurd hlives' hlives
  | inside hp hlives hl ih =>
    cases h' with
    | root hp' => cases hp.symm.trans hp'
    | dropped hp' hlives' =>
      cases hp.symm.trans hp'
      exact absurd hlives hlives'
    | inside hp' _ hl' =>
      cases hp.symm.trans hp'
      rw [ih hl']

/-- A domain is made after the one around it, so that every chain comes to its end. -/
theorem exists_liveChain (h : Proper deeds) (d : DomainId) : ∃ l, LiveChain deeds d l := by
  induction hd : d.index using Nat.strongRecOn generalizing d with
  | ind n ih =>
    cases hp : madeIn deeds d with
    | none => exact ⟨[d], .root hp⟩
    | some p =>
      by_cases hlives : (Realm.ofDeeds deeds).Lives (.domain p)
      · have hlt : p.index < n := hd ▸ (follows_ofDeeds h).ascending hp
        obtain ⟨l, hl⟩ := ih p.index hlt p rfl
        exact ⟨d :: l, .inside hp hlives hl⟩
      · exact ⟨[d], .dropped hp hlives⟩

theorem Store.class?_eq_classFrom? (s : Store) (outside : List Entity) (d : DomainId)
    (name : String) : s.class? outside d name = s.classFrom? (s.live outside) d name := by
  rw [class?]
  split
  · next v hv => rw [classFrom?, hv]
  · rfl

theorem Follows.liveParent?_eq {r : Realm} (h : Follows deeds r) (d : DomainId) :
    r.store.liveParent? (r.store.live r.held) d =
      (madeIn deeds d).filter fun p => (r.store.live r.held).has (.domain p) := by
  rw [Store.liveParent?, h.parent]

/-- One step of a look-up. -/
theorem Follows.class?_eq {r : Realm} (h : Follows deeds r) (d : DomainId) (name : String) :
    r.class? d name = (latest deeds d name).or
      ((r.store.liveParent? (r.store.live r.held) d).bind (r.class? · name)) := by
  rw [Realm.class?, Store.class?_eq_classFrom?, Store.classFrom?, h.classes]
  cases latest deeds d name with
  | some v => rfl
  | none =>
    cases hp : r.store.liveParent? (r.store.live r.held) d with
    | none => rfl
    | some p =>
      have hmade : madeIn deeds d = some p :=
        (Option.filter_eq_some_iff.mp ((h.liveParent?_eq d).symm.trans hp)).1
      rw [Option.none_or, Option.bind_some, Realm.class?, Store.class?_eq_classFrom?]
      exact if_pos (h.ascending hmade)

/-- **A look-up goes along the chain.** -/
theorem class?_of_liveChain (h : Proper deeds) (hl : LiveChain deeds d l) (name : String) :
    (Realm.ofDeeds deeds).class? d name = l.findSome? (latest deeds · name) := by
  have hfollows := follows_ofDeeds h
  induction hl with
  | root hp =>
    rw [hfollows.class?_eq, hfollows.liveParent?_eq, hp]
    exact Option.or_none.trans (List.findSome?_singleton).symm
  | dropped hp hlives =>
    rw [hfollows.class?_eq, hfollows.liveParent?_eq, hp, Option.filter_some,
      if_neg fun hhas => hlives (Store.has_live_iff.mp hhas)]
    exact Option.or_none.trans (List.findSome?_singleton).symm
  | inside hp hlives _ ih =>
    rw [hfollows.class?_eq, hfollows.liveParent?_eq, hp, Option.filter_some,
      if_pos (Store.has_live_iff.mpr hlives), Option.bind_some, ih, List.findSome?_cons]
    split <;> simp_all

/-- A chain stays as it is, or it is cut where a domain of it ended. -/
theorem LiveChain.after {deed : Deed} (h : Proper (deeds ++ [deed])) (hmade : deed.made? = none)
    (hl : LiveChain deeds d l) : LiveChain (deeds ++ [deed]) d l ∨
      ∃ nearer a farther, l = nearer ++ a :: farther ∧ LiveChain (deeds ++ [deed]) d nearer ∧
        (Realm.ofDeeds deeds).Lives (.domain a) ∧
        ¬ (Realm.ofDeeds (deeds ++ [deed])).Lives (.domain a) := by
  have hfollows := follows_ofDeeds (proper_concat.mp h).1
  induction hl with
  | root hp => exact Or.inl (.root ((madeIn_concat_of_none hmade _).trans hp))
  | @dropped d p hp hlives =>
    have hp' := (madeIn_concat_of_none hmade d).trans hp
    have hlt : p.index < (made deeds).length :=
      Nat.lt_trans (hfollows.ascending hp) (lt_length_of_madeIn hp)
    exact Or.inl (.dropped hp' fun h' => hlives (lives_of_concat h hlt h'))
  | @inside d p l hp hlives hl ih =>
    have hp' := (madeIn_concat_of_none hmade d).trans hp
    by_cases hafter : (Realm.ofDeeds (deeds ++ [deed])).Lives (.domain p)
    · rcases ih with hl | ⟨nearer, a, farther, rfl, hl, ha⟩
      · exact Or.inl (.inside hp' hafter hl)
      · exact Or.inr ⟨d :: nearer, a, farther, rfl, .inside hp' hafter hl, ha⟩
    · obtain ⟨t, rfl⟩ := hl.head
      exact Or.inr ⟨[d], p, t, rfl, .dropped hp' hafter, hlives, hafter⟩

/-- The first place where two searches of a list differ. -/
theorem exists_split_of_findSome?_ne {α β : Type} {f g : α → Option β} {a : α} {l : List α}
    (hfg : ∀ x, x ≠ a → f x = g x) (h : l.findSome? f ≠ l.findSome? g) :
    ∃ nearer farther, l = nearer ++ a :: farther ∧ ∀ x ∈ nearer, g x = none := by
  induction l with
  | nil => exact absurd rfl h
  | cons x l ih =>
    by_cases hx : x = a
    · exact ⟨[], l, hx ▸ rfl, nofun⟩
    · rw [List.findSome?_cons, List.findSome?_cons, hfg x hx] at h
      cases hg : g x with
      | some b =>
        rw [hg] at h
        exact absurd rfl h
      | none =>
        rw [hg] at h
        obtain ⟨nearer, farther, rfl, hnone⟩ := ih h
        exact ⟨x :: nearer, farther, rfl, List.forall_mem_cons.mpr ⟨hg, hnone⟩⟩

/-- What a definition changes: what it hides or shows on the chains through its domain, and what
ends with an object that it replaces. -/
theorem class?_define (h : Proper (deeds ++ [.define e name v])) {other : String}
    (hne : (Realm.ofDeeds (deeds ++ [.define e name v])).class? d other ≠
      (Realm.ofDeeds deeds).class? d other) :
    (other = name ∧ ∃ nearer farther, LiveChain deeds d (nearer ++ e :: farther) ∧
      ∀ x ∈ nearer, latest deeds x name = none) ∨
    (∃ o, latest deeds e name = some (.object o)) ∧
      ∃ nearer a farther, LiveChain deeds d (nearer ++ a :: farther) ∧
        (Realm.ofDeeds deeds).Lives (.domain a) ∧
        ¬ (Realm.ofDeeds (deeds ++ [.define e name v])).Lives (.domain a) ∧
        LiveChain (deeds ++ [.define e name v]) d nearer := by
  obtain ⟨hbefore, hdeed⟩ := proper_concat.mp h
  obtain ⟨l, hl⟩ := exists_liveChain hbefore d
  rcases hl.after h rfl with hafter | ⟨nearer, a, farther, rfl, hnearer, ha, hend⟩
  · refine Or.inl ?_
    rw [class?_of_liveChain h hafter, class?_of_liveChain hbefore hl] at hne
    have hoff : ∀ called x, called ≠ name ∨ x ≠ e →
        latest (deeds ++ [.define e name v]) x called = latest deeds x called := by
      intro called x hx
      rw [latest_concat, Deed.class?, if_neg, Option.none_or]
      rintro ⟨rfl, rfl⟩
      rcases hx with hx | hx <;> exact hx rfl
    have hname : other = name := by
      by_contra hother
      exact hne (congrArg l.findSome? (funext fun x => hoff other x (Or.inl hother)))
    subst hname
    obtain ⟨nearer, farther, rfl, hnone⟩ :=
      exists_split_of_findSome?_ne (fun x hx => hoff other x (Or.inr hx)) hne
    exact ⟨rfl, nearer, farther, hl, hnone⟩
  · refine Or.inr ⟨?_, nearer, a, farther, hl, ha, hend, hnearer⟩
    by_contra hplain
    refine hend (ofDeeds_concat deeds _ ▸ ha.define fun o ho => hplain ⟨o, ?_⟩)
    rw [← (follows_ofDeeds hbefore).classes, ho]

end Found

/-! ## What was dropped -/

/-- Nothing is done with objects. -/
def Deed.IsPlain : Deed → Prop
  | define _ _ v => v.object? = none
  | elsewhere .. => False
  | _ => True

/-- Just the domains that were made and not dropped are held, each of them once, and by nothing that
is stored. -/
structure HeldOnce (deeds : List Deed) (r : Realm) : Prop where
  holds : ∀ z, r.store.holds z = []
  nodup : r.held.Nodup
  held : ∀ x, x ∈ r.held ↔ ∃ d, x = .domain d ∧ d.index < r.store.domains.size ∧ .drop d ∉ deeds
  dropped : ∀ d, .drop d ∈ deeds → d.index < r.store.domains.size

namespace HeldOnce

variable {deeds : List Deed} {r : Realm}

theorem empty : HeldOnce [] .empty where
  holds z := by cases z <;> rfl
  nodup := List.nodup_nil
  held x := by simp [Realm.empty, Store.empty]
  dropped := nofun

theorem lives_iff (h : HeldOnce deeds r) (d : DomainId) :
    r.Lives (.domain d) ↔ d.index < r.store.domains.size ∧ .drop d ∉ deeds := by
  constructor
  · intro hlives
    obtain ⟨-, hout | ⟨z, -, hheld⟩⟩ := Store.supports_lasts _ hlives
    · obtain ⟨e, heq, he⟩ := (h.held _).mp hout
      exact Entity.domain.inj heq ▸ he
    · rw [h.holds] at hheld
      cases hheld
  · intro hd
    refine ⟨(· ∈ r.held), fun x hx => ⟨?_, Or.inl hx⟩, (h.held _).mpr ⟨d, rfl, hd⟩⟩
    obtain ⟨e, rfl, he, -⟩ := (h.held x).mp hx
    exact he

theorem mem_concat_of_ne {deed : Deed} (hdeed : ∀ d, deed ≠ .drop d) {d : DomainId} :
    .drop d ∈ deeds ++ [deed] ↔ .drop d ∈ deeds := by
  rw [List.mem_append, List.mem_singleton, or_iff_left fun h => hdeed d h.symm]

/-- A domain is made. -/
theorem add (h : HeldOnce deeds r) {deed : Deed} (hdeed : ∀ d, deed ≠ .drop d)
    (parent : Option DomainId) : HeldOnce (deeds ++ [deed])
      ⟨(r.store.addDomain parent).2, .domain ⟨r.store.domains.size⟩ :: r.held⟩ where
  holds z := by
    rw [Store.holds_addDomain]
    split_ifs
    · rfl
    · exact h.holds z
  nodup := by
    refine List.nodup_cons.mpr ⟨fun hmem => ?_, h.nodup⟩
    obtain ⟨d, heq, hd, -⟩ := (h.held _).mp hmem
    cases heq
    exact Nat.lt_irrefl _ hd
  held x := by
    simp only [mem_concat_of_ne hdeed, Store.size_addDomain, List.mem_cons, h.held]
    constructor
    · rintro (rfl | ⟨d, rfl, hd, hdrop⟩)
      · exact ⟨_, rfl, Nat.lt_succ_self _, fun hdrop => Nat.lt_irrefl _ (h.dropped _ hdrop)⟩
      · exact ⟨d, rfl, Nat.lt_succ_of_lt hd, hdrop⟩
    · rintro ⟨d, rfl, hd, hdrop⟩
      rcases Nat.lt_succ_iff_lt_or_eq.mp hd with hd | hd
      · exact Or.inr ⟨d, rfl, hd, hdrop⟩
      · exact Or.inl (congrArg (Entity.domain ⟨·⟩) hd)
  dropped d hd := by
    rw [Store.size_addDomain]
    exact Nat.lt_succ_of_lt (h.dropped d ((mem_concat_of_ne hdeed).mp hd))

theorem define (h : HeldOnce deeds r) (e : DomainId) (name : String) {v : Value}
    (hv : v.object? = none) :
    HeldOnce (deeds ++ [.define e name v]) (r.after (.define e name v)) where
  holds z := by
    refine List.eq_nil_iff_forall_not_mem.mpr fun x hx => ?_
    rcases Store.mem_holds_of_defineClass hx with hx | hx
    · rw [h.holds] at hx
      cases hx
    · rw [Value.entities, hv] at hx
      cases hx
  nodup := h.nodup
  held x := by
    have hdrop : ∀ d, .drop d ∈ deeds ++ [.define e name v] ↔ .drop d ∈ deeds := fun d =>
      mem_concat_of_ne (by nofun)
    simp only [hdrop, Realm.after, Store.defineClass, Store.size_modifyDomain, h.held]
  dropped d hd := by
    rw [Realm.after, Store.defineClass, Store.size_modifyDomain]
    exact h.dropped d ((mem_concat_of_ne (by nofun)).mp hd)

/-- A domain that is held once is not held any more. -/
theorem drop (h : HeldOnce deeds r) {e : DomainId} (he : .domain e ∈ r.held) :
    HeldOnce (deeds ++ [.drop e]) (r.after (.drop e)) where
  holds := h.holds
  nodup := h.nodup.erase _
  held x := by
    rw [Realm.after, h.nodup.mem_erase_iff, h.held]
    constructor
    · rintro ⟨hne, d, rfl, hd, hdrop⟩
      refine ⟨d, rfl, hd, fun hmem => ?_⟩
      rcases List.mem_append.mp hmem with hmem | hmem
      · exact hdrop hmem
      · exact hne (congrArg Entity.domain (Deed.drop.inj (List.mem_singleton.mp hmem)))
    · rintro ⟨d, rfl, hd, hdrop⟩
      refine ⟨fun heq => hdrop ?_, d, rfl, hd, fun hmem => hdrop (List.mem_append_left _ hmem)⟩
      rw [Entity.domain.inj heq]
      exact List.mem_append_right _ (List.mem_singleton_self _)
  dropped d hd := by
    rcases List.mem_append.mp hd with hd | hd
    · exact h.dropped d hd
    · obtain ⟨e', heq, hlt, -⟩ := (h.held _).mp he
      cases heq
      cases List.mem_singleton.mp hd
      exact hlt

theorem after (h : HeldOnce deeds r) {deed : Deed} (hdeed : r.Admits deed)
    (hplain : deed.IsPlain) : HeldOnce (deeds ++ [deed]) (r.after deed) := by
  cases deed with
  | root => exact h.add (by nofun) none
  | child parent => exact h.add (by nofun) (some parent)
  | define e name v => exact h.define e name hplain
  | drop e => exact h.drop hdeed
  | elsewhere objects held => exact hplain.elim

end HeldOnce

/-- **Where nothing is done with objects**, a domain lives until it is dropped. -/
theorem heldOnce_ofDeeds {deeds : List Deed} (h : Proper deeds)
    (hplain : ∀ deed ∈ deeds, deed.IsPlain) : HeldOnce deeds (Realm.ofDeeds deeds) := by
  induction deeds using List.reverseRecOn with
  | nil => exact .empty
  | append_singleton deeds deed ih =>
    obtain ⟨h, hdeed⟩ := proper_concat.mp h
    rw [ofDeeds_concat]
    refine (ih h fun x hx => hplain x (List.mem_append_left _ hx)).after hdeed (hplain deed ?_)
    exact List.mem_append_right _ (List.mem_singleton_self _)

/-! ## Look-ups -/

/-- **Look-ups after any proper deeds.** From every domain one chain leads to a root or to an
ancestor that does not live, and a look-up answers the latest class of its name in the first domain
of the chain that has one. A definition changes what is found under its own name, from its own
domain and from those that come to it along their chains without a class of that name before it;
else it replaces an object, and with that ends a domain of the chain, which then ends before it. A
domain that does not live never comes back; and where nothing is done with objects, a domain lives
until it is dropped. -/
theorem classes_along_liveChain {deeds : List Deed} (h : Proper deeds) :
    (∀ d, ∃ l, LiveChain deeds d l ∧ (∀ l', LiveChain deeds d l' → l' = l) ∧
      ∀ name, (Realm.ofDeeds deeds).class? d name = l.findSome? (latest deeds · name)) ∧
    (∀ e name v, (Realm.ofDeeds deeds).Admits (.define e name v) → ∀ d other,
      (Realm.ofDeeds (deeds ++ [.define e name v])).class? d other ≠
        (Realm.ofDeeds deeds).class? d other →
      (other = name ∧ ∃ nearer farther, LiveChain deeds d (nearer ++ e :: farther) ∧
        ∀ x ∈ nearer, latest deeds x name = none) ∨
      (∃ o, latest deeds e name = some (.object o)) ∧
        ∃ nearer a farther, LiveChain deeds d (nearer ++ a :: farther) ∧
          (Realm.ofDeeds deeds).Lives (.domain a) ∧
          ¬ (Realm.ofDeeds (deeds ++ [.define e name v])).Lives (.domain a) ∧
          LiveChain (deeds ++ [.define e name v]) d nearer) ∧
    (∀ deed d, (Realm.ofDeeds deeds).Admits deed → d.index < (made deeds).length →
      (Realm.ofDeeds (deeds ++ [deed])).Lives (.domain d) →
      (Realm.ofDeeds deeds).Lives (.domain d)) ∧
    ((∀ deed ∈ deeds, deed.IsPlain) → ∀ d, (Realm.ofDeeds deeds).Lives (.domain d) ↔
      d.index < (made deeds).length ∧ .drop d ∉ deeds) := by
  refine ⟨fun d => ?_, fun e name v hdeed d other hne => ?_, fun deed d hdeed hd hlives => ?_,
    fun hplain d => ?_⟩
  · obtain ⟨l, hl⟩ := exists_liveChain h d
    exact ⟨l, hl, fun l' hl' => hl'.eq hl, class?_of_liveChain h hl⟩
  · exact class?_define (proper_concat.mpr ⟨h, hdeed⟩) hne
  · exact lives_of_concat (proper_concat.mpr ⟨h, hdeed⟩) hd hlives
  · rw [(heldOnce_ofDeeds h hplain).lives_iff, (follows_ofDeeds h).size]

/-- Three domains inside each other, of which the outer two have classes. -/
def familyDeeds : List Deed :=
  [.root, .child ⟨0⟩, .child ⟨1⟩, .define ⟨0⟩ "A" (.integer 1), .define ⟨0⟩ "B" (.integer 2),
    .define ⟨1⟩ "A" (.integer 3)]

/-- The innermost domain finds the class of the middle one before that of the outer one, and none
when the middle one is dropped. -/
theorem classes_along_liveChain_family : Proper familyDeeds ∧
    (Realm.ofDeeds familyDeeds).class? ⟨2⟩ "A" = some (.integer 3) ∧
    (Realm.ofDeeds familyDeeds).class? ⟨2⟩ "B" = some (.integer 2) ∧
    Proper (familyDeeds ++ [.drop ⟨1⟩]) ∧
    (Realm.ofDeeds (familyDeeds ++ [.drop ⟨1⟩])).class? ⟨2⟩ "B" = none := by
  have hproper : Proper familyDeeds := by decide +kernel
  have hdropped : Proper (familyDeeds ++ [.drop ⟨1⟩]) := by decide +kernel
  have hwhole : LiveChain familyDeeds ⟨2⟩ [⟨2⟩, ⟨1⟩, ⟨0⟩] :=
    .inside rfl (by decide +kernel) (.inside rfl (by decide +kernel) (.root rfl))
  have hcut : LiveChain (familyDeeds ++ [.drop ⟨1⟩]) ⟨2⟩ [⟨2⟩] := .dropped rfl (by decide +kernel)
  obtain ⟨l, -, heq, hclass⟩ := (classes_along_liveChain hproper).1 ⟨2⟩
  obtain ⟨l', -, heq', hclass'⟩ := (classes_along_liveChain hdropped).1 ⟨2⟩
  cases heq _ hwhole
  cases heq' _ hcut
  exact ⟨hproper, hclass "A", hclass "B", hdropped, hclass' "B"⟩

/-- A domain with a class and a domain inside it, while another domain has an object for the outer
one as a class, and nothing else holds that object or the outer domain any more. -/
def keptDeeds : List Deed :=
  [.root, .root, .child ⟨1⟩, .define ⟨1⟩ "A" (.integer 1),
    .elsewhere #[.domain ⟨1⟩ none] [.object ⟨0⟩, .domain ⟨2⟩, .domain ⟨1⟩, .domain ⟨0⟩],
    .define ⟨0⟩ "K" (.object ⟨0⟩), .drop ⟨1⟩,
    .elsewhere #[.domain ⟨1⟩ none] [.domain ⟨2⟩, .domain ⟨0⟩]]

/-- **A definition can end a domain**: another class in place of the object hides a class of another
name from a domain whose chain does not even come to the domain of the definition. -/
theorem definition_ends_domain :
    Proper (keptDeeds ++ [.define ⟨0⟩ "K" (.integer 2)]) ∧
    (Realm.ofDeeds (keptDeeds ++ [.define ⟨0⟩ "K" (.integer 2)])).Lives (.domain ⟨2⟩) ∧
    LiveChain keptDeeds ⟨2⟩ [⟨2⟩, ⟨1⟩] ∧
    (Realm.ofDeeds keptDeeds).class? ⟨2⟩ "A" = some (.integer 1) ∧
    (Realm.ofDeeds (keptDeeds ++ [.define ⟨0⟩ "K" (.integer 2)])).class? ⟨2⟩ "A" = none := by
  have hproper : Proper (keptDeeds ++ [.define ⟨0⟩ "K" (.integer 2)]) := by decide +kernel
  have hbefore : LiveChain keptDeeds ⟨2⟩ [⟨2⟩, ⟨1⟩] :=
    .inside rfl (by decide +kernel) (.root rfl)
  have hafter : LiveChain (keptDeeds ++ [.define ⟨0⟩ "K" (.integer 2)]) ⟨2⟩ [⟨2⟩] :=
    .dropped rfl (by decide +kernel)
  exact ⟨hproper, by decide +kernel, hbefore,
    class?_of_liveChain (proper_concat.mp hproper).1 hbefore "A",
    class?_of_liveChain hproper hafter "A"⟩

end ActionVm
