import ActionVm.Proofs.Store.Entries
import ActionVm.Proofs.Store.Lasting
import Mathlib.Data.List.Induction

/-!
# Deeds

Domains are made, defined in and dropped, and in between scripts change objects. What is stored of
domains is what was done with them, and what does not live any more does not come back.

* `Deed`, `Realm`: what is done with domains, and what there is after it;
* `madeIn`, `latest`: where a domain was made and what was defined in it, by what was done;
* `Realm.Admits`, `Proper`: things are used while they live;
* `Follows`, **`follows_ofDeeds`**: what is stored is what was done;
* `Store.mem_holds_of_defineClass`, `Store.mem_holds_defineClass`: what a definition makes held;
* **`Realm.lives_of_after`**, `lives_of_concat`: nothing comes back;
* `Realm.Lives.define`: a definition that replaces no object ends nothing.
-/

namespace ActionVm

/-! ## Tables -/

namespace Table

variable {α : Type} {name : String} {a : α} {l : List (String × α)} {x : String × α}

/-- Of the entries, only the one that is replaced is lost. -/
theorem mem_put_of_mem (hx : x ∈ l) : x ∈ put name a l ∨ find? name l = some x.2 := by
  induction l with
  | nil => cases hx
  | cons e rest ih =>
    obtain ⟨n, b⟩ := e
    by_cases hn : n = name
    · rcases List.mem_cons.mp hx with rfl | hx
      · exact Or.inr (by simp [find?, hn])
      · exact Or.inl (by simp [put, hn, hx])
    · rcases List.mem_cons.mp hx with rfl | hx
      · exact Or.inl (by simp [put, hn])
      · simpa [put, find?, hn, hx] using Or.imp_left Or.inr (ih hx)

theorem mem_of_mem_put (hx : x ∈ put name a l) : x ∈ l ∨ x.2 = a := by
  induction l with
  | nil =>
    rw [put, List.mem_singleton] at hx
    exact Or.inr (hx ▸ rfl)
  | cons e rest ih =>
    obtain ⟨n, b⟩ := e
    by_cases hn : n = name
    · rw [put, if_pos hn] at hx
      rcases List.mem_cons.mp hx with rfl | hx
      · exact Or.inr rfl
      · exact Or.inl (List.mem_cons_of_mem _ hx)
    · rw [put, if_neg hn] at hx
      rcases List.mem_cons.mp hx with rfl | hx
      · exact Or.inl List.mem_cons_self
      · exact (ih hx).imp_left (List.mem_cons_of_mem _)

end Table

/-! ## Deeds -/

/-- What is done with domains, and what else may be done in between. -/
inductive Deed where
  /-- A domain is made, and held. -/
  | root
  /-- A domain is made inside another one, and held. -/
  | child (parent : DomainId)
  | define (d : DomainId) (name : String) (v : Value)
  /-- A domain is held once less. -/
  | drop (d : DomainId)
  /-- Scripts change objects, and other things are held. -/
  | elsewhere (objects : Array Object) (held : List Entity)

namespace Deed

/-- The domain around the one that is made. -/
def made? : Deed → Option (Option DomainId)
  | root => some none
  | child parent => some (some parent)
  | _ => none

/-- The class that is defined under a name in a domain. -/
def class? (d : DomainId) (name : String) : Deed → Option Value
  | define e called v => if e = d ∧ called = name then some v else none
  | _ => none

end Deed

/-- The domains around those that were made, in order. -/
def made (deeds : List Deed) : List (Option DomainId) := deeds.filterMap Deed.made?

/-- The domain inside which a domain was made. -/
def madeIn (deeds : List Deed) (d : DomainId) : Option DomainId := (made deeds)[d.index]?.join

/-- The latest class that was defined under a name in a domain. -/
def latest (deeds : List Deed) (d : DomainId) (name : String) : Option Value :=
  deeds.reverse.findSome? (Deed.class? d name)

/-- All that is stored, and what is held of it from outside. -/
structure Realm where
  store : Store
  held : List Entity

namespace Realm

/-- Nothing is stored. -/
def empty : Realm := ⟨.empty, []⟩

/-- What there is after a deed. -/
def after (r : Realm) : Deed → Realm
  | .root =>
    let (d, s) := r.store.addDomain none
    ⟨s, .domain d :: r.held⟩
  | .child parent =>
    let (d, s) := r.store.addDomain (some parent)
    ⟨s, .domain d :: r.held⟩
  | .define d name v => ⟨r.store.defineClass d name v, r.held⟩
  | .drop d => ⟨r.store, r.held.erase (.domain d)⟩
  | .elsewhere objects held => ⟨{ r.store with objects }, held⟩

/-- Something is there, and held. -/
def Lives (r : Realm) (x : Entity) : Prop := r.store.Lasts r.held x

/-- The class that a look-up finds. -/
def class? (r : Realm) (d : DomainId) (name : String) : Option Value :=
  r.store.class? r.held d name

/-- A deed uses what lives, and brings back no domain that does not. -/
def Admits (r : Realm) : Deed → Prop
  | .root => True
  | .child parent => r.Lives (.domain parent)
  | .define d _ v => r.Lives (.domain d) ∧ ∀ x ∈ v.entities, r.Lives x
  | .drop d => .domain d ∈ r.held
  | .elsewhere objects held =>
    ∀ d, (r.after (.elsewhere objects held)).Lives (.domain d) → r.Lives (.domain d)

/-- What there is after deeds, of which the first is done first. -/
def ofDeeds (deeds : List Deed) : Realm := deeds.foldl after empty

end Realm

/-- Each deed uses what lives when it is done. -/
def Proper (deeds : List Deed) : Prop :=
  ∀ before deed later, deeds = before ++ deed :: later → (Realm.ofDeeds before).Admits deed

/-! ## What was done -/

section History

variable {deeds : List Deed} {deed : Deed} {d : DomainId} {name : String}

theorem ofDeeds_concat (deeds : List Deed) (deed : Deed) :
    Realm.ofDeeds (deeds ++ [deed]) = (Realm.ofDeeds deeds).after deed := by
  rw [Realm.ofDeeds, List.foldl_append]
  rfl

theorem proper_concat : Proper (deeds ++ [deed]) ↔
    Proper deeds ∧ (Realm.ofDeeds deeds).Admits deed := by
  constructor
  · intro h
    refine ⟨?_, h deeds deed [] rfl⟩
    rintro before x later rfl
    exact h before x (later ++ [deed]) (by simp)
  · rintro ⟨h, hdeed⟩ before x later hsplit
    rcases later.eq_nil_or_concat with rfl | ⟨later, y, rfl⟩
    · obtain ⟨rfl, hx⟩ := List.append_inj' hsplit rfl
      cases hx
      exact hdeed
    · rw [List.concat_eq_append, ← List.cons_append, ← List.append_assoc] at hsplit
      obtain ⟨rfl, -⟩ := List.append_inj' hsplit rfl
      exact h before x later rfl

theorem latest_concat (deeds : List Deed) (deed : Deed) (d : DomainId) (name : String) :
    latest (deeds ++ [deed]) d name = (deed.class? d name).or (latest deeds d name) := by
  rw [latest, List.reverse_append, List.reverse_singleton, List.singleton_append,
    List.findSome?_cons]
  cases deed.class? d name <;> rfl

theorem made_concat (deeds : List Deed) (deed : Deed) :
    made (deeds ++ [deed]) = made deeds ++ deed.made?.toList := by
  rw [made, List.filterMap_append]
  cases h : deed.made? <;> simp [h, made]

theorem made_concat_of_none (h : deed.made? = none) : made (deeds ++ [deed]) = made deeds := by
  rw [made_concat, h, Option.toList_none, List.append_nil]

theorem madeIn_concat_of_none (h : deed.made? = none) (d : DomainId) :
    madeIn (deeds ++ [deed]) d = madeIn deeds d := by
  rw [madeIn, made_concat_of_none h, madeIn]

theorem madeIn_concat (deeds : List Deed) (deed : Deed) (d : DomainId) :
    madeIn (deeds ++ [deed]) d =
      if d.index = (made deeds).length then deed.made?.join else madeIn deeds d := by
  rw [madeIn, made_concat, List.getElem?_append]
  split_ifs with hlt heq heq
  · exact absurd hlt (heq ▸ Nat.lt_irrefl _)
  · rfl
  · rw [heq, Nat.sub_self]
    cases deed.made? <;> rfl
  · rw [madeIn, List.getElem?_eq_none (Nat.not_lt.mp hlt), List.getElem?_eq_none]
    have hle : deed.made?.toList.length ≤ 1 := by cases deed.made? <;> simp
    omega

theorem lt_length_of_madeIn {p : DomainId} (h : madeIn deeds d = some p) :
    d.index < (made deeds).length := by
  by_contra hle
  rw [madeIn, List.getElem?_eq_none (Nat.not_lt.mp hle)] at h
  cases h

end History

/-! ## What is stored -/

/-- What is stored of domains is what was done with them. -/
structure Follows (deeds : List Deed) (r : Realm) : Prop where
  size : r.store.domains.size = (made deeds).length
  parent : ∀ d, (r.store.domain d).parent = madeIn deeds d
  classes : ∀ d name, (r.store.domain d).classes.get? name = latest deeds d name
  ascending : ∀ {d p}, madeIn deeds d = some p → p.index < d.index

theorem Realm.Lives.lt_size {r : Realm} {d : DomainId} (h : r.Lives (.domain d)) :
    d.index < r.store.domains.size := (Store.supports_lasts _ h).1

namespace Follows

variable {deeds : List Deed} {r : Realm}

theorem empty : Follows [] .empty where
  size := rfl
  parent _ := rfl
  classes _ _ := rfl
  ascending := nofun

/-- A domain is made. -/
theorem add (h : Follows deeds r) {deed : Deed} {parent : Option DomainId} {held : List Entity}
    (hmade : deed.made? = some parent) (hclass : ∀ d name, deed.class? d name = none)
    (hparent : ∀ p, parent = some p → r.Lives (.domain p)) :
    Follows (deeds ++ [deed]) ⟨(r.store.addDomain parent).2, held⟩ where
  size := by
    rw [Store.size_addDomain, made_concat, hmade, List.length_append, h.size]
    rfl
  parent d := by
    rw [Store.domain_addDomain, madeIn_concat, hmade, ← h.parent d, h.size]
    split_ifs <;> rfl
  classes d name := by
    rw [Store.domain_addDomain, latest_concat, hclass, Option.none_or, ← h.classes d name]
    split_ifs with hd
    · rw [Store.domain_of_size_le (Nat.le_of_eq hd.symm)]
      rfl
    · rfl
  ascending {d p} hp := by
    rw [madeIn_concat, hmade] at hp
    split_ifs at hp with hd
    · rw [hd, ← h.size]
      exact (hparent p hp).lt_size
    · exact h.ascending hp

/-- Nothing is done with what is stored of domains. -/
theorem keep (h : Follows deeds r) {deed : Deed} {r' : Realm} (hmade : deed.made? = none)
    (hclass : ∀ d name, deed.class? d name = none) (hr' : r'.store.domains = r.store.domains) :
    Follows (deeds ++ [deed]) r' := by
  have hdomain : ∀ d, r'.store.domain d = r.store.domain d := fun d => by
    rw [Store.domain, hr', Store.domain]
  refine ⟨?_, fun d => ?_, fun d name => ?_, fun {d p} hp => ?_⟩
  · rw [hr', made_concat_of_none hmade, h.size]
  · rw [hdomain, madeIn_concat_of_none hmade, h.parent]
  · rw [hdomain, latest_concat, hclass, Option.none_or, h.classes]
  · exact h.ascending (madeIn_concat_of_none hmade d ▸ hp)

theorem define (h : Follows deeds r) {e : DomainId} (he : e.index < r.store.domains.size)
    (name : String) (v : Value) :
    Follows (deeds ++ [.define e name v]) (r.after (.define e name v)) where
  size := by
    rw [made_concat_of_none rfl, ← h.size]
    exact Store.size_modifyDomain e _
  parent d := by
    rw [madeIn_concat_of_none rfl, ← h.parent d, Realm.after, Store.defineClass,
      Store.domain_modifyDomain]
    split_ifs with hd
    · rw [hd.1]
    · rfl
  classes d called := by
    rw [latest_concat, ← h.classes d called, Realm.after, Store.defineClass,
      Store.domain_modifyDomain, Deed.class?]
    by_cases hd : d = e
    · subst hd
      rw [if_pos ⟨rfl, he⟩, Table.get?_insert]
      by_cases hname : called = name
      · rw [if_pos hname, if_pos ⟨rfl, hname.symm⟩]
        rfl
      · rw [if_neg hname, if_neg fun hn => hname hn.2.symm]
        rfl
    · rw [if_neg fun hn => hd hn.1, if_neg fun hn => hd hn.1.symm]
      rfl
  ascending {d p} hp := h.ascending ((madeIn_concat_of_none rfl d).symm.trans hp)

theorem after (h : Follows deeds r) {deed : Deed} (hdeed : r.Admits deed) :
    Follows (deeds ++ [deed]) (r.after deed) := by
  cases deed with
  | root => exact h.add rfl (fun _ _ => rfl) nofun
  | child parent =>
    refine h.add rfl (fun _ _ => rfl) fun p hp => ?_
    cases hp
    exact hdeed
  | define e name v => exact h.define hdeed.1.lt_size name v
  | drop d => exact h.keep rfl (fun _ _ => rfl) rfl
  | elsewhere objects held => exact h.keep rfl (fun _ _ => rfl) rfl

end Follows

/-- **What is stored of domains** is what was done with them. -/
theorem follows_ofDeeds {deeds : List Deed} (h : Proper deeds) :
    Follows deeds (Realm.ofDeeds deeds) := by
  induction deeds using List.reverseRecOn with
  | nil => exact .empty
  | append_singleton deeds deed ih =>
    obtain ⟨h, hdeed⟩ := proper_concat.mp h
    rw [ofDeeds_concat]
    exact (ih h).after hdeed

/-! ## What is held -/

namespace Store

variable {s : Store} {e : DomainId} {name : String} {v : Value} {x z : Entity}

theorem holds_addDomain (s : Store) (parent : Option DomainId) (z : Entity) :
    (s.addDomain parent).2.holds z = if z = .domain ⟨s.domains.size⟩ then [] else s.holds z := by
  cases z with
  | object o => rfl
  | domain d =>
    by_cases hd : d = ⟨s.domains.size⟩
    · rw [if_pos (congrArg Entity.domain hd), hd, holds, domain_addDomain, if_pos rfl]
      rfl
    · rw [if_neg fun h => hd (Entity.domain.inj h), holds, domain_addDomain,
        if_neg fun h => hd (congrArg DomainId.mk h), holds]

theorem contains_defineClass : (s.defineClass e name v).Contains x ↔ s.Contains x := by
  cases x with
  | object o => exact Iff.rfl
  | domain d => rw [Contains, Contains, defineClass, size_modifyDomain]

/-- A definition makes a domain hold nothing more but its value. -/
theorem mem_holds_of_defineClass (hx : x ∈ (s.defineClass e name v).holds z) :
    x ∈ s.holds z ∨ x ∈ v.entities := by
  cases z with
  | object o => exact Or.inl hx
  | domain d =>
    rw [holds, defineClass, domain_modifyDomain] at hx
    split_ifs at hx with hd
    · obtain ⟨entry, hentry, hx⟩ := List.mem_flatMap.mp hx
      rcases Table.mem_of_mem_put hentry with hentry | hvalue
      · rw [holds, hd.1]
        exact Or.inl (List.mem_flatMap.mpr ⟨entry, hentry, hx⟩)
      · exact Or.inr (hvalue ▸ hx)
    · exact Or.inl hx

/-- A definition that replaces no object makes a domain hold no less. -/
theorem mem_holds_defineClass
    (hplain : ∀ o, (s.domain e).classes.get? name ≠ some (.object o)) (hx : x ∈ s.holds z) :
    x ∈ (s.defineClass e name v).holds z := by
  cases z with
  | object o => exact hx
  | domain d =>
    rw [holds, defineClass, domain_modifyDomain]
    split_ifs with hd
    · rw [holds, hd.1] at hx
      obtain ⟨entry, hentry, hx⟩ := List.mem_flatMap.mp hx
      rcases Table.mem_put_of_mem hentry with hentry | hget
      · exact List.mem_flatMap.mpr ⟨entry, hentry, hx⟩
      · cases hvalue : entry.2 with
        | object o => exact absurd (hget.trans (congrArg some hvalue)) (hplain o)
        | _ =>
          rw [hvalue] at hx
          cases hx
    · exact hx

end Store

/-! ## What a deed can end -/

section Liveness

variable {r : Realm} {deed : Deed} {d e : DomainId} {name : String} {v : Value} {x : Entity}

/-- A new domain holds nothing, and nothing but the embedding program holds it. -/
theorem Realm.lives_of_add {parent : Option DomainId}
    (h : Store.Lasts (r.store.addDomain parent).2 (.domain ⟨r.store.domains.size⟩ :: r.held) x)
    (hx : x ≠ .domain ⟨r.store.domains.size⟩) : r.Lives x := by
  refine ⟨fun y => y ≠ .domain ⟨r.store.domains.size⟩ ∧ Store.Lasts _ _ y, ?_, hx, h⟩
  rintro y ⟨hy, hlasts⟩
  obtain ⟨hcontains, hheld⟩ := Store.supports_lasts y hlasts
  constructor
  · cases y with
    | object o => exact hcontains
    | domain d =>
      rw [Store.Contains, Store.size_addDomain] at hcontains
      have hne : d.index ≠ r.store.domains.size := fun h => hy (congrArg (Entity.domain ⟨·⟩) h)
      exact Nat.lt_of_le_of_ne (Nat.le_of_lt_succ hcontains) hne
  · rcases hheld with hout | ⟨z, hz, hheld⟩
    · exact Or.inl ((List.mem_cons.mp hout).resolve_left hy)
    · rw [Store.holds_addDomain] at hheld
      split_ifs at hheld with hnew
      · cases hheld
      · exact Or.inr ⟨z, ⟨hnew, hz⟩, hheld⟩

theorem Realm.lives_of_define (hv : ∀ x ∈ v.entities, r.Lives x)
    (h : (r.after (.define e name v)).Lives x) : r.Lives x := by
  refine ⟨fun y => (r.after (.define e name v)).Lives y ∨ r.Lives y, ?_, Or.inl h⟩
  have hlives : ∀ y, r.Lives y → r.store.Contains y ∧ (y ∈ r.held ∨
      ∃ z, ((r.after (.define e name v)).Lives z ∨ r.Lives z) ∧ y ∈ r.store.holds z) := by
    intro y hy
    refine (Store.supports_lasts y hy).imp_right (Or.imp_right ?_)
    rintro ⟨z, hz, hheld⟩
    exact ⟨z, Or.inr hz, hheld⟩
  rintro y (hy | hy)
  · obtain ⟨hcontains, hout | ⟨z, hz, hheld⟩⟩ := Store.supports_lasts y hy
    · exact ⟨Store.contains_defineClass.mp hcontains, Or.inl hout⟩
    · rcases Store.mem_holds_of_defineClass hheld with hheld | hvalue
      · exact ⟨Store.contains_defineClass.mp hcontains, Or.inr ⟨z, Or.inl hz, hheld⟩⟩
      · exact hlives y (hv y hvalue)
  · exact hlives y hy

/-- **Nothing comes back**: a domain that lives after a deed lived before it, or was made by it. -/
theorem Realm.lives_of_after (hdeed : r.Admits deed) (hd : d.index < r.store.domains.size)
    (h : (r.after deed).Lives (.domain d)) : r.Lives (.domain d) := by
  have hold : Entity.domain d ≠ .domain ⟨r.store.domains.size⟩ := fun heq =>
    Nat.ne_of_lt hd (congrArg DomainId.index (Entity.domain.inj heq))
  cases deed with
  | root => exact lives_of_add h hold
  | child parent => exact lives_of_add h hold
  | define e name v => exact lives_of_define hdeed.2 h
  | drop e =>
    refine ⟨(r.after (.drop e)).Lives, fun y hy => ?_, h⟩
    exact (Store.supports_lasts y hy).imp_right (Or.imp_left List.mem_of_mem_erase)
  | elsewhere objects held => exact hdeed d h

/-- A definition that replaces no object ends nothing. -/
theorem Realm.Lives.define (h : r.Lives x)
    (hplain : ∀ o, (r.store.domain e).classes.get? name ≠ some (.object o)) :
    (r.after (.define e name v)).Lives x := by
  refine ⟨r.Lives, fun y hy => ?_, h⟩
  obtain ⟨hcontains, hheld⟩ := Store.supports_lasts y hy
  refine ⟨Store.contains_defineClass.mpr hcontains, hheld.imp_right ?_⟩
  rintro ⟨z, hz, hheld⟩
  exact ⟨z, hz, Store.mem_holds_defineClass hplain hheld⟩

/-- What lives after one more deed lived before, or was just made. -/
theorem lives_of_concat {deeds : List Deed} (h : Proper (deeds ++ [deed]))
    (hd : d.index < (made deeds).length)
    (hlives : (Realm.ofDeeds (deeds ++ [deed])).Lives (.domain d)) :
    (Realm.ofDeeds deeds).Lives (.domain d) := by
  obtain ⟨h, hdeed⟩ := proper_concat.mp h
  rw [ofDeeds_concat] at hlives
  exact Realm.lives_of_after hdeed ((follows_ofDeeds h).size ▸ hd) hlives

end Liveness

/-! ## Deeds that can be checked -/

section Checked

variable {r : Realm} {deeds : List Deed}

instance (r : Realm) (x : Entity) : Decidable (r.Lives x) :=
  decidable_of_iff ((r.store.live r.held).has x = true) Store.has_live_iff

/-- Only domains that were made can come back. -/
theorem Realm.admits_elsewhere {objects : Array Object} {held : List Entity} :
    (∀ i < r.store.domains.size, (r.after (.elsewhere objects held)).Lives (.domain ⟨i⟩) →
      r.Lives (.domain ⟨i⟩)) ↔ r.Admits (.elsewhere objects held) :=
  ⟨fun h d hd => h d.index hd.lt_size hd, fun h i _ => h ⟨i⟩⟩

instance (r : Realm) : (deed : Deed) → Decidable (r.Admits deed)
  | .root => isTrue trivial
  | .child p => inferInstanceAs (Decidable (r.Lives (.domain p)))
  | .define d _ v => inferInstanceAs (Decidable (r.Lives (.domain d) ∧ ∀ x ∈ v.entities, r.Lives x))
  | .drop d => inferInstanceAs (Decidable (.domain d ∈ r.held))
  | .elsewhere _ _ => decidable_of_iff _ Realm.admits_elsewhere

theorem proper_iff : (∀ i, (hi : i < deeds.length) →
    (Realm.ofDeeds (deeds.take i)).Admits deeds[i]) ↔ Proper deeds := by
  constructor
  · rintro h before deed later rfl
    have hat := h before.length (by simp)
    simpa using hat
  · intro h i hi
    exact h _ _ (deeds.drop (i + 1)) (by simp)

instance (deeds : List Deed) : Decidable (Proper deeds) := decidable_of_iff _ proper_iff

end Checked

end ActionVm
