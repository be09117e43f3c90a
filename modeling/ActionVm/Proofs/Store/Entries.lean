import ActionVm.Store
import Mathlib.Data.Nat.Notation

/-!
# Stored things after a change

What stands under a name when something was changed or added. A name without anything stands for the
default.

* **`Store.object_modify`**, **`Store.object_addObject`**: objects;
* `Store.own?_define`: members;
* **`Store.domain_modifyDomain`**, **`Store.domain_addDomain`**: domains;
* `Store.buffer_setBuffer`, `Store.buffer_addBuffer`: buffers.
-/

namespace ActionVm.Store

variable {s : Store}

/-! ## Objects -/

theorem object_of_size_le {o : ObjectId} (h : s.objects.size ≤ o.index) : s.object o = default := by
  rw [object, Array.getD_eq_getD_getElem?, Array.getElem?_eq_none h]
  rfl

@[simp] theorem size_modify (o : ObjectId) (f : Object → Object) :
    (s.modify o f).objects.size = s.objects.size := Array.size_modify

theorem object_modify (o : ObjectId) (f : Object → Object) (p : ObjectId) :
    (s.modify o f).object p =
      if p = o ∧ o.index < s.objects.size then f (s.object o) else s.object p := by
  simp only [object, modify, Array.getD_eq_getD_getElem?, Array.getElem?_modify]
  by_cases hp : p = o
  · subst hp
    by_cases h : p.index < s.objects.size
    · simp [h]
    · simp [h]
  · have hindex : ¬o.index = p.index := fun h => hp (congrArg ObjectId.mk h.symm)
    simp [hp, hindex]

theorem object_modify_self {o : ObjectId} (h : o.index < s.objects.size) (f : Object → Object) :
    (s.modify o f).object o = f (s.object o) := by
  rw [object_modify, if_pos ⟨rfl, h⟩]

theorem object_modify_of_ne {o p : ObjectId} (h : p ≠ o) (f : Object → Object) :
    (s.modify o f).object p = s.object p := by
  rw [object_modify, if_neg (fun hp => h hp.1)]

@[simp] theorem size_addObject (x : Object) :
    (s.addObject x).2.objects.size = s.objects.size + 1 := Array.size_push x

theorem object_addObject (x : Object) (p : ObjectId) :
    (s.addObject x).2.object p = if p.index = s.objects.size then x else s.object p := by
  simp only [object, addObject, Array.getD_eq_getD_getElem?, Array.getElem?_push]
  split <;> rfl

theorem object_addObject_of_lt {p : ObjectId} (h : p.index < s.objects.size) (x : Object) :
    (s.addObject x).2.object p = s.object p := by
  rw [object_addObject, if_neg (Nat.ne_of_lt h)]

/-! ## Members -/

theorem own?_define {o : ObjectId} (h : o.index < s.objects.size) (name : String) (v : Value)
    (other : String) :
    (s.define o name v).own? o other = if other = name then some (.data v) else s.own? o other := by
  rw [own?, define, object_modify_self h]
  exact Table.get?_insert _ _ _ _

/-! ## Buffers -/

theorem buffer_of_size_le {b : BufferId} (h : s.buffers.size ≤ b.index) : s.buffer b = default := by
  rw [buffer, Array.getD_eq_getD_getElem?, Array.getElem?_eq_none h]
  rfl

@[simp] theorem size_setBuffer (b : BufferId) (x : Buffer) :
    (s.setBuffer b x).buffers.size = s.buffers.size := Array.size_setIfInBounds

theorem buffer_setBuffer (b : BufferId) (x : Buffer) (p : BufferId) :
    (s.setBuffer b x).buffer p = if p = b ∧ b.index < s.buffers.size then x else s.buffer p := by
  simp only [buffer, setBuffer, Array.getD_eq_getD_getElem?, Array.getElem?_setIfInBounds]
  by_cases hp : p = b
  · subst hp
    by_cases h : p.index < s.buffers.size
    · simp [h]
    · simp [h]
  · have hindex : ¬b.index = p.index := fun h => hp (congrArg BufferId.mk h.symm)
    simp [hp, hindex]

@[simp] theorem size_addBuffer (x : Buffer) :
    (s.addBuffer x).2.buffers.size = s.buffers.size + 1 := Array.size_push x

theorem buffer_addBuffer (x : Buffer) (p : BufferId) :
    (s.addBuffer x).2.buffer p = if p.index = s.buffers.size then x else s.buffer p := by
  simp only [buffer, addBuffer, Array.getD_eq_getD_getElem?, Array.getElem?_push]
  split <;> rfl

/-! ## Domains -/

theorem domain_of_size_le {d : DomainId} (h : s.domains.size ≤ d.index) : s.domain d = default := by
  rw [domain, Array.getD_eq_getD_getElem?, Array.getElem?_eq_none h]
  rfl

@[simp] theorem size_modifyDomain (d : DomainId) (f : Domain → Domain) :
    (s.modifyDomain d f).domains.size = s.domains.size := Array.size_modify

theorem domain_modifyDomain (d : DomainId) (f : Domain → Domain) (p : DomainId) :
    (s.modifyDomain d f).domain p =
      if p = d ∧ d.index < s.domains.size then f (s.domain d) else s.domain p := by
  simp only [domain, modifyDomain, Array.getD_eq_getD_getElem?, Array.getElem?_modify]
  by_cases hp : p = d
  · subst hp
    by_cases h : p.index < s.domains.size
    · simp [h]
    · simp [h]
  · have hindex : ¬d.index = p.index := fun h => hp (congrArg DomainId.mk h.symm)
    simp [hp, hindex]

@[simp] theorem size_addDomain (parent : Option DomainId) :
    (s.addDomain parent).2.domains.size = s.domains.size + 1 := Array.size_push _

theorem domain_addDomain (parent : Option DomainId) (p : DomainId) :
    (s.addDomain parent).2.domain p =
      if p.index = s.domains.size then ⟨parent, .empty, none⟩ else s.domain p := by
  simp only [domain, addDomain, Array.getD_eq_getD_getElem?, Array.getElem?_push]
  split <;> rfl

end ActionVm.Store
