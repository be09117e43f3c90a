import ActionVm.Proofs.Machine.SimulatedRuns
import ActionVm.Proofs.Store.Reachability

/-!
# Confinement

A worker changes nothing but what it reaches at the start, and what it makes itself.

* `State.IsClosed`, `State.reach`: what a worker with a context reaches;
* `Machine.follow_start`: the same worker in two stores that look the same from it;
* `Store.Confined`: a store after a run, with `Confined.closed`, `Confined.agreeOn`;
* **`Machine.confined_run`**: runs are confined;
* **`Store.Confined.sameFrom`**: from what another worker reaches, the store looks the same after a
  run.
-/

namespace ActionVm

/-! ## What a worker reaches -/

namespace State

/-- Nothing in the store, no worker and no context refers to what is not there. -/
structure IsClosed (s : State) (c : Context) : Prop where
  store : s.store.Closed
  roots : ∀ x ∈ s.worker.entities ++ c.entities, s.store.Contains x

/-- What is reached from the global object, the domains and the stage of a worker, and from the
context in which a run begins. -/
def reach (s : State) (c : Context) : Region :=
  s.store.reach (s.store.live (s.worker.entities ++ c.entities)) (s.worker.own ++ c.entities)

variable {s : State} {c : Context}

theorem reach_roots : ∀ x ∈ s.worker.own ++ c.entities, (s.reach c).entity x := fun _ hx =>
  Store.reach_entity.mpr (.root hx)

theorem mem_outside {x : Entity} (hx : x ∈ s.worker.own ++ c.entities ∨ x ∈ s.worker.kept) :
    x ∈ s.worker.entities ++ c.entities := by
  rw [List.mem_append, Worker.mem_entities]
  rw [List.mem_append] at hx
  tauto

namespace IsClosed

variable (hs : s.IsClosed c)
include hs

theorem held_roots : ∀ x ∈ s.worker.own ++ c.entities,
    s.store.Contains x ∧ x ∈ s.worker.entities ++ c.entities := fun x hx =>
  ⟨hs.roots x (mem_outside (Or.inl hx)), mem_outside (Or.inl hx)⟩

theorem encloses : s.store.Encloses (s.reach c) :=
  Store.encloses_reach hs.store hs.held_roots

theorem lasts {x : Entity} (hx : (s.reach c).entity x) :
    s.store.Lasts (s.worker.entities ++ c.entities) x :=
  (Store.reach_entity.mp hx).lasts hs.store.holds hs.held_roots

/-- The domain around a reached one is reached, unless nothing holds it any more. -/
theorem around {d p : DomainId} (hd : (s.reach c).domains d)
    (hp : (s.store.domain d).parent = some p) :
    (s.reach c).domains p ∨ p.index < s.store.domains.size ∧
      ¬ s.store.Lasts (s.worker.entities ++ c.entities) (.domain p) := by
  by_cases hlasts : s.store.Lasts (s.worker.entities ++ c.entities) (.domain p)
  · refine Or.inl (Store.Reaches.around hd ?_)
    rw [Store.liveParent?, hp, Option.filter_some, if_pos (Store.has_live_iff.mpr hlasts)]
  · exact Or.inr ⟨hs.store.parent hp, hlasts⟩

theorem not_lasts_kept {x : Entity}
    (h : ¬ s.store.Lasts (s.worker.entities ++ c.entities) x) :
    ¬ s.store.Lasts s.worker.kept x := fun hlasts =>
  h (hlasts.mono fun _ hy =>
    Store.lasts_of_mem (hs.roots _ (mem_outside (Or.inr hy))) (mem_outside (Or.inr hy)))

/-- The store looks the same as itself from what is reached. -/
theorem sameFrom : s.store.SameFrom s.store (s.reach c) s.worker.kept where
  left := hs.store.holds
  right := hs.store.holds
  encloses := hs.encloses
  agree :=
    { object := fun {o} ho =>
        have hin := (hs.encloses.entity (x := .object o) ho).1
        ⟨hin, hin, rfl⟩
      buffer := fun hb => ⟨hs.encloses.buffer hb, hs.encloses.buffer hb, rfl⟩
      domain := fun {d} hd =>
        have hin := (hs.encloses.entity (x := .domain d) hd).1
        ⟨hin, hin, rfl⟩ }
  keeps x hx :=
    have hin := hs.roots x (mem_outside (Or.inr hx))
    ⟨hin, hin⟩
  held _ _ := Iff.rfl
  around {d p} hd hp := by
    refine (hs.around hd hp).imp_right fun ⟨hlt, hgone⟩ => ?_
    have hfrom : s.store.GoneFrom (s.reach c) s.worker.kept p :=
      ⟨hlt, fun hreached => hgone (hs.lasts (x := .domain p) hreached), hs.not_lasts_kept hgone⟩
    exact ⟨hfrom, hfrom⟩

end IsClosed

end State

/-! ## Runs in two stores -/

/-- **The same worker** in two stores that look the same from it does the same in both. -/
theorem Machine.follow_start {l r : Store} {R : Region} {w : Worker} {c : Context}
    (h : l.SameFrom r R w.kept) (hroots : ∀ x ∈ w.own ++ c.entities, R.entity x) (b : Block)
    (n : ℕ) :
    h.setting.Follow (.diagonal R) ((start ⟨l, w⟩ c b).run .none n)
      ((start ⟨r, w⟩ c b).run .none n) := by
  have hfixes : ∀ x ∈ w.own ++ c.entities, (Naming.diagonal R).entity x x := fun x hx =>
    Naming.diagonal_entity.mpr ⟨rfl, hroots x hx⟩
  have hcontext : c.Matches (.diagonal R) c :=
    Context.matches_self fun x hx => hfixes x (List.mem_append_right _ hx)
  have hworker : w.Matches (.diagonal R) w :=
    Worker.matches_self fun x hx => hfixes x (List.mem_append_left _ hx)
  exact follow_run h.isFair
    ⟨.go (Invocation.matches_start hcontext b), .nil, h.corresponds, hworker, rfl, rfl⟩ n

/-! ## After a run -/

/-- A store has become another one by changes of the things of a region `N` alone. Of those, only
things of `R` were there before. -/
structure Store.Confined (s t : Store) (R N : Region) : Prop where
  spares : s.Spares t N
  oldObject : ∀ {o}, N.objects o → o.index < s.objects.size → R.objects o
  oldBuffer : ∀ {b}, N.buffers b → b.index < s.buffers.size → R.buffers b
  oldDomain : ∀ {d}, N.domains d → d.index < s.domains.size → R.domains d
  encloses : t.Encloses N
  parent : ∀ {d p}, N.domains d → (t.domain d).parent = some p → p.index < t.domains.size

namespace Store

variable {s t l r t' : Store} {R R' N : Region} {kept outside : List Entity}

theorem SameFrom.confined (h : l.SameFrom r R kept) {η : Naming}
    (hη : h.setting.Corresponds η t t') : l.Confined t R η.left where
  spares := hη.left
  oldObject := fun ⟨_, ho⟩ hlt => (hη.oldObject ho (Or.inl hlt)).2
  oldBuffer := fun ⟨_, hb⟩ hlt => (hη.oldBuffer hb (Or.inl hlt)).2
  oldDomain := fun ⟨_, hd⟩ hlt => (hη.oldDomain hd (Or.inl hlt)).2
  encloses :=
    { entity := fun {x} hx =>
        have ⟨_, hxx'⟩ := Naming.entity_left.mp hx
        ⟨(hη.joined.holds hxx').1, hη.joined.closed_left x hx⟩
      buffer := fun ⟨_, hb⟩ => (hη.buffer hb).1
      bytes := fun ⟨_, ho⟩ hb =>
        have ⟨b', _, hbb'⟩ := (hη.matches_object ho).buffer?.exists_of_eq_some hb
        ⟨b', hbb'⟩
      memory := fun ⟨_, hd⟩ hb =>
        have ⟨b', _, hbb'⟩ := (hη.domain hd).2.2.1.memory.exists_of_eq_some hb
        ⟨b', hbb'⟩ }
  parent := fun ⟨_, hd⟩ hp => by
    rcases (hη.domain hd).2.2.2.named_or_gone hp with ⟨p', -, hpp'⟩ | ⟨hgone, -⟩
    · exact (hη.domain hpp').1
    · exact Nat.lt_of_lt_of_le hgone.1 hη.left.domains_le

namespace Confined

variable (h : s.Confined t R N)
include h

theorem old {x : Entity} (hx : N.entity x) (hin : s.Contains x) : R.entity x := by
  cases x with
  | object o => exact h.oldObject hx hin
  | domain d => exact h.oldDomain hx hin

/-- **After a run** nothing refers to what is not there either. -/
theorem closed (hs : s.Closed) : t.Closed where
  holds z x hx := by
    by_cases hz : N.entity z
    · exact (h.encloses.entity ((h.encloses.entity hz).2 x hx)).1
    · rw [h.spares.holds_eq hz] at hx
      exact h.spares.contains_after (hs.holds z x hx)
  buffer {o b} hb := by
    by_cases ho : N.objects o
    · exact h.encloses.buffer (h.encloses.bytes ho hb)
    · rw [(h.spares.object ho).1] at hb
      exact Nat.lt_of_lt_of_le (hs.buffer hb) h.spares.buffers_le
  memory {d b} hb := by
    by_cases hd : N.domains d
    · exact h.encloses.buffer (h.encloses.memory hd hb)
    · rw [memory?, (h.spares.domain hd).1] at hb
      exact Nat.lt_of_lt_of_le (hs.memory hb) h.spares.buffers_le
  parent {d p} hp := by
    by_cases hd : N.domains d
    · exact h.parent hd hp
    · rw [(h.spares.domain hd).1] at hp
      exact Nat.lt_of_lt_of_le (hs.parent hp) h.spares.domains_le

/-- What lasts apart from a region lasts after the changes in it. -/
theorem lasts_after (hs : s.Encloses R) {x : Entity} (hx : ¬ R.entity x)
    (hlasts : s.Lasts kept x) : t.Lasts kept x := by
  refine ⟨fun y => ¬ R.entity y ∧ s.Lasts kept y, ?_, hx, hlasts⟩
  rintro y ⟨hy, hylasts⟩
  obtain ⟨hin, hkept | ⟨z, hz, hheld⟩⟩ := supports_lasts y hylasts
  · exact ⟨h.spares.contains_after hin, Or.inl hkept⟩
  · have hzR : ¬ R.entity z := fun hzR => hy ((hs.entity hzR).2 y hheld)
    have hzN : ¬ N.entity z := fun hzN => hzR (h.old hzN (supports_lasts z hz).1)
    rw [← h.spares.holds_eq hzN] at hheld
    exact ⟨h.spares.contains_after hin, Or.inr ⟨z, ⟨hzR, hz⟩, hheld⟩⟩

/-- What lasts after changes, and was not among what was changed or added, did so before. -/
theorem lasts_before {x : Entity} (hx : ¬ N.entity x) (hlasts : t.Lasts kept x) :
    s.Lasts kept x :=
  h.spares.lasts (fun _ hz => (h.encloses.entity hz).2) (fun _ hy => Or.inr hy) hx hlasts

end Confined

end Store

/-- **A run** changes and adds nothing but things of a region, in which nothing else was before than
what the worker reaches. -/
theorem Machine.confined_run {s : State} {c : Context} (hs : s.IsClosed c) (b : Block) (n : ℕ) :
    ∃ N, s.store.Confined ((start s c b).run .none n).state.store (s.reach c) N := by
  obtain ⟨η, -, hm⟩ := follow_start hs.sameFrom State.reach_roots b n
  exact ⟨η.left, hs.sameFrom.confined hm.state.store⟩

/-! ## Another worker -/

/-- Nothing belongs to both regions. -/
structure Region.Disjoint (R R' : Region) : Prop where
  entity : ∀ {x}, R.entity x → ¬ R'.entity x
  buffer : ∀ {b}, R.buffers b → ¬ R'.buffers b

theorem Region.Disjoint.symm {R R' : Region} (h : R.Disjoint R') : R'.Disjoint R :=
  ⟨fun hx hx' => h.entity hx' hx, fun hb hb' => h.buffer hb' hb⟩

section Beside

variable {s : State} {c : Context} {t : Store} {R' N : Region} (hs : s.IsClosed c)
  (h : s.store.Confined t R' N) (hdisjoint : (s.reach c).Disjoint R')
include hs h hdisjoint

theorem Store.Confined.agreeOn : s.store.AgreeOn t (s.reach c) where
  object {o} ho := by
    have hin := (hs.encloses.entity (x := .object o) ho).1
    have hN : ¬ N.objects o := fun hN =>
      hdisjoint.entity (x := .object o) ho (h.oldObject hN hin)
    exact ⟨hin, Nat.lt_of_lt_of_le hin h.spares.objects_le, (h.spares.object hN).1.symm⟩
  buffer {b} hb := by
    have hin := hs.encloses.buffer hb
    have hN : ¬ N.buffers b := fun hN => hdisjoint.buffer hb (h.oldBuffer hN hin)
    exact ⟨hin, Nat.lt_of_lt_of_le hin h.spares.buffers_le, (h.spares.buffer hN).1.symm⟩
  domain {d} hd := by
    have hin := (hs.encloses.entity (x := .domain d) hd).1
    have hN : ¬ N.domains d := fun hN =>
      hdisjoint.entity (x := .domain d) hd (h.oldDomain hN hin)
    exact ⟨hin, Nat.lt_of_lt_of_le hin h.spares.domains_le, (h.spares.domain hN).1.symm⟩

/-- What a worker reaches is held from apart after the run of another one if it was so before. -/
theorem Store.Confined.heldApart_iff (hR' : s.store.Encloses R') {kept : List Entity} {x : Entity}
    (hx : (s.reach c).entity x) :
    s.store.HeldApart kept (s.reach c) x ↔ t.HeldApart kept (s.reach c) x := by
  refine or_congr_right (exists_congr fun z => and_congr_right fun _ => ?_)
  constructor
  · rintro ⟨hz, hheld⟩
    have hzR' : ¬ R'.entity z := fun hzR' => hdisjoint.entity hx ((hR'.entity hzR').2 x hheld)
    have hzN : ¬ N.entity z := fun hzN => hzR' (h.old hzN (supports_lasts z hz).1)
    rw [← h.spares.holds_eq hzN] at hheld
    exact ⟨h.lasts_after hR' hzR' hz, hheld⟩
  · rintro ⟨hz, hheld⟩
    have hzN : ¬ N.entity z := fun hzN =>
      hdisjoint.entity hx (h.old ((h.encloses.entity hzN).2 x hheld) (hs.encloses.entity hx).1)
    rw [h.spares.holds_eq hzN] at hheld
    exact ⟨h.lasts_before hzN hz, hheld⟩

/-- **From what a worker reaches**, the store looks the same after the run of another one that
reaches nothing of it. -/
theorem Store.Confined.sameFrom (hR' : s.store.Encloses R')
    (hlasts : ∀ x, R'.entity x → s.store.Lasts (s.worker.entities ++ c.entities) x) :
    s.store.SameFrom t (s.reach c) s.worker.kept where
  left := hs.store.holds
  right := (h.closed hs.store).holds
  encloses := hs.encloses
  agree := h.agreeOn hs hdisjoint
  keeps x hx :=
    have hin := (hs.sameFrom.keeps x hx).1
    ⟨hin, h.spares.contains_after hin⟩
  held x hx := h.heldApart_iff hs hdisjoint hR' hx
  around {d p} hd hp := by
    refine (hs.around hd hp).imp_right fun ⟨hlt, hgone⟩ => ?_
    have hreach : ¬ (s.reach c).domains p := fun hreached =>
      hgone (hs.lasts (x := .domain p) hreached)
    refine ⟨⟨hlt, hreach, hs.not_lasts_kept hgone⟩,
      ⟨Nat.lt_of_lt_of_le hlt h.spares.domains_le, hreach, fun hafter => ?_⟩⟩
    by_cases hN : N.domains p
    · exact hgone (hlasts (.domain p) (h.oldDomain hN hlt))
    · exact hs.not_lasts_kept hgone (h.lasts_before (x := .domain p) hN hafter)

end Beside

end ActionVm
