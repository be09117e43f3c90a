import ActionVm.Proofs.Machine.Turns
import Mathlib.Logic.Relation

/-!
# How states evolve

Whatever a machine runs, it does to the state what actions and functions of the host do, and it
counts calls and changes domains. What no single change breaks holds in all states of a run.

* `State.Evolves`: one change after the other, with `State.Evolves.payload`: what an object stands
  for;
* **`Machine.evolves_step`**, **`Machine.evolves_run`**: the states of machines.
-/

namespace ActionVm

/-- A state comes about by single changes, and by any changes of the worker. -/
def State.Evolves : State → State → Prop :=
  Relation.ReflTransGen fun s s' => s.Change (fun _ => True) s' ∨ s'.store = s.store

namespace State

instance : State.Admits (fun _ => True) State.Evolves where
  refl _ := .refl
  trans _ _ _ := .trans
  change h := .single (.inl h)

theorem evolves_withWorker (s : State) (f : Worker → Worker) : s.Evolves (s.withWorker f) :=
  .single (.inr rfl)

/-- What every change keeps holds of every store that comes about. -/
theorem Evolves.induction {Q : Store → Prop} {s s' : State} (h : s.Evolves s')
    (hchange : ∀ {s s' : State}, s.Change (fun _ => True) s' → Q s.store → Q s'.store)
    (hs : Q s.store) : Q s'.store := by
  induction h with
  | refl => exact hs
  | tail _ h ih =>
    rcases h with h | h
    · exact hchange h ih
    · rw [h]
      exact ih

/-- **An object goes on standing for the same.** -/
theorem Evolves.payload {s s' : State} (h : s.Evolves s') {o : ObjectId}
    (ho : o.index < s.store.objects.size) :
    o.index < s'.store.objects.size ∧
      (s'.store.object o).payload = (s.store.object o).payload := by
  refine h.induction (Q := fun store => o.index < store.objects.size ∧
    (store.object o).payload = (s.store.object o).payload) (fun {t t'} hchange ht => ?_) ⟨ho, rfl⟩
  cases hchange with
  | worker | addBuffer | setBuffer | addDomain | defineClass => exact ht
  | modify p hf =>
    refine ⟨(Store.size_modify p _).symm ▸ ht.1, Eq.trans ?_ ht.2⟩
    rw [Store.object_modify]
    split_ifs with hp
    · rw [hf, hp.1]
    · rfl
  | addObject =>
    refine ⟨?_, ?_⟩
    · rw [Store.size_addObject]
      exact ht.1.trans (Nat.lt_succ_self _)
    · rw [Store.object_addObject_of_lt ht.1]
      exact ht.2
  | setMemory d b =>
    cases b with
    | none => exact ht
    | some b =>
      rw [Exec.setMemory_some]
      split_ifs <;> exact ht

end State

open State

namespace Machine

variable {e : Embedding} {frames : List Frame} {s : State}

theorem evolves_ofExec {α : Type} {x : Exec α} (hx : Keeps Evolves x)
    {next : α → State → Machine} (hnext : ∀ a (s' : State), s'.Evolves (next a s').state) :
    s.Evolves (ofExec frames s x next).state := by
  have hs : s.Evolves (x s).2 := hx s
  unfold ofExec
  rcases hr : x s with ⟨error | a, s'⟩
  · rw [hr] at hs
    exact hs
  · rw [hr] at hs
    exact hs.trans (hnext a s')

theorem state_settle (i : Invocation) (result : Except ScriptError Outcome) :
    (settle frames s i result).state = s := by
  rcases result with error | _ | v | ⟨scope, body⟩ | r <;> rfl

theorem evolves_resume (a : Answer) (frame : Frame) : s.Evolves (resume s a frame).2 := by
  cases frame with
  | code i => cases a <;> exact .refl
  | call r => exact evolves_withWorker s fun w => { w with callDepth := w.callDepth - 1 }
  | load previous => exact evolves_withWorker s ({ · with activeDomain := previous })

section Steps

variable (he : e.Within Evolves)
include he

theorem evolves_perform (i : Invocation) (a : Action) :
    s.Evolves (perform e frames s i a).state := by
  have hdefines : a.DefinesIn fun _ => True := by cases a <;> trivial
  have hs : s.Evolves (ActionVm.perform e a (i.context, s)).2.2 :=
    keeps_perform he hdefines (i.context, s)
  unfold perform
  dsimp only
  rcases hr : ActionVm.perform e a (i.context, s) with ⟨result, context, s'⟩
  rw [hr] at hs
  rw [state_settle]
  exact hs

theorem evolves_load (d : DomainId) (bytes : List UInt8) (version : UInt32) :
    s.Evolves (load e frames s d bytes version).state := by
  have hdomain := evolves_withWorker s ({ · with activeDomain := d })
  unfold load
  dsimp only
  split
  · exact hdomain.trans (evolves_ofExec (he.load bytes version) fun _ _ => .refl)
  · split
    · exact hdomain
    · exact hdomain

theorem evolves_reply (a : Reply) : s.Evolves (reply e frames s a).state := by
  cases a with
  | value v => exact .refl
  | call callee this args => exact .refl
  | load d bytes version => exact evolves_load he d bytes version
  | classOf d name => exact evolves_ofExec (keeps_classOf he frames d name) fun _ _ => .refl

theorem evolves_call (r : Request) : s.Evolves (call e frames s r).state := by
  cases hc : s.store.callable? r.callee with
  | none =>
    unfold call
    simp only [hc]
    exact .refl
  | some callable =>
    rw [call_eq hc]
    split_ifs
    · refine (evolves_withWorker s fun w => { w with callDepth := w.callDepth + 1 }).trans ?_
      cases callable with
      | closure c => exact evolves_ofExec (keeps_openCall e c r.this r.args) fun _ _ => .refl
      | host f =>
        exact evolves_ofExec (keeps_host he r.this r.args f) fun a _ => evolves_reply he a
    · exact .refl

/-- **A step** does nothing else to the store than actions and functions of the host do. -/
theorem evolves_step (m : Machine) : m.state.Evolves (m.step e).state := by
  obtain ⟨control, frames, s⟩ := m
  rcases control with i | ⟨c, ending⟩ | r | a
  · simp only [step]
    split
    · exact evolves_perform he i _
    · exact .refl
  · cases frames with
    | nil => exact .refl
    | cons frame frames => exact .refl
  · exact evolves_call he r
  · cases frames with
    | nil => exact .refl
    | cons frame frames => exact evolves_resume a frame

theorem evolves_run (m : Machine) (n : ℕ) : m.state.Evolves (m.run e n).state := by
  induction n with
  | zero => exact .refl
  | succ n ih =>
    rw [run_step]
    exact ih.trans (evolves_step he _)

end Steps

end Machine

end ActionVm
