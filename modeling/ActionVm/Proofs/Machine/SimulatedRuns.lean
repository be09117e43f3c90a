import ActionVm.Proofs.Machine.SimulatedActions
import ActionVm.Proofs.Machine.Turns
import ActionVm.Proofs.Store.Survival

/-!
# Runs that match

Two machines that match go on matching step by step, with names for the new things.

* `Invocation.Matches`, `Frame.Matches`, `Control.Matches`: what a machine consists of;
* `Setting.MachinesMatch`, `Setting.Follow`: machines that match, at once or with more names;
* `Machine.outside_roots`: what is held meanwhile;
* **`Machine.follow_step`**, **`Machine.follow_run`**: steps and runs.
-/

namespace ActionVm

open List (Forall₂ rel_append rel_flatMap)

variable {Γ : Setting} {η η' : Naming}

/-! ## What machines consist of -/

/-- Invocations of the same code in contexts that match. -/
structure Invocation.Matches (η : Naming) (i i' : Invocation) : Prop where
  context : i.context.Matches η i'.context
  bodies : i.bodies = i'.bodies
  main : i.main = i'.main

/-- Answers that match, or errors that do so. -/
abbrev Answer.Matches (η : Naming) : Answer → Answer → Prop := η.Agree Value.Matches

/-- The same way to end, with values or errors that match. -/
inductive Ending.Matches (η : Naming) : Ending → Ending → Prop where
  | completed : Matches η .completed .completed
  | returned {v v' : Value} : v.Matches η v' → Matches η (.returned v) (.returned v')
  | failed {e e' : ScriptError} : e.Matches η e' → Matches η (.failed e) (.failed e')

/-- The same waits, with things that stand for each other. -/
inductive Frame.Matches (η : Naming) : Frame → Frame → Prop where
  | code {i i' : Invocation} : i.Matches η i' → Matches η (.code i) (.code i')
  | call {r r' : Request} : r.Matches η r' → Matches η (.call r) (.call r')
  | load {d d' : DomainId} : η.domain d d' → Matches η (.load d) (.load d')

/-- The same happens next, with things that stand for each other. -/
inductive Control.Matches (η : Naming) : Control → Control → Prop where
  | go {i i' : Invocation} : i.Matches η i' → Matches η (.go i) (.go i')
  | ended {c c' : Context} {ending ending' : Ending} : c.Matches η c' →
    ending.Matches η ending' → Matches η (.ended c ending) (.ended c' ending')
  | call {r r' : Request} : r.Matches η r' → Matches η (.call r) (.call r')
  | answer {a a' : Answer} : a.Matches η a' → Matches η (.answer a) (.answer a')

/-- **The machines match**: they do the same, with things that stand for each other. -/
structure Setting.MachinesMatch (Γ : Setting) (η : Naming) (m m' : Machine) : Prop where
  control : m.control.Matches η m'.control
  frames : Forall₂ (Frame.Matches η) m.frames m'.frames
  state : Γ.Relates η m.state m'.state

/-- The machines match when new things have got names. -/
def Setting.Follow (Γ : Setting) (η : Naming) (m m' : Machine) : Prop :=
  ∃ η', η.Le η' ∧ Γ.MachinesMatch η' m m'

theorem Setting.MachinesMatch.follow {m m' : Machine} (h : Γ.MachinesMatch η m m') :
    Γ.Follow η m m' := ⟨η, .refl η, h⟩

theorem Setting.Follow.mono {m m' : Machine} (hle : η.Le η') (h : Γ.Follow η' m m') :
    Γ.Follow η m m' :=
  let ⟨η'', hle', hm⟩ := h
  ⟨η'', hle.trans hle', hm⟩

section Mono

variable (hle : η.Le η')
include hle

theorem Invocation.Matches.mono {i i' : Invocation} (h : i.Matches η i') : i.Matches η' i' :=
  { h with context := h.context.mono hle }

theorem Answer.Matches.mono {a a' : Answer} (h : a.Matches η a') : a.Matches η' a' := by
  cases h with
  | ok h => exact .ok (h.mono hle)
  | error h => exact .error (h.mono hle)

theorem Ending.Matches.mono {ending ending' : Ending} (h : ending.Matches η ending') :
    ending.Matches η' ending' := by
  cases h with
  | completed => exact .completed
  | returned h => exact .returned (h.mono hle)
  | failed h => exact .failed (h.mono hle)

theorem Frame.Matches.mono {f f' : Frame} (h : f.Matches η f') : f.Matches η' f' := by
  cases h with
  | code h => exact .code (h.mono hle)
  | call h => exact .call (h.mono hle)
  | load h => exact .load (hle.domain h)

theorem Control.Matches.mono {c c' : Control} (h : c.Matches η c') : c.Matches η' c' := by
  cases h with
  | go h => exact .go (h.mono hle)
  | ended hc h => exact .ended (hc.mono hle) (h.mono hle)
  | call h => exact .call (h.mono hle)
  | answer h => exact .answer (Answer.Matches.mono hle h)

end Mono

theorem forall₂_frames_mono (hle : η.Le η') {frames frames' : List Frame}
    (h : Forall₂ (Frame.Matches η) frames frames') : Forall₂ (Frame.Matches η') frames frames' :=
  List.Forall₂.imp (fun _ _ hf => hf.mono hle) h

theorem Ending.Matches.answer {c c' : Context} (hc : c.Matches η c') {ending ending' : Ending}
    (h : ending.Matches η ending') : (ending.answer c).Matches η (ending'.answer c') := by
  cases h with
  | completed => exact .ok (hc.returned.getD (.same rfl))
  | returned hv => exact .ok hv
  | failed he => exact .error he

/-! ## What is held meanwhile -/

/-- What a worker holds on to by itself. -/
def Worker.own (w : Worker) : List Entity :=
  .object w.global :: .domain w.rootDomain :: .domain w.activeDomain :: w.stage.entities

theorem Value.forall₂_entities {l l' : List Value} (h : Forall₂ (Value.Matches η) l l') :
    Forall₂ η.entity (l.flatMap Value.entities) (l'.flatMap Value.entities) :=
  rel_flatMap h fun _ _ hv => hv.entities

theorem Context.Matches.entities {c c' : Context} (h : c.Matches η c') :
    Forall₂ η.entity c.entities c'.entities := by
  refine rel_append (rel_append (rel_append (rel_append (rel_append ?_ ?_) ?_) ?_) ?_) ?_
  · exact Value.forall₂_entities h.registers
  · exact Value.forall₂_entities h.stack
  · exact Value.forall₂_entities h.returned.toList
  · exact h.this.entities
  · exact h.scope.entities
  · exact Naming.entity_toList_object h.activation

theorem Worker.Matches.own {w w' : Worker} (h : w.Matches η w') :
    Forall₂ η.entity w.own w'.own := by
  refine .cons h.global (.cons h.rootDomain (.cons h.activeDomain ?_))
  refine rel_append (rel_append ?_ ?_) (rel_flatMap h.stage.properties fun _ _ hx => hx.2.entities)
  · exact Naming.entity_toList_object h.stage.root
  · exact Naming.entity_toList_object h.stage.parent

theorem Frame.Matches.entities {f f' : Frame} (h : f.Matches η f') :
    Forall₂ η.entity f.entities f'.entities := by
  cases h with
  | code h => exact h.context.entities
  | call h =>
    exact rel_append (rel_append (rel_append h.callee.entities h.this.entities)
      (Value.forall₂_entities h.args)) (Value.forall₂_entities h.kept)
  | load h => exact .cons h .nil

theorem Value.forall₂_matches_self {l : List Value} (h : η.Fixes (l.flatMap Value.entities)) :
    Forall₂ (Value.Matches η) l l :=
  List.forall₂_same.mpr fun v hv =>
    Value.matches_self fun x hx => h x (List.mem_flatMap.mpr ⟨v, hv, hx⟩)

theorem Context.matches_self {c : Context} (h : η.Fixes c.entities) : c.Matches η c := by
  simp only [Context.entities, Naming.Fixes, List.mem_append, or_imp, forall_and] at h
  obtain ⟨⟨⟨⟨⟨hregisters, hstack⟩, hreturned⟩, hthis⟩, hscope⟩, hactivation⟩ := h
  exact
    { registers := Value.forall₂_matches_self hregisters
      stack := Value.forall₂_matches_self hstack
      pendingJump := rfl
      returned := .self fun v hv => Value.matches_self fun x hx =>
        hreturned x (List.mem_flatMap.mpr ⟨v, Option.mem_toList.mpr hv, hx⟩)
      this := Value.matches_self hthis
      scope := Scope.matches_self hscope
      constants := rfl
      activation := Naming.rel_object_self hactivation }

theorem Worker.matches_self {w : Worker} (h : η.Fixes w.own) : w.Matches η w := by
  simp only [Worker.own, Stage.entities, Naming.Fixes, List.mem_cons, List.mem_append, or_imp,
    forall_and, forall_eq] at h
  obtain ⟨hglobal, hroot, hactive, ⟨hclip, hparent⟩, hproperties⟩ := h
  exact
    { config := rfl
      global := hglobal
      rootDomain := hroot
      activeDomain := hactive
      callDepth := rfl
      stage :=
        { root := Naming.rel_object_self hclip
          parent := Naming.rel_object_self hparent
          keepsProperties := rfl
          properties := List.forall₂_same.mpr fun y hy => ⟨rfl, Value.matches_self fun x hx =>
            hproperties x (List.mem_flatMap.mpr ⟨y, hy, hx⟩)⟩
          events := rfl }
      loader := rfl
      clock := rfl
      files := rfl
      settings := rfl }

/-- Lists that match, beside what the embedding program keeps. -/
theorem Setting.outside_of_forall₂ {l l' outside outside' : List Entity}
    (h : Forall₂ η.entity l l') (hout : ∀ x, x ∈ outside ↔ x ∈ l ∨ x ∈ Γ.kept)
    (hout' : ∀ x, x ∈ outside' ↔ x ∈ l' ∨ x ∈ Γ.kept) : Γ.Outside η outside outside' where
  kept x hx := ⟨(hout x).mpr (Or.inr hx), (hout' x).mpr (Or.inr hx)⟩
  left x hx := by
    refine ((hout x).mp hx).imp_left fun hx => ?_
    obtain ⟨x', hx', hxx'⟩ := h.exists_of_mem hx
    exact ⟨x', (hout' x').mpr (Or.inl hx'), hxx'⟩
  right x' hx' := by
    refine ((hout' x').mp hx').imp_left fun hx' => ?_
    obtain ⟨x, hx, hxx'⟩ := h.flip.exists_of_mem hx'
    exact ⟨x, (hout x).mpr (Or.inl hx), hxx'⟩

theorem Worker.mem_entities {w : Worker} {x : Entity} :
    x ∈ w.entities ↔ x ∈ w.own ∨ x ∈ w.kept := by
  simp only [Worker.entities, Worker.own, List.mem_append, List.mem_cons]
  tauto

theorem Machine.mem_roots {frames : List Frame} {w : Worker} {x : Entity} :
    x ∈ roots frames w ↔ x ∈ w.own ++ frames.flatMap Frame.entities ∨ x ∈ w.kept := by
  rw [roots, List.mem_append, List.mem_append, Worker.mem_entities]
  tauto

/-- What is held in corresponding states while frames that match wait. -/
theorem Machine.outside_roots {frames frames' : List Frame}
    (hframes : Forall₂ (Frame.Matches η) frames frames') {s s' : State} (hs : Γ.Relates η s s') :
    Γ.Outside η (roots frames s.worker) (roots frames' s'.worker) := by
  refine Setting.outside_of_forall₂ (rel_append hs.worker.own
    (rel_flatMap hframes fun _ _ hf => hf.entities)) (fun x => ?_) fun x => ?_
  · rw [mem_roots, hs.kept.1]
  · rw [mem_roots, hs.kept.2]

/-! ## Invocations -/

namespace Invocation.Matches

variable {i i' : Invocation} (h : i.Matches η i')
include h

theorem unwound : i.unwound.Matches η i'.unwound := by
  have hscope : ∀ (bodies : List Cursor) {s s' : Scope}, s.Matches η s' →
      (bodies.foldl (fun s _ => s.pop) s).Matches η (bodies.foldl (fun s _ => s.pop) s') := by
    intro bodies
    induction bodies with
    | nil => exact id
    | cons body bodies ih => exact fun hs => ih hs.pop
  unfold Invocation.unwound
  rw [h.bodies]
  exact { h.context with scope := hscope _ h.context.scope }

theorem finish {ending ending' : Ending} (he : ending.Matches η ending') :
    (i.finish ending).Matches η (i'.finish ending') := .ended h.unwound he

theorem fail {e e' : ScriptError} (he : e.Matches η e') : (i.fail e).Matches η (i'.fail e') :=
  h.finish (.failed he)

theorem proceed : i.proceed.Matches η i'.proceed := by
  obtain ⟨c, bodies, main⟩ := i
  obtain ⟨c', bodies', main'⟩ := i'
  obtain ⟨hc, hbodies, hmain⟩ := h
  obtain rfl : bodies = bodies' := hbodies
  obtain rfl : main = main' := hmain
  have hjump : c.pendingJump = c'.pendingJump := hc.pendingJump
  have hcontext : Context.Matches η { c with pendingJump := none }
      { c' with pendingJump := none } := { hc with pendingJump := rfl }
  have hnext : ∀ bodies main, Invocation.Matches η ⟨_, bodies, main⟩ ⟨_, bodies, main⟩ :=
    fun _ _ => ⟨hcontext, rfl, rfl⟩
  unfold Invocation.proceed
  dsimp only
  rw [← hjump]
  cases bodies with
  | cons body outer =>
    dsimp only
    split
    · exact .go (hnext _ _)
    · refine (hnext _ _).fail (.same ?_)
      nofun
  | nil =>
    cases main with
    | none => exact .ended hc .completed
    | some block =>
      dsimp only
      split
      · exact .go (hnext _ _)
      · refine .ended hcontext (.failed (.same ?_))
        nofun

theorem enter {o o' : ObjectId} (ho : η.object o o') (body : Block) :
    (i.enter o body).Matches η (i'.enter o' body) where
  context := { h.context with scope := h.context.scope.push ho }
  bodies := congrArg (Cursor.start body :: ·) h.bodies
  main := h.main

theorem leave : i.leave.Matches η i'.leave := by
  unfold Invocation.leave
  rw [← h.bodies]
  split
  · exact proceed ⟨{ h.context with scope := h.context.scope.pop }, rfl, h.main⟩
  · exact .ended h.context .completed

theorem record?_eq : i.record? = i'.record? := by
  rw [Invocation.record?, Invocation.record?, h.bodies, h.main]

end Invocation.Matches

theorem Invocation.matches_start {c c' : Context} (h : c.Matches η c') (b : Block) :
    (Invocation.start c b).Matches η (Invocation.start c' b) := ⟨h, rfl, rfl⟩

theorem Worker.Matches.topContext {w w' : Worker} (h : w.Matches η w') :
    (topContext w).Matches η (topContext w') :=
  .start ⟨h.global, .nil⟩ (.object (h.stage.root.getD h.global))

/-! ## Steps -/

namespace Machine

variable {frames frames' : List Frame} {s s' : State}
  (hframes : Forall₂ (Frame.Matches η) frames frames') (hs : Γ.Relates η s s')
include hframes hs

theorem follow_answer {a a' : Answer} (ha : a.Matches η a') :
    Γ.Follow η ⟨.answer a, frames, s⟩ ⟨.answer a', frames', s'⟩ :=
  Setting.MachinesMatch.follow ⟨.answer ha, hframes, hs⟩

theorem follow_ofExec {α : Type} {R : Naming → α → α → Prop} {x x' : Exec α}
    (hx : Simulates Γ.Relates R η x x') {next next' : α → State → Machine}
    (hnext : ∀ η', η.Le η' → ∀ a a' t t', R η' a a' → Γ.Relates η' t t' →
      Γ.Follow η' (next a t) (next' a' t')) :
    Γ.Follow η (ofExec frames s x next) (ofExec frames' s' x' next') := by
  obtain ⟨η', hle, hs', hagree⟩ := hx s s' hs
  change Γ.Relates η' (x s).2 (x' s').2 at hs'
  change η'.Agree R (x s).1 (x' s').1 at hagree
  unfold ofExec
  revert hs' hagree
  generalize x s = r
  generalize x' s' = r'
  obtain ⟨r, t⟩ := r
  obtain ⟨r', t'⟩ := r'
  rintro hs' (ha | he)
  · exact (hnext η' hle _ _ t t' ha hs').mono hle
  · exact (follow_answer (forall₂_frames_mono hle hframes) hs' (.error he)).mono hle

theorem follow_load {d d' : DomainId} (hd : η.domain d d') (bytes : List UInt8)
    (version : UInt32) :
    Γ.Follow η (load .none frames s d bytes version)
      (load .none frames' s' d' bytes version) := by
  have hframes' := Forall₂.cons (Frame.Matches.load hs.worker.activeDomain) hframes
  have hs' : Γ.Relates η (s.inDomain d) (s'.inDomain d') :=
    { hs with worker := { hs.worker with activeDomain := hd } }
  unfold load
  dsimp only
  change Γ.Relates η (s.withWorker _) (s'.withWorker _) at hs'
  revert hs'
  generalize s.withWorker _ = t
  generalize s'.withWorker _ = t'
  intro hs'
  rw [← hs'.worker.loader]
  cases t.worker.loader with
  | embedded =>
    have hundefined : Value.Matches η .undefined .undefined := .same rfl
    exact follow_ofExec hframes' hs' (mirrors_pure hundefined).simulates
      fun _ hle _ _ _ _ hv ht => follow_answer (forall₂_frames_mono hle hframes') ht (.ok hv)
  | actions =>
    dsimp only
    split
    · next b _ =>
      have htop := Invocation.matches_start hs'.worker.topContext b
      exact Setting.MachinesMatch.follow ⟨.go htop, hframes', hs'⟩
    · refine follow_answer hframes' hs' (.error (.same ?_))
      nofun

omit hs in
theorem simulates_classOf (hΓ : Γ.IsFair) {d d' : DomainId} (hd : η.domain d d') (name : String) :
    Simulates Γ.Relates Value.Matches η (classOf .none frames d name)
      (classOf .none frames' d' name) := by
  have hroots : Mirrors Γ.Relates Γ.Outside η (Exec.worker (roots frames))
      (Exec.worker (roots frames')) := fun _ _ hs => ⟨hs, .ok (outside_roots hframes hs)⟩
  unfold classOf
  refine hroots.bind fun outside outside' hout =>
    (mirrors_ask (R := fun η => Option.Rel (Value.Matches η)) fun _ _ hs =>
      hΓ.class? hs hout hd name).bind fun v v' hv => ?_
  cases hv with
  | some hv => exact (mirrors_pure hv).simulates
  | none =>
    refine mirrors_global.bind fun global global' hglobal =>
      (mirrors_ask (R := Same) fun _ _ hs => hs.has_eq hglobal name).bindSame fun found => ?_
    split
    · exact simulates_getProperty hglobal name
    · refine (mirrors_throw (.same ?_)).simulates
      nofun

theorem follow_reply (hΓ : Γ.IsFair) {a a' : Reply} (ha : a.Matches η a') :
    Γ.Follow η (reply .none frames s a) (reply .none frames' s' a') := by
  cases ha with
  | value hv => exact follow_answer hframes hs (.ok hv)
  | call hcallee hthis hargs =>
    exact Setting.MachinesMatch.follow
      ⟨.call ⟨hcallee, hthis, hargs, .none, .nil⟩, hframes, hs⟩
  | load bytes version hd => exact follow_load hframes hs hd bytes version
  | classOf name hd =>
    exact follow_ofExec hframes hs (simulates_classOf hframes hΓ hd name)
      fun _ hle _ _ _ _ hv ht => follow_answer (forall₂_frames_mono hle hframes) ht (.ok hv)

omit hframes hs in
theorem mirrors_enterCall : Mirrors Γ.Relates Same η Exec.enterCall Exec.enterCall := by
  rintro ⟨s, w⟩ ⟨s', w'⟩ ⟨hstore, hw, hkept⟩
  change Γ.Relates η (Exec.enterCall ⟨s, w⟩).2 (Exec.enterCall ⟨s', w'⟩).2 ∧
    η.Agree Same (Exec.enterCall ⟨s, w⟩).1 (Exec.enterCall ⟨s', w'⟩).1
  have hdepth : w.callDepth = w'.callDepth := hw.callDepth
  have hconfig : w.config = w'.config := hw.config
  unfold Exec.enterCall
  dsimp only
  rw [hdepth, hconfig]
  split
  · exact ⟨⟨hstore, { hw with config := rfl, callDepth := rfl }, hkept⟩, .ok rfl⟩
  · refine ⟨⟨hstore, hw, hkept⟩, .error (.same ?_)⟩
    nofun

theorem follow_call (hΓ : Γ.IsFair) {r r' : Request} (hr : r.Matches η r') :
    Γ.Follow η (call .none frames s r) (call .none frames' s' r') := by
  have hcallable := hs.store.callable? hr.callee
  unfold call
  revert hcallable
  generalize s.store.callable? r.callee = callable
  generalize s'.store.callable? r'.callee = callable'
  rintro (hcallable | _)
  · refine follow_ofExec hframes hs mirrors_enterCall.simulates fun η₁ hle₁ _ _ t t' _ ht => ?_
    have hr₁ := hr.mono hle₁
    have hframes₁ := Forall₂.cons (Frame.Matches.call hr₁) (forall₂_frames_mono hle₁ hframes)
    cases hcallable.mono hle₁ with
    | closure hc =>
      refine follow_ofExec hframes₁ ht (simulates_openCall hr₁.this hr₁.args hc)
        fun η₂ hle₂ _ _ _ _ hcontext ht => ?_
      rw [← hc.body]
      exact Setting.MachinesMatch.follow
        ⟨.go (Invocation.matches_start hcontext _), forall₂_frames_mono hle₂ hframes₁, ht⟩
    | host hf =>
      exact follow_ofExec hframes₁ ht (simulates_host hr₁.this hr₁.args hf)
        fun η₂ hle₂ _ _ _ _ ha ht => follow_reply (forall₂_frames_mono hle₂ hframes₁) ht hΓ ha
  · dsimp only
    rw [hs.store.kind_eq hr.callee]
    refine follow_answer hframes hs (.error (.same ?_))
    nofun

theorem matches_settle {i i' : Invocation} (hi : i.Matches η i')
    {result result' : Except ScriptError Outcome} (h : η.Agree Outcome.Matches result result') :
    Γ.MachinesMatch η (settle frames s i result) (settle frames' s' i' result') := by
  cases h with
  | error he => exact ⟨hi.fail he, hframes, hs⟩
  | ok h =>
    cases h with
    | next => exact ⟨hi.proceed, hframes, hs⟩
    | finish hv => exact ⟨hi.finish (.returned hv), hframes, hs⟩
    | enter body ho => exact ⟨.go (hi.enter ho body), hframes, hs⟩
    | call hr => exact ⟨.call hr, .cons (.code hi) hframes, hs⟩

theorem follow_perform {i i' : Invocation} (hi : i.Matches η i') (a : Action) :
    Γ.Follow η (perform .none frames s i a) (perform .none frames' s' i' a) := by
  obtain ⟨c, bodies, main⟩ := i
  obtain ⟨c', bodies', main'⟩ := i'
  obtain ⟨hc, hbodies, hmain⟩ := hi
  obtain rfl : bodies = bodies' := hbodies
  obtain rfl : main = main' := hmain
  obtain ⟨η', hle, hp, hagree⟩ := simulates_perform a (c, s) (c', s') ⟨hc, hs⟩
  have hi : Invocation.Matches η' ⟨_, bodies, main⟩ ⟨_, bodies, main⟩ := ⟨hp.context, rfl, rfl⟩
  exact ⟨η', hle, matches_settle (forall₂_frames_mono hle hframes) hp.state hi hagree⟩

omit hframes hs in
theorem matches_constructed {created created' : Option ObjectId}
    (hcreated : Option.Rel η.object created created') {a a' : Answer} (ha : a.Matches η a') :
    (constructed created a).Matches η (constructed created' a') := by
  cases ha with
  | error he => cases hcreated <;> exact .error he
  | @ok v _ hv =>
    cases hv with
    | object ho => exact .ok (.object ho)
    | same hv =>
      have hsame : v.Matches η v := .same hv
      cases hcreated with
      | none => cases v <;> exact .ok hsame
      | some ho =>
        cases v with
        | object => cases hv
        | _ => exact .ok (.object ho)

omit hframes in
theorem matches_resume {a a' : Answer} (ha : a.Matches η a') {f f' : Frame}
    (hf : f.Matches η f') :
    (resume s a f).1.Matches η (resume s' a' f').1 ∧
      Γ.Relates η (resume s a f).2 (resume s' a' f').2 := by
  cases hf with
  | @code i i' hi =>
    cases ha with
    | ok hv => exact ⟨Invocation.Matches.proceed { hi with context := hi.context.push hv }, hs⟩
    | error he => exact ⟨hi.fail he, hs⟩
  | call hr =>
    have hdepth := congrArg (· - 1) hs.worker.callDepth
    exact ⟨.answer (matches_constructed hr.created ha),
      { hs with worker := { hs.worker with callDepth := hdepth } }⟩
  | load hd => exact ⟨.answer ha, { hs with worker := { hs.worker with activeDomain := hd } }⟩

omit hframes hs

variable {m m' : Machine} (hΓ : Γ.IsFair)

theorem isHalted_eq (h : Γ.MachinesMatch η m m') : m.isHalted = m'.isHalted := by
  obtain ⟨control, frames, s⟩ := m
  obtain ⟨control', frames', s'⟩ := m'
  obtain ⟨hcontrol, hframes, hs⟩ := h
  dsimp only at hcontrol hframes
  cases hcontrol <;> cases hframes <;> rfl

include hΓ

/-- **A step** of machines that match leads to machines that do so. -/
theorem follow_step (h : Γ.MachinesMatch η m m') : Γ.Follow η (m.step .none) (m'.step .none) := by
  obtain ⟨control, frames, s⟩ := m
  obtain ⟨control', frames', s'⟩ := m'
  obtain ⟨hcontrol, hframes, hs⟩ := h
  dsimp only at hcontrol hframes hs
  cases hcontrol with
  | go hi =>
    simp only [step]
    rw [← hi.record?_eq]
    split
    · exact follow_perform hframes hs hi _
    · exact Setting.MachinesMatch.follow ⟨hi.leave, hframes, hs⟩
  | call hr => exact follow_call hframes hs hΓ hr
  | ended hc hending =>
    cases hframes with
    | nil => exact Setting.MachinesMatch.follow ⟨.ended hc hending, .nil, hs⟩
    | cons hf hframes =>
      exact Setting.MachinesMatch.follow ⟨.answer (hending.answer hc), .cons hf hframes, hs⟩
  | answer ha =>
    cases hframes with
    | nil => exact Setting.MachinesMatch.follow ⟨.answer ha, .nil, hs⟩
    | cons hf hframes =>
      obtain ⟨hcontrol, hs⟩ := matches_resume hs ha hf
      exact Setting.MachinesMatch.follow ⟨hcontrol, hframes, hs⟩

/-- **Machines that match** go on matching, however long they run. -/
theorem follow_run (h : Γ.MachinesMatch η m m') (n : ℕ) :
    Γ.Follow η (m.run .none n) (m'.run .none n) := by
  induction n generalizing η m m' with
  | zero => exact h.follow
  | succ n ih =>
    rw [run, run, ← isHalted_eq h]
    split
    · exact h.follow
    · obtain ⟨η', hle, hstep⟩ := follow_step hΓ h
      exact (ih hstep).mono hle

end Machine

end ActionVm
