import ActionVm.Proofs.Machine.Loops
import ActionVm.Proofs.Machine.Steady

/-!
# Turns

One step of a machine, by what it does with what waits.

* `State.entered`, `State.left`: one more call, and one less;
* `Machine.callee`: a call that counts already, with **`Machine.call_eq`**: a call counts before
  anything of the callee is run;
* **`Machine.Turn`**: what a step does, with **`Machine.turn_step`**;
* **`Machine.step_frames`**: a step lets more wait, or hands an answer to what waits on top.
-/

namespace ActionVm

namespace State

/-- One more call is nested. -/
def entered (s : State) : State := s.withWorker fun w => { w with callDepth := w.callDepth + 1 }

/-- One call less is nested. -/
def left (s : State) : State := s.withWorker fun w => { w with callDepth := w.callDepth - 1 }

/-- Another domain is active. -/
def inDomain (s : State) (d : DomainId) : State :=
  s.withWorker fun w => { w with activeDomain := d }

end State

/-- The action at hand defines functions only with bodies that have the property. -/
def Invocation.DefinesIn (P : Block → Prop) (i : Invocation) : Prop :=
  ∀ record ∈ i.record?, record.action.DefinesIn P

/-- An invocation of a block goes on or is over. -/
def Control.Continues (b : Option Block) : Control → Prop
  | .go j => j.block? = b
  | .ended _ _ => True
  | _ => False

theorem Invocation.continues_finish (i : Invocation) (ending : Ending) (b : Option Block) :
    (i.finish ending).Continues b := trivial

theorem Invocation.continues_proceed (i : Invocation) : i.proceed.Continues i.block? := by
  rcases hi : i.cursors with _ | ⟨c, outer⟩
  · rw [proceed_of_nil hi]
    trivial
  · rcases hc : c.advance i.context.pendingJump with target | c'
    · obtain ⟨context, hp⟩ := proceed_of_error hi hc
      rw [hp]
      trivial
    · obtain ⟨j, hp, -, hj, -⟩ := proceed_of_ok hi hc
      rw [hp]
      exact hj

theorem Invocation.continues_leave (i : Invocation) : i.leave.Continues i.block? := by
  unfold leave
  split
  · exact continues_proceed _
  · trivial

namespace Machine

variable {e : Embedding} {P : Block → Prop} {frames : List Frame} {s : State}

/-! ## Calls -/

/-- The state after a change that may fail, and what follows on it. -/
theorem ofExec_eq {α : Type} {x : Exec α} (hx : e.Steady P → Keeps (State.Steady P) x)
    (frames : List Frame) (s : State) (next : α → State → Machine) :
    ∃ s', (e.Steady P → s.Steady P s') ∧
      ((∃ a, ofExec frames s x next = next a s') ∨
        ∃ error, ofExec frames s x next = ⟨.answer (.error error), frames, s'⟩) := by
  have hs : e.Steady P → s.Steady P (x s).2 := fun he => hx he s
  refine ⟨(x s).2, hs, ?_⟩
  unfold ofExec
  rcases x s with ⟨error | a, s'⟩
  · exact Or.inr ⟨error, rfl⟩
  · exact Or.inl ⟨a, rfl⟩

/-- A call that counts already: a script function starts, and a host function runs. -/
def callee (e : Embedding) (frames : List Frame) (s : State) (r : Request) : Callable → Machine
  | .closure c =>
    ofExec frames s (openCall e c r.this r.args) fun context s =>
      ⟨.go (.start context c.body), frames, s⟩
  | .host f => ofExec frames s (f.run e r.this r.args) fun answer s => reply e frames s answer

/-- **A call counts before anything of the callee is run**, and where no more may be nested nothing
else happens. -/
theorem call_eq {r : Request} {callable : Callable}
    (h : s.store.callable? r.callee = some callable) :
    call e frames s r =
      if s.worker.callDepth < s.worker.config.maxCallDepth then
        callee e (.call r :: frames) s.entered r callable
      else ⟨.answer (.error .stackOverflow), frames, s⟩ := by
  have henter : Exec.enterCall s =
      if s.worker.callDepth < s.worker.config.maxCallDepth then (.ok (), s.entered)
      else (.error .stackOverflow, s) := rfl
  unfold call
  simp only [h]
  rw [ofExec, henter]
  split_ifs with hd
  · cases callable <;> rfl
  · rfl

/-! ## Loaded code -/

/-- What becomes of bytes that are to be run in a domain: an answer, or a block that was decoded. -/
structure Loads (e : Embedding) (P : Block → Prop) (frames : List Frame) (s : State) (d : DomainId)
    (m : Machine) : Prop where
  frames : m.frames = .load s.worker.activeDomain :: frames
  state : e.Steady P → (s.inDomain d).Steady P m.state
  control : (∃ a, m.control = .answer a) ∨
    ∃ c b bytes, m.control = .go (.start c b) ∧ decodeActions bytes = .ok b

theorem loads_load (d : DomainId) (bytes : List UInt8) (version : UInt32) :
    Loads e P frames s d (load e frames s d bytes version) := by
  unfold load
  dsimp only
  split
  · change Loads e P frames s d (ofExec _ (s.inDomain d) _ _)
    obtain ⟨s', hs', h⟩ := ofExec_eq (fun he => he.load bytes version)
      (.load s.worker.activeDomain :: frames) (s.inDomain d)
      fun v s' => ⟨.answer (.ok v), .load s.worker.activeDomain :: frames, s'⟩
    rcases h with ⟨v, h⟩ | ⟨error, h⟩
    · rw [h]
      exact ⟨rfl, hs', Or.inl ⟨_, rfl⟩⟩
    · rw [h]
      exact ⟨rfl, hs', Or.inl ⟨_, rfl⟩⟩
  · split
    · next b hb => exact ⟨rfl, fun _ => refl_of (State.Steady P) _, Or.inr ⟨_, b, bytes, rfl, hb⟩⟩
    · exact ⟨rfl, fun _ => refl_of (State.Steady P) _, Or.inl ⟨_, rfl⟩⟩

/-! ## Steps -/

/-- What a step does with what waits and with the state. The states are related if the embedding
program leaves calls and domains alone. -/
inductive Turn (e : Embedding) (P : Block → Prop) : Machine → Machine → Prop where
  /-- A record is performed, or a block is left. -/
  | act {i : Invocation} {control : Control} {frames : List Frame} {s s' : State} :
    control.Continues i.block? → (e.Steady P → i.DefinesIn P → s.Steady P s') →
    Turn e P ⟨.go i, frames, s⟩ ⟨control, frames, s'⟩
  /-- A record asks for a call, for which its invocation waits. -/
  | wait {i j : Invocation} {r : Request} {frames : List Frame} {s s' : State} :
    j.block? = i.block? → (e.Steady P → i.DefinesIn P → s.Steady P s') →
    Turn e P ⟨.go i, frames, s⟩ ⟨.call r, .code j :: frames, s'⟩
  /-- What comes of an invocation is an answer for what waits. -/
  | finish {c : Context} {ending : Ending} {frame : Frame} {frames : List Frame} {s : State} :
    Turn e P ⟨.ended c ending, frame :: frames, s⟩ ⟨.answer (ending.answer c), frame :: frames, s⟩
  /-- A call is refused. -/
  | refuse {r : Request} {error : ScriptError} {frames : List Frame} {s : State} :
    Turn e P ⟨.call r, frames, s⟩ ⟨.answer (.error error), frames, s⟩
  /-- A call counts, and a script function starts, or a host function has run. -/
  | enter {r : Request} {control : Control} {frames : List Frame} {s s' : State} :
    s.worker.callDepth < s.worker.config.maxCallDepth →
    ((∃ a, control = .answer a) ∨ (∃ r, control = .call r) ∨
      ∃ c b, control = .go (.start c b) ∧ (s.store.HasBodies P → P b)) →
    (e.Steady P → s.entered.Steady P s') →
    Turn e P ⟨.call r, frames, s⟩ ⟨control, .call r :: frames, s'⟩
  /-- A call counts, and a host function loads bytes. -/
  | load {r : Request} {d : DomainId} {frames : List Frame} {s s' : State} {m : Machine} :
    s.worker.callDepth < s.worker.config.maxCallDepth →
    (e.Steady P → s.entered.Steady P s') → Loads e P (.call r :: frames) s' d m →
    Turn e P ⟨.call r, frames, s⟩ m
  /-- An invocation goes on with an answer. -/
  | proceed {a : Answer} {i : Invocation} {control : Control} {frames : List Frame} {s : State} :
    control.Continues i.block? → Turn e P ⟨.answer a, .code i :: frames, s⟩ ⟨control, frames, s⟩
  /-- A call counts no longer. -/
  | leaveCall {a a' : Answer} {r : Request} {frames : List Frame} {s : State} :
    Turn e P ⟨.answer a, .call r :: frames, s⟩ ⟨.answer a', frames, s.left⟩
  /-- The domain from before is active again. -/
  | leaveLoad {a : Answer} {d : DomainId} {frames : List Frame} {s : State} :
    Turn e P ⟨.answer a, .load d :: frames, s⟩ ⟨.answer a, frames, s.inDomain d⟩
  | halted {m : Machine} : m.isHalted = true → Turn e P m m

/-- An action is performed alone, or it is that of the record at hand. -/
theorem turn_perform {i : Invocation} {a : Action} (ha : i.DefinesIn P → a.DefinesIn P) :
    Turn e P ⟨.go i, frames, s⟩ (perform e frames s i a) := by
  have hsteady : e.Steady P → i.DefinesIn P →
      s.Steady P ((ActionVm.perform e a).run.run (i.context, s)).2.2 :=
    fun he hi => keeps_perform he.within (ha hi) (i.context, s)
  unfold perform
  dsimp only
  split
  next result context s' h =>
  rw [show ((ActionVm.perform e a).run.run (i.context, s)) = _ from h] at hsteady
  rcases result with error | _ | v | ⟨scope, body⟩ | r
  · exact .act (Invocation.continues_finish _ _ _) hsteady
  · exact .act (Invocation.continues_proceed ⟨context, i.bodies, i.main⟩) hsteady
  · exact .act (Invocation.continues_finish _ _ _) hsteady
  · exact .act rfl hsteady
  · exact .wait rfl hsteady

/-- What a host function replies. -/
theorem turn_reply {r : Request} {s' : State}
    (hd : s.worker.callDepth < s.worker.config.maxCallDepth)
    (hs' : e.Steady P → s.entered.Steady P s') (answer : Reply) :
    Turn e P ⟨.call r, frames, s⟩ (reply e (.call r :: frames) s' answer) := by
  cases answer with
  | value v => exact .enter hd (Or.inl ⟨_, rfl⟩) hs'
  | call callee this args => exact .enter hd (Or.inr (Or.inl ⟨_, rfl⟩)) hs'
  | load d bytes version => exact .load hd hs' (loads_load d bytes version)
  | classOf d name =>
    obtain ⟨s'', hs'', hx⟩ := ofExec_eq
      (fun he => keeps_classOf he.within (.call r :: frames) d name)
      (.call r :: frames) s' fun v s => ⟨.answer (.ok v), .call r :: frames, s⟩
    have hsteady := fun he => trans_of (State.Steady P) (hs' he) (hs'' he)
    rcases hx with ⟨v, hx⟩ | ⟨error, hx⟩
    · rw [reply, hx]
      exact .enter hd (Or.inl ⟨_, rfl⟩) hsteady
    · rw [reply, hx]
      exact .enter hd (Or.inl ⟨_, rfl⟩) hsteady

theorem turn_callee {r : Request} {callable : Callable}
    (h : s.store.callable? r.callee = some callable)
    (hd : s.worker.callDepth < s.worker.config.maxCallDepth) :
    Turn e P ⟨.call r, frames, s⟩ (callee e (.call r :: frames) s.entered r callable) := by
  cases callable with
  | closure c =>
    obtain ⟨s', hs', ⟨context, hx⟩ | ⟨error, hx⟩⟩ := ofExec_eq (e := e) (P := P)
      (fun _ => keeps_openCall e c r.this r.args) (.call r :: frames) s.entered
      fun context s => ⟨.go (.start context c.body), .call r :: frames, s⟩
    · rw [callee, hx]
      refine .enter hd (Or.inr (Or.inr ⟨context, c.body, rfl, fun hbodies => ?_⟩)) hs'
      obtain ⟨o, ho, hc⟩ := Option.bind_eq_some_iff.mp h
      refine hbodies o c ?_
      unfold Object.callable? at hc
      split at hc
      · next hp =>
        cases hc
        exact hp
      · cases hc
    · rw [callee, hx]
      exact .enter hd (Or.inl ⟨_, rfl⟩) hs'
  | host f =>
    obtain ⟨s', hs', ⟨answer, hx⟩ | ⟨error, hx⟩⟩ := ofExec_eq
      (fun he => keeps_host he.within r.this r.args f) (.call r :: frames) s.entered
      fun answer s => reply e (.call r :: frames) s answer
    · rw [callee, hx]
      exact turn_reply hd hs' answer
    · rw [callee, hx]
      exact .enter hd (Or.inl ⟨_, rfl⟩) hs'

/-- **A step is a turn.** -/
theorem turn_step (e : Embedding) (P : Block → Prop) (m : Machine) : Turn e P m (m.step e) := by
  obtain ⟨control, frames, s⟩ := m
  rcases control with i | ⟨c, ending⟩ | r | a
  · simp only [step]
    split
    · next record hr => exact turn_perform fun hi => hi record hr
    · exact .act i.continues_leave fun _ _ => refl_of (State.Steady P) _
  · cases frames with
    | nil => exact .halted rfl
    | cons frame frames => exact .finish
  · change Turn e P _ (call e frames s r)
    cases hc : s.store.callable? r.callee with
    | none =>
      unfold call
      simp only [hc]
      exact .refuse
    | some callable =>
      rw [call_eq hc]
      split_ifs with hd
      · exact turn_callee hc hd
      · exact .refuse
  · cases frames with
    | nil => exact .halted rfl
    | cons frame frames =>
      cases frame with
      | code i =>
        cases a with
        | ok v => exact .proceed (Invocation.continues_proceed _)
        | error error => exact .proceed (Invocation.continues_finish _ _ _)
      | call r => exact .leaveCall
      | load d => exact .leaveLoad

/-- **A step lets more wait**, or it hands an answer to what waits on top. -/
theorem step_frames (e : Embedding) (m : Machine) :
    (∃ more, (m.step e).frames = more ++ m.frames) ∨
      ∃ a frame, m.control = .answer a ∧ m.frames = frame :: (m.step e).frames := by
  have h := turn_step e (fun _ => True) m
  generalize m.step e = m' at h
  cases h with
  | act | finish | refuse => exact Or.inl ⟨[], rfl⟩
  | wait | enter => exact Or.inl ⟨[_], rfl⟩
  | load _ _ h => exact Or.inl ⟨[_, _], h.frames⟩
  | proceed | leaveCall | leaveLoad => exact Or.inr ⟨_, _, rfl, rfl⟩
  | halted => exact Or.inl ⟨[], rfl⟩

end Machine

end ActionVm
