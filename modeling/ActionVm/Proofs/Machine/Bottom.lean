import ActionVm.Proofs.Machine.Turns
import Mathlib.Logic.Relation

/-!
# What waits at the bottom

A step looks at what waits on top, and nothing below has a part in it: two machines that differ in
what waits at their bottom do the same until that is on top. Only a look-up of a class depends on
all that waits, as it finds the classes of what is held.

* `Store.MadeInside`: the domains around a domain, whether they live or not;
* `Machine.Parallel`: two machines that differ in what waits at their bottom;
* `Machine.lookup?`: the class that a call looks up;
* `Machine.SameDomains`, `Machine.classOf_congr`: a look-up depends on which of the domains around
  live;
* **`Machine.parallel_step`**: a step of two such machines.
-/

namespace ActionVm

/-! ## Look-ups of classes -/

namespace Store

variable {s : Store} {live live' : Marks}

/-- The domain was made inside the other one, or inside one that was made inside it, and so on. -/
def MadeInside (s : Store) : DomainId → DomainId → Prop :=
  Relation.TransGen fun d p => (s.domain d).parent = some p

/-- A look-up depends on which of the domains around live, and on nothing else that does. -/
theorem classFrom?_congr (d : DomainId) (name : String)
    (h : ∀ p, s.MadeInside d p → live.has (.domain p) = live'.has (.domain p)) :
    s.classFrom? live d name = s.classFrom? live' d name := by
  induction d using (measure DomainId.index).wf.induction with
  | _ d ih =>
    have hparent : s.liveParent? live d = s.liveParent? live' d := by
      unfold liveParent?
      cases hp : (s.domain d).parent with
      | none => rfl
      | some p => rw [Option.filter_some, Option.filter_some, h p (.single hp)]
    rw [classFrom?, classFrom?, ← hparent]
    split
    · rfl
    · split
      · rfl
      · next p hlive =>
        have hp : (s.domain d).parent = some p := (Option.filter_eq_some_iff.mp hlive).1
        split_ifs with hlt
        · exact ih p hlt fun q hq => h q (.head hp hq)
        · rfl

theorem class?_congr {outside outside' : List Entity} (d : DomainId) (name : String)
    (h : ∀ p, s.MadeInside d p →
      (s.live outside).has (.domain p) = (s.live outside').has (.domain p)) :
    s.class? outside d name = s.class? outside' d name := by
  unfold class?
  rw [classFrom?_congr d name h]

end Store

namespace Machine

variable {e : Embedding} {F F' above : List Frame} {s : State}

/-- The same domains around a domain live when either of two lists waits. -/
def SameDomains (frames frames' : List Frame) (s : State) (d : DomainId) : Prop :=
  ∀ p, s.store.MadeInside d p → (s.store.live (roots frames s.worker)).has (.domain p) =
    (s.store.live (roots frames' s.worker)).has (.domain p)

theorem classOf_congr {frames frames' : List Frame} {d : DomainId}
    (h : SameDomains frames frames' s d) (name : String) :
    classOf e frames d name s = classOf e frames' d name s := by
  unfold classOf
  rw [Exec.bind_worker, Exec.bind_worker, Exec.bind_ask, Exec.bind_ask, Store.class?_congr d name h]

/-- The class that a call looks up at once, and the state in which it does. -/
def lookup? (e : Embedding) (s : State) (r : Request) : Option (DomainId × String × State) :=
  match s.store.callable? r.callee with
  | some (.host f) =>
    match f.run e r.this r.args s.entered with
    | (.ok (.classOf d name), s') => some (d, name, s')
    | _ => none
  | _ => none

/-! ## Machines with different bottoms -/

/-- The machines differ in what waits at the bottom, which is `F` for one and `F'` for the other. -/
def Parallel (F F' : List Frame) (m m' : Machine) : Prop :=
  ∃ control above s, m = ⟨control, above ++ F, s⟩ ∧ m' = ⟨control, above ++ F', s⟩

theorem parallel_mk (control : Control) (above : List Frame) (s : State) :
    Parallel F F' ⟨control, above ++ F, s⟩ ⟨control, above ++ F', s⟩ :=
  ⟨control, above, s, rfl, rfl⟩

theorem parallel_ofExec (above : List Frame) {α : Type} {x x' : Exec α}
    {next next' : α → State → Machine} (hx : x s = x' s)
    (h : ∀ a s', x s = (.ok a, s') → Parallel F F' (next a s') (next' a s')) :
    Parallel F F' (ofExec (above ++ F) s x next) (ofExec (above ++ F') s x' next') := by
  unfold ofExec
  rw [← hx]
  rcases hr : x s with ⟨error | a, s'⟩
  · exact parallel_mk _ above s'
  · exact h a s' hr

theorem parallel_settle (i : Invocation) (result : Except ScriptError Outcome) :
    Parallel F F' (settle (above ++ F) s i result) (settle (above ++ F') s i result) := by
  rcases result with error | _ | v | ⟨scope, body⟩ | r
  · exact parallel_mk _ above s
  · exact parallel_mk _ above s
  · exact parallel_mk _ above s
  · exact parallel_mk _ above s
  · exact parallel_mk _ (.code i :: above) s

theorem parallel_load (d : DomainId) (bytes : List UInt8) (version : UInt32) :
    Parallel F F' (load e (above ++ F) s d bytes version)
      (load e (above ++ F') s d bytes version) := by
  unfold load
  dsimp only
  split
  · refine parallel_ofExec (.load s.worker.activeDomain :: above) rfl fun v s' _ => ?_
    exact parallel_mk _ (.load s.worker.activeDomain :: above) s'
  · split
    · exact parallel_mk _ (.load s.worker.activeDomain :: above) _
    · exact parallel_mk _ (.load s.worker.activeDomain :: above) _

theorem parallel_reply (above : List Frame) (a : Reply)
    (hclass : ∀ d name, a = .classOf d name → SameDomains (above ++ F) (above ++ F') s d) :
    Parallel F F' (reply e (above ++ F) s a) (reply e (above ++ F') s a) := by
  cases a with
  | value v => exact parallel_mk _ above s
  | call callee this args => exact parallel_mk _ above s
  | load d bytes version => exact parallel_load d bytes version
  | classOf d name =>
    exact parallel_ofExec above (classOf_congr (hclass d name rfl) name) fun v s' _ =>
      parallel_mk _ above s'

/-- A call does the same if no other domain lives around the one in which it looks a class up. -/
theorem parallel_call (r : Request)
    (hclass : ∀ d name s', lookup? e s r = some (d, name, s') →
      SameDomains (.call r :: above ++ F) (.call r :: above ++ F') s' d) :
    Parallel F F' (call e (above ++ F) s r) (call e (above ++ F') s r) := by
  rcases hc : s.store.callable? r.callee with _ | callable
  · simp only [call, hc]
    exact parallel_mk _ above s
  · rw [call_eq hc, call_eq hc]
    split_ifs
    · cases callable with
      | closure c =>
        exact parallel_ofExec (.call r :: above) rfl fun context s' _ =>
          parallel_mk _ (.call r :: above) s'
      | host f =>
        refine parallel_ofExec (.call r :: above) rfl fun a s' hf => ?_
        refine parallel_reply (.call r :: above) a ?_
        rintro d name rfl
        refine hclass d name s' ?_
        simp only [lookup?, hc, hf]
    · exact parallel_mk _ above s

/-- **A step does the same whatever waits at the bottom**, unless it hands an answer to that. -/
theorem parallel_step {control : Control} (hF : F ≠ []) (hF' : F' ≠ [])
    (hanswer : ∀ a, control = .answer a → above ≠ [])
    (hclass : ∀ r d name s', control = .call r → lookup? e s r = some (d, name, s') →
      SameDomains (.call r :: above ++ F) (.call r :: above ++ F') s' d) :
    Parallel F F' (step e ⟨control, above ++ F, s⟩) (step e ⟨control, above ++ F', s⟩) := by
  cases control with
  | go i =>
    simp only [step]
    split
    · exact parallel_settle _ _
    · exact parallel_mk _ above s
  | ended c ending =>
    rcases above with _ | ⟨frame, above⟩
    · obtain ⟨frame, frames, rfl⟩ := List.exists_cons_of_ne_nil hF
      obtain ⟨frame', frames', rfl⟩ := List.exists_cons_of_ne_nil hF'
      exact parallel_mk _ [] s
    · exact parallel_mk _ (frame :: above) s
  | call r => exact parallel_call r fun d name s' => hclass r d name s' rfl
  | answer a =>
    obtain ⟨frame, above, rfl⟩ := List.exists_cons_of_ne_nil (hanswer a rfl)
    exact parallel_mk _ above _

end Machine

/-! ## The invocation at the bottom -/

/-- The same with another invocation that goes on, or with another context at its end. -/
def Control.recast (φ : Invocation → Invocation) (ψ : Context → Context) : Control → Control
  | .go i => .go (φ i)
  | .ended c ending => .ended (ψ c) ending
  | .call r => .call r
  | .answer a => .answer a

namespace Machine

variable {e : Embedding} {m m' : Machine} {s : State} {φ : Invocation → Invocation}
  {ψ : Context → Context}

/-- The machines differ in the invocation at their bottom, which is changed by `φ`, and in the
context in which it ends, which is changed by `ψ`. -/
inductive Recast (φ : Invocation → Invocation) (ψ : Context → Context) : Machine → Machine → Prop
  /-- It has control. -/
  | go (i : Invocation) (s : State) : Recast φ ψ ⟨.go i, [], s⟩ ⟨.go (φ i), [], s⟩
  /-- It waits. -/
  | wait (control : Control) (above : List Frame) (i : Invocation) (s : State) :
    Recast φ ψ ⟨control, above ++ [.code i], s⟩ ⟨control, above ++ [.code (φ i)], s⟩
  /-- It is over. -/
  | ended (c : Context) (ending : Ending) (s : State) :
    Recast φ ψ ⟨.ended c ending, [], s⟩ ⟨.ended (ψ c) ending, [], s⟩

theorem Parallel.recast {i : Invocation} (h : Parallel [.code i] [.code (φ i)] m m') :
    Recast φ ψ m m' := by
  obtain ⟨control, above, s, rfl, rfl⟩ := h
  exact .wait control above i s

/-- A machine that performs an action, by what the action does. -/
theorem perform_of_result {i : Invocation} {a : Action} {s s' : State} {c : Context}
    {result : Except ScriptError Outcome}
    (h : (ActionVm.perform e a).run.run (i.context, s) = (result, c, s')) (frames : List Frame) :
    perform e frames s i a = settle frames s' ⟨c, i.bodies, i.main⟩ result := by
  rw [perform, show ActionVm.perform e a (i.context, s) = _ from h]

theorem recast_control {control : Control} {b : Option Block} (h : control.Continues b)
    (s : State) : Recast φ ψ ⟨control, [], s⟩ ⟨control.recast φ ψ, [], s⟩ := by
  cases control with
  | go j => exact .go j s
  | ended c ending => exact .ended c ending s
  | call _ | answer _ => exact h.elim

end Machine

/-- A change of invocations after which they go on with the same actions, and in the same way after
an answer and after a body, if their contexts are as `Q` says. -/
structure Recasts (Q : Context → Prop) (φ : Invocation → Invocation) (ψ : Context → Context) :
    Prop where
  action : ∀ i, (φ i).record?.map Placed.action = i.record?.map Placed.action
  enter : ∀ i scope body, (φ i).enter scope body = φ (i.enter scope body)
  unwound : ∀ i, (φ i).unwound = ψ i.unwound
  resume : ∀ i v, Q i.context →
    Invocation.proceed { φ i with context := (φ i).context.push v } =
      (Invocation.proceed { i with context := i.context.push v }).recast φ ψ
  leave : ∀ i, Q i.context → (φ i).leave = i.leave.recast φ ψ

namespace Recasts

open Machine

variable {e : Embedding} {m m' : Machine} {s : State} {φ : Invocation → Invocation}
  {ψ : Context → Context} {Q : Context → Prop}

theorem finish (h : Recasts Q φ ψ) (i : Invocation) (ending : Ending) :
    (φ i).finish ending = (i.finish ending).recast φ ψ :=
  congrArg (Control.ended · ending) (h.unwound i)

theorem settle (h : Recasts Q φ ψ) (i : Invocation) (result : Except ScriptError Outcome)
    (hproceed : result = .ok .next → (φ i).proceed = i.proceed.recast φ ψ) (s : State) :
    Recast φ ψ (Machine.settle [] s i result) (Machine.settle [] s (φ i) result) := by
  rcases result with error | _ | v | ⟨scope, body⟩ | r
  · rw [Machine.settle, Machine.settle, Invocation.fail, Invocation.fail, h.finish]
    exact recast_control (i.continues_finish _ none) s
  · rw [Machine.settle, Machine.settle, hproceed rfl]
    exact recast_control i.continues_proceed s
  · rw [Machine.settle, Machine.settle, h.finish]
    exact recast_control (i.continues_finish _ none) s
  · rw [Machine.settle, Machine.settle, h.enter]
    exact .go _ s
  · exact .wait _ [] i s

theorem step_answer (h : Recasts Q φ ψ) {i : Invocation} (hi : Q i.context) (a : Answer)
    (s : State) :
    Recast φ ψ (step e ⟨.answer a, [.code i], s⟩) (step e ⟨.answer a, [.code (φ i)], s⟩) := by
  cases a with
  | ok v =>
    simp only [step, Machine.resume, h.resume i v hi]
    exact recast_control (Invocation.continues_proceed _) s
  | error error =>
    simp only [step, Machine.resume, Invocation.fail, h.finish]
    exact recast_control (i.continues_finish _ none) s

/-- **A step of two machines that differ in the invocation at their bottom.** Where that has control,
it depends on the action at hand. -/
theorem step (h : Recasts Q φ ψ) (hr : Recast φ ψ m m')
    (hcontrol : ∀ i, m.control = .go i → Q i.context)
    (hframes : ∀ i, .code i ∈ m.frames → Q i.context)
    (hgo : ∀ i record, m.control = .go i → m.frames = [] → i.record? = some record →
      Recast φ ψ (Machine.perform e [] m.state i record.action)
        (Machine.perform e [] m.state (φ i) record.action))
    (hclass : ∀ r d name s', m.control = .call r → lookup? e m.state r = some (d, name, s') →
      SameDomains (.call r :: m.frames) (.call r :: m'.frames) s' d) :
    Recast φ ψ (m.step e) (m'.step e) := by
  cases hr with
  | go i s =>
    have haction := h.action i
    rcases hrecord : i.record? with _ | record
    · obtain hnone : (φ i).record? = none := by simpa [hrecord] using haction
      simp only [Machine.step, hrecord, hnone, h.leave i (hcontrol i rfl)]
      exact recast_control i.continues_leave s
    · obtain ⟨record', hsome, hact⟩ : ∃ record', (φ i).record? = some record' ∧
          record'.action = record.action := by simpa [hrecord] using haction
      simp only [Machine.step, hrecord, hsome, hact]
      exact hgo i record rfl rfl hrecord
  | wait control above i s =>
    by_cases hanswer : ∃ a, control = .answer a ∧ above = []
    · obtain ⟨a, rfl, rfl⟩ := hanswer
      exact h.step_answer (hframes i (by simp)) a s
    · refine (parallel_step (by simp) (by simp) (fun a ha hnil => hanswer ⟨a, ha, hnil⟩)
        fun r d name s' hc hl => ?_).recast
      exact hclass r d name s' hc hl
  | ended c ending s => exact .ended c ending s

end Recasts

end ActionVm
