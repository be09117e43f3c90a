import ActionVm.Machine.Actions

/-!
# What actions leave alone

Most of what an action does happens on the operand stack and in the state.

* `Act.Operates`: nothing of the context changes but the operands and the returned value;
* **`operates_performOp`**: actions without operands of their own;
* `Action.taken?`: the offset of a branch that is taken;
* **`perform_of`**, **`perform_pendingJump`**: what any action asks for and leaves pending.
-/

namespace ActionVm

namespace Act

variable {α β : Type}

/-- Nothing of the context changes but the operands and the returned value, and `Q` holds of the
answer, if there is one. -/
def Operates (x : Act α) (Q : α → Prop) : Prop :=
  ∀ c s, (∃ stack returned,
      (x.run.run (c, s)).2.1 = { c with stack := stack, returned := returned }) ∧
    ∀ a, (x.run.run (c, s)).1 = .ok a → Q a

/-! ## Parts of actions -/

theorem operates_pure {a : α} {Q : α → Prop} (ha : Q a) : Operates (pure a) Q := by
  intro c s
  refine ⟨⟨c.stack, c.returned, rfl⟩, ?_⟩
  rintro _ ⟨⟩
  exact ha

theorem operates_throw {e : ScriptError} {Q : α → Prop} : Operates (throw e) Q :=
  fun c _ => ⟨⟨c.stack, c.returned, rfl⟩, fun _ h => by cases h⟩

theorem Operates.bind {x : Act α} {f : α → Act β} {Q : β → Prop}
    (hx : Operates x fun _ => True) (hf : ∀ a, Operates (f a) Q) : Operates (x >>= f) Q := by
  intro c s
  obtain ⟨⟨stack, returned, hc⟩, -⟩ := hx c s
  rw [ExceptT.run_bind, StateT.run_bind]
  rcases hr : StateT.run (ExceptT.run x) (c, s) with ⟨e | a, c', s'⟩
  · rw [hr] at hc
    exact ⟨⟨stack, returned, hc⟩, fun _ h => by cases h⟩
  · rw [hr] at hc
    obtain rfl : c' = { c with stack := stack, returned := returned } := hc
    exact hf a _ s'

theorem operates_exec (x : Exec α) : Operates (exec x) fun _ => True :=
  fun c _ => ⟨⟨c.stack, c.returned, rfl⟩, fun _ _ => trivial⟩

theorem operates_context (f : Context → α) : Operates (context f) fun _ => True :=
  fun c _ => ⟨⟨c.stack, c.returned, rfl⟩, fun _ _ => trivial⟩

theorem operates_push (v : Value) : Operates (push v) fun _ => True :=
  fun c _ => ⟨⟨v :: c.stack, c.returned, rfl⟩, fun _ _ => trivial⟩

theorem operates_pop : Operates pop fun _ => True :=
  fun c _ => ⟨⟨c.stack.tail, c.returned, rfl⟩, fun _ _ => trivial⟩

theorem operates_popMany (n : Nat) : Operates (setContext (·.popMany n)) fun _ => True :=
  fun c _ => ⟨⟨c.stack.drop n, c.returned, rfl⟩, fun _ _ => trivial⟩

theorem operates_returned (v : Value) :
    Operates (setContext ({ · with returned := some v })) fun _ => True :=
  fun c _ => ⟨⟨c.stack, some v, rfl⟩, fun _ _ => trivial⟩

theorem operates_forIn {γ : Type} (l : List γ) (b : β) {f : γ → β → Act (ForInStep β)}
    (hf : ∀ a b, Operates (f a b) fun _ => True) : Operates (forIn l b f) fun _ => True := by
  induction l generalizing b with
  | nil => exact operates_pure trivial
  | cons a l ih =>
    rw [List.forIn_cons]
    refine (hf a b).bind fun next => ?_
    cases next with
    | done b => exact operates_pure trivial
    | yield b => exact ih b

end Act

open Act

theorem operates_popText : Operates popText fun _ => True :=
  operates_pop.bind fun _ => operates_exec _

theorem operates_popNumber : Operates popNumber fun _ => True :=
  operates_pop.bind fun _ => operates_pure trivial

theorem operates_popBoolean : Operates popBoolean fun _ => True :=
  operates_pop.bind fun _ => operates_pure trivial

theorem operates_popArguments : Operates popArguments fun _ => True :=
  operates_pop.bind fun _ => (operates_context _).bind fun _ =>
    (operates_popMany _).bind fun _ => operates_pure trivial

theorem operates_popEntries : Operates popEntries fun _ => True :=
  operates_pop.bind fun _ => (operates_context _).bind fun _ =>
    (operates_popMany _).bind fun _ => operates_pure trivial

theorem operates_numbers (f : Float → Float → Float) : Operates (numbers f) fun _ => True :=
  operates_popNumber.bind fun _ => operates_popNumber.bind fun _ => operates_push _

theorem operates_integers (f : Int32 → Int32 → Int32) : Operates (integers f) fun _ => True :=
  operates_pop.bind fun _ => operates_pop.bind fun _ => operates_push _

theorem operates_compare (f : Value → Value → Bool) : Operates (compare f) fun _ => True :=
  operates_pop.bind fun _ => operates_pop.bind fun _ => operates_push _

theorem operates_compareTexts (f : String → String → Bool) :
    Operates (compareTexts f) fun _ => True :=
  operates_popText.bind fun _ => operates_popText.bind fun _ => operates_push _

theorem operates_joinTexts (a b : Value) : Operates (joinTexts a b) fun _ => True :=
  (operates_exec _).bind fun _ => (operates_exec _).bind fun _ => operates_push _

theorem operates_methodName (v : Value) : Operates (methodName v) fun _ => True := by
  unfold methodName
  split
  · exact operates_pure trivial
  · exact (operates_exec _).bind fun _ => operates_pure trivial

theorem operates_pushNames (v : Value) : Operates (pushNames v) fun _ => True := by
  refine (operates_push _).bind fun _ => ?_
  split
  · refine (operates_exec _).bind fun _ => (operates_forIn _ _ fun _ _ => ?_).bind fun _ =>
      operates_pure trivial
    exact (operates_push _).bind fun _ => operates_pure trivial
  · exact operates_pure trivial

/-- No body is to run. -/
def Outcome.IsPlain : Outcome → Prop
  | .enter _ _ => False
  | _ => True

theorem operates_next : Operates (pure .next) Outcome.IsPlain := operates_pure trivial

theorem operates_callOr (callee this : Value) (args operands : List Value) :
    Operates (callOr callee this args operands) Outcome.IsPlain := by
  refine (operates_exec _).bind fun _ => ?_
  split
  · exact operates_pure trivial
  · exact (operates_push _).bind fun _ => operates_pure trivial

theorem operates_construct (e : Embedding) (ctor : Value) (args operands : List Value) :
    Operates (construct e ctor args operands) Outcome.IsPlain := by
  refine (operates_exec _).bind fun _ => ?_
  split
  · exact (operates_exec _).bind fun _ => (operates_exec _).bind fun _ => operates_pure trivial
  · exact (operates_push _).bind fun _ => operates_pure trivial

theorem operates_bindFunction (name : String) (kind : ClosureKind) (body : Block) :
    Operates (bindFunction name kind body) Outcome.IsPlain := by
  refine (operates_context _).bind fun _ => (operates_context _).bind fun _ =>
    (operates_exec _).bind fun _ => ?_
  split
  · exact (operates_context _).bind fun _ => (operates_exec _).bind fun _ => operates_next
  · exact (operates_push _).bind fun _ => operates_next

theorem operates_finish (v : Value) : Operates (pure (.finish v)) Outcome.IsPlain :=
  operates_pure trivial

/-- **Actions without operands of their own** work on the operand stack, and start no body. -/
theorem operates_performOp (e : Embedding) (o : Op) :
    Operates (performOp e o) Outcome.IsPlain := by
  cases o
  all_goals
    simp only [performOp]
    -- each is a chain of the parts above, with a case distinction here and there
    repeat' with_reducible first
      | refine Operates.bind ?_ fun _ => ?_
      | exact operates_next
      | exact operates_finish _
      | exact operates_pure trivial
      | exact operates_throw
      | exact operates_exec _
      | exact operates_context _
      | exact operates_push _
      | exact operates_pop
      | exact operates_popText
      | exact operates_popNumber
      | exact operates_popBoolean
      | exact operates_popArguments
      | exact operates_popEntries
      | exact operates_numbers _
      | exact operates_integers _
      | exact operates_compare _
      | exact operates_compareTexts _
      | exact operates_joinTexts _ _
      | exact operates_methodName _
      | exact operates_pushNames _
      | exact operates_returned _
      | exact operates_callOr _ _ _ _
      | exact operates_construct _ _ _ _
      | exact operates_forIn _ _ fun _ _ => (operates_exec _).bind fun _ =>
          (operates_exec _).bind fun _ => operates_pure trivial
      | split

/-- If a body is to run, it is the one that the action carries. -/
def Outcome.Of (a : Action) : Outcome → Prop
  | .enter _ body => a = .withObject body
  | _ => True

theorem Outcome.IsPlain.of (a : Action) {x : Outcome} (h : x.IsPlain) : x.Of a := by
  cases x with
  | enter _ _ => exact h.elim
  | next => trivial
  | finish _ => trivial
  | call _ => trivial

theorem Act.Operates.of (a : Action) {x : Act Outcome} (h : Operates x Outcome.IsPlain) :
    Operates x (Outcome.Of a) :=
  fun c s => ⟨(h c s).1, fun x hx => ((h c s).2 x hx).of a⟩

theorem operates_withObject (e : Embedding) (body : Block) :
    Operates (perform e (.withObject body)) (Outcome.Of (.withObject body)) := by
  refine operates_pop.bind fun v => ?_
  split
  · exact operates_pure rfl
  · exact operates_next.of _

/-- The action writes the context beside the operands. -/
def Action.writes : Action → Bool
  | .push _ | .storeRegister _ | .constantPool _ | .jump _ | .branchIf _ => true
  | _ => false

theorem operates_perform (e : Embedding) {a : Action} (ha : a.writes = false) :
    Operates (perform e a) (Outcome.Of a) := by
  cases a with
  | op o => exact (operates_performOp e o).of _
  | gotoFrame frame => exact ((operates_exec _).bind fun _ => operates_next).of _
  | gotoFrame2 play sceneBias =>
    exact (operates_pop.bind fun _ => (operates_exec _).bind fun _ => operates_next).of _
  | goToLabel label => exact ((operates_exec _).bind fun _ => operates_next).of _
  | getUrl url target => exact ((operates_exec _).bind fun _ => operates_next).of _
  | getUrl2 flags =>
    exact (operates_popText.bind fun _ => operates_popText.bind fun _ =>
      (operates_exec _).bind fun _ => operates_next).of _
  | push _ | storeRegister _ | constantPool _ | jump _ | branchIf _ => cases ha
  | withObject body => exact operates_withObject e body
  | defineFunction name params body => exact (operates_bindFunction _ _ _).of _
  | defineFunction2 name count flags params body => exact (operates_bindFunction _ _ _).of _
  | notImplemented code length => exact operates_next.of _

/-! ## Branches -/

/-- The offset of a branch that is taken. -/
def Action.taken? (c : Context) : Action → Option Int16
  | .jump offset => some offset
  | .branchIf offset => if c.peek.toBoolean then some offset else none
  | _ => none

theorem perform_branchIf (e : Embedding) (offset : Int16) (c : Context) (s : State) :
    (perform e (.branchIf offset)).run.run (c, s) =
      (.ok .next, if c.peek.toBoolean then { c.pop with pendingJump := some offset } else c.pop,
        s) := by
  rcases hb : c.peek.toBoolean with _ | _
  · have : popBoolean.run.run (c, s) = (.ok false, c.pop, s) := by
      rw [← hb]
      rfl
    simp only [perform, ExceptT.run_bind, StateT.run_bind, this]
    rfl
  · have : popBoolean.run.run (c, s) = (.ok true, c.pop, s) := by
      rw [← hb]
      rfl
    simp only [perform, ExceptT.run_bind, StateT.run_bind, this]
    rfl

/-- **A body that is to run** is the one that the action carries. -/
theorem perform_of {e : Embedding} {a : Action} {c : Context} {s : State} {x : Outcome}
    (h : ((perform e a).run.run (c, s)).1 = .ok x) : x.Of a := by
  rcases ha : a.writes with _ | _
  · exact (operates_perform e ha c s).2 x h
  · cases a with
    | branchIf offset =>
      rw [perform_branchIf] at h
      cases h
      trivial
    | push _ | storeRegister _ | constantPool _ | jump _ =>
      cases h
      trivial
    | _ => cases ha

theorem Context.setRegister_pendingJump (c : Context) (r : Nat) (v : Value) :
    (c.setRegister r v).pendingJump = c.pendingJump := by
  unfold Context.setRegister Context.setRegister?
  split <;> rfl

theorem pushedValues_eq (values : List PushValue) (c : Context) : ∃ stack,
    values.foldl (fun c v => c.push (pushedValue c v)) c = { c with stack := stack } := by
  induction values generalizing c with
  | nil => exact ⟨c.stack, rfl⟩
  | cons v values ih =>
    obtain ⟨stack, h⟩ := ih (c.push (pushedValue c v))
    exact ⟨stack, h⟩

/-- **A branch is pending** after an action that takes it, and after no other. -/
theorem perform_pendingJump (e : Embedding) (a : Action) (c : Context) (s : State) :
    ((perform e a).run.run (c, s)).2.1.pendingJump = (a.taken? c).or c.pendingJump := by
  rcases ha : a.writes with _ | _
  · obtain ⟨stack, returned, hc⟩ := (operates_perform e ha c s).1
    have : a.taken? c = none := by
      cases a with
      | push _ | storeRegister _ | constantPool _ | jump _ | branchIf _ => cases ha
      | _ => rfl
    rw [hc, this]
    rfl
  · cases a with
    | branchIf offset =>
      rw [perform_branchIf]
      rcases hb : c.peek.toBoolean with _ | _
      · simp [Action.taken?, hb, Context.pop]
      · simp [Action.taken?, hb]
    | push values =>
      obtain ⟨stack, hc⟩ := pushedValues_eq values c
      change (values.foldl (fun c v => c.push (pushedValue c v)) c).pendingJump = _
      rw [hc]
      rfl
    | storeRegister r => exact c.setRegister_pendingJump _ _
    | constantPool _ | jump _ => rfl
    | _ => cases ha

/-- A branch that is taken asks for nothing else. -/
theorem perform_of_taken {e : Embedding} {a : Action} {c : Context} {offset : Int16}
    (h : a.taken? c = some offset) (s : State) :
    ((perform e a).run.run (c, s)).1 = .ok .next := by
  cases a with
  | jump _ => rfl
  | branchIf _ => rw [perform_branchIf]
  | _ => cases h

end ActionVm
