import ActionVm.Machine.Actions
import Mathlib.Data.Nat.Notation

/-!
# The operands of actions

An action reaches no deeper into the stack than its operands lie: with more values underneath it
does the same, and leaves them alone. How many operands it takes is fixed, but for the actions that
find a count on the stack.

* `Context.under`: a context with more values underneath the operands;
* `Action.takes`: the number of operands that an action takes of a stack;
* `Act.Framed`: what is done with a context is done as well with more values underneath, with
  `Act.Framed.bind` and the other rules;
* **`framed_performOp`**, **`perform_under`**: actions.
-/

namespace ActionVm

/-- The context with more values underneath its operands. -/
def Context.under (L : List Value) (c : Context) : Context := { c with stack := c.stack ++ L }

/-! ## How many operands there are -/

/-- The number of operands that an action takes without looking for a count. -/
def Op.operands : Op → ℕ
  | nextFrame | previousFrame | play | stop | toggleQuality | stopSounds | getTime | initArray
  | initObject => 0
  | removeSprite | call | trace | pop | pushDuplicate | increment | decrement | not | stringLength
  | mbStringLength | charToAscii | mbCharToAscii | asciiToChar | mbAsciiToChar | toNumber | toString
  | toInteger | typeOf | implement | getVariable | defineLocal2 | delete2 | enumerate | enumerate2
  | newObject | callFunction | returnValue | throwValue => 1
  | setProperty | cloneSprite | stringExtract | mbStringExtract | setMember => 3
  | _ => 2

/-- The number of operands that each unit of a count stands for, if the action finds a count after
the operands of its own. -/
def Op.perCount? : Op → Option ℕ
  | implement | newObject | newMethod | initArray | callFunction | callMethod => some 1
  | initObject => some 2
  | _ => none

/-- The number of operands that an action takes of a stack, those that it only looks at among
them. -/
def Op.takes (o : Op) (stack : List Value) : ℕ :=
  match o.perCount? with
  | none => o.operands
  | some k => o.operands + 1 + k * ((stack.drop o.operands).headD .undefined).toCount

/-- The number of operands that an action takes of a stack. -/
def Action.takes : Action → List Value → ℕ
  | op o, stack => o.takes stack
  | gotoFrame2 .., _ | storeRegister _, _ | branchIf _, _ | withObject _, _ => 1
  | getUrl2 _, _ => 2
  | _, _ => 0

/-- After `n` operands the rest of the stack is as `Q` says. -/
def Past (n : ℕ) (Q : List Value → Prop) (l : List Value) : Prop := n ≤ l.length ∧ Q (l.drop n)

/-- Nothing is said of the stack. -/
def Anything (_ : List Value) : Prop := True

/-- A count is on top of the stack, and for each unit of it there are `k` operands. -/
def Counted (k : ℕ) (l : List Value) : Prop :=
  ∃ v rest, l = v :: rest ∧ k * v.toCount ≤ rest.length

/-- The stack that an action finds has all its operands. -/
def Op.Finds (o : Op) : List Value → Prop :=
  Past o.operands (match o.perCount? with
    | none => Anything
    | some k => Counted k)

theorem Op.finds_of_takes_le {o : Op} {l : List Value} (h : o.takes l ≤ l.length) : o.Finds l := by
  unfold takes at h
  unfold Finds
  split at h
  · exact ⟨h, trivial⟩
  · refine ⟨by omega, ?_⟩
    rcases hd : l.drop o.operands with _ | ⟨v, rest⟩
    · rw [List.drop_eq_nil_iff] at hd
      omega
    · have hlength := congrArg List.length hd
      rw [List.length_drop, List.length_cons] at hlength
      rw [hd, List.headD_cons] at h
      exact ⟨v, rest, rfl, by omega⟩

/-! ## Computations with more values underneath -/

namespace Act

variable {α β : Type} {P Q R : List Value → Prop} {x : Act α}

/-- On a stack as `P` says, the same is done with more values underneath, and these stay there. If
there is an answer, the stack is then as `Q` says. -/
def Framed (P Q : List Value → Prop) (x : Act α) : Prop :=
  ∀ (L : List Value) (c : Context) (s : State), P c.stack →
    ∃ result c' s', x.run.run (c, s) = (result, c', s') ∧
      x.run.run (c.under L, s) = (result, c'.under L, s') ∧ ∀ a, result = .ok a → Q c'.stack

theorem framed_pure (a : α) : Framed P P (pure a) :=
  fun _ c s h => ⟨.ok a, c, s, rfl, rfl, fun _ _ => h⟩

theorem framed_done (a : α) : Framed P Anything (pure a) :=
  fun _ c s _ => ⟨.ok a, c, s, rfl, rfl, fun _ _ => trivial⟩

theorem framed_throw (error : ScriptError) : Framed P Q (throw error : Act α) :=
  fun _ c s _ => ⟨.error error, c, s, rfl, rfl, fun _ h => by cases h⟩

theorem Framed.bind {f : α → Act β} (hx : Framed P Q x) (hf : ∀ a, Framed Q R (f a)) :
    Framed P R (x >>= f) := by
  intro L c s hP
  obtain ⟨result, c', s', hx, hx', hstack⟩ := hx L c s hP
  rw [ExceptT.run_bind, StateT.run_bind, StateT.run_bind, hx, hx']
  rcases result with error | a
  · exact ⟨.error error, c', s', rfl, rfl, fun _ h => by cases h⟩
  · exact hf a L c' s' (hstack a rfl)

theorem framed_exec (x : Exec α) : Framed P P (exec x) :=
  fun _ c s h => ⟨(x s).1, c, (x s).2, rfl, rfl, fun _ _ => h⟩

/-- A look at the context beside its operands. -/
theorem framed_context {f : Context → α} (hf : ∀ L c, f (c.under L) = f c) :
    Framed P P (context f) := by
  intro L c s h
  refine ⟨.ok (f c), c, s, rfl, ?_, fun _ _ => h⟩
  rw [← hf L c]
  rfl

/-- The context may be used where its operands have no part in what is done. -/
theorem framed_bind_context {f : Context → Act β} (hf : ∀ L c, f (c.under L) = f c)
    (h : ∀ c, Framed P Q (f c)) : Framed P Q (context id >>= f) := by
  intro L c s hP
  obtain ⟨result, c', s', hx, hx', hstack⟩ := h c L c s hP
  refine ⟨result, c', s', hx, ?_, hstack⟩
  rw [← hx', ← hf L c]
  rfl

theorem framed_setContext {f : Context → Context} (hf : ∀ L c, f (c.under L) = (f c).under L)
    (hstack : ∀ c, P c.stack → Q (f c).stack) : Framed P Q (setContext f) := by
  intro L c s h
  refine ⟨.ok (), f c, s, rfl, ?_, fun _ _ => hstack c h⟩
  rw [← hf L c]
  rfl

theorem framed_push (v : Value) : Framed P Anything (push v) :=
  framed_setContext (fun _ _ => rfl) fun _ _ => trivial

theorem framed_returned (v : Value) : Framed P P (setContext ({ · with returned := some v })) :=
  framed_setContext (fun _ _ => rfl) fun _ h => h

theorem framed_pendingJump (offset : Int16) :
    Framed P P (setContext ({ · with pendingJump := some offset })) :=
  framed_setContext (fun _ _ => rfl) fun _ h => h

theorem framed_pop (n : ℕ) : Framed (Past (n + 1) Q) (Past n Q) pop := by
  rintro L ⟨registers, stack, pending, returned, this, scope, constants, activation⟩ s ⟨hn, hQ⟩
  rcases stack with _ | ⟨v, stack⟩
  · cases hn
  · exact ⟨.ok v, _, s, rfl, rfl, fun _ _ => ⟨Nat.le_of_succ_le_succ hn, hQ⟩⟩

/-- A look at the latest operand. -/
theorem framed_peek (n : ℕ) : Framed (Past (n + 1) Q) (Past (n + 1) Q) (context Context.peek) := by
  rintro L ⟨registers, stack, pending, returned, this, scope, constants, activation⟩ s ⟨hn, hQ⟩
  rcases stack with _ | ⟨v, stack⟩
  · cases hn
  · exact ⟨.ok v, _, s, rfl, rfl, fun _ _ => ⟨hn, hQ⟩⟩

theorem framed_forIn {γ : Type} (l : List γ) (b : β) {f : γ → β → Act (ForInStep β)}
    (hf : ∀ a b, Framed P P (f a b)) : Framed P P (forIn l b f) := by
  induction l generalizing b with
  | nil => exact framed_pure b
  | cons a l ih =>
    rw [List.forIn_cons]
    refine (hf a b).bind fun next => ?_
    cases next with
    | done b => exact framed_pure b
    | yield b => exact ih b

end Act

open Act

section Parts

variable {P Q : List Value → Prop}

theorem framed_popText (n : ℕ) : Framed (Past (n + 1) Q) (Past n Q) popText :=
  (framed_pop n).bind fun _ => framed_exec _

theorem framed_popNumber (n : ℕ) : Framed (Past (n + 1) Q) (Past n Q) popNumber :=
  (framed_pop n).bind fun _ => framed_pure _

theorem framed_popBoolean (n : ℕ) : Framed (Past (n + 1) Q) (Past n Q) popBoolean :=
  (framed_pop n).bind fun _ => framed_pure _

theorem run_popArguments {c : Context} {v : Value} {rest : List Value}
    (h : c.stack = v :: rest) (s : State) : popArguments.run.run (c, s) =
      (.ok (rest.take v.toCount),
        { c with stack := rest.drop (rest.take v.toCount).length }, s) := by
  obtain ⟨registers, stack, pending, returned, this, scope, constants, activation⟩ := c
  subst h
  rfl

theorem framed_popArguments : Framed (Past 0 (Counted 1)) Anything popArguments := by
  rintro L c s ⟨-, v, rest, hstack, hcount⟩
  rw [List.drop_zero] at hstack
  rw [Nat.one_mul] at hcount
  have hunder : (c.under L).stack = v :: (rest ++ L) := congrArg (· ++ L) hstack
  refine ⟨_, _, s, run_popArguments hstack s, ?_, fun _ _ => trivial⟩
  rw [run_popArguments hunder, List.take_append_of_le_length hcount,
    List.drop_append_of_le_length (by rw [List.length_take]; omega)]
  rfl

theorem entries_append (n : ℕ) : ∀ {l : List Value} (L : List Value), 2 * n ≤ l.length →
    (entries n l).length = n ∧ entries n (l ++ L) = entries n l := by
  induction n with
  | zero => exact fun _ _ => ⟨rfl, rfl⟩
  | succ n ih =>
    intro l L h
    obtain ⟨v, name, rest, rfl⟩ : ∃ v name rest, l = v :: name :: rest := by
      match l, h with
      | v :: name :: rest, _ => exact ⟨v, name, rest, rfl⟩
    obtain ⟨hlength, happend⟩ := ih (l := rest) L (by simp at h; omega)
    exact ⟨congrArg (· + 1) hlength, congrArg ((name, v) :: ·) happend⟩

theorem run_popEntries {c : Context} {v : Value} {rest : List Value} (h : c.stack = v :: rest)
    (s : State) : popEntries.run.run (c, s) =
      (.ok (entries v.toCount rest),
        { c with stack := rest.drop (2 * (entries v.toCount rest).length) }, s) := by
  obtain ⟨registers, stack, pending, returned, this, scope, constants, activation⟩ := c
  subst h
  rfl

theorem framed_popEntries : Framed (Past 0 (Counted 2)) Anything popEntries := by
  rintro L c s ⟨-, v, rest, hstack, hcount⟩
  rw [List.drop_zero] at hstack
  obtain ⟨hlength, happend⟩ := entries_append v.toCount L hcount
  have hunder : (c.under L).stack = v :: (rest ++ L) := congrArg (· ++ L) hstack
  refine ⟨_, _, s, run_popEntries hstack s, ?_, fun _ _ => trivial⟩
  rw [run_popEntries hunder, happend, hlength, List.drop_append_of_le_length hcount]
  rfl

theorem framed_numbers (f : Float → Float → Float) : Framed (Past 2 Q) Anything (numbers f) :=
  (framed_popNumber 1).bind fun _ => (framed_popNumber 0).bind fun _ => framed_push _

theorem framed_integers (f : Int32 → Int32 → Int32) : Framed (Past 2 Q) Anything (integers f) :=
  (framed_pop 1).bind fun _ => (framed_pop 0).bind fun _ => framed_push _

theorem framed_compare (f : Value → Value → Bool) : Framed (Past 2 Q) Anything (compare f) :=
  (framed_pop 1).bind fun _ => (framed_pop 0).bind fun _ => framed_push _

theorem framed_compareTexts (f : String → String → Bool) :
    Framed (Past 2 Q) Anything (compareTexts f) :=
  (framed_popText 1).bind fun _ => (framed_popText 0).bind fun _ => framed_push _

theorem framed_joinTexts (a b : Value) : Framed P Anything (joinTexts a b) :=
  (framed_exec _).bind fun _ => (framed_exec _).bind fun _ => framed_push _

theorem framed_methodName (v : Value) : Framed P P (methodName v) := by
  unfold methodName
  split
  · exact framed_pure _
  · exact (framed_exec _).bind fun _ => framed_pure _

theorem framed_callOr (callee this : Value) (args operands : List Value) :
    Framed P Anything (callOr callee this args operands) := by
  refine (framed_exec _).bind fun _ => ?_
  split
  · exact framed_done _
  · exact (framed_push _).bind fun _ => framed_done _

theorem framed_construct (e : Embedding) (ctor : Value) (args operands : List Value) :
    Framed P Anything (construct e ctor args operands) := by
  refine (framed_exec _).bind fun _ => ?_
  split
  · exact (framed_exec _).bind fun _ => (framed_exec _).bind fun _ => framed_done _
  · exact (framed_push _).bind fun _ => framed_done _

theorem framed_bindFunction (name : String) (kind : ClosureKind) (body : Block) :
    Framed P Anything (bindFunction name kind body) := by
  refine (framed_context fun _ _ => rfl).bind fun _ =>
    (framed_context fun _ _ => rfl).bind fun _ => (framed_exec _).bind fun _ => ?_
  split
  · exact (framed_context fun _ _ => rfl).bind fun _ => (framed_exec _).bind fun _ => framed_done _
  · exact (framed_push _).bind fun _ => framed_done _

theorem framed_pushNames (v : Value) : Framed P Anything (pushNames v) := by
  refine (framed_push _).bind fun _ => ?_
  split
  · exact (framed_exec _).bind fun _ =>
      (framed_forIn _ _ fun _ _ => (framed_push _).bind fun _ => framed_pure _).bind fun _ =>
        framed_pure _
  · exact framed_pure _

end Parts

/-! ## Actions -/

/-- **Actions without operands of their own** leave alone what lies under their operands. -/
theorem framed_performOp (e : Embedding) (o : Op) : Framed o.Finds Anything (performOp e o) := by
  cases o
  all_goals
    simp only [performOp, Op.Finds, Op.operands, Op.perCount?]
    -- each is a chain of the parts above, with a case distinction here and there
    repeat' with_reducible first
      | exact framed_done _
      | exact framed_throw _
      | exact framed_callOr _ _ _ _
      | exact framed_construct _ _ _ _
      | exact framed_exec _
      | exact framed_pure _
      | refine (framed_pop _).bind fun _ => ?_
      | refine (framed_popText _).bind fun _ => ?_
      | refine (framed_popNumber _).bind fun _ => ?_
      | refine (framed_popBoolean _).bind fun _ => ?_
      | refine (framed_peek _).bind fun _ => ?_
      | refine framed_popArguments.bind fun _ => ?_
      | refine framed_popEntries.bind fun _ => ?_
      | refine (framed_push _).bind fun _ => ?_
      | refine (framed_exec _).bind fun _ => ?_
      | refine (framed_context fun _ _ => rfl).bind fun _ => ?_
      | refine framed_bind_context (fun _ _ => rfl) fun _ => ?_
      | refine (framed_numbers _).bind fun _ => ?_
      | refine (framed_integers _).bind fun _ => ?_
      | refine (framed_compare _).bind fun _ => ?_
      | refine (framed_compareTexts _).bind fun _ => ?_
      | refine (framed_joinTexts _ _).bind fun _ => ?_
      | refine (framed_methodName _).bind fun _ => ?_
      | refine (framed_pushNames _).bind fun _ => ?_
      | refine (framed_returned _).bind fun _ => ?_
      | refine (framed_forIn _ _ fun _ _ => (framed_exec _).bind fun _ => (framed_exec _).bind
          fun _ => framed_pure _).bind fun _ => ?_
      | split
      | refine Framed.bind (Q := Anything) ?_ fun _ => ?_

theorem setRegister_under (L : List Value) (c : Context) (r : ℕ) (v : Value) :
    (c.under L).setRegister r v = (c.setRegister r v).under L := by
  unfold Context.setRegister Context.setRegister?
  split <;> rfl

theorem framed_pushValues (values : List PushValue) {P : List Value → Prop} :
    Framed P Anything
      (setContext fun c => values.foldl (fun c v => c.push (pushedValue c v)) c) := by
  refine framed_setContext (fun L c => ?_) fun _ _ => trivial
  induction values generalizing c with
  | nil => rfl
  | cons v values ih =>
    -- what is pushed comes from a register or a constant at most
    have hpush : (c.under L).push (pushedValue (c.under L) v) =
        (c.push (pushedValue c v)).under L := by
      cases v <;> rfl
    rw [List.foldl_cons, List.foldl_cons, hpush]
    exact ih _

theorem framed_storeRegister (r : ℕ) :
    Framed (Past 1 Anything) Anything (setContext fun c => c.setRegister r c.peek) := by
  rintro L c s ⟨hn, -⟩
  obtain ⟨v, stack, hstack⟩ := List.exists_cons_of_length_pos hn
  have hpeek : (c.under L).peek = c.peek := by
    simp [Context.peek, Context.under, hstack]
  refine ⟨.ok (), c.setRegister r c.peek, s, rfl, ?_, fun _ _ => trivial⟩
  rw [← setRegister_under, ← hpeek]
  rfl

/-- The stack that an action finds has all its operands. -/
def Action.Finds : Action → List Value → Prop
  | op o => o.Finds
  | a => Past (a.takes []) Anything

/-- **Actions** leave alone what lies under their operands. -/
theorem framed_perform (e : Embedding) (a : Action) : Framed a.Finds Anything (perform e a) := by
  cases a with
  | op o => exact framed_performOp e o
  | gotoFrame frame => exact (framed_exec _).bind fun _ => framed_done _
  | gotoFrame2 play sceneBias =>
    exact (framed_pop 0).bind fun _ => (framed_exec _).bind fun _ => framed_done _
  | goToLabel label => exact (framed_exec _).bind fun _ => framed_done _
  | getUrl url target => exact (framed_exec _).bind fun _ => framed_done _
  | getUrl2 flags =>
    exact (framed_popText 1).bind fun _ => (framed_popText 0).bind fun _ =>
      (framed_exec _).bind fun _ => framed_done _
  | push values => exact (framed_pushValues values).bind fun _ => framed_done _
  | storeRegister r => exact (framed_storeRegister _).bind fun _ => framed_done _
  | constantPool entries =>
    exact (framed_setContext (f := ({ · with constants := entries.toArray })) (fun _ _ => rfl)
      fun _ h => h).bind fun _ => framed_done _
  | jump offset => exact (framed_pendingJump offset).bind fun _ => framed_done _
  | branchIf offset =>
    unfold perform
    refine (framed_popBoolean 0).bind fun taken => ?_
    cases taken with
    | true => exact (framed_pendingJump offset).bind fun _ => framed_done _
    | false => exact framed_done _
  | withObject body =>
    unfold perform
    refine (framed_pop 0).bind fun v => ?_
    split <;> exact framed_done _
  | defineFunction name params body => exact framed_bindFunction _ _ _
  | defineFunction2 name count flags params body => exact framed_bindFunction _ _ _
  | notImplemented code length => exact framed_done _

theorem Action.finds_of_takes_le {a : Action} {l : List Value} (h : a.takes l ≤ l.length) :
    a.Finds l := by
  cases a with
  | op o => exact Op.finds_of_takes_le h
  | _ => exact ⟨h, trivial⟩

/-- **An action that finds all its operands** does the same with more values underneath. -/
theorem perform_under (e : Embedding) {a : Action} {c : Context}
    (h : a.takes c.stack ≤ c.stack.length) (L : List Value) (s : State) :
    ∃ result c' s', (perform e a).run.run (c, s) = (result, c', s') ∧
      (perform e a).run.run (c.under L, s) = (result, c'.under L, s') := by
  obtain ⟨result, c', s', hrun, hunder, -⟩ :=
    framed_perform e a L c s (Action.finds_of_takes_le h)
  exact ⟨result, c', s', hrun, hunder⟩

end ActionVm
