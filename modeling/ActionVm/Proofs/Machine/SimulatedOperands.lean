import ActionVm.Proofs.Machine.SimulatedHost

/-!
# Operands and outcomes in two runs

Where states correspond and contexts match, operands do, and so do the outcomes of actions.

* `Request.Matches`, `Outcome.Matches`: what an action asks for;
* `Mirrors.exec`, `Simulates.exec`: what is done with the state alone;
* `mirrors_pop`, `mirrors_push` and the like: single operands;
* **`mirrors_popArguments`**, **`mirrors_popEntries`**: lists of operands;
* `mirrors_numbers`, `mirrors_compare` and the like: what is computed from two operands;
* `mirrors_callOr`, `simulates_construct`, `simulates_bindFunction`: functions.
-/

namespace ActionVm

open List (Forall₂)
open Act

variable {Γ : Setting} {η η' : Naming} {v v' w w' : Value}

/-! ## What actions ask for -/

/-- Requests that differ in nothing but the things that they hold. -/
structure Request.Matches (η : Naming) (r r' : Request) : Prop where
  callee : r.callee.Matches η r'.callee
  this : r.this.Matches η r'.this
  args : Forall₂ (Value.Matches η) r.args r'.args
  created : Option.Rel η.object r.created r'.created
  kept : Forall₂ (Value.Matches η) r.kept r'.kept

/-- Outcomes that differ in nothing but the things that they hold. -/
inductive Outcome.Matches (η : Naming) : Outcome → Outcome → Prop where
  | next : Matches η .next .next
  | finish {v v' : Value} : v.Matches η v' → Matches η (.finish v) (.finish v')
  | enter {o o' : ObjectId} (body : Block) :
    η.object o o' → Matches η (.enter o body) (.enter o' body)
  | call {r r' : Request} : r.Matches η r' → Matches η (.call r) (.call r')

theorem Request.Matches.mono (hle : η.Le η') {r r' : Request} (h : r.Matches η r') :
    r.Matches η' r' where
  callee := h.callee.mono hle
  this := h.this.mono hle
  args := forall₂_matches_mono hle h.args
  created := h.created.imp fun _ _ => hle.object
  kept := forall₂_matches_mono hle h.kept

/-! ## Contexts and states -/

section General

variable {α β γ γ' : Type} {R : Naming → α → α → Prop}

theorem Mirrors.exec {x x' : Exec α} (h : Mirrors Γ.Relates R η x x') :
    Mirrors Γ.Runs R η (exec x) (exec x') := fun p p' hp =>
  ⟨⟨hp.context, (h p.2 p'.2 hp.state).1⟩, (h p.2 p'.2 hp.state).2⟩

theorem Simulates.exec {x x' : Exec α} (h : Simulates Γ.Relates R η x x') :
    Simulates Γ.Runs R η (exec x) (exec x') := fun p p' hp =>
  let ⟨η', hle, hs, ha⟩ := h p.2 p'.2 hp.state
  ⟨η', hle, ⟨hp.context.mono hle, hs⟩, ha⟩

/-- While states correspond, nothing stands for two things. -/
theorem mirrors_of_oneToOne {x x' : Act α} (h : η.IsOneToOne → Mirrors Γ.Runs R η x x') :
    Mirrors Γ.Runs R η x x' := fun p p' hp => h hp.state.store.oneToOne p p' hp

theorem mirrors_context {f f' : Context → α}
    (h : ∀ c c' : Context, c.Matches η c' → R η (f c) (f' c')) :
    Mirrors Γ.Runs R η (context f) (context f') := fun _ _ hp => ⟨hp, .ok (h _ _ hp.context)⟩

theorem mirrors_setContext {f f' : Context → Context}
    (h : ∀ c c' : Context, c.Matches η c' → (f c).Matches η (f' c')) :
    Mirrors Γ.Runs Same η (setContext f) (setContext f') := fun _ _ hp =>
  ⟨⟨h _ _ hp.context, hp.state⟩, .ok rfl⟩

theorem mirrors_forIn {σ : Type} {C : Naming → σ → σ → Prop} {P : γ → γ' → Prop} {l : List γ}
    {l' : List γ'} (hl : Forall₂ P l l') {f : γ → β → ExceptT ScriptError (StateM σ) (ForInStep β)}
    {f' : γ' → β → ExceptT ScriptError (StateM σ) (ForInStep β)}
    (hf : ∀ a a' b, P a a' → Mirrors C Same η (f a b) (f' a' b)) (b : β) :
    Mirrors C Same η (forIn l b f) (forIn l' b f') := by
  induction hl generalizing b with
  | nil => exact mirrors_pure rfl
  | cons ha _ ih =>
    rw [List.forIn_cons, List.forIn_cons]
    refine (hf _ _ b ha).chainSame fun next => ?_
    cases next with
    | done b => exact mirrors_pure rfl
    | yield b => exact ih b

end General

/-! ## Single operands -/

theorem mirrors_pop : Mirrors Γ.Runs Value.Matches η pop pop := fun _ _ hp =>
  ⟨⟨hp.context.pop, hp.state⟩, .ok hp.context.peek⟩

theorem mirrors_push (hv : v.Matches η v') : Mirrors Γ.Runs Same η (push v) (push v') :=
  mirrors_setContext fun _ _ hc => hc.push hv

/-- A value without an object becomes an operand. -/
theorem mirrors_pushSame (hv : v.object? = none) : Mirrors Γ.Runs Same η (push v) (push v) :=
  mirrors_push (.same hv)

theorem mirrors_popText : Mirrors Γ.Runs Same η popText popText :=
  mirrors_pop.chain fun _ _ hv => (mirrors_text hv).exec

/-- An operand is converted. -/
theorem mirrors_popAs {α : Type} (f : Value → α) (hf : ∀ o o', f (.object o) = f (.object o')) :
    Mirrors Γ.Runs Same η (return f (← pop)) (return f (← pop)) :=
  mirrors_pop.chain fun _ _ hv => mirrors_pure (hv.congr f hf)

theorem mirrors_popNumber : Mirrors Γ.Runs Same η popNumber popNumber :=
  mirrors_popAs Value.toNumber fun _ _ => rfl

theorem mirrors_popBoolean : Mirrors Γ.Runs Same η popBoolean popBoolean :=
  mirrors_popAs Value.toBoolean fun _ _ => rfl

/-! ## Lists of operands -/

theorem mirrors_popArguments :
    Mirrors Γ.Runs (fun η => Forall₂ (Value.Matches η)) η popArguments popArguments := by
  refine mirrors_pop.chain fun v v' hv => ?_
  rw [hv.congr Value.toCount fun _ _ => rfl]
  refine (mirrors_context (R := fun η => Forall₂ (Value.Matches η)) fun _ _ hc =>
    List.forall₂_take _ hc.stack).chain fun l l' hl => ?_
  rw [hl.length_eq]
  exact (mirrors_setContext fun _ _ hc => hc.popMany _).chainSame fun _ => mirrors_pure hl

/-- Pairs of values that match. -/
abbrev Value.PairMatches (η : Naming) (x x' : Value × Value) : Prop :=
  x.1.Matches η x'.1 ∧ x.2.Matches η x'.2

theorem forall₂_entries (n : ℕ) {l l' : List Value} (h : Forall₂ (Value.Matches η) l l') :
    Forall₂ (Value.PairMatches η) (entries n l) (entries n l') := by
  induction n generalizing l l' with
  | zero => exact .nil
  | succ n ih =>
    cases h with
    | nil => exact .nil
    | cons hv h =>
      cases h with
      | nil => exact .nil
      | cons hname h => exact .cons ⟨hname, hv⟩ (ih h)

theorem mirrors_popEntries :
    Mirrors Γ.Runs (fun η => Forall₂ (Value.PairMatches η)) η popEntries popEntries := by
  refine mirrors_pop.chain fun v v' hv => ?_
  rw [hv.congr Value.toCount fun _ _ => rfl]
  refine (mirrors_context (R := fun η => Forall₂ (Value.PairMatches η)) fun _ _ hc =>
    forall₂_entries _ hc.stack).chain fun l l' hl => ?_
  rw [hl.length_eq]
  exact (mirrors_setContext fun _ _ hc => hc.popMany _).chainSame fun _ => mirrors_pure hl

/-! ## Computations with two operands -/

theorem mirrors_numbers (f : Float → Float → Float) :
    Mirrors Γ.Runs Same η (numbers f) (numbers f) :=
  mirrors_popNumber.chainSame fun _ => mirrors_popNumber.chainSame fun _ => mirrors_pushSame rfl

theorem mirrors_integers (f : Int32 → Int32 → Int32) :
    Mirrors Γ.Runs Same η (integers f) (integers f) := by
  refine mirrors_pop.chain fun v v' hv => mirrors_pop.chain fun w w' hw => ?_
  rw [hv.congr Value.toInt32 fun _ _ => rfl, hw.congr Value.toInt32 fun _ _ => rfl]
  exact mirrors_pushSame rfl

theorem mirrors_compare {f : Value → Value → Bool}
    (hf : ∀ {v v' w w' : Value}, v.Matches η v' → w.Matches η w' → f v w = f v' w') :
    Mirrors Γ.Runs Same η (compare f) (compare f) := by
  refine mirrors_pop.chain fun v v' hv => mirrors_pop.chain fun w w' hw => ?_
  rw [hf hw hv]
  exact mirrors_pushSame rfl

theorem mirrors_compareTexts (f : String → String → Bool) :
    Mirrors Γ.Runs Same η (compareTexts f) (compareTexts f) :=
  mirrors_popText.chainSame fun _ => mirrors_popText.chainSame fun _ => mirrors_pushSame rfl

theorem mirrors_joinTexts (hv : v.Matches η v') (hw : w.Matches η w') :
    Mirrors Γ.Runs Same η (joinTexts v w) (joinTexts v' w') :=
  (mirrors_text hv).exec.chainSame fun _ => (mirrors_text hw).exec.chainSame fun _ =>
    mirrors_pushSame rfl

/-! ## Functions -/

theorem mirrors_methodName (hv : v.Matches η v') :
    Mirrors Γ.Runs Same η (methodName v) (methodName v') := by
  unfold methodName
  rw [hv.congr Value.isNullish fun _ _ => rfl]
  split
  · exact mirrors_pure rfl
  · exact (mirrors_text hv).exec.chainSame fun _ => mirrors_pure rfl

theorem mirrors_pushNames (hv : v.Matches η v') :
    Mirrors Γ.Runs Same η (pushNames v) (pushNames v') := by
  refine (mirrors_pushSame rfl).chainSame fun _ => ?_
  have hobject := hv.object?
  revert hobject
  generalize v.object? = o
  generalize v'.object? = o'
  rintro (ho | _)
  · refine (mirrors_ask (R := Same) fun s s' hs => hs.keys_eq ho).exec.chainSame fun names => ?_
    have hnames : Forall₂ (· = ·) names names := List.forall₂_refl names
    refine Mirrors.chainSame (mirrors_forIn hnames ?_ _) fun _ => mirrors_pure rfl
    rintro name _ _ rfl
    exact (mirrors_pushSame rfl).chainSame fun _ => mirrors_pure rfl
  · exact mirrors_pure rfl

variable {args args' operands operands' : List Value}

theorem mirrors_isCallable (hv : v.Matches η v') :
    Mirrors Γ.Relates (fun η => Option.Rel (Callable.Matches η)) η (Exec.ask (·.callable? v))
      (Exec.ask (·.callable? v')) := mirrors_ask fun _ _ hs => hs.callable? hv

theorem mirrors_callOr (hcallee : v.Matches η v') (hthis : w.Matches η w')
    (hargs : Forall₂ (Value.Matches η) args args')
    (hoperands : Forall₂ (Value.Matches η) operands operands') :
    Mirrors Γ.Runs Outcome.Matches η (callOr v w args operands)
      (callOr v' w' args' operands') := by
  refine (mirrors_isCallable hcallee).exec.chain fun c c' hc => ?_
  rw [hc.isSome_eq]
  split
  · exact mirrors_pure (.call ⟨hcallee, hthis, hargs, .none, hoperands⟩)
  · exact (mirrors_pushSame rfl).chainSame fun _ => mirrors_pure .next

theorem simulates_construct (hctor : v.Matches η v')
    (hargs : Forall₂ (Value.Matches η) args args')
    (hoperands : Forall₂ (Value.Matches η) operands operands') :
    Simulates Γ.Runs Outcome.Matches η (construct .none v args operands)
      (construct .none v' args' operands') := by
  have hundefined : Simulates Γ.Runs Outcome.Matches η
      (do push .undefined; return .next) (do push .undefined; return .next) :=
    (mirrors_pushSame rfl).bindSame fun _ => (mirrors_pure .next).simulates
  refine (mirrors_isCallable hctor).exec.bind fun c c' hc => ?_
  cases hc with
  | none =>
    cases hctor with
    | same hv =>
      cases v with
      | object => cases hv
      | _ => exact hundefined
    | object => exact hundefined
  | some =>
    cases hctor with
    | same hv =>
      cases v with
      | object => cases hv
      | _ => exact hundefined
    | object hf =>
      refine (simulates_getProperty hf "prototype").exec.bind fun η₁ hle₁ proto proto' hproto =>
        (simulates_addObject (Object.matches_ofClass "Object" hproto.object?)).exec.bind
          fun η₂ hle₂ created created' hcreated => ?_
      have hle := hle₁.trans hle₂
      exact (mirrors_pure (.call
        { callee := .object (hle.object hf)
          this := .object hcreated
          args := forall₂_matches_mono hle hargs
          created := .some hcreated
          kept := .cons (hproto.mono hle₂) (forall₂_matches_mono hle hoperands) })).simulates

theorem simulates_bindFunction (name : String) (kind : ClosureKind) (body : Block) :
    Simulates Γ.Runs Outcome.Matches η (bindFunction name kind body)
      (bindFunction name kind body) := by
  refine (mirrors_context (R := Scope.Matches) fun _ _ hc => hc.scope).bind
    fun scope scope' hscope =>
      (mirrors_context (R := Same) fun _ _ hc => hc.constants).bindSame fun constants => ?_
  have hclosure : ∀ name : Option String, Callable.Matches η
      (.closure ⟨name, kind, body, scope, constants⟩)
      (.closure ⟨name, kind, body, scope', constants⟩) := fun name =>
    .closure ⟨rfl, rfl, rfl, hscope, rfl⟩
  refine (simulates_addFunction (hclosure _)).exec.bind fun η' _ f f' hf => ?_
  split
  · exact (mirrors_context (R := Naming.object) fun _ _ hc => hc.locals).bind fun _ _ ho =>
      (mirrors_define ho _ (.object hf)).exec.bindSame fun _ => (mirrors_pure .next).simulates
  · exact (mirrors_push (.object hf)).bindSame fun _ => (mirrors_pure .next).simulates

end ActionVm
