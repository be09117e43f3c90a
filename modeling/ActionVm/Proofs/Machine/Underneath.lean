import ActionVm.Proofs.Machine.Bottom
import ActionVm.Proofs.Machine.Operands

/-!
# Blocks over other operands

A block that finds all operands it takes does the same with more values underneath, and leaves them
there. The values do count in one respect: they hold on to things, and a class is looked up in the
domains that live.

* `Invocation.under`, `Machine.under`: the block at the bottom with more values underneath;
* `Machine.Covers`, `Machine.SeesPast`: the operands are there, and no domain around one in which a
  class is looked up lives by the values underneath alone;
* **`recasts_under`**, **`recast_under_perform`**: an invocation goes on as before;
* **`Machine.run_over_operands`**: a run with more values underneath;
* `Machine.seesPast_of_plain`: values that hold on to nothing;
* `Machine.nestedDomains`: a state in which it counts what lies underneath.
-/

namespace ActionVm

/-- The invocation with more values underneath its operands. -/
def Invocation.under (L : List Value) (i : Invocation) : Invocation :=
  { i with context := i.context.under L }

theorem Invocation.proceed_under (L : List Value) (i : Invocation) :
    (i.under L).proceed = i.proceed.recast (under L) (Context.under L) := by
  obtain ⟨context, _ | ⟨body, bodies⟩, main⟩ := i
  · rcases main with _ | c
    · rfl
    · have hjump : (context.under L).pendingJump = context.pendingJump := rfl
      simp only [proceed, under, hjump]
      rcases c.advance context.pendingJump with target | c' <;> rfl
  · have hjump : (context.under L).pendingJump = context.pendingJump := rfl
    simp only [proceed, under, hjump]
    rcases body.advance context.pendingJump with target | body' <;> rfl

theorem recasts_under (L : List Value) :
    Recasts (fun _ => True) (Invocation.under L) (Context.under L) where
  action _ := rfl
  enter _ _ _ := rfl
  unwound _ := rfl
  resume i v _ := Invocation.proceed_under L { i with context := i.context.push v }
  leave i _ := by
    obtain ⟨context, _ | ⟨body, bodies⟩, main⟩ := i
    · rfl
    · exact Invocation.proceed_under L ⟨{ context with scope := context.scope.pop }, bodies, main⟩

namespace Machine

variable {e : Embedding} {m m' : Machine} {L : List Value}

/-- The machine with more values underneath the operands of the block at its bottom. -/
def under (L : List Value) (m : Machine) : Machine :=
  match m.frames.getLast? with
  | some (.code i) => { m with frames := m.frames.dropLast ++ [.code (i.under L)] }
  | some _ => m
  | none => { m with control := m.control.recast (Invocation.under L) (Context.under L) }

theorem Recast.eq_under (h : Recast (Invocation.under L) (Context.under L) m m') :
    m' = m.under L := by
  cases h with
  | go i s => rfl
  | ended c ending s => rfl
  | wait control above i s =>
    simp [under]

@[simp] theorem answer?_under (L : List Value) (m : Machine) : (m.under L).answer? = m.answer? := by
  obtain ⟨control, frames, s⟩ := m
  rcases frames.eq_nil_or_concat with rfl | ⟨above, frame, rfl⟩
  · cases control <;> rfl
  · cases frame with
    | code i =>
      simp only [under, List.concat_eq_append, List.getLast?_concat, List.dropLast_concat]
      rcases above with _ | ⟨frame, above⟩ <;> cases control <;> rfl
    | call _ | load _ => simp [under]

@[simp] theorem state_under (L : List Value) (m : Machine) : (m.under L).state = m.state := by
  unfold under
  split <;> rfl

/-- The block at the bottom finds the operands of the action at hand. -/
def Covers (m : Machine) : Prop :=
  match m.control, m.frames with
  | .go i, [] =>
    ∀ record ∈ i.record?, record.action.takes i.context.stack ≤ i.context.stack.length
  | _, _ => True

instance : DecidablePred Covers := fun m =>
  match m with
  | ⟨.go i, [], _⟩ =>
    inferInstanceAs (Decidable (∀ record ∈ i.record?,
      record.action.takes i.context.stack ≤ i.context.stack.length))
  | ⟨.go _, _ :: _, _⟩ | ⟨.ended .., _, _⟩ | ⟨.call _, _, _⟩ | ⟨.answer _, _, _⟩ => .isTrue trivial

/-- With more values underneath the same domains live around one in which a class is looked up. -/
def SeesPast (e : Embedding) (L : List Value) (m : Machine) : Prop :=
  ∀ r d name s, m.control = .call r → lookup? e m.state r = some (d, name, s) →
    SameDomains (.call r :: m.frames) (.call r :: (m.under L).frames) s d

/-- An action of the block at the bottom. -/
theorem recast_under_perform {i : Invocation} {a : Action}
    (h : a.takes i.context.stack ≤ i.context.stack.length) (L : List Value) (s : State) :
    Recast (Invocation.under L) (Context.under L) (perform e [] s i a)
      (perform e [] s (i.under L) a) := by
  obtain ⟨result, c, s', hrun, hunder⟩ := perform_under e h L s
  rw [perform_of_result hrun, perform_of_result (i := i.under L) hunder]
  exact (recasts_under L).settle ⟨c, i.bodies, i.main⟩ result
    (fun _ => Invocation.proceed_under L _) s'

theorem step_under (hm : Recast (Invocation.under L) (Context.under L) m m') (hcovers : m.Covers)
    (hsees : m.SeesPast e L) :
    Recast (Invocation.under L) (Context.under L) (m.step e) (m'.step e) := by
  refine (recasts_under L).step hm (fun _ _ => trivial) (fun _ _ => trivial) ?_ ?_
  · intro i record hcontrol hframes hrecord
    rw [Covers, hcontrol, hframes] at hcovers
    exact recast_under_perform (hcovers record hrecord) L m.state
  · intro r d name s hcontrol hlookup
    rw [hm.eq_under]
    exact hsees r d name s hcontrol hlookup

theorem recast_under_run {s : State} {c : Context} {b : Block} (n : ℕ)
    (hcovers : ∀ k < n, ((start s c b).run e k).Covers)
    (hsees : ∀ k < n, ((start s c b).run e k).SeesPast e L) :
    Recast (Invocation.under L) (Context.under L) ((start s c b).run e n)
      ((start s (c.under L) b).run e n) := by
  induction n with
  | zero => exact .go (.start c b) s
  | succ n ih =>
    rw [run_step, run_step]
    exact step_under (ih (fun k hk => hcovers k (by omega)) fun k hk => hsees k (by omega))
      (hcovers n (by omega)) (hsees n (by omega))

/-- **A block that finds all its operands does the same with more values underneath**, if no domain
around one in which it looks up a class lives by these values alone. -/
theorem run_over_operands (e : Embedding) (s : State) (c : Context) (b : Block) (L : List Value)
    (n : ℕ) (hcovers : ∀ k < n, ((start s c b).run e k).Covers)
    (hsees : ∀ k < n, ((start s c b).run e k).SeesPast e L) :
    (start s (c.under L) b).run e n = ((start s c b).run e n).under L ∧
      ((start s (c.under L) b).run e n).answer? = ((start s c b).run e n).answer? ∧
      ((start s (c.under L) b).run e n).state = ((start s c b).run e n).state := by
  have hrun := (recast_under_run n hcovers hsees).eq_under
  rw [hrun]
  exact ⟨rfl, answer?_under L _, state_under L _⟩

/-! ## Values that hold on to nothing -/

theorem Frame.entities_under {L : List Value} (hL : L.flatMap Value.entities = [])
    (i : Invocation) :
    (Frame.code (i.under L)).entities = (Frame.code i).entities := by
  simp [Frame.entities, Invocation.under, Context.under, Context.entities, hL]

/-- Numbers, texts and the like are never in the way. -/
theorem seesPast_of_plain (hL : L.flatMap Value.entities = []) (m : Machine) : m.SeesPast e L := by
  obtain ⟨control, frames, s⟩ := m
  intro r d name s' _ _
  -- only the block at the bottom differs, and it holds on to the same things
  have hframes : (under L ⟨control, frames, s⟩).frames.flatMap Frame.entities =
      frames.flatMap Frame.entities := by
    rcases frames.eq_nil_or_concat with rfl | ⟨above, frame, rfl⟩
    · rfl
    · cases frame with
      | code i => simp [under, Frame.entities_under hL]
      | call _ | load _ => simp [under]
  intro p _
  simp only [roots, List.flatMap_cons, hframes]

/-! ## Domains inside each other -/

/-- A worker with three domains, each made inside the one before. The outermost has a class. There
are objects for the other two. -/
def nestedDomains : State where
  store :=
    ⟨#[.ofClass "global" none, .domain ⟨1⟩ none,
        (Object.domain ⟨2⟩ none).define "getClass" (.object ⟨3⟩),
        .function (.host (.domain .getClass)) ⟨0⟩],
      #[],
      #[⟨none, Table.empty.insert "X" (.string "root X"), none⟩, ⟨some ⟨0⟩, .empty, none⟩,
        ⟨some ⟨1⟩, .empty, none⟩]⟩
  worker := .idle .default ⟨0⟩ ⟨0⟩

/-- A class of the object in the first register is looked up, by an operand that is there. -/
def classByName : Block :=
  ⟨[⟨0, 18, .push [.integer 1, .register 0, .string "getClass"]⟩, ⟨18, 1, .op .callMethod⟩,
    ⟨19, 1, .op .returnValue⟩], 20⟩

/-- The innermost domain is in the first register, and the name of the class on the stack. -/
def askingContext : Context :=
  ((Context.start (.ofBase ⟨0⟩) .undefined).setRegister 0 (.object ⟨2⟩)).push (.string "X")

/-- A number underneath changes nothing. -/
theorem run_over_operands_number :
    let m := start nestedDomains askingContext classByName
    let m' := start nestedDomains (askingContext.under [.integer 7]) classByName
    (∀ k < 6, (m.run .none k).Covers) ∧ (∀ k < 6, (m.run .none k).SeesPast .none [.integer 7]) ∧
      (m'.run .none 6).answer? = (m.run .none 6).answer? ∧
      (m.run .none 6).answer?.map Except.isOk = some false := by
  have hcovers : ∀ k < 6, ((start nestedDomains askingContext classByName).run .none k).Covers := by
    decide +kernel
  have hsees : ∀ k < 6,
      ((start nestedDomains askingContext classByName).run .none k).SeesPast .none [.integer 7] :=
    fun k _ => seesPast_of_plain rfl _
  exact ⟨hcovers, hsees,
    (run_over_operands .none nestedDomains askingContext classByName [.integer 7] 6 hcovers
      hsees).2.1, by decide +kernel⟩

/-- The domain in the middle underneath keeps the class within reach. -/
theorem not_run_over_operands_domain :
    let m := start nestedDomains askingContext classByName
    let m' := start nestedDomains (askingContext.under [.object ⟨1⟩]) classByName
    (∀ k < 6, (m.run .none k).Covers) ∧ (m.run .none 6).isHalted ∧
      (m.run .none 6).answer?.map Except.isOk = some false ∧
      (m'.run .none 6).answer?.map Except.isOk = some true ∧
      (m'.run .none 6).answer? ≠ (m.run .none 6).answer? := by
  intro m m'
  have hfails : (m.run .none 6).answer?.map Except.isOk = some false := by decide +kernel
  have hfinds : (m'.run .none 6).answer?.map Except.isOk = some true := by decide +kernel
  refine ⟨by decide +kernel, by decide +kernel, hfails, hfinds, fun h => ?_⟩
  rw [h, hfails] at hfinds
  cases hfinds

end Machine

end ActionVm
