import ActionVm.Proofs.Machine.Streams
import ActionVm.Proofs.Machine.Turns

/-!
# Scopes and registers of invocations

A body adds an object to the scope while it is in progress, and an invocation leaves the scope as it
has found it, however it ends.

* `perform_context`: what an action does to the context beside the operands;
* `Encloses`, `Nested.encloses`: the blocks inside a block;
* `Context.Registers`: the registers but for those that are written;
* `Invocation.Within`, `Context.Restored`: an invocation in progress, and a context in the end;
* `Machine.Stores`: a register is written;
* **`Machine.InProgress.step`**: a step inside an invocation;
* **`Machine.scope_restored`**: every run of an invocation.
-/

namespace ActionVm

/-! ## Actions -/

/-- **An action writes a register**, or the operands, the returned value, the constants and the
pending branch, and nothing else of the context. -/
theorem perform_context (e : Embedding) (a : Action) (c : Context) (s : State) :
    (∃ stack returned constants pending, ((perform e a).run.run (c, s)).2.1 =
      { c with
        stack := stack, returned := returned, constants := constants, pendingJump := pending }) ∨
    ∃ r, a = .storeRegister r ∧
      ((perform e a).run.run (c, s)).2.1 = c.setRegister r.toNat c.peek := by
  rcases ha : a.writes with _ | _
  · obtain ⟨stack, returned, hc⟩ := (operates_perform e ha c s).1
    exact Or.inl ⟨stack, returned, c.constants, c.pendingJump, hc⟩
  · cases a with
    | push values =>
      obtain ⟨stack, hc⟩ := pushedValues_eq values c
      exact Or.inl ⟨stack, c.returned, c.constants, c.pendingJump, hc⟩
    | storeRegister r => exact Or.inr ⟨r, rfl, rfl⟩
    | constantPool entries =>
      exact Or.inl ⟨c.stack, c.returned, entries.toArray, c.pendingJump, rfl⟩
    | jump offset => exact Or.inl ⟨c.stack, c.returned, c.constants, some offset, rfl⟩
    | branchIf offset =>
      rw [perform_branchIf]
      split
      · exact Or.inl ⟨c.stack.tail, c.returned, c.constants, some offset, rfl⟩
      · exact Or.inl ⟨c.stack.tail, c.returned, c.constants, c.pendingJump, rfl⟩
    | _ => cases ha

/-! ## Blocks inside blocks -/

/-- The second block is the first one, or a body that starts in it or in such a body. -/
inductive Encloses (b : Block) : Block → Prop where
  | refl : Encloses b b
  | body {d body : Block} {x : Record} :
    Encloses b d → x ∈ d.records → x.action = .withObject body → Encloses b body

namespace Nested

variable {c c₀ : Cursor} {l : List Cursor}

theorem exists_record {d : Cursor} (h : Nested (c :: d :: l)) :
    ∃ x ∈ d.block.records, x.action = .withObject c.block := by
  obtain ⟨x, rest, hrest, hx⟩ := (List.isChain_cons_cons.mp h.chain).1
  obtain ⟨k, hk⟩ := h.onBlock d (List.mem_cons_of_mem c List.mem_cons_self)
  rw [hrest] at hk
  exact ⟨x, List.mem_of_mem_drop (hk ▸ List.mem_cons_self), hx⟩

/-- The outermost of the blocks in progress encloses the innermost. -/
theorem encloses : ∀ {l : List Cursor} {c : Cursor}, Nested (c :: l) →
    (c :: l).getLast? = some c₀ → Encloses c₀.block c.block
  | [], c, _, hl => by
    cases hl
    exact .refl
  | d :: l, c, h, hl => by
    obtain ⟨x, hx, hbody⟩ := h.exists_record
    exact (encloses h.tail (by simpa using hl)).body hx hbody

end Nested

/-- The record at hand belongs to the block of the invocation, or to a body inside it. -/
theorem Invocation.exists_encloses {i : Invocation} {b : Block} (h : Nested i.cursors)
    (hb : i.block? = some b) {record : Record} (hr : i.record? = some record) :
    ∃ d, Encloses b d ∧ record ∈ d.records := by
  obtain ⟨c₀, hlast, rfl⟩ := getLast?_cursors hb
  rw [record?_eq] at hr
  rcases hi : i.cursors with _ | ⟨c, l⟩
  · rw [hi] at hr
    cases hr
  · rw [hi] at h hr hlast
    rw [List.head?_cons, Option.bind_some, List.head?_eq_some_iff] at hr
    obtain ⟨rest, hrest⟩ := hr
    obtain ⟨k, hk⟩ := h.onBlock c List.mem_cons_self
    rw [hrest] at hk
    exact ⟨c.block, h.encloses hlast, List.mem_of_mem_drop (hk ▸ List.mem_cons_self)⟩

/-! ## Invocations -/

/-- Every register has the value that it has in `c`, but for those that are written. -/
def Context.Registers (c : Context) (written : ℕ → Prop) (c' : Context) : Prop :=
  ∀ r (h : r < registerCount), c'.registers[r] = c.registers[r] ∨ written r

/-- What an invocation that has started in the context `c` leaves in the end. -/
structure Context.Restored (c : Context) (written : ℕ → Prop) (c' : Context) : Prop where
  scope : c'.scope = c.scope
  pending : c'.pendingJump = none
  slots : c'.registers.toArray.size = 100
  registers : c.Registers written c'

/-- The invocation runs the block and has started in the context `c`. -/
structure Invocation.Within (c : Context) (b : Block) (written : ℕ → Prop) (i : Invocation) :
    Prop where
  block : i.block? = some b
  nested : Nested i.cursors
  /-- There is one object more in scope for each body in progress. -/
  scope : ∃ objects : List ObjectId, objects.length = i.bodies.length ∧
    i.context.scope = ⟨c.scope.base, objects ++ c.scope.inner⟩
  registers : c.Registers written i.context

/-- The invocation goes on without a pending branch, or it is over with everything restored. -/
def Control.Within (c : Context) (b : Block) (written : ℕ → Prop) : Control → Prop
  | .go i => i.Within c b written ∧ i.context.pendingJump = none
  | .ended c' _ => c.Restored written c'
  | _ => False

theorem foldl_pop {α : Type} (l : List α) (base : ObjectId) (objects inner : List ObjectId)
    (h : objects.length = l.length) :
    l.foldl (fun s _ => Scope.pop s) ⟨base, objects ++ inner⟩ = ⟨base, inner⟩ := by
  induction l generalizing objects with
  | nil =>
    obtain rfl := List.length_eq_zero_iff.mp h
    rfl
  | cons a l ih =>
    cases objects with
    | nil => cases h
    | cons o objects => exact ih objects (by simpa using h)

namespace Invocation

variable {c context : Context} {b : Block} {written written' : ℕ → Prop} {i : Invocation}

theorem Within.mono (hi : i.Within c b written) (h : ∀ r, written r → written' r) :
    i.Within c b written' :=
  ⟨hi.block, hi.nested, hi.scope, fun r hr => (hi.registers r hr).imp_right (h r)⟩

theorem within_start (hc : c.pendingJump = none) (b : Block) :
    (start c b).Within c b written ∧ (start c b).context.pendingJump = none :=
  ⟨⟨rfl, (sound_start hc b).nested, ⟨[], rfl, rfl⟩, fun _ _ => Or.inl rfl⟩, hc⟩

/-- Something else than the scope may change in the context. -/
theorem Within.setContext (hi : i.Within c b written) (hs : context.scope = i.context.scope)
    (hr : c.Registers written context) : Within c b written { i with context := context } := by
  obtain ⟨objects, hlen, hscope⟩ := hi.scope
  exact ⟨hi.block, hi.nested, ⟨objects, hlen, hs.trans hscope⟩, hr⟩

/-- An invocation that is given up takes its objects out of scope. -/
theorem Within.finish (hi : i.Within c b written) (hp : i.context.pendingJump = none)
    (ending : Ending) : (i.finish ending).Within c b written := by
  obtain ⟨objects, hlen, hscope⟩ := hi.scope
  refine ⟨?_, hp, i.context.registers.size_toArray, hi.registers⟩
  rw [unwound, hscope]
  exact foldl_pop i.bodies _ _ _ hlen

theorem Within.proceed (hi : i.Within c b written) : i.proceed.Within c b written := by
  obtain ⟨context, bodies, main⟩ := i
  have hplain : Within c b written ⟨{ context with pendingJump := none }, bodies, main⟩ :=
    hi.setContext rfl hi.registers
  unfold Invocation.proceed
  dsimp only
  rcases bodies with _ | ⟨body, outer⟩
  · rcases main with _ | main
    · cases hi.block
    · dsimp only
      split
      · next main' hmain =>
        obtain ⟨hblock, hon⟩ := Cursor.advance_ok hmain
        have hcursor := hi.nested.onBlock main List.mem_cons_self
        exact ⟨⟨(congrArg some hblock).trans hi.block, hi.nested.replace hblock (hon hcursor),
          hplain.scope, hi.registers⟩, rfl⟩
      · exact hplain.finish rfl _
  · dsimp only
    split
    · next body' hbody =>
      obtain ⟨hblock, hon⟩ := Cursor.advance_ok hbody
      have hcursor := hi.nested.onBlock body List.mem_cons_self
      obtain ⟨objects, hlen, hscope⟩ := hi.scope
      exact ⟨⟨hi.block, hi.nested.replace hblock (hon hcursor), ⟨objects, hlen, hscope⟩,
        hi.registers⟩, rfl⟩
    · exact hplain.finish rfl _

/-- At the end of a body its object goes out of scope. -/
theorem Within.leave (hi : i.Within c b written) (hp : i.context.pendingJump = none) :
    i.leave.Within c b written := by
  obtain ⟨context, bodies, main⟩ := i
  cases bodies with
  | nil => exact hi.finish hp .completed
  | cons body outer =>
    obtain ⟨objects, hlen, hscope⟩ := hi.scope
    cases objects with
    | nil => cases hlen
    | cons o objects =>
      have hleft : Within c b written
          ⟨{ context with scope := context.scope.pop }, outer, main⟩ := by
        refine ⟨hi.block, hi.nested.tail, ⟨objects, by simpa using hlen, ?_⟩, hi.registers⟩
        change context.scope.pop = _
        rw [show context.scope = _ from hscope]
        rfl
      exact hleft.proceed

/-- A body starts with its object in scope. -/
theorem Within.enter (hi : i.Within c b written) {record : Record}
    (hr : i.record? = some record) {body : Block} (hbody : record.action = .withObject body)
    (o : ObjectId) : (i.enter o body).Within c b written := by
  obtain ⟨objects, hlen, hscope⟩ := hi.scope
  refine ⟨hi.block, hi.nested.start fun d hd => ?_, ⟨o :: objects, ?_, ?_⟩, hi.registers⟩
  · rw [Option.mem_def] at hd
    rw [record?_eq, hd, Option.bind_some, List.head?_eq_some_iff] at hr
    obtain ⟨rest, hrest⟩ := hr
    exact ⟨record, rest, hrest, hbody⟩
  · rw [List.length_cons, hlen]
    rfl
  · change i.context.scope.push o = _
    rw [hscope]
    rfl

end Invocation

/-! ## Machines -/

namespace Machine

variable {e : Embedding} {c : Context} {b : Block} {F : List Frame} {s : State} {m : Machine}
  {written : ℕ → Prop}

/-- The invocation that runs the block over the frames is about to store a value in the register, by
a record of the block or of a body inside it. -/
def Stores (b : Block) (F : List Frame) (m : Machine) (r : ℕ) : Prop :=
  m.frames = F ∧ ∃ i d x n, m.control = .go i ∧ i.record? = some x ∧ Encloses b d ∧
    x ∈ d.records ∧ x.action = .storeRegister n ∧ n.toNat = r

/-- An invocation of the block over the frames goes on, or something runs that it waits for. -/
def InProgress (c : Context) (b : Block) (F : List Frame) (written : ℕ → Prop) (m : Machine) :
    Prop :=
  ∃ i : Invocation, i.Within c b written ∧ i.context.pendingJump = none ∧
    (m.control = .go i ∧ m.frames = F ∨ ∃ above, m.frames = above ++ .code i :: F)

/-- An invocation over the frames is over. -/
def IsOver (F : List Frame) (m : Machine) : Prop :=
  m.frames = F ∧ ∃ c' ending, m.control = .ended c' ending

/-- An invocation over the frames is over, and everything is restored. -/
def Finished (c : Context) (F : List Frame) (written : ℕ → Prop) (m : Machine) : Prop :=
  m.frames = F ∧ ∃ c' ending, m.control = .ended c' ending ∧ c.Restored written c'

theorem inProgress_or_finished {control : Control} (h : control.Within c b written) :
    InProgress c b F written ⟨control, F, s⟩ ∨ Finished c F written ⟨control, F, s⟩ := by
  cases control with
  | go i => exact Or.inl ⟨i, h.1, h.2, Or.inl ⟨rfl, rfl⟩⟩
  | ended c' ending => exact Or.inr ⟨rfl, c', ending, rfl, h⟩
  | call _ | answer _ => exact h.elim

theorem perform_registers {e : Embedding} {a : Action} {context : Context}
    (h : c.Registers written context) (hw : ∀ n, a = .storeRegister n → written n.toNat)
    (s : State) : c.Registers written ((ActionVm.perform e a).run.run (context, s)).2.1 ∧
      ((ActionVm.perform e a).run.run (context, s)).2.1.scope = context.scope := by
  rcases perform_context e a context s with ⟨_, _, _, _, hc⟩ | ⟨n, ha, hc⟩
  · rw [hc]
    exact ⟨h, rfl⟩
  · rw [hc, Context.setRegister, Context.setRegister?]
    split
    · refine ⟨fun r hr => ?_, rfl⟩
      by_cases hn : n.toNat = r
      · exact Or.inr (hn ▸ hw n ha)
      · have hset : (context.registers.setIfInBounds n.toNat context.peek)[r] =
            context.registers[r] := Vector.getElem_setIfInBounds_ne hr hn
        exact (h r hr).imp_left hset.trans
    · exact ⟨h, rfl⟩

/-- **The record at hand** is performed inside the invocation. -/
theorem within_perform {i : Invocation} (hi : i.Within c b written)
    (hp : i.context.pendingJump = none) {record : Record} (hr : i.record? = some record)
    (hw : ∀ n, record.action = .storeRegister n → written n.toNat) :
    InProgress c b F written (perform e F s i record.action) ∨
      Finished c F written (perform e F s i record.action) := by
  have hcontext := perform_registers (e := e) hi.registers hw s
  have hjump := perform_pendingJump e record.action i.context s
  have htaken := fun offset (h : record.action.taken? i.context = some offset) =>
    perform_of_taken (e := e) h s
  have hof := fun x => perform_of (e := e) (a := record.action) (c := i.context) (s := s) (x := x)
  rcases hrun : (ActionVm.perform e record.action).run.run (i.context, s) with ⟨result, context, s'⟩
  rw [hrun] at hcontext hjump htaken hof
  rw [perform, show ActionVm.perform e record.action (i.context, s) = _ from hrun]
  have hj : Invocation.Within c b written { i with context := context } :=
    hi.setContext hcontext.2 hcontext.1
  -- a branch that is taken asks for nothing else
  have hquiet : result ≠ .ok .next → context.pendingJump = none := by
    intro hne
    rw [hjump, hp, Option.or_none, Option.eq_none_iff_forall_not_mem]
    exact fun offset ho => hne (htaken offset ho)
  rcases result with error | _ | v | ⟨o, body⟩ | r
  · exact inProgress_or_finished (hj.finish (hquiet (by rintro ⟨⟩)) _)
  · exact inProgress_or_finished hj.proceed
  · exact inProgress_or_finished (hj.finish (hquiet (by rintro ⟨⟩)) _)
  · exact inProgress_or_finished ⟨hj.enter hr (hof _ rfl) o, hquiet (by rintro ⟨⟩)⟩
  · exact Or.inl ⟨_, hj, hquiet (by rintro ⟨⟩), Or.inr ⟨[], rfl⟩⟩

/-- **A step inside an invocation** keeps it as it is to be, or ends it with everything restored. -/
theorem InProgress.step (h : InProgress c b F written m) (hw : ∀ r, m.Stores b F r → written r) :
    InProgress c b F written (m.step e) ∨ Finished c F written (m.step e) := by
  obtain ⟨i, hi, hp, ⟨hgo, hframes⟩ | ⟨above, hframes⟩⟩ := h
  · obtain ⟨control, frames, s⟩ := m
    cases hgo
    cases hframes
    simp only [Machine.step]
    split
    · next record hr =>
      refine within_perform hi hp hr fun n hn => hw _ ?_
      obtain ⟨d, hd, hmem⟩ := Invocation.exists_encloses hi.nested hi.block hr
      exact ⟨rfl, i, d, record, n, rfl, hr, hd, hmem, hn, rfl⟩
    · exact inProgress_or_finished (hi.leave hp)
  · rcases step_frames e m with ⟨more, hmore⟩ | ⟨a, frame, ha, hpop⟩
    · refine Or.inl ⟨i, hi, hp, Or.inr ⟨more ++ above, ?_⟩⟩
      rw [hmore, hframes, List.append_assoc]
    · rcases above with _ | ⟨top, above⟩
      · -- the invocation gets the answer that it waits for
        obtain ⟨control, frames, s⟩ := m
        cases ha
        cases hframes
        cases a with
        | ok v =>
          have hj : Invocation.Within c b written { i with context := i.context.push v } :=
            hi.setContext rfl hi.registers
          exact inProgress_or_finished hj.proceed
        | error error => exact inProgress_or_finished (hi.finish hp _)
      · rw [hframes] at hpop
        exact Or.inl ⟨i, hi, hp, Or.inr ⟨above, (List.cons.inj hpop).2.symm⟩⟩

/-! ## Runs -/

/-- The register is written within the first steps of a run. -/
def Written (e : Embedding) (m : Machine) (b : Block) (F : List Frame) (n r : ℕ) : Prop :=
  ∃ k < n, (m.run e k).Stores b F r

theorem InProgress.mono {written' : ℕ → Prop} (h : InProgress c b F written m)
    (hw : ∀ r, written r → written' r) : InProgress c b F written' m := by
  obtain ⟨i, hi, hrest⟩ := h
  exact ⟨i, hi.mono hw, hrest⟩

theorem InProgress.not_isOver (h : InProgress c b F written m) : ¬ m.IsOver F := by
  rintro ⟨hframes, c', ending, hended⟩
  obtain ⟨i, -, -, ⟨hgo, -⟩ | ⟨above, habove⟩⟩ := h
  · rw [hgo] at hended
    cases hended
  · have hlen := congrArg List.length (hframes.symm.trans habove)
    rw [List.length_append, List.length_cons] at hlen
    omega

/-- **Every run of a block** in a context without a pending branch, over any frames: at every step
there is one object more in scope for each body in progress, and when the run is over the scope is
as it was, no branch is pending, and only registers are different that the block or a body inside it
has written. -/
theorem scope_restored (e : Embedding) {c : Context} (hc : c.pendingJump = none) (b : Block)
    (F : List Frame) (s : State) (n : ℕ) :
    let m : Machine := ⟨.go (.start c b), F, s⟩
    (∀ k < n, ¬ (m.run e k).IsOver F) →
      (¬ (m.run e n).IsOver F → InProgress c b F (Written e m b F n) (m.run e n)) ∧
      ((m.run e n).IsOver F → Finished c F (Written e m b F n) (m.run e n)) := by
  intro m hn
  suffices h : InProgress c b F (Written e m b F n) (m.run e n) ∨
      Finished c F (Written e m b F n) (m.run e n) by
    rcases h with h | h
    · exact ⟨fun _ => h, fun hover => absurd hover h.not_isOver⟩
    · obtain ⟨hframes, c', ending, hended, -⟩ := id h
      exact ⟨fun hover => absurd ⟨hframes, c', ending, hended⟩ hover, fun _ => h⟩
  induction n with
  | zero =>
    obtain ⟨hi, hp⟩ := Invocation.within_start hc b
    exact Or.inl ⟨_, hi, hp, Or.inl ⟨rfl, rfl⟩⟩
  | succ n ih =>
    rw [run_step]
    rcases ih fun k hk => hn k (by omega) with h | ⟨hframes, c', ending, hended, -⟩
    · have hmono : InProgress c b F (Written e m b F (n + 1)) (m.run e n) :=
        h.mono fun r ⟨k, hk, hstores⟩ => ⟨k, by omega, hstores⟩
      exact hmono.step fun r hr => ⟨n, by omega, hr⟩
    · exact absurd ⟨hframes, c', ending, hended⟩ (hn n (by omega))

/-- A body that stores a value in a register and returns from the block. -/
theorem scope_restored_by_return :
    let body : Block := ⟨[⟨0, 8, .push [.integer 7]⟩, ⟨8, 4, .storeRegister 3⟩,
      ⟨12, 1, .op .returnValue⟩], 13⟩
    let b : Block := ⟨[⟨0, 8, .defineFunction "" [] ⟨[], 0⟩⟩, ⟨8, 18, .withObject body⟩], 26⟩
    let s := State.start default
    let c := topContext s.worker
    let m : Machine := ⟨.go (.start c b), [], s⟩
    c.pendingJump = none ∧ (∀ k < 5, ¬ (m.run .none k).IsOver []) ∧ (m.run .none 5).IsOver [] ∧
      InProgress c b [] (Written .none m b [] 4) (m.run .none 4) ∧
      Finished c [] (Written .none m b [] 5) (m.run .none 5) := by
  intro body b s c m
  have hgo : ∀ k < 5, (m.run .none k).control.cursors.isEmpty = false := by decide +kernel
  have hrun : ∀ k < 5, ¬ (m.run .none k).IsOver [] := by
    rintro k hk ⟨-, c', ending, h⟩
    have := hgo k hk
    rw [h] at this
    cases this
  have hover : (m.run .none 5).IsOver [] := ⟨rfl, _, _, rfl⟩
  exact ⟨rfl, hrun, hover,
    (scope_restored .none rfl b [] s 4 fun k hk => hrun k (by omega)).1 (hrun 4 (by decide)),
    (scope_restored .none rfl b [] s 5 hrun).2 hover⟩

end Machine

end ActionVm
