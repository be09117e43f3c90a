import ActionVm.Machine
import ActionVm.Proofs.Machine.Actions
import Mathlib.Data.List.Chain

/-!
# Blocks in progress

A machine runs blocks inside blocks: bodies inside their blocks, and calls inside what waits for
them. Each of these loops goes from record to record while those around it stand still.

* `Invocation.cursors`, `Machine.cursors`: the blocks in progress, innermost first;
* `Invocation.Sound`, `Machine.Sound`: what holds of them all the time;
* `Machine.Move`: what one step may do with the blocks in progress;
* **`Machine.Sound.move`**, **`Machine.Sound.step`**: a step is a move, and keeps a machine sound;
* `Reached`: the machines of all runs, with **`Reached.sound`**.
-/

namespace ActionVm

/-! ## Cursors -/

namespace Cursor

/-- The body at hand of `y` is the block of `x`. -/
def InsideOf (x y : Cursor) : Prop :=
  ∃ record rest, y.rest = record :: rest ∧ record.action = .withObject x.block

/-- The cursor stands at a place of its block. -/
def OnBlock (c : Cursor) : Prop := ∃ k, c.rest = c.block.records.drop k

theorem onBlock_start (b : Block) : (start b).OnBlock := ⟨0, rfl⟩

/-- The cursor after the record at hand. -/
def next (c : Cursor) : Cursor := ⟨c.block, c.rest.tail⟩

theorem OnBlock.next {c : Cursor} (h : c.OnBlock) : c.next.OnBlock := by
  obtain ⟨k, hk⟩ := h
  refine ⟨k + 1, ?_⟩
  rw [Cursor.next, hk, List.tail_drop]

theorem advance_none (c : Cursor) : c.advance none = .ok c.next := by
  unfold advance
  split
  · next h => cases h
  · rfl

theorem advance_some {c : Cursor} {record : Record} {rest : List Record}
    (hc : c.rest = record :: rest) (offset : Int16) :
    c.advance (some offset) = c.follow (c.block.landing (record.finish + offset.toInt)) := by
  unfold advance
  rw [hc]

theorem advance_ok {c c' : Cursor} {jump : Option Int16} (h : c.advance jump = .ok c') :
    c'.block = c.block ∧ (c.OnBlock → c'.OnBlock) := by
  unfold advance at h
  split at h
  · unfold follow at h
    split at h
    · cases h
      exact ⟨rfl, fun _ => ⟨_, rfl⟩⟩
    · cases h
      refine ⟨rfl, fun _ => ⟨c.block.records.length, ?_⟩⟩
      rw [List.drop_length]
    · cases h
  · cases h
    exact ⟨rfl, OnBlock.next⟩

end Cursor

/-- The blocks are in progress one inside the other, innermost first. -/
structure Nested (l : List Cursor) : Prop where
  onBlock : ∀ c ∈ l, c.OnBlock
  /-- Each but the last is the body at hand of the next one. -/
  chain : l.IsChain Cursor.InsideOf

namespace Nested

variable {c : Cursor} {l : List Cursor}

theorem tail (h : Nested (c :: l)) : Nested l :=
  ⟨fun x hx => h.onBlock x (List.mem_cons_of_mem c hx), h.chain.tail⟩

/-- The innermost block may stand anywhere. -/
theorem replace {c' : Cursor} (h : Nested (c :: l)) (hb : c'.block = c.block) (hc : c'.OnBlock) :
    Nested (c' :: l) := by
  refine ⟨?_, ?_⟩
  · rintro x (_ | ⟨_, hx⟩)
    · exact hc
    · exact h.onBlock x (List.mem_cons_of_mem c hx)
  · have hchain := h.chain
    rw [List.isChain_cons] at hchain ⊢
    unfold Cursor.InsideOf at hchain ⊢
    rw [hb]
    exact hchain

/-- A body starts inside the block that has it at hand. -/
theorem start {body : Block} (h : Nested l)
    (hl : ∀ c ∈ l.head?, (Cursor.start body).InsideOf c) : Nested (.start body :: l) := by
  refine ⟨?_, List.isChain_cons.mpr ⟨hl, h.chain⟩⟩
  rintro x (_ | ⟨_, hx⟩)
  · exact Cursor.onBlock_start body
  · exact h.onBlock x hx

end Nested

/-! ## Invocations -/

namespace Invocation

/-- The blocks in progress, innermost first. -/
def cursors (i : Invocation) : List Cursor := i.bodies ++ i.main.toList

/-- What holds of an invocation between two records. -/
structure Sound (i : Invocation) : Prop where
  pending : i.context.pendingJump = none
  nested : Nested i.cursors

theorem record?_eq (i : Invocation) : i.record? = i.cursors.head?.bind fun c => c.rest.head? := by
  rcases i with ⟨context, _ | ⟨body, bodies⟩, main⟩
  · cases main <;> rfl
  · rfl

/-- The block that the invocation runs, if it is not a single action. -/
def block? (i : Invocation) : Option Block := i.main.map Cursor.block

variable {i : Invocation} {c : Cursor} {outer : List Cursor}

theorem proceed_of_ok {c' : Cursor} (hi : i.cursors = c :: outer)
    (hc : c.advance i.context.pendingJump = .ok c') :
    ∃ j, i.proceed = .go j ∧ j.cursors = c' :: outer ∧ j.block? = i.block? ∧
      j.context.pendingJump = none := by
  obtain ⟨context, bodies, main⟩ := i
  cases bodies with
  | nil =>
    cases main with
    | none => cases hi
    | some block =>
      cases hi
      refine ⟨⟨{ context with pendingJump := none }, [], some c'⟩, ?_, rfl, ?_, rfl⟩
      · simp only [proceed, hc]
      · exact congrArg some (Cursor.advance_ok hc).1
  | cons body bodies =>
    cases hi
    refine ⟨⟨{ context with pendingJump := none }, c' :: bodies, main⟩, ?_, rfl, rfl, rfl⟩
    simp only [proceed, hc]

theorem proceed_of_error {target : ℤ} (hi : i.cursors = c :: outer)
    (hc : c.advance i.context.pendingJump = .error target) :
    ∃ context, i.proceed = .ended context (.failed (.invalidJump target)) := by
  obtain ⟨context, bodies, main⟩ := i
  cases bodies with
  | nil =>
    cases main with
    | none => cases hi
    | some block =>
      cases hi
      refine ⟨{ context with pendingJump := none }, ?_⟩
      simp only [proceed, hc]
  | cons body bodies =>
    cases hi
    refine ⟨unwound ⟨{ context with pendingJump := none }, c :: bodies, main⟩, ?_⟩
    simp only [proceed, hc]
    rfl

theorem proceed_of_nil (hi : i.cursors = []) : i.proceed = .ended i.context .completed := by
  obtain ⟨context, bodies, main⟩ := i
  cases bodies with
  | nil =>
    cases main with
    | none => rfl
    | some block => cases hi
  | cons body bodies => cases hi

/-- At the end of its only block an invocation is over. -/
theorem leave_of_last (hi : i.cursors = [c]) :
    ∃ context, i.leave = .ended context .completed := by
  obtain ⟨context, bodies, main⟩ := i
  cases bodies with
  | nil => exact ⟨_, rfl⟩
  | cons body bodies =>
    obtain ⟨-, hb, hm⟩ : body = c ∧ bodies = [] ∧ main = none := by
      simpa [cursors] using hi
    subst hb hm
    exact ⟨_, rfl⟩

/-- At the end of a body the block around it goes on. -/
theorem leave_of_body {d : Cursor} {more : List Cursor} (hi : i.cursors = c :: d :: more)
    (hp : i.context.pendingJump = none) :
    ∃ j, i.leave = .go j ∧ j.cursors = d.next :: more ∧ j.block? = i.block? ∧
      j.context.pendingJump = none := by
  obtain ⟨context, bodies, main⟩ := i
  cases bodies with
  | nil => cases main <;> cases hi
  | cons body bodies =>
    have ho : cursors ⟨{ context with scope := context.scope.pop }, bodies, main⟩ = d :: more :=
      (List.cons.inj hi).2
    refine proceed_of_ok ho ?_
    rw [show Context.pendingJump _ = none from hp, Cursor.advance_none]

theorem sound_start {c : Context} (hc : c.pendingJump = none) (b : Block) : (start c b).Sound :=
  ⟨hc, ⟨fun _ hx => List.mem_singleton.mp hx ▸ Cursor.onBlock_start b, List.isChain_singleton _⟩⟩

end Invocation

/-! ## Machines -/

/-- The blocks in progress in what waits. -/
def Frame.cursors : Frame → List Cursor
  | .code i => i.cursors
  | _ => []

/-- The blocks in progress in what happens next. -/
def Control.cursors : Control → List Cursor
  | .go i => i.cursors
  | _ => []

/-- A loop is in control: it performs a record, or comes to its end. -/
def Control.isGo : Control → Bool
  | .go _ => true
  | _ => false

/-- An invocation that waits is sound. -/
def Frame.Sound : Frame → Prop
  | .code i => i.Sound
  | _ => True

/-- An invocation that goes on is sound, and it has a block in progress. -/
def Control.Sound : Control → Prop
  | .go i => i.Sound ∧ i.cursors ≠ []
  | _ => True

namespace Machine

/-- The blocks in progress, innermost first. -/
def cursors (m : Machine) : List Cursor := m.control.cursors ++ m.frames.flatMap Frame.cursors

/-- What holds of a machine in every run. -/
structure Sound (m : Machine) : Prop where
  control : m.control.Sound
  frames : ∀ f ∈ m.frames, f.Sound

/-- What a step does with the blocks in progress. -/
inductive Move (m m' : Machine) : Prop where
  /-- They stand still, while something else goes on than one of them. -/
  | wait : m'.cursors = m.cursors → m'.control.isGo = false → Move m m'
  /-- A block starts: a body, a function or loaded code. -/
  | start (b : Block) : m'.cursors = .start b :: m.cursors → Move m m'
  /-- The innermost block goes on after the record at hand, or where a branch leads. -/
  | advance {c c' : Cursor} {outer : List Cursor} : m.cursors = c :: outer →
    (c.advance none = .ok c' ∨ ∃ i record offset, m.control = .go i ∧ i.record? = some record ∧
      record.action.taken? i.context = some offset ∧ c.advance (some offset) = .ok c') →
    m'.control.isGo → m'.cursors = c' :: outer → Move m m'
  /-- The innermost block is at its end, and it is a body. -/
  | leave {c d : Cursor} {outer : List Cursor} : m.cursors = c :: d :: outer → c.rest = [] →
    m'.control.isGo → m'.cursors = d.next :: outer → Move m m'
  /-- The innermost block is at its end, and it is the block of an invocation. -/
  | complete {c : Cursor} : m.cursors = c :: m'.cursors → c.rest = [] →
    m'.control.isGo = false → Move m m'
  /-- An invocation is given up with all its blocks. -/
  | abort {context : Context} {ending : Ending} : m'.control = .ended context ending →
    ending ≠ .completed → m'.cursors <:+ m.cursors → Move m m'

variable {e : Embedding} {m : Machine} {frames : List Frame} {s : State}

/-! ## Records -/

theorem move_proceed {i j : Invocation} (h : i.Sound) (hf : ∀ f ∈ frames, f.Sound)
    (hm : m.cursors = i.cursors ++ frames.flatMap Frame.cursors) (hj : j.cursors = i.cursors)
    (hjump : i.cursors = [] ∨ j.context.pendingJump = none ∨ ∃ record, m.control = .go i ∧
      i.record? = some record ∧ record.action.taken? i.context = j.context.pendingJump) :
    Move m ⟨j.proceed, frames, s⟩ ∧ Sound ⟨j.proceed, frames, s⟩ := by
  rcases hi : i.cursors with _ | ⟨c, outer⟩
  · rw [Invocation.proceed_of_nil (hj.trans hi)]
    rw [hi] at hm
    exact ⟨.wait hm.symm rfl, trivial, hf⟩
  · rw [hi] at hm hj
    rcases hc : c.advance j.context.pendingJump with target | c'
    · obtain ⟨context, he⟩ := Invocation.proceed_of_error hj hc
      rw [he]
      refine ⟨.abort rfl (by simp) ?_, trivial, hf⟩
      rw [hm]
      exact List.suffix_append _ _
    · obtain ⟨k, hk, hcur, -, hp⟩ := Invocation.proceed_of_ok hj hc
      obtain ⟨hb, hon⟩ := Cursor.advance_ok hc
      have hn := h.nested
      rw [hi] at hn
      have hk' : k.Sound := ⟨hp, hcur ▸ hn.replace hb (hon (hn.onBlock c List.mem_cons_self))⟩
      have hcur' : cursors ⟨.go k, frames, s⟩ = c' :: (outer ++ frames.flatMap Frame.cursors) :=
        congrArg (· ++ _) hcur
      rw [hk]
      refine ⟨.advance hm ?_ rfl hcur', ⟨hk', by simp [hcur]⟩, hf⟩
      · rcases hjump with hnil | hnone | ⟨record, hgo, hr, ht⟩
        · rw [hi] at hnil
          cases hnil
        · rw [hnone] at hc
          exact Or.inl hc
        · rcases ho : j.context.pendingJump with _ | offset
          · rw [ho] at hc
            exact Or.inl hc
          · rw [ho] at hc ht
            exact Or.inr ⟨i, record, offset, hgo, hr, ht, hc⟩

theorem move_finish {i : Invocation} (hf : ∀ f ∈ frames, f.Sound)
    (hm : m.cursors = i.cursors ++ frames.flatMap Frame.cursors) (ending : Ending)
    (he : ending ≠ .completed) :
    Move m ⟨i.finish ending, frames, s⟩ ∧ Sound ⟨i.finish ending, frames, s⟩ := by
  refine ⟨.abort rfl he ?_, trivial, hf⟩
  rw [hm]
  exact List.suffix_append _ _

/-- What an action comes to in an invocation without a pending branch. -/
theorem perform_spec {i : Invocation} (hi : i.context.pendingJump = none) (a : Action)
    (frames : List Frame) (s : State) : ∃ result context s',
      perform e frames s i a = settle frames s' ⟨context, i.bodies, i.main⟩ result ∧
      context.pendingJump = a.taken? i.context ∧
      (∀ offset, a.taken? i.context = some offset → result = .ok .next) ∧
      ∀ x, result = .ok x → x.Of a := by
  rcases hr : (ActionVm.perform e a).run.run (i.context, s) with ⟨result, context, s'⟩
  refine ⟨result, context, s', ?_, ?_, fun offset ho => ?_, fun x hx => ?_⟩
  · rw [perform, show ActionVm.perform e a (i.context, s) = _ from hr]
  · have := perform_pendingJump e a i.context s
    rwa [hr, hi, Option.or_none] at this
  · have := perform_of_taken (e := e) ho s
    rwa [hr] at this
  · apply perform_of (e := e) (c := i.context) (s := s)
    rw [hr]
    exact hx

/-- An action is performed alone, or it is that of the record at hand. -/
theorem move_perform {i : Invocation} {a : Action} (h : i.Sound) (hf : ∀ f ∈ frames, f.Sound)
    (hm : m.cursors = i.cursors ++ frames.flatMap Frame.cursors)
    (ha : i.cursors = [] ∨ m.control = .go i ∧ ∃ record, i.record? = some record ∧
      record.action = a) :
    Move m (perform e frames s i a) ∧ Sound (perform e frames s i a) := by
  obtain ⟨result, context, s', hstep, hjump, htaken, hof⟩ := perform_spec (e := e) h.pending a
    frames s
  have hquiet : result ≠ .ok .next → context.pendingJump = none := by
    intro hne
    rw [hjump, Option.eq_none_iff_forall_not_mem]
    exact fun offset ho => hne (htaken offset ho)
  rw [hstep]
  rcases result with error | _ | v | ⟨scope, body⟩ | r
  · exact move_finish (i := ⟨context, i.bodies, i.main⟩) hf hm (.failed error) nofun
  · refine move_proceed h hf hm rfl ?_
    rcases ha with hnil | ⟨hgo, record, hrec, rfl⟩
    · exact Or.inl hnil
    · exact Or.inr (Or.inr ⟨record, hgo, hrec, hjump.symm⟩)
  · exact move_finish (i := ⟨context, i.bodies, i.main⟩) hf hm (.returned v) nofun
  · have hbody : a = .withObject body := hof _ rfl
    refine ⟨.start body ?_, ⟨⟨hquiet nofun, h.nested.start ?_⟩, nofun⟩, hf⟩
    · exact congrArg (.start body :: ·) hm.symm
    · rcases ha with hnil | ⟨-, record, hrec, rfl⟩
      · rw [hnil]
        nofun
      · intro c hc
        rw [Option.mem_def] at hc
        rw [Invocation.record?_eq, hc, Option.bind_some, List.head?_eq_some_iff] at hrec
        obtain ⟨rest, hrest⟩ := hrec
        exact ⟨record, rest, hrest, hbody⟩
  · refine ⟨.wait ?_ rfl, trivial, ?_⟩
    · exact hm.symm
    · rintro f (_ | ⟨_, hmem⟩)
      · exact ⟨hquiet nofun, h.nested⟩
      · exact hf f hmem

/-! ## Calls -/

end Machine

/-- `Q` holds of the answer, if there is one. -/
def Exec.Answers {α : Type} (x : Exec α) (Q : α → Prop) : Prop :=
  ∀ s a, (x.run.run s).1 = .ok a → Q a

theorem Exec.answers_pure {α : Type} {a : α} {Q : α → Prop} (ha : Q a) :
    Exec.Answers (pure a) Q := by
  rintro s _ ⟨⟩
  exact ha

theorem Exec.Answers.bind {α β : Type} {x : Exec α} {f : α → Exec β} {P : α → Prop} {Q : β → Prop}
    (hx : x.Answers P) (hf : ∀ a, P a → (f a).Answers Q) : Exec.Answers (x >>= f) Q := by
  intro s b hb
  rw [ExceptT.run_bind, StateT.run_bind] at hb
  rcases hr : StateT.run (ExceptT.run x) s with ⟨e | a, s'⟩
  · rw [hr] at hb
    cases hb
  · rw [hr] at hb
    refine hf a (hx s a ?_) s' b hb
    rw [hr]

theorem Exec.answers_true {α : Type} (x : Exec α) : x.Answers fun _ => True :=
  fun _ _ _ => trivial

theorem Binding.assign_pendingJump (b : Binding) (r : Nat) (v : Value) :
    (b.assign r v).context.pendingJump = b.context.pendingJump := by
  unfold Binding.assign Context.setRegister?
  split
  · next h =>
    split at h
    · cases h
      rfl
    · cases h
  · rfl

theorem bindParams_pendingJump (activation : ObjectId) (params : List RegisterParam) :
    ∀ (args : List Value) (b : Binding), b.context.pendingJump = none →
      (bindParams activation params args b).Answers fun b => b.context.pendingJump = none := by
  induction params with
  | nil => exact fun _ _ hb => Exec.answers_pure hb
  | cons p params ih =>
    intro args b hb
    unfold bindParams
    split
    · exact ih _ _ (by rw [Binding.assign_pendingJump, hb])
    · exact (Exec.answers_true _).bind fun _ _ => ih _ _ hb

theorem preload_pendingJump (values : List (Exec Value)) :
    ∀ (r : Nat) (b : Binding), b.context.pendingJump = none →
      (preload values r b).Answers fun b => b.context.pendingJump = none := by
  induction values with
  | nil => exact fun _ _ hb => Exec.answers_pure hb
  | cons value values ih =>
    intro r b hb
    unfold preload
    split
    · exact ih _ _ hb
    · exact (Exec.answers_true _).bind fun _ _ => ih _ _ (by rw [Binding.assign_pendingJump, hb])

/-- No branch is pending when the body of a function starts. -/
theorem openCall_pendingJump (e : Embedding) (c : Closure) (this : Value) (args : List Value) :
    (openCall e c this args).Answers fun context => context.pendingJump = none := by
  unfold openCall
  refine (Exec.answers_true _).bind fun _ _ => ?_
  split
  · exact (Exec.answers_true _).bind fun _ _ => (Exec.answers_true _).bind fun _ _ =>
      (Exec.answers_true _).bind fun _ _ => (Exec.answers_true _).bind fun _ _ =>
        Exec.answers_pure rfl
  · exact (bindParams_pendingJump _ _ _ _ rfl).bind fun _ hb =>
      (preload_pendingJump _ _ _ hb).bind fun _ hb =>
        (Exec.answers_true _).bind fun _ _ => Exec.answers_pure hb

namespace Machine

/-- What comes of a call or of loading over the frames: an answer, another call, or a block that
starts. -/
def Opens (L : List Cursor) (m : Machine) : Prop :=
  m.Sound ∧ (m.cursors = L ∧ m.control.isGo = false ∨ ∃ b, m.cursors = .start b :: L)

variable {e : Embedding} {m : Machine} {frames : List Frame} {s : State} {L : List Cursor}

theorem opens_quiet (hf : ∀ f ∈ frames, f.Sound) (hL : frames.flatMap Frame.cursors = L)
    {control : Control} (hc : control.isGo = false) : Opens L ⟨control, frames, s⟩ := by
  cases control with
  | go i => cases hc
  | ended _ _ | call _ | answer _ => exact ⟨⟨trivial, hf⟩, Or.inl ⟨hL, rfl⟩⟩

theorem opens_start (hf : ∀ f ∈ frames, f.Sound) (hL : frames.flatMap Frame.cursors = L)
    {c : Context} (hc : c.pendingJump = none) (b : Block) :
    Opens L ⟨.go (.start c b), frames, s⟩ :=
  ⟨⟨⟨Invocation.sound_start hc b, nofun⟩, hf⟩, Or.inr ⟨b, congrArg (List.cons (Cursor.start b)) hL⟩⟩

theorem opens_ofExec {α : Type} (hf : ∀ f ∈ frames, f.Sound)
    (hL : frames.flatMap Frame.cursors = L) {x : Exec α} {next : α → State → Machine}
    {Q : α → Prop} (hx : x.Answers Q) (hnext : ∀ a s, Q a → Opens L (next a s)) :
    Opens L (ofExec frames s x next) := by
  have hs := hx s
  unfold ofExec
  split
  · next a s' h => exact hnext a s' (hs a (congrArg Prod.fst h))
  · exact opens_quiet hf hL rfl

theorem opens_load (hf : ∀ f ∈ frames, f.Sound) (hL : frames.flatMap Frame.cursors = L)
    (d : DomainId) (bytes : List UInt8) (version : UInt32) :
    Opens L (load e frames s d bytes version) := by
  have hf' : ∀ f ∈ Frame.load s.worker.activeDomain :: frames, f.Sound := by
    rintro f (_ | ⟨_, hmem⟩)
    · trivial
    · exact hf f hmem
  simp only [load]
  split
  · exact opens_ofExec hf' hL (Exec.answers_true _) fun _ _ _ => opens_quiet hf' hL rfl
  · split
    · exact opens_start hf' hL rfl _
    · exact opens_quiet hf' hL rfl

theorem opens_reply (hf : ∀ f ∈ frames, f.Sound) (hL : frames.flatMap Frame.cursors = L)
    (r : Reply) : Opens L (reply e frames s r) := by
  cases r with
  | value v => exact opens_quiet hf hL rfl
  | call callee this args => exact opens_quiet hf hL rfl
  | load d bytes version => exact opens_load hf hL d bytes version
  | classOf d name =>
    exact opens_ofExec hf hL (Exec.answers_true _) fun _ _ _ => opens_quiet hf hL rfl

theorem opens_call (hf : ∀ f ∈ frames, f.Sound) (hL : frames.flatMap Frame.cursors = L)
    (r : Request) : Opens L (call e frames s r) := by
  have hf' : ∀ f ∈ Frame.call r :: frames, f.Sound := by
    rintro f (_ | ⟨_, hmem⟩)
    · trivial
    · exact hf f hmem
  unfold call
  split
  · exact opens_quiet hf hL rfl
  · refine opens_ofExec hf hL (Exec.answers_true _) fun _ _ _ => ?_
    split
    · exact opens_ofExec hf' hL (openCall_pendingJump _ _ _ _) fun _ _ hc =>
        opens_start hf' hL hc _
    · exact opens_ofExec hf' hL (Exec.answers_true _) fun _ _ _ => opens_reply hf' hL _

theorem Opens.move {m' : Machine} (h : Opens m.cursors m') : Move m m' ∧ m'.Sound := by
  obtain ⟨hs, ⟨hc, hgo⟩ | ⟨b, hb⟩⟩ := h
  · exact ⟨.wait hc hgo, hs⟩
  · exact ⟨.start b hb, hs⟩

/-! ## Steps -/

/-- What comes to its end in an invocation that goes on. -/
theorem move_leave {i : Invocation} (h : i.Sound) (hf : ∀ f ∈ frames, f.Sound)
    (hm : m.cursors = i.cursors ++ frames.flatMap Frame.cursors) {c : Cursor}
    {outer : List Cursor} (hi : i.cursors = c :: outer) (hc : c.rest = []) :
    Move m ⟨i.leave, frames, s⟩ ∧ Sound ⟨i.leave, frames, s⟩ := by
  rw [hi] at hm
  rcases outer with _ | ⟨d, outer⟩
  · obtain ⟨context, hl⟩ := Invocation.leave_of_last hi
    rw [hl]
    exact ⟨.complete hm hc rfl, trivial, hf⟩
  · obtain ⟨j, hl, hcur, -, hp⟩ := Invocation.leave_of_body hi h.pending
    have hn := h.nested
    rw [hi] at hn
    replace hn := hn.tail
    have hcur' : cursors ⟨.go j, frames, s⟩ = d.next :: (outer ++ frames.flatMap Frame.cursors) :=
      congrArg (· ++ _) hcur
    rw [hl]
    refine ⟨.leave hm hc rfl hcur', ⟨⟨hp, hcur ▸ hn.replace rfl ?_⟩, by simp [hcur]⟩, hf⟩
    exact (hn.onBlock d List.mem_cons_self).next

/-- **A step is a move**, and keeps the machine sound. -/
theorem Sound.move (h : m.Sound) : Move m (m.step e) ∧ (m.step e).Sound := by
  obtain ⟨control, frames, s⟩ := m
  obtain ⟨hc, hf⟩ := h
  rcases control with i | ⟨c, ending⟩ | r | a
  · obtain ⟨hi, hne⟩ := hc
    obtain ⟨c, outer, hcur⟩ := List.exists_cons_of_ne_nil hne
    simp only [step]
    split
    · next record hr => exact move_perform hi hf rfl (Or.inr ⟨rfl, record, hr, rfl⟩)
    · next hr =>
      rw [Invocation.record?_eq, hcur, List.head?_cons, Option.bind_some,
        List.head?_eq_none_iff] at hr
      exact move_leave hi hf rfl hcur hr
  · cases frames with
    | nil => exact ⟨.wait rfl rfl, trivial, hf⟩
    | cons frame frames => exact ⟨.wait rfl rfl, trivial, hf⟩
  · have hcall : Opens (cursors ⟨.call r, frames, s⟩) (call e frames s r) := opens_call hf rfl r
    exact hcall.move
  · cases frames with
    | nil => exact ⟨.wait rfl rfl, trivial, hf⟩
    | cons frame frames =>
      have hf' : ∀ f ∈ frames, f.Sound := fun f hm => hf f (List.mem_cons_of_mem _ hm)
      cases frame with
      | code i =>
        have hi : i.Sound := hf _ List.mem_cons_self
        cases a with
        | ok v => exact move_proceed hi hf' rfl rfl (Or.inr (Or.inl hi.pending))
        | error error => exact move_finish hf' rfl _ nofun
      | call r => exact ⟨.wait rfl rfl, trivial, hf'⟩
      | load previous => exact ⟨.wait rfl rfl, trivial, hf'⟩

end Machine

/-! ## Runs -/

/-- The machine is reached in a run: of a block or of a single action in a context without a pending
branch, of a call, or of loaded code. -/
inductive Reached (e : Embedding) : Machine → Prop where
  | start (s : State) {c : Context} (b : Block) : c.pendingJump = none → Reached e (.start s c b)
  | single (s : State) {c : Context} (a : Action) : c.pendingJump = none →
    Reached e (.single e s c a)
  | call (s : State) (r : Request) : Reached e ⟨.call r, [], s⟩
  | loading (s : State) (d : DomainId) (bytes : List UInt8) (version : UInt32) :
    Reached e (.loading e s d bytes version)
  | step {m : Machine} : Reached e m → Reached e (m.step e)

/-- **What holds of a machine in every run.** -/
theorem Reached.sound {e : Embedding} {m : Machine} (h : Reached e m) : m.Sound := by
  have hf : ∀ f ∈ ([] : List Frame), f.Sound := fun _ hf => absurd hf List.not_mem_nil
  induction h with
  | start s b hc => exact ⟨⟨Invocation.sound_start hc b, nofun⟩, hf⟩
  | @single s c a hc =>
    have hi : Invocation.Sound ⟨c, [], none⟩ := ⟨hc, nofun, .nil⟩
    exact (Machine.move_perform (m := ⟨.go ⟨c, [], none⟩, [], s⟩) hi hf rfl (Or.inl rfl)).2
  | call s r => exact ⟨trivial, hf⟩
  | loading s d bytes version => exact (Machine.opens_load hf rfl d bytes version).1
  | step _ ih => exact ih.move.2

namespace Machine

theorem step_of_isHalted {e : Embedding} {m : Machine} (h : m.isHalted = true) :
    m.step e = m := by
  obtain ⟨control, frames, s⟩ := m
  unfold isHalted at h
  split at h
  · next hc hf =>
    cases hc
    cases hf
    rfl
  · next hc hf =>
    cases hc
    cases hf
    rfl
  · cases h

theorem run_succ (e : Embedding) (m : Machine) (n : Nat) :
    m.run e (n + 1) = (m.step e).run e n := by
  rw [run]
  split
  · next h =>
    rw [step_of_isHalted h]
    induction n with
    | zero => rfl
    | succ n ih => rw [run, if_pos h]
  · rfl

theorem run_step (e : Embedding) (m : Machine) (n : Nat) :
    m.run e (n + 1) = (m.run e n).step e := by
  induction n generalizing m with
  | zero => rw [run_succ]; rfl
  | succ n ih => rw [run_succ, ih, ← run_succ]

theorem Sound.run {e : Embedding} {m : Machine} (h : m.Sound) (n : Nat) : (m.run e n).Sound := by
  induction n with
  | zero => exact h
  | succ n ih =>
    rw [run_step]
    exact ih.move.2

end Machine

theorem Reached.run {e : Embedding} {m : Machine} (h : Reached e m) (n : Nat) :
    Reached e (m.run e n) := by
  induction n with
  | zero => exact h
  | succ n ih =>
    rw [Machine.run_step]
    exact ih.step

end ActionVm
