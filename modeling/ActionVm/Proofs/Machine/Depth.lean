import ActionVm.Proofs.Machine.Balance
import ActionVm.Proofs.Machine.Scopes
import ActionVm.Tag

/-!
# How deep blocks nest in progress

Bodies nest as deep as the decoder lets them, and every other block in progress belongs to a call
that counts, but for the first.

* `Shallow`: bodies nest at most so deep, with **`shallow_of_decodeActions`**,
  **`shallow_of_decodeInitActions`**: decoded blocks;
* `Nested.length_le`: the blocks in progress in one invocation;
* `Spaced`: between two invocations that wait there is a call;
* `Machine.Ready`: what holds of a machine that runs decoded blocks, with **`Machine.Ready.step`**;
* `hasBodies_install`: a worker with the objects of the host;
* **`Machine.blocks_in_progress_bounded`**: the number of blocks in progress in every run.
-/

namespace ActionVm

/-! ## Blocks -/

/-- The bodies of a block nest at most `n` deep. -/
def Shallow : ℕ → Block → Prop
  | 0, b => ∀ x ∈ b.records, x.action.body? = none
  | n + 1, b => ∀ x ∈ b.records, ∀ d, x.action.body? = some d → Shallow n d

/-- A body nests less deep than the block around it. -/
theorem Shallow.body {n : ℕ} {b d : Block} {x : Record} (h : Shallow n b) (hx : x ∈ b.records)
    (hd : x.action.body? = some d) : ∃ k, n = k + 1 ∧ Shallow k d := by
  cases n with
  | zero =>
    rw [h x hx] at hd
    cases hd
  | succ k => exact ⟨k, rfl, h x hx d hd⟩

theorem Shallow.succ {n : ℕ} : ∀ {b : Block}, Shallow n b → Shallow (n + 1) b := by
  induction n with
  | zero =>
    intro b h x hx d hd
    rw [h x hx] at hd
    cases hd
  | succ n ih => exact fun h x hx d hd => ih (h x hx d hd)

theorem shallow_of_sequence {decode : Option (Reader → Except DecodeError Block)} {n : ℕ} :
    ∀ {zeros : Bool} {s : List UInt8} {i j : ℕ} {b : Block}, decode = decoderBelow n →
      Sequence decode zeros s i b.records j → Shallow n b := by
  -- each body was decoded with one level less to go
  induction n generalizing decode with
  | zero =>
    rintro zeros s i j b rfl h x hx
    rcases hb : x.action.body? with _ | d
    · rfl
    · obtain ⟨k, hk, -⟩ := (h.record x hx).sequence hb
      cases hk
  | succ n ih =>
    rintro zeros s i j b rfl h x hx d hd
    obtain ⟨k, hk, hs⟩ := (h.record x hx).sequence hd
    cases hk
    exact ih rfl hs

/-- **In a decoded stream** bodies nest at most as deep as the limit says. -/
theorem shallow_of_decodeActions {s : List UInt8} {b : Block} (h : decodeActions s = .ok b) :
    Shallow maxNesting b := shallow_of_sequence rfl (sequence_of_decodeActions h)

/-- **So they do in decoded init actions.** -/
theorem shallow_of_decodeInitActions {s : List UInt8} {tag : InitActions}
    (h : decodeInitActions s = .ok tag) : Shallow maxNesting tag.actions := by
  obtain ⟨r', h⟩ := Read.run_eq_ok_iff.mp h
  obtain ⟨sprite, r₁, hsprite, h⟩ := Read.gives_bind.mp h
  obtain ⟨b, r₂, hb, h⟩ := Read.gives_bind.mp h
  obtain ⟨rfl, rfl⟩ := Read.gives_pure.mp h
  have hstart : (Reader.ofBytes s).In s := ⟨rfl, Nat.zero_le _⟩
  exact shallow_of_sequence rfl (readRecords_spec (In_of_u16 hstart hsprite).2.1 hb)

namespace Nested

variable {c c₀ : Cursor} {n : ℕ}

/-- The more blocks are in progress, the less deep bodies nest in the innermost. -/
theorem exists_shallow (hb : Shallow n c₀.block) : ∀ {l : List Cursor} {c : Cursor},
    Nested (c :: l) → (c :: l).getLast? = some c₀ →
      ∃ k, Shallow k c.block ∧ l.length + k = n
  | [], c, _, hl => by
    cases hl
    exact ⟨n, hb, Nat.zero_add n⟩
  | d :: l, c, h, hl => by
    obtain ⟨k, hk, hn⟩ := exists_shallow hb h.tail (by simpa using hl)
    obtain ⟨x, hx, hbody⟩ := h.exists_record
    obtain ⟨j, rfl, hj⟩ := hk.body hx (congrArg Action.body? hbody)
    exact ⟨j, hj, by rw [List.length_cons]; omega⟩

end Nested

theorem Encloses.shallow {n : ℕ} {b d : Block} (h : Encloses b d) (hb : Shallow n b) :
    Shallow n d := by
  induction h with
  | refl => exact hb
  | body _ hx hd ih =>
    obtain ⟨k, rfl, hk⟩ := ih.body hx (congrArg Action.body? hd)
    exact hk.succ

/-- The invocation runs a block that has the property. -/
def Invocation.Runs (P : Block → Prop) (i : Invocation) : Prop := ∃ b, i.block? = some b ∧ P b

namespace Invocation

variable {n : ℕ} {i : Invocation}

theorem Runs.of_block?_eq {P : Block → Prop} {j : Invocation} (h : i.Runs P)
    (hj : j.block? = i.block?) : j.Runs P := by
  rwa [Runs, hj]

/-- As many blocks are in progress in an invocation as bodies nest, and one more. -/
theorem Runs.length_cursors_le (h : i.Runs (Shallow n)) (hn : Nested i.cursors) :
    i.cursors.length ≤ n + 1 := by
  obtain ⟨b, hb, hshallow⟩ := h
  obtain ⟨c₀, hlast, rfl⟩ := getLast?_cursors hb
  rcases hi : i.cursors with _ | ⟨c, l⟩
  · exact Nat.zero_le _
  · rw [hi] at hn hlast
    obtain ⟨k, -, hk⟩ := hn.exists_shallow hshallow hlast
    rw [List.length_cons]
    omega

/-- The functions that the action at hand defines have bodies that nest no deeper. -/
theorem Runs.definesIn (h : i.Runs (Shallow n)) (hn : Nested i.cursors) :
    i.DefinesIn (Shallow n) := by
  intro record hr
  obtain ⟨b, hb, hshallow⟩ := h
  obtain ⟨d, hd, hmem⟩ := exists_encloses hn hb hr
  have hbody : ∀ body, record.action.body? = some body → Shallow n body := by
    intro body hbody
    obtain ⟨k, rfl, hk⟩ := (hd.shallow hshallow).body hmem hbody
    exact hk.succ
  cases ha : record.action with
  | defineFunction _ _ body => exact hbody body (congrArg Action.body? ha)
  | defineFunction2 _ _ _ _ body => exact hbody body (congrArg Action.body? ha)
  | _ => trivial

end Invocation

/-! ## Frames -/

/-- Between two invocations that wait there is a call that counts, and there is one below an
invocation that is in control, unless it is the first one. -/
def Spaced : Bool → List Frame → Prop
  | _, [] => True
  | inControl, .code _ :: frames => inControl = false ∧ Spaced true frames
  | _, .call _ :: frames => Spaced false frames
  | inControl, .load _ :: frames => Spaced inControl frames

theorem Spaced.weaken {frames : List Frame} (h : Spaced true frames) : Spaced false frames := by
  induction frames with
  | nil => trivial
  | cons frame frames ih =>
    cases frame with
    | code i => cases h.1
    | call r => exact h
    | load d => exact ih h

/-- The frame is an invocation. -/
def Frame.isCode : Frame → Bool
  | code _ => true
  | _ => false

/-- The number of invocations that wait. -/
def waiting (frames : List Frame) : ℕ := frames.countP Frame.isCode

@[simp] theorem waiting_code (i : Invocation) (frames : List Frame) :
    waiting (.code i :: frames) = waiting frames + 1 := List.countP_cons_of_pos rfl

@[simp] theorem waiting_call (r : Request) (frames : List Frame) :
    waiting (.call r :: frames) = waiting frames := List.countP_cons_of_neg nofun

@[simp] theorem waiting_load (d : DomainId) (frames : List Frame) :
    waiting (.load d :: frames) = waiting frames := List.countP_cons_of_neg nofun

/-- There are no more invocations than calls, and one more. -/
theorem Spaced.waiting_le {frames : List Frame} : ∀ {inControl : Bool}, Spaced inControl frames →
    waiting frames + inControl.toNat ≤ calls frames + 1 := by
  induction frames with
  | nil => exact fun {inControl} _ => by cases inControl <;> decide
  | cons frame frames ih =>
    intro inControl h
    cases frame with
    | code i =>
      obtain ⟨rfl, h⟩ := h
      have hle := ih h
      rw [waiting_code, calls_code]
      simpa using hle
    | call r =>
      have hle := ih (show Spaced false frames from h)
      have hone := inControl.toNat_le
      rw [Bool.toNat_false] at hle
      rw [waiting_call, calls_call]
      omega
    | load d =>
      rw [waiting_load, calls_load]
      exact ih h

/-- In each invocation that waits the blocks in progress are limited. -/
theorem length_cursors_frames_le {n : ℕ} {frames : List Frame}
    (h : ∀ i, .code i ∈ frames → i.cursors.length ≤ n) :
    (frames.flatMap Frame.cursors).length ≤ waiting frames * n := by
  induction frames with
  | nil => exact Nat.zero_le _
  | cons frame frames ih =>
    have hle := ih fun i hi => h i (List.mem_cons_of_mem _ hi)
    rw [List.flatMap_cons, List.length_append]
    cases frame with
    | code i =>
      have hi := h i List.mem_cons_self
      rw [waiting_code, Nat.succ_mul, Nat.add_comm]
      exact Nat.add_le_add hle hi
    | call _ | load _ => simpa [Frame.cursors] using hle

/-! ## Machines -/

/-- Bodies nest in the block at most as deep as the decoder lets them. -/
def Limited (b : Block) : Prop := Shallow maxNesting b

/-- An invocation is in control. -/
def Control.inControl : Control → Bool
  | .go _ | .ended _ _ => true
  | _ => false

namespace Machine

variable {e : Embedding} {m m' : Machine}

/-- What holds of a machine that runs decoded blocks. -/
structure Ready (m : Machine) : Prop where
  sound : m.Sound
  control : ∀ i, m.control = .go i → i.Runs Limited
  frames : ∀ i, .code i ∈ m.frames → i.Runs Limited
  spaced : Spaced m.control.inControl m.frames
  bodies : m.state.store.HasBodies Limited

theorem continues_inControl {control : Control} {b : Option Block} (h : control.Continues b) :
    control.inControl = true := by
  cases control with
  | go _ | ended _ _ => rfl
  | call _ | answer _ => exact h.elim

theorem continues_runs {control : Control} {i : Invocation} (h : control.Continues i.block?)
    (hi : i.Runs Limited) : ∀ j, control = .go j → j.Runs Limited := by
  rintro j rfl
  exact hi.of_block?_eq h

/-- **A step** keeps a machine ready. -/
theorem Ready.turn (he : e.Steady Limited) (h : m.Ready) (hs : m'.Sound)
    (ht : Turn e Limited m m') : m'.Ready := by
  obtain ⟨hsound, hcontrol, hframes, hspaced, hbodies⟩ := h
  cases ht with
  | @act i control frames s s' hc hsteady =>
    have hi := hcontrol i rfl
    have hdefines := hi.definesIn hsound.control.1.nested
    refine ⟨hs, continues_runs hc hi, hframes, ?_, (hsteady he hdefines).bodies hbodies⟩
    rwa [continues_inControl hc]
  | @wait i j r frames s s' hj hsteady =>
    have hi := hcontrol i rfl
    have hdefines := hi.definesIn hsound.control.1.nested
    refine ⟨hs, (by rintro _ ⟨⟩), fun k hk => ?_, ⟨rfl, hspaced⟩,
      (hsteady he hdefines).bodies hbodies⟩
    rcases List.mem_cons.mp hk with hk | hk
    · cases hk
      exact hi.of_block?_eq hj
    · exact hframes k hk
  | finish => exact ⟨hs, by rintro _ ⟨⟩, hframes, hspaced.weaken, hbodies⟩
  | refuse => exact ⟨hs, by rintro _ ⟨⟩, hframes, hspaced, hbodies⟩
  | @enter r control frames s s' _ hc hsteady =>
    refine ⟨hs, ?_, fun k hk => ?_, hspaced, (hsteady he).bodies hbodies⟩
    · -- what starts is the body of a script function
      rintro j rfl
      obtain ⟨_, ⟨⟩⟩ | ⟨_, ⟨⟩⟩ | ⟨c, b, ⟨⟩, hb⟩ := hc
      exact ⟨b, rfl, hb hbodies⟩
    · rcases List.mem_cons.mp hk with hk | hk
      · cases hk
      · exact hframes k hk
  | @load r d frames s s' _ _ hsteady hload =>
    have hbodies := (hload.state he).bodies ((hsteady he).bodies hbodies)
    refine ⟨hs, fun j hj => ?_, fun k hk => ?_, ?_, hbodies⟩
    · rcases hload.control with ⟨_, ha⟩ | ⟨c, b, bytes, hgo, hb⟩
      · cases ha.symm.trans hj
      · cases hgo.symm.trans hj
        exact ⟨b, rfl, shallow_of_decodeActions hb⟩
    · rw [hload.frames] at hk
      rcases List.mem_cons.mp hk with hk | hk
      · cases hk
      · rcases List.mem_cons.mp hk with hk | hk
        · cases hk
        · exact hframes k hk
    · rw [hload.frames]
      exact hspaced
  | @proceed a i control frames s hc =>
    have hi := hframes i List.mem_cons_self
    refine ⟨hs, continues_runs hc hi, fun k hk => hframes k (List.mem_cons_of_mem _ hk), ?_,
      hbodies⟩
    rw [continues_inControl hc]
    exact hspaced.2
  | leaveCall | leaveLoad =>
    exact ⟨hs, by rintro _ ⟨⟩, fun k hk => hframes k (List.mem_cons_of_mem _ hk), hspaced,
      hbodies⟩
  | halted _ => exact ⟨hsound, hcontrol, hframes, hspaced, hbodies⟩

theorem Ready.step (he : e.Steady Limited) (h : m.Ready) : (m.step e).Ready :=
  h.turn he h.sound.move.2 (turn_step e Limited m)

theorem Ready.run (he : e.Steady Limited) (h : m.Ready) (n : ℕ) : (m.run e n).Ready := by
  induction n with
  | zero => exact h
  | succ n ih =>
    rw [run_step]
    exact ih.step he

theorem ready_start {s : State} (hs : s.store.HasBodies Limited) {c : Context}
    (hc : c.pendingJump = none) {b : Block} (hb : Limited b) : (start s c b).Ready := by
  have hreached : Reached .none (start s c b) := .start s b hc
  refine ⟨hreached.sound, ?_, fun _ h => absurd h List.not_mem_nil, trivial, hs⟩
  rintro i ⟨⟩
  exact ⟨b, rfl, hb⟩

/-- There are as many blocks in progress as the calls that are nested let there be. -/
theorem Ready.length_cursors_le (h : m.Ready) :
    m.cursors.length ≤ (calls m.frames + 1) * (maxNesting + 1) := by
  have hwaiting : (m.frames.flatMap Frame.cursors).length ≤ waiting m.frames * (maxNesting + 1) :=
    length_cursors_frames_le fun i hi =>
      (h.frames i hi).length_cursors_le (h.sound.frames _ hi).nested
  have hcontrol : m.control.cursors.length ≤ m.control.inControl.toNat * (maxNesting + 1) := by
    have hsound := h.sound.control
    have hruns := h.control
    cases hc : m.control with
    | go i =>
      rw [hc] at hsound
      rw [Control.inControl, Bool.toNat_true, Nat.one_mul]
      exact (hruns i hc).length_cursors_le hsound.1.nested
    | ended _ _ | call _ | answer _ => exact Nat.zero_le _
  have hle := Nat.mul_le_mul_right (maxNesting + 1) h.spaced.waiting_le
  rw [Nat.add_mul] at hle
  rw [cursors, List.length_append]
  omega

end Machine

/-! ## Workers with the objects of the host -/

section Install

variable {P : Block → Prop} {s : Store}

theorem hasBodies_ofClass (hs : s.HasBodies P) (className : String) (proto : Option ObjectId) :
    (s.addObject (.ofClass className proto)).2.HasBodies P := hs.addObject nofun

theorem hasBodies_host (hs : s.HasBodies P) (f : HostFunction) :
    (s.addFunction (.host f)).2.HasBodies P := hs.addFunction nofun

theorem hasBodies_define (hs : s.HasBodies P) (o : ObjectId) (name : String) (v : Value) :
    (s.define o name v).HasBodies P := hs.modify o fun _ => rfl

theorem hasBodies_defineMethod (hs : s.HasBodies P) (o : ObjectId) (name : String)
    (f : HostFunction) : (Host.defineMethod o name f s).HasBodies P := by
  unfold Host.defineMethod
  dsimp only
  exact hasBodies_define (hasBodies_host hs f) _ _ _

theorem hasBodies_defineMethods {α : Type} (o : ObjectId) (name : α → String)
    (f : α → HostFunction) (l : List α) : ∀ {s : Store}, s.HasBodies P →
      (l.foldl (fun s a => Host.defineMethod o (name a) (f a) s) s).HasBodies P := by
  induction l with
  | nil => exact id
  | cons a l ih => exact fun hs => ih (hasBodies_defineMethod hs o (name a) (f a))

theorem hasBodies_defineGetter (hs : s.HasBodies P) (o : ObjectId) (name : String) (g : Getter) :
    (Host.defineGetter o name g s).HasBodies P := hs.modify o fun _ => rfl

theorem hasBodies_defineGetters (o : ObjectId) (l : List (String × Getter)) :
    ∀ {s : Store}, s.HasBodies P →
      (l.foldl (fun s (name, g) => Host.defineGetter o name g s) s).HasBodies P := by
  induction l with
  | nil => exact id
  | cons a l ih => exact fun hs => ih (hasBodies_defineGetter hs o a.1 a.2)

theorem hasBodies_fileObject (hs : s.HasBodies P) : (Host.fileObject s).2.HasBodies P := by
  unfold Host.fileObject
  dsimp only
  exact hasBodies_defineMethods _ _ _ _ (hasBodies_ofClass hs _ _)

theorem hasBodies_systemObject (hs : s.HasBodies P) : (Host.systemObject s).2.HasBodies P := by
  have hleading := hasBodies_defineMethods ⟨s.objects.size⟩ Prod.fst (fun x => .system x.2)
    Host.leadingSystemMethods (hasBodies_ofClass hs "System" none)
  have hgetters := hasBodies_defineGetters ⟨s.objects.size⟩ Host.systemGetters hleading
  exact hasBodies_defineMethods _ Prod.fst (fun x => .system x.2) Host.trailingSystemMethods
    hgetters

theorem hasBodies_domainClass (hs : s.HasBodies P) : (Host.domainClass s).2.HasBodies P := by
  have hmethods := hasBodies_defineMethods ⟨s.objects.size⟩ Host.Domain.name .domain
    Host.Domain.all (hasBodies_ofClass hs "Object" none)
  have hmemory := hmethods.modify ⟨s.objects.size⟩ (f :=
    (·.defineAccessor "domainMemory" (some .domainMemory) (some .domainMemory))) fun _ => rfl
  have hclass := hasBodies_define (hasBodies_host hmemory (.domainClass ⟨s.objects.size⟩))
  exact hasBodies_defineGetter (hasBodies_defineGetter (hclass _ _ _) _ _ _) _ _ _

/-- **A worker with the objects of the host** has no script functions yet. -/
theorem hasBodies_install (config : EngineConfig) (files : Files) (settings : HostSettings) :
    (Host.install files settings (State.start config)).store.HasBodies P := by
  have hempty : Store.empty.HasBodies P := by
    intro o c h
    rw [Store.object_of_size_le (Nat.zero_le _)] at h
    cases h
  have hstart : (State.start config).store.HasBodies P :=
    (hasBodies_ofClass hempty "global" none).of_objects_eq rfl
  -- the objects of the host, the last first
  refine hasBodies_defineMethod (hasBodies_defineMethod (hasBodies_define ?_ _ _ _) _ _ _) _ _ _
  refine hasBodies_define (hasBodies_domainClass ?_) _ _ _
  refine hasBodies_define (hasBodies_systemObject ?_) _ _ _
  exact hasBodies_define (hasBodies_fileObject (hasBodies_ofClass hstart _ _)) _ _ _

end Install

/-! ## Runs of decoded blocks -/

namespace Machine

/-- **Blocks in progress**: where a decoded block is run, and the script functions of the worker have
bodies that nest no deeper than decoded ones, at every step there are at most as many blocks in
progress as calls may be nested, and one more, each with as many bodies as may nest. A worker with
nothing but the objects of the host has no deeper bodies, and a run adds none. -/
theorem blocks_in_progress_bounded {e : Embedding} (he : e.Steady Limited) :
    (∀ config files settings,
      (Host.install files settings (State.start config)).store.HasBodies Limited) ∧
    ∀ (s : State) (b : Block), s.store.HasBodies Limited →
      ((∃ bytes, decodeActions bytes = .ok b) ∨
        ∃ bytes tag, decodeInitActions bytes = .ok tag ∧ tag.actions = b) →
      ∀ n, ((start s (topContext s.worker (e.root s)) b).run e n).cursors.length ≤
          (s.worker.config.maxCallDepth + 1) * (maxNesting + 1) ∧
        ((start s (topContext s.worker (e.root s)) b).run e n).state.store.HasBodies Limited := by
  refine ⟨fun config files settings => hasBodies_install config files settings,
    fun s b hs hb n => ?_⟩
  have hlimited : Limited b := by
    rcases hb with ⟨bytes, hb⟩ | ⟨bytes, tag, hb, rfl⟩
    · exact shallow_of_decodeActions hb
    · exact shallow_of_decodeInitActions hb
  have hready := (ready_start hs (c := topContext s.worker (e.root s)) rfl hlimited).run he n
  have hcalls : calls ((start s (topContext s.worker (e.root s)) b).run e n).frames ≤
      s.worker.config.maxCallDepth := by
    have hbegin : Begins e s [] (start s (topContext s.worker (e.root s)) b) := .block _ b
    obtain ⟨above, hframes, hover⟩ := over_run_nil he.alike (hbegin.over he.alike) n
    rw [List.append_nil] at hframes
    rw [hframes]
    have hdepth := hover.callDepth
    have hbound := hover.bounded
    omega
  exact ⟨hready.length_cursors_le.trans (Nat.mul_le_mul_right _ (Nat.succ_le_succ hcalls)),
    hready.bodies⟩

/-- A jump in a body in a block, where two blocks are in progress. -/
theorem blocks_in_progress_of_body :
    let b : Block := ⟨[⟨0, 8, .defineFunction "" [] ⟨[], 0⟩⟩,
      ⟨8, 12, .withObject ⟨[⟨0, 5, .jump 1⟩, ⟨5, 1, .op .play⟩, ⟨6, 1, .op .stop⟩], 7⟩⟩], 20⟩
    let s := Host.install .empty default (State.start ⟨10, 3, false⟩)
    let m := start s (topContext s.worker) b
    s.store.HasBodies Limited ∧
      decodeActions [0x9B, 5, 0, 0, 0, 0, 0, 0, 0x94, 2, 0, 7, 0, 0x99, 2, 0, 1, 0, 6, 7] = .ok b ∧
      (m.run .none 2).cursors.length = 2 ∧
      (m.run .none 2).cursors.length ≤ (3 + 1) * (maxNesting + 1) := by
  intro b s m
  obtain ⟨hinstall, hrun⟩ := blocks_in_progress_bounded (e := .none) Embedding.steady_none
  have hs : s.store.HasBodies Limited := hinstall _ _ _
  have hb : decodeActions [0x9B, 5, 0, 0, 0, 0, 0, 0, 0x94, 2, 0, 7, 0, 0x99, 2, 0, 1, 0, 6, 7] =
      .ok b := by
    unfold b
    rw [← Utf8.repair_nil]
    rfl
  exact ⟨hs, hb, by decide +kernel, (hrun s b hs (.inl ⟨_, hb⟩) 2).1⟩

end Machine

end ActionVm
