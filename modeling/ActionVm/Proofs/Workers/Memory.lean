import ActionVm.Proofs.Machine.Evolution
import ActionVm.Proofs.Workers.Slots

/-!
# The memory of domains

Memory that is too short is refused, by the host and by scripts alike, and what is refused changes
nothing. Buffers keep their lengths. So whatever workers run, memory is never too short.

* `Store.MemoryFits`: all memory that domains have is long enough, with
  **`Store.MemoryFits.change`**: no change breaks this;
* `Store.memoryOf?`: the memory that a value stands for, with **`setProperty_domainMemory`**: what
  an assignment of it does;
* `Crew`, `Crew.Step`: workers with one store that run scripts, and what happens to them, with
  **`Crew.memoryFits_of_steps`**;
* **`compareAndSwap_of_memoryFits`**: slots that all memory has;
* **`Crew.memory_never_short`**: memory, the attempts to attach it, and calls that swap in it.
-/

namespace ActionVm

open Function

/-! ## Changes of the store -/

namespace Store

variable {s : Store} {b : BufferId}

/-- All memory that domains have is long enough. -/
def MemoryFits (s : Store) : Prop :=
  ∀ d b, s.memory? d = some b → ScriptError.leastMemory ≤ (s.buffer b).length

theorem length_buffer_setBuffer {x : Buffer} (hx : x.length = (s.buffer b).length)
    (b' : BufferId) : ((s.setBuffer b x).buffer b').length = (s.buffer b').length := by
  rw [buffer_setBuffer]
  split_ifs with h
  · rw [h.1, hx]
  · rfl

theorem memory?_addDomain (parent : Option DomainId) (d : DomainId) :
    (s.addDomain parent).2.memory? d = s.memory? d := by
  rw [memory?, domain_addDomain]
  split_ifs with h
  · rw [memory?, domain_of_size_le h.ge]
    rfl
  · rfl

theorem memory?_setMemory (d : DomainId) (memory : Option BufferId) (d' : DomainId) :
    (s.setMemory d memory).memory? d' = memory ∨
      (s.setMemory d memory).memory? d' = s.memory? d' := by
  rw [memory?, setMemory, domain_modifyDomain]
  split_ifs
  · exact Or.inl rfl
  · exact Or.inr rfl

theorem memory?_defineClass (d : DomainId) (name : String) (v : Value) (d' : DomainId) :
    (s.defineClass d name v).memory? d' = s.memory? d' := by
  rw [memory?, defineClass, domain_modifyDomain]
  split_ifs with h
  · rw [h.1]
    rfl
  · rfl

/-- **No change makes memory too short.** -/
theorem MemoryFits.change {P : Block → Prop} {s s' : State} (h : s.Change P s')
    (hs : s.store.MemoryFits) : s'.store.MemoryFits := by
  cases h with
  | worker | modify | addObject => exact hs
  | addBuffer buffer =>
    intro d b hb
    have hlength := hs d b hb
    -- memory has bytes, so it is in the store already and the fresh name is another one
    have hin := lt_size_of_length_pos (Nat.lt_of_lt_of_le (by decide) hlength)
    rw [buffer_addBuffer, if_neg hin.ne]
    exact hlength
  | setBuffer b hbuffer =>
    intro d b' hb
    rw [length_buffer_setBuffer hbuffer]
    exact hs d b' hb
  | addDomain parent =>
    intro d b hb
    rw [memory?_addDomain] at hb
    exact hs d b hb
  | defineClass d name v =>
    intro d' b hb
    rw [memory?_defineClass] at hb
    exact hs d' b hb
  | setMemory d memory =>
    have hset : (∀ b, memory = some b → ScriptError.leastMemory ≤ (s.store.buffer b).length) →
        (s.store.setMemory d memory).MemoryFits := by
      intro hmemory d' b hb
      rcases memory?_setMemory (s := s.store) d memory d' with h | h
      · exact hmemory b (h.symm.trans hb)
      · exact hs d' b (h.symm.trans hb)
    cases memory with
    | none => exact hset nofun
    | some b =>
      rw [Exec.setMemory_some]
      split_ifs with hshort
      · exact hs
      · refine hset fun b' hb' => ?_
        cases hb'
        omega

end Store

/-! ## Attempts to attach memory -/

/-- The memory that a value stands for: none for null and undefined, and else the buffer of a byte
array. -/
def Store.memoryOf? (s : Store) (v : Value) : Option (Option BufferId) :=
  if v.isNullish then some none else (v.object?.bind fun o => (s.object o).buffer?).map some

/-- The attempt fails with an error of this kind, and nothing changes. -/
def Refuses (x : Exec Unit) (kind : ErrorKind) (s : State) : Prop :=
  ∃ error, error.kind = kind ∧ x s = (.error error, s)

theorem setMemory_cases (d : DomainId) (memory : Option BufferId) (s : State) :
    (∃ b, memory = some b ∧ (s.store.buffer b).length < ScriptError.leastMemory ∧
        Refuses (Exec.setMemory d memory) .rangeError s) ∨
      (∀ b, memory = some b → ScriptError.leastMemory ≤ (s.store.buffer b).length) ∧
        Exec.setMemory d memory s = (.ok (), ⟨s.store.setMemory d memory, s.worker⟩) := by
  cases memory with
  | none => exact Or.inr ⟨nofun, Exec.setMemory_none d s⟩
  | some b =>
    have hset := Exec.setMemory_some d b s
    split_ifs at hset with hshort
    · exact Or.inl ⟨b, rfl, hshort, _, rfl, hset⟩
    · refine Or.inr ⟨fun b' hb' => ?_, hset⟩
      cases hb'
      omega

section Attach

variable {e : Embedding} {s : State} {o : ObjectId} {v : Value} {memory : Option BufferId}

theorem optionalBuffer_of_some (h : s.store.memoryOf? v = some memory) (function : String)
    (i : ℕ) : optionalBuffer function i v s = (.ok memory, s) := by
  unfold Store.memoryOf? at h
  unfold optionalBuffer optionalPayload
  split_ifs at h with hnullish
  · cases h
    simp only [hnullish]
    rfl
  · obtain ⟨b, hb, rfl⟩ := Option.map_eq_some_iff.mp h
    simp only [hnullish]
    rw [if_neg (by decide), Exec.bind_ask, hb]
    rfl

theorem optionalBuffer_of_none (h : s.store.memoryOf? v = none) (function : String) (i : ℕ) :
    optionalBuffer function i v s =
      (.error (.wrongArgument function i "ByteArray" (s.store.kind v)), s) := by
  unfold Store.memoryOf? at h
  unfold optionalBuffer optionalPayload
  split_ifs at h with hnullish
  have hb := Option.map_eq_none_iff.mp h
  simp only [hnullish]
  rw [if_neg (by decide), Exec.bind_ask, hb]
  rfl

theorem thisDomain_object (o : ObjectId) (s : State) : thisDomain (.object o) s =
    match (s.store.object o).domain? with
    | some d => (.ok d, s)
    | none => (.error (.notADomain (s.store.kind (.object o))), s) := by
  unfold thisDomain
  rw [Exec.bind_ask]
  rcases h : (s.store.object o).domain? with _ | d
  · have hfound : ((Value.object o).object?.bind fun o => (s.store.object o).domain?) = none := h
    rw [hfound]
    rfl
  · have hfound : ((Value.object o).object?.bind fun o => (s.store.object o).domain?) = some d := h
    rw [hfound]
    rfl

/-- **An assignment of memory to an object**: the value has to be a byte array or nothing, and the
object has to be one for a domain. -/
theorem setProperty_domainMemory {get : Option Getter}
    (hsetter : s.store.lookup? o "domainMemory" = some (.accessor get (some .domainMemory))) :
    setProperty e o "domainMemory" v s =
      match s.store.memoryOf? v, (s.store.object o).domain? with
      | none, _ => (.error (.wrongArgument "domainMemory" 0 "ByteArray" (s.store.kind v)), s)
      | some _, none => (.error (.notADomain (s.store.kind (.object o))), s)
      | some memory, some d => Exec.setMemory d memory s := by
  -- the name is none of those that an object treats by itself, so its setter runs
  have hindex : Text.index? "domainMemory" = none := by decide +kernel
  have hsetProperty : setProperty e o "domainMemory" v s =
      Setter.run e (.object o) v .domainMemory s := by
    unfold setProperty
    rw [Exec.bind_ask, hindex]
    rcases (s.store.object o).buffer? with _ | b
    all_goals
      dsimp only
      rw [if_neg (by decide), Exec.bind_ask, hsetter]
  rw [hsetProperty]
  unfold Setter.run
  dsimp only
  rcases hmemory : s.store.memoryOf? v with _ | memory
  · exact Exec.bind_of_error (optionalBuffer_of_none hmemory _ _)
  · rw [Exec.bind_of_ok (optionalBuffer_of_some hmemory _ _)]
    have hdomain := thisDomain_object o s
    rcases hd : (s.store.object o).domain? with _ | d
    · rw [hd] at hdomain
      exact Exec.bind_of_error hdomain
    · rw [hd] at hdomain
      exact Exec.bind_of_ok hdomain

theorem assignment_cases {get : Option Getter}
    (hsetter : s.store.lookup? o "domainMemory" = some (.accessor get (some .domainMemory))) :
    match s.store.memoryOf? v, (s.store.object o).domain? with
    | some memory, some d => setProperty e o "domainMemory" v s = Exec.setMemory d memory s
    | _, _ => Refuses (setProperty e o "domainMemory" v) .typeError s := by
  have hset := setProperty_domainMemory (e := e) (v := v) hsetter
  rcases hmemory : s.store.memoryOf? v with _ | memory
  · rw [hmemory] at hset
    exact ⟨_, rfl, hset⟩
  · rcases hd : (s.store.object o).domain? with _ | d
    · rw [hmemory, hd] at hset
      exact ⟨_, rfl, hset⟩
    · rw [hmemory, hd] at hset
      exact hset

end Attach

/-! ## Calls that swap -/

section Swap

variable {e : Embedding} {s : State} {this : Value} {args : List Value}

theorem run_compareAndSwap (hargs : args.length = 3) {a : Value} {s' : State}
    (hrun : Swap.run ⟨s.store.memory? s.worker.activeDomain,
      (Host.argument args 0).toUInt32.toNat, (Host.argument args 1).toInt32,
      (Host.argument args 2).toInt32⟩ s = (.ok a, s')) :
    HostFunction.compareAndSwap.run e this args s = (.ok (.value a), s') := by
  have hfind := Swap.find_eq args s
  rw [if_pos hargs] at hfind
  have hswap : Host.compareAndSwap args s = (.ok a, s') := by
    rw [Swap.compareAndSwap_eq_find_run, Exec.bind_of_ok hfind, hrun]
  exact Exec.bind_of_ok hswap

/-- **A call in the slots that all memory has** never fails. -/
theorem compareAndSwap_of_memoryFits (hs : s.store.MemoryFits) (hargs : args.length = 3)
    (haligned : (Host.argument args 0).toUInt32.toNat % 4 = 0)
    (haddress : (Host.argument args 0).toUInt32.toNat < ScriptError.leastMemory) :
    ∃ n s', HostFunction.compareAndSwap.run e this args s = (.ok (.value (.integer n)), s') := by
  rcases hd : s.store.memory? s.worker.activeDomain with _ | b
  · exact ⟨_, _, run_compareAndSwap hargs (Swap.run_of_memory_eq_none hd)⟩
  · have hlength := hs _ b hd
    have hslot : (s.store.buffer b).hasSlot (Host.argument args 0).toUInt32.toNat = true := by
      simp only [Buffer.hasSlot, Buffer.covers, Bool.and_eq_true, decide_eq_true_eq]
      unfold ScriptError.leastMemory at haddress hlength
      omega
    exact ⟨_, _, run_compareAndSwap hargs (Swap.run_of_number?_eq_some hd (if_pos hslot))⟩

/-- Without memory a call answers with zero and changes nothing. -/
theorem compareAndSwap_of_memory?_eq_none (hargs : args.length = 3)
    (hd : s.store.memory? s.worker.activeDomain = none) :
    HostFunction.compareAndSwap.run e this args s = (.ok (.value (.integer 0)), s) :=
  run_compareAndSwap hargs (Swap.run_of_memory_eq_none hd)

end Swap

/-! ## Workers that run scripts -/

/-- Workers with one store, and what those of them do that run a script. -/
structure Crew (ι : Type) where
  store : Store
  worker : ι → Worker
  script? : ι → Option (Control × List Frame)

namespace Crew

variable {ι : Type} [DecidableEq ι] {e : Embedding} {c c' : Crew ι}

/-- What one of the crew sees. -/
def state (c : Crew ι) (i : ι) : State := ⟨c.store, c.worker i⟩

/-- The crew after one of it has run a script so far. -/
def withMachine (c : Crew ι) (i : ι) (m : Machine) : Crew ι :=
  ⟨m.state.store, update c.worker i m.state.worker,
    update c.script? i (some (m.control, m.frames))⟩

/-- Something happens. -/
inductive Step (e : Embedding) (c : Crew ι) : Crew ι → Prop where
  /-- A worker starts to run something, whatever it has done before. -/
  | start (i : ι) (control : Control) (frames : List Frame) :
    Step e c (c.withMachine i ⟨control, frames, c.state i⟩)
  /-- A worker starts to load bytes into a domain. -/
  | load (i : ι) (d : DomainId) (bytes : List UInt8) (version : UInt32) :
    Step e c (c.withMachine i (.loading e (c.state i) d bytes version))
  /-- A worker goes on with what it runs. -/
  | next {i : ι} {control : Control} {frames : List Frame} :
    c.script? i = some (control, frames) →
    Step e c (c.withMachine i (Machine.step e ⟨control, frames, c.state i⟩))
  /-- The host attaches memory to a domain or takes it away, or tries to. -/
  | attach (i : ι) (d : DomainId) (memory : Option BufferId) :
    Step e c { c with store := (Exec.setMemory d memory (c.state i)).2.store }
  /-- The host makes a buffer, a domain or an object, or changes it. -/
  | change (i : ι) {s : State} : (c.state i).Change (fun _ => True) s →
    Step e c { c with store := s.store }
  /-- A worker begins anew. -/
  | hire (i : ι) (w : Worker) :
    Step e c { c with worker := update c.worker i w, script? := update c.script? i none }

theorem memoryFits_of_step (he : e.Within State.Evolves) (h : Step e c c')
    (hc : c.store.MemoryFits) : c'.store.MemoryFits := by
  have hevolves : ∀ {s s' : State}, s.Evolves s' → s.store.MemoryFits → s'.store.MemoryFits :=
    fun h hs => h.induction (fun h => Store.MemoryFits.change h) hs
  cases h with
  | start i control frames => exact hc
  | load i d bytes version =>
    exact hevolves (Machine.evolves_load he d bytes version) (s := c.state i) hc
  | @next i control frames _ =>
    exact hevolves (Machine.evolves_step he ⟨control, frames, c.state i⟩) hc
  | attach i d memory =>
    exact Store.MemoryFits.change (.setMemory (P := fun _ => True) (s := c.state i) d memory) hc
  | change i h => exact Store.MemoryFits.change h hc
  | hire i w => exact hc

/-- **Memory fits in every state that comes about.** -/
theorem memoryFits_of_steps (he : e.Within State.Evolves) {start : Crew ι}
    (hstart : ∀ d, start.store.memory? d = none) (h : Relation.ReflTransGen (Step e) start c) :
    c.store.MemoryFits := by
  induction h with
  | refl =>
    intro d b hb
    rw [hstart d] at hb
    cases hb
  | tail _ hstep ih => exact memoryFits_of_step he hstep ih

/-- **Memory is never too short.** Where no domain has memory at first, all memory that domains have
ever after is long enough, whatever is attached by the host or by scripts. An attempt of the host is
refused if the buffer is too short. A script assigns memory to an object: what is no byte array, and
an object that is none for a domain, are refused, and else it is as if the host tried. What is
refused changes nothing. So calls that swap in a slot which all memory has do not fail, and without
memory they answer with zero and change nothing. -/
theorem memory_never_short (he : e.Within State.Evolves) {start : Crew ι}
    (hstart : ∀ d, start.store.memory? d = none) (h : Relation.ReflTransGen (Step e) start c) :
    (∀ d b, c.store.memory? d = some b → ScriptError.leastMemory ≤ (c.store.buffer b).length) ∧
    ∀ i,
      (∀ d memory, (∃ b, memory = some b ∧ (c.store.buffer b).length < ScriptError.leastMemory ∧
          Refuses (Exec.setMemory d memory) .rangeError (c.state i)) ∨
        (∀ b, memory = some b → ScriptError.leastMemory ≤ (c.store.buffer b).length) ∧
          Exec.setMemory d memory (c.state i) =
            (.ok (), ⟨c.store.setMemory d memory, c.worker i⟩)) ∧
      (∀ o v get, c.store.lookup? o "domainMemory" =
          some (.accessor get (some .domainMemory)) →
        match c.store.memoryOf? v, (c.store.object o).domain? with
        | some memory, some d =>
          setProperty e o "domainMemory" v (c.state i) = Exec.setMemory d memory (c.state i)
        | _, _ => Refuses (setProperty e o "domainMemory" v) .typeError (c.state i)) ∧
      ∀ this args, args.length = 3 →
        ((Host.argument args 0).toUInt32.toNat % 4 = 0 →
          (Host.argument args 0).toUInt32.toNat < ScriptError.leastMemory →
          ∃ n s', HostFunction.compareAndSwap.run e this args (c.state i) =
            (.ok (.value (.integer n)), s')) ∧
        (c.store.memory? (c.worker i).activeDomain = none →
          HostFunction.compareAndSwap.run e this args (c.state i) =
            (.ok (.value (.integer 0)), c.state i)) := by
  have hfits := memoryFits_of_steps he hstart h
  refine ⟨hfits, fun i => ⟨fun d memory => setMemory_cases d memory (c.state i), ?_, ?_⟩⟩
  · exact fun o v get hsetter => assignment_cases (s := c.state i) hsetter
  · exact fun this args hargs => ⟨compareAndSwap_of_memoryFits (s := c.state i) hfits hargs,
      compareAndSwap_of_memory?_eq_none (s := c.state i) hargs⟩

/-- One worker, with an object for its domain and a byte array. -/
def beginner : Crew Unit where
  store :=
    ⟨#[.ofClass "global" none,
        (Object.domain ⟨0⟩ none).defineAccessor "domainMemory" (some .domainMemory)
          (some .domainMemory),
        .byteArray ⟨0⟩],
      #[.zeros 1024], #[⟨none, .empty, none⟩]⟩
  worker := fun _ => .idle .default ⟨0⟩ ⟨0⟩
  script? := fun _ => none

/-- The script that attaches the byte array. -/
def attaching : Machine :=
  let b : Block := ⟨[⟨0, 20, .push [.register 0, .string "domainMemory", .register 1]⟩,
    ⟨20, 1, .op .setMember⟩], 21⟩
  let context := (topContext (beginner.worker ())).setRegister 0 (.object ⟨1⟩)
  .start (beginner.state ()) (context.setRegister 1 (.object ⟨2⟩)) b

theorem memory_never_short_of_script :
    let m := (attaching.step .none).step .none
    let c := ((beginner.withMachine () attaching).withMachine () (attaching.step .none)).withMachine
      () m
    Relation.ReflTransGen (Step .none) beginner c ∧ c.store.memory? ⟨0⟩ = some ⟨0⟩ ∧
      1024 ≤ (c.store.buffer ⟨0⟩).length ∧ ∃ n s',
        HostFunction.compareAndSwap.run .none .undefined
          [.integer 8, .integer 0, .integer 77] (c.state ()) =
            (.ok (.value (.integer n)), s') := by
  intro m c
  have hbegin : Step .none beginner (beginner.withMachine () attaching) :=
    .start () attaching.control attaching.frames
  have hpush : Step .none (beginner.withMachine () attaching)
      ((beginner.withMachine () attaching).withMachine () (attaching.step .none)) := .next rfl
  have hassign : Step .none
      ((beginner.withMachine () attaching).withMachine () (attaching.step .none)) c := .next rfl
  have hsteps := ((Relation.ReflTransGen.single hbegin).tail hpush).tail hassign
  have hmemory : c.store.memory? ⟨0⟩ = some ⟨0⟩ := by decide +kernel
  have hstart : ∀ d, beginner.store.memory? d = none := by
    rintro ⟨_ | index⟩ <;> rfl
  obtain ⟨hfits, hcrew⟩ := memory_never_short Embedding.within_none hstart hsteps
  exact ⟨hsteps, hmemory, hfits _ _ hmemory,
    ((hcrew ()).2.2 .undefined [.integer 8, .integer 0, .integer 77] rfl).1 (by decide) (by decide)⟩

end Crew

end ActionVm
