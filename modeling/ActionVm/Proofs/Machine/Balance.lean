import ActionVm.Host.Install
import ActionVm.Proofs.Machine.Turns

/-!
# Balance of calls and domains

What waits above a place says how many calls are nested there, and which domain is active once all
of it is answered.

* `calls`, `domainUnder`: the calls that count among frames, and the domain active under them;
* `State.Over`: a state with frames above a place;
* **`Machine.Turn.over`**: a step keeps the balance;
* `Machine.Begins`, `Machine.Answered`: what is run over frames, until these are answered;
* **`Machine.over_run`**: so does a run;
* **`Machine.calls_and_domains_balanced`**: the depth of calls and the active domain in every run.
-/

namespace ActionVm

/-- The frame is a call that counts. -/
def Frame.isCall : Frame → Bool
  | call _ => true
  | _ => false

/-- The number of calls that count among frames. -/
def calls (frames : List Frame) : ℕ := frames.countP Frame.isCall

@[simp] theorem calls_code (i : Invocation) (frames : List Frame) :
    calls (.code i :: frames) = calls frames := List.countP_cons_of_neg nofun

@[simp] theorem calls_call (r : Request) (frames : List Frame) :
    calls (.call r :: frames) = calls frames + 1 := List.countP_cons_of_pos rfl

@[simp] theorem calls_load (d : DomainId) (frames : List Frame) :
    calls (.load d :: frames) = calls frames := List.countP_cons_of_neg nofun

/-- The domain that is active when the frames are answered, where the given one is now. -/
def domainUnder : List Frame → DomainId → DomainId
  | [], d => d
  | .load previous :: frames, _ => domainUnder frames previous
  | .code _ :: frames, d => domainUnder frames d
  | .call _ :: frames, d => domainUnder frames d

/-- Without loaded code among the frames the domain stays. -/
theorem domainUnder_of_not_load {frames : List Frame} (h : ∀ previous, .load previous ∉ frames)
    (d : DomainId) : domainUnder frames d = d := by
  induction frames with
  | nil => rfl
  | cons frame frames ih =>
    have hframes := ih fun previous hmem => h previous (List.mem_cons_of_mem _ hmem)
    cases frame with
    | code _ | call _ => exact hframes
    | load previous => exact absurd List.mem_cons_self (h previous)

/-! ## States -/

namespace State

/-- The state of a machine in which frames wait above a place where the worker was `w`. -/
structure Over (w : Worker) (above : List Frame) (s : State) : Prop where
  config : s.worker.config = w.config
  /-- As many calls are nested as there are among the frames. -/
  callDepth : s.worker.callDepth = w.callDepth + calls above
  /-- Within a call, no more are nested than may be. -/
  bounded : 0 < calls above → s.worker.callDepth ≤ w.config.maxCallDepth
  /-- The domain of the place is active again when the frames are answered. -/
  activeDomain : domainUnder above s.worker.activeDomain = w.activeDomain

namespace Over

variable {P : Block → Prop} {w : Worker} {above : List Frame} {s s' : State}

theorem refl (s : State) : s.Over s.worker [] := ⟨rfl, rfl, nofun, rfl⟩

theorem steady (h : s.Over w above) (hs : s.Steady P s') : s'.Over w above := by
  refine ⟨hs.alike.config.trans h.config, hs.alike.callDepth.trans h.callDepth, fun hc => ?_, ?_⟩
  · rw [hs.alike.callDepth]
    exact h.bounded hc
  · rw [hs.alike.activeDomain]
    exact h.activeDomain

theorem code_iff (i : Invocation) : s.Over w (.code i :: above) ↔ s.Over w above := by
  constructor
  · rintro ⟨hconfig, hdepth, hbound, hdomain⟩
    rw [calls_code] at hdepth hbound
    exact ⟨hconfig, hdepth, hbound, hdomain⟩
  · rintro ⟨hconfig, hdepth, hbound, hdomain⟩
    refine ⟨hconfig, ?_, ?_, hdomain⟩
    · rwa [calls_code]
    · rwa [calls_code]

theorem entered (h : s.Over w above) (r : Request)
    (hd : s.worker.callDepth < s.worker.config.maxCallDepth) :
    s.entered.Over w (.call r :: above) := by
  refine ⟨h.config, ?_, fun _ => ?_, h.activeDomain⟩
  · rw [calls_call, ← Nat.add_assoc, ← h.callDepth]
    rfl
  · rw [h.config] at hd
    exact hd

theorem left {r : Request} (h : s.Over w (.call r :: above)) : s.left.Over w above := by
  have hdepth : s.left.worker.callDepth = w.callDepth + calls above := by
    change s.worker.callDepth - 1 = _
    rw [h.callDepth, calls_call]
    omega
  refine ⟨h.config, hdepth, fun _ => ?_, h.activeDomain⟩
  have hbound := h.bounded (by rw [calls_call]; omega)
  rw [h.callDepth, calls_call] at hbound
  omega

theorem inDomain (h : s.Over w above) (d : DomainId) :
    (s.inDomain d).Over w (.load s.worker.activeDomain :: above) := by
  refine ⟨h.config, ?_, ?_, h.activeDomain⟩
  · rw [calls_load]
    exact h.callDepth
  · rw [calls_load]
    exact h.bounded

theorem leftDomain {previous : DomainId} (h : s.Over w (.load previous :: above)) :
    (s.inDomain previous).Over w above := by
  obtain ⟨hconfig, hdepth, hbound, hdomain⟩ := h
  rw [calls_load] at hdepth hbound
  exact ⟨hconfig, hdepth, hbound, hdomain⟩

end Over

end State

/-! ## Steps -/

namespace Machine

variable {e : Embedding} {w : Worker} {F : List Frame} {m m' : Machine}

/-- What waits above the frames is in balance. -/
def BalancedOver (w : Worker) (F : List Frame) (m : Machine) : Prop :=
  ∃ above, m.frames = above ++ F ∧ m.state.Over w above

/-- The frames get an answer. -/
def Answered (F : List Frame) (m : Machine) : Prop := m.frames = F ∧ ∃ a, m.control = .answer a

theorem Loads.over {P : Block → Prop} {above : List Frame} {s : State} {d : DomainId}
    (h : Loads e P (above ++ F) s d m) (he : e.Steady P) (hs : s.Over w above) :
    BalancedOver w F m :=
  ⟨.load s.worker.activeDomain :: above, h.frames, (hs.inDomain d).steady (h.state he)⟩

/-- What gets an answer above the frames waits on top of all that is above them. -/
theorem BalancedOver.exists_above {a : Answer} {frame : Frame} {frames : List Frame} {s : State}
    (h : BalancedOver w F ⟨.answer a, frame :: frames, s⟩)
    (hF : ¬ Answered F ⟨.answer a, frame :: frames, s⟩) :
    ∃ above, frames = above ++ F ∧ s.Over w (frame :: above) := by
  obtain ⟨above, hframes, hs⟩ := h
  rcases above with _ | ⟨top, above⟩
  · exact absurd ⟨hframes, a, rfl⟩ hF
  · cases hframes
    exact ⟨above, rfl, hs⟩

/-- **A step keeps the balance**, unless it hands an answer to the frames below. -/
theorem Turn.over (he : e.Steady fun _ => True) (ht : Turn e (fun _ => True) m m')
    (h : BalancedOver w F m) (hF : ¬ m.Answered F) : BalancedOver w F m' := by
  have hplain : ∀ i : Invocation, i.DefinesIn fun _ => True := by
    intro i record _
    cases record.action <;> trivial
  cases ht with
  | act _ hsteady =>
    obtain ⟨above, hframes, hs⟩ := h
    exact ⟨above, hframes, hs.steady (hsteady he (hplain _))⟩
  | wait _ hsteady =>
    obtain ⟨above, rfl, hs⟩ := h
    exact ⟨.code _ :: above, rfl, (State.Over.code_iff _).mpr (hs.steady (hsteady he (hplain _)))⟩
  | finish | refuse | halted => exact h
  | enter hd _ hsteady =>
    obtain ⟨above, rfl, hs⟩ := h
    exact ⟨.call _ :: above, rfl, (hs.entered _ hd).steady (hsteady he)⟩
  | @load r _ _ _ _ _ hd hsteady hload =>
    obtain ⟨above, rfl, hs⟩ := h
    exact hload.over he ((hs.entered r hd).steady (hsteady he))
  | proceed =>
    obtain ⟨above, rfl, hs⟩ := h.exists_above hF
    exact ⟨above, rfl, (State.Over.code_iff _).mp hs⟩
  | leaveCall =>
    obtain ⟨above, rfl, hs⟩ := h.exists_above hF
    exact ⟨above, rfl, hs.left⟩
  | leaveLoad =>
    obtain ⟨above, rfl, hs⟩ := h.exists_above hF
    exact ⟨above, rfl, hs.leftDomain⟩

/-! ## Runs -/

/-- What is run over frames: a block, a single action, a call, or loaded code. -/
inductive Begins (e : Embedding) (s : State) (F : List Frame) : Machine → Prop where
  | block (c : Context) (b : Block) : Begins e s F ⟨.go (.start c b), F, s⟩
  | single (c : Context) (a : Action) : Begins e s F (perform e F s ⟨c, [], none⟩ a)
  | call (r : Request) : Begins e s F ⟨.call r, F, s⟩
  | loading (d : DomainId) (bytes : List UInt8) (version : UInt32) :
    Begins e s F (load e F s d bytes version)

theorem Begins.over (he : e.Steady fun _ => True) {s : State} (h : Begins e s F m) :
    BalancedOver s.worker F m := by
  cases h with
  | block | call => exact ⟨[], rfl, .refl s⟩
  | single c a =>
    have ht : Turn e (fun _ => True) ⟨.go ⟨c, [], none⟩, F, s⟩ (perform e F s ⟨c, [], none⟩ a) :=
      turn_perform fun _ => by cases a <;> trivial
    refine ht.over he ⟨[], rfl, .refl s⟩ ?_
    rintro ⟨-, _, ⟨⟩⟩
  | loading d bytes version =>
    have hload : Loads e (fun _ => True) ([] ++ F) s d _ := loads_load d bytes version
    exact hload.over he (.refl s)

/-- **A run keeps the balance**, until it answers the frames below. -/
theorem over_run (he : e.Steady fun _ => True) (h : BalancedOver w F m) (n : ℕ)
    (hF : ∀ k < n, ¬ (m.run e k).Answered F) : BalancedOver w F (m.run e n) := by
  induction n with
  | zero => exact h
  | succ n ih =>
    rw [run_step]
    exact (turn_step e _ _).over he (ih fun k hk => hF k (by omega)) (hF n (by omega))

/-- Where nothing waits below, a run keeps the balance for good. -/
theorem over_run_nil (he : e.Steady fun _ => True) (h : BalancedOver w [] m) (n : ℕ) :
    BalancedOver w [] (m.run e n) := by
  induction n with
  | zero => exact h
  | succ n ih =>
    rw [run_step]
    by_cases hF : (m.run e n).Answered []
    · rw [step_of_isHalted]
      · exact ih
      · obtain ⟨hframes, a, ha⟩ := hF
        rw [isHalted, hframes, ha]
    · exact (turn_step e _ _).over he ih hF

/-- **The depth of calls and the active domain** in every run: both are as before in the end,
whatever comes of the run and of what runs inside it; within a call no more are nested than may be;
a call beyond that is refused with nothing of the callee run; and while loaded code runs, its domain
is active. -/
theorem calls_and_domains_balanced {e : Embedding} (he : e.Steady fun _ => True) (s : State) :
    (∀ m, Begins e s [] m → ∀ n,
      (m.run e n).state.Over s.worker (m.run e n).frames ∧
      ∀ a, (m.run e n).answer? = some a →
        (m.run e n).state.worker.callDepth = s.worker.callDepth ∧
        (m.run e n).state.worker.activeDomain = s.worker.activeDomain) ∧
    (∀ F m, Begins e s F m → ∀ n, (∀ k < n, ¬ (m.run e k).Answered F) →
      BalancedOver s.worker F (m.run e n)) ∧
    (∀ F r callable, s.store.callable? r.callee = some callable →
      (s.worker.callDepth = s.worker.config.maxCallDepth →
        step e ⟨.call r, F, s⟩ = ⟨.answer (.error .stackOverflow), F, s⟩) ∧
      (s.worker.callDepth < s.worker.config.maxCallDepth →
        step e ⟨.call r, F, s⟩ = callee e (.call r :: F) s.entered r callable ∧
        s.entered.worker.callDepth ≤ s.entered.worker.config.maxCallDepth)) ∧
    ∀ F d bytes version n,
      (∀ k < n, ¬ ((load e F s d bytes version).run e k).Answered
        (.load s.worker.activeDomain :: F)) →
      ∃ above, ((load e F s d bytes version).run e n).frames =
          above ++ .load s.worker.activeDomain :: F ∧
        domainUnder above ((load e F s d bytes version).run e n).state.worker.activeDomain = d ∧
        ((∀ previous, .load previous ∉ above) →
          ((load e F s d bytes version).run e n).state.worker.activeDomain = d) := by
  refine ⟨fun m hm n => ?_, fun F m hm n hF => over_run he (hm.over he) n hF,
    fun F r callable hr => ⟨fun hd => ?_, fun hd => ⟨?_, hd⟩⟩, fun F d bytes version n hF => ?_⟩
  · obtain ⟨above, hframes, hs⟩ := over_run_nil he (hm.over he) n
    rw [List.append_nil] at hframes
    subst hframes
    refine ⟨hs, fun a ha => ?_⟩
    have hnil : (m.run e n).frames = [] := by
      unfold answer? at ha
      split at ha
      · assumption
      · assumption
      · cases ha
    rw [hnil] at hs
    exact ⟨hs.callDepth, hs.activeDomain⟩
  · exact (call_eq hr).trans (if_neg (by omega))
  · exact (call_eq hr).trans (if_pos hd)
  · have hload : Loads e (fun _ => True) F s d (load e F s d bytes version) :=
      loads_load d bytes version
    have hs : (s.inDomain d).Over (s.inDomain d).worker [] := .refl _
    obtain ⟨above, hframes, hover⟩ :=
      over_run he ⟨[], hload.frames, hs.steady (hload.state he)⟩ n hF
    exact ⟨above, hframes, hover.activeDomain,
      fun h => (domainUnder_of_not_load h _).symm.trans hover.activeDomain⟩

/-- A function that calls another one where only one call may be nested: the second call is refused,
and no call is left. -/
theorem calls_balanced_after_overflow :
    let calling : Action → ℕ → Block := fun define size =>
      ⟨[⟨0, 8, .push [.integer 0]⟩, ⟨8, size, define⟩, ⟨8 + size, 4, .push [.undefined]⟩,
        ⟨12 + size, 1, .op .callMethod⟩], 13 + size⟩
    let inner := calling (.defineFunction "" [] ⟨[], 0⟩) 8
    let s := Host.install .empty default (State.start ⟨10, 1, false⟩)
    let m := start s (topContext s.worker) (calling (.defineFunction "" [] inner) 29)
    ∃ error, (m.run .none 20).answer? = some (.error error) ∧ error.kind = .stackOverflow ∧
      (m.run .none 20).state.worker.callDepth = s.worker.callDepth ∧
      (m.run .none 20).state.worker.activeDomain = s.worker.activeDomain := by
  intro calling inner s m
  have h : ((m.run .none 20).answer?.map fun a => (a.mapError ScriptError.kind).map fun _ => ()) =
      some (.error .stackOverflow) := by decide +kernel
  have hbalanced := (calls_and_domains_balanced Embedding.steady_none s).1 m (.block _ _) 20
  rcases ha : (m.run .none 20).answer? with _ | error | v
  · rw [ha] at h
    cases h
  · rw [ha] at h
    exact ⟨error, rfl, Except.error.inj (Option.some.inj h), hbalanced.2 _ ha⟩
  · rw [ha] at h
    cases h

end Machine

end ActionVm
