import ActionVm.Proofs.Machine.Simulation

/-!
# Members and variables in two runs

Where stores correspond, reading and writing members does the same in both.

* `Corresponds.assign`, `Corresponds.assignByte`: what is assigned at once;
* `mirrors_thisDomain`, `mirrors_optionalPayload`, `mirrors_setMemory`: domains and their memory;
* **`simulates_getProperty`**, **`mirrors_setProperty`**: members of objects;
* `mirrors_rootObject`, `mirrors_parentOf`: what the stage replies where nothing else is said;
* **`simulates_getVariable`**, **`simulates_setVariable`**: variables.
-/

namespace ActionVm

open List (Forall₂)

variable {Γ : Setting} {η : Naming} {o o' : ObjectId} {v v' w w' this this' : Value}

/-! ## Assignments -/

namespace Setting.Corresponds

variable {s s' : Store} (h : Γ.Corresponds η s s')
include h

theorem define (ho : η.object o o') (name : String) (hv : v.Matches η v') :
    Γ.Corresponds η (s.define o name v) (s'.define o' name v') :=
  h.modify ho fun _ _ hx => hx.define name hv

theorem assign (ho : η.object o o') (name : String) (hv : v.Matches η v') :
    Γ.Corresponds η (s.assign o name v) (s'.assign o' name v') := by
  have hdefine := h.define ho name hv
  unfold Store.assign
  rw [← (h.matches_object ho).isArray_eq, ← h.arrayLength_eq ho]
  split
  · split
    · split
      · exact (h.define ho "length" (.same rfl)).define ho name hv
      · exact hdefine
    · exact hdefine
  · exact hdefine

theorem assignByte {b b' : BufferId} (hb : η.buffer b b') (index : ℕ) (hv : v.Matches η v') :
    Γ.Corresponds η (s.assignByte b index v) (s'.assignByte b' index v') := by
  unfold Store.assignByte
  rw [(h.buffer hb).2.2, hv.congr Value.toUInt32 fun _ _ => rfl]
  split
  · exact h.setBuffer hb _
  · exact h

end Setting.Corresponds

/-! ## Domains and their memory -/

theorem mirrors_thisDomain (hthis : this.Matches η this') :
    Mirrors Γ.Relates Naming.domain η (thisDomain this) (thisDomain this') := by
  unfold thisDomain
  refine (mirrors_ask (R := fun η => Option.Rel η.domain) fun s s' hs =>
    hthis.object?.bind fun _ _ ho => (hs.matches_object ho).domain?).chain fun d d' hd => ?_
  cases hd with
  | some hd => exact mirrors_pure hd
  | none => exact (mirrors_kind hthis).chainSame fun _ => mirrors_throw (.same nofun)

theorem mirrors_optionalPayload {α : Type} {S : Naming → α → α → Prop} (function : String)
    (index : ℕ) (expected : String) {payload? : Object → Option α}
    (hpayload : ∀ x x' : Object, x.Matches η x' → Option.Rel (S η) (payload? x) (payload? x'))
    (hv : v.Matches η v') :
    Mirrors Γ.Relates (fun η => Option.Rel (S η)) η
      (optionalPayload function index expected payload? v)
      (optionalPayload function index expected payload? v') := by
  unfold optionalPayload
  rw [← hv.congr Value.isNullish fun _ _ => rfl]
  split
  · exact mirrors_pure .none
  · refine (mirrors_ask (R := fun η => Option.Rel (S η)) fun s s' hs =>
      hv.object?.bind fun _ _ ho => hpayload _ _ (hs.matches_object ho)).chain fun a a' ha => ?_
    cases ha with
    | some ha => exact mirrors_pure (.some ha)
    | none => exact (mirrors_kind hv).chainSame fun _ => mirrors_throw (.same nofun)

theorem mirrors_optionalBuffer (function : String) (index : ℕ) (hv : v.Matches η v') :
    Mirrors Γ.Relates (fun η => Option.Rel η.buffer) η (optionalBuffer function index v)
      (optionalBuffer function index v') :=
  mirrors_optionalPayload (S := Naming.buffer) _ _ _ (fun _ _ hx => hx.buffer?) hv

theorem mirrors_optionalDomain (function : String) (index : ℕ) (hv : v.Matches η v') :
    Mirrors Γ.Relates (fun η => Option.Rel η.domain) η (optionalDomain function index v)
      (optionalDomain function index v') :=
  mirrors_optionalPayload (S := Naming.domain) _ _ _ (fun _ _ hx => hx.domain?) hv

section Memory

variable {d d' : DomainId} {b b' : BufferId}

theorem mirrors_memory (hd : η.domain d d') :
    Mirrors Γ.Relates (fun η => Option.Rel η.buffer) η (Exec.ask (·.memory? d))
      (Exec.ask (·.memory? d')) := mirrors_ask fun _ _ hs => (hs.domain hd).2.2.1.memory

theorem mirrors_buffer {α : Type} (f : Buffer → α) (hb : η.buffer b b') :
    Mirrors Γ.Relates Same η (Exec.ask fun s => f (s.buffer b))
      (Exec.ask fun s => f (s.buffer b')) :=
  mirrors_ask fun _ _ hs => congrArg f (hs.buffer hb).2.2

theorem mirrors_setMemory (hd : η.domain d d') {b b' : Option BufferId}
    (hb : Option.Rel η.buffer b b') :
    Mirrors Γ.Relates Same η (Exec.setMemory d b) (Exec.setMemory d' b') := by
  have hupdate : Mirrors Γ.Relates Same η (Exec.update (·.setMemory d b))
      (Exec.update (·.setMemory d' b')) := mirrors_update fun _ _ hs => hs.setMemory hd hb
  unfold Exec.setMemory
  cases hb with
  | none => exact hupdate
  | some hb =>
    refine (mirrors_buffer Buffer.length hb).chainSame fun length => ?_
    split
    · exact mirrors_throw (.same nofun)
    · exact hupdate

theorem mirrors_swapSlot (hb : η.buffer b b') (address : ℕ) (expected new : Int32) :
    Mirrors Γ.Relates Same η (Exec.swapSlot b address expected new)
      (Exec.swapSlot b' address expected new) := by
  unfold Exec.swapSlot
  refine (mirrors_buffer id hb).chainSame fun buffer => ?_
  split
  · exact (mirrors_update fun _ _ hs => hs.setBuffer hb _).chainSame fun _ => mirrors_pure rfl
  · exact mirrors_throw (.same nofun)

theorem mirrors_compareAndSwap (hd : η.domain d d') (address : ℕ) (expected new : Int32) :
    Mirrors Γ.Relates Same η (Exec.compareAndSwap d address expected new)
      (Exec.compareAndSwap d' address expected new) := by
  unfold Exec.compareAndSwap
  refine (mirrors_memory hd).chain fun b b' hb => ?_
  cases hb with
  | none => exact mirrors_pure rfl
  | some hb => exact mirrors_swapSlot hb address expected new

end Memory

/-! ## Computed members -/

theorem mirrors_activeDomain :
    Mirrors Γ.Relates Naming.domain η (Exec.worker Worker.activeDomain)
      (Exec.worker Worker.activeDomain) := mirrors_worker fun _ _ hw => hw.activeDomain

theorem mirrors_global :
    Mirrors Γ.Relates Naming.object η (Exec.worker Worker.global) (Exec.worker Worker.global) :=
  mirrors_worker fun _ _ hw => hw.global

theorem simulates_getter (hthis : this.Matches η this') {g g' : Getter} (hg : g.Matches η g') :
    Simulates Γ.Relates Value.Matches η (g.run .none this) (g'.run .none this') := by
  unfold Getter.run
  cases hg with
  | currentDomain hproto =>
    exact mirrors_activeDomain.bind fun _ _ hd =>
      simulates_freshObject (Object.matches_domain hd hproto)
  | same hg =>
    cases g with
    | domainMemory =>
      refine (mirrors_thisDomain hthis).bind fun d d' hd => (mirrors_memory hd).bind
        fun b b' hb => ?_
      cases hb with
      | some hb => exact simulates_freshObject (Object.matches_byteArray hb)
      | none => exact (mirrors_pure (.same rfl)).simulates
    | currentDomain proto => exact absurd rfl (hg proto)
    | minimumMemory | memoryUse | embedded => exact (mirrors_pure (.same rfl)).simulates
    | swfVersion =>
      exact (mirrors_worker (R := Same) fun _ _ hw => by rw [hw.config]).bindSame fun _ =>
        (mirrors_pure (.same rfl)).simulates
    | arguments =>
      refine (mirrors_worker (R := Same) fun _ _ hw => by rw [hw.settings]).bindSame
        fun arguments => simulates_freshArray (List.forall₂_same.mpr fun v hv => ?_)
      obtain ⟨text, -, rfl⟩ := List.mem_map.mp hv
      exact .same rfl

theorem mirrors_setter (hthis : this.Matches η this') (hv : v.Matches η v') (setter : Setter) :
    Mirrors Γ.Relates Same η (setter.run .none this v) (setter.run .none this' v') := by
  unfold Setter.run
  cases setter with
  | domainMemory =>
    exact (mirrors_optionalBuffer _ _ hv).chain fun _ _ hb =>
      (mirrors_thisDomain hthis).chain fun _ _ hd => mirrors_setMemory hd hb
  | embedded name => exact mirrors_pure rfl

/-! ## Members -/

theorem simulates_getProperty (ho : η.object o o') (name : String) :
    Simulates Γ.Relates Value.Matches η (getProperty .none o name)
      (getProperty .none o' name) := by
  unfold getProperty
  refine (mirrors_ask (R := fun η => Option.Rel (Value.Matches η)) fun s s' hs =>
    hs.slot? ho name).bind fun slot slot' hslot => ?_
  cases hslot with
  | some hv => exact (mirrors_pure hv).simulates
  | none =>
    dsimp only
    split
    · exact (mirrors_ask (R := fun η => Option.Rel η.object) fun s s' hs =>
        (hs.matches_object ho).proto).bind fun _ _ hp =>
          (mirrors_pure (Value.matches_ofObject? hp)).simulates
    · refine (mirrors_ask (R := fun η => Option.Rel (Property.Matches η)) fun s s' hs =>
        hs.lookup? ho name).bind fun p p' hp => ?_
      cases hp with
      | none => exact (mirrors_pure (.same rfl)).simulates
      | some hp =>
        cases hp with
        | data hv => exact (mirrors_pure hv).simulates
        | accessor hget =>
          cases hget with
          | none => exact (mirrors_pure (.same rfl)).simulates
          | some hget => exact simulates_getter (.object ho) hget

theorem mirrors_setProperty (ho : η.object o o') (name : String) (hv : v.Matches η v') :
    Mirrors Γ.Relates Same η (setProperty .none o name v) (setProperty .none o' name v') := by
  unfold setProperty
  refine (mirrors_ask (R := fun η => Option.Rel η.buffer) fun s s' hs =>
    (hs.matches_object ho).buffer?).chain fun b b' hb => ?_
  have hassign : Mirrors Γ.Relates Same η (Exec.update (·.assign o name v))
      (Exec.update (·.assign o' name v')) := mirrors_update fun _ _ hs => hs.assign ho name hv
  cases hb
  case' some b b' hb =>
    cases Text.index? name
    case' some index => exact mirrors_update fun _ _ hs => hs.assignByte hb index hv
  -- no byte is assigned, in either case
  all_goals
    dsimp only
    split
    · exact mirrors_update fun _ _ hs => hs.modify ho fun _ _ hx =>
        { hx with proto := hv.object? }
    · refine (mirrors_ask (R := fun η => Option.Rel (Property.Matches η)) fun s s' hs =>
        hs.lookup? ho name).chain fun p p' hp => ?_
      cases hp with
      | none => exact hassign
      | some hp =>
        cases hp with
        | data => exact hassign
        | @accessor _ _ set _ =>
          cases set with
          | none => exact mirrors_pure rfl
          | some setter => exact mirrors_setter (.object ho) hv setter

theorem simulates_getMember (hv : v.Matches η v') (name : String) :
    Simulates Γ.Relates Value.Matches η (getMember .none v name) (getMember .none v' name) := by
  cases hv with
  | object ho => exact simulates_getProperty ho name
  | same hv =>
    cases v with
    | object => cases hv
    | string s =>
      refine (mirrors_pure (.same ?_)).simulates
      split <;> rfl
    | _ => exact (mirrors_pure (.same rfl)).simulates

theorem mirrors_setMember (hv : v.Matches η v') (name : String) (hw : w.Matches η w') :
    Mirrors Γ.Relates Same η (setMember .none v name w) (setMember .none v' name w') := by
  cases hv with
  | object ho => exact mirrors_setProperty ho name hw
  | same hv =>
    cases v with
    | object => cases hv
    | _ => exact mirrors_pure rfl

/-! ## Variables -/

theorem mirrors_rootObject :
    Mirrors Γ.Relates Naming.object η (Exec.look (rootObject .none)) (Exec.look (rootObject .none)) :=
  mirrors_look fun _ _ hs => hs.worker.stage.root.getD hs.worker.global

theorem mirrors_parentOf (hv : v.Matches η v') :
    Mirrors Γ.Relates (fun η => Option.Rel η.object) η (Exec.look (Embedding.none.parentOf · v))
      (Exec.look (Embedding.none.parentOf · v')) :=
  mirrors_look fun _ _ hs => hv.object?.bind fun _ _ _ => hs.worker.stage.parent

section Variables

variable {c c' : Context} (hc : c.Matches η c')
include hc

theorem simulates_getSimple (name : String) :
    Simulates Γ.Relates Value.Matches η (getSimple .none c name) (getSimple .none c' name) := by
  unfold getSimple
  split
  · exact (mirrors_pure hc.this).simulates
  · exact mirrors_global.bind fun _ _ ho => (mirrors_pure (.object ho)).simulates
  · exact mirrors_rootObject.bind fun _ _ ho => (mirrors_pure (.object ho)).simulates
  · exact (mirrors_parentOf hc.this).bind fun _ _ ho =>
      (mirrors_pure (Value.matches_ofObject? ho)).simulates
  · refine (mirrors_ask (R := fun η => Option.Rel η.object) fun s s' hs =>
      hs.findScope hc.scope name).bind fun o o' ho => ?_
    cases ho with
    | some ho => exact simulates_getProperty ho name
    | none =>
      refine mirrors_global.bind fun global global' hglobal =>
        (mirrors_ask (R := Same) fun s s' hs => hs.has_eq hglobal name).bindSame fun found => ?_
      split
      · exact simulates_getProperty hglobal name
      · exact (mirrors_pure (.same rfl)).simulates

omit hc in
theorem simulates_getMembers (names : List String) : ∀ {η v v'}, Value.Matches η v v' →
    Simulates Γ.Relates Value.Matches η (getMembers .none v names)
      (getMembers .none v' names) := by
  induction names with
  | nil => exact fun hv => (mirrors_pure hv).simulates
  | cons name names ih =>
    exact fun hv => (simulates_getMember hv name).bind fun _ _ _ _ hw => ih hw

theorem simulates_getVariable (name : String) :
    Simulates Γ.Relates Value.Matches η (getVariable .none c name)
      (getVariable .none c' name) := by
  unfold getVariable
  split
  · exact simulates_getSimple hc name
  · exact (simulates_getSimple hc _).bind fun _ _ _ _ hv => simulates_getMembers _ hv

theorem simulates_setVariable (name : String) (hv : v.Matches η v') :
    Simulates Γ.Relates Same η (setVariable .none c name v) (setVariable .none c' name v') := by
  unfold setVariable
  dsimp only
  split
  · exact (mirrors_ask (R := fun η => Option.Rel η.object) fun s s' hs =>
      hs.findScope hc.scope name).bind fun _ _ ho =>
        (mirrors_setProperty (ho.getD hc.scope.base) name hv).simulates
  · exact (simulates_getVariable hc _).bind fun _ hle _ _ htarget =>
      (mirrors_setMember htarget _ (hv.mono hle)).simulates

end Variables

/-- An object is made by a constructor in both runs, or in neither. -/
theorem simulates_isInstance (hv : v.Matches η v') (hw : w.Matches η w') :
    Simulates Γ.Relates Same η (isInstance .none v w) (isInstance .none v' w') := by
  unfold isInstance
  cases hv with
  | same hv =>
    cases v with
    | object => cases hv
    | _ => exact (mirrors_pure rfl).simulates
  | @object o o' ho =>
    cases hw with
    | same hw =>
      cases w with
      | object => cases hw
      | _ => exact (mirrors_pure rfl).simulates
    | @object f f' hf =>
      refine (simulates_getProperty hf "prototype").bind fun η' hle p p' hp => ?_
      cases hp with
      | same hp =>
        cases p with
        | object => cases hp
        | _ => exact (mirrors_pure rfl).simulates
      | @object p p' hp =>
        refine (mirrors_ask fun s s' hs => ?_).simulates
        refine (hs.ancestors (hle.object ho) instanceLimit).any_eq fun a a' ha => ?_
        have hsame : (a == p) = (a' == p') := by
          rw [Bool.eq_iff_iff, beq_iff_eq, beq_iff_eq]
          exact Relator.rel_eq hs.oneToOne.object ha hp
        have hinterface : (s.object a).interfaces.contains f =
            (s'.object a').interfaces.contains f' := by
          rw [Bool.eq_iff_iff, List.contains_iff_mem, List.contains_iff_mem]
          exact List.rel_mem hs.oneToOne.object (hle.object hf) (hs.matches_object ha).interfaces
        rw [hsame, hinterface]

end ActionVm
