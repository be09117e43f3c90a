import ActionVm.Proofs.Machine.SimulatedOperands

/-!
# Actions in two runs

Where states correspond and contexts match, an action does the same.

* `simulates_extendClass`, `simulates_implement`: classes;
* `mirrors_deleteVariable`, `mirrors_deleteMember`: members that are removed;
* `mirrors_gotoFrame`, `mirrors_assignClip`: the stage;
* `simulates_callMethod`, `simulates_newMethod`, `simulates_initObject`: single actions;
* **`simulates_performOp`**, **`simulates_perform`**: all actions.
-/

namespace ActionVm

open List (Forall₂)
open Act

variable {Γ : Setting} {η : Naming} {v v' w w' : Value}

/-! ## Classes -/

/-- What a comparison of two values gives is no object. -/
theorem Value.object?_lessThan (v w : Value) : (v.lessThan w).object? = none := by
  unfold Value.lessThan
  split
  · rfl
  · dsimp only
    split <;> rfl

theorem simulates_extendClass (hsub : v.Matches η v') (hsup : w.Matches η w') :
    Simulates Γ.Relates Same η (extendClass .none v w) (extendClass .none v' w') := by
  unfold extendClass
  cases hsub with
  | same hv =>
    cases v with
    | object => cases hv
    | _ => exact (mirrors_pure rfl).simulates
  | object ho =>
    cases hsup with
    | same hw =>
      cases w with
      | object => cases hw
      | _ => exact (mirrors_pure rfl).simulates
    | object hp =>
      refine (simulates_getProperty hp "prototype").bind fun η₁ hle₁ _ _ hinherited =>
        (simulates_addObject (Object.matches_ofClass "Object" hinherited.object?)).bind
          fun η₂ hle₂ _ _ hproto => ?_
      have hle := hle₁.trans hle₂
      exact ((mirrors_define hproto _ (.object (hle.object hp))).chainSame fun _ =>
        mirrors_setProperty (hle.object ho) "prototype" (.object hproto)).simulates

theorem simulates_implement (hctor : v.Matches η v') {interfaces interfaces' : List ObjectId}
    (hinterfaces : Forall₂ η.object interfaces interfaces') :
    Simulates Γ.Relates Same η (implement .none v interfaces)
      (implement .none v' interfaces') := by
  unfold implement
  cases hctor with
  | same hv =>
    cases v with
    | object => cases hv
    | _ => exact (mirrors_pure rfl).simulates
  | object hf =>
    refine (simulates_getProperty hf "prototype").bind fun η' hle p p' hp => ?_
    cases hp with
    | same hp =>
      cases p with
      | object => cases hp
      | _ => exact (mirrors_pure rfl).simulates
    | object hp =>
      refine (mirrors_update fun _ _ hs => hs.modify hp fun _ _ hx => ?_).simulates
      exact { hx with interfaces := List.Forall₂.imp (fun _ _ => hle.object) hinterfaces }

/-! ## Members that are removed -/

theorem Setting.Corresponds.erase {s s' : Store} (h : Γ.Corresponds η s s') {o o' : ObjectId}
    (ho : η.object o o') (name : String) : Γ.Corresponds η (s.erase o name) (s'.erase o' name) :=
  h.modify ho fun _ _ hx => { hx with properties := hx.properties.erase name }

theorem mirrors_deleteMember {o o' : ObjectId} (ho : η.object o o') (name : String) :
    Mirrors Γ.Relates Same η (Exec.change (deleteMember · o name))
      (Exec.change (deleteMember · o' name)) :=
  mirrors_change fun _ _ hs => ⟨hs.erase ho name, (hs.own? ho name).isSome_eq⟩

theorem mirrors_deleteVariable {scope scope' : Scope} (hscope : scope.Matches η scope')
    (name : String) :
    Mirrors Γ.Relates Same η (Exec.change (deleteVariable · scope name))
      (Exec.change (deleteVariable · scope' name)) := by
  refine mirrors_change fun s s' hs => ?_
  have hholder := hscope.toList.find? (p := fun o => (s.own? o name).isSome)
    (q := fun o => (s'.own? o name).isSome) fun _ _ ho => (hs.own? ho name).isSome_eq
  unfold deleteVariable
  revert hholder
  generalize scope.toList.find? _ = o
  generalize scope'.toList.find? _ = o'
  rintro (ho | _)
  · exact ⟨hs.erase ho name, rfl⟩
  · exact ⟨hs, rfl⟩

/-! ## The stage -/

theorem mirrors_gotoFrame (play : Bool) (sceneBias : UInt16) (hv : v.Matches η v') :
    Mirrors Γ.Relates Same η (gotoFrame play sceneBias v) (gotoFrame play sceneBias v') := by
  unfold gotoFrame
  cases hv with
  | object => exact mirrors_tell _
  | same =>
    dsimp only
    split
    · split
      · exact mirrors_tell _
      · exact mirrors_tell _
    · exact mirrors_tell _

theorem Stage.Matches.property {s s' : Stage} (h : s.Matches η s') (target : String)
    (index : UInt32) : (s.property target index).Matches η (s'.property target index) :=
  ((h.properties.find? fun _ _ hx => by rw [hx.1]).map fun _ _ hx => hx.2).getD (.same rfl)

theorem Stage.Matches.setProperty {s s' : Stage} (h : s.Matches η s') (target : String)
    (index : UInt32) (hv : v.Matches η v') :
    (s.setProperty target index v).Matches η (s'.setProperty target index v') := by
  unfold Stage.setProperty
  rw [h.keepsProperties]
  split
  · have hrest := List.rel_filter (p := (·.1 != (target, index))) (q := (·.1 != (target, index)))
      (fun x x' hx => by
        dsimp only
        rw [hx.1]) h.properties
    exact { h with keepsProperties := rfl, properties := .cons ⟨rfl, hv⟩ hrest }
  · exact h

theorem mirrors_assignClip (target : String) (index : UInt32) (hv : v.Matches η v') :
    Mirrors Γ.Relates Same η
      (Exec.setWorker fun w => { w with stage := w.stage.setProperty target index v })
      (Exec.setWorker fun w => { w with stage := w.stage.setProperty target index v' }) :=
  mirrors_setWorker (fun _ _ hw => { hw with stage := hw.stage.setProperty target index hv })
    fun _ => ⟨rfl, rfl⟩

/-! ## Single actions -/

theorem Mirrors.next {x x' : Act Unit} (h : Mirrors Γ.Runs Same η x x') :
    Simulates Γ.Runs Outcome.Matches η (do x; return .next) (do x'; return .next) :=
  h.bindSame fun _ => (mirrors_pure .next).simulates

theorem mirrors_ofContext :
    Mirrors Γ.Runs Context.Matches η (context id) (context id) := mirrors_context fun _ _ hc => hc

theorem simulates_initObject :
    Simulates Γ.Runs Outcome.Matches η (performOp .none .initObject)
      (performOp .none .initObject) := by
  refine mirrors_popEntries.bind fun l l' hl =>
    (simulates_addObject Object.matches_plain).exec.bind fun η' hle o o' ho => ?_
  have hl' : Forall₂ (Value.PairMatches η') l l' :=
    List.Forall₂.imp (fun _ _ hx => ⟨hx.1.mono hle, hx.2.mono hle⟩) hl
  refine Mirrors.bindSame (mirrors_forIn hl' (fun x x' _ hx => ?_) _) fun _ =>
    (mirrors_push (.object ho)).next
  exact (mirrors_text hx.1).exec.chainSame fun name =>
    (mirrors_define ho name hx.2).exec.chainSame fun _ => mirrors_pure rfl

theorem simulates_newMethod :
    Simulates Γ.Runs Outcome.Matches η (performOp .none .newMethod)
      (performOp .none .newMethod) := by
  refine mirrors_pop.bind fun method method' hmethod => mirrors_pop.bind
    fun target target' htarget => mirrors_popArguments.bind fun args args' hargs =>
      (mirrors_methodName hmethod).bindSame fun name => ?_
  cases name with
  | none =>
    exact simulates_construct htarget hargs (.cons hmethod (.cons htarget .nil))
  | some name =>
    exact (simulates_getMember htarget name).exec.bind fun _ hle _ _ hctor =>
      simulates_construct hctor (forall₂_matches_mono hle hargs)
        (.cons (hmethod.mono hle) (.cons (htarget.mono hle) .nil))

theorem simulates_callMethod :
    Simulates Γ.Runs Outcome.Matches η (performOp .none .callMethod)
      (performOp .none .callMethod) := by
  refine mirrors_pop.bind fun method method' hmethod => mirrors_pop.bind
    fun target target' htarget => mirrors_popArguments.bind fun args args' hargs =>
      (mirrors_methodName hmethod).bindSame fun name => ?_
  cases name with
  | none => exact (mirrors_callOr htarget (.same rfl) hargs (.cons hmethod .nil)).simulates
  | some name =>
    exact (simulates_getMember htarget name).exec.bind fun _ hle _ _ hcallee =>
      (mirrors_callOr hcallee (htarget.mono hle) (forall₂_matches_mono hle hargs)
        (.cons (hmethod.mono hle) .nil)).simulates

/-! ## All actions -/

/-- **An action without operands of its own** does the same. -/
theorem simulates_performOp (o : Op) :
    Simulates Γ.Runs Outcome.Matches η (performOp .none o) (performOp .none o) := by
  have hint : ∀ {v v' : Value}, v.Matches η v' → v.toInt32 = v'.toInt32 := fun hv =>
    hv.congr Value.toInt32 fun _ _ => rfl
  have hword : ∀ {v v' : Value}, v.Matches η v' → v.toUInt32 = v'.toUInt32 := fun hv =>
    hv.congr Value.toUInt32 fun _ _ => rfl
  have hinteger : ∀ {v v' : Value}, v.Matches η v' → v.toInteger = v'.toInteger := fun hv =>
    hv.congr Value.toInteger fun _ _ => rfl
  have hnumber : ∀ {v v' : Value}, v.Matches η v' → v.toNumber = v'.toNumber := fun hv =>
    hv.congr Value.toNumber fun _ _ => rfl
  cases o with
  | nextFrame | previousFrame | play | stop | toggleQuality | stopSounds =>
    exact (mirrors_tell _).exec.next
  | getProperty =>
    refine mirrors_pop.bind fun v v' hv => ?_
    rw [hword hv]
    exact mirrors_popText.bindSame fun target => (mirrors_tell _).exec.bindSame fun _ =>
      (mirrors_look (R := Value.Matches) fun _ _ hs => hs.worker.stage.property target _).exec.bind
        fun _ _ hw => (mirrors_push hw).next
  | setProperty =>
    refine mirrors_pop.bind fun v v' hv => mirrors_pop.bind fun w w' hw => ?_
    rw [hword hw]
    exact mirrors_popText.bindSame fun target => (mirrors_text hv).exec.bindSame fun _ =>
      (mirrors_tell _).exec.bindSame fun _ => (mirrors_assignClip target _ hv).exec.next
  | cloneSprite =>
    refine mirrors_pop.bind fun v v' hv => ?_
    rw [hint hv]
    exact mirrors_popText.bindSame fun _ => mirrors_popText.bindSame fun _ =>
      (mirrors_tell _).exec.next
  | removeSprite | trace => exact mirrors_popText.bindSame fun _ => (mirrors_tell _).exec.next
  | call =>
    exact mirrors_pop.bind fun _ _ hv => (mirrors_kind hv).exec.bindSame fun _ =>
      (mirrors_text hv).exec.bindSame fun _ => (mirrors_tell _).exec.next
  | getTime =>
    exact mirrors_readClock.exec.bindSame fun _ => (mirrors_pushSame rfl).next
  | pop => exact mirrors_pop.bind fun _ _ _ => (mirrors_pure .next).simulates
  | pushDuplicate =>
    exact (mirrors_context (R := Value.Matches) fun _ _ hc => hc.peek).bind fun _ _ hv =>
      (mirrors_push hv).next
  | stackSwap =>
    exact mirrors_pop.bind fun _ _ hv => mirrors_pop.bind fun _ _ hw =>
      (mirrors_push hv).bindSame fun _ => (mirrors_push hw).next
  | add | subtract | multiply | divide | modulo => exact (mirrors_numbers _).next
  | add2 =>
    refine mirrors_pop.bind fun v v' hv => mirrors_pop.bind fun w w' hw => ?_
    rw [hv.congr addsAsText fun _ _ => rfl, hw.congr addsAsText fun _ _ => rfl, hnumber hv,
      hnumber hw]
    dsimp only
    split
    · exact (mirrors_joinTexts hv hw).next
    · exact (mirrors_pushSame rfl).next
  | increment | decrement =>
    exact mirrors_popNumber.bindSame fun _ => (mirrors_pushSame rfl).next
  | bitAnd | bitOr | bitXor | bitLShift | bitRShift => exact (mirrors_integers _).next
  | bitURShift =>
    refine mirrors_pop.bind fun v v' hv => mirrors_pop.bind fun w w' hw => ?_
    rw [hword hv, hword hw]
    exact (mirrors_pushSame rfl).next
  | equals | less =>
    refine (mirrors_compare fun hv hw => ?_).next
    rw [hnumber hv, hnumber hw]
  | and | or =>
    refine (mirrors_compare fun hv hw => ?_).next
    rw [hv.congr Value.toBoolean fun _ _ => rfl, hw.congr Value.toBoolean fun _ _ => rfl]
  | equals2 =>
    exact (mirrors_of_oneToOne fun hη => mirrors_compare fun hv hw => hv.looseEq_eq hη hw).next
  | strictEquals =>
    exact (mirrors_of_oneToOne fun hη => mirrors_compare fun hv hw => hv.strictEq_eq hη hw).next
  | less2 =>
    refine mirrors_pop.bind fun v v' hv => mirrors_pop.bind fun w w' hw => ?_
    rw [hw.lessThan_eq hv]
    exact (mirrors_pushSame (Value.object?_lessThan _ _)).next
  | greater =>
    refine mirrors_pop.bind fun v v' hv => mirrors_pop.bind fun w w' hw => ?_
    rw [hv.lessThan_eq hw]
    exact (mirrors_pushSame (Value.object?_lessThan _ _)).next
  | not => exact mirrors_popBoolean.bindSame fun _ => (mirrors_pushSame rfl).next
  | stringAdd =>
    exact mirrors_pop.bind fun _ _ hv => mirrors_pop.bind fun _ _ hw =>
      (mirrors_joinTexts hv hw).next
  | stringEquals | stringLess | stringGreater => exact (mirrors_compareTexts _).next
  | stringLength | mbStringLength | toString =>
    exact mirrors_popText.bindSame fun _ => (mirrors_pushSame rfl).next
  | charToAscii | mbCharToAscii =>
    refine mirrors_popText.bindSame fun text => (mirrors_pushSame ?_).next
    unfold charCode
    split <;> rfl
  | stringExtract | mbStringExtract =>
    refine mirrors_pop.bind fun v v' hv => mirrors_pop.bind fun w w' hw => ?_
    rw [hinteger hv, hinteger hw]
    exact mirrors_popText.bindSame fun _ => (mirrors_pushSame rfl).next
  | asciiToChar | mbAsciiToChar =>
    refine mirrors_pop.bind fun v v' hv => ?_
    rw [hword hv]
    exact (mirrors_pushSame rfl).next
  | toNumber => exact mirrors_popNumber.bindSame fun _ => (mirrors_pushSame rfl).next
  | toInteger =>
    refine mirrors_pop.bind fun v v' hv => ?_
    rw [hinteger hv]
    exact (mirrors_pushSame rfl).next
  | typeOf =>
    exact mirrors_pop.bind fun _ _ hv => (mirrors_kind hv).exec.bindSame fun _ =>
      (mirrors_pushSame rfl).next
  | instanceOf =>
    exact mirrors_pop.bind fun _ _ hctor => mirrors_pop.bind fun _ _ hv =>
      (simulates_isInstance hv hctor).exec.bind fun _ _ made _ hmade => by
        obtain rfl := hmade
        exact (mirrors_pushSame rfl).next
  | cast =>
    refine mirrors_pop.bind fun v v' hv => mirrors_pop.bind fun _ _ hctor =>
      (simulates_isInstance hv hctor).exec.bind fun η' hle made made' hmade =>
        (mirrors_push ?_).next
    obtain rfl := hmade
    split
    · exact hv.mono hle
    · exact .same rfl
  | implement =>
    refine mirrors_pop.bind fun _ _ hctor => mirrors_popArguments.bind fun args args' hargs => ?_
    have hinterfaces := List.rel_filterMap (fun _ _ hv => hv.object?) hargs
    exact (simulates_implement hctor hinterfaces).exec.bind fun _ _ _ _ _ =>
      (mirrors_pure .next).simulates
  | extendClass =>
    exact mirrors_pop.bind fun _ _ hsup => mirrors_pop.bind fun _ _ hsub =>
      (simulates_extendClass hsub hsup).exec.bind fun _ _ _ _ _ => (mirrors_pure .next).simulates
  | getVariable =>
    exact mirrors_popText.bindSame fun name => mirrors_ofContext.bind fun _ _ hc =>
      (simulates_getVariable hc name).exec.bind fun _ _ _ _ hv => (mirrors_push hv).next
  | setVariable =>
    exact mirrors_pop.bind fun _ _ hv => mirrors_popText.bindSame fun name =>
      mirrors_ofContext.bind fun _ _ hc => (simulates_setVariable hc name hv).exec.bind
        fun _ _ _ _ _ => (mirrors_pure .next).simulates
  | defineLocal =>
    exact mirrors_pop.bind fun _ _ hv => mirrors_popText.bindSame fun name =>
      (mirrors_context (R := Naming.object) fun _ _ hc => hc.locals).bind fun _ _ ho =>
        (mirrors_define ho name hv).exec.next
  | defineLocal2 =>
    refine mirrors_popText.bindSame fun name =>
      (mirrors_context (R := Naming.object) fun _ _ hc => hc.locals).bind fun o o' ho =>
        (mirrors_ask (R := fun η => Option.Rel (Property.Matches η)) fun _ _ hs =>
          hs.own? ho name).exec.bind fun p p' hp => ?_
    cases hp with
    | some => exact (mirrors_pure .next).simulates
    | none => exact (mirrors_define ho name (.same rfl)).exec.next
  | delete =>
    refine mirrors_popText.bindSame fun name => mirrors_pop.bind fun v v' hv => ?_
    have hobject := hv.object?
    dsimp only
    revert hobject
    generalize v.object? = o
    generalize v'.object? = o'
    rintro (ho | _)
    · exact (mirrors_deleteMember ho name).exec.bindSame fun _ => (mirrors_pushSame rfl).next
    · exact (mirrors_pushSame rfl).next
  | delete2 =>
    exact mirrors_popText.bindSame fun name =>
      (mirrors_context (R := Scope.Matches) fun _ _ hc => hc.scope).bind fun _ _ hscope =>
        (mirrors_deleteVariable hscope name).exec.bindSame fun _ => (mirrors_pushSame rfl).next
  | getMember =>
    exact mirrors_popText.bindSame fun name => mirrors_pop.bind fun _ _ htarget =>
      (simulates_getMember htarget name).exec.bind fun _ _ _ _ hv => (mirrors_push hv).next
  | setMember =>
    exact mirrors_pop.bind fun _ _ hv => mirrors_popText.bindSame fun name =>
      mirrors_pop.bind fun _ _ htarget => (mirrors_setMember htarget name hv).exec.next
  | enumerate =>
    exact mirrors_popText.bindSame fun name => mirrors_ofContext.bind fun _ _ hc =>
      (simulates_getVariable hc name).exec.bind fun _ _ _ _ hv => (mirrors_pushNames hv).next
  | enumerate2 => exact mirrors_pop.bind fun _ _ hv => (mirrors_pushNames hv).next
  | newObject =>
    exact mirrors_popText.bindSame fun name => mirrors_popArguments.bind fun _ _ hargs =>
      mirrors_ofContext.bind fun _ _ hc => (simulates_getVariable hc name).exec.bind
        fun _ hle _ _ hctor => simulates_construct hctor (forall₂_matches_mono hle hargs) .nil
  | newMethod => exact simulates_newMethod
  | initArray =>
    exact mirrors_popArguments.bind fun _ _ hvalues => (simulates_freshArray hvalues).exec.bind
      fun _ _ _ _ hv => (mirrors_push hv).next
  | initObject => exact simulates_initObject
  | callFunction =>
    exact mirrors_popText.bindSame fun name => mirrors_popArguments.bind fun _ _ hargs =>
      mirrors_ofContext.bind fun _ _ hc => (simulates_getVariable hc name).exec.bind
        fun _ hle _ _ hcallee => (mirrors_callOr hcallee (.same rfl)
          (forall₂_matches_mono hle hargs) .nil).simulates
  | callMethod => exact simulates_callMethod
  | returnValue =>
    refine mirrors_pop.bind fun _ _ hv => Mirrors.bindSame (mirrors_setContext fun _ _ hc => ?_)
      fun _ => (mirrors_pure (.finish hv)).simulates
    exact { hc with returned := .some hv }
  | throwValue => exact mirrors_pop.bind fun _ _ hv => (mirrors_throw (.thrown hv)).simulates

/-- What an action pushes matches. -/
theorem Context.Matches.pushedValue {c c' : Context} (h : c.Matches η c') (p : PushValue) :
    (pushedValue c p).Matches η (pushedValue c' p) := by
  cases p with
  | register r => exact h.register r.toNat
  | constant index =>
    rw [ActionVm.pushedValue, ActionVm.pushedValue, Context.constant?, Context.constant?,
      h.constants]
    cases c'.constants[index.toNat]? <;> exact .same rfl
  | _ => exact .same rfl

/-- **An action** does the same. -/
theorem simulates_perform (a : Action) :
    Simulates Γ.Runs Outcome.Matches η (perform .none a) (perform .none a) := by
  cases a with
  | op o => exact simulates_performOp o
  | gotoFrame | goToLabel | getUrl => exact (mirrors_tell _).exec.next
  | gotoFrame2 play sceneBias =>
    exact mirrors_pop.bind fun _ _ hv => (mirrors_gotoFrame _ _ hv).exec.next
  | getUrl2 flags =>
    exact mirrors_popText.bindSame fun _ => mirrors_popText.bindSame fun _ =>
      (mirrors_tell _).exec.next
  | push values =>
    refine Mirrors.next (mirrors_setContext fun c c' hc => ?_)
    induction values generalizing c c' with
    | nil => exact hc
    | cons p values ih => exact ih _ _ (hc.push (hc.pushedValue p))
  | storeRegister r =>
    exact (mirrors_setContext fun _ _ hc => hc.setRegister r.toNat hc.peek).next
  | constantPool entries =>
    refine Mirrors.next (mirrors_setContext fun c c' hc => ?_)
    exact { hc with constants := rfl }
  | jump offset =>
    refine Mirrors.next (mirrors_setContext fun c c' hc => ?_)
    exact { hc with pendingJump := rfl }
  | branchIf offset =>
    refine mirrors_popBoolean.bindSame fun taken => ?_
    cases taken with
    | true =>
      refine Mirrors.next (mirrors_setContext fun c c' hc => ?_)
      exact { hc with pendingJump := rfl }
    | false => exact (mirrors_pure .next).simulates
  | withObject body =>
    refine mirrors_pop.bind fun v v' hv => ?_
    cases hv with
    | object ho => exact (mirrors_pure (.enter body ho)).simulates
    | same hv =>
      cases v with
      | object => cases hv
      | _ => exact (mirrors_pure .next).simulates
  | defineFunction name params body => exact simulates_bindFunction _ _ _
  | defineFunction2 name count flags params body => exact simulates_bindFunction _ _ _
  | notImplemented code length => exact (mirrors_pure .next).simulates

end ActionVm
