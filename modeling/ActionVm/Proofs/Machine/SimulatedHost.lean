import ActionVm.Proofs.Machine.SimulatedMembers

/-!
# Host functions and calls in two runs

Where stores correspond, functions of the host answer the same, and calls of script functions start
in contexts that match.

* `Files.neverThrows_readBytes` and the like: trouble with files is no value that a script throws;
* `Reply.Matches`: replies of host functions;
* **`simulates_host`**: what host functions reply;
* `Binding.Matches`, `simulates_preload`: registers that get values;
* **`simulates_openCall`**: the context of a call.
-/

namespace ActionVm

open List (Forall₂)

variable {Γ : Setting} {η : Naming} {this this' : Value} {args args' : List Value}

/-! ## Trouble with files -/

namespace Files

variable (f : Files) (path : String)

theorem neverThrows_answer {α : Type} (x : Except FileTrouble α) :
    NeverThrows (answer path x) := by
  cases x with
  | ok a => nofun
  | error t => cases t <;> nofun

theorem neverThrows_require (t : FileTree) (grants : Grants) (access : Access) :
    NeverThrows (require t grants access path) := by
  rw [require]
  split_ifs <;> nofun

theorem neverThrows_readBytes : NeverThrows (f.readBytes path) := by
  cases f with
  | table files =>
    rw [readBytes]
    split <;> nofun
  | tree t grants =>
    exact (neverThrows_require path t grants _).bind fun _ => neverThrows_answer _ _

theorem neverThrows_readText : NeverThrows (f.readText path) :=
  (f.neverThrows_readBytes path).bind fun bytes => by split <;> nofun

theorem neverThrows_writeBytes (bytes : List UInt8) : NeverThrows (f.writeBytes path bytes) := by
  cases f with
  | table files => nofun
  | tree t grants =>
    exact (neverThrows_require path t grants _).bind fun _ =>
      (neverThrows_answer _ _).bind fun _ => nofun

theorem neverThrows_existing {α : Type} {read : Except ScriptError α} (h : NeverThrows read) :
    NeverThrows (f.existing path read) := by
  rw [existing]
  split_ifs
  · exact h
  · nofun

end Files

/-! ## Arguments -/

namespace Host

theorem mirrors_files :
    Mirrors Γ.Relates Same η (Exec.worker Worker.files) (Exec.worker Worker.files) :=
  mirrors_worker fun _ _ hw => hw.files

theorem mirrors_changeFiles {f : Files → Except ScriptError Files}
    (h : ∀ files, NeverThrows (f files)) :
    Mirrors Γ.Relates Same η (File.change f) (File.change f) := by
  unfold File.change
  exact mirrors_files.chainSame fun files => (mirrors_ofExcept (h files)).chainSame fun files =>
    mirrors_setWorker (fun _ _ hw => { hw with files := rfl }) fun _ => ⟨rfl, rfl⟩

theorem mirrors_wait (time : ℕ) :
    Mirrors Γ.Relates Same η (Exec.setWorker fun w => { w with clock := fun n => w.clock n + time })
      (Exec.setWorker fun w => { w with clock := fun n => w.clock n + time }) :=
  mirrors_setWorker (fun _ _ hw => { hw with
    clock := congrArg (fun clock n => clock n + time) hw.clock }) fun _ => ⟨rfl, rfl⟩

section Arguments

variable (hargs : Forall₂ (Value.Matches η) args args')
include hargs

theorem mirrors_expect (function : String) (arity : Arity) :
    Mirrors Γ.Relates Same η (expect function arity args) (expect function arity args') := by
  unfold expect
  rw [hargs.length_eq]
  split
  · exact mirrors_pure rfl
  · exact mirrors_throw (.same nofun)

theorem matches_argument (i : ℕ) : (argument args i).Matches η (argument args' i) :=
  hargs.getD (.same rfl) i

theorem mirrors_textArgument (i : ℕ) :
    Mirrors Γ.Relates Same η (textArgument args i) (textArgument args' i) :=
  mirrors_text (matches_argument hargs i)

theorem wordArgument_eq (i : ℕ) : wordArgument args i = wordArgument args' i := by
  have harg := matches_argument hargs i
  unfold wordArgument
  revert harg
  generalize argument args i = v
  generalize argument args' i = v'
  intro harg
  cases harg <;> rfl

theorem mirrors_bufferArgument (function : String) (i : ℕ) :
    Mirrors Γ.Relates Naming.buffer η (bufferArgument function args i)
      (bufferArgument function args' i) := by
  unfold bufferArgument
  refine (mirrors_optionalBuffer function i (matches_argument hargs i)).chain fun b b' hb => ?_
  cases hb with
  | some hb => exact mirrors_pure hb
  | none => exact mirrors_throw (.same nofun)

/-! ## Files and the system -/

theorem simulates_file (m : FileMethod) :
    Simulates Γ.Relates Value.Matches η (File.call m args) (File.call m args') := by
  unfold File.call
  cases m with
  | fileExists =>
    exact (mirrors_expect hargs _ _).bindSame fun _ => (mirrors_textArgument hargs 0).bindSame
      fun _ => mirrors_files.bindSame fun _ => (mirrors_pure (.same rfl)).simulates
  | read =>
    exact (mirrors_expect hargs _ _).bindSame fun _ => (mirrors_textArgument hargs 0).bindSame
      fun path => mirrors_files.bindSame fun files =>
        (mirrors_ofExcept (files.neverThrows_existing path
          (files.neverThrows_readText path))).bindSame fun _ =>
            (mirrors_pure (.same rfl)).simulates
  | write =>
    exact (mirrors_expect hargs _ _).bindSame fun _ => (mirrors_textArgument hargs 0).bindSame
      fun path => (mirrors_textArgument hargs 1).bindSame fun text =>
        (mirrors_changeFiles fun files => files.neverThrows_writeBytes path _).bindSame fun _ =>
          (mirrors_pure (.same rfl)).simulates
  | readByteArray =>
    exact (mirrors_expect hargs _ _).bindSame fun _ => (mirrors_textArgument hargs 0).bindSame
      fun path => mirrors_files.bindSame fun files =>
        (mirrors_ofExcept (files.neverThrows_existing path
          (files.neverThrows_readBytes path))).bindSame fun bytes =>
            (simulates_addBuffer _).bind fun _ _ _ _ hb =>
              simulates_freshObject (Object.matches_byteArray hb)
  | writeByteArray =>
    exact (mirrors_expect hargs _ _).bindSame fun _ => (mirrors_textArgument hargs 0).bindSame
      fun path => (mirrors_bufferArgument hargs _ 1).bind fun b b' hb =>
        (mirrors_buffer Buffer.toList hb).bindSame fun bytes =>
          (mirrors_changeFiles fun files => files.neverThrows_writeBytes path bytes).bindSame
            fun _ => (mirrors_pure (.same rfl)).simulates

omit hargs in
theorem canonicalize_matches {s s' : Store} (h : Γ.Corresponds η s s') {v v' : Value}
    (hv : v.Matches η v') :
    (SystemObject.canonicalize s v).Matches η (SystemObject.canonicalize s' v') := by
  cases hv with
  | same hv =>
    cases v with
    | object => cases hv
    | _ => exact .same rfl
  | object ho =>
    rw [SystemObject.canonicalize, SystemObject.canonicalize, (h.matches_object ho).className]
    split
    · exact .same rfl
    · exact .object ho

theorem mirrors_line :
    Mirrors Γ.Relates Same η (SystemObject.line args) (SystemObject.line args') := by
  have htexts : Mirrors Γ.Relates Same η (args.mapM Exec.text) (args'.mapM Exec.text) := by
    induction hargs with
    | nil => exact mirrors_pure rfl
    | cons hv _ ih =>
      rw [List.mapM_cons, List.mapM_cons]
      exact (mirrors_text hv).chainSame fun _ => ih.chainSame fun _ => mirrors_pure rfl
  exact htexts.chainSame fun _ => mirrors_pure rfl

theorem mirrors_system (m : SystemMethod) :
    Mirrors Γ.Relates Value.Matches η (SystemObject.call m args)
      (SystemObject.call m args') := by
  unfold SystemObject.call
  cases m with
  | getFeatures | idle | getVersion | isGlobal => exact mirrors_pure (.same rfl)
  | getRunmode =>
    exact (mirrors_worker (R := Same) fun _ _ hw => by rw [hw.config]).chainSame fun _ =>
      mirrors_pure (.same rfl)
  | isDebugger =>
    exact (mirrors_worker (R := Same) fun _ _ hw => by rw [hw.settings]).chainSame fun _ =>
      mirrors_pure (.same rfl)
  | exec => exact (mirrors_expect hargs _ _).chainSame fun _ => mirrors_pure (.same rfl)
  | sleep =>
    dsimp only
    rw [wordArgument_eq hargs]
    exact (mirrors_expect hargs _ _).chainSame fun _ => (mirrors_wait _).chainSame fun _ =>
      mirrors_pure (.same rfl)
  | trace =>
    exact (mirrors_line hargs).chainSame fun _ => (mirrors_tell _).chainSame fun _ =>
      mirrors_pure (.same rfl)
  | canonicalizeNumber =>
    exact (mirrors_expect hargs _ _).chainSame fun _ =>
      mirrors_ask fun _ _ hs => canonicalize_matches hs (matches_argument hargs 0)

end Arguments

end Host

/-! ## Replies -/

/-- Replies that differ in nothing but the things that they hold. -/
inductive Reply.Matches (η : Naming) : Reply → Reply → Prop where
  | value {v v' : Value} : v.Matches η v' → Matches η (.value v) (.value v')
  | call {callee callee' this this' : Value} {args args' : List Value} :
    callee.Matches η callee' → this.Matches η this' → Forall₂ (Value.Matches η) args args' →
      Matches η (.call callee this args) (.call callee' this' args')
  | load {d d' : DomainId} (bytes : List UInt8) (version : UInt32) : η.domain d d' →
    Matches η (.load d bytes version) (.load d' bytes version)
  | classOf {d d' : DomainId} (name : String) : η.domain d d' →
    Matches η (.classOf d name) (.classOf d' name)

namespace Host

variable (hargs : Forall₂ (Value.Matches η) args args')
include hargs

theorem mirrors_domain (hthis : this.Matches η this') (m : DomainMethod) :
    Mirrors Γ.Relates Reply.Matches η (Domain.call m this args) (Domain.call m this' args') := by
  unfold Domain.call
  cases m with
  | load =>
    dsimp only
    rw [wordArgument_eq hargs]
    exact (mirrors_expect hargs _ _).chainSame fun _ => (mirrors_thisDomain hthis).chain
      fun d d' hd => (mirrors_textArgument hargs 0).chainSame fun path =>
        mirrors_files.chainSame fun files =>
          (mirrors_ofExcept (files.neverThrows_existing path
            (files.neverThrows_readBytes path))).chainSame fun bytes =>
              mirrors_pure (.load bytes _ hd)
  | loadBytes =>
    dsimp only
    rw [wordArgument_eq hargs]
    exact (mirrors_expect hargs _ _).chainSame fun _ =>
      (mirrors_bufferArgument hargs _ 0).chain fun _ _ hb =>
        (mirrors_buffer Buffer.toList hb).chainSame fun bytes =>
          (mirrors_thisDomain hthis).chain fun _ _ hd => mirrors_pure (.load bytes _ hd)
  | getClass =>
    exact (mirrors_expect hargs _ _).chainSame fun _ => (mirrors_thisDomain hthis).chain
      fun _ _ hd => (mirrors_textArgument hargs 0).chainSame fun name =>
        mirrors_pure (.classOf name hd)

theorem simulates_makeDomain {proto proto' : ObjectId} (hproto : η.object proto proto') :
    Simulates Γ.Relates Value.Matches η (Domain.make proto args) (Domain.make proto' args') := by
  unfold Domain.make
  refine (mirrors_expect hargs _ _).bindSame fun _ =>
    (mirrors_optionalDomain "Domain" 0 (matches_argument hargs 0)).bind fun d d' hd => ?_
  cases hd with
  | none =>
    exact mirrors_activeDomain.bind fun _ _ hd =>
      simulates_freshObject (Object.matches_domain hd hproto)
  | some hd =>
    exact (simulates_addDomain hd).bind fun _ hle _ _ hnew =>
      simulates_freshObject (Object.matches_domain hnew (hle.object hproto))

theorem simulates_makeByteArray :
    Simulates Γ.Relates Value.Matches η (makeByteArray args) (makeByteArray args') := by
  unfold makeByteArray
  rw [wordArgument_eq hargs]
  exact (mirrors_expect hargs _ _).bindSame fun _ => (simulates_addBuffer _).bind fun _ _ _ _ hb =>
    simulates_freshObject (Object.matches_byteArray hb)

theorem mirrors_hostCompareAndSwap :
    Mirrors Γ.Relates Value.Matches η (compareAndSwap args) (compareAndSwap args') := by
  have hint : ∀ i, (argument args i).toInt32 = (argument args' i).toInt32 := fun i =>
    (matches_argument hargs i).congr Value.toInt32 fun _ _ => rfl
  unfold compareAndSwap
  rw [Value.toUInt32, Value.toUInt32, hint 0, hint 1, hint 2]
  exact (mirrors_expect hargs _ _).chainSame fun _ => mirrors_activeDomain.chain fun _ _ hd =>
    (mirrors_compareAndSwap hd _ _ _).chainSame fun _ => mirrors_pure (.same rfl)

end Host

/-- **A function of the host** replies the same. -/
theorem simulates_host (hthis : this.Matches η this') (hargs : Forall₂ (Value.Matches η) args args')
    {f f' : HostFunction} (hf : f.Matches η f') :
    Simulates Γ.Relates Reply.Matches η (f.run .none this args) (f'.run .none this' args') := by
  have hvalue : ∀ {x x' : Exec Value}, Simulates Γ.Relates Value.Matches η x x' →
      Simulates Γ.Relates Reply.Matches η (do return .value (← x)) (do return .value (← x')) :=
    fun h => h.bind fun _ _ _ _ hv => (mirrors_pure (.value hv)).simulates
  unfold HostFunction.run
  cases hf with
  | domainClass hproto => exact hvalue (Host.simulates_makeDomain hargs hproto)
  | same hf =>
    cases f with
    | file m => exact hvalue (Host.simulates_file hargs m)
    | domain m => exact (Host.mirrors_domain hargs hthis m).simulates
    | system m => exact hvalue (Host.mirrors_system hargs m).simulates
    | domainClass proto => exact absurd rfl (hf proto)
    | byteArrayClass => exact hvalue (Host.simulates_makeByteArray hargs)
    | compareAndSwap => exact hvalue (Host.mirrors_hostCompareAndSwap hargs).simulates
    | embedded name => exact (mirrors_pure (.value (.same rfl))).simulates

/-! ## Calls of script functions -/

/-- Contexts that match, with the same registers taken. -/
structure Binding.Matches (η : Naming) (b b' : Binding) : Prop where
  context : b.context.Matches η b'.context
  taken : b.taken = b'.taken

theorem Binding.Matches.mono {η' : Naming} (hle : η.Le η') {b b' : Binding}
    (h : b.Matches η b') : b.Matches η' b' := ⟨h.context.mono hle, h.taken⟩

theorem Binding.Matches.assign {b b' : Binding} (h : b.Matches η b') (r : ℕ) {v v' : Value}
    (hv : v.Matches η v') : (b.assign r v).Matches η (b'.assign r v') := by
  have hset := h.context.setRegister? r hv
  unfold Binding.assign
  revert hset
  generalize b.context.setRegister? r v = c
  generalize b'.context.setRegister? r v' = c'
  rintro (hc | _)
  · exact ⟨hc, congrArg (r :: ·) h.taken⟩
  · exact h

theorem mirrors_bindParams {a a' : ObjectId} (ha : η.object a a') (params : List RegisterParam)
    {b b' : Binding} (hargs : Forall₂ (Value.Matches η) args args') (hb : b.Matches η b') :
    Mirrors Γ.Relates Binding.Matches η (bindParams a params args b)
      (bindParams a' params args' b') := by
  induction params generalizing args args' b b' with
  | nil => exact mirrors_pure hb
  | cons p params ih =>
    have hv := hargs.headD (.same (v := .undefined) rfl)
    unfold bindParams
    split
    · exact ih hargs.tail (hb.assign _ hv)
    · exact (mirrors_define ha _ hv).chainSame fun _ => ih hargs.tail hb

/-- Both compute values that match, whatever has got a name meanwhile. -/
def Setting.Computes (Γ : Setting) (η : Naming) (x x' : Exec Value) : Prop :=
  ∀ η', η.Le η' → Simulates Γ.Relates Value.Matches η' x x'

theorem simulates_preload {values values' : List (Exec Value)}
    (h : Forall₂ (Γ.Computes η) values values') (r : ℕ) :
    ∀ {η' b b'}, η.Le η' → Binding.Matches η' b b' →
      Simulates Γ.Relates Binding.Matches η' (preload values r b) (preload values' r b') := by
  induction h generalizing r with
  | nil => exact fun _ hb => (mirrors_pure hb).simulates
  | cons hx _ ih =>
    intro η' b b' hle hb
    unfold preload
    rw [hb.taken]
    split
    · exact ih (r + 1) hle hb
    · exact (hx η' hle).bind fun _ hle' _ _ hv =>
        ih (r + 1) (hle.trans hle') ((hb.mono hle').assign r hv)

variable (hthis : this.Matches η this') (hargs : Forall₂ (Value.Matches η) args args')
include hthis hargs

theorem computes_preloads (flags : PreloadFlags) :
    Forall₂ (fun x x' => x.1 = x'.1 ∧ Γ.Computes η x.2 x'.2) (preloads .none flags this args)
      (preloads .none flags this' args') := by
  refine .cons ⟨rfl, fun η' hle => ?this⟩ <| .cons ⟨rfl, fun η' hle => ?arguments⟩ <|
    .cons ⟨rfl, fun η' hle => ?super⟩ <| .cons ⟨rfl, fun η' hle => ?parent⟩ <|
    .cons ⟨rfl, fun η' hle => ?root⟩ <| .cons ⟨rfl, fun η' hle => ?global⟩ .nil
  case this => exact (mirrors_pure (hthis.mono hle)).simulates
  case arguments => exact simulates_freshArray (forall₂_matches_mono hle hargs)
  case super => exact (mirrors_ask fun _ _ hs => hs.superOf (hthis.mono hle)).simulates
  case parent =>
    exact (mirrors_parentOf (hthis.mono hle)).bind fun _ _ ho =>
      (mirrors_pure (Value.matches_ofObject? ho)).simulates
  case root => exact mirrors_rootObject.bind fun _ _ ho => (mirrors_pure (.object ho)).simulates
  case global => exact mirrors_global.bind fun _ _ ho => (mirrors_pure (.object ho)).simulates

theorem simulates_bindNames (flags : PreloadFlags) {a a' : ObjectId} (ha : η.object a a') :
    Simulates Γ.Relates Same η (bindNames flags a this args) (bindNames flags a' this' args') := by
  -- the tests one after the other, the last first
  have hsuper : ∀ (b : Bool) (η'), η.Le η' → Simulates Γ.Relates Same η'
      (if b then do
        let v ← Exec.ask (superOf · this)
        Exec.update (·.define a "super" v)
      else pure ())
      (if b then do
        let v ← Exec.ask (superOf · this')
        Exec.update (·.define a' "super" v)
      else pure ()) := fun b η' hle => by
    split
    · exact (mirrors_ask (R := Value.Matches) fun _ _ hs => hs.superOf (hthis.mono hle)).bind
        fun _ _ hv => (mirrors_define (hle.object ha) _ hv).simulates
    · exact (mirrors_pure rfl).simulates
  have harguments : ∀ (b : Bool) {rest rest' : Exec Unit},
      (∀ η', η.Le η' → Simulates Γ.Relates Same η' rest rest') → Simulates Γ.Relates Same η
        (if b then do
          let v ← argumentsArray args
          Exec.update (·.define a "arguments" v)
          rest
        else rest)
        (if b then do
          let v ← argumentsArray args'
          Exec.update (·.define a' "arguments" v)
          rest'
        else rest') := fun b rest rest' hrest => by
    split
    · exact (simulates_freshArray hargs).bind fun η' hle _ _ hv =>
        (mirrors_define (hle.object ha) _ hv).bindSame fun _ => hrest η' hle
    · exact hrest η (.refl η)
  unfold bindNames
  dsimp only
  split
  · exact (mirrors_define ha _ hthis).bindSame fun _ => harguments _ (hsuper _)
  · exact harguments _ (hsuper _)

omit hthis in
theorem mirrors_bindSimple {a a' : ObjectId} (ha : η.object a a') (params : List String) :
    Mirrors Γ.Relates Same η (bindSimple a params args) (bindSimple a' params args') := by
  induction params generalizing args args' with
  | nil => exact mirrors_pure rfl
  | cons name params ih =>
    exact (mirrors_define ha _ (hargs.headD (.same rfl))).chainSame fun _ => ih hargs.tail

/-- **A call of a script function** starts in contexts that match. -/
theorem simulates_openCall {c c' : Closure} (hc : c.Matches η c') :
    Simulates Γ.Relates Context.Matches η (openCall .none c this args)
      (openCall .none c' this' args') := by
  unfold openCall
  refine (simulates_addObject (Object.matches_ofClass "Activation" .none)).bind
    fun η₁ hle₁ a a' ha => ?_
  have hthis₁ := hthis.mono hle₁
  have hargs₁ := forall₂_matches_mono hle₁ hargs
  have hcontext : Context.Matches η₁
      { Context.start (c.scope.push a) this with
        activation := some a
        constants := c.constants }
      { Context.start (c'.scope.push a') this' with
        activation := some a'
        constants := c'.constants } :=
    { Context.Matches.start ((hc.scope.mono hle₁).push ha) hthis₁ with
      activation := .some ha
      constants := hc.constants }
  dsimp only
  rw [← hc.kind]
  split
  · exact (mirrors_bindSimple hargs₁ ha _).bindSame fun _ =>
      (mirrors_define ha _ hthis₁).bindSame fun _ =>
        (simulates_freshArray hargs₁).bind fun _ hle₂ _ _ hv =>
          (mirrors_define (hle₂.object ha) _ hv).bindSame fun _ =>
            (mirrors_pure (hcontext.mono hle₂)).simulates
  · next flags params hkind =>
    have hwanted : Forall₂ (Γ.Computes η₁)
        ((preloads .none flags this args).filterMap fun x => if x.1 then some x.2 else none)
        ((preloads .none flags this' args').filterMap fun x => if x.1 then some x.2 else none) := by
      have hpreloads := computes_preloads (Γ := Γ) hthis₁ hargs₁ flags
      refine List.rel_filterMap (fun x x' hx => ?_) hpreloads
      rw [← hx.1]
      split
      · exact .some hx.2
      · exact .none
    have hstart : Binding.Matches η₁ ⟨_, []⟩ ⟨_, []⟩ := ⟨hcontext, rfl⟩
    refine (mirrors_bindParams ha params hargs₁ hstart).bind fun b b' hb =>
      (simulates_preload hwanted 1 (.refl η₁) hb).bind fun η₂ hle₂ b b' hb => ?_
    exact (simulates_bindNames (hthis₁.mono hle₂) (forall₂_matches_mono hle₂ hargs₁) flags
      (hle₂.object ha)).bind fun _ hle₃ _ _ _ => (mirrors_pure (hb.context.mono hle₃)).simulates

end ActionVm
