import ActionVm.Variables

/-!
# Actions at work

What an action does to the context and the state, up to the point where other code is to run.

* `Request`, `Outcome`: what an action asks for when it is done;
* `Act`: what is done with a context and a state;
* `popText`, `popArguments` and the like: operands;
* **`performOp`**, **`perform`**: the actions.
-/

namespace ActionVm

/-- A call that an action asks for. Its answer becomes an operand. -/
structure Request where
  callee : Value
  this : Value
  args : List Value
  /-- The object that a construction makes. It is the answer unless the call gives an object. -/
  created : Option ObjectId
  /-- What the action holds on to besides until the call is answered: its other operands, and the
  prototype of the object that it makes. -/
  kept : List Value

/-- What an action asks for when it is done. -/
inductive Outcome where
  /-- The next action, or the one to which a branch leads. -/
  | next
  /-- The function returns a value. -/
  | finish (v : Value)
  /-- A body runs with one more object in scope. -/
  | enter (scope : ObjectId) (body : Block)
  | call (r : Request)

/-- What is done with a context and a state: an answer or an error, and both afterwards. -/
abbrev Act (α : Type) := ExceptT ScriptError (StateM (Context × State)) α

namespace Act

/-- What is done with the state alone. -/
def exec {α : Type} (x : Exec α) : Act α := fun (c, s) =>
  let (r, s) := x s
  (r, (c, s))

/-- The answer of a look at the context. -/
def context {α : Type} (f : Context → α) : Act α := fun (c, s) => (.ok (f c), (c, s))

/-- A change of the context. -/
def setContext (f : Context → Context) : Act Unit := fun (c, s) => (.ok (), (f c, s))

/-- One more operand. -/
def push (v : Value) : Act Unit := setContext (·.push v)

/-- The latest operand, which is taken away. -/
def pop : Act Value := fun (c, s) => (.ok c.peek, (c.pop, s))

end Act

open Act

/-! ## Operands -/

/-- The latest operand as a text. -/
def popText : Act String := do exec (Exec.text (← pop))

/-- The latest operand as a number. -/
def popNumber : Act Float := return (← pop).toNumber

/-- The latest operand as a truth value. -/
def popBoolean : Act Bool := return (← pop).toBoolean

/-- As many operands as the latest one says, as far as there are any. -/
def popArguments : Act (List Value) := do
  let count := (← pop).toCount
  let args ← context (·.stack.take count)
  setContext (·.popMany args.length)
  return args

/-- At most `n` pairs of a value and the name under it. -/
def entries : Nat → List Value → List (Value × Value)
  | n + 1, v :: name :: rest => (name, v) :: entries n rest
  | _, _ => []

/-- As many named values as the latest operand says, as far as there are any. -/
def popEntries : Act (List (Value × Value)) := do
  let count := (← pop).toCount
  let found ← context (entries count ·.stack)
  setContext (·.popMany (2 * found.length))
  return found

/-- A number from the two latest operands. -/
def numbers (f : Float → Float → Float) : Act Unit := do
  let a ← popNumber
  let b ← popNumber
  push (.number (f b a))

/-- An integer from the two latest operands. -/
def integers (f : Int32 → Int32 → Int32) : Act Unit := do
  let a := (← pop).toInt32
  let b := (← pop).toInt32
  push (.integer (f b a))

/-- A truth value from the two latest operands. -/
def compare (f : Value → Value → Bool) : Act Unit := do
  let a ← pop
  let b ← pop
  push (.boolean (f b a))

/-- A truth value from the texts of the two latest operands. -/
def compareTexts (f : String → String → Bool) : Act Unit := do
  let a ← popText
  let b ← popText
  push (.boolean (f b a))

/-- The texts of the two latest operands, one after the other. -/
def joinTexts (a b : Value) : Act Unit := do
  let second ← exec (Exec.text a)
  let first ← exec (Exec.text b)
  push (.string (first ++ second))

/-- The value is added as a text. -/
def addsAsText : Value → Bool
  | .string _ | .object _ => true
  | _ => false

/-! ## Texts -/

/-- The part of a text from the character at `index` on, counted from one, with `count` characters,
or up to its end if `count` is negative. -/
def substring (s : String) (index count : Float) : String :=
  let start := if index < 1 then 0 else toCount index - 1
  let tail := s.toList.drop start
  String.ofList (if count < 0 then tail else tail.take (toCount count))

/-- The code of the first character of a text. -/
def charCode (s : String) : Value :=
  match s.toList with
  | c :: _ => .integer (Int32.ofInt c.toNat)
  | [] => .number Value.notANumber

/-- The text of the character with a code, empty if there is none. -/
def charText (code : UInt32) : String :=
  if code ≠ 0 && code.toNat.isValidChar then (Char.ofNat code.toNat).toString else ""

/-! ## Functions -/

/-- The name of a method, or `none` for the function itself. -/
def methodName (v : Value) : Act (Option String) := do
  if v.isNullish then return none
  let name ← exec (Exec.text v)
  return if name.isEmpty then none else some name

/-- A call, or the value undefined where there is nothing to call. -/
def callOr (callee this : Value) (args operands : List Value) : Act Outcome := do
  if (← exec (Exec.ask (·.callable? callee))).isSome then
    return .call ⟨callee, this, args, none, operands⟩
  push .undefined
  return .next

/-- A construction, or the value undefined where there is nothing to call. -/
def construct (e : Embedding) (ctor : Value) (args operands : List Value) : Act Outcome := do
  match ctor.object?, ← exec (Exec.ask (·.callable? ctor)) with
  | some f, some _ =>
    let proto ← exec (getProperty e f "prototype")
    let created ← exec (Exec.change (·.addObject (.ofClass "Object" proto.object?)))
    return .call ⟨ctor, .object created, args, some created, proto :: operands⟩
  | _, _ =>
    push .undefined
    return .next

/-- A script function is defined: under its name, or as an operand. -/
def bindFunction (name : String) (kind : ClosureKind) (body : Block) : Act Outcome := do
  let name := if name.isEmpty then none else some name
  let scope ← context Context.scope
  let constants ← context Context.constants
  let f ← exec (Exec.change (·.addFunction (.closure ⟨name, kind, body, scope, constants⟩)))
  match name with
  | some name =>
    let locals ← context Context.locals
    exec (Exec.update (·.define locals name (.object f)))
  | none => push (.object f)
  return .next

/-- A mark, and on it the names that an enumeration of a value gives. -/
def pushNames (v : Value) : Act Unit := do
  push .null
  if let some o := v.object? then
    for name in ← exec (Exec.ask (·.keys o)) do
      push (.string name)

/-- A subclass gets a prototype that inherits from that of its superclass. -/
def extendClass (e : Embedding) (subclass superclass : Value) : Exec Unit := do
  match subclass, superclass with
  | .object sub, .object sup =>
    let inherited ← getProperty e sup "prototype"
    let proto ← Exec.change (·.addObject (.ofClass "Object" inherited.object?))
    Exec.update (·.define proto "__constructor__" superclass)
    setProperty e sub "prototype" (.object proto)
  | _, _ => return ()

/-- The prototype of a constructor gets interfaces. -/
def implement (e : Embedding) (ctor : Value) (interfaces : List ObjectId) : Exec Unit := do
  if let .object f := ctor then
    if let .object proto := ← getProperty e f "prototype" then
      Exec.update (·.modify proto ({ · with interfaces := interfaces }))

/-- The variable of a name is removed where it is an object's own, innermost first. -/
def deleteVariable (s : Store) (scope : Scope) (name : String) : Bool × Store :=
  match scope.toList.find? fun o => (s.own? o name).isSome with
  | some o => (true, s.erase o name)
  | none => (false, s)

/-- An object's own member is removed, if it is there. -/
def deleteMember (s : Store) (o : ObjectId) (name : String) : Bool × Store :=
  ((s.own? o name).isSome, s.erase o name)

/-! ## The stage -/

/-- The index of a frame by its number, which counts from one. -/
def frameIndex (sceneBias : UInt16) (number : UInt32) : UInt32 :=
  (if number = 0 then 0 else number - 1) + sceneBias.toUInt32

/-- The stage is asked to go to a frame. A text that is no number is the label of one. -/
def gotoFrame (play : Bool) (sceneBias : UInt16) (frame : Value) : Exec Unit :=
  let byNumber := Exec.tell (.gotoFrame (frameIndex sceneBias frame.toUInt32) play)
  match frame with
  | .string label =>
    if (Text.plainNumber? label).isNone then Exec.tell (.gotoLabel label play) else byNumber
  | _ => byNumber

/-! ## All actions -/

/-- What an action without operands of its own does. -/
def performOp (e : Embedding) (o : Op) : Act Outcome := do
  match o with
  | .nextFrame => exec (Exec.tell .nextFrame)
  | .previousFrame => exec (Exec.tell .previousFrame)
  | .play => exec (Exec.tell .play)
  | .stop => exec (Exec.tell .stop)
  | .toggleQuality => exec (Exec.tell .toggleQuality)
  | .stopSounds => exec (Exec.tell .stopSounds)
  | .getProperty =>
    let index := (← pop).toUInt32
    let target ← popText
    exec (Exec.tell (.getProperty target index))
    push (← exec (Exec.look (e.property · target index)))
  | .setProperty =>
    let v ← pop
    let index := (← pop).toUInt32
    let target ← popText
    exec (Exec.tell (.setProperty target index (← exec (Exec.text v))))
    exec (Exec.setWorker fun w => { w with stage := w.stage.setProperty target index v })
  | .cloneSprite =>
    let depth := (← pop).toInt32
    let target ← popText
    let source ← popText
    exec (Exec.tell (.cloneSprite source target depth))
  | .removeSprite => exec (Exec.tell (.removeSprite (← popText)))
  | .call =>
    let frame ← pop
    exec (Exec.tell (.callFrame (← exec (Exec.kind frame)) (← exec (Exec.text frame))))
  | .trace => exec (Exec.tell (.trace (← popText)))
  | .getTime => push (.number (Float.ofNat (← exec Exec.readClock)))
  | .pop => let _ ← pop
  | .pushDuplicate => push (← context Context.peek)
  | .stackSwap =>
    let a ← pop
    let b ← pop
    push a
    push b
  | .add => numbers (· + ·)
  | .subtract => numbers (· - ·)
  | .multiply => numbers (· * ·)
  | .divide => numbers (· / ·)
  | .modulo => numbers remainder
  | .add2 =>
    let a ← pop
    let b ← pop
    if addsAsText a || addsAsText b then joinTexts a b
    else push (.number (b.toNumber + a.toNumber))
  | .increment => push (.number ((← popNumber) + 1))
  | .decrement => push (.number ((← popNumber) - 1))
  | .bitAnd => integers (· &&& ·)
  | .bitOr => integers (· ||| ·)
  | .bitXor => integers (· ^^^ ·)
  | .bitLShift => integers fun b a => b <<< (a &&& 31)
  | .bitRShift => integers fun b a => b >>> (a &&& 31)
  | .bitURShift =>
    let shift := (← pop).toUInt32 &&& 31
    let v := (← pop).toUInt32
    push (.number (Float.ofNat (v >>> shift).toNat))
  | .equals => compare fun b a => b.toNumber == a.toNumber
  | .less => compare fun b a => b.toNumber < a.toNumber
  | .equals2 => compare Value.looseEq
  | .strictEquals => compare Value.strictEq
  | .less2 =>
    let a ← pop
    let b ← pop
    push (b.lessThan a)
  | .greater =>
    let a ← pop
    let b ← pop
    push (a.lessThan b)
  | .and => compare fun b a => b.toBoolean && a.toBoolean
  | .or => compare fun b a => b.toBoolean || a.toBoolean
  | .not => push (.boolean (!(← popBoolean)))
  | .stringAdd =>
    let a ← pop
    let b ← pop
    joinTexts a b
  | .stringEquals => compareTexts (· == ·)
  | .stringLess => compareTexts (· < ·)
  | .stringGreater => compareTexts (· > ·)
  | .stringLength | .mbStringLength => push (textLength (← popText))
  | .stringExtract | .mbStringExtract =>
    let count := (← pop).toInteger
    let index := (← pop).toInteger
    push (.string (substring (← popText) index count))
  | .charToAscii | .mbCharToAscii => push (charCode (← popText))
  | .asciiToChar | .mbAsciiToChar => push (.string (charText (← pop).toUInt32))
  | .toNumber => push (.number (← popNumber))
  | .toString => push (.string (← popText))
  | .toInteger => push (.number (← pop).toInteger)
  | .typeOf => push (.string (← exec (Exec.kind (← pop))).word)
  | .instanceOf =>
    let ctor ← pop
    let v ← pop
    push (.boolean (← exec (isInstance e v ctor)))
  | .cast =>
    let v ← pop
    let ctor ← pop
    push (if ← exec (isInstance e v ctor) then v else .null)
  | .implement =>
    let ctor ← pop
    let interfaces := (← popArguments).filterMap Value.object?
    exec (ActionVm.implement e ctor interfaces)
  | .extendClass =>
    let superclass ← pop
    let subclass ← pop
    exec (ActionVm.extendClass e subclass superclass)
  | .getVariable =>
    let name ← popText
    let c ← context id
    push (← exec (ActionVm.getVariable e c name))
  | .setVariable =>
    let v ← pop
    let name ← popText
    let c ← context id
    exec (ActionVm.setVariable e c name v)
  | .defineLocal =>
    let v ← pop
    let name ← popText
    let locals ← context Context.locals
    exec (Exec.update (·.define locals name v))
  | .defineLocal2 =>
    let name ← popText
    let locals ← context Context.locals
    if (← exec (Exec.ask (·.own? locals name))).isNone then
      exec (Exec.update (·.define locals name .undefined))
  | .delete =>
    let name ← popText
    let target ← pop
    let deleted ← match target.object? with
      | some o => exec (Exec.change (deleteMember · o name))
      | none => pure false
    push (.boolean deleted)
  | .delete2 =>
    let name ← popText
    let scope ← context Context.scope
    push (.boolean (← exec (Exec.change (deleteVariable · scope name))))
  | .getMember =>
    let name ← popText
    let target ← pop
    push (← exec (ActionVm.getMember e target name))
  | .setMember =>
    let v ← pop
    let name ← popText
    let target ← pop
    exec (ActionVm.setMember e target name v)
  | .enumerate =>
    let name ← popText
    let c ← context id
    pushNames (← exec (ActionVm.getVariable e c name))
  | .enumerate2 => pushNames (← pop)
  | .newObject =>
    let name ← popText
    let args ← popArguments
    let c ← context id
    let ctor ← exec (ActionVm.getVariable e c name)
    return ← construct e ctor args []
  | .newMethod =>
    let method ← pop
    let target ← pop
    let args ← popArguments
    let ctor ← match ← methodName method with
      | none => pure target
      | some name => exec (ActionVm.getMember e target name)
    return ← construct e ctor args [method, target]
  | .initArray =>
    let values ← popArguments
    push (← exec (freshObject (.array values)))
  | .initObject =>
    let entries ← popEntries
    let o ← exec (Exec.change (·.addObject .plain))
    for (name, v) in entries do
      let name ← exec (Exec.text name)
      exec (Exec.update (·.define o name v))
    push (.object o)
  | .callFunction =>
    let name ← popText
    let args ← popArguments
    let c ← context id
    let callee ← exec (ActionVm.getVariable e c name)
    return ← callOr callee .undefined args []
  | .callMethod =>
    let method ← pop
    let target ← pop
    let args ← popArguments
    match ← methodName method with
    | none => return ← callOr target .undefined args [method]
    | some name =>
      let callee ← exec (ActionVm.getMember e target name)
      return ← callOr callee target args [method]
  | .returnValue =>
    let v ← pop
    setContext ({ · with returned := some v })
    return .finish v
  | .throwValue => throw (.thrown (← pop))
  return .next

/-- The value that an action pushes. -/
def pushedValue (c : Context) : PushValue → Value
  | .string s => .string s
  | .float bits => .number (Format.single.decode bits.toNat).toFloat
  | .null => .null
  | .undefined => .undefined
  | .register r => c.register r.toNat
  | .boolean b => .boolean b
  | .double bits => .number (Float.ofBits bits)
  | .integer i => .integer i
  | .constant index => ((c.constant? index.toNat).map .string).getD .undefined

/-- What an action does. -/
def perform (e : Embedding) (a : Action) : Act Outcome := do
  match a with
  | .op o => return ← performOp e o
  | .gotoFrame frame => exec (Exec.tell (.gotoFrame frame.toUInt32 false))
  | .gotoFrame2 play sceneBias =>
    exec (ActionVm.gotoFrame play (sceneBias.getD 0) (← pop))
  | .goToLabel label => exec (Exec.tell (.gotoLabel label false))
  | .getUrl url target => exec (Exec.tell (.getUrl url target 0))
  | .getUrl2 flags =>
    let target ← popText
    let url ← popText
    exec (Exec.tell (.getUrl url target flags))
  | .push values => setContext fun c => values.foldl (fun c v => c.push (pushedValue c v)) c
  | .storeRegister r => setContext fun c => c.setRegister r.toNat c.peek
  | .constantPool entries => setContext ({ · with constants := entries.toArray })
  | .jump offset => setContext ({ · with pendingJump := some offset })
  | .branchIf offset =>
    if ← popBoolean then setContext ({ · with pendingJump := some offset })
  | .withObject body =>
    if let .object o := ← pop then return .enter o body
  | .defineFunction name params body => return ← bindFunction name (.simple params) body
  | .defineFunction2 name count flags params body =>
    return ← bindFunction name (.registers count flags params) body
  | .notImplemented .. => pure ()
  return .next

end ActionVm
