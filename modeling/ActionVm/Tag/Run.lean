import ActionVm.Machine
import ActionVm.Tag

/-!
# Running tags

* `Machine.result?`: the answer of a machine and its last state, if it halts in time;
* `runTop`: a block that no function belongs to;
* `InitTag`, `InitTag.run?`: init actions, which run once;
* `runEach`, `ButtonEntry.runAll?`: the actions of a button, one after the other.
-/

namespace ActionVm

/-- The answer of a machine and its last state, if it halts within the given number of steps. -/
def Machine.result? (e : Embedding) (steps : Nat) (m : Machine) : Option (Answer × State) :=
  let m := m.run e steps
  m.answer?.map (·, m.state)

/-- The answer of a block that no function belongs to. -/
def runTop (e : Embedding) (steps : Nat) (s : State) (b : Block) : Option (Answer × State) :=
  (Machine.start s (topContext s.worker (e.root s)) b).result? e steps

/-- The bytes of a tag as a script error sees them. -/
def Tag.decode {α : Type} (x : Except DecodeError α) : Except ScriptError α :=
  x.mapError .decode

/-- Init actions, and whether they have run. -/
structure InitTag where
  tag : InitActions
  done : Bool

namespace InitTag

/-- The init actions of given bytes, which have not run. -/
def decode (bytes : List UInt8) : Except ScriptError InitTag :=
  (Tag.decode (decodeInitActions bytes)).map (⟨·, false⟩)

/-- Init actions that may run once more. -/
def reset (t : InitTag) : InitTag := { t with done := false }

/-- Init actions after they have run, with their answer. Those that have run before answer at
once. -/
def run? (e : Embedding) (steps : Nat) (s : State) (t : InitTag) :
    Option (InitTag × Answer × State) :=
  if t.done then some (t, .ok .undefined, s)
  else (runTop e steps s t.tag.actions).map (({ t with done := true }, ·))

end InitTag

/-- The number of blocks that have run one after the other, up to the first error. -/
def runEach (e : Embedding) (steps : Nat) (s : State) (ran : Nat) :
    List Block → Option (Except ScriptError Nat × State)
  | [] => some (.ok ran, s)
  | b :: rest =>
    match runTop e steps s b with
    | none => none
    | some (.error error, s) => some (.error error, s)
    | some (.ok _, s) => runEach e steps s (ran + 1) rest

namespace ButtonEntry

/-- The actions of those entries of a button that are wanted. -/
def runAll? (e : Embedding) (steps : Nat) (s : State) (wanted : ButtonEntry → Bool)
    (entries : List ButtonEntry) : Option (Except ScriptError Nat × State) :=
  runEach e steps s 0 ((entries.filter wanted).map actions)

/-- The entry reacts to one of the given transitions. -/
def meets (mask : UInt16) (entry : ButtonEntry) : Bool := entry.conditions.meets mask

/-- The entry reacts to the given key. -/
def hasKey (key : UInt8) (entry : ButtonEntry) : Bool := key != 0 && entry.conditions.key == key

end ButtonEntry

end ActionVm
