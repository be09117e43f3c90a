import ActionVm.Value

/-!
# The stage

Actions that steer the timeline are handed on to a stage. What is kept of it here is what it was
told and what it holds on to; what it replies is up to the embedding program.

* `Event`: what the stage is told;
* `Stage`: the clips and values that it holds on to, and the events so far.
-/

namespace ActionVm

/-- What the stage is told. Values are given as texts, since objects may change later. -/
inductive Event where
  | nextFrame
  | previousFrame
  | play
  | stop
  | gotoFrame (frame : UInt32) (play : Bool)
  | gotoLabel (label : String) (play : Bool)
  | toggleQuality
  | stopSounds
  | getUrl (url target : String) (flags : UInt8)
  | getProperty (target : String) (index : UInt32)
  | setProperty (target : String) (index : UInt32) (value : String)
  | cloneSprite (source target : String) (depth : Int32)
  | removeSprite (target : String)
  | callFrame (kind : Kind) (frame : String)
  | trace (text : String)
  /-- Something that the embedding program notes. -/
  | note (words : List String)

/-- What is known of a display list. The embedding program may reply from more than this. -/
structure Stage where
  /-- The root clip. -/
  root : Option ObjectId
  /-- The clip around all others. -/
  parent : Option ObjectId
  /-- Assigned properties of clips are kept and read back. -/
  keepsProperties : Bool
  /-- The properties of clips that are kept, latest first, each once. -/
  properties : List ((String × UInt32) × Value)
  /-- What the stage was told, latest first. -/
  events : List Event

namespace Stage

/-- The stage without clips. -/
def bare : Stage := ⟨none, none, false, [], []⟩

instance : Inhabited Stage := ⟨bare⟩

/-- The stage after one more event. -/
def tell (s : Stage) (e : Event) : Stage := { s with events := e :: s.events }

/-- The property of a clip that was assigned last, if it is kept. -/
def property (s : Stage) (target : String) (index : UInt32) : Value :=
  ((s.properties.find? (·.1 == (target, index))).map (·.2)).getD .undefined

/-- The stage in which a property of a clip is assigned. -/
def setProperty (s : Stage) (target : String) (index : UInt32) (v : Value) : Stage :=
  if s.keepsProperties then
    { s with properties := ((target, index), v) :: s.properties.filter (·.1 != (target, index)) }
  else s

/-- The clip around a value, where one clip is around all objects. -/
def parentOf (s : Stage) (v : Value) : Option ObjectId := v.object?.bind fun _ => s.parent

end Stage

end ActionVm
