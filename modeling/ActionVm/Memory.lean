import ActionVm.Worker

/-!
# Domain memory

* `Exec.setMemory`: a domain gets a buffer as its memory, or loses it;
* `Exec.slot`, `Exec.setSlot`, `Exec.swapSlot`: the slots of a buffer;
* `Exec.compareAndSwap`: the slots of a domain's memory.
-/

namespace ActionVm

namespace Store

/-- The store in which a domain has another memory. -/
def setMemory (s : Store) (d : DomainId) (b : Option BufferId) : Store :=
  s.modifyDomain d ({ · with memory := b })

end Store

namespace Exec

/-- A domain gets a buffer as its memory, unless that is too short, or loses it. -/
def setMemory (d : DomainId) (b : Option BufferId) : Exec Unit := do
  if let some b := b then
    let length ← ask fun s => (s.buffer b).length
    if length < ScriptError.leastMemory then throw (.shortMemory length)
  update (·.setMemory d b)

theorem setMemory_some (d : DomainId) (b : BufferId) (s : State) :
    setMemory d (some b) s =
      if (s.store.buffer b).length < ScriptError.leastMemory then
        (.error (.shortMemory (s.store.buffer b).length), s)
      else (.ok (), ⟨s.store.setMemory d (some b), s.worker⟩) := by
  unfold setMemory
  dsimp only
  rw [bind_ask]
  split <;> rfl

theorem setMemory_none (d : DomainId) (s : State) :
    setMemory d none s = (.ok (), ⟨s.store.setMemory d none, s.worker⟩) := rfl

/-- The number in a slot of a buffer. -/
def slot (b : BufferId) (address : Nat) : Exec Int32 := do
  let buffer ← ask (·.buffer b)
  match buffer.slot? address with
  | some n => return n
  | none => throw (.noSlot address buffer.length)

/-- Another number for a slot of a buffer. -/
def setSlot (b : BufferId) (address : Nat) (n : Int32) : Exec Unit := do
  let buffer ← ask (·.buffer b)
  match buffer.setSlot? address n with
  | some buffer => update (·.setBuffer b buffer)
  | none => throw (.noSlot address buffer.length)

/-- The number in a slot of a buffer, which is replaced if it is the expected one. -/
def swapSlot (b : BufferId) (address : Nat) (expected new : Int32) : Exec Int32 := do
  let buffer ← ask (·.buffer b)
  match buffer.compareAndSwap? address expected new with
  | some (old, buffer) =>
    update (·.setBuffer b buffer)
    return old
  | none => throw (.noSlot address buffer.length)

/-- The number in a slot of a domain's memory, which is replaced if it is the expected one. Without
a memory it is zero. -/
def compareAndSwap (d : DomainId) (address : Nat) (expected new : Int32) : Exec Int32 := do
  match ← ask (·.memory? d) with
  | some b => swapSlot b address expected new
  | none => return 0

end Exec

end ActionVm
