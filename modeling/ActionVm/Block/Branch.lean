import ActionVm.Action

/-!
# Branches

Where a branch leads: its offset counts from the end of the branching record.

* `Landing`: a record, the end of the block, or nowhere;
* `lastUpTo`, `search`: a number in a list that ascends, by halving;
* `BlockOf.landing`: what stands at an offset of a block;
* `BlockOf.branch`: where a branch of the record with a given index leads.
-/

namespace ActionVm

/-- Where a branch leads. -/
inductive Landing where
  /-- The record with this index. -/
  | record (index : Nat)
  /-- The end of the block or beyond. -/
  | finish
  /-- Before the block or between the starts of records. -/
  | invalid (target : Int)
  deriving DecidableEq, Repr

/-- The index of the last number up to `target` among `size` ascending numbers from the index `base`
on. It is `base` if they are all greater. -/
def lastUpTo (l : List Nat) (target base size : Nat) : Nat :=
  if size ≤ 1 then base
  else
    let half := size / 2
    lastUpTo l target (if target < l.getD (base + half) 0 then base else base + half) (size - half)
termination_by size
decreasing_by omega

/-- The index of a number in a list that ascends. -/
def search (l : List Nat) (target : Nat) : Option Nat :=
  let index := lastUpTo l target 0 l.length
  if l[index]? = some target then some index else none

namespace BlockOf

/-- What stands at the offset `target` of a block. -/
def landing {α : Type} (b : BlockOf α) (target : Int) : Landing :=
  if target < 0 then .invalid target
  else if (b.byteLength : Int) ≤ target then .finish
  else match search (b.records.map Placed.offset) target.toNat with
    | some index => .record index
    | none => .invalid target

/-- Where a branch by `offset` leads from the record with the given index. -/
def branch {α : Type} (b : BlockOf α) (index : Nat) (offset : Int16) : Landing :=
  match b.records[index]? with
  | some record => b.landing (record.finish + offset.toInt)
  | none => .finish

end BlockOf

end ActionVm
