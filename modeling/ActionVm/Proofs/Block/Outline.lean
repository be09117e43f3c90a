import ActionVm.Block.Listing
import Mathlib.Data.List.TakeWhile
import Mathlib.Data.Nat.Notation

/-!
# Outlines

The records of a block with those of its bodies form an outline: each record stands over the records
of the body that it carries. The lines of a listing follow it in pre-order, and an outline is known
from the depths in that order.

* `Outline`, `Outline.map`: labels in order, each with an outline below it;
* `Outline.preorder`, `Outline.ofPreorder`: labels with their depths, line by line;
* **`Outline.ofPreorder_preorder`**: the depths tell the outline;
* `blockOutline`, **`blockLines_eq`**: a listing has one line for each record of the outline.
-/

namespace ActionVm

/-- What is left where the first part of a list is taken. -/
theorem dropWhile_of_takeWhile {α : Type} {p : α → Bool} {l m : List α}
    (h : (l ++ m).takeWhile p = l) : (l ++ m).dropWhile p = m := by
  have hsplit := List.takeWhile_append_dropWhile (p := p) (l := l ++ m)
  rw [h] at hsplit
  exact List.append_cancel_left hsplit

/-- Labels in order, each with what stands below it. -/
inductive Outline (α : Type) where
  | nil
  /-- The first label, what stands below it, and what follows it. -/
  | cons (label : α) (below rest : Outline α)
  deriving DecidableEq, Repr

namespace Outline

variable {α β : Type}

/-- The outline of other labels. -/
def map (f : α → β) : Outline α → Outline β
  | nil => nil
  | cons label below rest => cons (f label) (below.map f) (rest.map f)

/-- The labels from the first line to the last, each with its depth. -/
def preorder (depth : ℕ) : Outline α → List (ℕ × α)
  | nil => []
  | cons label below rest =>
    (depth, label) :: (below.preorder (depth + 1) ++ rest.preorder depth)

/-- The outline of labels with their depths: below a label stand those that follow it and are
deeper, up to the first that is not. -/
def ofPreorder : List (ℕ × α) → Outline α
  | [] => nil
  | (depth, label) :: rest =>
    cons label (ofPreorder (rest.takeWhile (depth < ·.1)))
      (ofPreorder (rest.dropWhile (depth < ·.1)))
termination_by l => l.length
decreasing_by
  · exact Nat.lt_succ_of_le (List.takeWhile_sublist _).length_le
  · exact Nat.lt_succ_of_le (List.dropWhile_sublist _).length_le

theorem le_depth_of_mem {o : Outline α} {d : ℕ} {p : ℕ × α} (h : p ∈ o.preorder d) : d ≤ p.1 := by
  induction o generalizing d with
  | nil => exact absurd h List.not_mem_nil
  | cons label below rest ihbelow ihrest =>
    rcases List.mem_cons.mp h with rfl | h
    · exact le_rfl
    · rcases List.mem_append.mp h with h | h
      · exact Nat.le_of_succ_le (ihbelow h)
      · exact ihrest h

/-- What follows a label at its own depth is not below it. -/
theorem takeWhile_preorder (o : Outline α) (d : ℕ) :
    (o.preorder d).takeWhile (fun p => decide (d < p.1)) = [] := by
  cases o with
  | nil => rfl
  | cons label below rest => exact List.takeWhile_cons_of_neg (by simp)

/-- What stands below a label is all that follows it up to its own depth. -/
theorem takeWhile_below (below rest : Outline α) (d : ℕ) :
    (below.preorder (d + 1) ++ rest.preorder d).takeWhile (fun p => decide (d < p.1)) =
      below.preorder (d + 1) := by
  have hdeep : ∀ p ∈ below.preorder (d + 1), decide (d < p.1) = true :=
    fun p hp => decide_eq_true (le_depth_of_mem hp)
  rw [List.takeWhile_append_of_pos hdeep, takeWhile_preorder, List.append_nil]

theorem dropWhile_below (below rest : Outline α) (d : ℕ) :
    (below.preorder (d + 1) ++ rest.preorder d).dropWhile (fun p => decide (d < p.1)) =
      rest.preorder d :=
  dropWhile_of_takeWhile (takeWhile_below below rest d)

/-- **The depths tell the outline.** -/
theorem ofPreorder_preorder (o : Outline α) (d : ℕ) : ofPreorder (o.preorder d) = o := by
  induction o generalizing d with
  | nil => rw [preorder, ofPreorder]
  | cons label below rest ihbelow ihrest =>
    rw [preorder, ofPreorder, takeWhile_below, dropWhile_below, ihbelow, ihrest]

theorem preorder_map (f : α → β) (o : Outline α) (d : ℕ) :
    (o.map f).preorder d = (o.preorder d).map (Prod.map id f) := by
  induction o generalizing d with
  | nil => rfl
  | cons label below rest ihbelow ihrest =>
    rw [map, preorder, ihbelow, ihrest, preorder, List.map_cons, List.map_append]
    rfl

end Outline

/-! ## The outline of a block -/

mutual

/-- The outline of the body that an action carries. -/
def bodyOutline : Action → Outline Record
  | .withObject body => blockOutline body
  | .defineFunction _ _ body => blockOutline body
  | .defineFunction2 _ _ _ _ body => blockOutline body
  | _ => .nil

/-- The outline of a block. -/
def blockOutline : Block → Outline Record
  | ⟨records, _⟩ => recordsOutline records

/-- The outline of records side by side. -/
def recordsOutline : List Record → Outline Record
  | [] => .nil
  | ⟨offset, size, action⟩ :: rest =>
    .cons ⟨offset, size, action⟩ (bodyOutline action) (recordsOutline rest)

end

/-- The lines of the records of an outline. -/
def outlineLines (depth : ℕ) (o : Outline Record) : List String :=
  (o.preorder depth).map fun p => recordLine p.1 p.2

mutual

theorem bodyLines_eq (depth : ℕ) :
    ∀ a : Action, bodyLines depth a = outlineLines depth (bodyOutline a)
  | .withObject body => blockLines_eq depth body
  | .defineFunction _ _ body => blockLines_eq depth body
  | .defineFunction2 _ _ _ _ body => blockLines_eq depth body
  | .op _ | .gotoFrame _ | .gotoFrame2 _ _ | .goToLabel _ | .getUrl _ _ | .getUrl2 _ | .push _
  | .storeRegister _ | .constantPool _ | .jump _ | .branchIf _ | .notImplemented _ _ => rfl

/-- **A listing has one line for each record of the outline**, in pre-order. -/
theorem blockLines_eq (depth : ℕ) :
    ∀ b : Block, blockLines depth b = outlineLines depth (blockOutline b)
  | ⟨records, _⟩ => recordsLines_eq depth records

theorem recordsLines_eq (depth : ℕ) :
    ∀ l : List Record, recordsLines depth l = outlineLines depth (recordsOutline l)
  | [] => rfl
  | ⟨offset, size, action⟩ :: rest => by
    rw [recordsLines, bodyLines_eq (depth + 1) action, recordsLines_eq depth rest, outlineLines,
      outlineLines, outlineLines, recordsOutline, Outline.preorder, List.map_cons, List.map_append]

end

end ActionVm
