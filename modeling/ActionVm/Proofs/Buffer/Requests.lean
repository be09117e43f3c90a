import ActionVm.Proofs.Buffer.Bytes

/-!
# A buffer as a list of bytes

Whatever is asked of a buffer, one request after another, is answered as by a plain list of bytes of
the same length, in which a slot is four bytes, low byte first. Requests that fail change nothing.

* `Buffer.Request`, `Buffer.Answer`: what is asked, and what is answered;
* `Buffer.perform`, `Buffer.performOnList`: a buffer and a list on a request;
* `Buffer.performOnList_toList`, `Buffer.performAll_toList`: one request, and many;
* **`Buffer.answers_of_list`**: new buffers answer as lists do.
-/

namespace ActionVm.Buffer

/-- What is asked of a buffer. -/
inductive Request where
  | get (index : ℕ)
  | set (index : ℕ) (value : UInt8)
  | read (start size : ℕ)
  | write (start : ℕ) (bytes : List UInt8)
  | contents
  | slot (address : ℕ)
  | setSlot (address : ℕ) (value : Int32)
  | compareAndSwap (address : ℕ) (expected new : Int32)

/-- What is answered. A request that fails has no value for an answer, or no success. -/
inductive Answer where
  | byte (value : Option UInt8)
  | bytes (value : Option (List UInt8))
  | number (value : Option Int32)
  | changed (success : Bool)

/-- The answer to a change, and the buffer after it. -/
def changed (b : Buffer) (change : Option Buffer) : Answer × Buffer :=
  (.changed change.isSome, change.getD b)

/-- A buffer on a request. -/
def perform (b : Buffer) : Request → Answer × Buffer
  | .get index => (.byte (b.get? index), b)
  | .set index value => b.changed (b.set? index value)
  | .read start size => (.bytes (b.read? start size), b)
  | .write start bytes => b.changed (b.write? start bytes)
  | .contents => (.bytes (some b.toList), b)
  | .slot address => (.number (b.slot? address), b)
  | .setSlot address value => b.changed (b.setSlot? address value)
  | .compareAndSwap address expected new =>
    match b.compareAndSwap? address expected new with
    | some (old, b) => (.number (some old), b)
    | none => (.number none, b)

/-- The answer to a change to `new` that succeeds if `p` holds, and the list after it. -/
def changeIf (p : Prop) [Decidable p] (l new : List UInt8) : Answer × List UInt8 :=
  if p then (.changed true, new) else (.changed false, l)

/-- A plain list of bytes on a request. -/
def performOnList (l : List UInt8) : Request → Answer × List UInt8
  | .get index => (.byte l[index]?, l)
  | .set index value => changeIf (index < l.length) l (l.set index value)
  | .read start size =>
    (.bytes (if start + size ≤ l.length then some ((l.drop start).take size) else none), l)
  | .write start bytes => changeIf (start + bytes.length ≤ l.length) l (spliced l start bytes)
  | .contents => (.bytes (some l), l)
  | .slot address => (.number (if HasSlot l address then some (numberAt l address) else none), l)
  | .setSlot address value =>
    changeIf (HasSlot l address) l (spliced l address (lowBytes 4 value.toUInt32.toNat))
  | .compareAndSwap address expected new =>
    if HasSlot l address then
      (.number (some (numberAt l address)), if numberAt l address = expected then
        spliced l address (lowBytes 4 new.toUInt32.toNat) else l)
    else (.number none, l)

/-- The answers to requests, one after another, and what there is after them. -/
def performAll {σ : Type} (perform : σ → Request → Answer × σ) : σ → List Request → List Answer × σ
  | s, [] => ([], s)
  | s, q :: rest =>
    let (answer, s) := perform s q
    let (answers, s) := performAll perform s rest
    (answer :: answers, s)

/-! ## Requests to a buffer and to its list -/

theorem changeIf_toList {p : Prop} [Decidable p] {b c : Buffer} {l : List UInt8}
    (h : p → c.toList = l) : changeIf p b.toList l =
      ((b.changed (if p then some c else none)).1,
        (b.changed (if p then some c else none)).2.toList) := by
  rw [changeIf]
  split
  · next hp => rw [← h hp]; rfl
  · rfl

theorem performOnList_toList (b : Buffer) (q : Request) :
    performOnList b.toList q = ((b.perform q).1, (b.perform q).2.toList) := by
  cases q with
  | get index => rw [performOnList, perform, get?_eq]
  | set index value =>
    simp only [performOnList, perform, set?, length_toList]
    exact changeIf_toList fun h => toList_setByte h value
  | read start size => rw [performOnList, perform, read?_eq]
  | write start bytes =>
    simp only [performOnList, perform, write?, covers, length_toList, decide_eq_true_eq]
    exact changeIf_toList (toList_setBytes bytes b start)
  | contents => rfl
  | slot address =>
    simp only [performOnList, perform, slot?, hasSlot_iff]
    split
    · next h => rw [word_eq_numberAt h]
    · rfl
  | setSlot address value =>
    simp only [performOnList, perform, setSlot?, hasSlot_iff]
    exact changeIf_toList fun h => toList_setWord h _
  | compareAndSwap address expected new =>
    simp only [performOnList, perform, compareAndSwap?, hasSlot_iff]
    by_cases h : HasSlot b.toList address
    · simp only [if_pos h, word_eq_numberAt h]
      split
      · rw [toList_setWord h]
      · rfl
    · simp only [if_neg h]

theorem performAll_toList (qs : List Request) : ∀ b : Buffer,
    performAll performOnList b.toList qs =
      ((performAll perform b qs).1, (performAll perform b qs).2.toList) := by
  induction qs with
  | nil => exact fun _ => rfl
  | cons q qs ih => exact fun b => by simp only [performAll, performOnList_toList, ih]

/-! ## The length -/

theorem length_spliced {l bytes : List UInt8} {start : ℕ} (h : start + bytes.length ≤ l.length) :
    (spliced l start bytes).length = l.length := by
  simp only [spliced, List.length_append, List.length_take, List.length_drop]
  omega

theorem length_changeIf {p : Prop} [Decidable p] {l new : List UInt8}
    (h : p → new.length = l.length) : (changeIf p l new).2.length = l.length := by
  rw [changeIf]
  split
  · next hp => exact h hp
  · rfl

theorem length_performOnList (l : List UInt8) (q : Request) :
    (performOnList l q).2.length = l.length := by
  cases q with
  | get | read | contents | slot => rfl
  | set index value => exact length_changeIf fun _ => List.length_set
  | write start bytes => exact length_changeIf length_spliced
  | setSlot address value => exact length_changeIf fun h => length_spliced h.2
  | compareAndSwap address expected new =>
    rw [performOnList]
    split
    · next h =>
      by_cases heq : numberAt l address = expected
      · rw [if_pos heq]
        exact length_spliced h.2
      · rw [if_neg heq]
    · rfl

theorem length_performAll (qs : List Request) : ∀ l : List UInt8,
    (performAll performOnList l qs).2.length = l.length := by
  induction qs with
  | nil => exact fun _ => rfl
  | cons q qs ih => exact fun l => (ih _).trans (length_performOnList l q)

/-! ## New buffers -/

/-- **A buffer answers as a list of bytes does**, whatever it is asked, and keeps the bytes that the
list holds. -/
theorem answers_of_list (qs : List Request) :
    (∀ n, (performAll perform (zeros n) qs).1 =
      (performAll performOnList (List.replicate n 0) qs).1) ∧
    (∀ bytes, (performAll perform (ofList bytes) qs).1 = (performAll performOnList bytes qs).1) ∧
    ∀ b, (performAll perform b qs).1 = (performAll performOnList b.toList qs).1 ∧
      (performAll perform b qs).2.toList = (performAll performOnList b.toList qs).2 ∧
      (performAll perform b qs).2.length = b.length := by
  refine ⟨fun n => ?_, fun bytes => ?_, fun b => ?_⟩
  · rw [← toList_zeros, performAll_toList]
  · rw [← toList_ofList bytes, performAll_toList, toList_ofList]
  · have hlen := length_performAll qs b.toList
    rw [performAll_toList, length_toList, length_toList] at hlen
    rw [performAll_toList]
    exact ⟨rfl, rfl, hlen⟩

end ActionVm.Buffer
