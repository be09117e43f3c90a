import ActionVm.Tag
import ActionVm.Proofs.Block.Displacement
import Mathlib.Data.List.Forall2

/-!
# Button entries, one by one

The entries of a button are decoded each for itself: what an entry answers rests on the bytes of its
own body, and what stands behind them is decoded as if it were an input of its own.

* `ButtonSource`: an entry before it is encoded, with `encodeInner` and `encodeButton` for lists;
* `run_readButtonEntry`: an entry is decoded from its body alone;
* `decodeButton_cons`: the first entry of a button;
* `decodeButton_append`, `decodeButton_of_failing`: entries before any other bytes;
* `exists_inner`: how declared sizes divide the bytes of any button;
* **`decodeButton_entrywise`**: a button is decoded entry by entry.
-/

namespace ActionVm

open Read

/-- A button entry before it is encoded: what it reacts to, and the bytes of its actions. -/
structure ButtonSource where
  conditions : UInt16
  body : List UInt8

namespace ButtonSource

/-- The size that the entry declares if another one follows. -/
def size (x : ButtonSource) : UInt16 := UInt16.ofNat (x.body.length + ButtonEntry.headerSize)

/-- The size of the entry fits into 16 bits. -/
def Fits (x : ButtonSource) : Prop := x.body.length ≤ 65531

/-- The bytes of the entry, which declares the given size. -/
def encode (x : ButtonSource) (size : UInt16) : List UInt8 :=
  Word.le16 size ++ (Word.le16 x.conditions ++ x.body)

/-- The entry of the given size and actions. -/
def entry (x : ButtonSource) (size : UInt16) (actions : Block) : ButtonEntry :=
  ⟨size, ⟨x.conditions⟩, actions⟩

/-- The decoded entry has the given size, the conditions of this one, and the actions of its body
alone. -/
structure Decodes (x : ButtonSource) (size : UInt16) (e : ButtonEntry) : Prop where
  size : e.size = size
  conditions : e.conditions = ⟨x.conditions⟩
  actions : decodeActions x.body = .ok e.actions

theorem toNat_size {x : ButtonSource} (h : x.Fits) : x.size.toNat = x.body.length + 4 := by
  rw [Fits] at h
  rw [size, UInt16.toNat_ofNat_of_lt' (by change _ + 4 < 2 ^ 16; omega), ButtonEntry.headerSize]

theorem length_encode (x : ButtonSource) (size : UInt16) :
    (x.encode size).length = x.body.length + 4 := by
  simp only [encode, List.length_append, Word.le16, List.length_cons, List.length_nil]
  omega

end ButtonSource

/-- The bytes of entries that others follow. -/
def encodeInner (l : List ButtonSource) : List UInt8 := l.flatMap fun x => x.encode x.size

/-- The entries of a button with the sizes that they declare, which is zero for the last one. -/
def declared : List ButtonSource → List (ButtonSource × UInt16)
  | [] => []
  | [x] => [(x, 0)]
  | x :: y :: l => (x, x.size) :: declared (y :: l)

/-- The bytes of a button. -/
def encodeButton (l : List ButtonSource) : List UInt8 :=
  (declared l).flatMap fun (x, size) => x.encode size

/-! ## A single entry -/

section Entry

variable {r : Reader} {size : UInt16} {x : ButtonSource} {rest : List UInt8}

theorem gives_le16 {w : UInt16} (h : r.rest = Word.le16 w ++ rest) :
    Gives u16 r w (r.past 2 rest) :=
  gives_u16.mpr ⟨_, _, rest, h, (Word.of16_bytes w).symm, rfl⟩

/-- The declared size tells where the body ends. -/
def SizeTells (size : UInt16) (x : ButtonSource) (rest : List UInt8) : Prop :=
  size = 0 ∧ rest = [] ∨ size.toNat = x.body.length + 4

/-- A stream answers the same wherever its span starts, but for the places of errors. -/
theorem readStream_moved (span : Reader) (k : ℕ) :
    (readStream.run.run (span.moved 0 k)).1 = outcome id k (readStream.run.run span).1 := by
  have hmoved := answer_moved (movesBodies_decoderBelow maxNesting) false span 0 k
  rw [Block.moved_zero, Nat.zero_add] at hmoved
  exact hmoved

theorem readStream_at (body : List UInt8) (place : ℕ) :
    (readStream.run.run (⟨body, 0, place⟩ : Reader)).1 = outcome id place (decodeActions body) := by
  have hat : (⟨body, 0, place⟩ : Reader) = (Reader.ofBytes body).moved 0 place := by
    simp only [Reader.moved, Reader.ofBytes, Nat.zero_add]
  rw [hat]
  exact readStream_moved (.ofBytes body) place

/-- The actions of an entry whose header is read. -/
theorem run_readActions (hr : r.rest = x.body ++ rest) (size : UInt16) :
    (do
      let span ← Read.sub x.body.length
      return ⟨size, ⟨x.conditions⟩, ← liftM (readStream.run.run span |>.1)⟩ :
        Read ButtonEntry).run.run r =
      (outcome (x.entry size) r.place (decodeActions x.body), r.past x.body.length rest) := by
  have hspan : Gives (Read.sub x.body.length) r ⟨x.body, 0, r.place⟩
      (r.past x.body.length rest) := by
    refine gives_sub.mpr ⟨?_, ?_, ?_⟩
    · rw [hr, List.length_append]
      exact Nat.le_add_right _ _
    · rw [Reader.sub, hr, List.take_left]
    · rw [Reader.skip, hr, List.drop_left]
      rfl
  rw [hspan.run_bind, readStream_at]
  cases decodeActions x.body <;> rfl

/-- **An entry is decoded from its body alone**, and read up to its end. -/
theorem run_readButtonEntry (hr : r.rest = x.encode size ++ rest) (hs : SizeTells size x rest) :
    readButtonEntry.run.run r =
      (outcome (x.entry size) (r.place + 4) (decodeActions x.body),
        r.past (x.body.length + 4) rest) := by
  rw [ButtonSource.encode, List.append_assoc, List.append_assoc] at hr
  have hsize := gives_le16 hr
  have hconditions := gives_le16 (r := r.past 2 (Word.le16 x.conditions ++ (x.body ++ rest))) rfl
  have hactions := run_readActions (r := r.past 4 (x.body ++ rest)) rfl size
  have hend : (r.past 4 (x.body ++ rest)).past x.body.length rest =
      r.past (x.body.length + 4) rest := by
    rw [Reader.past, Reader.past, Reader.past, Nat.add_assoc, Nat.add_comm 4]
  rw [hend] at hactions
  refine Eq.trans ?_ hactions
  rw [readButtonEntry, run_get_bind, hsize.run_bind, hconditions.run_bind]
  rcases hs with ⟨rfl, rfl⟩ | hs
  · -- the last entry takes all that is left
    rw [if_pos rfl, run_get_bind, Reader.remaining, Reader.past, List.append_nil]
    rfl
  · have hzero : ¬ size = 0 := by
      rintro rfl
      exact Nat.succ_ne_zero _ hs.symm
    rw [if_neg hzero, if_neg (by rw [ButtonEntry.headerSize]; omega), hs, ButtonEntry.headerSize,
      Nat.add_sub_cancel]
    rfl

end Entry

/-! ## Entries one after another -/

/-- What is read as an entry is the encoding of one. -/
theorem exists_source {r r' : Reader} {e : ButtonEntry} (h : Gives readButtonEntry r e r') :
    ∃ (x : ButtonSource) (size : UInt16),
      r.rest = x.encode size ++ r'.rest ∧ SizeTells size x r'.rest := by
  obtain ⟨_, _, hget, h⟩ := gives_bind.mp h
  obtain ⟨rfl, rfl⟩ := gives_get.mp hget
  obtain ⟨size, m, hsize, h⟩ := gives_bind.mp h
  obtain ⟨conditions, m', hconditions, h⟩ := gives_bind.mp h
  obtain ⟨a, b, _, hr, rfl, rfl⟩ := gives_u16.mp hsize
  obtain ⟨c, d, rest, hm, rfl, rfl⟩ := gives_u16.mp hconditions
  -- what is left is a span of the length that the declared size tells
  have hbody : ∀ {n : ℕ} {m : Reader}, Gives (do
      let span ← Read.sub n
      return ⟨Word.of16 a b, ⟨Word.of16 c d⟩, ← liftM (readStream.run.run span |>.1)⟩) m e r' →
      n ≤ m.rest.length ∧ r'.rest = m.rest.drop n := by
    intro n m h
    obtain ⟨_, _, hsub, h⟩ := gives_bind.mp h
    obtain ⟨hn, -, rfl⟩ := gives_sub.mp hsub
    obtain ⟨_, _, hlift, h⟩ := gives_bind.mp h
    obtain ⟨-, rfl⟩ := gives_ofExcept.mp hlift
    obtain ⟨-, rfl⟩ := gives_pure.mp h
    exact ⟨hn, rfl⟩
  have hheader : ∀ body, (⟨Word.of16 c d, body⟩ : ButtonSource).encode (Word.of16 a b) =
      a :: b :: c :: d :: body := fun body => by
    rw [ButtonSource.encode, Word.le16_of16, Word.le16_of16]
    rfl
  have hall : r.rest = a :: b :: c :: d :: rest := hr.trans (congrArg (a :: b :: ·) hm)
  split_ifs at h with hzero hsmall
  · obtain ⟨_, _, hget, h⟩ := gives_bind.mp h
    obtain ⟨rfl, rfl⟩ := gives_get.mp hget
    have hnone : r'.rest = [] := (hbody h).2.trans (List.drop_length ..)
    refine ⟨⟨Word.of16 c d, rest⟩, Word.of16 a b, ?_, Or.inl ⟨hzero, hnone⟩⟩
    rw [hheader, hnone, List.append_nil, hall]
  · obtain ⟨_, _, hthrow, -⟩ := gives_bind.mp h
    exact absurd hthrow not_gives_throw
  · rw [ButtonEntry.headerSize] at h hsmall
    obtain ⟨hn, hrest⟩ := hbody h
    change _ ≤ rest.length at hn
    change _ = rest.drop _ at hrest
    refine ⟨⟨Word.of16 c d, rest.take ((Word.of16 a b).toNat - 4)⟩, Word.of16 a b, ?_, Or.inr ?_⟩
    · rw [hheader, hrest, List.cons_append, List.cons_append, List.cons_append, List.cons_append,
        List.take_append_drop, hall]
    · rw [List.length_take_of_le hn]
      omega

/-- An entry takes a byte at least. -/
theorem length_rest_of_readButtonEntry {r r' : Reader} {e : ButtonEntry}
    (h : Gives readButtonEntry r e r') : r'.rest.length < r.rest.length := by
  obtain ⟨x, size, hr, -⟩ := exists_source h
  rw [hr, List.length_append, ButtonSource.length_encode]
  omega

/-- What is answered at a reader for the entries up to the last one, or to the end of the span. -/
def entriesAt (r : Reader) : Except DecodeError (List ButtonEntry) :=
  ((readButtonEntriesAfter [] r.rest.length).run.run r).1

theorem decodeButton_eq (bytes : List UInt8) : decodeButton bytes = entriesAt (.ofBytes bytes) :=
  rfl

theorem run_readButtonEntriesAfter_of_nil {done : List ButtonEntry} {n : ℕ} {r : Reader}
    (h : r.rest = []) : (readButtonEntriesAfter done n).run.run r = (.ok done.reverse, r) := by
  cases n with
  | zero => rfl
  | succ n =>
    rw [readButtonEntriesAfter, run_get_bind, if_pos (by rw [Reader.isEmpty, h]; rfl)]
    rfl

theorem run_readButtonEntriesAfter_of_ne_nil {done : List ButtonEntry} {n : ℕ} {r : Reader}
    (h : r.rest ≠ []) : (readButtonEntriesAfter done (n + 1)).run.run r =
      (readButtonEntry >>= fun entry =>
        if entry.isLast then return (entry :: done).reverse
        else readButtonEntriesAfter (entry :: done) n).run.run r := by
  have hne : ¬ r.isEmpty = true := by rwa [Reader.isEmpty, List.isEmpty_iff]
  rw [readButtonEntriesAfter, run_get_bind]
  exact congrArg (fun x : Read (List ButtonEntry) => x.run.run r) (if_neg hne)

/-- As many reads as there are bytes suffice, and entries that are read before only come first. -/
theorem answer_readButtonEntriesAfter {r : Reader} {done : List ButtonEntry} {n : ℕ}
    (hn : r.rest.length ≤ n) :
    ((readButtonEntriesAfter done n).run.run r).1 = (entriesAt r).map (done.reverse ++ ·) := by
  induction hlength : r.rest.length using Nat.strong_induction_on generalizing r done n with
  | _ k ih =>
    unfold entriesAt
    by_cases hr : r.rest = []
    · rw [run_readButtonEntriesAfter_of_nil hr, run_readButtonEntriesAfter_of_nil hr]
      exact congrArg Except.ok (List.append_nil _).symm
    · have hpos := List.length_pos_iff.mpr hr
      obtain ⟨n, rfl⟩ : ∃ m, n = m + 1 := ⟨n - 1, by omega⟩
      obtain ⟨k, hk⟩ : ∃ m, r.rest.length = m + 1 := ⟨r.rest.length - 1, by omega⟩
      rw [hk, run_readButtonEntriesAfter_of_ne_nil hr, run_readButtonEntriesAfter_of_ne_nil hr]
      rcases gives_or_fails readButtonEntry r with ⟨e, m, h⟩ | ⟨e, h⟩
      · have hlt := length_rest_of_readButtonEntry h
        rw [h.run_bind, h.run_bind]
        split
        · exact congrArg Except.ok (by simp)
        · rw [ih _ (hlength ▸ hlt) (by omega) rfl, ih _ (hlength ▸ hlt) (by omega) rfl]
          cases entriesAt m with
          | error => rfl
          | ok l => exact congrArg Except.ok (by simp)
      · exact (h.bind _).trans (congrArg (Except.map _) (h.bind _)).symm

theorem movable_readButtonEntry : Movable readButtonEntry := by
  have hbody : ∀ size conditions length, Movable (do
      let span ← Read.sub length
      return (⟨size, ⟨conditions⟩, ← liftM (readStream.run.run span |>.1)⟩ : ButtonEntry)) := by
    refine fun size conditions length i j => (moves_sub length).bind fun span => ?_
    rw [readStream_moved]
    exact (moves_ofExcept _).bind fun b => moves_pure id _
  refine fun i j => moves_get.bind fun r => (movable_u16 i j).bind fun size =>
    (movable_u16 i j).bind fun conditions => ?_
  rw [Reader.place_moved]
  simp only [id]
  split
  · exact moves_get.bind fun q => hbody size conditions q.remaining i j
  · split
    · exact (moves_throw (α := ℕ) id _).bind fun n => hbody size conditions n i j
    · exact hbody size conditions _ i j

theorem movable_readButtonEntriesAfter (n : ℕ) :
    ∀ done, Movable (readButtonEntriesAfter done n) := by
  induction n with
  | zero => exact fun done => movable_pure _
  | succ n ih =>
    refine fun done i j => moves_get.bind fun r => ?_
    rw [show (r.moved i j).isEmpty = r.isEmpty from rfl]
    split
    · exact moves_pure id _
    · refine (movable_readButtonEntry i j).bind fun entry => ?_
      simp only [id]
      split
      · exact moves_pure id _
      · exact ih _ i j

theorem entriesAt_moved (r : Reader) (i j : ℕ) :
    entriesAt (r.moved i j) = outcome id (i + j) (entriesAt r) :=
  congrArg Prod.fst (movable_readButtonEntriesAfter r.rest.length [] i j r)

/-! ## Places moved twice -/

theorem DecodeError.moved_zero (e : DecodeError) : e.moved 0 = e := by
  cases e <;> rfl

theorem DecodeError.moved_moved (e : DecodeError) (j k : ℕ) :
    (e.moved j).moved k = e.moved (j + k) := by
  cases e <;> simp only [moved, Nat.add_assoc]

theorem outcome_id_zero {α : Type} (x : Except DecodeError α) : outcome id 0 x = x := by
  cases x with
  | error e => exact congrArg Except.error e.moved_zero
  | ok a => rfl

theorem outcome_outcome {α β γ : Type} (f : β → γ) (g : α → β) (j k : ℕ)
    (x : Except DecodeError α) : outcome f k (outcome g j x) = outcome (f ∘ g) (j + k) x := by
  cases x with
  | error e => exact congrArg Except.error (e.moved_moved j k)
  | ok a => rfl

/-! ## Lists of entries -/

section Lists

variable {x : ButtonSource} {size : UInt16} {l before after : List ButtonSource}
  {rest : List UInt8} {es : List ButtonEntry} {e : ButtonEntry} {error : DecodeError}

/-- The first entry of a button, and what stands behind it. -/
theorem decodeButton_cons (hs : SizeTells size x rest) :
    decodeButton (x.encode size ++ rest) = match decodeActions x.body with
      | .error e => .error (e.moved 4)
      | .ok b =>
        if size = 0 then .ok [x.entry 0 b]
        else outcome (x.entry size b :: ·) (x.body.length + 4) (decodeButton rest) := by
  let r := Reader.ofBytes (x.encode size ++ rest)
  have hr : r.rest ≠ [] := List.cons_ne_nil _ _
  obtain ⟨n, hn⟩ : ∃ n, r.rest.length = n + 1 :=
    ⟨_, (Nat.succ_pred (List.length_pos_iff.mpr hr).ne').symm⟩
  have hentry := run_readButtonEntry (r := r) rfl hs
  change entriesAt r = _
  rw [entriesAt, hn, run_readButtonEntriesAfter_of_ne_nil hr]
  cases hx : decodeActions x.body with
  | error e =>
    rw [hx] at hentry
    exact Fails.bind (congrArg Prod.fst hentry) _
  | ok b =>
    rw [hx] at hentry
    rw [Gives.run_bind (a := x.entry size b) hentry]
    by_cases hzero : size = 0
    · subst hzero
      rfl
    · have hlast : ¬ (x.entry size b).isLast = true := fun h => hzero (beq_iff_eq.mp h)
      have hlength : r.rest.length = x.body.length + 4 + rest.length := by
        rw [← x.length_encode size, ← List.length_append]
        rfl
      have hbehind : r.past (x.body.length + 4) rest =
          (Reader.ofBytes rest).moved (x.body.length + 4) 0 := by
        simp only [Reader.past, Reader.moved, Reader.ofBytes, r, Nat.add_zero, Nat.zero_add]
      have henough : (r.past (x.body.length + 4) rest).rest.length ≤ n := by
        change rest.length ≤ n
        omega
      simp only [if_neg hlast, if_neg hzero]
      rw [answer_readButtonEntriesAfter henough, hbehind, entriesAt_moved, decodeButton_eq]
      cases entriesAt (.ofBytes rest) <;> rfl

theorem SizeTells.inner (hx : x.Fits) (rest : List UInt8) : SizeTells x.size x rest :=
  Or.inr (ButtonSource.toNat_size hx)

theorem ButtonSource.size_ne_zero (hx : x.Fits) : x.size ≠ 0 := by
  intro h
  have := toNat_size hx
  rw [h] at this
  exact Nat.succ_ne_zero _ this.symm

theorem ButtonSource.Decodes.eq_entry (h : x.Decodes size e) : e = x.entry size e.actions := by
  obtain ⟨rfl, hconditions, -⟩ := h
  rw [entry, ← hconditions]

theorem encodeInner_cons (x : ButtonSource) (l : List ButtonSource) :
    encodeInner (x :: l) = x.encode x.size ++ encodeInner l := List.flatMap_cons

/-- **What stands behind entries** is decoded as an input of its own, and moved. -/
theorem decodeButton_append (hl : ∀ x ∈ l, x.Fits)
    (hes : List.Forall₂ (fun x e => x.Decodes x.size e) l es) (rest : List UInt8) :
    decodeButton (encodeInner l ++ rest) =
      outcome (es ++ ·) (encodeInner l).length (decodeButton rest) := by
  induction hes with
  | nil => exact (outcome_id_zero _).symm
  | @cons x e l es hx _ ih =>
    have hfits := hl x List.mem_cons_self
    rw [encodeInner_cons, List.append_assoc, decodeButton_cons (.inner hfits _), hx.actions]
    simp only [if_neg (ButtonSource.size_ne_zero hfits)]
    rw [ih fun y hy => hl y (List.mem_cons_of_mem _ hy), outcome_outcome, ← hx.eq_entry,
      List.length_append, ButtonSource.length_encode, Nat.add_comm]
    rfl

/-- **A body that fails** ends the decoding with its own error, whatever stands behind it. -/
theorem decodeButton_of_failing (hl : ∀ x ∈ l, x.Fits)
    (hes : List.Forall₂ (fun x e => x.Decodes x.size e) l es) (hs : SizeTells size x rest)
    (he : decodeActions x.body = .error error) :
    decodeButton (encodeInner l ++ (x.encode size ++ rest)) =
      .error (error.moved ((encodeInner l).length + 4)) := by
  rw [decodeButton_append hl hes, decodeButton_cons hs, he]
  refine congrArg Except.error ((error.moved_moved _ _).trans ?_)
  rw [Nat.add_comm]

/-- Bodies that decode, each by itself. -/
theorem exists_decoded (f : ButtonSource → UInt16)
    (h : ∀ x ∈ l, ∃ b, decodeActions x.body = .ok b) :
    ∃ es, List.Forall₂ (fun x e => x.Decodes (f x) e) l es := by
  induction l with
  | nil => exact ⟨[], .nil⟩
  | cons x l ih =>
    obtain ⟨b, hb⟩ := h x List.mem_cons_self
    obtain ⟨es, hes⟩ := ih fun y hy => h y (List.mem_cons_of_mem _ hy)
    exact ⟨x.entry (f x) b :: es, .cons ⟨rfl, rfl, hb⟩ hes⟩

/-- Either every body decodes, or there is a first one that fails. -/
theorem decode_or_first_fails (l : List ButtonSource) :
    (∀ x ∈ l, ∃ b, decodeActions x.body = .ok b) ∨
      ∃ before x after error, l = before ++ x :: after ∧
        (∀ y ∈ before, ∃ b, decodeActions y.body = .ok b) ∧
        decodeActions x.body = .error error := by
  induction l with
  | nil => exact Or.inl fun _ h => absurd h List.not_mem_nil
  | cons x l ih =>
    cases hx : decodeActions x.body with
    | error error =>
      exact Or.inr ⟨[], x, l, error, rfl, fun _ h => absurd h List.not_mem_nil, hx⟩
    | ok b =>
      have hhead : ∃ b, decodeActions x.body = .ok b := ⟨b, hx⟩
      refine ih.imp (fun h => List.forall_mem_cons.mpr ⟨hhead, h⟩) ?_
      rintro ⟨before, y, after, error, rfl, hbefore, hy⟩
      exact ⟨x :: before, y, after, error, rfl, List.forall_mem_cons.mpr ⟨hhead, hbefore⟩, hy⟩

/-! ## Buttons -/

theorem declared_append (l : List ButtonSource) (x : ButtonSource) :
    declared (l ++ [x]) = (l.map fun y => (y, y.size)) ++ [(x, 0)] := by
  induction l with
  | nil => rfl
  | cons y l ih =>
    obtain ⟨z, t, hz⟩ := List.exists_cons_of_ne_nil (List.append_ne_nil_of_right_ne_nil l
      (List.cons_ne_nil x []))
    rw [List.cons_append, hz, declared, ← hz, ih]
    rfl

theorem encodeButton_append (l : List ButtonSource) (x : ButtonSource) :
    encodeButton (l ++ [x]) = encodeInner l ++ x.encode 0 := by
  rw [encodeButton, declared_append, List.flatMap_append, List.flatMap_map, List.flatMap_singleton]
  rfl

theorem decodeButton_encodeButton (hl : ∀ x ∈ l, x.Fits)
    (hes : List.Forall₂ (fun x e => x.Decodes x.size e) l es) (hx : x.Decodes 0 e) :
    decodeButton (encodeButton (l ++ [x])) = .ok (es ++ [e]) := by
  have hlast : decodeButton (x.encode 0) = .ok [e] := by
    have h : decodeButton (x.encode 0 ++ []) = _ := decodeButton_cons (Or.inl ⟨rfl, rfl⟩)
    rw [List.append_nil, hx.actions] at h
    exact h.trans (congrArg (Except.ok [·]) hx.eq_entry.symm)
  rw [encodeButton_append, decodeButton_append hl hes, hlast]
  rfl

theorem decodeButton_encodeButton_of_failing (hl : ∀ y ∈ (before ++ x :: after).dropLast, y.Fits)
    (hbefore : ∀ y ∈ before, ∃ b, decodeActions y.body = .ok b)
    (hx : decodeActions x.body = .error error) :
    decodeButton (encodeButton (before ++ x :: after)) =
      .error (error.moved ((encodeInner before).length + 4)) := by
  obtain ⟨es, hes⟩ := exists_decoded ButtonSource.size hbefore
  rcases List.eq_nil_or_concat after with rfl | ⟨inner, last, rfl⟩
  · rw [List.dropLast_concat] at hl
    rw [encodeButton_append, ← List.append_nil (x.encode 0)]
    exact decodeButton_of_failing hl hes (Or.inl ⟨rfl, rfl⟩) hx
  · have hsplit : before ++ x :: inner.concat last = (before ++ x :: inner) ++ [last] := by simp
    rw [hsplit] at hl ⊢
    rw [List.dropLast_concat] at hl
    have hfits : ∀ y ∈ before, y.Fits := fun y hy => hl y (List.mem_append_left _ hy)
    have hxfits : x.Fits := hl x (List.mem_append_right _ List.mem_cons_self)
    rw [encodeButton_append, encodeInner, List.flatMap_append, List.flatMap_cons,
      List.append_assoc, List.append_assoc]
    exact decodeButton_of_failing hfits hes (.inner hxfits _) hx

/-! ## Any bytes -/

theorem fails_u16 {r : Reader} (h : r.rest.length < 2) :
    Fails u16 r (.unexpectedEnd r.place 2 r.remaining) := ((fails_need h).bind _).bind _

/-- An entry that fails ends the decoding. -/
theorem entriesAt_of_fails {r : Reader} (hr : r.rest ≠ []) (h : Fails readButtonEntry r error) :
    entriesAt r = .error error := by
  obtain ⟨n, hn⟩ : ∃ n, r.rest.length = n + 1 :=
    ⟨_, (Nat.succ_pred (List.length_pos_iff.mpr hr).ne').symm⟩
  rw [entriesAt, hn, run_readButtonEntriesAfter_of_ne_nil hr]
  exact h.bind _

/-- **A declared size below that of the header** is rejected, as soon as the header is read. -/
theorem decodeButton_of_small (hpos : 0 < size.toNat) (hsmall : size.toNat < 4)
    (rest : List UInt8) : decodeButton (Word.le16 size ++ rest) =
      .error (if rest.length < 2 then .unexpectedEnd 2 2 rest.length
        else .invalidConditionSize size 0) := by
  let r := Reader.ofBytes (Word.le16 size ++ rest)
  have hsize : Gives u16 r size (r.past 2 rest) := gives_le16 rfl
  refine entriesAt_of_fails (r := r) (List.cons_ne_nil _ _) ?_
  refine Gives.bind_fails (gives_get.mpr ⟨rfl, rfl⟩) (hsize.bind_fails ?_)
  by_cases hshort : rest.length < 2
  · rw [if_pos hshort]
    exact (fails_u16 (r := r.past 2 rest) hshort).bind _
  · rw [if_neg hshort]
    obtain ⟨conditions, m, hconditions⟩ : ∃ w m, Gives u16 (r.past 2 rest) w m := by
      rcases rest with _ | ⟨a, _ | ⟨b, rest⟩⟩
      · exact absurd Nat.zero_lt_two hshort
      · exact absurd Nat.one_lt_two hshort
      · exact ⟨_, _, gives_u16.mpr ⟨a, b, rest, rfl, rfl, rfl⟩⟩
    refine hconditions.bind_fails ?_
    have hzero : ¬ size = 0 := fun h => hpos.ne' (congrArg UInt16.toNat h)
    rw [if_neg hzero, if_pos (by rwa [ButtonEntry.headerSize])]
    exact fails_throw.bind _

/-- No entry that another one may follow stands at the start of the bytes. -/
def EndsButton (bytes : List UInt8) : Prop :=
  ∀ x : ButtonSource, x.Fits → ¬ x.encode x.size <+: bytes

/-- Where no further entry is followed by another, there is nothing, or the last entry, or what is
rejected. -/
theorem decodeButton_of_endsButton (h : EndsButton rest) :
    rest = [] ∨ (∃ x : ButtonSource, rest = x.encode 0) ∨
    ∃ error, decodeButton rest = .error error := by
  by_cases hr : rest = []
  · exact Or.inl hr
  rcases gives_or_fails readButtonEntry (.ofBytes rest) with ⟨e, r', he⟩ | ⟨error, he⟩
  · obtain ⟨x, size, hx, ⟨rfl, hnone⟩ | hsize⟩ := exists_source he
    · rw [hnone, List.append_nil] at hx
      exact Or.inr (Or.inl ⟨x, hx⟩)
    · have hlt := size.toNat_lt
      have hfits : x.Fits := by
        rw [ButtonSource.Fits]
        omega
      have hown : size = x.size :=
        UInt16.toNat_inj.mp (hsize.trans (ButtonSource.toNat_size hfits).symm)
      exact absurd ⟨r'.rest, (hown ▸ hx).symm⟩ (h x hfits)
  · exact Or.inr (Or.inr ⟨error, entriesAt_of_fails hr he⟩)

/-- The declared sizes divide any bytes into entries and what follows them. -/
theorem exists_inner (data : List UInt8) :
    ∃ l rest, data = encodeInner l ++ rest ∧ (∀ x ∈ l, x.Fits) ∧ EndsButton rest := by
  induction hn : data.length using Nat.strong_induction_on generalizing data with
  | _ n ih =>
    by_cases h : EndsButton data
    · exact ⟨[], data, rfl, fun _ h => absurd h List.not_mem_nil, h⟩
    · simp only [EndsButton, not_forall, not_not] at h
      obtain ⟨x, hx, t, rfl⟩ := h
      have hlt : t.length < n := by
        rw [← hn, List.length_append, ButtonSource.length_encode]
        omega
      obtain ⟨l, rest, rfl, hl, hrest⟩ := ih _ hlt t rfl
      refine ⟨x :: l, rest, ?_, List.forall_mem_cons.mpr ⟨hx, hl⟩, hrest⟩
      rw [encodeInner_cons, List.append_assoc]

/-- What stands behind entries makes no difference to them: they are decoded each by itself, or the
first body that fails is what is answered. -/
theorem decodeButton_inner (hl : ∀ x ∈ l, x.Fits) :
    (∃ es, List.Forall₂ (fun x e => x.Decodes x.size e) l es ∧ ∀ behind,
      decodeButton (encodeInner l ++ behind) =
        outcome (es ++ ·) (encodeInner l).length (decodeButton behind)) ∨
    ∃ before x after error, l = before ++ x :: after ∧
      (∀ y ∈ before, ∃ b, decodeActions y.body = .ok b) ∧ decodeActions x.body = .error error ∧
      ∀ behind, decodeButton (encodeInner l ++ behind) =
        .error (error.moved ((encodeInner before).length + 4)) := by
  rcases decode_or_first_fails l with hall | ⟨before, x, after, error, rfl, hbefore, hx⟩
  · obtain ⟨es, hes⟩ := exists_decoded ButtonSource.size hall
    exact Or.inl ⟨es, hes, decodeButton_append hl hes⟩
  · obtain ⟨es, hes⟩ := exists_decoded ButtonSource.size hbefore
    refine Or.inr ⟨before, x, after, error, rfl, hbefore, hx, fun behind => ?_⟩
    have hfits : ∀ y ∈ before, y.Fits := fun y hy => hl y (List.mem_append_left _ hy)
    have hxfits : x.Fits := hl x (List.mem_append_right _ List.mem_cons_self)
    rw [encodeInner, List.flatMap_append, List.flatMap_cons, List.append_assoc, List.append_assoc]
    exact decodeButton_of_failing hfits hes (.inner hxfits _) hx

theorem error_of_inner (hl : ∀ x ∈ l, x.Fits) (hrest : decodeButton rest = .error error) :
    ∃ error, decodeButton (encodeInner l ++ rest) = .error error := by
  rcases decodeButton_inner hl with ⟨es, -, hbehind⟩ | ⟨before, _, _, error, -, -, -, hbehind⟩
  · exact ⟨_, (hbehind rest).trans (by rw [hrest]; rfl)⟩
  · exact ⟨_, hbehind rest⟩

end Lists

/-- **A button is decoded entry by entry.** It decodes if each body does by itself, to the entries
with their sizes, conditions and actions, and else it fails as the first body that does, at the
place of that body. Of any bytes at all, a declared size of one, two or three is rejected; and the
declared sizes cut them into as many entries as another one may follow, and what is rejected behind
these unless it is nothing or the last entry. Entries that others follow are each decoded from their
own bodies, or the first that fails is told, whatever stands behind them. -/
theorem decodeButton_entrywise :
    (∀ l : List ButtonSource, l ≠ [] → (∀ x ∈ l.dropLast, x.Fits) →
      ((∃ es, decodeButton (encodeButton l) = .ok es) ↔
        ∀ x ∈ l, ∃ b, decodeActions x.body = .ok b) ∧
      (∀ es, decodeButton (encodeButton l) = .ok es →
        List.Forall₂ (fun (x, size) e => x.Decodes size e) (declared l) es) ∧
      ∀ before x after error, l = before ++ x :: after →
        (∀ y ∈ before, ∃ b, decodeActions y.body = .ok b) →
        decodeActions x.body = .error error →
        decodeButton (encodeButton l) = .error (error.moved ((encodeInner before).length + 4))) ∧
    (∀ (l : List ButtonSource) (size : UInt16) (rest : List UInt8), (∀ x ∈ l, x.Fits) →
      0 < size.toNat → size.toNat < 4 →
      ∃ error, decodeButton (encodeInner l ++ (Word.le16 size ++ rest)) = .error error) ∧
    (∀ data : List UInt8, ∃ l rest, data = encodeInner l ++ rest ∧ (∀ x ∈ l, x.Fits) ∧
      EndsButton rest ∧ (rest = [] ∨ (∃ x : ButtonSource, rest = x.encode 0) ∨
        (∃ error, decodeButton rest = .error error) ∧ ∃ error, decodeButton data = .error error)) ∧
    ∀ l : List ButtonSource, (∀ x ∈ l, x.Fits) →
      (∃ es, List.Forall₂ (fun x e => x.Decodes x.size e) l es ∧ ∀ behind,
        decodeButton (encodeInner l ++ behind) =
          outcome (es ++ ·) (encodeInner l).length (decodeButton behind)) ∨
      ∃ before x after error, l = before ++ x :: after ∧
        (∀ y ∈ before, ∃ b, decodeActions y.body = .ok b) ∧ decodeActions x.body = .error error ∧
        ∀ behind, decodeButton (encodeInner l ++ behind) =
          .error (error.moved ((encodeInner before).length + 4)) := by
  refine ⟨fun l hne hl => ?_, fun l size rest hl hpos hsmall => ?_, fun data => ?_,
    fun l hl => decodeButton_inner hl⟩
  · have hfailing : ∀ before x after error, l = before ++ x :: after →
        (∀ y ∈ before, ∃ b, decodeActions y.body = .ok b) →
        decodeActions x.body = .error error →
        decodeButton (encodeButton l) =
          .error (error.moved ((encodeInner before).length + 4)) := by
      rintro before x after error rfl hbefore hx
      exact decodeButton_encodeButton_of_failing hl hbefore hx
    have hdecoding : (∀ x ∈ l, ∃ b, decodeActions x.body = .ok b) →
        ∃ es, decodeButton (encodeButton l) = .ok es ∧
          List.Forall₂ (fun (x, size) e => x.Decodes size e) (declared l) es := by
      intro hall
      obtain ⟨inner, x, rfl⟩ := (List.eq_nil_or_concat l).resolve_left hne
      rw [List.concat_eq_append] at hl hall ⊢
      rw [List.dropLast_concat] at hl
      obtain ⟨es, hes⟩ := exists_decoded ButtonSource.size
        fun y hy => hall y (List.mem_append_left _ hy)
      obtain ⟨b, hb⟩ := hall x (List.mem_append_right _ List.mem_cons_self)
      have hx : x.Decodes 0 (x.entry 0 b) := ⟨rfl, rfl, hb⟩
      refine ⟨es ++ [x.entry 0 b], decodeButton_encodeButton hl hes hx, ?_⟩
      rw [declared_append]
      exact List.rel_append (List.forall₂_map_left_iff.mpr hes) (.cons hx .nil)
    -- either every body decodes, or what is answered is an error
    rcases decode_or_first_fails l with hall | ⟨before, x, after, error, hsplit, hbefore, hx⟩
    · obtain ⟨es, hes, hentries⟩ := hdecoding hall
      refine ⟨⟨fun _ => hall, fun _ => ⟨es, hes⟩⟩, fun es' hes' => ?_, hfailing⟩
      rw [hes] at hes'
      cases hes'
      exact hentries
    · have herror := hfailing before x after error hsplit hbefore hx
      refine ⟨⟨fun ⟨es, hes⟩ => ?_, fun hall => ?_⟩, fun es hes => ?_, hfailing⟩
      · rw [herror] at hes
        cases hes
      · obtain ⟨es, hes, -⟩ := hdecoding hall
        exact ⟨es, hes⟩
      · rw [herror] at hes
        cases hes
  · exact error_of_inner hl (decodeButton_of_small hpos hsmall rest)
  · obtain ⟨l, rest, rfl, hl, hstops⟩ := exists_inner data
    refine ⟨l, rest, rfl, hl, hstops, ?_⟩
    refine (decodeButton_of_endsButton hstops).imp_right (Or.imp_right ?_)
    rintro ⟨error, herror⟩
    exact ⟨⟨error, herror⟩, error_of_inner hl herror⟩

/-- Two entries, of which the first one has a byte behind its terminator; the same with a last body
that breaks off, which is told at its place; and a declared size of two behind an entry. -/
theorem decodeButton_entrywise_pair :
    (∃ es, decodeButton (encodeButton [⟨8, [6, 0, 4]⟩, ⟨0x8200, [7]⟩]) = .ok es ∧
      List.Forall₂ (fun (x, size) e => ButtonSource.Decodes x size e)
        [(⟨8, [6, 0, 4]⟩, 7), (⟨0x8200, [7]⟩, 0)] es) ∧
    decodeButton (encodeButton [⟨8, [6, 0, 4]⟩, ⟨0x8200, [0x96, 2, 0]⟩]) =
      .error (.truncated 0x96 11 2 0) ∧
    (∃ error, decodeButton [7, 0, 8, 0, 6, 0, 4, 2, 0, 0, 0] = .error error) := by
  have hfirst : decodeActions [6, 0, 4] = .ok ⟨[⟨0, 1, .op .play⟩], 1⟩ := rfl
  have hsecond : decodeActions [7] = .ok ⟨[⟨0, 1, .op .stop⟩], 1⟩ := rfl
  have hbroken : decodeActions [0x96, 2, 0] = .error (.truncated 0x96 0 2 0) := rfl
  have hfits : ∀ x ∈ [(⟨8, [6, 0, 4]⟩ : ButtonSource)], x.Fits := by
    simp [ButtonSource.Fits]
  refine ⟨?_, ?_, ?_⟩
  · obtain ⟨hiff, hentries, -⟩ := decodeButton_entrywise.1 [⟨8, [6, 0, 4]⟩, ⟨0x8200, [7]⟩]
      (List.cons_ne_nil _ _) hfits
    obtain ⟨es, hes⟩ := hiff.mpr (List.forall_mem_cons.mpr ⟨⟨_, hfirst⟩,
      List.forall_mem_singleton.mpr ⟨_, hsecond⟩⟩)
    exact ⟨es, hes, hentries es hes⟩
  · exact (decodeButton_entrywise.1 [⟨8, [6, 0, 4]⟩, ⟨0x8200, [0x96, 2, 0]⟩]
      (List.cons_ne_nil _ _) hfits).2.2 [⟨8, [6, 0, 4]⟩] _ [] _ rfl
      (List.forall_mem_singleton.mpr ⟨_, hfirst⟩) hbroken
  · exact decodeButton_entrywise.2.1 [⟨8, [6, 0, 4]⟩] 2 [0, 0] hfits (by decide) (by decide)

end ActionVm
