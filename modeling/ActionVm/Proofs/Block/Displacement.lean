import ActionVm.Proofs.Block.Chain

/-!
# Decoding after other bytes

What decoding answers does not depend on the place where the bytes stand: records and errors behind
other bytes are the same ones, with their places moved.

* `Moves`, `Movable`: reads that do the same at a place further back, with their rules;
* `moves_readRecord`, `moves_readRecords`: records and blocks are such reads;
* `movesBodies_decoderBelow`: bodies are decoded alike at any depth and place;
* **`decodeActions_append`**: a stream behind another one that no zero byte ends.
-/

namespace ActionVm

open Read

/-! ## Places that are moved -/

/-- The same error in an input with `k` bytes more before it. -/
def DecodeError.moved (k : ℕ) : DecodeError → DecodeError
  | .unexpectedEnd offset needed available => .unexpectedEnd (offset + k) needed available
  | .truncated code offset declared available => .truncated code (offset + k) declared available
  | .unterminatedString offset => .unterminatedString (offset + k)
  | .invalidPushType tag offset => .invalidPushType tag (offset + k)
  | .invalidConditionSize size offset => .invalidConditionSize size (offset + k)
  | .nestingTooDeep offset limit => .nestingTooDeep (offset + k) limit

/-- The reader with `i` bytes more before it in its span, and `j` more before that. -/
def Reader.moved (i j : ℕ) (r : Reader) : Reader := ⟨r.rest, r.position + i, r.base + j⟩

theorem Reader.place_moved (r : Reader) (i j : ℕ) : (r.moved i j).place = r.place + (i + j) := by
  simp only [Reader.place, Reader.moved]
  omega

theorem Reader.skip_moved (r : Reader) (n i j : ℕ) :
    (r.moved i j).skip n = (r.skip n).moved i j := by
  simp only [Reader.skip, Reader.moved, Nat.add_right_comm]

theorem Reader.sub_moved (r : Reader) (n i j : ℕ) :
    (r.moved i j).sub n = (r.sub n).moved 0 (i + j) := by
  rw [Reader.sub, Reader.place_moved]
  rfl

/-- An answer or an error, each of them moved. -/
def outcome {α β : Type} (φ : α → β) (k : ℕ) (x : Except DecodeError α) : Except DecodeError β :=
  (x.map φ).mapError (DecodeError.moved k)

variable {α β γ δ : Type} {i j : ℕ}

/-- At a reader that is moved, `y` does what `x` does where the reader was: the error and the reader
afterwards are moved alike, and the answer is that of `x` under `φ`. -/
def Moves (i j : ℕ) (φ : α → β) (x : Read α) (y : Read β) : Prop :=
  ∀ r, y.run.run (r.moved i j) = (outcome φ (i + j) (x.run.run r).1, (x.run.run r).2.moved i j)

theorem moves_pure (φ : α → β) (a : α) : Moves i j φ (pure a) (pure (φ a)) := fun _ => rfl

theorem moves_throw (φ : α → β) (e : DecodeError) :
    Moves i j φ (throw e) (throw (e.moved (i + j))) := fun _ => rfl

theorem moves_get : Moves i j (Reader.moved i j) get get := fun _ => rfl

theorem moves_set (q : Reader) : Moves i j id (set q) (set (q.moved i j)) := fun _ => rfl

theorem moves_ofExcept {φ : α → β} (x : Except DecodeError α) :
    Moves i j φ (liftM x) (liftM (outcome φ (i + j) x)) := by
  cases x <;> exact fun _ => rfl

theorem Moves.bind {φ : α → β} {ψ : γ → δ} {x : Read α} {y : Read β} {f : α → Read γ}
    {g : β → Read δ} (h : Moves i j φ x y) (hf : ∀ a, Moves i j ψ (f a) (g (φ a))) :
    Moves i j ψ (x >>= f) (y >>= g) := by
  intro r
  rw [ExceptT.run_bind, ExceptT.run_bind, StateT.run_bind, StateT.run_bind, h r]
  rcases StateT.run (ExceptT.run x) r with ⟨e | a, m⟩
  · rfl
  · exact hf a m

/-! ## Reads at any place -/

/-- The read does the same wherever the reader stands. -/
def Movable (x : Read α) : Prop := ∀ i j, Moves i j id x x

theorem movable_pure (a : α) : Movable (pure a) := fun _ _ => moves_pure id a

theorem Movable.bind {x : Read α} {f : α → Read β} (hx : Movable x) (hf : ∀ a, Movable (f a)) :
    Movable (x >>= f) := fun i j => (hx i j).bind fun a => hf a i j

theorem movable_need (n : ℕ) : Movable (need n) := by
  refine fun i j => moves_get.bind fun r => ?_
  rw [show (r.moved i j).rest = r.rest from rfl]
  split
  · exact moves_pure id ()
  · rw [Reader.place_moved]
    exact moves_throw id _

theorem movable_take (n : ℕ) : Movable (take n) := fun i j =>
  (movable_need n i j).bind fun _ => moves_get.bind fun r =>
    (Reader.skip_moved r n i j ▸ moves_set (r.skip n)).bind fun _ => moves_pure id (r.rest.take n)

theorem movable_u8 : Movable u8 := (movable_take 1).bind fun l => by
  split <;> exact movable_pure _

theorem movable_u16 : Movable u16 := (movable_take 2).bind fun l => by
  split <;> exact movable_pure _

theorem movable_i16 : Movable i16 := movable_u16.bind fun _ => movable_pure _

theorem movable_u32 : Movable u32 := (movable_take 4).bind fun l => by
  split <;> exact movable_pure _

theorem movable_i32 : Movable i32 := movable_u32.bind fun _ => movable_pure _

theorem movable_f64 : Movable f64 :=
  movable_u32.bind fun _ => movable_u32.bind fun _ => movable_pure _

theorem movable_cstr : Movable cstr := by
  refine fun i j => moves_get.bind fun r => ?_
  rw [show (r.moved i j).rest = r.rest from rfl, Reader.place_moved]
  simp only [Reader.skip_moved]
  split
  · exact (moves_throw (α := PUnit) id _).bind fun _ => (moves_set _).bind fun _ => moves_pure id _
  · exact (moves_set _).bind fun _ => moves_pure id _

theorem movable_timesAfter {read : Read α} (h : Movable read) (n : ℕ) :
    ∀ done, Movable (timesAfter read done n) := by
  induction n with
  | zero => exact fun done => movable_pure _
  | succ n ih => exact fun done => h.bind fun a => ih _

theorem movable_times {read : Read α} (h : Movable read) (n : ℕ) : Movable (times read n) :=
  movable_timesAfter h n []

theorem moves_sub (n : ℕ) : Moves i j (Reader.moved 0 (i + j)) (Read.sub n) (Read.sub n) := by
  refine moves_get.bind fun r => (movable_need n i j).bind fun _ => ?_
  rw [Reader.skip_moved, Reader.sub_moved]
  exact (moves_set _).bind fun _ => moves_pure _ (r.sub n)

/-! ## Operands -/

theorem moves_readPushValue (tag : UInt8) (place : ℕ) :
    Moves i j id (readPushValue tag place) (readPushValue tag (place + (i + j))) := by
  unfold readPushValue
  split
  · exact (movable_cstr.bind fun _ => movable_pure _) i j
  · exact (movable_u32.bind fun _ => movable_pure _) i j
  · exact movable_pure _ i j
  · exact movable_pure _ i j
  · exact (movable_u8.bind fun _ => movable_pure _) i j
  · exact (movable_u8.bind fun _ => movable_pure _) i j
  · exact (movable_f64.bind fun _ => movable_pure _) i j
  · exact (movable_i32.bind fun _ => movable_pure _) i j
  · exact (movable_u8.bind fun _ => movable_pure _) i j
  · exact (movable_u16.bind fun _ => movable_pure _) i j
  · exact moves_throw id _

theorem movable_readPushValuesAfter (n : ℕ) : ∀ done, Movable (readPushValuesAfter done n) := by
  induction n with
  | zero => exact fun done => movable_pure _
  | succ n ih =>
    refine fun done i j => moves_get.bind fun r => ?_
    rw [show (r.moved i j).isEmpty = r.isEmpty from rfl, Reader.place_moved]
    split
    · exact moves_pure id _
    · exact (movable_u8 i j).bind fun tag => (moves_readPushValue tag r.place).bind fun value =>
        ih _ i j

theorem movable_readPushValues : Movable readPushValues := fun i j =>
  moves_get.bind fun r => movable_readPushValuesAfter r.remaining [] i j

theorem movable_readRegisterParam : Movable readRegisterParam :=
  movable_u8.bind fun _ => movable_cstr.bind fun _ => movable_pure _

theorem movable_readForm (f : Form) : Movable (readForm f) := by
  cases f with
  | getUrl => exact movable_cstr.bind fun _ => movable_cstr.bind fun _ => movable_pure _
  | constantPool =>
    exact movable_u16.bind fun _ => (movable_times movable_cstr _).bind fun _ => movable_pure _
  | gotoFrame2 =>
    refine movable_u8.bind fun flags => ?_
    dsimp only
    split
    · exact movable_u16.bind fun _ => movable_pure _
    · exact movable_pure _
  | defineFunction =>
    exact movable_cstr.bind fun _ => movable_u16.bind fun _ =>
      (movable_times movable_cstr _).bind fun _ => movable_u16.bind fun _ => movable_pure _
  | defineFunction2 =>
    exact movable_cstr.bind fun _ => movable_u16.bind fun _ => movable_u8.bind fun _ =>
      movable_u16.bind fun _ => (movable_times movable_readRegisterParam _).bind fun _ =>
        movable_u16.bind fun _ => movable_pure _
  | gotoFrame => exact movable_u16.bind fun _ => movable_pure _
  | withObject => exact movable_u16.bind fun _ => movable_pure _
  | storeRegister => exact movable_u8.bind fun _ => movable_pure _
  | getUrl2 => exact movable_u8.bind fun _ => movable_pure _
  | goToLabel => exact movable_cstr.bind fun _ => movable_pure _
  | push => exact movable_readPushValues.bind fun _ => movable_pure _
  | jump => exact movable_i16.bind fun _ => movable_pure _
  | branchIf => exact movable_i16.bind fun _ => movable_pure _

theorem movable_readOperands (code : UInt8) (length : UInt16) :
    Movable (readOperands code length) := by
  unfold readOperands
  split
  · exact movable_pure _
  · exact movable_readForm _
  · exact movable_pure _
  · exact movable_pure _

theorem operandsOf_moved (code : UInt8) (length : UInt16) (span : Reader) (i j : ℕ) :
    operandsOf code length (span.moved i j) = outcome id (i + j) (operandsOf code length span) :=
  congrArg Prod.fst (movable_readOperands code length i j span)

theorem movable_readLength (code : UInt8) : Movable (readLength code) := by
  unfold readLength
  split
  · exact movable_u16
  · exact movable_pure _

theorem moves_readSpan (code : UInt8) (start n : ℕ) :
    Moves i j (Reader.moved 0 (i + j)) (readSpan code start n)
      (readSpan code (start + (i + j)) n) := by
  refine moves_get.bind fun r => ?_
  rw [show (r.moved i j).rest = r.rest from rfl]
  split
  · exact moves_sub n
  · exact moves_throw _ _

/-! ## Records and blocks -/

/-- Bodies are decoded alike wherever they stand. -/
def MovesBodies (decode : Option (Reader → Except DecodeError Block)) : Prop :=
  ∀ f, decode = some f → ∀ span k, f (span.moved 0 k) = outcome id k (f span)

variable {decode : Option (Reader → Except DecodeError Block)}

theorem moves_readBody (hd : MovesBodies decode) (code : UInt8) (start : ℕ) (x : Operands) :
    Moves i j id (readBody decode code start x) (readBody decode code (start + (i + j)) x) := by
  rcases x with action | ⟨size, action⟩
  · exact moves_pure id action
  · rcases decode with _ | f
    · exact moves_throw id _
    · refine (moves_readSpan code start _).bind fun span => ?_
      rw [hd f rfl span]
      exact (moves_ofExcept _).bind fun b => moves_pure id (action b)

theorem moves_readAction (hd : MovesBodies decode) (code : UInt8) (start : ℕ) :
    Moves i j id (readAction decode code start) (readAction decode code (start + (i + j))) := by
  refine (movable_readLength code i j).bind fun length =>
    (moves_readSpan code start _).bind fun span => ?_
  rw [operandsOf_moved, Nat.zero_add]
  exact (moves_ofExcept _).bind fun x => moves_readBody hd code start x

/-- The record with `i` bytes more of its block before it. -/
def Record.moved (i : ℕ) (x : Record) : Record := { x with offset := x.offset + i }

theorem moves_readRecord (hd : MovesBodies decode) :
    Moves i j (Option.map (Record.moved i)) (readRecord decode) (readRecord decode) := by
  refine moves_get.bind fun r => (movable_u8 i j).bind fun code => ?_
  rw [Reader.place_moved]
  simp only [id]
  split
  · exact moves_pure _ none
  · refine (moves_readAction hd code r.place).bind fun a => moves_get.bind fun q => ?_
    -- a size is the difference of two places that are moved alike
    have hsize : (q.moved i j).position - (r.moved i j).position = q.position - r.position :=
      Nat.add_sub_add_right ..
    rw [hsize]
    exact moves_pure (Option.map (Record.moved i)) (some ⟨r.position, q.position - r.position, a⟩)

/-- The block with `i` bytes more before its records. -/
def Block.moved (i : ℕ) (b : Block) : Block := ⟨b.records.map (Record.moved i), b.byteLength + i⟩

theorem moves_readRecordsAfter (hd : MovesBodies decode) (zeros : Bool) (n : ℕ) :
    ∀ done, Moves i j (Block.moved i) (readRecordsAfter decode zeros done n)
      (readRecordsAfter decode zeros (done.map (Record.moved i)) n) := by
  induction n with
  | zero =>
    refine fun done => moves_get.bind fun r => ?_
    rw [← List.map_reverse]
    exact moves_pure (Block.moved i) ⟨done.reverse, r.position⟩
  | succ n ih =>
    refine fun done => moves_get.bind fun r => ?_
    rw [show (r.moved i j).isEmpty = r.isEmpty from rfl, ← List.map_reverse]
    split
    · exact moves_pure (Block.moved i) ⟨done.reverse, r.position⟩
    · refine (moves_readRecord hd).bind fun x => ?_
      rcases x with _ | x
      · simp only [Option.map_none]
        split
        · exact ih done
        · exact moves_pure (Block.moved i) ⟨done.reverse, r.position⟩
      · exact ih (x :: done)

theorem moves_readRecords (hd : MovesBodies decode) (zeros : Bool) :
    Moves i j (Block.moved i) (readRecords decode zeros) (readRecords decode zeros) :=
  moves_get.bind fun r => moves_readRecordsAfter hd zeros r.remaining []

theorem answer_moved (hd : MovesBodies decode) (zeros : Bool) (r : Reader) (i j : ℕ) :
    ((readRecords decode zeros).run.run (r.moved i j)).1 =
      outcome (Block.moved i) (i + j) ((readRecords decode zeros).run.run r).1 :=
  congrArg Prod.fst (moves_readRecords hd zeros r)

/-! ## Bodies -/

theorem Record.moved_zero : Record.moved 0 = id := rfl

theorem Block.moved_zero : Block.moved 0 = id := by
  funext b
  rw [Block.moved, Record.moved_zero, List.map_id]
  rfl

theorem movesBodies_decoderBelow (depth : ℕ) : MovesBodies (decoderBelow depth) := by
  induction depth with
  | zero => exact nofun
  | succ d ih =>
    intro f hf span k
    cases hf
    -- a body starts a span of its own, so its records keep their places and only errors are moved
    rw [bodyDecoder_eq, bodyDecoder_eq, answer_moved ih, Block.moved_zero, Nat.zero_add]

/-! ## Streams -/

/-- A stream answers the records of a chain, and after them what it answers at the chain's end. -/
theorem Chain.answer {r m : Reader} {l : List Record} (h : Chain decode r l m) :
    ((readRecords decode false).run.run r).1 =
      ((readRecords decode false).run.run m).1.map fun b => ⟨l ++ b.records, b.byteLength⟩ := by
  obtain ⟨l', r', c, hl, hc⟩ := exists_chain decode m
  rw [hc.answer hl, hc.answer (h.append hl)]
  cases c <;> rfl

/-- **Decoding is compositional**: behind a stream that no zero byte ends, another one decodes to
the same records or to the same error, with their places moved. -/
theorem decodeActions_append {a : List UInt8} {p : Block} (h : decodeActions a = .ok p)
    (hp : p.byteLength = a.length) (b : List UInt8) :
    decodeActions (a ++ b) = match decodeActions b with
      | .error e => .error (e.moved a.length)
      | .ok q => .ok ⟨p.records ++ q.records.map (Record.moved a.length),
          a.length + q.byteLength⟩ := by
  obtain ⟨r', hl, hlen, -⟩ := exists_chain_of_decodeActions h
  have hend : r'.rest = [] := by
    have hspan : r'.position + r'.rest.length = 0 + a.length := hl.position_add_length
    exact List.eq_nil_of_length_eq_zero (by omega)
  have hbehind : r'.withRest (r'.rest ++ b) = (Reader.ofBytes b).moved a.length 0 := by
    rw [Reader.withRest, hend, ← hlen, hp, hl.base_eq, Reader.moved]
    simp [Reader.ofBytes]
  have hchain := (hl.withRest b).answer
  rw [hbehind, answer_moved (movesBodies_decoderBelow maxNesting)] at hchain
  change decodeActions (a ++ b) = (outcome _ _ (decodeActions b)).map _ at hchain
  rw [hchain]
  cases decodeActions b with
  | error e => rfl
  | ok q => simp [outcome, Block.moved, Except.map, Except.mapError, Nat.add_comm]

/-- A record behind two others, and a value of an unknown type there. -/
theorem decodeActions_append_behind_body :
    decodeActions [6, 0x94, 2, 0, 1, 0, 7] =
      .ok ⟨[⟨0, 1, .op .play⟩, ⟨1, 6, .withObject ⟨[⟨0, 1, .op .stop⟩], 1⟩⟩], 7⟩ ∧
    decodeActions [6, 0x94, 2, 0, 1, 0, 7, 4, 0, 9] =
      .ok ⟨[⟨0, 1, .op .play⟩, ⟨1, 6, .withObject ⟨[⟨0, 1, .op .stop⟩], 1⟩⟩,
        ⟨7, 1, .op .nextFrame⟩], 8⟩ ∧
    decodeActions [6, 0x94, 2, 0, 1, 0, 7, 4, 0x96, 1, 0, 12] =
      .error (.invalidPushType 12 11) :=
  ⟨rfl, decodeActions_append (a := [6, 0x94, 2, 0, 1, 0, 7]) rfl rfl [4, 0, 9],
    decodeActions_append (a := [6, 0x94, 2, 0, 1, 0, 7]) rfl rfl [4, 0x96, 1, 0, 12]⟩

end ActionVm
