import ActionVm.Block.Decoding
import ActionVm.Proofs.Reading

/-!
# Blocks over their bytes

A decoded block says where its records stand in the bytes it was decoded from. Everything it says
can be checked against those bytes alone, without the decoder.

* `wordAt`, `bodySize`, `headSize`, `bodyAt`: what the bytes of a record announce;
* `StandsIn`: a record at its place in a span, with the size that the bytes announce;
* `Tiles`, `Spread`: records side by side, or with zero bytes between them;
* `Inside`: the blocks inside a block, with the bytes of each;
* **`describes_of_decodeActions`**: a decoded block describes its bytes, at every depth.
-/

namespace ActionVm

open Read

/-! ## What the bytes of a record announce -/

/-- The 16-bit word at offset `i` of a span. Bytes beyond its end count as zero. -/
def wordAt (s : List UInt8) (i : Nat) : Nat := (Word.of16 (s.getD i 0) (s.getD (i + 1) 0)).toNat

/-- The bytes after a string and the zero byte that ends it. -/
def afterString (s : List UInt8) : List UInt8 := (s.dropWhile (· ≠ 0)).tail

/-- The size of the body that follows a record with the given code and operand bytes. The word
stands after the other operands; codes without a body announce nothing. -/
def bodySize (code : UInt8) (operands : List UInt8) : Nat :=
  match Code.ofByte? code with
  | some (.form .withObject) => wordAt operands 0
  | some (.form .defineFunction) =>
    let s := afterString operands
    wordAt (afterString^[wordAt s 0] (s.drop 2)) 0
  | some (.form .defineFunction2) =>
    let s := afterString operands
    wordAt ((fun s => afterString s.tail)^[wordAt s 0] (s.drop 5)) 0
  | _ => 0

/-- The operand bytes of the record at offset `i`. -/
def operandsAt (s : List UInt8) (i : Nat) : List UInt8 := (s.drop (i + 3)).take (wordAt s (i + 1))

/-- The number of bytes of the record at offset `i` without a body. -/
def headSize (s : List UInt8) (i : Nat) : Nat :=
  if Code.hasLength (s.getD i 0) then 3 + wordAt s (i + 1) else 1

/-- The number of bytes of the body of the record at offset `i`. -/
def bodySizeAt (s : List UInt8) (i : Nat) : Nat := bodySize (s.getD i 0) (operandsAt s i)

/-- The bytes of the body of the record at offset `i`. -/
def bodyAt (s : List UInt8) (i : Nat) : List UInt8 :=
  (s.drop (i + headSize s i)).take (bodySizeAt s i)

/-- The record stands in the span `s` where it says, with the code that is there and the size that
its code, its length and its operands announce. -/
structure StandsIn (s : List UInt8) (r : Record) : Prop where
  code : s[r.offset]? = some r.action.code
  size : r.size = headSize s r.offset + bodySizeAt s r.offset
  finish_le : r.finish ≤ s.length

/-! ## Operands -/

theorem hasLength_form (f : Form) : Code.hasLength (Code.form f).byte = true := by
  cases f <;> rfl

theorem bodySize_of_not_hasLength {code : UInt8} (h : Code.hasLength code = false)
    (operands : List UInt8) : bodySize code operands = 0 := by
  unfold bodySize
  rcases hc : Code.ofByte? code with _ | (o | f | u)
  · rfl
  · rfl
  · rw [← Code.ofByte?_eq_some_iff.mp hc, hasLength_form] at h
    exact absurd h (by decide)
  · rfl

theorem rest_of_cstr {r r' : Reader} {s : String} (h : Gives cstr r s r') :
    r'.rest = afterString r.rest := by
  obtain ⟨text, rest, hr, ht, -, rfl⟩ := gives_cstr.mp h
  rw [hr, afterString, List.dropWhile_append_of_pos fun b hb => by
    simpa using fun h : b = 0 => ht (h ▸ hb)]
  simp [Reader.past]

theorem rest_of_u16 {r r' : Reader} {w : UInt16} (h : Gives u16 r w r') :
    r'.rest = r.rest.drop 2 ∧ w.toNat = wordAt r.rest 0 := by
  obtain ⟨a, b, rest, hr, rfl, rfl⟩ := gives_u16.mp h
  simp [hr, wordAt, Reader.past]

theorem rest_of_u8 {r r' : Reader} {a : UInt8} (h : Gives u8 r a r') : r'.rest = r.rest.tail := by
  obtain ⟨rest, hr, rfl⟩ := gives_u8.mp h
  simp [hr, Reader.past]

theorem rest_of_readRegisterParam {r r' : Reader} {p : RegisterParam}
    (h : Gives readRegisterParam r p r') : r'.rest = afterString r.rest.tail := by
  simp only [readRegisterParam, gives_bind, gives_pure] at h
  obtain ⟨_, _, h₁, _, _, h₂, -, rfl⟩ := h
  rw [rest_of_cstr h₂, rest_of_u8 h₁]

/-- What operands tell agrees with their bytes: the action has the code of the record, and a body
follows exactly where the bytes announce one. -/
def Operands.Fits (code : UInt8) (operands : List UInt8) : Operands → Prop
  | .complete a => a.code = code ∧ a.body? = none ∧ bodySize code operands = 0
  | .enclosing size action => size.toNat = bodySize code operands ∧
    ∀ b, (action b).code = code ∧ (action b).body? = some b

theorem readForm_fits {f : Form} {r r' : Reader} {x : Operands} (h : Gives (readForm f) r x r') :
    x.Fits (Code.form f).byte r.rest := by
  have hc := Code.ofByte?_byte (.form f)
  cases f
  case withObject =>
    simp only [readForm, gives_bind, gives_pure] at h
    obtain ⟨w, _, hw, rfl, rfl⟩ := h
    simp only [Operands.Fits, bodySize, hc]
    exact ⟨(rest_of_u16 hw).2, fun b => ⟨rfl, rfl⟩⟩
  case defineFunction =>
    simp only [readForm, gives_bind, gives_pure] at h
    obtain ⟨name, r₁, h₁, count, r₂, h₂, params, r₃, h₃, size, r₄, h₄, rfl, rfl⟩ := h
    have hp := gives_times (fun _ _ _ => rest_of_cstr) h₃
    simp only [Operands.Fits, bodySize, hc]
    refine ⟨?_, fun b => ⟨rfl, rfl⟩⟩
    rw [(rest_of_u16 h₄).2, hp, (rest_of_u16 h₂).1, (rest_of_u16 h₂).2, rest_of_cstr h₁]
  case defineFunction2 =>
    simp only [readForm, gives_bind, gives_pure] at h
    obtain ⟨name, r₁, h₁, count, r₂, h₂, registers, r₃, h₃, flags, r₄, h₄, params, r₅, h₅, size, r₆,
      h₆, rfl, rfl⟩ := h
    have hp := gives_times (f := fun s => afterString s.tail)
      (fun _ _ _ => rest_of_readRegisterParam) h₅
    simp only [Operands.Fits, bodySize, hc]
    refine ⟨?_, fun b => ⟨rfl, rfl⟩⟩
    rw [(rest_of_u16 h₆).2, hp, (rest_of_u16 h₄).1, rest_of_u8 h₃, (rest_of_u16 h₂).1,
      (rest_of_u16 h₂).2, rest_of_cstr h₁]
    simp
  case gotoFrame2 =>
    simp only [readForm, gives_bind] at h
    obtain ⟨flags, _, -, h⟩ := h
    split at h
    all_goals
      simp only [gives_bind, gives_pure] at h
    · obtain ⟨_, _, -, rfl, -⟩ := h
      exact ⟨rfl, rfl, by simp only [bodySize, hc]⟩
    · obtain ⟨rfl, -⟩ := h
      exact ⟨rfl, rfl, by simp only [bodySize, hc]⟩
  case getUrl =>
    simp only [readForm, gives_bind, gives_pure] at h
    obtain ⟨_, _, -, _, _, -, rfl, -⟩ := h
    exact ⟨rfl, rfl, by simp only [bodySize, hc]⟩
  case constantPool =>
    simp only [readForm, gives_bind, gives_pure] at h
    obtain ⟨_, _, -, _, _, -, rfl, -⟩ := h
    exact ⟨rfl, rfl, by simp only [bodySize, hc]⟩
  all_goals
    simp only [readForm, gives_bind, gives_pure] at h
    obtain ⟨_, _, -, rfl, -⟩ := h
    exact ⟨rfl, rfl, by simp only [bodySize, hc]⟩

theorem operandsOf_fits {code : UInt8} {length : UInt16} {span : Reader} {x : Operands}
    (h : operandsOf code length span = .ok x) : x.Fits code span.rest := by
  obtain ⟨r', h⟩ := run_eq_ok_iff.mp h
  unfold readOperands at h
  split at h
  · next o hc =>
    obtain ⟨rfl, -⟩ := gives_pure.mp h
    exact ⟨Code.ofByte?_eq_some_iff.mp hc, rfl, by simp only [bodySize, hc]⟩
  · next f hc =>
    rw [← Code.ofByte?_eq_some_iff.mp hc]
    exact readForm_fits h
  · next u hc =>
    obtain ⟨rfl, -⟩ := gives_pure.mp h
    exact ⟨rfl, rfl, by simp only [bodySize, hc]⟩
  · next hc =>
    obtain ⟨rfl, -⟩ := gives_pure.mp h
    exact ⟨rfl, rfl, by simp only [bodySize, hc]⟩

/-! ## Records -/

/-- A reader stands at its position inside the span `s`. -/
structure Reader.In (s : List UInt8) (r : Reader) : Prop where
  rest : r.rest = s.drop r.position
  position_le : r.position ≤ s.length

variable {s : List UInt8}

theorem Reader.In.skip {r : Reader} (h : r.In s) {n : ℕ} (hn : n ≤ r.rest.length) :
    (r.skip n).In s := by
  rw [h.rest, List.length_drop] at hn
  have := h.position_le
  exact ⟨by simp [Reader.skip, h.rest, List.drop_drop], by simp only [Reader.skip]; omega⟩

theorem wordAt_drop (s : List UInt8) (i j : ℕ) : wordAt (s.drop i) j = wordAt s (i + j) := by
  simp only [wordAt, List.getD_eq_getElem?_getD, List.getElem?_drop]
  rw [Nat.add_assoc]

theorem In_of_u8 {r r' : Reader} {a : UInt8} (hr : r.In s) (h : Gives u8 r a r') :
    s[r.position]? = some a ∧ r'.In s ∧ r'.position = r.position + 1 := by
  obtain ⟨rest, hrest, rfl⟩ := gives_u8.mp h
  have he := hr.rest
  rw [hrest] at he
  have ha : s[r.position]? = some a := by
    have := congrArg (·[0]?) he
    simpa [List.getElem?_drop] using this.symm
  refine ⟨ha, ⟨?_, ?_⟩, rfl⟩
  · have := congrArg List.tail he
    simpa [Reader.past] using this
  · have := (List.getElem?_eq_some_iff.mp ha).1
    exact this

theorem In_of_u16 {r r' : Reader} {w : UInt16} (hr : r.In s) (h : Gives u16 r w r') :
    w.toNat = wordAt s r.position ∧ r'.In s ∧ r'.position = r.position + 2 := by
  have hw := rest_of_u16 h
  obtain ⟨a, b, rest, hrest, -, rfl⟩ := gives_u16.mp h
  have hlen := congrArg List.length (hrest.symm.trans hr.rest)
  simp only [List.length_cons, List.length_drop] at hlen
  refine ⟨by rw [hw.2, hr.rest, wordAt_drop]; rfl, ⟨?_, ?_⟩, rfl⟩
  · rw [hw.1, hr.rest, List.drop_drop]; rfl
  · have := hr.position_le
    simp only [Reader.past]; omega

theorem gives_readSpan {code : UInt8} {start n : ℕ} {r q r' : Reader} :
    Gives (readSpan code start n) r q r' ↔ n ≤ r.rest.length ∧ q = r.sub n ∧ r' = r.skip n := by
  simp only [readSpan, gives_bind, gives_get]
  constructor
  · rintro ⟨_, _, ⟨rfl, rfl⟩, h⟩
    split at h
    · exact gives_sub.mp h
    · exact absurd h not_gives_throw
  · intro h
    refine ⟨_, _, ⟨rfl, rfl⟩, ?_⟩
    rw [if_pos (hasAtLeast_iff.mpr h.1)]
    exact gives_sub.mpr h

theorem fails_readSpan {code : UInt8} {start n : ℕ} {r : Reader} (h : r.rest.length < n) :
    Fails (readSpan code start n) r (.truncated code start n r.remaining) := by
  refine (gives_get.mpr ⟨rfl, rfl⟩).bind_fails ?_
  rw [if_neg (by rw [hasAtLeast_iff]; omega)]
  exact fails_throw

/-- The length field of the record at offset `p`, read from the byte after its code. -/
theorem readLength_spec {code : UInt8} {r r' : Reader} {w : UInt16} {p : ℕ} (hr : r.In s)
    (hp : r.position = p + 1) (hcode : s.getD p 0 = code) (h : Gives (readLength code) r w r') :
    r'.In s ∧ r'.position + w.toNat = p + headSize s p ∧
      (Code.hasLength code = true → r'.position = p + 3 ∧ w.toNat = wordAt s (p + 1)) := by
  unfold readLength at h
  unfold headSize
  rw [hcode]
  split at h
  · next hl =>
    obtain ⟨hw, hr', hp'⟩ := In_of_u16 hr h
    rw [hp] at hw hp'
    rw [if_pos hl]
    exact ⟨hr', by omega, fun _ => ⟨hp', hw⟩⟩
  · next hl =>
    obtain ⟨rfl, rfl⟩ := gives_pure.mp h
    rw [if_neg hl]
    exact ⟨hr, by rw [hp]; rfl, fun h => absurd h hl⟩

/-- What is known of a decoded record: it stands in the span, and its body, if it has one, is what
`decode` answers on the bytes that the operands announce. -/
structure RecordOf (decode : Option (Reader → Except DecodeError Block)) (s : List UInt8)
    (r : Record) : Prop where
  stands : StandsIn s r
  body : ∀ b, r.action.body? = some b →
    ∃ f base, decode = some f ∧ f ⟨bodyAt s r.offset, 0, base⟩ = .ok b

variable {decode : Option (Reader → Except DecodeError Block)}

theorem readAction_spec {code : UInt8} {start p : ℕ} {r r' : Reader} {a : Action} (hr : r.In s)
    (hp : r.position = p + 1) (hcode : s.getD p 0 = code)
    (h : Gives (readAction decode code start) r a r') :
    a.code = code ∧ r'.In s ∧ r'.position = p + headSize s p + bodySizeAt s p ∧
      ∀ b, a.body? = some b → ∃ f base, decode = some f ∧ f ⟨bodyAt s p, 0, base⟩ = .ok b := by
  simp only [readAction, gives_bind, gives_ofExcept, gives_readSpan] at h
  obtain ⟨length, r₁, h₁, span, r₂, ⟨hn, rfl, rfl⟩, x, _, ⟨hx, rfl⟩, h⟩ := h
  obtain ⟨hr₁, hpos, hlong⟩ := readLength_spec hr hp hcode h₁
  have hr₂ := hr₁.skip hn
  have hfits := operandsOf_fits hx
  -- below 80 neither the operand bytes nor the span matter to what is announced
  have hsize : bodySize code (r₁.sub length.toNat).rest = bodySizeAt s p := by
    unfold bodySizeAt
    rw [hcode]
    rcases hl : Code.hasLength code with _ | _
    · rw [bodySize_of_not_hasLength hl, bodySize_of_not_hasLength hl]
    · obtain ⟨h₃, hw⟩ := hlong hl
      simp only [Reader.sub, hr₁.rest, h₃, operandsAt, hw]
  rcases x with action | ⟨size, action⟩
  · obtain ⟨rfl, rfl⟩ := gives_pure.mp h
    obtain ⟨hc, hb, hz⟩ := hfits
    refine ⟨hc, hr₂, ?_, fun b h => by rw [hb] at h; cases h⟩
    rw [← hsize, hz]
    exact hpos
  · obtain ⟨hs, hb⟩ := hfits
    rw [hsize] at hs
    rcases decode with _ | f
    · exact absurd h not_gives_throw
    · simp only [readBody, gives_bind, gives_readSpan, gives_ofExcept, gives_pure] at h
      obtain ⟨_, _, ⟨hm, rfl, rfl⟩, b, _, ⟨hf, rfl⟩, rfl, rfl⟩ := h
      have hspan : (r₁.skip length.toNat).sub size.toNat =
          ⟨bodyAt s p, 0, (r₁.skip length.toNat).place⟩ := by
        have hat : (r₁.skip length.toNat).position = p + headSize s p := hpos
        rw [Reader.sub, hr₂.rest, hat, hs, bodyAt]
      rw [hspan] at hf
      refine ⟨(hb b).1, hr₂.skip hm, ?_, fun b' h => ?_⟩
      · rw [← hpos, ← hs]; rfl
      · rw [(hb b).2] at h
        cases h
        exact ⟨f, _, rfl, hf⟩

theorem readRecord_some {r r' : Reader} {x : Record} (hr : r.In s)
    (h : Gives (readRecord decode) r (some x) r') :
    x.offset = r.position ∧ RecordOf decode s x ∧ r'.In s ∧ r'.position = x.finish := by
  simp only [readRecord, gives_bind, gives_get] at h
  obtain ⟨_, _, ⟨rfl, rfl⟩, code, r₁, h₁, h⟩ := h
  obtain ⟨hcode, hr₁, hp⟩ := In_of_u8 hr h₁
  split at h
  · cases (gives_pure.mp h).1
  · simp only [gives_bind, gives_get, gives_pure] at h
    obtain ⟨a, r₂, h₂, _, _, ⟨rfl, rfl⟩, h, rfl⟩ := h
    cases h
    have hd : s.getD r.position 0 = code := by rw [List.getD_eq_getElem?_getD, hcode]; rfl
    obtain ⟨hc, hr₂, hp₂, hbody⟩ := readAction_spec hr₁ hp hd h₂
    have hfin : r.position + (r₂.position - r.position) = r₂.position := by omega
    refine ⟨rfl, ⟨⟨?_, ?_, ?_⟩, hbody⟩, hr₂, hfin.symm⟩
    · rw [hcode, hc]
    · show r₂.position - r.position = headSize s r.position + bodySizeAt s r.position
      omega
    · show r.position + (r₂.position - r.position) ≤ _
      rw [hfin]
      exact hr₂.position_le

theorem readRecord_none {r r' : Reader} (hr : r.In s) (h : Gives (readRecord decode) r none r') :
    s[r.position]? = some 0 ∧ r'.In s ∧ r'.position = r.position + 1 := by
  simp only [readRecord, gives_bind, gives_get] at h
  obtain ⟨_, _, ⟨rfl, rfl⟩, code, r₁, h₁, h⟩ := h
  split at h
  · next hz =>
    obtain ⟨-, rfl⟩ := gives_pure.mp h
    rw [hz] at h₁
    exact In_of_u8 hr h₁
  · simp only [gives_bind, gives_get, gives_pure] at h
    obtain ⟨_, _, -, _, _, -, h, -⟩ := h
    cases h

theorem gives_readRecord_none {r : Reader} {rest : List UInt8} (hr : r.rest = 0 :: rest) :
    Gives (readRecord decode) r none (r.past 1 rest) := by
  simp only [readRecord, gives_bind, gives_get]
  exact ⟨r, r, ⟨rfl, rfl⟩, 0, _, gives_u8.mpr ⟨rest, hr, rfl⟩, gives_pure.mpr ⟨rfl, rfl⟩⟩

/-! ## Sequences of records -/

/-- The bytes from `i` up to `j` are zero where `zeros` allows any, and else there are none. -/
def Gap (zeros : Bool) (s : List UInt8) (i j : ℕ) : Prop :=
  i ≤ j ∧ (zeros = false → i = j) ∧ ∀ k, i ≤ k → k < j → s[k]? = some 0

/-- From `i` up to `j`, records stand one after the other, with nothing but zero bytes between
them, and with nothing at all unless `zeros`. -/
def Spread (zeros : Bool) (s : List UInt8) : ℕ → List Record → ℕ → Prop
  | i, [], j => Gap zeros s i j
  | i, r :: rest, j => Gap zeros s i r.offset ∧ Spread zeros s r.finish rest j

/-- From `i` up to `j`, records stand side by side. -/
def Tiles : ℕ → List Record → ℕ → Prop
  | i, [], j => i = j
  | i, r :: rest, j => r.offset = i ∧ Tiles r.finish rest j

theorem Gap.refl (zeros : Bool) (s : List UInt8) (i : ℕ) : Gap zeros s i i :=
  ⟨le_rfl, fun _ => rfl, fun _ _ _ => by omega⟩

theorem Gap.zero {i j : ℕ} (hi : s[i]? = some 0) (h : Gap true s (i + 1) j) : Gap true s i j := by
  refine ⟨by have := h.1; omega, nofun, fun k hk hj => ?_⟩
  rcases Nat.eq_or_lt_of_le hk with rfl | hk
  · exact hi
  · exact h.2.2 k hk hj

/-- A zero byte may stand before records that are spread. -/
theorem Spread.zero {i j : ℕ} {l : List Record} (hi : s[i]? = some 0)
    (h : Spread true s (i + 1) l j) : Spread true s i l j := by
  cases l with
  | nil => exact Gap.zero hi h
  | cons r l => exact ⟨Gap.zero hi h.1, h.2⟩

/-- What a sequence of records that ends at `j` leaves: nothing, or a zero byte that is not
skipped. -/
def Ends (zeros : Bool) (s : List UInt8) (j : ℕ) : Prop :=
  j = s.length ∨ zeros = false ∧ s[j]? = some 0

theorem Reader.In.remaining {r : Reader} (hr : r.In s) :
    r.remaining = s.length - r.position := by
  rw [Reader.remaining, hr.rest, List.length_drop]

theorem ends_of_rest_eq_nil {zeros : Bool} {r : Reader} (hr : r.In s) (h : r.rest = []) :
    Ends zeros s r.position := by
  have hl := hr.remaining
  rw [Reader.remaining, h, List.length_nil] at hl
  have := hr.position_le
  exact Or.inl (by omega)

/-- What a sequence of records is made of: records spread over the span, and what ends them. -/
structure Sequence (decode : Option (Reader → Except DecodeError Block)) (zeros : Bool)
    (s : List UInt8) (i : ℕ) (l : List Record) (j : ℕ) : Prop where
  spread : Spread zeros s i l j
  ends : Ends zeros s j
  record : ∀ x ∈ l, RecordOf decode s x

theorem Sequence.nil {zeros : Bool} {i : ℕ} (h : Ends zeros s i) :
    Sequence decode zeros s i [] i :=
  ⟨Gap.refl .., h, fun _ h => by cases h⟩

theorem Sequence.cons {zeros : Bool} {x : Record} {l : List Record} {j : ℕ}
    (hx : RecordOf decode s x) (h : Sequence decode zeros s x.finish l j) :
    Sequence decode zeros s x.offset (x :: l) j := by
  refine ⟨⟨Gap.refl .., h.spread⟩, h.ends, ?_⟩
  rintro y (_ | ⟨_, hy⟩)
  · exact hx
  · exact h.record y hy

theorem RecordOf.offset_lt_finish {x : Record} (hx : RecordOf decode s x) :
    x.offset < x.finish := by
  rw [Placed.finish, hx.stands.size]
  unfold headSize
  split <;> omega

theorem readRecordsAfter_spec {zeros : Bool} (n : ℕ) : ∀ {done : List Record} {r r' : Reader}
    {b : Block}, r.In s → r.remaining ≤ n → Gives (readRecordsAfter decode zeros done n) r b r' →
    ∃ l, b.records = done.reverse ++ l ∧ Sequence decode zeros s r.position l b.byteLength := by
  induction n with
  | zero =>
    intro done r r' b hr hn h
    simp only [readRecordsAfter, gives_bind, gives_get, gives_pure] at h
    obtain ⟨_, _, ⟨rfl, rfl⟩, rfl, -⟩ := h
    have he := List.eq_nil_of_length_eq_zero (Nat.le_zero.mp hn)
    exact ⟨[], (List.append_nil _).symm, .nil (ends_of_rest_eq_nil hr he)⟩
  | succ n ih =>
    intro done r r' b hr hn h
    rw [hr.remaining] at hn
    simp only [readRecordsAfter, gives_bind, gives_get] at h
    obtain ⟨_, _, ⟨rfl, rfl⟩, h⟩ := h
    split at h
    · next he =>
      obtain ⟨rfl, -⟩ := gives_pure.mp h
      refine ⟨[], (List.append_nil _).symm, .nil (ends_of_rest_eq_nil hr ?_)⟩
      simpa [Reader.isEmpty] using he
    · obtain ⟨x, r₁, hx, h⟩ := gives_bind.mp h
      rcases x with _ | x
      · obtain ⟨hz, hr₁, hp⟩ := readRecord_none hr hx
        simp only at h
        split at h
        · next hzeros =>
          subst hzeros
          obtain ⟨l, hl, hs⟩ := ih hr₁ (by rw [hr₁.remaining]; omega) h
          rw [hp] at hs
          exact ⟨l, hl, hs.spread.zero hz, hs.ends, hs.record⟩
        · next hzeros =>
          obtain ⟨rfl, -⟩ := gives_pure.mp h
          exact ⟨[], (List.append_nil _).symm, .nil (Or.inr ⟨by simpa using hzeros, hz⟩)⟩
      · obtain ⟨ho, hx, hr₁, hp⟩ := readRecord_some hr hx
        have hlt := hx.offset_lt_finish
        obtain ⟨l, hl, hs⟩ := ih hr₁ (by rw [hr₁.remaining]; omega) h
        rw [hp] at hs
        exact ⟨x :: l, by simp [hl], ho ▸ Sequence.cons hx hs⟩

/-- **The records that a reader gives** are spread over its span from where it stands. -/
theorem readRecords_spec {zeros : Bool} {r r' : Reader} {b : Block} (hr : r.In s)
    (h : Gives (readRecords decode zeros) r b r') :
    Sequence decode zeros s r.position b.records b.byteLength := by
  simp only [readRecords, gives_bind, gives_get] at h
  obtain ⟨_, _, ⟨rfl, rfl⟩, h⟩ := h
  obtain ⟨l, hl, hs⟩ := readRecordsAfter_spec _ hr le_rfl h
  rw [List.reverse_nil, List.nil_append] at hl
  rwa [hl]

/-! ## What it means for records to be spread -/

theorem Spread.tiles {i j : ℕ} {l : List Record} (h : Spread false s i l j) : Tiles i l j := by
  induction l generalizing i with
  | nil => exact h.2.1 rfl
  | cons x l ih => exact ⟨(h.1.2.1 rfl).symm, ih h.2⟩

theorem Spread.le_offset {zeros : Bool} {i j : ℕ} {l : List Record}
    (hl : ∀ x ∈ l, x.offset < x.finish) (h : Spread zeros s i l j) : ∀ x ∈ l, i ≤ x.offset := by
  induction l generalizing i with
  | nil => exact fun _ h => by cases h
  | cons y l ih =>
    have hy := hl y List.mem_cons_self
    have := h.1.1
    rintro x (_ | ⟨_, hx⟩)
    · exact this
    · have := ih (fun x hx => hl x (List.mem_cons_of_mem y hx)) h.2 x hx
      omega

/-- Records stand in order, each after the end of the one before. -/
def Ordered (l : List Record) : Prop :=
  l.Pairwise fun x y => x.offset < y.offset ∧ x.finish ≤ y.offset

theorem Spread.ordered {zeros : Bool} {i j : ℕ} {l : List Record}
    (hl : ∀ x ∈ l, x.offset < x.finish) (h : Spread zeros s i l j) : Ordered l := by
  induction l generalizing i with
  | nil => exact List.Pairwise.nil
  | cons y l ih =>
    have hl' := fun x hx => hl x (List.mem_cons_of_mem y hx)
    refine List.Pairwise.cons (fun x hx => ?_) (ih hl' h.2)
    have := h.2.le_offset hl' x hx
    have := hl y List.mem_cons_self
    omega

theorem Spread.finish_le {zeros : Bool} {i j : ℕ} {l : List Record}
    (hl : ∀ x ∈ l, x.offset < x.finish) (h : Spread zeros s i l j) :
    i ≤ j ∧ ∀ x ∈ l, x.finish ≤ j := by
  induction l generalizing i with
  | nil => exact ⟨h.1, fun _ h => by cases h⟩
  | cons y l ih =>
    have := ih (fun x hx => hl x (List.mem_cons_of_mem y hx)) h.2
    have := hl y List.mem_cons_self
    have := h.1.1
    refine ⟨by omega, ?_⟩
    rintro x (_ | ⟨_, hx⟩)
    · omega
    · exact (ih (fun x hx => hl x (List.mem_cons_of_mem y hx)) h.2).2 x hx

/-- A byte between the ends of spread records that none of them covers is zero. -/
theorem Spread.zero_of_uncovered {zeros : Bool} {i j : ℕ} {l : List Record}
    (h : Spread zeros s i l j) {k : ℕ} (hi : i ≤ k) (hj : k < j)
    (hk : ∀ x ∈ l, ¬ (x.offset ≤ k ∧ k < x.finish)) : s[k]? = some 0 := by
  induction l generalizing i with
  | nil => exact h.2.2 k hi hj
  | cons y l ih =>
    have hy := hk y List.mem_cons_self
    by_cases ho : k < y.offset
    · exact h.1.2.2 k hi ho
    · exact ih h.2 (by omega) fun x hx => hk x (List.mem_cons_of_mem y hx)

theorem Sequence.offset_lt_finish {zeros : Bool} {i j : ℕ} {l : List Record}
    (h : Sequence decode zeros s i l j) : ∀ x ∈ l, x.offset < x.finish :=
  fun x hx => (h.record x hx).offset_lt_finish

/-- The records of the body `b` stand in order in its bytes `s`, only zero bytes are beside them,
and the body has all the bytes. -/
structure FillsIn (s : List UInt8) (b : Block) : Prop where
  ordered : Ordered b.records
  zero : ∀ i < s.length, (∀ x ∈ b.records, ¬ (x.offset ≤ i ∧ i < x.finish)) → s[i]? = some 0
  byteLength : b.byteLength = s.length

theorem Sequence.fillsIn {b : Block} (h : Sequence decode true s 0 b.records b.byteLength) :
    FillsIn s b := by
  have hlen : b.byteLength = s.length := by
    rcases h.ends with he | ⟨he, -⟩
    · exact he
    · cases he
  exact ⟨h.spread.ordered h.offset_lt_finish,
    fun i hi => h.spread.zero_of_uncovered (Nat.zero_le i) (hlen ▸ hi), hlen⟩

/-! ## Bodies inside bodies -/

/-- What decodes the bodies of a block in which bodies may nest `depth` deep. -/
def decoderBelow : ℕ → Option (Reader → Except DecodeError Block)
  | 0 => none
  | depth + 1 => some (bodyDecoder depth)

theorem bodyDecoder_eq (depth : ℕ) (span : Reader) :
    bodyDecoder depth span = ((readRecords (decoderBelow depth) true).run.run span).1 := by
  cases depth <;> rfl

theorem sequence_of_bodyDecoder {depth base : ℕ} {b : Block}
    (h : bodyDecoder depth ⟨s, 0, base⟩ = .ok b) :
    Sequence (decoderBelow depth) true s 0 b.records b.byteLength := by
  rw [bodyDecoder_eq] at h
  obtain ⟨r', h⟩ := run_eq_ok_iff.mp h
  exact readRecords_spec ⟨rfl, Nat.zero_le _⟩ h

theorem sequence_of_decodeActions {b : Block} (h : decodeActions s = .ok b) :
    Sequence (decoderBelow maxNesting) false s 0 b.records b.byteLength := by
  obtain ⟨r', h⟩ := run_eq_ok_iff.mp h
  exact readRecords_spec ⟨rfl, Nat.zero_le _⟩ h

/-- A body may nest one body less than the block around it. -/
theorem RecordOf.sequence {depth : ℕ} {x : Record} {b : Block}
    (hx : RecordOf (decoderBelow depth) s x) (hb : x.action.body? = some b) :
    ∃ d, depth = d + 1 ∧
      Sequence (decoderBelow d) true (bodyAt s x.offset) 0 b.records b.byteLength := by
  obtain ⟨f, base, hf, hb⟩ := hx.body b hb
  cases depth with
  | zero => cases hf
  | succ d =>
    cases hf
    exact ⟨d, rfl, sequence_of_bodyDecoder hb⟩

/-- The block `c` of the bytes `t` is `n` bodies deep inside the block `b` of the bytes `s`. -/
inductive Inside (s : List UInt8) (b : Block) : ℕ → List UInt8 → Block → Prop
  | here : Inside s b 0 s b
  | body {n : ℕ} {t : List UInt8} {c d : Block} {x : Record} : Inside s b n t c →
    x ∈ c.records → x.action.body? = some d → Inside s b (n + 1) (bodyAt t x.offset) d

theorem StandsIn.length_bodyAt {x : Record} (hx : StandsIn s x) :
    (bodyAt s x.offset).length = bodySizeAt s x.offset := by
  have h := hx.finish_le
  rw [Placed.finish, hx.size] at h
  rw [bodyAt, List.length_take, List.length_drop]
  omega

theorem Inside.sequence {b : Block} (h : decodeActions s = .ok b) {n : ℕ} {t : List UInt8}
    {c : Block} (hi : Inside s b n t c) : ∃ depth zeros, n + depth = maxNesting ∧
      t.length ≤ s.length ∧ Sequence (decoderBelow depth) zeros t 0 c.records c.byteLength := by
  induction hi with
  | here => exact ⟨_, _, Nat.zero_add _, le_rfl, sequence_of_decodeActions h⟩
  | body _ hx hd ih =>
    obtain ⟨depth, zeros, hn, hl, hs⟩ := ih
    obtain ⟨d, rfl, hs'⟩ := (hs.record _ hx).sequence hd
    refine ⟨d, _, by omega, ?_, hs'⟩
    rw [bodyAt, List.length_take, List.length_drop]
    omega

/-- The bytes `s` are as the block `b` says, at every depth. -/
structure Describes (s : List UInt8) (b : Block) : Prop where
  /-- The records of the stream stand side by side from its first byte on. -/
  tiles : Tiles 0 b.records b.byteLength
  /-- They reach the end of the bytes or a zero byte. -/
  ends : b.byteLength = s.length ∨ s[b.byteLength]? = some 0
  /-- Bodies are nested at most `maxNesting` deep. -/
  depth_le : ∀ {n t c}, Inside s b n t c → n ≤ maxNesting
  /-- Every place is a place of the input. -/
  length_le : ∀ {n t c}, Inside s b n t c → t.length ≤ s.length
  /-- Each record has the code and the size that the bytes announce. -/
  stands : ∀ {n t c}, Inside s b n t c → ∀ x ∈ c.records, StandsIn t x
  /-- Each body takes the bytes that its size in the operands announces, and no others. -/
  body : ∀ {n t c}, Inside s b n t c → ∀ x ∈ c.records, ∀ d, x.action.body? = some d →
    FillsIn (bodyAt t x.offset) d ∧ d.byteLength = bodySizeAt t x.offset

/-- **A decoded block describes its bytes.** -/
theorem describes_of_decodeActions {s : List UInt8} {b : Block} (h : decodeActions s = .ok b) :
    Describes s b where
  tiles := (sequence_of_decodeActions h).spread.tiles
  ends := (sequence_of_decodeActions h).ends.imp_right And.right
  depth_le hi := by
    obtain ⟨depth, _, hn, -⟩ := hi.sequence h
    omega
  length_le hi := by
    obtain ⟨_, _, -, hl, -⟩ := hi.sequence h
    exact hl
  stands hi x hx := by
    obtain ⟨_, _, -, -, hc⟩ := hi.sequence h
    exact (hc.record x hx).stands
  body hi x hx d hd := by
    obtain ⟨_, _, -, -, hc⟩ := hi.sequence h
    obtain ⟨_, -, hs⟩ := (hc.record x hx).sequence hd
    refine ⟨hs.fillsIn, ?_⟩
    rw [hs.fillsIn.byteLength, (hc.record x hx).stands.length_bodyAt]

/-- A body with a zero byte between its records, in a stream that ends before its last byte. -/
theorem describes_body_with_gap :
    decodeActions [0x94, 2, 0, 3, 0, 6, 0, 7, 4, 0, 5] =
      .ok ⟨[⟨0, 8, .withObject ⟨[⟨0, 1, .op .play⟩, ⟨2, 1, .op .stop⟩], 3⟩⟩,
        ⟨8, 1, .op .nextFrame⟩], 9⟩ ∧
    Describes [0x94, 2, 0, 3, 0, 6, 0, 7, 4, 0, 5]
      ⟨[⟨0, 8, .withObject ⟨[⟨0, 1, .op .play⟩, ⟨2, 1, .op .stop⟩], 3⟩⟩,
        ⟨8, 1, .op .nextFrame⟩], 9⟩ :=
  ⟨rfl, describes_of_decodeActions rfl⟩

end ActionVm
