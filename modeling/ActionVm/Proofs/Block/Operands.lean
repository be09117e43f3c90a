import ActionVm.Block.Decoding
import ActionVm.Block.Encoding
import ActionVm.Proofs.Reading
import ActionVm.Proofs.Text.Utf8

/-!
# Operands read back

The operand bytes of a record are read back as the operands that were encoded.

* `Read.Takes`: a read takes exactly the given bytes, whatever follows them;
* `takes_u16`, `takes_cstr`, `takes_times` and the like: each read takes what the encoder writes;
* `takes_readPushValue`, **`gives_readPushValues`**: pushed values;
* **`takes_function`**, **`takes_function2`**: the operands of functions.
-/

namespace ActionVm

theorem Reader.past_past (r : Reader) (m n : ℕ) (a b : List UInt8) :
    (r.past m a).past n b = r.past (m + n) b := by
  simp [Reader.past, Nat.add_assoc]

/-- The text has no zero character, which would end it early. -/
def NulFree (s : String) : Prop := '\x00' ∉ s.toList

namespace Read

variable {α β : Type}

/-- The read takes exactly the given bytes and answers `a`, whatever follows them. -/
def Takes (x : Read α) (bytes : List UInt8) (a : α) : Prop :=
  ∀ r rest, r.rest = bytes ++ rest → Gives x r a (r.past bytes.length rest)

theorem takes_pure (a : α) : Takes (pure a) [] a := by
  intro r rest hr
  refine gives_pure.mpr ⟨rfl, ?_⟩
  simp [Reader.past, ← (show r.rest = rest from hr)]

theorem Takes.bind {x : Read α} {f : α → Read β} {u v : List UInt8} {a : α} {b : β}
    (hx : Takes x u a) (hf : Takes (f a) v b) : Takes (x >>= f) (u ++ v) b := by
  intro r rest hr
  rw [List.append_assoc] at hr
  refine gives_bind.mpr ⟨a, _, hx r _ hr, ?_⟩
  have := hf (r.past u.length (v ++ rest)) rest rfl
  rwa [Reader.past_past, ← List.length_append] at this

/-- A read whose answer is turned into another takes the same bytes. -/
theorem Takes.map {x : Read α} {u : List UInt8} {a : α} (hx : Takes x u a) (f : α → β) :
    Takes (do return f (← x)) u (f a) := by
  have := hx.bind (f := fun a => pure (f a)) (takes_pure (f a))
  rwa [List.append_nil] at this

/-! ## Words and strings -/

theorem takes_u8 (a : UInt8) : Takes u8 [a] a :=
  fun _ rest hr => gives_u8.mpr ⟨rest, hr, rfl⟩

theorem takes_u16 (w : UInt16) : Takes u16 (Word.le16 w) w :=
  fun _ rest hr => gives_u16.mpr ⟨_, _, rest, hr, (Word.of16_bytes w).symm, rfl⟩

theorem takes_i16 (i : Int16) : Takes i16 (Word.le16 i.toUInt16) i := (takes_u16 _).map _

theorem takes_u32 (w : UInt32) : Takes u32 (Word.le32 w) w :=
  fun _ rest hr => gives_u32.mpr ⟨_, _, _, _, rest, hr, (Word.of32_bytes w).symm, rfl⟩

theorem takes_i32 (i : Int32) : Takes i32 (Word.le32 i.toUInt32) i := (takes_u32 _).map _

theorem takes_f64 (w : UInt64) :
    Takes f64 (Word.le32 (Word.high w) ++ Word.le32 (Word.low w)) w := by
  refine (takes_u32 _).bind ?_
  have := (takes_u32 (Word.low w)).map (Word.of64 (Word.high w))
  rwa [Word.of64_halves] at this

theorem takes_count {n : ℕ} : Takes u16 (encodeCount n) (UInt16.ofNat n) := takes_u16 _

theorem takes_cstr {s : String} (hs : NulFree s) : Takes cstr (encodeString s) s := by
  intro r rest hr
  rw [encodeString, List.append_assoc] at hr
  refine gives_cstr.mpr ⟨_, rest, hr, Utf8.zero_not_mem_encode hs, (Utf8.repair_encode s).symm, ?_⟩
  simp [encodeString]

/-! ## Repetition -/

theorem takes_timesAfter {γ : Type} {read : Read β} {enc : γ → List UInt8} {f : γ → β}
    {l : List γ} (h : ∀ a ∈ l, Takes read (enc a) (f a)) (done : List β) :
    Takes (timesAfter read done l.length) (l.flatMap enc) (done.reverse ++ l.map f) := by
  induction l generalizing done with
  | nil =>
    rw [List.map_nil, List.append_nil]
    exact takes_pure _
  | cons a l ih =>
    have hl := ih (fun b hb => h b (List.mem_cons_of_mem a hb)) (f a :: done)
    rw [List.reverse_cons, List.append_assoc] at hl
    exact (h a List.mem_cons_self).bind hl

/-- **A repeated read takes the members of a list one by one.** -/
theorem takes_times {γ : Type} {read : Read β} {enc : γ → List UInt8} {f : γ → β} {l : List γ}
    (h : ∀ a ∈ l, Takes read (enc a) (f a)) :
    Takes (times read l.length) (l.flatMap enc) (l.map f) :=
  takes_timesAfter h []

/-- The members of a list whose number was encoded before them. -/
theorem takes_counted {γ : Type} {read : Read β} {enc : γ → List UInt8} {f : γ → β} {l : List γ}
    (h : ∀ a ∈ l, Takes read (enc a) (f a)) (hl : l.length < 0x10000) :
    Takes (times read (UInt16.ofNat l.length).toNat) (l.flatMap enc) (l.map f) := by
  rw [UInt16.toNat_ofNat_of_lt' hl]
  exact takes_times h

/-- Strings whose number was encoded before them. -/
theorem takes_strings {l : List String} (h : ∀ s ∈ l, NulFree s) (hl : l.length < 0x10000) :
    Takes (times cstr (UInt16.ofNat l.length).toNat) (l.flatMap encodeString) l := by
  have := takes_counted (f := id) (fun s hs => takes_cstr (h s hs)) hl
  rwa [List.map_id] at this

/-! ## Pushed values -/

/-- A pushed value is read back after its type byte. -/
theorem takes_readPushValue {v : PushValue} (hv : ∀ s, v = .string s → NulFree s) :
    ∃ tag operands, encodeValue v = tag :: operands ∧
      ∀ place, Takes (readPushValue tag place) operands v := by
  cases v with
  | string s => exact ⟨0, _, rfl, fun _ => (takes_cstr (hv s rfl)).map _⟩
  | float bits => exact ⟨1, _, rfl, fun _ => (takes_u32 bits).map _⟩
  | null => exact ⟨2, _, rfl, fun _ => takes_pure _⟩
  | undefined => exact ⟨3, _, rfl, fun _ => takes_pure _⟩
  | register r => exact ⟨4, _, rfl, fun _ => (takes_u8 r).map _⟩
  | boolean b =>
    refine ⟨5, _, rfl, fun _ => ?_⟩
    have := (takes_u8 (if b then 1 else 0)).map fun a => PushValue.boolean (a != 0)
    cases b <;> exact this
  | double bits => exact ⟨6, _, rfl, fun _ => (takes_f64 bits).map _⟩
  | integer i => exact ⟨7, _, rfl, fun _ => (takes_i32 i).map _⟩
  | constant index =>
    by_cases hi : index < 256
    · refine ⟨8, [index.toUInt8], by rw [encodeValue, if_pos hi], fun _ => ?_⟩
      have := (takes_u8 index.toUInt8).map fun a => PushValue.constant a.toUInt16
      rwa [show index.toUInt8.toUInt16 = index from UInt16.toNat_inj.mp ?_] at this
      have : index.toNat < 256 := UInt16.lt_iff_toNat_lt.mp hi
      rw [UInt8.toNat_toUInt16, UInt16.toNat_toUInt8]
      exact Nat.mod_eq_of_lt this
    · exact ⟨9, _, by rw [encodeValue, if_neg hi], fun _ => (takes_u16 index).map _⟩

theorem gives_readPushValuesAfter {values : List PushValue}
    (hv : ∀ s, .string s ∈ values → NulFree s) (n : ℕ) : ∀ (done : List PushValue) (r : Reader),
    r.rest = pushOperands values → r.rest.length ≤ n →
      ∃ r', Gives (readPushValuesAfter done n) r (done.reverse ++ values) r' := by
  induction n generalizing values with
  | zero =>
    intro done r hr hn
    rw [Nat.le_zero, List.length_eq_zero_iff, hr] at hn
    cases values with
    | nil =>
      rw [List.append_nil]
      exact ⟨r, gives_pure.mpr ⟨rfl, rfl⟩⟩
    | cons v values =>
      obtain ⟨tag, operands, he, -⟩ := takes_readPushValue fun s h => hv s (h ▸ List.mem_cons_self)
      simp [pushOperands, he] at hn
  | succ n ih =>
    intro done r hr hn
    simp only [readPushValuesAfter, gives_bind, gives_get]
    cases values with
    | nil =>
      refine ⟨r, r, r, ⟨rfl, rfl⟩, ?_⟩
      rw [if_pos (by simp [Reader.isEmpty, hr, pushOperands]), List.append_nil]
      exact gives_pure.mpr ⟨rfl, rfl⟩
    | cons v values =>
      obtain ⟨tag, operands, he, ht⟩ := takes_readPushValue fun s h => hv s (h ▸ List.mem_cons_self)
      rw [pushOperands, List.flatMap_cons, he, List.cons_append] at hr
      have hrest := ih (fun s h => hv s (List.mem_cons_of_mem v h)) (v :: done)
        ((r.past 1 (operands ++ values.flatMap encodeValue)).past operands.length
          (pushOperands values)) rfl (by
          rw [hr, List.length_cons, List.length_append] at hn
          simp only [Reader.past, pushOperands]
          omega)
      rw [List.reverse_cons, List.append_assoc] at hrest
      obtain ⟨r', hrest⟩ := hrest
      refine ⟨r', r, r, ⟨rfl, rfl⟩, ?_⟩
      rw [if_neg (by simp [Reader.isEmpty, hr])]
      refine gives_bind.mpr ⟨tag, _, takes_u8 tag r _ hr, ?_⟩
      exact gives_bind.mpr ⟨v, _, ht r.place _ _ rfl, hrest⟩

/-- **Pushed values are read back from operands of their own.** -/
theorem gives_readPushValues {values : List PushValue}
    (hv : ∀ s, .string s ∈ values → NulFree s) {r : Reader} (hr : r.rest = pushOperands values) :
    ∃ r', Gives readPushValues r values r' := by
  obtain ⟨r', h⟩ := gives_readPushValuesAfter hv r.remaining [] r hr le_rfl
  exact ⟨r', gives_bind.mpr ⟨r, r, gives_get.mpr ⟨rfl, rfl⟩, h⟩⟩

/-! ## Operands of functions -/

theorem length_le_flatMap {γ : Type} {enc : γ → List UInt8} (h : ∀ a, 1 ≤ (enc a).length)
    (l : List γ) : l.length ≤ (l.flatMap enc).length := by
  induction l with
  | nil => exact le_rfl
  | cons a l ih =>
    have := h a
    rw [List.flatMap_cons, List.length_append, List.length_cons]
    omega

theorem one_le_length_encodeString (s : String) : 1 ≤ (encodeString s).length := by
  simp [encodeString]

theorem takes_pool {entries : List String} (he : ∀ s ∈ entries, NulFree s)
    (hl : (poolOperands entries).length < 0x10000) :
    Takes (readForm .constantPool) (poolOperands entries) (.complete (.constantPool entries)) := by
  have hn := length_le_flatMap one_le_length_encodeString entries
  rw [poolOperands, List.length_append] at hl
  exact takes_count.bind ((takes_strings he (by omega)).map _)

theorem takes_function {name : String} {params : List String} {size : ℕ} (hn : NulFree name)
    (hp : ∀ s ∈ params, NulFree s) (hl : (functionOperands name params size).length < 0x10000) :
    Takes (readForm .defineFunction) (functionOperands name params size)
      (.enclosing (UInt16.ofNat size) (.defineFunction name params)) := by
  have := length_le_flatMap one_le_length_encodeString params
  simp only [functionOperands, List.length_append] at hl
  simp only [functionOperands, List.append_assoc]
  exact (takes_cstr hn).bind (takes_count.bind ((takes_strings hp (by omega)).bind
    (takes_count.map _)))

/-- The parameter that an encoded one stands for: register zero is none. -/
def paramOf : UInt8 × String → RegisterParam
  | (register, name) => ⟨if register = 0 then none else some register, name⟩

theorem takes_param {p : UInt8 × String} (hp : NulFree p.2) :
    Takes readRegisterParam (encodeParam p) (paramOf p) :=
  (takes_u8 p.1).bind ((takes_cstr hp).map _)

theorem takes_function2 {name : String} {count : UInt8} {flags : PreloadFlags}
    {params : List (UInt8 × String)} {size : ℕ} (hn : NulFree name)
    (hp : ∀ p ∈ params, NulFree p.2)
    (hl : (function2Operands name count flags params size).length < 0x10000) :
    Takes (readForm .defineFunction2) (function2Operands name count flags params size)
      (.enclosing (UInt16.ofNat size)
        (.defineFunction2 name count flags (params.map paramOf))) := by
  have hlen : ∀ p, 1 ≤ (encodeParam p).length := fun p => by simp [encodeParam]
  have := length_le_flatMap hlen params
  simp only [function2Operands, List.length_append] at hl
  simp only [function2Operands, List.append_assoc]
  exact (takes_cstr hn).bind (takes_count.bind ((takes_u8 count).bind ((takes_u16 _).bind
    ((takes_counted (fun p h => takes_param (hp p h)) (by omega)).bind (takes_count.map _)))))

end Read

end ActionVm
