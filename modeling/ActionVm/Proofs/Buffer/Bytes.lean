import ActionVm.Buffer
import Mathlib.Data.List.Basic

/-!
# The bytes of a buffer

A buffer keeps its bytes in words of four. Seen through the list of its bytes, a change of a byte or
of a slot is a change of those members of the list alone, and the bytes that fill up the last word
are not seen at all.

* `spliced`, `littleEndian`, `lowBytes`, `HasSlot`, `numberAt`: spans and slots of a list;
* `Buffer.byteAt_setByte`, `Buffer.byteAt_setWord`: a byte after a change;
* **`Buffer.toList_setByte`**, **`Buffer.toList_setBytes`**, **`Buffer.toList_setWord`**: changes;
* `Buffer.get?_eq`, `Buffer.read?_eq`, `Buffer.word_eq_numberAt`: what is read;
* `Buffer.toList_zeros`, `Buffer.toList_ofList`: new buffers.
-/

namespace ActionVm

/-! ## Lists of bytes -/

/-- The list with other members from `start` on. -/
def spliced (l : List UInt8) (start : ℕ) (bytes : List UInt8) : List UInt8 :=
  l.take start ++ bytes ++ l.drop (start + bytes.length)

theorem spliced_cons {l : List UInt8} {start : ℕ} (h : start < l.length) (value : UInt8)
    (rest : List UInt8) : spliced l start (value :: rest) =
      spliced (l.set start value) (start + 1) rest := by
  have htake : (l.set start value).take (start + 1) = l.take start ++ [value] := by
    rw [List.take_add_one, List.take_set_of_le (Nat.le_refl _), List.getElem?_set_self h]
    rfl
  rw [spliced, spliced, htake, List.drop_set_of_lt (by omega), List.length_cons]
  simp [Nat.add_assoc, Nat.add_comm 1]

/-- The number that bytes give, low byte first. -/
def littleEndian : List UInt8 → ℕ
  | [] => 0
  | b :: rest => b.toNat + 256 * littleEndian rest

/-- The lowest `k` bytes of a number, low byte first. -/
def lowBytes : ℕ → ℕ → List UInt8
  | 0, _ => []
  | k + 1, n => UInt8.ofNat n :: lowBytes k (n / 256)

theorem Word.le32_eq_lowBytes (w : UInt32) : le32 w = lowBytes 4 w.toNat := by
  simp [le32, byte, lowBytes, Nat.shiftRight_eq_div_pow, Nat.div_div_eq_div_mul]

theorem Word.of32_eq_littleEndian (a b c d : UInt8) :
    of32 a b c d = UInt32.ofNat (littleEndian [a, b, c, d]) := rfl

/-- The list has four bytes from `address` on, and `address` is a multiple of four. -/
def HasSlot (l : List UInt8) (address : ℕ) : Prop := address % 4 = 0 ∧ address + 4 ≤ l.length

instance (l : List UInt8) (address : ℕ) : Decidable (HasSlot l address) :=
  inferInstanceAs (Decidable (_ ∧ _))

/-- The number in four bytes of a list. -/
def numberAt (l : List UInt8) (address : ℕ) : Int32 :=
  (UInt32.ofNat (littleEndian ((l.drop address).take 4))).toInt32

namespace Buffer

/-! ## Single bytes -/

theorem byte_withByte (w : UInt32) (value : UInt8) {j k : ℕ} (hj : j < 4) (hk : k < 4) :
    Word.byte (withByte w k value).toNat j = if j = k then value else Word.byte w.toNat j := by
  have hb := Word.byte_of32
  match j, k with
  | 0, 0 | 0, 1 | 0, 2 | 0, 3 | 1, 0 | 1, 1 | 1, 2 | 1, 3
  | 2, 0 | 2, 1 | 2, 2 | 2, 3 | 3, 0 | 3, 1 | 3, 2 | 3, 3 => simp [withByte, hb]

theorem word_setWord (b : Buffer) (i j : ℕ) (w : UInt32) :
    (b.setWord i w).word j = if j = i then w else b.word j := by
  unfold setWord word
  simp only [Array.getD_eq_getD_getElem?, Array.getElem?_setIfInBounds, Array.getElem?_append,
    Array.getElem?_replicate, Array.size_append, Array.size_replicate]
  grind

@[simp] theorem length_setWord (b : Buffer) (i : ℕ) (w : UInt32) :
    (b.setWord i w).length = b.length := rfl

@[simp] theorem length_setByte (b : Buffer) (i : ℕ) (value : UInt8) :
    (b.setByte i value).length = b.length := rfl

@[simp] theorem length_setBytes (bytes : List UInt8) : ∀ (b : Buffer) (start : ℕ),
    (b.setBytes start bytes).length = b.length := by
  induction bytes with
  | nil => exact fun _ _ => rfl
  | cons value rest ih => exact fun b start => ih (b.setByte start value) (start + 1)

theorem byteAt_setWord (b : Buffer) (i j : ℕ) (w : UInt32) :
    (b.setWord i w).byteAt j = if j / 4 = i then Word.byte w.toNat (j % 4) else b.byteAt j := by
  rw [byteAt, byteAt, word_setWord]
  split <;> rfl

theorem byteAt_setByte (b : Buffer) (i j : ℕ) (value : UInt8) :
    (b.setByte i value).byteAt j = if j = i then value else b.byteAt j := by
  have hlt : ∀ n : ℕ, n % 4 < 4 := fun n => Nat.mod_lt n (by decide)
  rw [setByte, byteAt_setWord, byte_withByte _ _ (hlt j) (hlt i)]
  by_cases hd : j / 4 = i / 4
  · rw [if_pos hd, byteAt, hd]
    exact if_congr (by omega) rfl rfl
  · rw [if_neg hd, if_neg (by rintro rfl; exact hd rfl)]

/-! ## The list of bytes -/

variable {b : Buffer}

@[simp] theorem length_toList (b : Buffer) : b.toList.length = b.length := by simp [toList]

theorem getElem?_toList (b : Buffer) (i : ℕ) :
    b.toList[i]? = if i < b.length then some (b.byteAt i) else none := by
  rw [toList, List.getElem?_map]
  split
  · next h => rw [List.getElem?_range h, Option.map_some]
  · next h => rw [List.getElem?_eq_none (by simpa using h), Option.map_none]

theorem toList_setByte {i : ℕ} (hi : i < b.length) (value : UInt8) :
    (b.setByte i value).toList = b.toList.set i value := by
  apply List.ext_getElem?
  intro j
  rw [getElem?_toList, byteAt_setByte, List.getElem?_set, getElem?_toList, length_toList,
    length_setByte]
  grind

theorem toList_setBytes (bytes : List UInt8) : ∀ (b : Buffer) (start : ℕ),
    start + bytes.length ≤ b.length →
      (b.setBytes start bytes).toList = spliced b.toList start bytes := by
  induction bytes with
  | nil =>
    intro b start _
    simp [spliced, setBytes]
  | cons value rest ih =>
    intro b start h
    rw [List.length_cons] at h
    have hrest := ih (b.setByte start value) (start + 1) (by rw [length_setByte]; omega)
    rw [setBytes, hrest, toList_setByte (by omega), spliced_cons (by rw [length_toList]; omega)]

/-- A slot is changed as its four bytes are. -/
theorem toList_setWord {address : ℕ} (h : HasSlot b.toList address) (w : UInt32) :
    (b.setWord (address / 4) w).toList = spliced b.toList address (lowBytes 4 w.toNat) := by
  obtain ⟨ha, hl⟩ := h
  rw [length_toList] at hl
  rw [← Word.le32_eq_lowBytes, ← toList_setBytes (Word.le32 w) b address hl]
  apply List.ext_getElem?
  intro j
  rw [getElem?_toList, getElem?_toList, length_setBytes, length_setWord, byteAt_setWord]
  simp only [Word.le32, setBytes, byteAt_setByte]
  congr 2
  -- a byte of the slot, or one of another word
  by_cases hd : j / 4 = address / 4
  · rw [if_pos hd]
    obtain rfl | rfl | rfl | rfl :
        j = address ∨ j = address + 1 ∨ j = address + 2 ∨ j = address + 3 := by omega
    · simp [ha, Nat.add_assoc]
    · simp [show (address + 1) % 4 = 1 by omega]
    · simp [show (address + 2) % 4 = 2 by omega]
    · simp [show (address + 3) % 4 = 3 by omega]
  · rw [if_neg hd, if_neg (by omega), if_neg (by omega), if_neg (by omega), if_neg (by omega)]

/-! ## What is read -/

theorem hasSlot_iff {address : ℕ} : b.hasSlot address = true ↔ HasSlot b.toList address := by
  simp [hasSlot, covers, HasSlot]

theorem take_drop_toList {start size : ℕ} (h : start + size ≤ b.length) :
    (b.toList.drop start).take size = (List.range' start size).map b.byteAt := by
  apply List.ext_getElem?
  intro i
  rw [List.getElem?_take, List.getElem?_drop, getElem?_toList, List.getElem?_map]
  grind

theorem get?_eq (b : Buffer) (index : ℕ) : b.get? index = b.toList[index]? := by
  rw [get?, getElem?_toList]

theorem read?_eq (b : Buffer) (start size : ℕ) : b.read? start size =
    if start + size ≤ b.toList.length then some ((b.toList.drop start).take size) else none := by
  rw [read?, covers, length_toList]
  by_cases h : start + size ≤ b.length
  · rw [if_pos (decide_eq_true h), if_pos h, take_drop_toList h]
  · rw [if_neg (by simpa using h), if_neg h]

theorem word_eq_numberAt {address : ℕ} (h : HasSlot b.toList address) :
    (b.word (address / 4)).toInt32 = numberAt b.toList address := by
  obtain ⟨ha, hl⟩ := h
  rw [length_toList] at hl
  have hbyte : ∀ k < 4, b.byteAt (address + k) = Word.byte (b.word (address / 4)).toNat k := by
    intro k hk
    rw [byteAt, show (address + k) / 4 = address / 4 by omega, show (address + k) % 4 = k by omega]
  rw [numberAt, take_drop_toList hl, ← Word.of32_bytes (b.word (address / 4)),
    Word.of32_eq_littleEndian]
  simp [List.range', ← hbyte]

/-! ## New buffers -/

theorem toList_zeros (n : ℕ) : (zeros n).toList = List.replicate n 0 := by
  apply List.ext_getElem?
  intro i
  have hzero : (zeros n).byteAt i = 0 := by simp [zeros, byteAt, word, Word.byte]
  rw [getElem?_toList, List.getElem?_replicate, hzero]
  rfl

/-- The bytes of words that are made of a list, of which the last may be filled up. -/
theorem byte_wordsOf : ∀ (bytes : List UInt8) (i : ℕ), i < bytes.length →
    some (Word.byte ((wordsOf bytes).getD (i / 4) 0).toNat (i % 4)) = bytes[i]?
  | a :: b :: c :: d :: rest, i, hi => by
    obtain ⟨h0, h1, h2, h3⟩ := Word.byte_of32 a b c d
    match i with
    | 0 => simp [wordsOf, h0]
    | 1 => simp [wordsOf, h1]
    | 2 => simp [wordsOf, h2]
    | 3 => simp [wordsOf, h3]
    | i + 4 =>
      have hrest := byte_wordsOf rest i (by simpa using hi)
      simpa [wordsOf] using hrest
  | [a, b, c], i, hi => by
    obtain ⟨h0, h1, h2, -⟩ := Word.byte_of32 a b c 0
    match i, hi with
    | 0, _ => simp [wordsOf, h0]
    | 1, _ => simp [wordsOf, h1]
    | 2, _ => simp [wordsOf, h2]
  | [a, b], i, hi => by
    obtain ⟨h0, h1, -, -⟩ := Word.byte_of32 a b 0 0
    match i, hi with
    | 0, _ => simp [wordsOf, h0]
    | 1, _ => simp [wordsOf, h1]
  | [a], i, hi => by
    obtain ⟨h0, -, -, -⟩ := Word.byte_of32 a 0 0 0
    match i, hi with
    | 0, _ => simp [wordsOf, h0]
  | [], _, hi => absurd hi (Nat.not_lt_zero _)

theorem toList_ofList (bytes : List UInt8) : (ofList bytes).toList = bytes := by
  apply List.ext_getElem?
  intro i
  rw [getElem?_toList]
  split
  · next h =>
    rw [← byte_wordsOf bytes i h, byteAt, word, ofList]
    simp
  · next h => rw [List.getElem?_eq_none (by simpa [ofList] using h)]

end Buffer

end ActionVm
