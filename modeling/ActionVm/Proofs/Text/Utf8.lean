import ActionVm.Text.Utf8
import Mathlib.Data.Nat.Notation

/-!
# Text that survives repair

* `scan_utf8EncodeChar`: the bytes of a character are one piece, whatever follows them;
* **`repair_encode`**: the bytes of a text give that text back;
* `zero_not_mem_encode`: a text without the zero character has no zero byte.
-/

namespace ActionVm.Utf8

/-- What a lead byte asks for, told by its number. -/
theorem trail_ofNat {n : ℕ} (hn : n < 256) : trail (UInt8.ofNat n) =
    if n < 0x80 then some (0, 0, 0)
    else if n < 0xC2 then none
    else if n < 0xE0 then some (1, 0x80, 0xBF)
    else if n = 0xE0 then some (2, 0xA0, 0xBF)
    else if n = 0xED then some (2, 0x80, 0x9F)
    else if n < 0xF0 then some (2, 0x80, 0xBF)
    else if n = 0xF0 then some (3, 0x90, 0xBF)
    else if n < 0xF4 then some (3, 0x80, 0xBF)
    else if n = 0xF4 then some (3, 0x80, 0x8F)
    else none := by
  simp only [trail, UInt8.lt_iff_toNat_lt, ← UInt8.toNat_inj, UInt8.toNat_ofNat',
    Nat.mod_eq_of_lt hn, UInt8.reduceToNat]

/-- The byte that holds six bits of a character. -/
theorem toNat_continuation (n : ℕ) : (UInt8.ofNat (n % 64 + 0x80)).toNat = n % 64 + 0x80 := by
  rw [UInt8.toNat_ofNat']
  omega

theorem continues_continuation (n : ℕ) : continues (UInt8.ofNat (n % 64 + 0x80)) = true := by
  simp only [continues, Bool.and_eq_true, decide_eq_true_eq, UInt8.le_iff_toNat_le,
    toNat_continuation, UInt8.reduceToNat]
  omega

theorem extend_continuation (acc n : ℕ) :
    extend acc (UInt8.ofNat (n % 64 + 0x80)) = acc * 64 + n % 64 := by
  rw [extend, toNat_continuation]
  omega

variable {lead b low high : UInt8} (c d : UInt8) (rest : List UInt8)

/-- The byte after the lead byte is within the range that the lead byte asks for. -/
theorem in_range (hb : low.toNat ≤ b.toNat ∧ b.toNat ≤ high.toNat) :
    (decide (b < low) || decide (high < b)) = false := by
  simp only [UInt8.lt_iff_toNat_lt, Bool.or_eq_false_iff, decide_eq_false_iff_not]
  omega

theorem scan_two (ht : trail lead = some (1, low, high))
    (hb : low.toNat ≤ b.toNat ∧ b.toNat ≤ high.toNat) :
    scan lead (b :: rest) = .scalar (Char.ofNat (extend (lead.toNat % 32) b)) 1 := by
  simp only [scan, ht, in_range hb, Bool.false_eq_true, if_false]

theorem scan_three (ht : trail lead = some (2, low, high))
    (hb : low.toNat ≤ b.toNat ∧ b.toNat ≤ high.toNat) (hc : continues c = true) :
    scan lead (b :: c :: rest) =
      .scalar (Char.ofNat (extend (extend (lead.toNat % 16) b) c)) 2 := by
  simp only [scan, ht, in_range hb, Bool.false_eq_true, if_false, hc, if_true]

theorem scan_four (ht : trail lead = some (3, low, high))
    (hb : low.toNat ≤ b.toNat ∧ b.toNat ≤ high.toNat) (hc : continues c = true)
    (hd : continues d = true) : scan lead (b :: c :: d :: rest) =
      .scalar (Char.ofNat (extend (extend (extend (lead.toNat % 8) b) c) d)) 3 := by
  simp only [scan, ht, in_range hb, Bool.false_eq_true, if_false, hc, hd, Bool.not_true, if_true]

/-- The lead byte of three takes the byte after it: over-long forms are below what `E0` asks for,
and surrogates above what `ED` asks for. -/
theorem trail_three {v : ℕ} (hl : 0x7ff < v) (hh : v ≤ 0xffff)
    (hv : v < 0xD800 ∨ 0xDFFF < v) : ∃ low high,
    trail (UInt8.ofNat (v / 4096 % 0x10 + 0xe0)) = some (2, low, high) ∧
      low.toNat ≤ v / 64 % 64 + 0x80 ∧ v / 64 % 64 + 0x80 ≤ high.toNat := by
  rw [trail_ofNat (by omega), if_neg (by omega), if_neg (by omega), if_neg (by omega)]
  by_cases hE0 : v / 4096 % 0x10 + 0xe0 = 0xE0
  · rw [if_pos hE0]
    exact ⟨_, _, rfl, show 0xA0 ≤ _ by omega, show _ ≤ 0xBF by omega⟩
  rw [if_neg hE0]
  by_cases hED : v / 4096 % 0x10 + 0xe0 = 0xED
  · rw [if_pos hED]
    exact ⟨_, _, rfl, show 0x80 ≤ _ by omega, show _ ≤ 0x9F by omega⟩
  rw [if_neg hED, if_pos (by omega)]
  exact ⟨_, _, rfl, show 0x80 ≤ _ by omega, show _ ≤ 0xBF by omega⟩

/-- The lead byte of four takes the byte after it: over-long forms are below what `F0` asks for, and
values past `10FFFF` above what `F4` asks for. -/
theorem trail_four {v : ℕ} (hl : 0xffff < v) (hh : v < 0x110000) : ∃ low high,
    trail (UInt8.ofNat (v / 262144 % 8 + 0xf0)) = some (3, low, high) ∧
      low.toNat ≤ v / 4096 % 64 + 0x80 ∧ v / 4096 % 64 + 0x80 ≤ high.toNat := by
  rw [trail_ofNat (by omega), if_neg (by omega), if_neg (by omega), if_neg (by omega),
    if_neg (by omega), if_neg (by omega), if_neg (by omega)]
  by_cases hF0 : v / 262144 % 8 + 0xf0 = 0xF0
  · rw [if_pos hF0]
    exact ⟨_, _, rfl, show 0x90 ≤ _ by omega, show _ ≤ 0xBF by omega⟩
  rw [if_neg hF0]
  by_cases hF4 : v / 262144 % 8 + 0xf0 = 0xF4
  · rw [if_neg (by omega), if_pos hF4]
    exact ⟨_, _, rfl, show 0x80 ≤ _ by omega, show _ ≤ 0x8F by omega⟩
  rw [if_pos (by omega)]
  exact ⟨_, _, rfl, show 0x80 ≤ _ by omega, show _ ≤ 0xBF by omega⟩

/-- **The bytes of a character are one piece**, whatever follows them. -/
theorem scan_utf8EncodeChar (x : Char) : ∃ lead more, String.utf8EncodeChar x = lead :: more ∧
    ∀ rest, scan lead (more ++ rest) = .scalar x more.length := by
  have hx : Char.ofNat x.val.toNat = x := Char.ofNat_toNat x
  have hv : x.val.toNat < 0xD800 ∨ 0xDFFF < x.val.toNat ∧ x.val.toNat < 0x110000 := x.valid
  unfold String.utf8EncodeChar
  generalize x.val.toNat = v at hx hv
  simp only
  split
  · refine ⟨_, _, rfl, fun rest => ?_⟩
    have ht := trail_ofNat (n := v) (by omega)
    rw [if_pos (by omega)] at ht
    simp only [scan, ht, UInt8.toNat_ofNat', Nat.mod_eq_of_lt (show v < 256 by omega), hx,
      List.length_nil]
  split
  · refine ⟨_, _, rfl, fun rest => ?_⟩
    have ht := trail_ofNat (n := v / 64 % 0x20 + 0xc0) (by omega)
    rw [if_neg (by omega), if_neg (by omega), if_pos (by omega)] at ht
    have hb := toNat_continuation v
    rw [List.singleton_append, scan_two rest ht (by rw [hb]; simp; omega), extend_continuation,
      UInt8.toNat_ofNat', show (v / 64 % 0x20 + 0xc0) % 2 ^ 8 % 32 * 64 + v % 64 = v by omega, hx]
    rfl
  split
  · refine ⟨_, _, rfl, fun rest => ?_⟩
    have hb := toNat_continuation (v / 64)
    obtain ⟨low, high, ht, hlow, hhigh⟩ := trail_three (v := v) (by omega) (by omega) (by omega)
    rw [List.cons_append, List.singleton_append, scan_three _ rest ht (by rw [hb]; omega)
      (continues_continuation v), extend_continuation, extend_continuation, UInt8.toNat_ofNat',
      show ((v / 4096 % 0x10 + 0xe0) % 2 ^ 8 % 16 * 64 + v / 64 % 64) * 64 + v % 64 = v by omega,
      hx]
    rfl
  · refine ⟨_, _, rfl, fun rest => ?_⟩
    have hb := toNat_continuation (v / 4096)
    obtain ⟨low, high, ht, hlow, hhigh⟩ := trail_four (v := v) (by omega) (by omega)
    have hall : (((v / 262144 % 8 + 0xf0) % 2 ^ 8 % 8 * 64 + v / 4096 % 64) * 64 +
        v / 64 % 64) * 64 + v % 64 = v := by omega
    rw [List.cons_append, List.cons_append, List.singleton_append,
      scan_four _ _ rest ht (by rw [hb]; omega) (continues_continuation (v / 64))
        (continues_continuation v), extend_continuation, extend_continuation, extend_continuation,
      UInt8.toNat_ofNat', hall, hx]
    rfl

theorem repairAfter_utf8EncodeChar (x : Char) (done : List Char) (rest : List UInt8) :
    repairAfter done (String.utf8EncodeChar x ++ rest) = repairAfter (x :: done) rest := by
  obtain ⟨lead, more, hx, hscan⟩ := scan_utf8EncodeChar x
  rw [hx, List.cons_append, repairAfter, hscan rest]
  simp

theorem repairAfter_flatMap (l done : List Char) :
    repairAfter done (l.flatMap String.utf8EncodeChar) = done.reverse ++ l := by
  induction l generalizing done with
  | nil => simp [repairAfter]
  | cons x l ih =>
    rw [List.flatMap_cons, repairAfter_utf8EncodeChar, ih]
    simp

/-- **The bytes of a text give that text back.** -/
theorem repair_encode (s : String) : repair (encode s) = s := by
  rw [repair, encode, repairAfter_flatMap]
  simp

theorem repair_nil : repair [] = "" := repair_encode ""

theorem zero_not_mem_utf8EncodeChar {x : Char} (hx : x ≠ '\x00') :
    0 ∉ String.utf8EncodeChar x := by
  have hv : x.val.toNat ≠ 0 := fun h => hx (Char.ext (UInt32.toNat_inj.mp h))
  have hbyte : ∀ n : ℕ, 0 < n → n < 256 → (0 : UInt8) ≠ UInt8.ofNat n := by
    intro n h₀ h₁ h
    have := congrArg UInt8.toNat h
    rw [UInt8.toNat_ofNat', Nat.mod_eq_of_lt h₁] at this
    exact absurd this (by simp only [UInt8.reduceToNat]; omega)
  unfold String.utf8EncodeChar
  generalize x.val.toNat = v at hv
  simp only
  split
  · simpa using hbyte v (by omega) (by omega)
  split
  · simp only [List.mem_cons, List.not_mem_nil, or_false, not_or]
    exact ⟨hbyte _ (by omega) (by omega), hbyte _ (by omega) (by omega)⟩
  split
  · simp only [List.mem_cons, List.not_mem_nil, or_false, not_or]
    exact ⟨hbyte _ (by omega) (by omega), hbyte _ (by omega) (by omega),
      hbyte _ (by omega) (by omega)⟩
  · simp only [List.mem_cons, List.not_mem_nil, or_false, not_or]
    exact ⟨hbyte _ (by omega) (by omega), hbyte _ (by omega) (by omega),
      hbyte _ (by omega) (by omega), hbyte _ (by omega) (by omega)⟩

/-- A text without the zero character has no zero byte. -/
theorem zero_not_mem_encode {s : String} (hs : '\x00' ∉ s.toList) : 0 ∉ encode s := by
  rw [encode, List.mem_flatMap]
  rintro ⟨x, hx, h⟩
  exact zero_not_mem_utf8EncodeChar (fun h => hs (h ▸ hx)) h

end ActionVm.Utf8
