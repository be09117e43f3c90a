/-!
# Words

Fixed-width words as bytes, low byte first.

* `le16`, `le32`: the bytes of a word;
* `of16`, `of32`, `of64`: the word of given bytes or halves;
* **`of16_bytes`**, **`of32_bytes`**, **`of64_halves`**: the parts of a word give that word back;
* `le16_of16`, `byte_of32`, `le32_of32`, `high_of64`, `low_of64`: the parts of a word are those it
  is made of.
-/

namespace ActionVm.Word

/-- Byte `k` of the number `n`, counted from the lowest. -/
def byte (n k : Nat) : UInt8 := UInt8.ofNat (n >>> (8 * k))

/-- The two bytes of a 16-bit word. -/
def le16 (w : UInt16) : List UInt8 := [byte w.toNat 0, byte w.toNat 1]

/-- The four bytes of a 32-bit word. -/
def le32 (w : UInt32) : List UInt8 :=
  [byte w.toNat 0, byte w.toNat 1, byte w.toNat 2, byte w.toNat 3]

/-- The 16-bit word with low byte `a` and high byte `b`. -/
def of16 (a b : UInt8) : UInt16 := UInt16.ofNat (a.toNat + 256 * b.toNat)

/-- The 32-bit word with bytes `a`, `b`, `c`, `d` from the lowest. -/
def of32 (a b c d : UInt8) : UInt32 :=
  UInt32.ofNat (a.toNat + 256 * (b.toNat + 256 * (c.toNat + 256 * d.toNat)))

/-- The 64-bit word with the given halves. -/
def of64 (high low : UInt32) : UInt64 := UInt64.ofNat (high.toNat <<< 32 + low.toNat)

/-- The high half of a 64-bit word. -/
def high (w : UInt64) : UInt32 := UInt32.ofNat (w.toNat >>> 32)

/-- The low half of a 64-bit word. -/
def low (w : UInt64) : UInt32 := UInt32.ofNat w.toNat

theorem of16_bytes (w : UInt16) : of16 (byte w.toNat 0) (byte w.toNat 1) = w := by
  apply UInt16.toNat_inj.mp
  have := w.toNat_lt
  simp [of16, byte]
  omega

theorem le16_of16 (a b : UInt8) : le16 (of16 a b) = [a, b] := by
  have := a.toNat_lt
  have := b.toNat_lt
  have hword : (of16 a b).toNat = a.toNat + 256 * b.toNat := by
    rw [of16, UInt16.toNat_ofNat']
    omega
  have hlow : byte (of16 a b).toNat 0 = a := by
    apply UInt8.toNat_inj.mp
    rw [byte, hword, UInt8.toNat_ofNat']
    omega
  have hhigh : byte (of16 a b).toNat 1 = b := by
    apply UInt8.toNat_inj.mp
    rw [byte, hword, UInt8.toNat_ofNat', Nat.shiftRight_eq_div_pow]
    omega
  rw [le16, hlow, hhigh]

theorem of32_bytes (w : UInt32) :
    of32 (byte w.toNat 0) (byte w.toNat 1) (byte w.toNat 2) (byte w.toNat 3) = w := by
  apply UInt32.toNat_inj.mp
  have := w.toNat_lt
  simp [of32, byte]
  omega

theorem byte_of32 (a b c d : UInt8) : byte (of32 a b c d).toNat 0 = a ∧
    byte (of32 a b c d).toNat 1 = b ∧ byte (of32 a b c d).toNat 2 = c ∧
    byte (of32 a b c d).toNat 3 = d := by
  have := a.toNat_lt
  have := b.toNat_lt
  have := c.toNat_lt
  have := d.toNat_lt
  have h : (of32 a b c d).toNat =
      a.toNat + 256 * (b.toNat + 256 * (c.toNat + 256 * d.toNat)) := by
    rw [of32, UInt32.toNat_ofNat']
    omega
  refine ⟨?_, ?_, ?_, ?_⟩
  all_goals
    apply UInt8.toNat_inj.mp
    simp only [byte, h, UInt8.toNat_ofNat', Nat.shiftRight_eq_div_pow]
    omega

theorem le32_of32 (a b c d : UInt8) : le32 (of32 a b c d) = [a, b, c, d] := by
  obtain ⟨h₀, h₁, h₂, h₃⟩ := byte_of32 a b c d
  rw [le32, h₀, h₁, h₂, h₃]

theorem of64_halves (w : UInt64) : of64 (high w) (low w) = w := by
  apply UInt64.toNat_inj.mp
  have := w.toNat_lt
  simp [of64, high, low]
  omega

theorem toNat_of64 (h l : UInt32) : (of64 h l).toNat = h.toNat * 0x100000000 + l.toNat := by
  have := h.toNat_lt
  have := l.toNat_lt
  rw [of64, UInt64.toNat_ofNat', Nat.shiftLeft_eq]
  omega

theorem high_of64 (h l : UInt32) : high (of64 h l) = h := by
  apply UInt32.toNat_inj.mp
  have := h.toNat_lt
  have := l.toNat_lt
  rw [high, toNat_of64, UInt32.toNat_ofNat', Nat.shiftRight_eq_div_pow]
  omega

theorem low_of64 (h l : UInt32) : low (of64 h l) = l := by
  apply UInt32.toNat_inj.mp
  have := l.toNat_lt
  rw [low, toNat_of64, UInt32.toNat_ofNat']
  omega

end ActionVm.Word
