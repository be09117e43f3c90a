import ActionVm.Proofs.Decimal.Units

/-!
# Conversion to 32 bits

The conversion of a double to 32 bits cuts it off, takes a remainder, moves it up from below zero,
and cuts it to 32 bits. Each of these steps is exact, so that the answer is the integer part of the
number modulo `2 ^ 32`.

* `unpack_eq_whole`: a double of whole units is a whole number;
* `round_mul_pow`, `unpack_add_period`: the sum that moves a remainder up is exact;
* `toUInt32_of_whole`: a whole number as an unsigned word;
* **`toInt32_of_finite`**: the integer part of a finite number, modulo `2 ^ 32`;
* `toInt32_of_not_finite`, **`toInt32_ofInt`**: other numbers, and integers;
* `cutOff`, **`Binary.truncated_eq`**: integer parts as rationals that are cut off.
-/

namespace ActionVm

open Float.Model UnpackedFloat

/-! ## Whole numbers -/

/-- Numbers of full precision are equal if they are so many units. -/
theorem eq_of_mul_pow_eq {m m' p q : ℕ} (hm : m.log2 = 52) (hm' : m'.log2 = 52) (hpos : 0 < m)
    (hpos' : 0 < m') (h : m * 2 ^ p = m' * 2 ^ q) : m = m' ∧ p = q := by
  have hlog := congrArg Nat.log2 h
  rw [log2_mul_pow hpos, log2_mul_pow hpos'] at hlog
  obtain rfl : p = q := by omega
  exact ⟨Nat.eq_of_mul_eq_mul_right (Nat.two_pow_pos p) h, rfl⟩

/-- What a finite double is made of. -/
theorem unpack_of_finite {x : Float} {b : Binary} (h : Reading.ofFloat x = .finite b) :
    (b.mantissa = 0 ∧ ∃ s, x.toModel.unpack = .zero s) ∨
      ∃ s hm, x.toModel.unpack = .finite s b.mantissa b.exponent hm ∧
        isNegative s = b.negative := by
  rw [Reading.ofFloat_eq] at h
  cases hu : x.toModel.unpack with
  | notANumber =>
    rw [hu] at h
    cases h
  | infinity =>
    rw [hu] at h
    cases h
  | zero s =>
    rw [hu] at h
    cases h
    exact Or.inl ⟨rfl, s, rfl⟩
  | finite s m e hm =>
    rw [hu] at h
    cases h
    exact Or.inr ⟨s, hm, rfl, rfl⟩

/-- **A double of whole units is a whole number.** -/
theorem unpack_eq_whole {x : Float} {b : Binary} (h : Reading.ofFloat x = .finite b) {k : ℕ}
    (hk : 0 < k) (hlt : k < 2 ^ 53) (hunits : b.units = k * Binary.one) :
    ∃ s, x.toModel.unpack = whole s k hk ∧ isNegative s = b.negative := by
  obtain ⟨⟨hmantissa, hlow, -⟩, hfull⟩ := Reading.fits h
  have hplaces := Binary.places_eq
  have hone : 2 ^ 53 ≤ Binary.one := Nat.pow_le_pow_right Nat.two_pos (by omega)
  have hlarge : 2 ^ 53 ≤ b.units := hunits ▸ hone.trans (Nat.le_mul_of_pos_left _ hk)
  have hpos : 0 < b.mantissa := by
    by_contra hzero
    rw [Binary.units, Nat.eq_zero_of_not_pos hzero, Nat.zero_mul] at hlarge
    omega
  -- with the least exponent, the number would be too small
  have hhigh : 2 ^ 52 ≤ b.mantissa := by
    refine hfull.resolve_right fun hleast => ?_
    rw [Binary.units, hleast, show (-1074 + (Binary.places : ℤ)).toNat = 0 by omega] at hlarge
    omega
  have hlog : b.mantissa.log2 = 52 := (Nat.log2_eq_iff hpos.ne').mpr ⟨hhigh, hmantissa⟩
  have hwhole : b.mantissa * 2 ^ (b.exponent + Binary.places).toNat =
      k * 2 ^ (52 - k.log2) * 2 ^ (Binary.places - (52 - k.log2)) := by
    rw [Nat.mul_assoc, ← Nat.pow_add, show 52 - k.log2 + (Binary.places - (52 - k.log2)) =
      Binary.places by omega]
    exact hunits
  obtain ⟨hm, he⟩ := eq_of_mul_pow_eq hlog (log2_whole hk hlt) hpos
    (Nat.mul_pos hk (Nat.two_pow_pos _)) hwhole
  rcases unpack_of_finite h with ⟨hzero, -⟩ | ⟨s, hm', hunpack, hs⟩
  · omega
  · refine ⟨s, hunpack.trans ?_, hs⟩
    rw [whole, finite.injEq]
    exact ⟨rfl, hm, by omega⟩

/-! ## Sums -/

/-- A whole number with any digits after the point is rounded to itself. -/
theorem round_mul_pow {n : ℕ} (hn : 0 < n) (hlt : n < 2 ^ 53) (j : ℕ) (s : Sign) :
    UnpackedFloat.round Format.binary64 s (n * 2 ^ j) (-j) = whole s n hn := by
  have hlog : n.log2 < 53 := (Nat.log2_lt hn.ne').mpr hlt
  have htarget : Format.binary64.targetExponent (totalExponent (n * 2 ^ j) (-j)) =
      -(52 - n.log2 : ℕ) := by
    simp only [Format.targetExponent, totalExponent, log2_mul_pow hn, Format.mantissaBits,
      Format.minExponent]
    omega
  -- the digits are moved up to full precision, unless there are more of them already
  obtain ⟨k, hk⟩ : ∃ k, k = j - (52 - n.log2) := ⟨_, rfl⟩
  have hup : (-(j : ℤ) - -(52 - n.log2 : ℕ)).toNat = 52 - n.log2 - j := by omega
  have hmantissa : n * 2 ^ j * 2 ^ (52 - n.log2 - j) = n * 2 ^ (52 - n.log2) * 2 ^ k := by
    rw [Nat.mul_assoc, Nat.mul_assoc, ← Nat.pow_add, ← Nat.pow_add]
    congr 2
    omega
  have hexponent : -(j : ℤ) - (52 - n.log2 - j : ℕ) = -(52 - n.log2 : ℕ) - (k : ℤ) := by omega
  simp only [UnpackedFloat.round, htarget, decreaseExponent, hup, Nat.shiftLeft_eq, hmantissa,
    hexponent]
  exact round_whole hn hlt k s

/-- The period of conversions to 32 bits. -/
theorem unpack_period : (4294967296 : Float).toModel.unpack =
    .finite .positive (2 ^ 52) (-20) (by decide) := rfl

/-- **A remainder below zero is moved up** without loss. -/
theorem unpack_add_period {x : Float} {k : ℕ} (hk : 0 < k) (hlt : k < 2 ^ 32)
    (h : x.toModel.unpack = whole .negative k hk) :
    (x + 4294967296).toModel.unpack = whole .positive (2 ^ 32 - k) (by omega) := by
  have hlog : k.log2 < 32 := (Nat.log2_lt hk.ne').mpr hlt
  obtain ⟨d, hd⟩ : ∃ d, d = 52 - k.log2 := ⟨_, rfl⟩
  have hmin : min (-(d : ℤ)) (-20) = -d := by omega
  have hshift : (-20 - -(d : ℤ)).toNat = d - 20 := by omega
  have hsame : (-(d : ℤ) - -(d : ℤ)).toNat = 0 := by omega
  have hmantissa : -((k * 2 ^ d : ℕ) : ℤ) + ((2 ^ 52 * 2 ^ (d - 20) : ℕ) : ℤ) =
      ((2 ^ 32 - k) * 2 ^ d : ℕ) := by
    have hpower : 2 ^ 52 * 2 ^ (d - 20) = 2 ^ 32 * 2 ^ d := by
      rw [← Nat.pow_add, ← Nat.pow_add]
      congr 1
      omega
    rw [hpower, Nat.sub_mul, Nat.cast_sub (Nat.mul_le_mul_right _ hlt.le)]
    ring
  have hpos : 0 < (2 ^ 32 - k) * 2 ^ d := Nat.mul_pos (by omega) (Nat.two_pow_pos d)
  have hcompare : compare (((2 ^ 32 - k) * 2 ^ d : ℕ) : ℤ) 0 = .gt :=
    Int.compare_eq_gt.mpr (by exact_mod_cast hpos)
  have hsum : UnpackedFloat.add Format.binary64 (whole .negative k hk)
      (.finite .positive (2 ^ 52) (-20) (by decide)) = whole .positive (2 ^ 32 - k) (by omega) := by
    simp only [whole, ← hd, UnpackedFloat.add, hmin, decreaseExponent, hshift, hsame,
      Nat.shiftLeft_eq, Nat.pow_zero, Nat.mul_one, Sign.apply, hmantissa, UnpackedFloat.normalize,
      hcompare, Int.toNat_natCast]
    exact round_mul_pow (by omega) (by omega) d .positive
  change (Float.Model.pack (UnpackedFloat.add _ x.toModel.unpack
    (4294967296 : Float).toModel.unpack)).unpack = _
  rw [h, unpack_period, hsum]
  exact unpack_pack_whole _ (by omega) _

/-! ## Unsigned words -/

theorem toUInt32_of_zero {x : Float} {s : Sign} (h : x.toModel.unpack = .zero s) :
    x.toUInt32 = 0 := by
  change x.toModel.unpack.toUInt32 = 0
  rw [h]
  rfl

theorem roundToInt_mul_pow (k d : ℕ) (s : Sign) : roundToInt s (k * 2 ^ d) (-d) = s.apply k := by
  have hnone : (-(d : ℤ) - 0).toNat = 0 := by omega
  have hdown : (0 - (-(d : ℤ) - (0 : ℕ))).toNat = d := by omega
  simp only [roundToInt, decreaseExponent, hnone, shiftToExponent, Nat.shiftLeft_zero, hdown,
    ExtendedMantissa.ofMantissaAndAccuracy, shiftRight_mul_pow]

theorem toUInt32_of_whole {x : Float} {k : ℕ} (hk : 0 < k) (hlt : k < 2 ^ 32)
    (h : x.toModel.unpack = whole .positive k hk) : x.toUInt32.toNat = k := by
  change x.toModel.unpack.toUInt32.toNat = k
  rw [h, whole, UnpackedFloat.toUInt32, toInt, roundToInt_mul_pow, Sign.apply, Int.toNat_natCast,
    UInt32.ofNatClamp, dif_pos (show k < UInt32.size from hlt)]
  rfl

/-- Below zero are the negative numbers without zero. -/
theorem lt_zero_iff {x : Float} :
    x < 0 ↔ x.toModel.unpack.compare (.zero .positive) = some .lt := by
  have hzero : (0 : Float).toModel.unpack = .zero .positive := rfl
  change Float.lt x 0 = true ↔ _
  rw [Float.lt, decide_eq_true_iff]
  change x.toModel.unpack.lt (0 : Float).toModel.unpack = true ↔ _
  rw [hzero, UnpackedFloat.lt, beq_iff_eq]

/-! ## Conversion -/

section Conversion

variable {x : Float} {b : Binary}

theorem isFinite_iff : x.isFinite = true ↔ ∃ b, Reading.ofFloat x = .finite b := by
  rw [Reading.ofFloat_eq]
  change x.toModel.unpack.isFinite = true ↔ _
  cases x.toModel.unpack <;> simp [UnpackedFloat.isFinite, Reading.ofUnpacked]

/-- What the period denotes. -/
theorem ofFloat_period : Reading.ofFloat 4294967296 = .finite ⟨false, 2 ^ 52, -20⟩ := by
  rw [Reading.ofFloat_eq, unpack_period]
  rfl

theorem units_period : (⟨false, 2 ^ 52, -20⟩ : Binary).units = 2 ^ 32 * Binary.one := by
  have hplaces := Binary.places_eq
  rw [Binary.units, Binary.one, ← Nat.pow_add, ← Nat.pow_add]
  congr 1
  dsimp only
  omega

/-- A remainder of whole units, moved up from below zero, as an unsigned word. -/
theorem toUInt32_of_remainder (h : Reading.ofFloat x = .finite b) {k : ℕ} (hlt : k < 2 ^ 32)
    (hunits : b.units = k * Binary.one) :
    (if x < 0 then x + 4294967296 else x).toUInt32.toNat =
      if b.negative = true ∧ k ≠ 0 then 2 ^ 32 - k else k := by
  rcases Nat.eq_zero_or_pos k with rfl | hk
  · have hmantissa : b.mantissa = 0 := by
      rw [Binary.units, Nat.zero_mul] at hunits
      exact (Nat.mul_eq_zero.mp hunits).resolve_right (Nat.two_pow_pos _).ne'
    rcases unpack_of_finite h with ⟨-, s, hs⟩ | ⟨s, hm, -⟩
    · rw [if_neg, toUInt32_of_zero hs, if_neg fun h => h.2 rfl]
      · rfl
      · rw [lt_zero_iff, hs]
        cases s <;> decide
    · omega
  · obtain ⟨s, hs, hsign⟩ := unpack_eq_whole h hk (by omega) hunits
    cases s with
    | negative =>
      rw [if_pos (lt_zero_iff.mpr (hs ▸ rfl)), if_pos ⟨hsign.symm, hk.ne'⟩]
      exact toUInt32_of_whole _ (by omega) (unpack_add_period hk hlt hs)
    | positive =>
      rw [if_neg, if_neg, toUInt32_of_whole hk hlt hs]
      · rw [← hsign]
        exact fun h => Bool.false_ne_true h.1
      · rw [lt_zero_iff, hs]
        intro h
        cases h

theorem toInt32_toUInt32_of_toNat {u : UInt32} {i : ℤ} (h : u.toNat = (i % 2 ^ 32).toNat) :
    u.toInt32 = Int32.ofInt i := by
  refine Int32.toBitVec_inj.mp (BitVec.eq_of_toNat_eq ?_)
  change u.toBitVec.toNat = (BitVec.ofInt 32 i).toNat
  rw [BitVec.toNat_ofInt, UInt32.toNat_toBitVec, h]
  rfl

/-- **A finite number converts to its integer part**, modulo `2 ^ 32`. -/
theorem toInt32_of_finite (h : Reading.ofFloat x = .finite b) :
    toInt32 x = Int32.ofInt b.truncated := by
  obtain ⟨t, ht, htsign, htunits⟩ := ofFloat_truncate h
  obtain ⟨r, hr, hrsign, hrunits⟩ := ofFloat_remainder ht ofFloat_period (by decide)
  have hlt : b.wholePart % 2 ^ 32 < 2 ^ 32 := Nat.mod_lt _ (by decide)
  rw [htunits, units_period, Nat.mul_mod_mul_right] at hrunits
  have hword := toUInt32_of_remainder hr hlt hrunits
  rw [hrsign, htsign] at hword
  rw [toInt32, if_pos (isFinite_iff.mpr ⟨b, h⟩)]
  refine toInt32_toUInt32_of_toNat (hword.trans ?_)
  rw [Binary.truncated]
  cases b.negative
  · simp only [Bool.false_eq_true, false_and, if_false]
    omega
  · simp only [true_and, if_true]
    split_ifs <;> omega

/-- NaN and the infinities convert to zero. -/
theorem toInt32_of_not_finite (h : ∀ b, Reading.ofFloat x ≠ .finite b) : toInt32 x = 0 := by
  rw [toInt32, if_neg]
  rw [isFinite_iff]
  exact fun ⟨b, hb⟩ => h b hb

/-- **An integer converts to itself.** -/
theorem toInt32_ofInt (i : Int32) : toInt32 (Float.ofInt i.toInt) = i := by
  obtain ⟨b, hread, hb⟩ := Reading.ofFloat_ofInt (Int32.natAbs_toInt_lt i)
  rw [toInt32_of_finite hread, hb.truncated, Int32.ofInt_toInt]

end Conversion

/-! ## Integer parts as rationals -/

/-- A number as a rational. -/
def Binary.toRat (b : Binary) : ℚ :=
  (if b.negative then -1 else 1) * (b.mantissa * 2 ^ b.exponent)

/-- A rational cut off after the point. -/
def cutOff (q : ℚ) : ℤ := if q < 0 then ⌈q⌉ else ⌊q⌋

theorem Binary.wholePart_eq_floor (b : Binary) :
    (b.wholePart : ℤ) = ⌊(b.mantissa * 2 ^ b.exponent : ℚ)⌋ := by
  obtain ⟨negative, m, e⟩ := b
  cases e with
  | ofNat k =>
    have hvalue : (m * 2 ^ Int.ofNat k : ℚ) = ((m * 2 ^ k : ℕ) : ℤ) := by
      push_cast
      rfl
    rw [hvalue, Int.floor_intCast, ← Nat.shiftLeft_eq]
    rfl
  | negSucc k =>
    have hvalue : (m * 2 ^ Int.negSucc k : ℚ) = (m : ℚ) / ((2 ^ (k + 1) : ℕ) : ℚ) := by
      rw [zpow_negSucc]
      push_cast
      rfl
    rw [hvalue, Rat.floor_natCast_div_natCast, ← Int.natCast_div, ← Nat.shiftRight_eq_div_pow]
    rfl

/-- **The integer part** is the rational cut off after the point. -/
theorem Binary.truncated_eq (b : Binary) : b.truncated = cutOff b.toRat := by
  have hpos : (0 : ℚ) ≤ b.mantissa * 2 ^ b.exponent := by positivity
  rw [Binary.truncated, b.wholePart_eq_floor, toRat, cutOff]
  generalize (b.mantissa * 2 ^ b.exponent : ℚ) = q at *
  cases b.negative
  · rw [if_neg Bool.false_ne_true, if_neg Bool.false_ne_true, one_mul, if_neg hpos.not_gt]
  · rw [if_pos rfl, if_pos rfl, neg_one_mul]
    split_ifs with hneg
    · rw [Int.ceil_neg]
    · have hzero : q = 0 := le_antisymm (by linarith) hpos
      rw [hzero]
      simp

/-- A whole number is its integer part. -/
theorem Binary.toRat_of_isWhole {b : Binary} (h : b.isWhole = true) : b.toRat = b.truncated := by
  have hwhole : (b.mantissa * 2 ^ b.exponent : ℚ) = b.wholePart := by
    obtain ⟨negative, m, e⟩ := b
    cases e with
    | ofNat k =>
      change (m * 2 ^ Int.ofNat k : ℚ) = (m <<< k : ℕ)
      rw [Nat.shiftLeft_eq]
      push_cast
      rfl
    | negSucc k =>
      change (m * 2 ^ Int.negSucc k : ℚ) = (m >>> (k + 1) : ℕ)
      rw [Nat.shiftRight_eq_div_pow, zpow_negSucc,
        Nat.cast_div (pow_dvd_of_isWhole h) (by positivity)]
      push_cast
      rfl
  rw [toRat, hwhole, truncated]
  cases b.negative <;> simp

theorem Binary.Denotes.toRat {b : Binary} {i : ℤ} (h : b.Denotes i) : b.toRat = i := by
  rw [Binary.toRat_of_isWhole h.isWhole, h.truncated]

end ActionVm
