import ActionVm.Proofs.Decimal.Whole

/-!
# Doubles in units

Every double is a whole number of the smallest positive one. In these units the number of a double
is a natural number beside its sign, and cutting off and division with remainder are exact.

* `Binary.units`, `Binary.one`: a number in units, and how many of them make one;
* `Binary.Fits`: the mantissas and exponents that a double can have, with `Reading.fits`;
* `doublePattern`, `ofFloat_doublePattern`: bit patterns by their fields;
* **`Binary.ofFloat_toFloat`**: a number that fits is a double of the same units;
* `Binary.units_of_isWhole`, `Binary.wholePart_le`: whole parts in units;
* **`ofFloat_truncate`**, **`ofFloat_remainder`**: cutting off and remainders in units.
-/

namespace ActionVm

namespace Binary

/-- The place of a unit after the point. It is not computed with. -/
@[irreducible] def places : ℕ := 1074

theorem places_eq : places = 1074 := by rw [places]

/-- How many units make one. -/
def one : ℕ := 2 ^ places

/-- A number in units, without its sign. -/
def units (b : Binary) : ℕ := b.mantissa * 2 ^ (b.exponent + places).toNat

/-- The mantissas and exponents of doubles, and of the numbers that are doubles after their digits
are moved up. -/
structure Fits (b : Binary) : Prop where
  mantissa : b.mantissa < 2 ^ 53
  low : -1074 ≤ b.exponent
  high : b.exponent ≤ 971

/-- The mantissa has all its digits, or the exponent is the least one. -/
def IsFull (b : Binary) : Prop := 2 ^ 52 ≤ b.mantissa ∨ b.exponent = -1074

end Binary

/-! ## Bit patterns -/

/-- The bit pattern of the given fields. -/
def doublePattern (negative : Bool) (field fraction : ℕ) : ℕ :=
  (if negative then 2 ^ 63 else 0) + field * 2 ^ 52 + fraction

theorem decode_eq (n : ℕ) : Format.double.decode n =
    if n / 2 ^ 52 % 2 ^ 11 = 2047 then
      if n % 2 ^ 52 = 0 then .infinite (n / 2 ^ 63 % 2 == 1) else .nan
    else if n / 2 ^ 52 % 2 ^ 11 = 0 then .finite ⟨n / 2 ^ 63 % 2 == 1, n % 2 ^ 52, -1074⟩
    else .finite
      ⟨n / 2 ^ 63 % 2 == 1, 2 ^ 52 + n % 2 ^ 52, -1074 + (n / 2 ^ 52 % 2 ^ 11 : ℕ) - 1⟩ := by
  simp only [← Nat.shiftRight_eq_div_pow]
  rfl

section Pattern

variable (negative : Bool) {field fraction : ℕ} (hfield : field < 2047)
  (hfraction : fraction < 2 ^ 52)

include hfield hfraction

theorem doublePattern_lt : doublePattern negative field fraction < 2 ^ 64 := by
  rw [doublePattern]
  split <;> omega

theorem field_doublePattern : doublePattern negative field fraction / 2 ^ 52 % 2 ^ 11 = field := by
  rw [doublePattern]
  split <;> omega

theorem decode_doublePattern : Format.double.decode (doublePattern negative field fraction) =
    if field = 0 then .finite ⟨negative, fraction, -1074⟩
    else .finite ⟨negative, 2 ^ 52 + fraction, -1074 + field - 1⟩ := by
  have hlow : doublePattern negative field fraction % 2 ^ 52 = fraction := by
    rw [doublePattern]
    split <;> omega
  have hsign : (doublePattern negative field fraction / 2 ^ 63 % 2 == 1) = negative := by
    rw [doublePattern]
    cases negative <;> simp <;> omega
  rw [decode_eq, hlow, field_doublePattern negative hfield hfraction, hsign, if_neg hfield.ne]

/-- **A pattern below those of infinities and NaN** is kept by a double. -/
theorem ofFloat_doublePattern :
    Reading.ofFloat (Float.ofBits (UInt64.ofNat (doublePattern negative field fraction))) =
      if field = 0 then .finite ⟨negative, fraction, -1074⟩
      else .finite ⟨negative, 2 ^ 52 + fraction, -1074 + field - 1⟩ := by
  have hlt := doublePattern_lt negative hfield hfraction
  have hkept := field_doublePattern negative hfield hfraction
  rw [← decode_doublePattern negative hfield hfraction]
  generalize doublePattern negative field fraction = n at *
  have hword : (UInt64.ofNat n).toNat = n := UInt64.toNat_ofNat_of_lt' hlt
  have hvalid : Float.Model.Format.binary64.Valid (UInt64.ofNat n).toBitVec := by
    refine ⟨fun htop => absurd (congrArg BitVec.toNat htop) ?_⟩
    rw [toNat_unpackExponent, Nat.shiftRight_eq_div_pow, UInt64.toNat_toBitVec, hword, hkept]
    exact hfield.ne
  have hbits : (Float.ofBits (UInt64.ofNat n)).toBits = UInt64.ofNat n :=
    congrArg UInt64.ofBitVec (Float.Model.UnpackedFloat.pack_unpack_of_valid hvalid)
  rw [Reading.ofFloat, hbits, hword]

end Pattern

/-- What a double denotes has the mantissa and the exponent of one. -/
theorem Reading.fits {x : Float} {b : Binary} (h : ofFloat x = .finite b) : b.Fits ∧ b.IsFull := by
  rw [ofFloat, decode_eq] at h
  generalize x.toBits.toNat = n at h
  have hfraction := Nat.mod_lt n (Nat.two_pow_pos 52)
  split_ifs at h with htop _ hleast
  · cases h
    exact ⟨⟨by dsimp only; omega, by dsimp only; omega, by dsimp only; omega⟩, Or.inr rfl⟩
  · cases h
    exact ⟨⟨by dsimp only; omega, by dsimp only; omega, by dsimp only; omega⟩,
      Or.inl (Nat.le_add_right _ _)⟩

/-! ## Numbers that are doubles -/

namespace Binary

variable {b : Binary}

/-- The bit pattern of a number that fits: its digits are moved up, as far as the exponent goes
down. -/
theorem bits_of_fits (h : b.Fits) (hpos : 0 < b.mantissa) :
    ∃ k : ℕ, b.mantissa * 2 ^ k < 2 ^ 53 ∧ -1074 ≤ b.exponent - k ∧
      (2 ^ 52 ≤ b.mantissa * 2 ^ k ∨ b.exponent - k = -1074) ∧
      b.bits .double = if b.mantissa * 2 ^ k < 2 ^ 52
        then doublePattern b.negative 0 (b.mantissa * 2 ^ k)
        else doublePattern b.negative (b.exponent - k + 1074).toNat (b.mantissa * 2 ^ k) := by
  obtain ⟨hmantissa, hlow, -⟩ := h
  have hlog : b.mantissa.log2 < 53 := (Nat.log2_lt hpos.ne').mpr hmantissa
  obtain ⟨hlowest, hhighest⟩ := (Nat.log2_eq_iff hpos.ne').mp (rfl : b.mantissa.log2 = _)
  obtain ⟨k, hk⟩ : ∃ k, k = min (52 - b.mantissa.log2) (b.exponent + 1074).toNat := ⟨_, rfl⟩
  refine ⟨k, ?_, by omega, ?_, ?_⟩
  · calc b.mantissa * 2 ^ k < 2 ^ (b.mantissa.log2 + 1) * 2 ^ k :=
          Nat.mul_lt_mul_of_pos_right hhighest (Nat.two_pow_pos k)
      _ = 2 ^ (b.mantissa.log2 + 1 + k) := (Nat.pow_add ..).symm
      _ ≤ 2 ^ 53 := Nat.pow_le_pow_right Nat.two_pos (by omega)
  · by_cases hfull : k = 52 - b.mantissa.log2
    · refine Or.inl ?_
      calc 2 ^ 52 = 2 ^ (b.mantissa.log2 + k) := by rw [show b.mantissa.log2 + k = 52 by omega]
        _ = 2 ^ b.mantissa.log2 * 2 ^ k := Nat.pow_add ..
        _ ≤ b.mantissa * 2 ^ k := Nat.mul_le_mul_right _ hlowest
    · exact Or.inr (by omega)
  · have hexponent : max (b.exponent + b.mantissa.log2 - Format.double.fractionBits)
        Format.double.leastExponent = b.exponent - k := by
      change max (b.exponent + b.mantissa.log2 - (52 : ℕ)) (-1074) = _
      omega
    have hup : (b.exponent - (b.exponent - k)).toNat = k := by omega
    have hdown : (-(b.exponent - (b.exponent - k))).toNat = 0 := by omega
    rw [bits, if_neg hpos.ne']
    simp only [hexponent, hup, hdown, Nat.shiftRight_zero, Nat.shiftLeft_eq, Nat.one_mul]
    rw [show Format.double.leastExponent = -1074 from rfl, Int.sub_neg]
    rfl

/-- The fields of the bit pattern of a number that fits. -/
theorem exists_fields (h : b.Fits) : ∃ field fraction, field < 2047 ∧ fraction < 2 ^ 52 ∧
    b.bits .double = doublePattern b.negative field fraction ∧
    b.units = if field = 0 then fraction else (2 ^ 52 + fraction) * 2 ^ (field - 1) := by
  rcases Nat.eq_zero_or_pos b.mantissa with hzero | hpos
  · refine ⟨0, 0, by decide, by decide, ?_, ?_⟩
    · rw [bits, if_pos hzero]
      rfl
    · rw [units, hzero, Nat.zero_mul]
      rfl
  · obtain ⟨k, hlt, hlow, hfull, hbits⟩ := bits_of_fits h hpos
    have hplaces := places_eq
    have hunits : b.units = b.mantissa * 2 ^ k * 2 ^ (b.exponent - k + 1074).toNat := by
      rw [units, Nat.mul_assoc, ← Nat.pow_add]
      congr 2
      omega
    by_cases hsmall : b.mantissa * 2 ^ k < 2 ^ 52
    · have hleast : b.exponent - k = -1074 := hfull.resolve_left (Nat.not_le.mpr hsmall)
      rw [if_pos hsmall] at hbits
      refine ⟨0, b.mantissa * 2 ^ k, by decide, hsmall, hbits, ?_⟩
      rw [hunits, hleast, if_pos rfl]
      exact Nat.mul_one _
    · have hhigh := h.high
      rw [if_neg hsmall] at hbits
      refine ⟨(b.exponent - k + 1074).toNat + 1, b.mantissa * 2 ^ k - 2 ^ 52, by omega,
        by omega, ?_, ?_⟩
      · rw [hbits, doublePattern, doublePattern]
        omega
      · rw [hunits, if_neg (Nat.succ_ne_zero _), Nat.add_sub_cancel,
          Nat.add_sub_cancel' (Nat.not_lt.mp hsmall)]

/-- **A number that fits is a double** of the same sign and the same units. -/
theorem ofFloat_toFloat (h : b.Fits) :
    ∃ b', Reading.ofFloat b.toFloat = .finite b' ∧ b'.negative = b.negative ∧
      b'.units = b.units := by
  obtain ⟨field, fraction, hfield, hfraction, hbits, hunits⟩ := exists_fields h
  rw [toFloat, hbits, ofFloat_doublePattern b.negative hfield hfraction, hunits]
  by_cases hzero : field = 0
  · rw [if_pos hzero, if_pos hzero]
    refine ⟨_, rfl, rfl, ?_⟩
    rw [units, places_eq]
    exact Nat.mul_one _
  · rw [if_neg hzero, if_neg hzero]
    refine ⟨_, rfl, rfl, ?_⟩
    rw [units, places_eq]
    congr 2
    change (-1074 + (field : ℤ) - 1 + (1074 : ℕ)).toNat = _
    omega

/-! ## Whole parts -/

/-- One is so many units of each place after the point. -/
theorem one_eq {k : ℕ} (h : -1074 ≤ Int.negSucc k) :
    one = 2 ^ (k + 1) * 2 ^ (Int.negSucc k + places).toNat := by
  have hplaces := places_eq
  rw [one, ← Nat.pow_add]
  congr 1
  omega

theorem pow_dvd_of_isWhole {negative : Bool} {m k : ℕ}
    (h : (⟨negative, m, .negSucc k⟩ : Binary).isWhole = true) : 2 ^ (k + 1) ∣ m := by
  refine Nat.dvd_of_mod_eq_zero ?_
  rw [← Nat.one_shiftLeft]
  exact beq_iff_eq.mp h

/-- A whole number is its whole part. -/
theorem units_of_isWhole (h : b.Fits) (hwhole : b.isWhole = true) :
    b.units = b.wholePart * one := by
  obtain ⟨negative, m, e⟩ := b
  cases e with
  | ofNat k =>
    change m * 2 ^ (k + places) = m <<< k * one
    rw [Nat.shiftLeft_eq, Nat.pow_add, ← Nat.mul_assoc]
    rfl
  | negSucc k =>
    change m * 2 ^ (Int.negSucc k + places).toNat = m >>> (k + 1) * one
    rw [one_eq h.low, ← Nat.mul_assoc, Nat.shiftRight_eq_div_pow,
      Nat.div_mul_cancel (pow_dvd_of_isWhole hwhole)]

/-- What is not whole has a short whole part. -/
theorem wholePart_le (hwhole : ¬ b.isWhole = true) : b.wholePart ≤ b.mantissa := by
  obtain ⟨negative, m, e⟩ := b
  cases e with
  | ofNat k => exact absurd rfl hwhole
  | negSucc k => exact Nat.shiftRight_le m (k + 1)

/-- With more digits and a smaller exponent, a number has the same units. -/
theorem units_shiftLeft {e : ℤ} (hle : e ≤ b.exponent) (hlow : -1074 ≤ e) :
    b.mantissa <<< (b.exponent - e).toNat * 2 ^ (e + places).toNat = b.units := by
  have hplaces := places_eq
  rw [Nat.shiftLeft_eq, Nat.mul_assoc, ← Nat.pow_add, units]
  congr 2
  omega

end Binary

/-! ## Cutting off and remainders -/

section Steps

variable {x y : Float} {a b : Binary}

/-- **Cutting off after the point** leaves the whole part. -/
theorem ofFloat_truncate (h : Reading.ofFloat x = .finite b) :
    ∃ b', Reading.ofFloat (truncate x) = .finite b' ∧ b'.negative = b.negative ∧
      b'.units = b.wholePart * Binary.one := by
  obtain ⟨hfits, -⟩ := Reading.fits h
  rw [truncate, h]
  dsimp only
  split_ifs with hwhole
  · exact ⟨b, h, rfl, Binary.units_of_isWhole hfits hwhole⟩
  · have hshort : (⟨b.negative, b.wholePart, 0⟩ : Binary).Fits :=
      ⟨(Binary.wholePart_le hwhole).trans_lt hfits.mantissa, show (-1074 : ℤ) ≤ 0 by decide,
        show (0 : ℤ) ≤ 971 by decide⟩
    obtain ⟨b', hread, hsign, hunits⟩ := Binary.ofFloat_toFloat hshort
    refine ⟨b', hread, hsign, hunits.trans ?_⟩
    rw [Binary.units, zero_add, Int.toNat_natCast]
    rfl

/-- **The remainder of a division** is the remainder in units. -/
theorem ofFloat_remainder (hx : Reading.ofFloat x = .finite a) (hy : Reading.ofFloat y = .finite b)
    (hpos : 0 < b.mantissa) :
    ∃ b', Reading.ofFloat (remainder x y) = .finite b' ∧ b'.negative = a.negative ∧
      b'.units = a.units % b.units := by
  obtain ⟨ha, -⟩ := Reading.fits hx
  obtain ⟨hb, -⟩ := Reading.fits hy
  have hlow := le_min ha.low hb.low
  rw [remainder, hx, hy]
  dsimp only
  rw [if_neg hpos.ne']
  have hfits : Binary.Fits ⟨a.negative,
      a.mantissa <<< (a.exponent - min a.exponent b.exponent).toNat %
        b.mantissa <<< (b.exponent - min a.exponent b.exponent).toNat,
      min a.exponent b.exponent⟩ := by
    refine ⟨?_, hlow, (min_le_left _ _).trans ha.high⟩
    dsimp only
    rcases le_total a.exponent b.exponent with hle | hle
    · -- the divisor only gets longer, and the remainder is no longer than the number itself
      rw [min_eq_left hle, sub_self]
      exact (Nat.mod_le _ _).trans_lt ha.mantissa
    · -- the remainder is less than the divisor
      rw [min_eq_right hle, sub_self]
      exact (Nat.mod_lt _ hpos).trans hb.mantissa
  obtain ⟨b', hread, hsign, hunits⟩ := Binary.ofFloat_toFloat hfits
  refine ⟨b', hread, hsign, hunits.trans ?_⟩
  rw [Binary.units, ← Nat.mul_mod_mul_right, Binary.units_shiftLeft (min_le_left _ _) hlow,
    Binary.units_shiftLeft (min_le_right _ _) hlow]

end Steps

end ActionVm
