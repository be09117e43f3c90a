import ActionVm.Value
import Mathlib

/-!
# Whole numbers as doubles

An integer of less than 53 bits is a double exactly, and conversions of it give the integer back.

* `Reading.ofUnpacked`, **`Reading.ofFloat_eq`**: what a double denotes, by its sign, mantissa and
  exponent;
* `unpack_pack_of_log2`, `roundWithAccuracy_mul_pow`: numbers of full precision are packed and
  rounded without loss;
* `whole`, `unpack_ofNat`: a whole number with its digits moved up to full precision;
* `isNaN_unpack_pack`, `isNaN_ofScientific`, `isNaN_ofInt`: numbers that are no NaN;
* **`Reading.ofFloat_ofInt`**: what an integer denotes as a double;
* **`Value.toCount_integer`**: an integer value as a count.
-/

namespace ActionVm

open Float.Model UnpackedFloat

/-! ## What a double denotes -/

/-- The sign of negative numbers. -/
def isNegative : Sign → Bool
  | .negative => true
  | .positive => false

/-- What an unpacked number denotes. -/
def Reading.ofUnpacked : UnpackedFloat → Reading
  | .notANumber => .nan
  | .infinity s => .infinite (isNegative s)
  | .zero s => .finite ⟨isNegative s, 0, -1074⟩
  | .finite s m e _ => .finite ⟨isNegative s, m, e⟩

theorem toNat_unpackMantissa (b : BitVec 64) :
    (@unpackMantissa Format.binary64 b).toNat = b.toNat % 2 ^ 52 := by
  simp [unpackMantissa]

theorem toNat_unpackExponent (b : BitVec 64) :
    (@unpackExponent Format.binary64 b).toNat = b.toNat >>> 52 % 2 ^ 11 := by
  simp [unpackExponent]

theorem isNegative_unpackSign (b : BitVec 64) :
    isNegative (Sign.ofBitVec (@unpackSign Format.binary64 b)) =
      (b.toNat >>> 63 % 2 == 1) := by
  have h : (@unpackSign Format.binary64 b).toNat = b.toNat >>> 63 % 2 := by
    simp [unpackSign]
  rw [← h]
  generalize @unpackSign Format.binary64 b = sign
  revert sign
  decide

theorem toNat_implicit_append (m : BitVec 52) : (1#1 ++ m).toNat = 2 ^ 52 + m.toNat := by
  rw [BitVec.toNat_append, ← Nat.shiftLeft_add_eq_or_of_lt m.isLt]
  rfl

/-- A bit pattern is decoded by its fields. -/
theorem decode_double (b : BitVec 64) :
    Format.double.decode b.toNat =
      let field := @unpackExponent Format.binary64 b
      let fraction := @unpackMantissa Format.binary64 b
      let negative := isNegative (Sign.ofBitVec (@unpackSign Format.binary64 b))
      if field = -1#_ then if fraction = 0#_ then .infinite negative else .nan
      else if field = 0#_ then .finite ⟨negative, fraction.toNat, -1074⟩
      else .finite ⟨negative, 2 ^ 52 + fraction.toNat, -1074 + field.toNat - 1⟩ := by
  simp only [← BitVec.toNat_inj, toNat_unpackMantissa, toNat_unpackExponent, isNegative_unpackSign]
  rfl

/-- **A double denotes what its sign, mantissa and exponent say.** -/
theorem Reading.ofFloat_eq (x : Float) : ofFloat x = ofUnpacked x.toModel.unpack := by
  change Format.double.decode x.toModel.toBits.toBitVec.toNat =
    ofUnpacked (UnpackedFloat.unpack Format.binary64 x.toModel.toBits.toBitVec)
  generalize x.toModel.toBits.toBitVec = b
  rw [decode_double, UnpackedFloat.unpack]
  dsimp only
  by_cases htop : @unpackExponent Format.binary64 b = -1#_
  · rw [if_pos htop, if_pos htop]
    split_ifs <;> rfl
  rw [if_neg htop, if_neg htop]
  by_cases hzero : @unpackExponent Format.binary64 b = 0#_
  · rw [if_pos hzero, if_pos hzero]
    split_ifs with hnone
    · rw [hnone]
      rfl
    · rw [hzero]
      rfl
  · rw [if_neg hzero, if_neg hzero, ofUnpacked, toNat_implicit_append]
    congr 2
    change _ = _ - ((1023 : ℤ) + 52)
    omega

/-! ## Numbers of full precision -/

/-- A number of full precision is unpacked as it was packed. -/
theorem unpack_pack_of_log2 {m : ℕ} (hm : 0 < m) (hlog : m.log2 = 52) {e : ℤ} (he : -1074 ≤ e)
    (he' : e ≤ 971) (s : Sign) :
    (Float.Model.pack (.finite s m e hm)).unpack = .finite s m e hm := by
  obtain ⟨hlow, hhigh⟩ := (Nat.log2_eq_iff hm.ne').mp hlog
  have hbias : (e + (Format.binary64.exponentBias : ℤ) + (52 : ℕ)).toNat = (e + 1075).toNat := by
    change (e + 1023 + 52).toNat = _
    omega
  have hpack : UnpackedFloat.pack Format.binary64 (.finite s m e hm) =
      packComponents Format.binary64 s (BitVec.ofNat 11 (e + 1075).toNat) (BitVec.ofNat 52 m) := by
    simp only [UnpackedFloat.pack, hbias, hlog]
    rw [if_neg (by omega)]
    rfl
  have hfield : (BitVec.ofNat 11 (e + 1075).toNat).toNat = (e + 1075).toNat := by
    rw [BitVec.toNat_ofNat, Nat.mod_eq_of_lt (by omega)]
  have hinside : BitVec.ofNat 11 (e + 1075).toNat ≠ -1#_ ∧
      BitVec.ofNat 11 (e + 1075).toNat ≠ 0#_ := by
    rw [ne_eq, ne_eq, ← BitVec.toNat_inj, ← BitVec.toNat_inj, hfield]
    change ¬ (e + 1075).toNat = 2047 ∧ ¬ (e + 1075).toNat = 0
    omega
  have hmantissa : (1#1 ++ BitVec.ofNat 52 m).toNat = m := by
    rw [toNat_implicit_append, BitVec.toNat_ofNat]
    omega
  change UnpackedFloat.unpack Format.binary64 (UnpackedFloat.pack Format.binary64 _) = _
  rw [hpack, UnpackedFloat.unpack]
  simp only [unpackMantissa_packComponents, unpackExponent_packComponents,
    unpackSign_packComponents, hinside.1, hinside.2, if_false, hfield, hmantissa, finite.injEq,
    true_and]
  refine ⟨by cases s <;> rfl, ?_⟩
  change _ - ((1023 : ℤ) + 52) = e
  omega

theorem shiftRight_mul_pow (m k : ℕ) :
    (⟨m * 2 ^ k, false, false⟩ : ExtendedMantissa) >>> k = ⟨m, false, false⟩ := by
  induction k generalizing m with
  | zero =>
    rw [Nat.pow_zero, Nat.mul_one]
    rfl
  | succ k ih =>
    change ((⟨m * 2 ^ (k + 1), false, false⟩ : ExtendedMantissa) >>> k).shiftRightOne = _
    rw [Nat.pow_succ, Nat.mul_comm (2 ^ k), ← Nat.mul_assoc, ih]
    simp [ExtendedMantissa.shiftRightOne]

theorem log2_mul_pow {m : ℕ} (hm : 0 < m) (k : ℕ) : (m * 2 ^ k).log2 = m.log2 + k := by
  induction k with
  | zero => rw [Nat.pow_zero, Nat.mul_one, Nat.add_zero]
  | succ k ih =>
    rw [Nat.pow_succ, ← Nat.mul_assoc, Nat.mul_comm _ 2,
      Nat.log2_two_mul (Nat.mul_pos hm (Nat.two_pow_pos k)).ne', ih, Nat.add_assoc]

theorem shiftToTargetExponent_mul_pow {m : ℕ} (hm : 0 < m) (hlog : m.log2 = 52) {e : ℤ}
    (he : -1074 ≤ e) (k : ℕ) :
    shiftToTargetExponent Format.binary64 (m * 2 ^ k) (e - k) .exact = (⟨m, false, false⟩, e) := by
  have htarget : Format.binary64.targetExponent (totalExponent (m * 2 ^ k) (e - k)) = e := by
    simp only [Format.targetExponent, totalExponent, log2_mul_pow hm, hlog, Format.mantissaBits,
      Format.minExponent]
    omega
  simp only [shiftToTargetExponent, htarget, shiftToExponent]
  rw [show (e - (e - k)).toNat = k by omega]
  simp only [ExtendedMantissa.ofMantissaAndAccuracy, shiftRight_mul_pow]
  rw [show e - (k : ℤ) + k = e by omega]

/-- Rounding to full precision leaves a number alone whose further digits are zero. -/
theorem roundWithAccuracy_mul_pow {m : ℕ} (hm : 0 < m) (hlog : m.log2 = 52) {e : ℤ}
    (he : -1074 ≤ e) (k : ℕ) (s : Sign) :
    roundWithAccuracy Format.binary64 s (m * 2 ^ k) (e - k) .exact = .finite s m e hm := by
  -- the second shift, after rounding, finds full precision already
  have hagain := shiftToTargetExponent_mul_pow hm hlog he 0
  rw [Nat.pow_zero, Nat.mul_one, Nat.cast_zero, sub_zero] at hagain
  simp only [roundWithAccuracy, shiftToTargetExponent_mul_pow hm hlog he,
    ExtendedMantissa.roundedMantissa, ExtendedMantissa.accuracy, Accuracy.roundToNearestEven,
    hagain, hm.ne', ↓reduceDIte]

/-! ## Whole numbers -/

/-- A whole number of less than 53 bits, with its digits moved up to full precision. -/
def whole (s : Sign) (n : ℕ) (hn : 0 < n) : UnpackedFloat :=
  .finite s (n * 2 ^ (52 - n.log2)) (-(52 - n.log2 : ℕ)) (Nat.mul_pos hn (Nat.two_pow_pos _))

section Whole

variable {n : ℕ} (hn : 0 < n) (hlt : n < 2 ^ 53)

include hn hlt

theorem log2_whole : (n * 2 ^ (52 - n.log2)).log2 = 52 := by
  have hlog : n.log2 < 53 := (Nat.log2_lt hn.ne').mpr hlt
  rw [log2_mul_pow hn]
  omega

theorem unpack_pack_whole (s : Sign) : (Float.Model.pack (whole s n hn)).unpack = whole s n hn :=
  unpack_pack_of_log2 _ (log2_whole hn hlt) (by omega) (by omega) s

theorem round_whole (k : ℕ) (s : Sign) :
    roundWithAccuracy Format.binary64 s (n * 2 ^ (52 - n.log2) * 2 ^ k)
      (-(52 - n.log2 : ℕ) - (k : ℤ)) .exact = whole s n hn :=
  roundWithAccuracy_mul_pow _ (log2_whole hn hlt) (by omega) k s

theorem ofNat_eq_whole : UnpackedFloat.ofNat Format.binary64 n = whole .positive n hn := by
  have hlog : n.log2 < 53 := (Nat.log2_lt hn.ne').mpr hlt
  have hcompare : compare (n : ℤ) 0 = .gt := Int.compare_eq_gt.mpr (by omega)
  have htarget : Format.binary64.targetExponent (totalExponent n 0) = -(52 - n.log2 : ℕ) := by
    simp only [Format.targetExponent, totalExponent, Format.mantissaBits, Format.minExponent]
    omega
  have hround := round_whole hn hlt 0 .positive
  rw [Nat.pow_zero, Nat.mul_one, Nat.cast_zero, sub_zero] at hround
  rw [UnpackedFloat.ofNat, UnpackedFloat.ofInt, UnpackedFloat.normalize, hcompare]
  simp only [UnpackedFloat.round, decreaseExponent, htarget, Int.toNat_natCast, Nat.shiftLeft_eq]
  rw [show (0 - -((52 - n.log2 : ℕ) : ℤ)).toNat = 52 - n.log2 by omega, zero_sub, hround]

/-- A natural number of less than 53 bits is a double exactly. -/
theorem unpack_ofNat : (Float.ofNat n).toModel.unpack = whole .positive n hn := by
  have hunit : (Float.exactlyRepresentablePowersOfTen[0]).toModel.unpack =
      .finite .positive (2 ^ 52) (-52) (by decide) := rfl
  have hword : n.toUInt64.toFloat.toModel.unpack = whole .positive n hn := by
    change (Float.Model.pack (UnpackedFloat.ofNat Format.binary64 n.toUInt64.toNat)).unpack = _
    rw [Nat.toUInt64_eq, UInt64.toNat_ofNat_of_lt' (by change n < 2 ^ 64; omega),
      ofNat_eq_whole hn hlt, unpack_pack_whole hn hlt]
  -- a number of less than 53 bits is read as its product with a power of ten, here the unit
  have hproduct : Float.ofNat n =
      n.toUInt64.toFloat * Float.exactlyRepresentablePowersOfTen[0] := by
    change Float.ofScientific n false 0 = _
    rw [Float.ofScientific, dif_pos ⟨hlt, by decide⟩]
    rfl
  rw [hproduct]
  change (Float.Model.pack (UnpackedFloat.mul _ n.toUInt64.toFloat.toModel.unpack
    (Float.exactlyRepresentablePowersOfTen[0]).toModel.unpack)).unpack = _
  rw [hunit, hword]
  exact (congrArg (fun u => (Float.Model.pack u).unpack) (round_whole hn hlt 52 .positive)).trans
    (unpack_pack_whole hn hlt .positive)

theorem unpack_neg_ofNat : (-Float.ofNat n).toModel.unpack = whole .negative n hn := by
  change (Float.Model.pack (Float.ofNat n).toModel.unpack.neg).unpack = _
  rw [unpack_ofNat hn hlt]
  exact unpack_pack_whole hn hlt .negative

end Whole

/-! ## Numbers that are no NaN -/

theorem isNaN_unpack_packComponents {s : Sign} {field : BitVec 11} {fraction : BitVec 52}
    (h : field ≠ -1#_ ∨ fraction = 0#_) :
    (UnpackedFloat.unpack Format.binary64
      (packComponents Format.binary64 s field fraction)).isNaN = false := by
  simp only [UnpackedFloat.unpack, unpackExponent_packComponents, unpackMantissa_packComponents]
  split_ifs with htop hzero
  · rfl
  · exact absurd (h.resolve_left fun hne => hne htop) hzero
  all_goals rfl

/-- Only NaN is packed as NaN. -/
theorem isNaN_unpack_pack {u : UnpackedFloat} (h : u.isNaN = false) :
    (Float.Model.pack u).unpack.isNaN = false := by
  change (UnpackedFloat.unpack Format.binary64 (UnpackedFloat.pack Format.binary64 u)).isNaN = false
  cases u with
  | notANumber => cases h
  | infinity s => exact isNaN_unpack_packComponents (Or.inr rfl)
  | zero s => exact isNaN_unpack_packComponents (Or.inr rfl)
  | finite s m e hm =>
    simp only [UnpackedFloat.pack]
    split_ifs with hlarge hfull
    · exact isNaN_unpack_packComponents (Or.inr rfl)
    · refine isNaN_unpack_packComponents (Or.inl fun htop => hlarge ?_)
      have htop := congrArg BitVec.toNat htop
      rw [BitVec.toNat_ofNat] at htop
      change _ = 2047 at htop
      change 2 ^ 11 ≤ _
      omega
    · exact isNaN_unpack_packComponents (Or.inl (by decide))

theorem isNaN_neg {x : Float} (h : x.isNaN = false) : (-x).isNaN = false := by
  refine isNaN_unpack_pack ?_
  change x.toModel.unpack.isNaN = false at h
  revert h
  cases x.toModel.unpack <;> exact id

theorem unpack_power {e : ℕ} (he : e < Float.exactlyRepresentablePowersOfTen.size) :
    ∃ s m k hm, (Float.exactlyRepresentablePowersOfTen[e]).toModel.unpack = .finite s m k hm := by
  have hall : ∀ i : Fin 23, (match (Float.exactlyRepresentablePowersOfTen[i]).toModel.unpack with
    | .finite .. => true
    | _ => false) = true := by decide +kernel
  have h := hall ⟨e, he⟩
  split at h
  · next heq => exact ⟨_, _, _, _, heq⟩
  · cases h

theorem isNaN_roundWithAccuracy (spec : Float.Model.Format) (s : Sign) (m : ℕ) (e : ℤ)
    (accuracy : Accuracy) : (roundWithAccuracy spec s m e accuracy).isNaN = false := by
  simp only [roundWithAccuracy]
  split_ifs <;> rfl

section Finite

variable {u : UnpackedFloat} (hu : u.isFinite = true) (s : Sign) {m : ℕ} (e : ℤ) (hm : 0 < m)

include hu

theorem isNaN_mul_finite :
    (UnpackedFloat.mul Format.binary64 u (.finite s m e hm)).isNaN = false := by
  cases u with
  | notANumber | infinity => cases hu
  | zero => rfl
  | finite => exact isNaN_roundWithAccuracy ..

theorem isNaN_div_finite :
    (UnpackedFloat.div Format.binary64 u (.finite s m e hm)).isNaN = false := by
  cases u with
  | notANumber | infinity => cases hu
  | zero => rfl
  | finite => exact isNaN_roundWithAccuracy ..

end Finite

theorem isFinite_toFloat {n : ℕ} (hlt : n < 2 ^ 53) :
    n.toUInt64.toFloat.toModel.unpack.isFinite = true := by
  change (Float.Model.pack (UnpackedFloat.ofNat _ n.toUInt64.toNat)).unpack.isFinite = _
  rw [Nat.toUInt64_eq, UInt64.toNat_ofNat_of_lt' (by change n < 2 ^ 64; omega)]
  rcases Nat.eq_zero_or_pos n with rfl | hn
  · rfl
  · rw [ofNat_eq_whole hn hlt, unpack_pack_whole hn hlt]
    rfl

/-- **A decimal number is no NaN.** -/
theorem isNaN_ofScientific (m : ℕ) (s : Bool) (e : ℕ) :
    (Float.ofScientific m s e).isNaN = false := by
  have hmodel : ∀ e : ℤ, (Float.Model.ofScientific m e).unpack.isNaN = false := by
    refine fun e => isNaN_unpack_pack ?_
    rw [UnpackedFloat.ofScientific]
    split_ifs
    · rfl
    · rfl
    · rfl
    · exact isNaN_mul_finite rfl ..
    · exact isNaN_div_finite rfl ..
  rw [Float.ofScientific]
  split_ifs with h hs hs
  · have he : e < Float.exactlyRepresentablePowersOfTen.size := Nat.lt_succ_of_le h.2
    obtain ⟨s', m', k, hm', hpower⟩ := unpack_power he
    dsimp only
    generalize Float.exactlyRepresentablePowersOfTen[e] = y at hpower
    refine isNaN_unpack_pack ?_
    rw [hpower]
    exact isNaN_div_finite (isFinite_toFloat h.1) ..
  · have he : e < Float.exactlyRepresentablePowersOfTen.size := Nat.lt_succ_of_le h.2
    obtain ⟨s', m', k, hm', hpower⟩ := unpack_power he
    dsimp only
    generalize Float.exactlyRepresentablePowersOfTen[e] = y at hpower
    refine isNaN_unpack_pack ?_
    rw [hpower]
    exact isNaN_mul_finite (isFinite_toFloat h.1) ..
  · exact hmodel _
  · exact hmodel _

/-- **An integer is no NaN.** -/
theorem isNaN_ofInt (i : ℤ) : (Float.ofInt i).isNaN = false := by
  cases i with
  | ofNat n => exact isNaN_ofScientific ..
  | negSucc n => exact isNaN_neg (isNaN_ofScientific ..)

/-! ## Integers -/

/-- An integer is a double, which is a whole number again. -/
structure Binary.Denotes (b : Binary) (i : ℤ) : Prop where
  negative : b.negative = decide (i < 0)
  wholePart : b.wholePart = i.natAbs
  isWhole : b.isWhole = true

theorem Binary.denotes_mul_pow {negative : Bool} {i : ℤ} (h : negative = decide (i < 0)) (k : ℕ) :
    (⟨negative, i.natAbs * 2 ^ k, -(k : ℤ)⟩ : Binary).Denotes i := by
  cases k with
  | zero =>
    rw [Nat.pow_zero, Nat.mul_one]
    exact ⟨h, rfl, rfl⟩
  | succ k =>
    have hwhole : i.natAbs * 2 ^ (k + 1) % 1 <<< (k + 1) = 0 := by
      rw [Nat.shiftLeft_eq, Nat.one_mul, Nat.mul_mod_left]
    refine ⟨h, ?_, beq_of_eq hwhole⟩
    change (i.natAbs * 2 ^ (k + 1)) >>> (k + 1) = i.natAbs
    rw [Nat.shiftRight_eq_div_pow, Nat.mul_div_cancel _ (Nat.two_pow_pos _)]

theorem Binary.Denotes.truncated {b : Binary} {i : ℤ} (h : b.Denotes i) : b.truncated = i := by
  rw [Binary.truncated, h.negative, h.wholePart]
  by_cases hi : i < 0
  · rw [decide_eq_true hi, if_pos rfl]
    omega
  · rw [decide_eq_false hi, if_neg Bool.false_ne_true]
    omega

theorem unpack_ofInt {i : ℤ} (hi : 0 < i.natAbs) (hlt : i.natAbs < 2 ^ 53) :
    ∃ s, (Float.ofInt i).toModel.unpack = whole s i.natAbs hi ∧ isNegative s = decide (i < 0) := by
  cases i with
  | ofNat n => exact ⟨.positive, unpack_ofNat hi hlt, rfl⟩
  | negSucc n =>
    exact ⟨.negative, unpack_neg_ofNat hi hlt, (decide_eq_true (Int.negSucc_lt_zero n)).symm⟩

/-- **An integer of less than 53 bits is a double that denotes it.** -/
theorem Reading.ofFloat_ofInt {i : ℤ} (hlt : i.natAbs < 2 ^ 53) :
    ∃ b : Binary, ofFloat (Float.ofInt i) = .finite b ∧ b.Denotes i := by
  rcases Nat.eq_zero_or_pos i.natAbs with hzero | hpos
  · obtain rfl := Int.natAbs_eq_zero.mp hzero
    exact ⟨⟨false, 0, -1074⟩, by decide +kernel, rfl, by decide +kernel, by decide +kernel⟩
  · obtain ⟨s, hunpack, hs⟩ := unpack_ofInt hpos hlt
    rw [ofFloat_eq, hunpack]
    exact ⟨_, rfl, Binary.denotes_mul_pow hs _⟩

theorem Int32.natAbs_toInt_lt (i : Int32) : i.toInt.natAbs < 2 ^ 53 := by
  have hlow := i.le_toInt
  have hhigh := i.toInt_lt
  omega

/-- **An integer value as a count** is the integer, or zero if it is negative. -/
theorem Value.toCount_integer (i : Int32) : (integer i).toCount = i.toInt.toNat := by
  have hlt := Int32.natAbs_toInt_lt i
  have hhigh := i.toInt_lt
  obtain ⟨b, hread, hb⟩ := Reading.ofFloat_ofInt hlt
  have htruncate : truncate (Float.ofInt i.toInt) = Float.ofInt i.toInt := by
    rw [truncate, hread]
    exact if_pos hb.isWhole
  have hinteger : (integer i).toInteger = Float.ofInt i.toInt := by
    rw [toInteger, toNumber, isNaN_ofInt, htruncate]
    rfl
  rw [toCount, hinteger, ActionVm.toCount, hread]
  dsimp only
  rw [hb.negative, hb.wholePart]
  by_cases hneg : i.toInt < 0
  · rw [decide_eq_true hneg, if_pos rfl, Int.toNat_of_nonpos hneg.le]
  · rw [decide_eq_false hneg, if_neg Bool.false_ne_true, topCount]
    omega

end ActionVm
